import Epistle.Lib.Text

/-!
# MTA-STS policies

The policy document of a domain and the TXT record that announces it (`mtasts/policy`, RFC 8461
sections 3.1 and 3.2). Unknown keys are ignored; a key that is given twice counts as given last,
apart from `mx`, of which there may be several.
-/

namespace Epistle.Mtasts

open Lib.Text

/-- What a policy asks for. -/
inductive Mode
  | enforce
  | testing
  | none
  deriving DecidableEq, Repr

/-- A policy document. -/
structure Policy where
  mode : Mode
  mx : List (List Char)
  maxAge : ℕ
  deriving DecidableEq, Repr

/-- Why there is no policy. -/
inductive PolicyError
  | notFound
  | temporary (why : List Char)
  | malformed (why : List Char)
  deriving DecidableEq, Repr

/-- What has been read of a document. -/
structure Fields where
  version : Option (List Char)
  mode : Option Mode
  maxAge : Option ℕ
  mx : List (List Char)

def parseMode (value : List Char) : Except PolicyError Mode :=
  if value = "enforce".toList then .ok .enforce
  else if value = "testing".toList then .ok .testing
  else if value = "none".toList then .ok .none
  else .error (.malformed ("unknown mode ".toList ++ value))

def parseLine (f : Fields) (line : List Char) : Except PolicyError Fields :=
  let line := trim (line.rdropWhile (· = '\r'))
  if line = [] then .ok f
  else
    match splitOnce ':' line with
    | .none => .error (.malformed ("bad line \"".toList ++ line ++ "\"".toList))
    | some (key, value) =>
        let key := trim key
        let value := trim value
        if key = "version".toList then .ok { f with version := some value }
        else if key = "mode".toList then
          (parseMode value).map fun mode => { f with mode := some mode }
        else if key = "max_age".toList then
          match parseUnsigned (2 ^ 64) value with
          | .none => .error (.malformed "bad max_age".toList)
          | some maxAge => .ok { f with maxAge := some maxAge }
        else if key = "mx".toList then .ok { f with mx := f.mx ++ [toLower value] }
        -- Unknown keys are ignored for forward compatibility.
        else .ok f

/-- Read a policy document. -/
def parse (text : List Char) : Except PolicyError Policy := do
  let f ← (lines text).foldlM parseLine ⟨.none, .none, .none, []⟩
  if f.version ≠ some "STSv1".toList then
    throw (.malformed "version must be STSv1".toList)
  let some mode := f.mode | throw (.malformed "missing mode".toList)
  if mode ≠ .none ∧ f.mx = [] then
    throw (.malformed "missing mx entries".toList)
  let some maxAge := f.maxAge | throw (.malformed "missing max_age".toList)
  return ⟨mode, f.mx, maxAge⟩

/-- The id that a TXT record publishes. -/
def parseTxtId (record : List Char) : Option (List Char) := do
  let rest ← stripPrefix "v=STSv1".toList record
  (rest.splitOn ';').findSome? fun part => stripPrefix "id=".toList (trim part)

end Epistle.Mtasts
