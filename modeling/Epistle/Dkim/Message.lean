import Epistle.Lib.Text
import Epistle.Lib.Utf8
import Epistle.Util.HeaderBlock

/-!
# The message a DKIM verifier reads

A raw message split into its header fields and its body (`dkim/verify`, `Message::split`). A field
is a line and the lines that continue it; its name is what stands before the first colon, which may
be on a continuation line.
-/

namespace Epistle.Dkim

open Lib Lib.Text Lib.Lines Util.HeaderBlock Option

/-- A header field. `rawName` keeps the white space before the colon. -/
structure Header where
  name : List Char
  rawName : List Char
  value : List Char
  name_eq : name = trimEnd rawName
  deriving DecidableEq

structure Message where
  headers : List Header
  body : List UInt8
  deriving DecidableEq

/-- The longest header that is looked at. -/
def maxHeaderBytes : ℕ := 2 * 1024 * 1024

/-- One field, from the text of its lines. -/
def parseHeader (raw : List Char) : Option Header := do
  let (name, value) ← splitOnce ':' (chomp '\r' '\n' raw)
  return { name := trimEnd name, rawName := name, value, name_eq := rfl }

/-- The field that is complete when another starts, or the block ends. -/
def finishHeader : Option (List Char) → Option (List Header)
  | none => some []
  | some raw => (parseHeader raw).map ([·])

/-- The header fields of a block, unfolded from its lines. -/
def scanHeaders (current : Option (List Char)) : List (List Char) → Option (List Header)
  | [] => finishHeader current
  | line :: rest =>
      if continues (content line) then
        match current with
        | some raw => scanHeaders (some (raw ++ line)) rest
        | none => none
      else do
        let done ← finishHeader current
        let more ← scanHeaders (if content line = [] then none else some line) rest
        return done ++ more

/-- The header fields and the body of a message. -/
def Message.split (raw : List UInt8) : Option Message := do
  let (rawHeader, body) := splitAtBlankLine raw
  -- The size is measured before the first field is parsed.
  if maxHeaderBytes < rawHeader.length then none
  else
    let headerBlock ← Utf8.decode rawHeader
    let headers ← scanHeaders none (splitInclusive '\n' headerBlock)
    return { headers, body }

def Header.padding (header : Header) : List Char := header.rawName.drop header.name.length

lemma Header.name_append_padding (header : Header) :
    header.name ++ header.padding = header.rawName := by
  obtain ⟨rest, hrest⟩ : header.name <+: header.rawName :=
    header.name_eq ▸ List.rdropWhile_prefix isWhitespace header.rawName
  simp [padding, ← hrest]

lemma parseHeader_eq_some {raw : List Char} {header : Header} :
    parseHeader raw = some header ↔
      chomp '\r' '\n' raw = header.rawName ++ ':' :: header.value ∧ ':' ∉ header.rawName := by
  obtain ⟨name, rawName, value, rfl⟩ := header
  simp only [parseHeader, bind_eq_bind, bind_eq_some_iff, Prod.exists,
    splitOnce_eq_some]
  constructor
  · rintro ⟨a, b, hab, heq⟩
    obtain ⟨-, rfl, rfl⟩ := Header.mk.inj (some.inj heq)
    exact hab
  · rintro hab
    exact ⟨rawName, value, hab, rfl⟩

lemma Message.split_eq_some {raw : List UInt8} {message : Message}
    (h : Message.split raw = some message) :
    (splitAtBlankLine raw).1.length ≤ maxHeaderBytes ∧
      (∃ block, Utf8.decode (splitAtBlankLine raw).1 = some block ∧
        scanHeaders none (splitInclusive '\n' block) = some message.headers) ∧
      message.body = (splitAtBlankLine raw).2 := by
  unfold Message.split at h
  dsimp only at h
  split_ifs at h with hsize
  simp only [bind_eq_bind, bind_eq_some_iff] at h
  obtain ⟨block, hblock, headers, hheaders, heq⟩ := h
  obtain rfl : { headers, body := (splitAtBlankLine raw).2 } = message := by simpa using heq
  exact ⟨Nat.le_of_not_lt hsize, ⟨block, hblock, hheaders⟩, rfl⟩

end Epistle.Dkim
