import Epistle.Lib.Table
import Epistle.Lib.Text
import Mathlib.Data.String.Basic

/-!
# Sieve scripts, and the budget of one run

A script is text its owner wrote, run against mail anyone can send. What one run may do is
bounded by its `Env`: the variables it keeps and how long they are, the commands and tests it
executes, the matching work it asks for. A run that overspends is exhausted and stays so.

Tests read the message and the run's state. A test that compares text reaches the state only through
the methods of `Env`, so such a test is given as a `Probe`: a tree of calls to these methods, with
an answer at each leaf.
-/

namespace Epistle.Sieve

open Epistle.Lib (Table)

/-! ### Syntax -/

/-- An argument of a command. -/
inductive Argument where
  | str (s : String)
  | strList (l : List String)
  | number (n : ℕ)
  | tag (t : String)
deriving DecidableEq, Repr

/-- A test: its name, its arguments, and the tests under `not`, `allof` or `anyof`. -/
inductive Test where
  | mk (name : String) (args : List Argument) (children : List Test)

/-- A command: an action, or a conditional with its branches and its `else` body. -/
inductive Command where
  /-- An action command. -/
  | action (name : String) (args : List Argument)
  | cond (branches : List (Test × List Command)) (otherwise : Option (List Command))

def firstStr (args : List Argument) : Option String :=
  args.findSome? fun
    | .str s => some s
    | _ => none

def strings (args : List Argument) : List String :=
  args.flatMap fun
    | .str s => [s]
    | .strList l => l
    | _ => []

def hasTag (args : List Argument) (tag : String) : Bool := args.contains (.tag tag)

/-! ### Variables and counters -/

def maxVarBytes : ℕ := 4096

/-- The most octets all of a run's variables may hold together. -/
def maxVarsTotalBytes : ℕ := 64 * 1024

/-- The most variables of a run. -/
def maxVars : ℕ := 128

def maxVarName : ℕ := 64

/-- The most commands executed and tests evaluated in one run. -/
def maxSteps : ℕ := 20000

/-- The most work of a run. -/
def maxWork : ℕ := 256 * 1024 * 1024

def maxWildcards : ℕ := 32

/-- Variables and counters of one run. -/
structure Env where
  /-- The variables the script set. -/
  vars : Table String String
  /-- The match variables, from `0` on. -/
  captures : List String
  varBytes : ℕ
  /-- Commands and tests so far. -/
  steps : ℕ
  work : ℕ
  /-- The run spent more than it may. -/
  exhausted : Bool
  /-- A test did not look at the whole of what it was asked about. -/
  truncated : Bool
  /-- A `:matches` key was over the length or wildcard caps. -/
  patternOverCaps : Bool

def octets (s : String) : ℕ := s.utf8ByteSize

def cutChars : ℕ → List Char → List Char
  | _, [] => []
  | limit, c :: cs => if c.utf8Size ≤ limit then c :: cutChars (limit - c.utf8Size) cs else []

def cut (text : String) (limit : ℕ) : String := String.ofList (cutChars limit text.toList)

def captureIndex (name : String) : Option ℕ :=
  if name.toList ≠ [] ∧ octets name ≤ 3 ∧ name.toList.all Char.isDigit then name.toNat? else none

/-- The text before a `${`, and after it. -/
def findReference : List Char → Option (List Char × List Char)
  | [] => none
  | c :: rest =>
    match c, rest with
    | '$', '\x7b' :: after => some ([], after)
    | _, _ => (findReference rest).map fun x => (c :: x.1, x.2)

lemma findReference_length {s a b : List Char} (h : findReference s = some (a, b)) :
    b.length < s.length := by
  induction s generalizing a b with
  | nil => cases h
  | cons c rest ih =>
    rw [findReference.eq_def] at h
    dsimp only at h
    split at h
    · cases h
      simp only [List.length_cons]
      omega
    · obtain ⟨x, hx, hxe⟩ := Option.map_eq_some_iff.1 h
      cases hxe
      exact (ih hx).trans (Nat.lt_succ_self _)

def pushBounded (out : String) (text : List Char) (limit : ℕ) : String :=
  out ++ String.ofList (cutChars (limit - octets out) text)

/-- Substitute `${name}` references with set variable values, building no more than `limit` octets.
-/
def expandFrom (lookup : String → Option String) (limit : ℕ) (rest : List Char) (out : String) :
    String :=
  match _h : findReference rest with
  | none => pushBounded out rest limit
  | some (before, after) =>
    let out := pushBounded out before limit
    match _h' : Epistle.Lib.Text.splitOnce '\x7d' after with
    | none => pushBounded out ('$' :: '\x7b' :: after) limit
    | some (name, rest') =>
      let out := pushBounded out ((lookup (String.ofList name)).getD "").toList limit
      if limit ≤ octets out then out else expandFrom lookup limit rest' out
termination_by rest.length
decreasing_by
  have h1 := findReference_length _h
  obtain ⟨h2, -⟩ := Epistle.Lib.Text.splitOnce_eq_some.1 _h'
  rw [h2] at h1
  simp only [List.length_append, List.length_cons] at h1
  omega

namespace Env

/-- The state a run starts with. -/
def default : Env := ⟨Table.empty, [], 0, 0, 0, false, false, false⟩

/-- Count one command or test. -/
def step (e : Env) : Env :=
  { e with steps := e.steps + 1, exhausted := e.exhausted || maxSteps < e.steps + 1 }

/-- The run is exhausted. -/
def abandon (e : Env) : Env := { e with exhausted := true }

def remainingWork (e : Env) : ℕ := maxWork - e.work

/-- Charge some work; a run that has none left is exhausted. -/
def charge (e : Env) (units : ℕ) : Env :=
  { e with work := e.work + units, exhausted := e.exhausted || maxWork < e.work + units }

/-- Note that a test looked at less than the whole message. -/
def markTruncated (e : Env) : Env := { e with truncated := true }

def notePatternOverCaps (e : Env) : Env := { e with patternOverCaps := true }

/-- The value of a variable. -/
def get (e : Env) (name : String) : Option String :=
  match captureIndex name with
  | some index => e.captures[index]?
  | none => e.vars.get name

def setCaptures (e : Env) (whole : String) (parts : List String) : Env :=
  { e with captures := cut whole maxVarBytes :: (parts.take maxWildcards).map (cut · maxVarBytes) }

/-- Set a variable, within the limits. -/
def set (e : Env) (name value : String) : Env :=
  let value := cut value maxVarBytes
  match captureIndex name with
  | some index =>
    if maxWildcards < index then e.abandon
    else
      -- The captures grow up to the index with empty strings.
      { e with captures :=
          (e.captures ++ List.replicate (index + 1 - e.captures.length) "").set index value }
  | none =>
    let old := ((e.vars.get name).map octets).getD 0
    let isNew := (e.vars.get name).isNone
    if maxVarName < octets name ∨ (isNew ∧ maxVars ≤ e.vars.size) ∨
        maxVarsTotalBytes < e.varBytes - old + octets value then e.abandon
    else { e with vars := e.vars.set name value, varBytes := e.varBytes - old + octets value }

/-- A text with its variables in place. -/
def expand (e : Env) (input : String) : String × Env :=
  let e := e.charge (octets input)
  let out := expandFrom e.get (max (octets input) maxVarBytes) input.toList ""
  (out, e.charge (octets out))

/-! No method makes an exhausted run go on. -/

variable {e : Env}

lemma exhausted_step (h : e.exhausted = true) : e.step.exhausted = true := by
  simp [step, h]

end Env

/-! ### Tests -/

/-- A test that compares text, as the calls it makes to the run's state and its answer. -/
inductive Probe where
  | answer (b : Bool)
  /-- Spend work, and learn whether the run is out of it. -/
  | charge (units : ℕ) (next : Bool → Probe)
  | remainingWork (next : ℕ → Probe)
  | setCaptures (whole : String) (parts : List String) (next : Probe)
  | notePatternOverCaps (next : Probe)
  /-- Note that not all of the message was looked at. -/
  | markTruncated (next : Probe)
  | abandon (next : Probe)

def Probe.run : Probe → Env → Bool × Env
  | .answer b, e => (b, e)
  | .charge units next, e => (next (!(e.charge units).exhausted)).run (e.charge units)
  | .remainingWork next, e => (next e.remainingWork).run e
  | .setCaptures whole parts next, e => next.run (e.setCaptures whole parts)
  | .notePatternOverCaps next, e => next.run e.notePatternOverCaps
  | .markTruncated next, e => next.run e.markTruncated
  | .abandon next, e => next.run e.abandon

/-- A message, as tests see it. -/
structure Message where
  /-- Whether it has more headers than are read. -/
  headersCut : Bool
  /-- Whether a header is among those read. -/
  hasHeader : String → Bool
  /-- What a test on its headers, envelope, body, size or date, on the time or on the mailboxes of
  the account does. -/
  probe : (name : String) → List Argument → Probe

def lookupCost (name : String) : ℕ := 64 + octets name

def existsTest (message : Message) : List String → Env → Bool × Env
  | [], e => (true, e)
  | name :: names, e =>
    let e := e.charge (lookupCost name)
    if !e.exhausted && message.hasHeader name then existsTest message names e else (false, e)

mutual

/-- The value of a test. -/
def evalTest (message : Message) : Test → Env → Bool × Env
  | .mk name args children, e =>
    let e := e.step
    if e.exhausted then (false, e)
    else if name = "true" then (true, e)
    else if name = "false" then (false, e)
    else if name = "not" then
      let (b, e) := evalFirst message children e
      (!b, e)
    else if name = "allof" then evalAll message children e
    else if name = "anyof" then evalAny message children e
    else if name = "exists" then
      existsTest message (strings args) (if message.headersCut then e.markTruncated else e)
    else (message.probe name args).run e

def evalFirst (message : Message) : List Test → Env → Bool × Env
  | [], e => (false, e)
  | t :: _, e => evalTest message t e

def evalAll (message : Message) : List Test → Env → Bool × Env
  | [], e => (true, e)
  | t :: ts, e =>
    let (b, e) := evalTest message t e
    if b then evalAll message ts e else (false, e)

def evalAny (message : Message) : List Test → Env → Bool × Env
  | [], e => (false, e)
  | t :: ts, e =>
    let (b, e) := evalTest message t e
    if b then (true, e) else evalAny message ts e

end

lemma evalTest_exhausted (message : Message) (t : Test) {e : Env} (h : e.exhausted = true) :
    evalTest message t e = (false, e.step) := by
  obtain ⟨name, args, children⟩ := t
  rw [evalTest]
  exact if_pos (Env.exhausted_step h)

end Epistle.Sieve
