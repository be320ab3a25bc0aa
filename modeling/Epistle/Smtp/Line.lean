import Epistle.Lib.Crlf
import Epistle.Lib.Framer

/-!
# Strict CRLF line framing

The per-byte check `LineCheck` and the incremental decoder `LineDecoder` of `smtp/line/mod.rs`.
SMTP commands and DATA go through the decoder, a BDAT body through the check, and IMAP shares
the decoder with a longer limit. Octets are `UInt8`; lengths and counters are natural numbers,
since a buffer that is held in memory is shorter than any `usize` bound.

The check is advanced by value. A Rust caller whose `step` failed never looks at the check
again, so the failing results carry the error alone.
-/

namespace Epistle.Smtp

open Lib

abbrev dot : UInt8 := 46

/-- The longest line. -/
def maxLineLength : ℕ := 998

/-- Errors produced while decoding lines from the stream. -/
inductive LineError
  /-- A CR not followed by LF, or an LF not preceded by CR. -/
  | bareControlCharacter
  /-- A line longer than the decoder's limit. -/
  | tooLong
  | nulByte
  deriving DecidableEq, Repr

/-- What an octet leads to. -/
inductive Step
  /-- The byte belongs to a line that is not finished. -/
  | more
  /-- The byte was the LF of a CRLF. -/
  | endOfLine
  deriving DecidableEq, Repr

/-- The state of the framing rules between two bytes. -/
structure LineCheck where
  /-- Octets of the current line seen so far, a pending CR not counted. -/
  len : ℕ
  /-- The last byte was a CR still waiting for its LF. -/
  cr : Bool
  escapeDot : Bool
  deriving DecidableEq, Repr

namespace LineCheck

def new : LineCheck := ⟨0, false, false⟩

def stored : LineCheck := { new with escapeDot := true }

def resume (len : ℕ) : LineCheck := ⟨len, false, false⟩

/-- The check takes an octet. -/
def step (self : LineCheck) (byte : UInt8) (maxLine : ℕ) :
    Except LineError (Step × LineCheck) :=
  if self.cr then
    if byte ≠ lf then .error .bareControlCharacter
    else if self.len > maxLine then .error .tooLong
    else .ok (.endOfLine, { self with len := 0, cr := false })
  else if byte = nul then .error .nulByte
  else if byte = lf then .error .bareControlCharacter
  else if byte = Lib.cr then .ok (.more, { self with cr := true })
  else
    .ok (.more, { self with
      len := self.len + if self.escapeDot ∧ self.len = 0 ∧ byte = dot then 2 else 1 })

def checkOpen (self : LineCheck) (maxLine : ℕ) : Except LineError Unit :=
  if self.len + self.cr.toNat > maxLine + 1 then .error .tooLong else .ok ()

def steps (self : LineCheck) (maxLine : ℕ) : List UInt8 → Except LineError LineCheck
  | [] => .ok self
  | byte :: rest => do
      let (_, next) ← self.step byte maxLine
      next.steps maxLine rest

/-- The check takes octets. -/
def feed (self : LineCheck) (bytes : List UInt8) (maxLine : ℕ) :
    Except LineError LineCheck := do
  let check ← self.steps maxLine bytes
  check.checkOpen maxLine
  return check

/-- The stream ended: a CR still waiting for its LF is a bare CR, and a last line left open
past `maxLine` is too long. -/
def finish (self : LineCheck) (maxLine : ℕ) : Except LineError Unit :=
  if self.cr then .error .bareControlCharacter
  else if self.len > maxLine then .error .tooLong
  else .ok ()

end LineCheck

/-- A decoder of lines that end in CRLF. -/
structure LineDecoder where
  /-- Bytes received and not yet returned. -/
  buffer : List UInt8
  /-- The line limit, excluding CRLF. -/
  maxLine : ℕ
  /-- Bytes at the front of `buffer` already checked by `nextLine` and found to hold no CR, LF
  or NUL. -/
  scanned : ℕ
  deriving DecidableEq, Repr

namespace LineDecoder

def withLimit (maxLine : ℕ) : LineDecoder := ⟨[], maxLine, 0⟩

def new : LineDecoder := withLimit maxLineLength

def feed (self : LineDecoder) (bytes : List UInt8) : LineDecoder :=
  { self with buffer := self.buffer ++ bytes }

/-- Take octets that were not read as a line, at most so many. -/
def takeBuffered (self : LineDecoder) (max : ℕ) : List UInt8 × LineDecoder :=
  let take := min self.buffer.length max
  (self.buffer.take take, { self with buffer := self.buffer.drop take, scanned := 0 })

def discardBuffered (self : LineDecoder) (max : ℕ) : ℕ × LineDecoder :=
  let take := min self.buffer.length max
  (take, { self with buffer := self.buffer.drop take, scanned := 0 })

/-- The loop of `nextLine` over the bytes from index `i` on: the index of the LF that ends the
line, if the bytes hold one, and the check after the last byte it took. -/
def scan (maxLine : ℕ) (check : LineCheck) (i : ℕ) :
    List UInt8 → Except LineError (Option ℕ × LineCheck)
  | [] => .ok (none, check)
  | byte :: rest =>
      match check.step byte maxLine with
      | .error e => .error e
      | .ok (.endOfLine, next) => .ok (some i, next)
      | .ok (.more, next) => scan maxLine next (i + 1) rest

/-- The next line, if it is complete. -/
def nextLine (self : LineDecoder) :
    Except LineError (Option (List UInt8)) × LineDecoder :=
  match scan self.maxLine (.resume self.scanned) self.scanned (self.buffer.drop self.scanned) with
  | .error e => (.error e, self)
  | .ok (some i, _) =>
      -- `i` is the LF: the line ends before the CR.
      (.ok (some (self.buffer.take (i - 1))),
        { self with buffer := self.buffer.drop (i + 1), scanned := 0 })
  | .ok (none, check) =>
      -- A CR that is the last byte so far is not counted, and is looked at again.
      let next := { self with scanned := check.len }
      match check.checkOpen self.maxLine with
      | .error e => (.error e, next)
      | .ok () => (.ok none, next)

end LineDecoder

/-! ## The check on plain octets -/

namespace LineCheck

@[simp] lemma new_len : new.len = 0 := rfl
@[simp] lemma new_cr : new.cr = false := rfl
@[simp] lemma new_escapeDot : new.escapeDot = false := rfl

def width (escapeDot : Bool) (line : List UInt8) : ℕ :=
  line.length + if escapeDot ∧ line.head? = some dot then 1 else 0

@[simp] lemma width_nil (e : Bool) : width e [] = 0 := by simp [width]

lemma width_false : width false = List.length := by
  funext line
  simp [width]

lemma width_append_singleton (e : Bool) (line : List UInt8) (byte : UInt8) :
    width e (line ++ [byte]) =
      width e line + if e ∧ width e line = 0 ∧ byte = dot then 2 else 1 := by
  cases line with
  | nil =>
    simp only [width, List.nil_append, List.head?_cons, Option.some.injEq, List.head?_nil]
    split_ifs <;> simp_all
  | cons a line =>
    simp only [width, List.cons_append, List.head?_cons, List.length_cons]
    split_ifs <;> simp_all
    omega

def within (escapeDot : Bool) (line : List UInt8) : LineCheck :=
  ⟨width escapeDot line, false, escapeDot⟩

lemma step_within {byte : UInt8} (e : Bool) (line : List UInt8) (h : Plain byte) (max : ℕ) :
    (within e line).step byte max = .ok (.more, within e (line ++ [byte])) := by
  simp only [within, step, h.1, h.2.1, h.2.2, width_append_singleton, if_false,
    Bool.false_eq_true]
  rfl

lemma step_within_cr (e : Bool) (line : List UInt8) (max : ℕ) :
    (within e line).step Lib.cr max = .ok (.more, { within e line with cr := true }) := by
  simp [within, step]

lemma step_within_cr_lf (e : Bool) (line : List UInt8) (max : ℕ) :
    LineCheck.step { within e line with cr := true } lf max =
      if width e line > max then .error .tooLong else .ok (.endOfLine, within e []) := by
  simp [within, step]

lemma step_violation {q : List UInt8} (e : Bool) (line : List UInt8) (max : ℕ)
    (h : Violation q) :
    (∃ x r err, q = x :: r ∧ (within e line).step x max = .error err) ∨
      ∃ x r err, q = Lib.cr :: x :: r ∧
        LineCheck.step { within e line with cr := true } x max = .error err := by
  cases h with
  | nul r => exact .inl ⟨_, r, .nulByte, rfl, by simp [within, step]⟩
  | lf r => exact .inl ⟨_, r, .bareControlCharacter, rfl, by simp [within, step]⟩
  | cr hx r => exact .inr ⟨_, r, .bareControlCharacter, rfl, by simp [step, hx]⟩

end LineCheck

end Epistle.Smtp
