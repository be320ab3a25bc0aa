import Epistle.Lib.Crlf
import Epistle.Lib.Lines
import Epistle.Lib.Text

/-!
# Canonicalization

Header and body canonicalization (`dkim/canon`, RFC 6376 section 3.4).
-/

namespace Epistle.Dkim

open Lib Lib.Text Lib.Lines

/-- How a header or a body is brought into its canonical form. -/
inductive Canon
  | simple
  | relaxed
  deriving DecidableEq, Repr

/-- White space of a header, line breaks included. -/
def isFws (c : Char) : Bool := c = ' ' || c = '\t' || c = '\r' || c = '\n'

def collapseStep (st : List Char × Bool) (c : Char) : List Char × Bool :=
  if isFws c then (st.1, true)
  else if st.2 && st.1 ≠ [] then (st.1 ++ [' ', c], false)
  else (st.1 ++ [c], false)

/-- A text with each run of white space as one blank. -/
def collapse (value : List Char) : List Char := (value.foldl collapseStep ([], false)).1

/-- A header line in its canonical form. -/
def Canon.header (canon : Canon) (name value : List Char) : List Char :=
  match canon with
  | .simple => name ++ ':' :: value ++ ['\r', '\n']
  | .relaxed => toLower name ++ ':' :: collapse value ++ ['\r', '\n']

def dropEmptyLines : List UInt8 → List UInt8
  | 10 :: 13 :: 10 :: 13 :: rest => dropEmptyLines (10 :: 13 :: rest)
  | reversed => reversed

/-- A body with one line end in place of the empty lines at its end. -/
def simpleBody (body : List UInt8) : List UInt8 :=
  let out := (dropEmptyLines body.reverse).reverse
  if out = crlf then crlf
  else if out = [] then crlf
  else if crlf <:+ out then out
  else out ++ crlf

/-- One octet of a line, with whether white space comes before it. -/
def wspStep (st : List UInt8 × Bool) (byte : UInt8) : List UInt8 × Bool :=
  if byte = 32 || byte = 9 then (st.1, true)
  else if st.2 then (st.1 ++ [32, byte], false)
  else (st.1 ++ [byte], false)

def collapseWsp (line : List UInt8) : List UInt8 := (line.foldl wspStep ([], false)).1

def bodyLine (line : List UInt8) : List UInt8 :=
  if crlf <:+ line then line.dropLast.dropLast else stripLast lf line

def relaxedLines (emptyLines : ℕ) : List (List UInt8) → List UInt8
  | [] => []
  | line :: rest =>
      let canonical := collapseWsp (bodyLine line)
      if canonical = [] then relaxedLines (emptyLines + 1) rest
      else (List.replicate emptyLines crlf).flatten ++ canonical ++ crlf ++ relaxedLines 0 rest

/-- A body without white space at the ends of lines, and with runs of it as one blank. -/
def relaxedBody (body : List UInt8) : List UInt8 := relaxedLines 0 (splitInclusive lf body)

/-- A body in its canonical form. -/
def Canon.body (canon : Canon) (body : List UInt8) : List UInt8 :=
  match canon with
  | .simple => simpleBody body
  | .relaxed => relaxedBody body

/-! ## Without white space -/

/-- A text without its white space. -/
def compact (s : List Char) : List Char := s.filter (!isWhitespace ·)

@[simp] lemma compact_append (s t : List Char) : compact (s ++ t) = compact s ++ compact t :=
  List.filter_append ..

end Epistle.Dkim
