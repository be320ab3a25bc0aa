import Epistle.Lib.Octets
import Epistle.Lib.Text
import Epistle.Lib.Utf8
import Epistle.Util.HeaderBlock

/-!
# The fields of a header block

How `smtp/trace` reads the lines of a header block: where the block ends, which lines go on with the
field above, and the name of the field a line starts. A name is read as the readers that come later
read it: colons and white space in front of it are folded away, and so is the white space behind.
-/

namespace Epistle.Smtp.Trace

open Lib Lib.Octets List

def colon : UInt8 := 58

/-- Where the header ends. -/
def headerBlockEnd (data : List UInt8) : ℕ := (Util.HeaderBlock.splitAtBlankLine data).1.length

/-- Whether a line continues a field. -/
def isContinuation (line : List UInt8) : Bool := line.head? = some 32 || line.head? = some 9

def trimAsciiEnd (l : List UInt8) : List UInt8 := (l.reverse.dropWhile isAsciiWhitespace).reverse

def foldTrailingSpace (name : List UInt8) : List UInt8 :=
  match Utf8.decode name with
  | some text => Utf8.encode (Text.trimEnd text)
  | none => name

def nameStart (line : List UInt8) : ℕ :=
  (line.takeWhile fun byte => byte = colon || isAsciiWhitespace byte).length

def splitFieldFrom (line : List UInt8) (offset : ℕ) : Option (List UInt8 × List UInt8) :=
  let rest := line.drop offset
  if colon ∈ rest then
    some (foldTrailingSpace (trimAsciiEnd (rest.takeWhile (· ≠ colon))),
      (rest.dropWhile (· ≠ colon)).tail)
  else none

/-- The name and the value of a field. -/
def splitField (line : List UInt8) : Option (List UInt8 × List UInt8) :=
  splitFieldFrom line (nameStart line)

/-- The name of a field. -/
def fieldName (line : List UInt8) : Option (List UInt8) := (splitField line).map Prod.fst

/-- Whether two names are the same, without regard to case and white space. -/
def sameName (name wanted : List UInt8) : Bool :=
  eqIgnoreCase (name.filter (!isAsciiWhitespace ·)) (wanted.filter (!isAsciiWhitespace ·))

lemma blockOfLines_isPrefix (lines : List (List UInt8)) :
    (Util.HeaderBlock.blockOfLines lines).1 <+: lines.flatten := by
  induction lines with
  | nil => exact prefix_refl _
  | cons line rest ih =>
    rw [Util.HeaderBlock.blockOfLines, flatten_cons]
    split_ifs
    · exact nil_prefix
    · exact (prefix_append_right_inj line).2 ih

lemma take_headerBlockEnd (data : List UInt8) :
    data.take (headerBlockEnd data) = (Util.HeaderBlock.splitAtBlankLine data).1 := by
  have hpre := blockOfLines_isPrefix (Lines.splitInclusive lf data)
  rw [Lines.flatten_splitInclusive] at hpre
  exact (prefix_iff_eq_take.1 hpre).symm

lemma headerBlockEnd_le (data : List UInt8) : headerBlockEnd data ≤ data.length := by
  have hpre := blockOfLines_isPrefix (Lines.splitInclusive lf data)
  rw [Lines.flatten_splitInclusive] at hpre
  exact hpre.length_le

end Epistle.Smtp.Trace
