import Epistle.Lib.Crlf
import Epistle.Lib.Lines

/-!
# The header block of a message

Where the header block of a raw message ends (`util/header_block`), and what the readers of the
block ask of its lines. The block ends at the first empty line, whichever way that line is ended;
without one the whole message is header.

* `frameGenerated_framed`: a generated message is framed by CRLF alone.
-/

namespace Epistle.Util.HeaderBlock

open Lib Lib.Lines List

def unterminated (line : List UInt8) : List UInt8 := stripLast cr (stripLast lf line)

def blockOfLines : List (List UInt8) → List UInt8 × List UInt8
  | [] => ([], [])
  | line :: rest =>
      if unterminated line = [] then ([], rest.flatten)
      else (line ++ (blockOfLines rest).1, (blockOfLines rest).2)

/-- The header and the body of a message. -/
def splitAtBlankLine (raw : List UInt8) : List UInt8 × List UInt8 :=
  blockOfLines (splitInclusive lf raw)

def content (line : List Char) : List Char := chomp '\r' '\n' line

/-- Whether a line goes on with the field above it. -/
def continues (content : List Char) : Bool :=
  content.head? = some ' ' || content.head? = some '\t'

lemma unterminated_ne_nil {line : List UInt8} {b : UInt8} (h : b ∈ line) (hcr : b ≠ cr)
    (hlf : b ≠ lf) : unterminated line ≠ [] :=
  ne_nil_of_mem (mem_stripLast (mem_stripLast h hlf) hcr)

lemma blockOfLines_append {front : List (List UInt8)} (h : ∀ line ∈ front, unterminated line ≠ [])
    (rest : List (List UInt8)) :
    blockOfLines (front ++ rest) =
      (front.flatten ++ (blockOfLines rest).1, (blockOfLines rest).2) := by
  induction front with
  | nil => rfl
  | cons line front ih =>
    obtain ⟨hline, hfront⟩ := forall_mem_cons.1 h
    simp [blockOfLines, hline, ih hfront]

lemma splitAtBlankLine_append {front : List UInt8}
    (hblank : ∀ line ∈ splitInclusive lf (front ++ [lf]), unterminated line ≠ [])
    (raw : List UInt8) :
    splitAtBlankLine (front ++ [lf] ++ raw) =
      (front ++ [lf] ++ (splitAtBlankLine raw).1, (splitAtBlankLine raw).2) := by
  rw [splitAtBlankLine, splitInclusive_append, blockOfLines_append hblank, flatten_splitInclusive]
  rfl

/-! ## Line ends of what is sent -/

/-- Whether there is a NUL, or a carriage return that no line feed follows. -/
def hasUnframedByte : List UInt8 → Bool
  | [] => false
  | byte :: rest =>
      byte = nul || (byte = cr && rest.head? ≠ some lf) || hasUnframedByte rest

def lineFeedsFollow (previous : Option UInt8) : List UInt8 → Bool
  | [] => true
  | byte :: rest => (byte ≠ lf || previous = some cr) && lineFeedsFollow (some byte) rest

def normalizeFrom (previous : Option UInt8) : List UInt8 → List UInt8
  | [] => []
  | byte :: rest =>
      (if byte = lf ∧ previous ≠ some cr then [cr, byte] else [byte]) ++
        normalizeFrom (some byte) rest

/-- A message with line ends of one kind. -/
def outboundCrlf (data : List UInt8) : List UInt8 :=
  if crlf <:+ data ∧ lineFeedsFollow none data then data
  else
    let normalized := normalizeFrom none data
    if crlf <:+ normalized then normalized else normalized ++ crlf

/-- What stands for an octet of a generated message. -/
def frameByte (byte : UInt8) : List UInt8 :=
  if byte = nul then [] else if byte = cr ∨ byte = lf then crlf else [byte]

/-- Every line end of a generated message as CRLF, without its NULs. -/
def frame : List UInt8 → List UInt8
  | [] => []
  | [byte] => frameByte byte
  | byte :: next :: rest =>
      if byte = cr ∧ next = lf then crlf ++ frame rest else frameByte byte ++ frame (next :: rest)

/-- A message the server wrote itself, made fit to queue. -/
def frameGenerated (data : List UInt8) : List UInt8 :=
  if hasUnframedByte data then outboundCrlf (frame data) else outboundCrlf data

variable {data : List UInt8}

lemma frame_cons {byte : UInt8} {rest : List UInt8} (h : byte = cr → rest.head? ≠ some lf) :
    frame (byte :: rest) = frameByte byte ++ frame rest := by
  cases rest with
  | nil => simp [frame]
  | cons next rest => rw [frame, if_neg fun hcrlf => h hcrlf.1 (congrArg some hcrlf.2)]

lemma frame_crlf (rest : List UInt8) : frame (cr :: lf :: rest) = cr :: lf :: frame rest := by
  simp [frame, crlf]

lemma strict_frame (data : List UInt8) : Strict (frame data) := by
  induction data using crlf_induction with
  | nil => exact strict_nil
  | line rest ih => exact frame_crlf rest ▸ ih.crlf
  | octet byte rest h ih =>
    rw [frame_cons h, frameByte]
    split_ifs with hnul hend
    · exact ih
    · exact ih.crlf
    · exact ih.plain_cons ⟨hnul, fun hlf => hend (.inr hlf), fun hcr => hend (.inl hcr)⟩

lemma strict_normalizeFrom (previous : Option UInt8) (hprevious : previous ≠ some cr)
    (h : hasUnframedByte data = false) : Strict (normalizeFrom previous data) := by
  induction data using crlf_induction generalizing previous with
  | nil => exact strict_nil
  | line rest ih =>
    simp only [normalizeFrom]
    exact (ih _ (by decide) (by simpa [hasUnframedByte] using h)).crlf
  | octet byte rest hcr ih =>
    simp only [hasUnframedByte, Bool.or_eq_false_iff, decide_eq_false_iff_not] at h
    obtain ⟨⟨hnul, hframed⟩, hrest⟩ := h
    have hbyte : byte ≠ cr := fun heq => by simp [heq, hcr heq] at hframed
    have ih' := ih (some byte) (by simpa using hbyte) hrest
    rw [normalizeFrom]
    split_ifs with hlf
    · rw [hlf.1] at ih' ⊢
      exact ih'.crlf
    · exact ih'.plain_cons ⟨hnul, fun heq => hlf ⟨heq, hprevious⟩, hbyte⟩

lemma hasUnframedByte_of_strict (h : Strict data) : hasUnframedByte data = false := by
  induction data using crlf_induction with
  | nil => rfl
  | line rest ih => simpa [hasUnframedByte] using ih h.of_crlf
  | octet byte rest hcr ih =>
    have hplain := h.plain_head hcr
    simp [hasUnframedByte, hplain.1, hplain.2.2, ih (h.of_plain_cons hplain)]

lemma normalizeFrom_of_lineFeedsFollow {previous : Option UInt8}
    (h : lineFeedsFollow previous data) : normalizeFrom previous data = data := by
  induction data generalizing previous with
  | nil => rfl
  | cons byte rest ih =>
    simp only [lineFeedsFollow, Bool.and_eq_true, Bool.or_eq_true, decide_eq_true_eq] at h
    rw [normalizeFrom, if_neg fun hlf => h.1.elim (· hlf.1) hlf.2, ih h.2]
    rfl

lemma lineFeedsFollow_of_strict (h : Strict data) (previous : Option UInt8) :
    lineFeedsFollow previous data := by
  induction data using crlf_induction generalizing previous with
  | nil => rfl
  | line rest ih => simpa [lineFeedsFollow] using ih h.of_crlf _
  | octet byte rest hcr ih =>
    have hplain := h.plain_head hcr
    simp [lineFeedsFollow, hplain.2.1, ih (h.of_plain_cons hplain)]

lemma outboundCrlf_eq (data : List UInt8) :
    outboundCrlf data = if crlf <:+ normalizeFrom none data then normalizeFrom none data
      else normalizeFrom none data ++ crlf := by
  unfold outboundCrlf
  by_cases hfit : crlf <:+ data ∧ lineFeedsFollow none data
  · rw [if_pos hfit, normalizeFrom_of_lineFeedsFollow hfit.2, if_pos hfit.1]
  · rw [if_neg hfit]

lemma strict_append_crlf (h : Strict data) : Strict (data ++ crlf) := by
  induction data using crlf_induction with
  | nil => exact strict_nil.crlf
  | line rest ih => exact (ih h.of_crlf).crlf
  | octet byte rest hcr ih =>
    have hplain := h.plain_head hcr
    exact (ih (h.of_plain_cons hplain)).plain_cons hplain

lemma strict_outboundCrlf (h : hasUnframedByte data = false) :
    Strict (outboundCrlf data) ∧ crlf <:+ outboundCrlf data := by
  have hstrict := strict_normalizeFrom none (by simp) h
  rw [outboundCrlf_eq]
  split_ifs with hend
  · exact ⟨hstrict, hend⟩
  · exact ⟨strict_append_crlf hstrict, suffix_append _ _⟩

lemma filter_plain_normalizeFrom (previous : Option UInt8) (data : List UInt8) :
    (normalizeFrom previous data).filter Plain = data.filter Plain := by
  induction data generalizing previous with
  | nil => rfl
  | cons byte rest ih =>
    rw [normalizeFrom, filter_append, ih, ← singleton_append (l := rest),
      filter_append]
    split_ifs with hlf
    · rw [hlf.1]
      rfl
    · rfl

lemma filter_plain_outboundCrlf (data : List UInt8) :
    (outboundCrlf data).filter Plain = data.filter Plain := by
  rw [outboundCrlf_eq]
  split_ifs
  · exact filter_plain_normalizeFrom none data
  · rw [filter_append, filter_plain_normalizeFrom]
    exact append_nil _

lemma filter_plain_frame (data : List UInt8) : (frame data).filter Plain = data.filter Plain := by
  induction data using crlf_induction with
  | nil => rfl
  | line rest ih =>
    rw [frame_crlf]
    exact ih
  | octet byte rest hcr ih =>
    rw [frame_cons hcr, filter_append, ih, ← singleton_append (l := rest),
      filter_append, frameByte]
    split_ifs with hnul hend
    · rw [hnul]
      rfl
    · obtain rfl | rfl := hend <;> rfl
    · rfl

/-- A generated message is framed by CRLF alone and ends with one, nothing but line ends and NULs
of it is changed, and to frame it again changes nothing. -/
theorem frameGenerated_framed (data : List UInt8) :
    Strict (frameGenerated data) ∧ crlf <:+ frameGenerated data ∧
      frameGenerated (frameGenerated data) = frameGenerated data ∧
      (hasUnframedByte data = false → frameGenerated data = outboundCrlf data) ∧
      (frameGenerated data).filter Plain = data.filter Plain := by
  have hframed : Strict (frameGenerated data) ∧ crlf <:+ frameGenerated data := by
    unfold frameGenerated
    split_ifs with h
    · exact strict_outboundCrlf (hasUnframedByte_of_strict (strict_frame data))
    · exact strict_outboundCrlf (Bool.not_eq_true _ ▸ h)
  refine ⟨hframed.1, hframed.2, ?_, fun h => by simp [frameGenerated, h], ?_⟩
  · -- Framed octets take the shortcut of both normalisers.
    generalize frameGenerated data = framed at hframed
    rw [frameGenerated, if_neg (by simp [hasUnframedByte_of_strict hframed.1]), outboundCrlf,
      if_pos ⟨hframed.2, lineFeedsFollow_of_strict hframed.1 none⟩]
  · unfold frameGenerated
    split_ifs
    · rw [filter_plain_outboundCrlf, filter_plain_frame]
    · exact filter_plain_outboundCrlf data

end Epistle.Util.HeaderBlock
