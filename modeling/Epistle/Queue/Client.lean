import Epistle.Smtp.Line

/-!
# Sending message data

`Conn::send_data` of `queue/client/conn/mod.rs`: the octets the delivery client writes after the
peer's `354`. The loop stuffs octet by octet, after any CR or LF; on strict text that is the
stuffing of its lines.
-/

namespace Epistle.Queue

open Lib Smtp List

def dataBlockBytes : ℕ := 64 * 1024

/-- A message with a dot in front of each line that begins with one. -/
def stuff (atLineStart : Bool) : List UInt8 → List UInt8
  | [] => []
  | byte :: rest =>
      (if atLineStart ∧ byte = dot then [dot] else []) ++
        byte :: stuff (byte = cr ∨ byte = lf) rest

/-- What is sent of a message. -/
def dataWire (data : List UInt8) : List UInt8 :=
  let wire := stuff true data
  let wire := if crlf <:+ wire then wire else wire ++ crlf
  wire ++ dot :: crlf

def sendData (data : List UInt8) : List (List UInt8) := (dataWire data).toChunks dataBlockBytes

lemma toChunks_go_flatten {α : Type*} (n : ℕ) (xs : List α) (block : Array α)
    (blocks : Array (List α)) :
    (List.toChunks.go n xs block blocks).flatten =
      blocks.toList.flatten ++ block.toList ++ xs := by
  induction xs generalizing block blocks with
  | nil => simp [List.toChunks.go]
  | cons x xs ih =>
    rw [List.toChunks.go]
    split_ifs <;> simp [ih]

lemma sendData_flatten (data : List UInt8) : (sendData data).flatten = dataWire data := by
  rw [sendData]
  rcases dataWire data with _ | ⟨x, xs⟩
  · rfl
  · exact (toChunks_go_flatten dataBlockBytes xs #[x] #[]).trans (by simp)

/-! ## Stuffing by lines -/

def stuffLine (line : List UInt8) : List UInt8 :=
  if line.head? = some dot then dot :: line else line

@[simp] lemma stuffLine_nil : stuffLine [] = [] := rfl

variable {line : List UInt8}

@[simp]
lemma stuffLine_eq_nil : stuffLine line = [] ↔ line = [] := by
  unfold stuffLine
  split_ifs with h
  · simp only [false_iff]
    rintro rfl
    simp at h
  · rfl

lemma stuffLine_ne_dot (line : List UInt8) : stuffLine line ≠ [dot] := by
  unfold stuffLine
  split_ifs with h
  · intro hdot
    simp [(List.cons.inj hdot).2] at h
  · rintro rfl
    simp at h

lemma plain_dot : Plain dot := by decide

@[simp] lemma cr_ne_dot : cr ≠ dot := by decide
@[simp] lemma lf_ne_dot : lf ≠ dot := by decide

lemma stuffLine_plain (h : ∀ b ∈ line, Plain b) : ∀ b ∈ stuffLine line, Plain b := by
  unfold stuffLine
  split_ifs
  · exact forall_mem_cons.2 ⟨plain_dot, h⟩
  · exact h

lemma stuffLine_plain_or_broken (h : (∀ b ∈ line, Plain b) ∨ Broken line) :
    (∀ b ∈ stuffLine line, Plain b) ∨ Broken (stuffLine line) := by
  refine h.imp stuffLine_plain fun hbroken => ?_
  unfold stuffLine
  split_ifs
  · exact hbroken.plain_cons plain_dot
  · exact hbroken

lemma stuffLine_length (line : List UInt8) :
    (stuffLine line).length = LineCheck.width true line := by
  unfold stuffLine LineCheck.width
  split_ifs <;> simp_all

lemma goodLine_stuffLine {max : ℕ} :
    GoodLine List.length max (stuffLine line) ↔ GoodLine (LineCheck.width true) max line := by
  unfold GoodLine
  rw [stuffLine_length]
  refine and_congr_left fun _ => ⟨fun h b hb => h b ?_, stuffLine_plain⟩
  unfold stuffLine
  split_ifs
  · exact mem_cons_of_mem _ hb
  · exact hb

/-! ## The wire -/

lemma stuff_false (h : ∀ b ∈ line, Plain b) (r : List UInt8) :
    stuff false (line ++ cr :: lf :: r) = line ++ cr :: lf :: stuff true r ∧
      stuff false line = line := by
  induction line with
  | nil => simp [stuff]
  | cons b line ih =>
    obtain ⟨hb, hline⟩ := forall_mem_cons.1 h
    simp [stuff, hb.2.1, hb.2.2, ih hline]

lemma stuff_line (h : ∀ b ∈ line, Plain b) (r : List UInt8) :
    stuff true (line ++ cr :: lf :: r) = stuffLine line ++ cr :: lf :: stuff true r ∧
      stuff true line = stuffLine line := by
  cases line with
  | nil => simp [stuff]
  | cons b line =>
    obtain ⟨hb, hline⟩ := forall_mem_cons.1 h
    -- Only the first octet can be stuffed.
    obtain ⟨hrest, hself⟩ := stuff_false hline r
    by_cases hdot : b = dot
    · subst hdot
      simp [stuff, stuffLine, hb.2.1, hb.2.2, hrest, hself]
    · simp [stuff, stuffLine, hb.2.1, hb.2.2, hdot, hrest, hself]

lemma stuff_lines {ls : List (List UInt8)} {t : List UInt8}
    (hls : ∀ l ∈ ls, ∀ b ∈ l, Plain b) (ht : ∀ b ∈ t, Plain b) :
    stuff true (unlines ls ++ t) = unlines (ls.map stuffLine) ++ stuffLine t := by
  induction ls with
  | nil => simpa using (stuff_line ht []).2
  | cons l ls ih =>
    obtain ⟨hl, hls⟩ := forall_mem_cons.1 hls
    rw [unlines_cons, append_assoc, cons_append, cons_append,
      (stuff_line hl _).1, ih hls]
    simp

def bodyLines (data : List UInt8) : List (List UInt8) :=
  if crlf <:+ data then completeLines data else linesOf data

lemma unlines_bodyLines {data : List UInt8} (h : Strict data) :
    unlines (bodyLines data) = if crlf <:+ data then data else data ++ crlf := by
  have hplain := (strict_iff data).1 h
  have hjoin := unlines_splitCrlf data
  have hopen : ∀ b ∈ openLine data, Plain b := hplain _ (by simp [linesOf])
  unfold bodyLines
  split_ifs with hend
  · rw [← hjoin, crlf_suffix_iff hopen] at hend
    rw [hend.2, append_nil] at hjoin
    exact hjoin
  · rw [linesOf, unlines_append]
    nth_rewrite 3 [← hjoin]
    simp [crlf]

lemma dataWire_eq {data : List UInt8} (h : Strict data) :
    dataWire data = unlines ((bodyLines data).map stuffLine ++ [[dot]]) := by
  have hplain := (strict_iff data).1 h
  have hopen : ∀ b ∈ openLine data, Plain b := hplain _ (by simp [linesOf])
  have hlines : ∀ l ∈ completeLines data, ∀ b ∈ l, Plain b :=
    fun l hl => hplain l (by simp [linesOf, hl])
  have hwire : stuff true data =
      unlines ((completeLines data).map stuffLine) ++ stuffLine (openLine data) := by
    rw [← stuff_lines hlines hopen, unlines_splitCrlf]
  -- The wire ends with CRLF when the message does.
  have hend : crlf <:+ stuff true data ↔ crlf <:+ data := by
    nth_rewrite 2 [← unlines_splitCrlf data]
    rw [hwire, crlf_suffix_iff (stuffLine_plain hopen), crlf_suffix_iff hopen]
    simp
  unfold dataWire bodyLines
  dsimp only
  simp only [hend]
  split_ifs with hcrlf
  · rw [← unlines_splitCrlf data, crlf_suffix_iff hopen] at hcrlf
    simp [hwire, hcrlf.2, crlf]
  · simp [hwire, linesOf, crlf]

end Epistle.Queue
