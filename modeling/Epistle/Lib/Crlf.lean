import Mathlib.Algebra.Order.Ring.Int
import Mathlib.Data.List.Infix

/-!
# CRLF-framed octet strings

Lines of octets that are ended by CR LF and hold neither CR, LF nor NUL themselves.
-/

namespace Epistle.Lib

open List

/-- The octets the framing rules name. -/
abbrev nul : UInt8 := 0
@[inherit_doc nul] abbrev lf : UInt8 := 10
@[inherit_doc nul] abbrev cr : UInt8 := 13

abbrev crlf : List UInt8 := [cr, lf]

@[simp] lemma cr_ne_lf : cr ≠ lf := by decide
@[simp] lemma lf_ne_cr : lf ≠ cr := by decide
@[simp] lemma nul_ne_cr : nul ≠ cr := by decide
@[simp] lemma nul_ne_lf : nul ≠ lf := by decide
@[simp] lemma cr_ne_nul : cr ≠ nul := by decide
@[simp] lemma lf_ne_nul : lf ≠ nul := by decide

def Plain (byte : UInt8) : Prop := byte ≠ nul ∧ byte ≠ lf ∧ byte ≠ cr

instance (byte : UInt8) : Decidable (Plain byte) := by unfold Plain; infer_instance

/-! ## Splitting and joining -/

def consOctet (b : UInt8) : List (List UInt8) × List UInt8 → List (List UInt8) × List UInt8
  | ([], t) => ([], b :: t)
  | (l :: ls, t) => ((b :: l) :: ls, t)

def splitCrlf : List UInt8 → List (List UInt8) × List UInt8
  | [] => ([], [])
  | [b] => ([], [b])
  | b :: c :: r =>
      if b = cr ∧ c = lf then ([] :: (splitCrlf r).1, (splitCrlf r).2)
      else consOctet b (splitCrlf (c :: r))

def completeLines (s : List UInt8) : List (List UInt8) := (splitCrlf s).1

def openLine (s : List UInt8) : List UInt8 := (splitCrlf s).2

def linesOf (s : List UInt8) : List (List UInt8) := completeLines s ++ [openLine s]

def unlines (ls : List (List UInt8)) : List UInt8 := ls.flatMap (· ++ crlf)

@[simp] lemma unlines_nil : unlines [] = [] := rfl

@[simp]
lemma unlines_cons (l : List UInt8) (ls : List (List UInt8)) :
    unlines (l :: ls) = l ++ cr :: lf :: unlines ls := by simp [unlines]

@[simp]
lemma unlines_append (ls ls' : List (List UInt8)) :
    unlines (ls ++ ls') = unlines ls ++ unlines ls' := by simp [unlines]

lemma splitCrlf_crlf (r : List UInt8) :
    splitCrlf (cr :: lf :: r) = ([] :: (splitCrlf r).1, (splitCrlf r).2) := by
  simp [splitCrlf]

variable {b : UInt8} {l : List UInt8}

lemma splitCrlf_cons {r : List UInt8} (h : b = cr → r.head? ≠ some lf) :
    splitCrlf (b :: r) = consOctet b (splitCrlf r) := by
  cases r with
  | nil => rfl
  | cons c r =>
    have hbc : ¬ (b = cr ∧ c = lf) := by
      rintro ⟨hb, rfl⟩
      exact h hb rfl
    simp [splitCrlf, hbc]

lemma crlf_cases (s : List UInt8) :
    s = [] ∨ (∃ r, s = cr :: lf :: r) ∨ ∃ b r, s = b :: r ∧ (b = cr → r.head? ≠ some lf) := by
  cases s with
  | nil => exact .inl rfl
  | cons b r =>
    by_cases h : b = cr ∧ r.head? = some lf
    · obtain ⟨rfl, hr⟩ := h
      obtain ⟨r', rfl⟩ := List.head?_eq_some_iff.1 hr
      exact .inr (.inl ⟨r', rfl⟩)
    · exact .inr (.inr ⟨b, r, rfl, fun hb hr => h ⟨hb, hr⟩⟩)

lemma crlf_induction {P : List UInt8 → Prop} (nil : P [])
    (line : ∀ r, P r → P (cr :: lf :: r))
    (octet : ∀ b r, (b = cr → r.head? ≠ some lf) → P r → P (b :: r)) (s : List UInt8) : P s := by
  induction hn : s.length using Nat.strongRecOn generalizing s with
  | ind n ih =>
    rcases crlf_cases s with rfl | ⟨r, rfl⟩ | ⟨b, r, rfl, h⟩
    · exact nil
    · exact line r (ih r.length (by rw [← hn, length_cons, length_cons]; omega) r rfl)
    · exact octet b r h (ih r.length (by rw [← hn, length_cons]; simp) r rfl)

lemma unlines_splitCrlf (s : List UInt8) : unlines (completeLines s) ++ openLine s = s := by
  unfold completeLines openLine
  induction s using crlf_induction with
  | nil => rfl
  | line r ih => simpa [splitCrlf_crlf] using ih
  | octet b r h ih =>
    rw [splitCrlf_cons h]
    rcases hs : splitCrlf r with ⟨_ | ⟨l, ls⟩, t⟩ <;> simpa [consOctet, hs] using ih

lemma splitCrlf_line (hl : ∀ b ∈ l, Plain b) (r : List UInt8) :
    splitCrlf (l ++ cr :: lf :: r) = (l :: (splitCrlf r).1, (splitCrlf r).2) := by
  induction l with
  | nil => exact splitCrlf_crlf r
  | cons b l ih =>
    obtain ⟨hb, hl⟩ := forall_mem_cons.1 hl
    rw [cons_append, splitCrlf_cons fun h => absurd h hb.2.2, ih hl, consOctet]

/-! ## Strict strings -/

structure Strict (s : List UInt8) : Prop where
  no_nul : nul ∉ s
  cr_lf : ∀ a b, s = a ++ cr :: b → b.head? = some lf
  lf_cr : ∀ a b, s = a ++ lf :: b → a.getLast? = some cr

lemma strict_nil : Strict [] := ⟨by simp, by simp, by simp⟩

lemma Strict.of_crlf {r : List UInt8} (h : Strict (cr :: lf :: r)) : Strict r where
  no_nul hr := h.no_nul (by simp [hr])
  cr_lf a b hab := h.cr_lf (cr :: lf :: a) b (by simp [hab])
  lf_cr a b hab := by
    have hlast := h.lf_cr (cr :: lf :: a) b (by simp [hab])
    cases a with
    | nil => simp at hlast
    | cons x a => simpa using hlast

lemma Strict.crlf {r : List UInt8} (h : Strict r) : Strict (cr :: lf :: r) where
  no_nul := by simpa using h.no_nul
  cr_lf a b hab := by
    rcases a with _ | ⟨x, _ | ⟨y, a⟩⟩
    · simp [← (List.cons.inj hab).2]
    · simp at hab
    · simp only [cons_append, List.cons.injEq] at hab
      exact h.cr_lf a b hab.2.2
  lf_cr a b hab := by
    rcases a with _ | ⟨x, _ | ⟨y, a⟩⟩
    · simp at hab
    · simp [← (List.cons.inj hab).1]
    · simp only [cons_append, List.cons.injEq] at hab
      have := h.lf_cr a b hab.2.2
      cases a <;> simp_all

lemma Strict.plain_head {r : List UInt8} (hcr : b = cr → r.head? ≠ some lf)
    (h : Strict (b :: r)) : Plain b := by
  refine ⟨?_, ?_, ?_⟩
  · rintro rfl
    exact h.no_nul (mem_cons_self ..)
  · rintro rfl
    simpa using h.lf_cr [] r rfl
  · rintro rfl
    exact hcr rfl (h.cr_lf [] r rfl)

lemma Strict.of_plain_cons {r : List UInt8} (hb : Plain b) (h : Strict (b :: r)) : Strict r where
  no_nul hr := h.no_nul (mem_cons_of_mem _ hr)
  cr_lf a c hac := h.cr_lf (b :: a) c (by simp [hac])
  lf_cr a c hac := by
    have := h.lf_cr (b :: a) c (by simp [hac])
    cases a with
    | nil => exact absurd (by simpa using this) hb.2.2
    | cons x a => simpa using this

lemma Strict.plain_cons {r : List UInt8} (hb : Plain b) (h : Strict r) :
    Strict (b :: r) where
  no_nul := by simp [Ne.symm hb.1, h.no_nul]
  cr_lf a c hac := by
    cases a with
    | nil => exact absurd (List.cons.inj hac).1 hb.2.2
    | cons x a => exact h.cr_lf a c (List.cons.inj hac).2
  lf_cr a c hac := by
    cases a with
    | nil => exact absurd (List.cons.inj hac).1 hb.2.1
    | cons x a =>
      have := h.lf_cr a c (List.cons.inj hac).2
      cases a <;> simp_all

lemma linesOf_crlf (r : List UInt8) : linesOf (cr :: lf :: r) = [] :: linesOf r := by
  simp [linesOf, completeLines, openLine, splitCrlf]

lemma forall_linesOf_cons {r : List UInt8} (h : b = cr → r.head? ≠ some lf) :
    (∀ l ∈ linesOf (b :: r), ∀ x ∈ l, Plain x) ↔
      Plain b ∧ ∀ l ∈ linesOf r, ∀ x ∈ l, Plain x := by
  unfold linesOf completeLines openLine
  rw [splitCrlf_cons h]
  rcases splitCrlf r with ⟨_ | ⟨l, ls⟩, t⟩
  · simp [consOctet]
  · simp only [consOctet, cons_append, forall_mem_cons, and_assoc]

lemma strict_iff (s : List UInt8) : Strict s ↔ ∀ l ∈ linesOf s, ∀ b ∈ l, Plain b := by
  induction s using crlf_induction with
  | nil => simp [strict_nil, linesOf, completeLines, openLine, splitCrlf]
  | line r ih =>
    rw [linesOf_crlf, forall_mem_cons, ← ih]
    exact ⟨fun h => ⟨by simp, h.of_crlf⟩, fun h => h.2.crlf⟩
  | octet b r h ih =>
    rw [forall_linesOf_cons h, ← ih]
    refine ⟨fun hs => ?_, fun hs => hs.2.plain_cons hs.1⟩
    have hb := hs.plain_head h
    exact ⟨hb, hs.of_plain_cons hb⟩

lemma crlf_suffix_iff {ls : List (List UInt8)} {t : List UInt8} (ht : ∀ b ∈ t, Plain b) :
    crlf <:+ unlines ls ++ t ↔ ls ≠ [] ∧ t = [] := by
  constructor
  · rintro ⟨s, hs⟩
    obtain rfl : t = [] := by
      rcases eq_nil_or_concat t with rfl | ⟨t, b, rfl⟩
      · rfl
      -- The last octet would be an LF.
      have hlast : (s ++ crlf).getLast? = (unlines ls ++ t.concat b).getLast? := by rw [hs]
      rw [concat_eq_append, ← append_assoc, List.getLast?_concat] at hlast
      obtain rfl : b = lf := by simpa [crlf] using hlast.symm
      exact absurd rfl (ht lf (by simp)).2.1
    refine ⟨?_, rfl⟩
    rintro rfl
    simp [crlf] at hs
  · rintro ⟨hls, rfl⟩
    obtain ⟨ls, l, rfl⟩ := (eq_nil_or_concat ls).resolve_left hls
    exact ⟨unlines ls ++ l, by simp [crlf]⟩

lemma splitCrlf_append_crlf (s : List UInt8) :
    ∃ l ls, splitCrlf (s ++ crlf) = (l :: ls, []) := by
  induction s using crlf_induction with
  | nil => exact ⟨[], [], rfl⟩
  | line r ih =>
    obtain ⟨l, ls, h⟩ := ih
    exact ⟨[], l :: ls, by rw [cons_append, cons_append, splitCrlf_crlf, h]⟩
  | octet b r hb ih =>
    obtain ⟨l, ls, h⟩ := ih
    -- The octet behind `b` is the same, or the CR of the CRLF.
    have hb' : b = cr → (r ++ crlf).head? ≠ some lf := by
      cases r with
      | nil => simp [crlf]
      | cons x r => exact hb
    exact ⟨b :: l, ls, by rw [cons_append, splitCrlf_cons hb', h]; rfl⟩

lemma openLine_eq_nil {s : List UInt8} (h : s = [] ∨ crlf <:+ s) : openLine s = [] := by
  rcases h with rfl | ⟨s, rfl⟩
  · rfl
  · obtain ⟨l, ls, h⟩ := splitCrlf_append_crlf s
    rw [openLine, h]

/-! ## Violations -/

/-- The string starts with a NUL, a bare LF or a bare CR. -/
inductive Violation : List UInt8 → Prop
  | nul (r) : Violation (nul :: r)
  | lf (r) : Violation (lf :: r)
  | cr {x} (hx : x ≠ Lib.lf) (r) : Violation (cr :: x :: r)

lemma exists_plain_prefix (s : List UInt8) :
    ∃ p q, s = p ++ q ∧ (∀ b ∈ p, Plain b) ∧
      (q = [] ∨ q = [cr] ∨ (∃ r, q = cr :: lf :: r) ∨ Violation q) := by
  induction s with
  | nil => exact ⟨[], [], rfl, by simp, .inl rfl⟩
  | cons b s ih =>
    by_cases hb : Plain b
    · obtain ⟨p, q, rfl, hp, hq⟩ := ih
      exact ⟨b :: p, q, rfl, forall_mem_cons.2 ⟨hb, hp⟩, hq⟩
    refine ⟨[], b :: s, rfl, by simp, .inr ?_⟩
    rw [Plain, not_and_or, not_and_or, not_not, not_not, not_not] at hb
    rcases hb with rfl | rfl | rfl
    · exact .inr (.inr (.nul s))
    · exact .inr (.inr (.lf s))
    · rcases s with _ | ⟨x, s⟩
      · exact .inl rfl
      by_cases hx : x = lf
      · exact .inr (.inl ⟨s, by rw [hx]⟩)
      · exact .inr (.inr (.cr hx s))

/-- A line that violates the framing before the CRLF behind it is complete. -/
def Broken (l : List UInt8) : Prop :=
  ∃ p q, l = p ++ q ∧ (∀ b ∈ p, Plain b) ∧ ∀ r, Violation (q ++ cr :: r)

lemma Broken.plain_cons (hb : Plain b) (h : Broken l) : Broken (b :: l) := by
  obtain ⟨p, q, rfl, hp, hq⟩ := h
  exact ⟨b :: p, q, rfl, forall_mem_cons.2 ⟨hb, hp⟩, hq⟩

lemma Broken.of_not_plain (hb : ¬ Plain b) (h : b = cr → l.head? ≠ some lf) :
    Broken (b :: l) := by
  refine ⟨[], b :: l, rfl, by simp, fun r => ?_⟩
  rw [Plain, not_and_or, not_and_or, not_not, not_not, not_not] at hb
  rcases hb with rfl | rfl | rfl
  · exact .nul _
  · exact .lf _
  · rcases l with _ | ⟨x, l⟩
    · exact .cr (by simp) r
    · exact .cr (fun hx => h rfl (by simp [hx])) _

lemma plain_or_broken {s : List UInt8} (hl : l ∈ completeLines s) :
    (∀ b ∈ l, Plain b) ∨ Broken l := by
  induction s using crlf_induction generalizing l with
  | nil => simp [completeLines, splitCrlf] at hl
  | line r ih =>
    rw [completeLines, splitCrlf_crlf, mem_cons] at hl
    rcases hl with rfl | hl
    · exact .inl (by simp)
    · exact ih hl
  | octet b r h ih =>
    have hjoin := unlines_splitCrlf r
    rw [completeLines, openLine] at hjoin
    rw [completeLines, splitCrlf_cons h] at hl
    unfold completeLines at ih
    rcases hs : splitCrlf r with ⟨_ | ⟨l', ls⟩, t⟩
    · simp [hs, consOctet] at hl
    simp only [hs, consOctet, mem_cons] at hl ih hjoin
    rcases hl with rfl | hl
    swap
    · exact ih (.inr hl)
    by_cases hb : Plain b
    · rcases ih (.inl rfl) with hp | hbroken
      · exact .inl (forall_mem_cons.2 ⟨hb, hp⟩)
      · exact .inr (hbroken.plain_cons hb)
    · -- The line's next octet is the string's, so the CR is not followed by LF.
      refine .inr (.of_not_plain hb fun hcr hhead => h hcr ?_)
      obtain ⟨l'', rfl⟩ := List.head?_eq_some_iff.1 hhead
      simp [← hjoin]

/-! ## Framed strings -/

/-- A strict string none of whose lines, the open one included, is wider than `max`. -/
structure Framed (width : List UInt8 → ℕ) (max : ℕ) (s : List UInt8) : Prop
    extends Strict s where
  /-- No line is too wide. -/
  width_le : ∀ l ∈ linesOf s, width l ≤ max

def GoodLine (width : List UInt8 → ℕ) (max : ℕ) (l : List UInt8) : Prop :=
  (∀ b ∈ l, Plain b) ∧ width l ≤ max

section Framed

variable {width : List UInt8 → ℕ} {max : ℕ}

lemma framed_iff (s : List UInt8) :
    Framed width max s ↔ ∀ l ∈ linesOf s, GoodLine width max l := by
  constructor
  · intro h l hl
    exact ⟨(strict_iff s).1 h.toStrict l hl, h.width_le l hl⟩
  · intro h
    exact ⟨(strict_iff s).2 fun l hl => (h l hl).1, fun l hl => (h l hl).2⟩

lemma framed_line_iff {l : List UInt8} (hl : GoodLine width max l) (r : List UInt8) :
    Framed width max (l ++ cr :: lf :: r) ↔ Framed width max r := by
  rw [framed_iff, framed_iff, linesOf, completeLines, openLine, splitCrlf_line hl.1,
    cons_append, forall_mem_cons]
  exact ⟨fun h => h.2, fun h => ⟨hl, h⟩⟩

lemma Framed.first_line {s l : List UInt8} {ls : List (List UInt8)}
    (h : Framed width max s) (hs : completeLines s = l :: ls) :
    GoodLine width max l ∧ ∃ r, s = l ++ cr :: lf :: r := by
  refine ⟨(framed_iff s).1 h l (by simp [linesOf, hs]), unlines ls ++ openLine s, ?_⟩
  conv_lhs => rw [← unlines_splitCrlf s, hs]
  simp

end Framed

/-! ## Longest prefixes -/

structure IsLongestPrefix {α : Type*} (P : List α → Prop) (s p : List α) : Prop where
  isPrefix : p <+: s
  holds : P p
  /-- No longer prefix has it. -/
  length_le : ∀ q, q <+: s → P q → q.length ≤ p.length

lemma IsLongestPrefix.exists {α : Type*} {P : List α → Prop} (s : List α) (hnil : P []) :
    ∃ p, IsLongestPrefix P s p := by
  induction s using List.reverseRecOn with
  | nil => exact ⟨[], prefix_rfl, hnil, fun q hq _ => hq.length_le⟩
  | append_singleton s a ih =>
    by_cases h : P (s ++ [a])
    · exact ⟨s ++ [a], prefix_rfl, h, fun q hq _ => hq.length_le⟩
    obtain ⟨p, hp⟩ := ih
    refine ⟨p, hp.isPrefix.trans (prefix_append s [a]), hp.holds, fun q hq hPq => ?_⟩
    rcases prefix_concat_iff.1 hq with rfl | hq
    · exact absurd hPq h
    · exact hp.length_le q hq hPq

lemma IsLongestPrefix.line {width : List UInt8 → ℕ} {max : ℕ} {l r p : List UInt8}
    (hl : GoodLine width max l) (h : IsLongestPrefix (Framed width max) r p) :
    IsLongestPrefix (Framed width max) (l ++ cr :: lf :: r) (l ++ cr :: lf :: p) where
  isPrefix := by
    obtain ⟨t, rfl⟩ := h.isPrefix
    exact ⟨t, by simp⟩
  holds := (framed_line_iff hl p).2 h.holds
  length_le q hq hframed := by
    by_cases hlong : (l ++ [cr, lf]).length ≤ q.length
    · have hline : l ++ [cr, lf] <+: l ++ cr :: lf :: r := ⟨r, by simp⟩
      have hpre : l ++ [cr, lf] <+: q := prefix_of_prefix_length_le hline hq hlong
      obtain ⟨q', rfl⟩ := hpre
      simp only [append_assoc, cons_append, nil_append] at hq hframed ⊢
      have := h.length_le q' (by simpa using hq) ((framed_line_iff hl q').1 hframed)
      simpa using this
    · simp at hlong ⊢
      omega

end Epistle.Lib
