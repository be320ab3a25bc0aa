import Mathlib.Algebra.Order.Ring.Int
import Mathlib.Data.List.Basic

/-!
# Lines that keep what ends them

A text as the list of its lines, each with the separator it ends in. The text is the concatenation
of its lines, so a reader that goes line by line can put parts of it together again.
-/

namespace Epistle.Lib.Lines

open List

variable {α : Type*} [DecidableEq α] {sep : α} {l s : List α}

def splitInclusive (sep : α) : List α → List (List α)
  | [] => []
  | a :: s =>
      if a = sep then [a] :: splitInclusive sep s
      else
        match splitInclusive sep s with
        | [] => [[a]]
        | l :: ls => (a :: l) :: ls

/-- A text without the `a` it may end in. -/
def stripLast (a : α) (s : List α) : List α :=
  if s.getLast? = some a then s.dropLast else s

def chomp (ret sep : α) (line : List α) : List α :=
  if line.getLast? = some sep then stripLast ret line.dropLast else line

@[simp] lemma splitInclusive_nil : splitInclusive sep ([] : List α) = [] := rfl

lemma splitInclusive_line (h : sep ∉ l) (s : List α) :
    splitInclusive sep (l ++ sep :: s) = (l ++ [sep]) :: splitInclusive sep s := by
  induction l with
  | nil => simp [splitInclusive]
  | cons a l ih =>
    obtain ⟨ha, hl⟩ := not_or.1 (mt mem_cons.2 h)
    simp [splitInclusive, Ne.symm ha, ih hl]

lemma splitInclusive_plain (h : sep ∉ l) (hne : l ≠ []) : splitInclusive sep l = [l] := by
  induction l with
  | nil => exact absurd rfl hne
  | cons a l ih =>
    obtain ⟨ha, hl⟩ := not_or.1 (mt mem_cons.2 h)
    by_cases hnil : l = []
    · simp [hnil, splitInclusive, Ne.symm ha]
    · simp [splitInclusive, Ne.symm ha, ih hl hnil]

lemma line_induction {P : List α → Prop} (sep : α) (nil : P [])
    (plain : ∀ l, sep ∉ l → l ≠ [] → P l) (line : ∀ l s, sep ∉ l → P s → P (l ++ sep :: s))
    (s : List α) : P s := by
  induction hn : s.length using Nat.strongRecOn generalizing s with
  | ind n ih =>
    by_cases hs : sep ∈ s
    · obtain ⟨l, r, rfl, hl⟩ := eq_append_cons_of_mem hs
      refine line l r hl (ih r.length ?_ r rfl)
      simp only [length_append, length_cons] at hn
      omega
    · by_cases hnil : s = []
      · exact hnil ▸ nil
      · exact plain s hs hnil

@[simp] lemma flatten_splitInclusive (s : List α) : (splitInclusive sep s).flatten = s := by
  induction s using line_induction sep with
  | nil => rfl
  | plain l hl hne => simp [splitInclusive_plain hl hne]
  | line l s hl ih => simp [splitInclusive_line hl, ih]

lemma eq_flatten_of_splitInclusive {lines : List (List α)} (h : splitInclusive sep s = lines) :
    s = lines.flatten := by
  rw [← h, flatten_splitInclusive]

lemma splitInclusive_append (a s : List α) :
    splitInclusive sep (a ++ [sep] ++ s) =
      splitInclusive sep (a ++ [sep]) ++ splitInclusive sep s := by
  induction a using line_induction sep with
  | nil => simp [splitInclusive]
  | plain l hl hne =>
    rw [splitInclusive_line hl, append_assoc, singleton_append, splitInclusive_line hl]
    simp
  | line l a hl ih =>
    have hwhole : l ++ sep :: a ++ [sep] ++ s = l ++ sep :: (a ++ [sep] ++ s) := by simp
    have hpart : l ++ sep :: a ++ [sep] = l ++ sep :: (a ++ [sep]) := by simp
    rw [hwhole, hpart, splitInclusive_line hl, splitInclusive_line hl, ih, cons_append]

lemma splitInclusive_flatten_of_sublist {lines : List (List α)}
    (h : lines.Sublist (splitInclusive sep s)) : splitInclusive sep lines.flatten = lines := by
  induction s using line_induction sep generalizing lines with
  | nil =>
    rw [sublist_nil.1 h]
    rfl
  | plain l hl hne =>
    rw [splitInclusive_plain hl hne] at h
    obtain rfl | rfl := sublist_singleton.1 h
    · rfl
    · rw [flatten_singleton, splitInclusive_plain hl hne]
  | line l s hl ih =>
    rw [splitInclusive_line hl] at h
    cases h with
    | cons _ h => exact ih h
    | cons_cons _ h =>
      rw [flatten_cons, append_assoc, singleton_append, splitInclusive_line hl, ih h]

lemma ne_nil_of_mem_splitInclusive (h : l ∈ splitInclusive sep s) : l ≠ [] := by
  induction s using line_induction sep with
  | nil => simp at h
  | plain l' hl' hne =>
    rw [splitInclusive_plain hl' hne, mem_singleton] at h
    exact h ▸ hne
  | line l' s hl' ih =>
    rw [splitInclusive_line hl', mem_cons] at h
    obtain rfl | h := h
    · simp
    · exact ih h

/-! ## Terminators -/

lemma stripLast_append (a : α) (s : List α) : stripLast a (s ++ [a]) = s := by
  simp [stripLast]

lemma chomp_append (ret : α) (l : List α) : chomp ret sep (l ++ [sep]) = stripLast ret l := by
  simp [chomp]

lemma stripLast_isPrefix (a : α) (s : List α) : stripLast a s <+: s := by
  unfold stripLast
  split_ifs
  · exact dropLast_prefix s
  · exact prefix_refl s

lemma chomp_prefix (ret : α) (l : List α) : chomp ret sep l <+: l := by
  unfold chomp
  split_ifs
  · exact (stripLast_isPrefix ret _).trans (List.dropLast_prefix l)
  · exact prefix_refl l

lemma mem_stripLast {a b : α} (h : a ∈ s) (hab : a ≠ b) : a ∈ stripLast b s := by
  unfold stripLast
  split_ifs with hlast
  · rw [← dropLast_append_getLast? b hlast] at h
    simpa [hab] using h
  · exact h

lemma mem_chomp {ret a : α} (h : a ∈ l) (hret : a ≠ ret) (hsep : a ≠ sep) :
    a ∈ chomp ret sep l := by
  unfold chomp
  split_ifs with hlast
  · rw [← dropLast_append_getLast? sep hlast] at h
    exact mem_stripLast (by simpa [hsep] using h) hret
  · exact h

/-! ## The last separator -/

def splitLast (sep : α) : List α → Option (List α × List α)
  | [] => none
  | a :: s =>
      match splitLast sep s with
      | some (b, t) => some (a :: b, t)
      | none => if a = sep then some ([], s) else none

/-! ## Joined parts -/

lemma mem_intercalate {α : Type*} {sep : List α} {parts : List (List α)} {a : α}
    (h : a ∈ sep.intercalate parts) : a ∈ sep ∨ ∃ part ∈ parts, a ∈ part := by
  induction parts with
  | nil => simp [List.intercalate] at h
  | cons part parts ih =>
    cases parts with
    | nil => exact .inr ⟨part, by simp, by simpa [List.intercalate] using h⟩
    | cons next parts =>
      rw [intercalate_cons_cons, mem_append, mem_append] at h
      obtain (h | h) | h := h
      · exact .inr ⟨part, mem_cons_self .., h⟩
      · exact .inl h
      · obtain h | ⟨other, hother, h⟩ := ih h
        · exact .inl h
        · exact .inr ⟨other, mem_cons_of_mem _ hother, h⟩

end Epistle.Lib.Lines
