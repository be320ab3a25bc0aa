import Mathlib.Algebra.Order.Ring.Int
import Mathlib.Data.List.Nodup

/-!
# Putting elements back into a list

A list is rebuilt from the elements that stay and, for each element that does not, its index in
the whole list: the others are inserted at their indices, lowest first.
-/

namespace Epistle.Lib

open List

variable {α : Type*}

def insertAll (added : List (ℕ × α)) (l : List α) : List α :=
  added.foldl (fun l x => l.insertIdx x.1 x.2) l

def markedFrom (p : α → Bool) (n : ℕ) : List α → List (ℕ × α)
  | [] => []
  | a :: l => if p a then (n, a) :: markedFrom p (n + 1) l else markedFrom p (n + 1) l

def marked (p : α → Bool) (l : List α) : List (ℕ × α) := markedFrom p 0 l

lemma le_of_mem_markedFrom {p : α → Bool} {n : ℕ} {l : List α} {x : ℕ × α}
    (h : x ∈ markedFrom p n l) : n ≤ x.1 := by
  induction l generalizing n with
  | nil => simp [markedFrom] at h
  | cons a l ih =>
    rw [markedFrom] at h
    split_ifs at h
    · rcases mem_cons.1 h with rfl | h
      · exact le_refl n
      · exact Nat.le_of_succ_le (ih h)
    · exact Nat.le_of_succ_le (ih h)

lemma pairwise_markedFrom (p : α → Bool) (n : ℕ) (l : List α) :
    (markedFrom p n l).Pairwise (·.1 < ·.1) := by
  induction l generalizing n with
  | nil => exact .nil
  | cons a l ih =>
    rw [markedFrom]
    split_ifs
    · exact pairwise_cons.2 ⟨fun x hx => le_of_mem_markedFrom hx, ih (n + 1)⟩
    · exact ih (n + 1)

lemma mem_markedFrom {p : α → Bool} {n i : ℕ} {l : List α} {a : α} :
    (i, a) ∈ markedFrom p n l ↔ p a ∧ n ≤ i ∧ l[i - n]? = some a := by
  induction l generalizing n with
  | nil => simp [markedFrom]
  | cons b l ih =>
    have hrest : (i, a) ∈ markedFrom p (n + 1) l ↔ p a ∧ n < i ∧ (b :: l)[i - n]? = some a := by
      rw [ih]
      refine and_congr_right fun _ => and_congr_right fun hlt => ?_
      rw [show i - n = (i - (n + 1)) + 1 by omega, List.getElem?_cons_succ]
    rw [markedFrom]
    split_ifs with hb
    · rw [mem_cons, hrest]
      constructor
      · rintro (h | ⟨ha, hlt, hi⟩)
        · obtain ⟨rfl, rfl⟩ := Prod.mk.inj h
          exact ⟨hb, le_refl i, by simp⟩
        · exact ⟨ha, le_of_lt hlt, hi⟩
      · rintro ⟨ha, hle, hi⟩
        rcases Nat.eq_or_lt_of_le hle with rfl | hlt
        · simp only [Nat.sub_self, List.getElem?_cons_zero, Option.some.injEq] at hi
          exact .inl (by rw [hi])
        · exact .inr ⟨ha, hlt, hi⟩
    · rw [hrest]
      refine and_congr_right fun ha => ⟨fun ⟨hlt, hi⟩ => ⟨le_of_lt hlt, hi⟩, fun ⟨hle, hi⟩ => ?_⟩
      refine ⟨lt_of_le_of_ne hle ?_, hi⟩
      rintro rfl
      simp only [Nat.sub_self, List.getElem?_cons_zero, Option.some.injEq] at hi
      exact hb (hi ▸ ha)

lemma insertIdx_length (l r : List α) (a : α) :
    (l ++ r).insertIdx l.length a = l ++ a :: r := by
  induction l with
  | nil => simp
  | cons b l ih => simp [ih]

lemma insertAll_markedFrom (p : α → Bool) (done l : List α) :
    insertAll (markedFrom p done.length l) (done ++ l.filter (!p ·)) = done ++ l := by
  induction l generalizing done with
  | nil => simp [markedFrom, insertAll]
  | cons a l ih =>
    have hnext := ih (done ++ [a])
    rw [length_append, length_singleton] at hnext
    rw [markedFrom]
    split_ifs with ha
    · -- The element goes behind what is done.
      rw [filter_cons_of_neg (by simp [ha]), insertAll, foldl_cons, insertIdx_length]
      simpa [insertAll] using hnext
    · rw [filter_cons_of_pos (by simp [ha])]
      simpa using hnext

lemma insertAll_marked (p : α → Bool) (l : List α) :
    insertAll (marked p l) (l.filter (!p ·)) = l := by
  simpa [marked] using insertAll_markedFrom p [] l

/-! ## Keyed lists -/

lemma idxOf?_eq_some [DecidableEq α] {l : List α} (hl : l.Nodup) {id : α} {i : ℕ} :
    l.idxOf? id = some i ↔ l[i]? = some id := by
  rw [List.idxOf?_eq_some_iff, List.getElem?_eq_some_iff]
  refine exists_congr fun hi => and_iff_left_of_imp fun hid j hj hjd => ?_
  -- An earlier index would hold the same id.
  exact Nat.ne_of_lt hj (hl.getElem_inj_iff.1 (hjd.trans hid.symm))

lemma keys_filterMap_sublist {β κ : Type*} {key : α → κ} {key' : β → κ} {f : α → Option β}
    (h : ∀ a b, f a = some b → key' b = key a) (l : List α) :
    ((l.filterMap f).map key').Sublist (l.map key) := by
  induction l with
  | nil => exact .slnil
  | cons a l ih =>
    rw [filterMap_cons, map_cons]
    cases hf : f a with
    | none => exact ih.cons _
    | some b =>
      rw [map_cons, h a b hf]
      exact ih.cons_cons _

end Epistle.Lib
