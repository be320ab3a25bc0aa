import Mathlib.Algebra.Order.Ring.Int
import Mathlib.Data.List.SplitBy
import Mathlib.Data.List.TakeWhile

/-!
# Groups of a list

A list in groups, each an element with those behind it that continue it. The groups of a part of the
groups are that part.
-/

namespace Epistle.Lib

open List

variable {α : Type*}

def groups (continues : α → Bool) (l : List α) : List (List α) :=
  l.splitBy fun _ next => continues next

variable {continues : α → Bool}

@[simp] lemma flatten_groups (l : List α) : (groups continues l).flatten = l :=
  flatten_splitBy _ l

lemma isChain_cons_of_continues {l : List α} (h : ∀ x ∈ l, continues x) (a : α) :
    (a :: l).IsChain fun _ next => continues next = true := by
  induction l generalizing a with
  | nil => exact .singleton a
  | cons b l ih =>
    obtain ⟨hb, hl⟩ := forall_mem_cons.1 h
    exact .cons_cons hb (ih hl b)

lemma groups_cons (a : α) (l : List α) :
    groups continues (a :: l) =
      (a :: l.takeWhile continues) :: groups continues (l.dropWhile continues) := by
  have hmore : ∀ x ∈ l.takeWhile continues, continues x := fun _ hx => mem_takeWhile_imp hx
  have hfirst := isChain_cons_of_continues hmore a
  have hnext : ∀ x ∈ (a :: l.takeWhile continues).getLast?, ∀ y ∈ (l.dropWhile continues).head?,
      continues y = false := by
    intro _ _ y hy
    have := List.head?_dropWhile_not continues l
    rw [Option.mem_def.1 hy] at this
    exact this
  conv_lhs => rw [← takeWhile_append_dropWhile (p := continues) (l := l), ← cons_append]
  rw [groups, splitBy_append hnext, splitBy_of_isChain (cons_ne_nil _ _) hfirst]
  rfl

lemma groups_flatten_of_sublist {l : List α} {kept : List (List α)}
    (h : kept.Sublist (groups continues l)) : groups continues kept.flatten = kept := by
  refine splitBy_flatten (fun hnil => nil_notMem_splitBy _ _ (h.subset hnil))
    (fun m hm => isChain_of_mem_splitBy (h.subset hm)) ?_
  -- every group but the first starts with an element that continues nothing
  have : Trans (fun a b : List α => ∃ (_ : a ≠ []) (hb : b ≠ []), continues (b.head hb) = false)
      (fun a b => ∃ (_ : a ≠ []) (hb : b ≠ []), continues (b.head hb) = false)
      (fun a b => ∃ (_ : a ≠ []) (hb : b ≠ []), continues (b.head hb) = false) :=
    ⟨fun ⟨ha, _⟩ ⟨_, hc⟩ => ⟨ha, hc⟩⟩
  exact (isChain_getLast_head_splitBy _ l).sublist h

end Epistle.Lib
