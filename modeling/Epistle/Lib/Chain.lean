import Mathlib.Algebra.Order.Ring.Int
import Mathlib.Data.List.Basic

/-!
# Linked chains in a store of pointers

A store holds a pointer at each address. A pointer is zero or an entry, and the entry `e` has a link
of its own at the address `cell e`.
-/

namespace Epistle.Lib

def IsChain (ptr : ℕ → ℕ) (cell : ℕ → ℕ) : ℕ → List ℕ → Prop
  | link, [] => ptr link = 0
  | link, e :: es => ptr link = e ∧ e ≠ 0 ∧ IsChain ptr cell (cell e) es

open Function

namespace IsChain

variable {ptr cell : ℕ → ℕ} {link a v e : ℕ} {es : List ℕ}

lemma congr {ptr' : ℕ → ℕ} (h : IsChain ptr cell link es) (hlink : ptr' link = ptr link)
    (hcell : ∀ e ∈ es, ptr' (cell e) = ptr (cell e)) : IsChain ptr' cell link es := by
  induction es generalizing link with
  | nil => exact hlink.trans h
  | cons e es ih =>
    obtain ⟨hptr, hne, hrest⟩ := h
    obtain ⟨hhead, htail⟩ := List.forall_mem_cons.1 hcell
    exact ⟨hlink.trans hptr, hne, ih hrest hhead htail⟩

lemma update_of_ne (h : IsChain ptr cell link es) (hlink : link ≠ a)
    (hcell : ∀ e ∈ es, cell e ≠ a) : IsChain (update ptr a v) cell link es :=
  h.congr (Function.update_of_ne hlink _ _) fun e he => Function.update_of_ne (hcell e he) _ _

lemma push (h : IsChain ptr cell link es) (he : e ≠ 0) (hlink : cell e ≠ link)
    (hcell : ∀ x ∈ es, cell x ≠ link ∧ cell x ≠ cell e) :
    IsChain (update (update ptr (cell e) (ptr link)) link e) cell link
      (e :: es) := by
  refine ⟨update_self .., he, ?_⟩
  -- The chain that hung at `link` hangs at the link of the entry now.
  have hmoved : IsChain (update ptr (cell e) (ptr link)) cell (cell e) es := by
    cases es with
    | nil => exact (update_self ..).trans h
    | cons x es =>
      obtain ⟨hptr, hne, hrest⟩ := h
      obtain ⟨hx, hes⟩ := List.forall_mem_cons.1 hcell
      exact ⟨(update_self ..).trans hptr, hne,
        hrest.update_of_ne hx.2 fun y hy => (hes y hy).2⟩
  exact hmoved.update_of_ne hlink fun x hx => (hcell x hx).1

lemma unlink (h : IsChain ptr cell link (e :: es)) (hcell : ∀ x ∈ es, cell x ≠ link) :
    IsChain (update ptr link (ptr (cell e))) cell link es := by
  obtain ⟨-, -, hrest⟩ := h
  cases es with
  | nil => exact (update_self ..).trans hrest
  | cons x es =>
    obtain ⟨hptr, hne, hrest⟩ := hrest
    obtain ⟨hx, hes⟩ := List.forall_mem_cons.1 hcell
    exact ⟨(update_self ..).trans hptr, hne, hrest.update_of_ne hx hes⟩

end IsChain

end Epistle.Lib
