import Mathlib.Algebra.Order.Ring.Int
import Mathlib.Data.List.Forall2

/-!
# Computations that can fail

What a computation in `Except` or `Option` that gave a result did on the way.
-/

namespace Epistle.Lib.Fallible

open Option

lemma bind_eq_ok {ε α β : Type} {a : Except ε α} {f : α → Except ε β} {b : β} :
    (a >>= f) = .ok b ↔ ∃ v, a = .ok v ∧ f v = .ok b := by
  cases a <;> simp [bind, Except.bind]

lemma bind_pure_eq_ok {ε α β : Type} {a : Except ε α} {f : α → β} {b : β}
    (h : (a >>= fun v => pure (f v)) = .ok b) : ∃ v, a = .ok v ∧ b = f v := by
  obtain ⟨v, hv, hb⟩ := bind_eq_ok.1 h
  exact ⟨v, hv, (Except.ok.inj hb).symm⟩

lemma ok_bind {ε α β : Type} (a : α) (f : α → Except ε β) : (Except.ok a >>= f) = f a := rfl

lemma foldlM_cons_eq_ok {ε α σ : Type} {f : σ → α → Except ε σ} {a : α} {as : List α}
    {s t : σ} (h : (a :: as).foldlM f s = .ok t) :
    ∃ middle, f s a = .ok middle ∧ as.foldlM f middle = .ok t := by
  rw [List.foldlM_cons] at h
  exact bind_eq_ok.1 h

lemma foldlM_cons_eq_some {α σ : Type*} {f : σ → α → Option σ} {a : α} {as : List α} {s t : σ}
    (h : (a :: as).foldlM f s = some t) :
    ∃ middle, f s a = some middle ∧ as.foldlM f middle = some t := by
  rw [List.foldlM_cons, bind_eq_bind, bind_eq_some_iff] at h
  exact h

lemma forall₂_of_mapM {α β : Type*} {f : α → Option β} {xs : List α} {ys : List β}
    (h : xs.mapM f = some ys) : List.Forall₂ (fun x y => f x = some y) xs ys := by
  induction xs generalizing ys with
  | nil =>
    obtain rfl : [] = ys := by simpa using h
    exact .nil
  | cons x xs ih =>
    simp only [List.mapM_cons, bind_eq_bind, bind_eq_some_iff] at h
    obtain ⟨y, hy, rest, hrest, heq⟩ := h
    obtain rfl : y :: rest = ys := by simpa using heq
    exact .cons hy (ih hrest)

end Epistle.Lib.Fallible
