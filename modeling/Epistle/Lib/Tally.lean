import Mathlib.Algebra.BigOperators.Group.List.Basic
import Mathlib.Algebra.Order.Ring.Int

/-!
# Tallies of claims

A shared counter, and one counter for each key, that stand for a list of claims held elsewhere. The
counters do not know the claims.
-/

namespace Epistle.Lib

open Function Option

variable {κ : Type*}

/-- An amount held, for a key when one is known. -/
structure Claim (κ : Type*) where
  /-- Whom the claim is counted for. -/
  key : Option κ
  /-- How much is held. -/
  amount : ℕ

def total (cs : List (Claim κ)) : ℕ := (cs.map Claim.amount).sum

def totalFor [DecidableEq κ] (k : κ) (cs : List (Claim κ)) : ℕ :=
  total (cs.filter (·.key = some k))

@[simp] lemma total_nil : total ([] : List (Claim κ)) = 0 := rfl

@[simp]
lemma total_cons (c : Claim κ) (cs : List (Claim κ)) : total (c :: cs) = c.amount + total cs := by
  simp [total]

lemma total_perm {cs cs' : List (Claim κ)} (h : cs.Perm cs') : total cs = total cs' :=
  (h.map Claim.amount).sum_eq

variable [DecidableEq κ]

@[simp] lemma totalFor_nil (k : κ) : totalFor k [] = 0 := rfl

lemma totalFor_cons (k : κ) (c : Claim κ) (cs : List (Claim κ)) :
    totalFor k (c :: cs) = (if c.key = some k then c.amount else 0) + totalFor k cs := by
  unfold totalFor
  by_cases h : c.key = some k <;> simp [h]

lemma totalFor_le_total (k : κ) (cs : List (Claim κ)) : totalFor k cs ≤ total cs := by
  induction cs with
  | nil => exact le_refl 0
  | cons c cs ih =>
    rw [totalFor_cons, total_cons]
    split_ifs <;> omega

/-- The counters agree with the claims, and no key has a counter at zero. -/
structure Tallies (sum : ℕ) (per : κ → Option ℕ) (cs : List (Claim κ)) : Prop where
  sum_eq : sum = total cs
  per_eq : ∀ k, per k = if totalFor k cs = 0 then none else some (totalFor k cs)

section Tallies

variable {sum : ℕ} {per : κ → Option ℕ} {cs : List (Claim κ)} {c : Claim κ}

lemma Tallies.nil : Tallies 0 (fun _ : κ => none) [] := ⟨rfl, fun _ => rfl⟩

lemma Tallies.perm {cs' : List (Claim κ)} (h : Tallies sum per cs) (hp : cs.Perm cs') :
    Tallies sum per cs' where
  sum_eq := h.sum_eq.trans (total_perm hp)
  per_eq k := (h.per_eq k).trans (by rw [totalFor, totalFor, total_perm (hp.filter _)])

lemma Tallies.getD (h : Tallies sum per cs) (k : κ) : (per k).getD 0 = totalFor k cs := by
  rw [h.per_eq k]
  split_ifs with h0
  · rw [h0, getD_none]
  · rw [getD_some]

lemma tallies_cons_zero (hc : c.amount = 0) : Tallies sum per (c :: cs) ↔ Tallies sum per cs := by
  have hk : ∀ k, totalFor k (c :: cs) = totalFor k cs := by
    intro k
    simp [totalFor_cons, hc]
  constructor <;> intro h
  all_goals exact ⟨by simpa [hc] using h.sum_eq, fun k => by rw [h.per_eq k, hk k]⟩

lemma Tallies.merge {d : Claim κ} (h : Tallies sum per (c :: d :: cs))
    (hkey : c.key = d.key) : Tallies sum per (⟨c.key, c.amount + d.amount⟩ :: cs) where
  sum_eq := by
    rw [h.sum_eq, total_cons, total_cons, total_cons, add_assoc]
  per_eq k := by
    have hk : totalFor k (⟨c.key, c.amount + d.amount⟩ :: cs) = totalFor k (c :: d :: cs) := by
      simp only [totalFor_cons, ← hkey]
      split_ifs <;> omega
    rw [hk, h.per_eq k]

lemma Tallies.charge_none (h : Tallies sum per (c :: cs)) (hkey : c.key = none) (n : ℕ) :
    Tallies (sum + n) per (⟨none, c.amount + n⟩ :: cs) where
  sum_eq := by
    simp only [h.sum_eq, total_cons]
    omega
  per_eq k := by
    rw [h.per_eq k, totalFor_cons, totalFor_cons, hkey]
    simp

variable {k : κ}

lemma Tallies.charge (h : Tallies sum per (c :: cs)) (hkey : c.key = some k) {n : ℕ}
    (hn : 0 < (per k).getD 0 + n) :
    Tallies (sum + n) (update per k (some ((per k).getD 0 + n)))
      (⟨some k, c.amount + n⟩ :: cs) where
  sum_eq := by
    simp only [h.sum_eq, total_cons]
    omega
  per_eq k' := by
    have hk := h.getD k
    rw [totalFor_cons, if_pos hkey] at hk
    by_cases hkk : k' = k
    · subst hkk
      have hsum : totalFor k' (⟨some k', c.amount + n⟩ :: cs) = (per k').getD 0 + n := by
        rw [totalFor_cons, if_pos rfl, hk]
        dsimp only
        omega
      rw [update_self, hsum, if_neg (by omega)]
    · have hne : ¬ some k = some k' := fun h => hkk (some.inj h).symm
      rw [update_of_ne hkk, h.per_eq k', totalFor_cons, totalFor_cons, hkey, if_neg hne,
        if_neg hne]

lemma Tallies.release_none (h : Tallies sum per (c :: cs)) (hkey : c.key = none) :
    Tallies (sum - c.amount) per cs where
  sum_eq := by
    rw [h.sum_eq, total_cons]
    omega
  per_eq k := by
    rw [h.per_eq k, totalFor_cons, hkey]
    simp

lemma Tallies.release (h : Tallies sum per (c :: cs)) (hkey : c.key = some k) {held : ℕ}
    (hheld : per k = some held) :
    Tallies (sum - c.amount)
      (update per k (if held - c.amount = 0 then none else some (held - c.amount)))
      cs where
  sum_eq := by
    rw [h.sum_eq, total_cons]
    omega
  per_eq k' := by
    have hk := h.getD k
    rw [totalFor_cons, if_pos hkey, hheld, getD_some] at hk
    by_cases hkk : k' = k
    · subst hkk
      have hrest : held - c.amount = totalFor k' cs := by omega
      rw [update_self, hrest]
    · have hne : ¬ some k = some k' := fun h => hkk (some.inj h).symm
      rw [update_of_ne hkk, h.per_eq k', totalFor_cons, hkey, if_neg hne, zero_add]

/-! ### Slots

A slot is a claim of one. Counted over a list, slots give its length and, for one key, how many
of its elements have that key. -/

/-- One unit held for a key. -/
def slot (k : κ) : Claim κ := ⟨some k, 1⟩

omit [DecidableEq κ] in
lemma total_slots {α : Type*} (f : α → κ) (xs : List α) :
    total (xs.map fun x => slot (f x)) = xs.length := by
  induction xs with
  | nil => rfl
  | cons x xs ih =>
    rw [List.map_cons, total_cons, ih, List.length_cons]
    exact add_comm 1 _

lemma totalFor_slots {α : Type*} (f : α → κ) (k : κ) (xs : List α) :
    totalFor k (xs.map fun x => slot (f x)) = xs.countP (f · = k) := by
  induction xs with
  | nil => rfl
  | cons x xs ih =>
    rw [List.map_cons, totalFor_cons, ih, List.countP_cons]
    simp [slot, add_comm]

lemma Tallies.slot_in (h : Tallies sum per cs) (k : κ) :
    Tallies (sum + 1) (update per k (some ((per k).getD 0 + 1))) (slot k :: cs) := by
  have h0 : Tallies sum per (⟨some k, 0⟩ :: cs) := (tallies_cons_zero rfl).2 h
  exact h0.charge rfl (Nat.succ_pos _)

lemma Tallies.counter_of_slot (h : Tallies sum per (slot k :: cs)) :
    per k = some (1 + totalFor k cs) := by
  have hk : totalFor k (slot k :: cs) = 1 + totalFor k cs := by
    rw [totalFor_cons]
    exact congrArg (· + _) (if_pos rfl)
  rw [h.per_eq k, hk, if_neg (by omega)]

end Tallies

end Epistle.Lib
