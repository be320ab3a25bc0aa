import Mathlib.Algebra.Order.Ring.Int
import Mathlib.Data.Nat.Log
import Mathlib.Tactic.Ring

/-!
# Trees that split at a power of two

A binary tree over a range of leaves that splits a range of more than one leaf at the largest power
of two below its length (RFC 6962 section 2.1). Its nodes are blocks, whose length is a power of two
that divides their start, and rests, which reach the end of the leaves.
-/

namespace Epistle.Lib.SplitTree

/-- The largest power of two below a length. -/
def splitSize (n : ℕ) : ℕ := 2 ^ Nat.log2 (n - 1)

lemma splitSize_pos (n : ℕ) : 0 < splitSize n := Nat.two_pow_pos _

lemma splitSize_lt {n : ℕ} (h : 1 < n) : splitSize n < n := by
  have := Nat.log2_self_le (n := n - 1) (by omega)
  rw [splitSize]
  omega

lemma le_two_mul_splitSize (n : ℕ) : n ≤ 2 * splitSize n := by
  have := Nat.lt_log2_self (n := n - 1)
  rw [splitSize, ← Nat.pow_succ']
  omega

lemma splitSize_eq {n j : ℕ} (hlt : 2 ^ j < n) (hle : n ≤ 2 ^ (j + 1)) : splitSize n = 2 ^ j := by
  have hlog : Nat.log2 (n - 1) = j :=
    (Nat.log2_eq_iff (by have := Nat.two_pow_pos j; omega)).2 ⟨by omega, by omega⟩
  rw [splitSize, hlog]

variable {α : Type} (node : α → α → α) (leaf : ℕ → α)

def hashRange (low size : ℕ) : α :=
  if 1 < size then
    node (hashRange low (splitSize size))
      (hashRange (low + splitSize size) (size - splitSize size))
  else leaf low
termination_by size
decreasing_by
  · exact splitSize_lt ‹1 < size›
  · exact Nat.sub_lt (Nat.lt_of_succ_lt ‹1 < size›) (splitSize_pos size)

variable {node leaf}

lemma hashRange_one (low : ℕ) : hashRange node leaf low 1 = leaf low := by
  rw [hashRange, if_neg (lt_irrefl 1)]

lemma hashRange_split {low size : ℕ} (h : 1 < size) :
    hashRange node leaf low size = node (hashRange node leaf low (splitSize size))
      (hashRange node leaf (low + splitSize size) (size - splitSize size)) := by
  rw [hashRange, if_pos h]

lemma hashRange_join {low rest j : ℕ} (hpos : 0 < rest) (hle : rest ≤ 2 ^ j) :
    hashRange node leaf low (2 ^ j + rest) =
      node (hashRange node leaf low (2 ^ j)) (hashRange node leaf (low + 2 ^ j) rest) := by
  have hj := Nat.two_pow_pos j
  have hsplit : splitSize (2 ^ j + rest) = 2 ^ j :=
    splitSize_eq (by omega) (by rw [pow_succ]; omega)
  rw [hashRange_split (by omega), hsplit, Nat.add_sub_cancel_left]

/-! ## Nodes -/

/-- The nodes of a tree over `n` leaves, as their first leaf and the one behind their last. -/
inductive IsNode (n : ℕ) : ℕ → ℕ → Prop
  | block {low : ℕ} (j : ℕ) (dvd : 2 ^ j ∣ low) (le : low + 2 ^ j ≤ n) : IsNode n low (low + 2 ^ j)
  | rest {low : ℕ} (j : ℕ) (dvd : 2 ^ j ∣ low) (lt : low < n) (gt : n < low + 2 ^ j) :
      IsNode n low n

variable {n low high : ℕ}

lemma isNode_root (h : 0 < n) : IsNode n 0 n :=
  .rest n (Nat.dvd_zero _) h (by rw [zero_add]; exact Nat.lt_two_pow_self)

lemma IsNode.le (h : IsNode n low high) : high ≤ n := by
  cases h with
  | block _ _ hle => exact hle
  | rest => exact le_refl n

variable {m : ℕ}

lemma IsNode.dvd (h : IsNode n low high) (hm : 2 ^ m < high - low) : 2 ^ (m + 1) ∣ low := by
  cases h with
  | block j hdvd =>
    rw [Nat.add_sub_cancel_left] at hm
    exact (Nat.pow_dvd_pow 2 ((Nat.pow_lt_pow_iff_right Nat.one_lt_two).1 hm)).trans hdvd
  | rest j hdvd hlt hgt =>
    have hlt : 2 ^ m < 2 ^ j := by omega
    exact (Nat.pow_dvd_pow 2 ((Nat.pow_lt_pow_iff_right Nat.one_lt_two).1 hlt)).trans hdvd

lemma IsNode.high_eq (h : IsNode n low high) (hm : 2 ^ m < high - low)
    (hle : high - low ≤ 2 ^ (m + 1)) : high = min n (low + 2 ^ (m + 1)) := by
  cases h with
  | block j hdvd hn =>
    rw [Nat.add_sub_cancel_left] at hm hle
    have hlt : m < j := (Nat.pow_lt_pow_iff_right Nat.one_lt_two).1 hm
    have hge : j ≤ m + 1 := (Nat.pow_le_pow_iff_right Nat.one_lt_two).1 hle
    obtain rfl : j = m + 1 := by omega
    exact (min_eq_right hn).symm
  | rest j hdvd hlt hgt => exact (min_eq_left (by omega)).symm

lemma IsNode.left (h : IsNode n low high) (hm : 2 ^ m < high - low) :
    2 ^ m ∣ low ∧ low + 2 ^ m ≤ n := by
  have hn := h.le
  have hpos := Nat.two_pow_pos m
  exact ⟨(Nat.pow_dvd_pow 2 (Nat.le_succ m)).trans (h.dvd hm), by omega⟩

lemma IsNode.right (h : IsNode n low high) (hm : 2 ^ m < high - low)
    (hle : high - low ≤ 2 ^ (m + 1)) : IsNode n (low + 2 ^ m) high := by
  have hdvd : 2 ^ m ∣ low + 2 ^ m := Nat.dvd_add_self_right.2 (h.left hm).1
  have hn := h.le
  have hpos := Nat.two_pow_pos m
  have hhigh := h.high_eq hm hle
  rw [pow_succ] at hhigh
  by_cases hend : high = low + 2 ^ m * 2
  · -- A whole block on the right.
    have hblock : high = low + 2 ^ m + 2 ^ m := by omega
    rw [hblock] at hn ⊢
    exact .block m hdvd hn
  · obtain rfl : high = n := by omega
    exact .rest m hdvd (by omega) (by omega)

end Epistle.Lib.SplitTree
