import Mathlib.Algebra.Order.Ring.Int
import Mathlib.Data.List.Induction

/-!
# Chains of entries that name the one before

An entry has a hash, and names the hash of the entry it follows. A chain leads from one hash to
another; where it ends and how long it is decide every entry of it, as long as no two entries have
the same hash.
-/

namespace Epistle.Lib.HashChain

variable {ε η : Type*} {hash : ε → η} {prev : ε → Option η}

/-- The entries lead from one hash to another: each names the hash before it. -/
inductive Follows (hash : ε → η) (prev : ε → Option η) : η → List ε → η → Prop
  | nil (a : η) : Follows hash prev a [] a
  | cons {a c : η} {x : ε} {xs : List ε} (link : prev x = some a)
      (rest : Follows hash prev (hash x) xs c) : Follows hash prev a (x :: xs) c

namespace Follows

variable {a b c d : η} {xs ys : List ε}

lemma of_concat {x : ε} (h : Follows hash prev a (xs ++ [x]) c) :
    c = hash x ∧ ∃ b, prev x = some b ∧ Follows hash prev a xs b := by
  induction xs generalizing a with
  | nil =>
    cases h with
    | cons link rest =>
      cases rest
      exact ⟨rfl, a, link, .nil a⟩
  | cons y xs ih =>
    cases h with
    | cons link rest =>
      obtain ⟨hc, b, hb, hrest⟩ := ih rest
      exact ⟨hc, b, hb, .cons link hrest⟩

lemma unique (h : Follows hash prev a xs c) (h' : Follows hash prev b ys c)
    (hlength : xs.length = ys.length)
    (hfree : ∀ x ∈ xs, ∀ y ∈ ys, hash x = hash y → x = y) : xs = ys := by
  -- From the end to the start: equal last entries name equal hashes.
  induction xs using List.reverseRecOn generalizing ys c with
  | nil => exact (List.length_eq_zero_iff.1 hlength.symm).symm
  | append_singleton xs x ih =>
    induction ys using List.reverseRecOn with
    | nil => simp at hlength
    | append_singleton ys y _ =>
      obtain ⟨hx, p, hp, hxs⟩ := h.of_concat
      obtain ⟨hy, q, hq, hys⟩ := h'.of_concat
      obtain rfl : x = y := hfree x (by simp) y (by simp) (hx.symm.trans hy)
      obtain rfl : p = q := Option.some.inj (hp.symm.trans hq)
      have hsame := ih hxs hys (by simpa using hlength) fun z hz w hw =>
        hfree z (List.mem_append_left _ hz) w (List.mem_append_left _ hw)
      rw [hsame]

end Follows

end Epistle.Lib.HashChain
