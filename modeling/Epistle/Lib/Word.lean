import Mathlib.Algebra.Order.Ring.Int

/-!
# Machine additions on natural numbers

Unsigned additions of `w`-bit words, on naturals below `2 ^ w`.
-/

namespace Epistle.Lib

/-- The largest word. -/
def wordMax (w : ℕ) : ℕ := 2 ^ w - 1

/-- The sum, or the largest word if it is larger. -/
def saturatingAdd (w a b : ℕ) : ℕ := min (a + b) (wordMax w)

/-- The sum, less what a word cannot hold. -/
def wrappingAdd (w a b : ℕ) : ℕ := (a + b) % 2 ^ w

variable {w a b : ℕ}

lemma le_wordMax : a ≤ wordMax w ↔ a < 2 ^ w := by
  have := Nat.two_pow_pos w
  unfold wordMax
  omega

lemma saturatingAdd_eq (h : a + b ≤ wordMax w) : saturatingAdd w a b = a + b :=
  Nat.min_eq_left h

lemma wrappingAdd_eq (h : a + b ≤ wordMax w) : wrappingAdd w a b = a + b :=
  Nat.mod_eq_of_lt (le_wordMax.1 h)

lemma wrappingAdd_le_add : wrappingAdd w a b ≤ a + b := Nat.mod_le ..

lemma wrappingAdd_le : wrappingAdd w a b ≤ wordMax w :=
  le_wordMax.2 (Nat.mod_lt _ (Nat.two_pow_pos w))

lemma add_le_of_saturatingAdd_le {n : ℕ} (hn : n < wordMax w) (h : saturatingAdd w a b ≤ n) :
    a + b ≤ n := by
  unfold saturatingAdd at h
  omega

end Epistle.Lib
