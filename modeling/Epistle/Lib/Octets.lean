import Mathlib.Algebra.Order.Ring.Int
import Mathlib.Data.List.Basic

/-!
# Octets

ASCII casing and white space on octets, and numbers as little-endian octets.
-/

namespace Epistle.Lib.Octets

def lower (b : UInt8) : UInt8 := if 65 ≤ b ∧ b ≤ 90 then b + 32 else b

lemma toNat_lower (b : UInt8) :
    (lower b).toNat = if 65 ≤ b.toNat ∧ b.toNat ≤ 90 then b.toNat + 32 else b.toNat := by
  rw [lower]
  simp only [UInt8.le_iff_toNat_le]
  change (if 65 ≤ b.toNat ∧ b.toNat ≤ 90 then _ else _ : UInt8).toNat = _
  split_ifs
  · rw [UInt8.toNat_add]
    have : (32 : UInt8).toNat = 32 := rfl
    omega
  · rfl

def eqIgnoreCase (a b : List UInt8) : Bool := a.map lower = b.map lower

/-- Space, tab, line feed, form feed and carriage return. -/
def isAsciiWhitespace (b : UInt8) : Bool := b = 32 || b = 9 || b = 10 || b = 12 || b = 13

def trimAscii (l : List UInt8) : List UInt8 :=
  ((l.dropWhile isAsciiWhitespace).reverse.dropWhile isAsciiWhitespace).reverse

/-! ## Numbers -/

def leBytes : ℕ → ℕ → List UInt8
  | 0, _ => []
  | n + 1, x => UInt8.ofNat x :: leBytes n (x / 256)

/-- The number of little-endian octets. -/
def ofLe : List UInt8 → ℕ
  | [] => 0
  | b :: bs => b.toNat + 256 * ofLe bs

@[simp] lemma length_leBytes (n x : ℕ) : (leBytes n x).length = n := by
  induction n generalizing x with
  | zero => rfl
  | succ n ih => rw [leBytes, List.length_cons, ih]

lemma ofLe_leBytes {n x : ℕ} (h : x < 256 ^ n) : ofLe (leBytes n x) = x := by
  induction n generalizing x with
  | zero => simp [leBytes, ofLe, Nat.lt_one_iff.1 (by simpa using h)]
  | succ n ih =>
    have hdiv : x / 256 < 256 ^ n := Nat.div_lt_of_lt_mul (by rwa [Nat.pow_succ, Nat.mul_comm] at h)
    have hlow : (UInt8.ofNat x).toNat = x % 256 := by simp
    rw [leBytes, ofLe, ih hdiv, hlow, Nat.mod_add_div]

end Epistle.Lib.Octets

def Epistle.Lib.Digest : Type := { octets : List UInt8 // octets.length = 32 }
  deriving DecidableEq
