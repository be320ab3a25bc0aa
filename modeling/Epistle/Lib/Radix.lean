import Epistle.Lib.Text

/-!
# Numbers in a radix

Numbers of at most ten digit symbols, written with zeros in front and read back. A text of digits
that has been cut is still a number, below the bound that its length sets.
-/

namespace Epistle.Lib.Radix

open Text List

variable {radix : ℕ}

def write (radix width n : ℕ) : List Char := (Nat.toDigits radix n).leftpad width '0'

def isDigit (radix : ℕ) (c : Char) : Bool := '0'.toNat ≤ c.toNat && c.toNat < '0'.toNat + radix

def digits (radix : ℕ) (s : List Char) : Option ℕ :=
  if s ≠ [] ∧ ∀ c ∈ s, isDigit radix c then some (Nat.ofDigitChars radix s 0) else none

def parse (radix bound : ℕ) (s : List Char) : Option ℕ :=
  (digits radix ((stripFirst '+' s).getD s)).filter (· < bound)

variable {c : Char} {n : ℕ}

lemma toNat_lt_of_isDigit (h10 : radix ≤ 10) (h : isDigit radix c) : c.toNat < 128 := by
  simp only [isDigit, Bool.and_eq_true, decide_eq_true_eq] at h
  have hzero : '0'.toNat = 48 := rfl
  omega

lemma isDigit_of_mem_toDigits (h1 : 1 < radix) (h10 : radix ≤ 10) (h : c ∈ Nat.toDigits radix n) :
    isDigit radix c := by
  induction n using Nat.strongRecOn with
  | ind n ih =>
    have hdigit : ∀ d < radix, isDigit radix (Nat.digitChar d) := by
      intro d hd
      have hnat := Nat.toNat_digitChar_of_lt_ten (hd.trans_le h10)
      simp only [isDigit, Bool.and_eq_true, decide_eq_true_eq, hnat]
      exact ⟨Nat.le_add_right 48 d, Nat.add_lt_add_left hd 48⟩
    rw [Nat.toDigits_eq_if h1] at h
    split_ifs at h with hlt
    · rw [mem_singleton.1 h]
      exact hdigit n hlt
    · obtain h | h := mem_append.1 h
      · exact ih (n / radix) (Nat.div_lt_self (by omega) h1) h
      · rw [mem_singleton.1 h]
        exact hdigit _ (Nat.mod_lt n (by omega))

lemma isDigit_of_mem_write (h1 : 1 < radix) (h10 : radix ≤ 10) {width : ℕ}
    (h : c ∈ write radix width n) : isDigit radix c := by
  obtain h | h := mem_append.1 h
  · rw [eq_of_mem_replicate h]
    simp only [isDigit, Bool.and_eq_true, decide_eq_true_eq]
    exact ⟨le_refl _, Nat.lt_add_of_pos_right (by omega)⟩
  · exact isDigit_of_mem_toDigits h1 h10 h

lemma write_ne_nil (width n : ℕ) : write radix width n ≠ [] := by
  simp [write, List.leftpad]

lemma length_write (h1 : 1 < radix) {width : ℕ} (hwidth : 0 < width) (h : n < radix ^ width) :
    (write radix width n).length = width := by
  have hle := (Nat.length_toDigits_le_iff h1 hwidth).2 h
  rw [write, List.leftpad, length_append, length_replicate]
  omega

lemma width_le_length_write (width n : ℕ) : width ≤ (write radix width n).length := by
  rw [write, List.leftpad, length_append, length_replicate]
  omega

lemma digits_eq {s : List Char} (hne : s ≠ []) (h : ∀ c ∈ s, isDigit radix c) :
    digits radix s = some (Nat.ofDigitChars radix s 0) := if_pos ⟨hne, h⟩

lemma parse_eq_digits {s : List Char} (h : ∀ c ∈ s, isDigit radix c) (bound : ℕ) :
    parse radix bound s = (digits radix s).filter (· < bound) := by
  have hnone : stripFirst '+' s = none := by
    refine Option.eq_none_iff_forall_not_mem.2 fun t ht => ?_
    have hplus := h '+' (stripFirst_eq_some.1 ht ▸ mem_cons_self ..)
    exact absurd hplus (by simp [isDigit])
  rw [parse, hnone, Option.getD_none]

lemma ofDigitChars_write (h1 : 1 < radix) (h10 : radix ≤ 10) (width n : ℕ) :
    Nat.ofDigitChars radix (write radix width n) 0 = n := by
  rw [write, List.leftpad, Nat.ofDigitChars_append, Nat.ofDigitChars_replicate_zero, mul_zero,
    Nat.ofDigitChars_toDigits h1 h10]

lemma ofDigitChars_lt_mul {s : List Char} (h : ∀ c ∈ s, isDigit radix c) (init : ℕ) :
    Nat.ofDigitChars radix s init < radix ^ s.length * (init + 1) := by
  induction s generalizing init with
  | nil => simp
  | cons c s ih =>
    obtain ⟨hc, hs⟩ := forall_mem_cons.1 h
    simp only [isDigit, Bool.and_eq_true, decide_eq_true_eq] at hc
    rw [Nat.ofDigitChars_cons, length_cons, pow_succ, mul_assoc]
    refine (ih hs _).trans_le (Nat.mul_le_mul_left _ ?_)
    rw [mul_add, mul_one]
    omega

lemma ofDigitChars_lt {s : List Char} (h : ∀ c ∈ s, isDigit radix c) :
    Nat.ofDigitChars radix s 0 < radix ^ s.length := by
  simpa using ofDigitChars_lt_mul h 0

end Epistle.Lib.Radix
