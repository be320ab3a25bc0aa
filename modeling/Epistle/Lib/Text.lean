import Mathlib.Algebra.Order.Ring.Int
import Mathlib.Data.List.DropRight
import Mathlib.Data.List.Infix

/-!
# Text as a list of characters

The searching and trimming operations of a string type, on `List Char`, each with the equation
that says when it succeeds. Trimming follows the Unicode `White_Space` property; case is ASCII
case, as that of `Char.toUpper`.
-/

namespace Epistle.Lib.Text

open List

/-- What holds for every element of a list is decided by going through the list, not through all
characters. -/
instance (priority := 2000) decidableForallMem {α : Type*} {p : α → Prop} [DecidablePred p]
    (l : List α) : Decidable (∀ a ∈ l, p a) := List.decidableBAll p l

def isWhitespace (c : Char) : Bool :=
  let n := c.toNat
  (9 ≤ n && n ≤ 13) || n == 0x20 || n == 0x85 || n == 0xA0 || n == 0x1680 ||
    (0x2000 ≤ n && n ≤ 0x200A) || n == 0x2028 || n == 0x2029 || n == 0x202F || n == 0x205F ||
    n == 0x3000

def trimStart (s : List Char) : List Char := s.dropWhile isWhitespace

def trimEnd (s : List Char) : List Char := s.rdropWhile isWhitespace

/-- Drop the white space on both sides. -/
def trim (s : List Char) : List Char := trimEnd (trimStart s)

/-- The parts of a text before and behind a character. -/
def splitOnce (c : Char) : List Char → Option (List Char × List Char)
  | [] => none
  | d :: s => if d = c then some ([], s) else (splitOnce c s).map fun (a, b) => (d :: a, b)

def rsplitOnce (c : Char) (s : List Char) : Option (List Char × List Char) :=
  (splitOnce c s.reverse).map fun (b, a) => (a.reverse, b.reverse)

def stripSuffix (c : Char) (s : List Char) : Option (List Char) :=
  if s.getLast? = some c then some s.dropLast else none

def stripFirst (c : Char) : List Char → Option (List Char)
  | d :: s => if d = c then some s else none
  | [] => none

/-- The text without what it starts with. -/
def stripPrefix (head s : List Char) : Option (List Char) :=
  if head <+: s then some (s.drop head.length) else none

def linesFrom (line : List Char) : List Char → List (List Char)
  | [] => if line = [] then [] else [line.reverse]
  | c :: s =>
      if c = '\n' then ((stripSuffix '\r' line.reverse).getD line.reverse) :: linesFrom [] s
      else linesFrom (c :: line) s

def lines (s : List Char) : List (List Char) := linesFrom [] s

def toLower (s : List Char) : List Char := s.map Char.toLower

def splitWhitespace (s : List Char) : List (List Char) :=
  (s.splitOnP isWhitespace).filter (· ≠ [])

def eqIgnoreAsciiCase (a b : List Char) : Bool := a.map Char.toUpper == b.map Char.toUpper

def digits (s : List Char) : Option ℕ :=
  if s ≠ [] ∧ ∀ c ∈ s, c.isDigit then
    some (s.foldl (fun n c => 10 * n + (c.toNat - '0'.toNat)) 0)
  else none

def parseUnsigned (bound : ℕ) (s : List Char) : Option ℕ :=
  (digits ((stripFirst '+' s).getD s)).filter (· < bound)

/-! ## Splitting -/

section Split

variable {c : Char} {s a b : List Char}

lemma splitOnce_eq_some : splitOnce c s = some (a, b) ↔ s = a ++ c :: b ∧ c ∉ a := by
  induction s generalizing a b with
  | nil => simp [splitOnce]
  | cons d s ih =>
    by_cases hd : d = c
    · subst hd
      cases a <;> simp +contextual [splitOnce, eq_comm]
    · cases a with
      | nil => simp [splitOnce, hd]
      | cons e a =>
        simp only [splitOnce, hd, if_false, Option.map_eq_some_iff, Prod.exists, Prod.mk.injEq,
          List.cons.injEq, cons_append, mem_cons, not_or, ih]
        constructor
        · rintro ⟨_, _, ⟨rfl, ha⟩, ⟨rfl, rfl⟩, rfl⟩
          exact ⟨⟨rfl, rfl⟩, Ne.symm hd, ha⟩
        · rintro ⟨⟨rfl, rfl⟩, -, ha⟩
          exact ⟨a, b, ⟨rfl, ha⟩, ⟨rfl, rfl⟩, rfl⟩

lemma splitOnce_eq_none : splitOnce c s = none ↔ c ∉ s := by
  induction s with
  | nil => simp [splitOnce]
  | cons d s ih =>
    by_cases hd : d = c
    · simp [splitOnce, hd]
    · simp [splitOnce, hd, ih, Ne.symm hd]

lemma rsplitOnce_eq_some : rsplitOnce c s = some (a, b) ↔ s = a ++ c :: b ∧ c ∉ b := by
  simp only [rsplitOnce, Option.map_eq_some_iff, Prod.exists, Prod.mk.injEq, splitOnce_eq_some]
  constructor
  · rintro ⟨b', a', ⟨hs, hb⟩, rfl, rfl⟩
    refine ⟨?_, by simpa using hb⟩
    rw [← reverse_reverse s, hs]
    simp
  · rintro ⟨rfl, hb⟩
    exact ⟨b.reverse, a.reverse, ⟨by simp, by simpa using hb⟩, by simp, by simp⟩

lemma stripSuffix_eq_some : stripSuffix c s = some a ↔ s = a ++ [c] := by
  unfold stripSuffix
  constructor
  · intro h
    split_ifs at h with hlast
    obtain rfl : s.dropLast = a := by simpa using h
    exact (dropLast_append_getLast? c hlast).symm
  · rintro rfl
    simp

lemma rsplitOnce_append (a : List Char) (h : c ∉ b) : rsplitOnce c (a ++ c :: b) = some (a, b) :=
  rsplitOnce_eq_some.2 ⟨rfl, h⟩

lemma stripSuffix_append (a : List Char) : stripSuffix c (a ++ [c]) = some a :=
  stripSuffix_eq_some.2 rfl

lemma stripPrefix_append (a b : List Char) : stripPrefix a (a ++ b) = some b := by
  rw [stripPrefix, if_pos (prefix_append a b), drop_left]

lemma stripFirst_eq_some : stripFirst c s = some a ↔ s = c :: a := by
  cases s with
  | nil => simp [stripFirst]
  | cons d s =>
    by_cases hd : d = c <;> simp [stripFirst, hd]

end Split

/-! ## Trimming -/

lemma trimStart_suffix (s : List Char) : trimStart s <:+ s := dropWhile_suffix _

variable {c : Char} {s : List Char}

lemma trimStart_append_cons (p r : List Char) (hc : isWhitespace c = false) :
    ∃ p', trimStart (p ++ c :: r) = p' ++ c :: r := by
  induction p with
  | nil => exact ⟨[], by simp [trimStart, hc]⟩
  | cons d p ih =>
    by_cases hd : isWhitespace d
    · simpa [trimStart, hd] using ih
    · exact ⟨d :: p, by simp [trimStart, hd]⟩

lemma trimEnd_eq_self (hlast : s.getLast? = some c) (hc : isWhitespace c = false) :
    trimEnd s = s := by
  refine rdropWhile_eq_self_iff.2 fun hne => ?_
  rw [List.getLast?_eq_some_getLast hne, Option.some.injEq] at hlast
  simp [hlast, hc]

lemma getLast?_of_suffix {x : List Char} (h : x <:+ s) (hne : x ≠ []) :
    x.getLast? = s.getLast? := by
  obtain ⟨p, rfl⟩ := h
  obtain ⟨y, c, rfl⟩ := eq_nil_or_concat x |>.resolve_left hne
  simp

lemma trim_suffix {x : List Char} (hlast : s.getLast? = some c) (hc : isWhitespace c = false)
    (h : x <:+ s) : trim x <:+ s := by
  have hstart : trimStart x <:+ s := (trimStart_suffix x).trans h
  by_cases hne : trimStart x = []
  · simp [trim, hne, trimEnd, nil_suffix]
  · rw [trim, trimEnd_eq_self ((getLast?_of_suffix hstart hne).trans hlast) hc]
    exact hstart

lemma trimEnd_append {p : List Char} (h : ∀ c ∈ p, isWhitespace c) (s : List Char) :
    trimEnd (s ++ p) = trimEnd s := by
  rw [trimEnd, List.rdropWhile, reverse_append, dropWhile_append_of_pos (by simpa using h)]
  rfl

lemma trimStart_append {p : List Char} (h : ∀ c ∈ p, isWhitespace c) {d : Char}
    (hd : isWhitespace d = false) : trimStart (p ++ d :: s) = d :: s := by
  rw [trimStart, dropWhile_append_of_pos h]
  simp [hd]

lemma trimEnd_append_cons (p r : List Char) (hc : isWhitespace c = false) :
    trimEnd (p ++ c :: r) = p ++ c :: trimEnd r := by
  have hsplit : r = trimEnd r ++ r.rtakeWhile isWhitespace :=
    (rdropWhile_append_rtakeWhile).symm
  have hwhole : p ++ c :: r = (p ++ c :: trimEnd r) ++ r.rtakeWhile isWhitespace := by
    conv_lhs => rw [hsplit]
    simp
  rw [hwhole, trimEnd_append fun d hd => mem_rtakeWhile_imp hd]
  by_cases hr : trimEnd r = []
  · rw [hr]
    exact trimEnd_eq_self (c := c) (by simp) hc
  · refine rdropWhile_eq_self_iff.2 fun hne => ?_
    have hlast : (p ++ c :: trimEnd r).getLast hne = (trimEnd r).getLast hr := by
      rw [getLast_append_of_ne_nil _ (cons_ne_nil c _), getLast_cons hr]
    rw [hlast]
    exact rdropWhile_last_not _ _ hr
/-! ## Case -/

lemma toNat_toUpper (c : Char) :
    c.toUpper.toNat = if 97 ≤ c.toNat ∧ c.toNat ≤ 122 then c.toNat - 32 else c.toNat := by
  unfold Char.toUpper
  by_cases h : 'a'.val ≤ c.val ∧ c.val ≤ 'z'.val
  · have hn : 97 ≤ c.toNat ∧ c.toNat ≤ 122 := h
    rw [dif_pos h, if_pos hn]
    change (c.val + ('A'.val - 'a'.val)).toNat = c.toNat - 32
    rw [UInt32.toNat_add]
    change (c.toNat + 4294967264) % 4294967296 = c.toNat - 32
    omega
  · have hn : ¬ (97 ≤ c.toNat ∧ c.toNat ≤ 122) := h
    rw [dif_neg h, if_neg hn]

lemma toNat_toLower (c : Char) :
    c.toLower.toNat = if 65 ≤ c.toNat ∧ c.toNat ≤ 90 then c.toNat + 32 else c.toNat := by
  unfold Char.toLower
  by_cases h : c.val ≥ 'A'.val ∧ c.val ≤ 'Z'.val
  · have hn : 65 ≤ c.toNat ∧ c.toNat ≤ 90 := h
    rw [dif_pos h, if_pos hn]
    change (c.val + ('a'.val - 'A'.val)).toNat = c.toNat + 32
    rw [UInt32.toNat_add]
    change (c.toNat + 32) % 4294967296 = c.toNat + 32
    omega
  · have hn : ¬ (65 ≤ c.toNat ∧ c.toNat ≤ 90) := h
    rw [dif_neg h, if_neg hn]

lemma toUpper_eq_toUpper_iff {d : Char} : c.toUpper = d.toUpper ↔ c.toLower = d.toLower := by
  rw [← Char.toNat_inj, ← Char.toNat_inj, toNat_toUpper, toNat_toUpper, toNat_toLower,
    toNat_toLower]
  split_ifs <;> omega

lemma eqIgnoreAsciiCase_iff {a b : List Char} :
    eqIgnoreAsciiCase a b ↔ toLower a = toLower b := by
  simp only [eqIgnoreAsciiCase, toLower, beq_iff_eq]
  induction a generalizing b with
  | nil => simp
  | cons c a ih =>
    cases b with
    | nil => simp
    | cons d b => simp [toUpper_eq_toUpper_iff, ih]

/-! ## Numbers -/

lemma digits_eq_some {n : ℕ} (h : digits s = some n) : s ≠ [] ∧ ∀ c ∈ s, c.isDigit := by
  unfold digits at h
  split_ifs at h with hs
  exact hs

lemma digits_toDigits (n : ℕ) : digits (Nat.toDigits 10 n) = some n := by
  have hdigit : ∀ c ∈ Nat.toDigits 10 n, c.isDigit := fun c hc =>
    Nat.isDigit_of_mem_toDigits (by decide) (by decide) hc
  have hvalue := Nat.ofDigitChars_ten_toDigits (n := n)
  rw [Nat.ofDigitChars_eq_foldl] at hvalue
  rw [digits, if_pos ⟨Nat.toDigits_ne_nil, hdigit⟩, hvalue]

lemma parseUnsigned_digits {n : ℕ} (h : digits s = some n) (bound : ℕ) :
    parseUnsigned bound s = (some n).filter (· < bound) := by
  obtain ⟨hne, hs⟩ := digits_eq_some h
  obtain ⟨c, s, rfl⟩ := exists_cons_of_ne_nil hne
  -- A digit is no sign.
  have hc : c ≠ '+' := by
    rintro rfl
    exact absurd (hs '+' (mem_cons_self ..)) (by decide)
  simp [parseUnsigned, stripFirst, hc, h]

end Epistle.Lib.Text
