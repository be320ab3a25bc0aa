import Epistle.Lib.Text
import Epistle.Lib.Fallible

/-!
# Files of one record a line

A text file whose lines are records, with a separator between the fields of a record. What is
written is read back as long as no line ending and no separator is in a field; a separator in a
field makes two fields of it.
-/

namespace Epistle.Lib.Text

open List Option

/-! ## Numbers -/

def showInt (z : ℤ) : List Char :=
  if z < 0 then '-' :: Nat.toDigits 10 z.natAbs else Nat.toDigits 10 z.natAbs

def parseSigned (bound : ℕ) (s : List Char) : Option ℤ :=
  match stripFirst '-' s with
  | some s => ((digits s).filter (· ≤ bound)).map fun n : ℕ => -(n : ℤ)
  | none => (parseUnsigned bound s).map fun n : ℕ => (n : ℤ)

variable {c : Char} {s : List Char}

lemma not_mem_toDigits (hc : c.isDigit = false) (n : ℕ) : c ∉ Nat.toDigits 10 n := by
  intro h
  have hdigit : c.isDigit := Nat.isDigit_of_mem_toDigits (by decide) (by decide) h
  simp [hc] at hdigit

lemma not_mem_showInt (hc : c.isDigit = false) (hminus : c ≠ '-') (z : ℤ) : c ∉ showInt z := by
  unfold showInt
  split_ifs <;> simp [not_mem_toDigits hc, hminus]

lemma parseUnsigned_toDigits {n bound : ℕ} (h : n < bound) :
    parseUnsigned bound (Nat.toDigits 10 n) = some n := by
  rw [parseUnsigned_digits (digits_toDigits n)]
  simp [h]

lemma parseSigned_showInt {z : ℤ} {bound : ℕ} (hlow : -bound ≤ z) (hhigh : z < bound) :
    parseSigned bound (showInt z) = some z := by
  unfold showInt parseSigned
  split_ifs with hz
  · have hle : z.natAbs ≤ bound := by omega
    simp only [stripFirst, if_true, digits_toDigits, filter_some, hle, decide_true,
      map_some, some.injEq]
    omega
  · -- A digit is no sign.
    have hnone : stripFirst '-' (Nat.toDigits 10 z.natAbs) = none := by
      refine eq_none_iff_forall_not_mem.2 fun s hs => ?_
      have heq := stripFirst_eq_some.1 hs
      exact not_mem_toDigits (c := '-') (by decide) z.natAbs (heq ▸ mem_cons_self ..)
    rw [hnone, parseUnsigned_toDigits (by omega), map_some, some.injEq]
    omega

/-! ## Lines -/

def endLines (ls : List (List Char)) : List Char := ls.flatMap (· ++ ['\n'])

lemma linesFrom_append {l : List Char} (hl : '\n' ∉ l) (line s : List Char) :
    linesFrom line (l ++ s) = linesFrom (l.reverse ++ line) s := by
  induction l generalizing line with
  | nil => rfl
  | cons c l ih =>
    obtain ⟨hc, hl⟩ := not_or.1 (List.mem_cons.not.1 hl)
    rw [cons_append, linesFrom, if_neg (Ne.symm hc), ih hl]
    simp

lemma lines_endLines {ls : List (List Char)} (h : ∀ l ∈ ls, '\n' ∉ l ∧ '\r' ∉ l) :
    lines (endLines ls) = ls := by
  induction ls with
  | nil => rfl
  | cons l ls ih =>
    obtain ⟨⟨hfeed, hreturn⟩, hls⟩ := forall_mem_cons.1 h
    have hkept : stripSuffix '\r' l = none := by
      refine eq_none_iff_forall_not_mem.2 fun s hs => hreturn ?_
      rw [stripSuffix_eq_some.1 hs]
      simp
    calc lines (endLines (l :: ls))
        = linesFrom l.reverse ('\n' :: endLines ls) := by
          simp only [lines, endLines, flatMap_cons, append_assoc]
          rw [linesFrom_append hfeed, append_nil]
          rfl
      _ = l :: lines (endLines ls) := by
          rw [linesFrom, if_pos rfl, reverse_reverse, hkept]
          rfl
      _ = l :: ls := by rw [ih hls]

/-! ## Fields -/

lemma one_lt_length_splitOn (h : c ∈ s) : 1 < (s.splitOn c).length := by
  obtain ⟨a, b, rfl⟩ := append_of_mem h
  have hpos : ∀ t : List Char, 0 < (t.splitOn c).length := fun t =>
    length_pos_of_ne_nil (splitOn_ne_nil c t)
  rw [splitOn_append_cons_self, length_append]
  exact Nat.add_lt_add_of_le_of_lt (hpos a) (hpos b)

lemma splitOn_intercalate_flatMap {fields : List (List Char)} (h : fields ≠ []) :
    ([c].intercalate fields).splitOn c = fields.flatMap (·.splitOn c) := by
  induction fields with
  | nil => exact absurd rfl h
  | cons field fields ih =>
    cases fields with
    | nil => simp
    | cons field' fields =>
      rw [intercalate_cons_cons, append_assoc, singleton_append,
        splitOn_append_cons_self, ih (by simp), ← flatMap_cons]

lemma length_le_length_flatMap {α β : Type*} {f : α → List β} (h : ∀ x, f x ≠ []) (l : List α) :
    l.length ≤ (l.flatMap f).length := by
  induction l with
  | nil => simp
  | cons x l ih =>
    have hx := length_pos_of_ne_nil (h x)
    rw [flatMap_cons, length_append, length_cons]
    omega

lemma length_lt_length_flatMap {α β : Type*} {f : α → List β} (h : ∀ x, f x ≠ []) {x : α}
    {l : List α} (hmem : x ∈ l) (hx : 1 < (f x).length) : l.length < (l.flatMap f).length := by
  obtain ⟨a, b, rfl⟩ := append_of_mem hmem
  have ha := length_le_length_flatMap h a
  have hb := length_le_length_flatMap h b
  simp only [flatMap_append, flatMap_cons, length_append, length_cons]
  omega

lemma not_mem_of_mem_splitOn {field : List Char} (h : field ∈ s.splitOn c) : c ∉ field := by
  intro hmem
  have hself : (s.splitOn c).flatMap (·.splitOn c) = s.splitOn c := by
    rw [← splitOn_intercalate_flatMap (splitOn_ne_nil c s), intercalate_splitOn]
  have hlt := length_lt_length_flatMap (splitOn_ne_nil c) h (one_lt_length_splitOn hmem)
  exact absurd hself (ne_of_apply_ne List.length hlt.ne')

end Epistle.Lib.Text

namespace Epistle.Lib.Fallible

lemma isSome_mapM {α β : Type*} {f : α → Option β} {xs : List α} :
    (xs.mapM f).isSome ↔ ∀ x ∈ xs, (f x).isSome := by
  induction xs with
  | nil => simp
  | cons x xs ih =>
    rw [List.forall_mem_cons, ← ih, List.mapM_cons]
    cases f x <;> cases xs.mapM f <;> simp

lemma mapM_eq_self {α : Type*} {f : α → Option α} {xs : List α} :
    xs.mapM f = some xs ↔ ∀ x ∈ xs, f x = some x := by
  constructor
  · intro h
    exact List.forall₂_same.1 (forall₂_of_mapM h)
  · intro h
    induction xs with
    | nil => rfl
    | cons x xs ih =>
      obtain ⟨hx, hxs⟩ := List.forall_mem_cons.1 h
      rw [List.mapM_cons, hx, ih hxs]
      rfl

lemma mapM_none_or_self {α : Type*} {f : α → Option α} {xs : List α} :
    xs.mapM f = none ∨ xs.mapM f = some xs ↔
      ((∀ x ∈ xs, (f x).isSome) → ∀ x ∈ xs, f x = some x) := by
  rw [← isSome_mapM, ← mapM_eq_self]
  constructor
  · rintro (hnone | hself) hsome
    · simp [hnone] at hsome
    · exact hself
  · intro h
    cases hread : xs.mapM f with
    | none => exact .inl rfl
    | some ys => exact .inr (hread ▸ h (by simp [hread]))

end Epistle.Lib.Fallible
