import Epistle.Lib.Text
import Mathlib.Computability.Language

/-!
# Patterns of LIST

The wildcard match of LIST and LSUB (`imap/list_pattern`). It keeps one row of a table: which heads
of the name the pattern so far matches.

The meaning of a pattern is a product of languages, one for each octet of it: a name is matched if
it can be cut into parts of these languages.

* `glob_iff`: the match is that of the meaning, and its work is bounded by the name's square and
  the pattern's length.
-/

namespace Epistle.Imap.ListPattern

open List

def star : UInt8 := 42

def percent : UInt8 := 37

def slash : UInt8 := 47

def isWildcard (p : UInt8) : Bool := p = star || p = percent

def collapseFrom : Option UInt8 → List UInt8 → List UInt8
  | last, [] => last.toList
  | last, p :: rest =>
      if isWildcard p && last.any isWildcard then
        collapseFrom (if p = star then some star else last) rest
      else last.toList ++ collapseFrom (some p) rest

/-- A pattern with each run of wildcards as one. -/
def collapseWildcards (pattern : List UInt8) : List UInt8 := collapseFrom none pattern

def cells (p : UInt8) : List UInt8 → Bool → List Bool → List Bool
  | c :: name, left, before :: here :: row =>
      let cell :=
        if p = star then here || left
        else if p = percent then here || (c ≠ slash && left)
        else before && p = c
      cell :: cells p name cell (here :: row)
  | _, _, _ => []

/-- Which prefixes of the name match, with one more character of the pattern. -/
def nextRow (p : UInt8) (name : List UInt8) (row : List Bool) : List Bool :=
  let first := row.headD false && isWildcard p
  first :: cells p name first row

def rows (name : List UInt8) : List UInt8 → List Bool → ℕ → List Bool × ℕ
  | [], row, work => (row, work)
  | p :: pattern, row, work => rows name pattern (nextRow p name row) (work + (name.length + 1))

def literals (pattern : List UInt8) : ℕ := pattern.countP (!isWildcard ·)

/-- Whether the name matches, and the work: the octets that the two passes over the pattern read,
and the cells of the table. -/
def glob (pattern name : List UInt8) : Bool × ℕ :=
  let collapsed := collapseWildcards pattern
  let work := pattern.length + collapsed.length
  if literals collapsed > name.length then (false, work)
  else
    let (row, work) := rows name collapsed (true :: List.replicate name.length false)
      (work + (name.length + 1))
    (row.getD name.length false, work)

/-! ## The meaning of a pattern -/

def Fits (p : UInt8) (run : List UInt8) : Prop :=
  if p = star then True else if p = percent then slash ∉ run else run = [p]

def meaning (p : UInt8) : Language UInt8 := {run | Fits p run}

def language (pattern : List UInt8) : Language UInt8 := (pattern.map meaning).prod

variable {p c : UInt8} {s name pattern : List UInt8} {L M : Language UInt8}

lemma mem_meaning : s ∈ meaning p ↔ Fits p s := Iff.rfl

lemma language_cons : language (p :: pattern) = meaning p * language pattern := by
  simp [language]

lemma fits_nil_iff : Fits p [] ↔ isWildcard p := by
  unfold Fits
  split_ifs with hstar hpercent
  · simp [isWildcard, hstar]
  · simp [isWildcard, hpercent]
  · simp [isWildcard, hstar, hpercent]

lemma meaning_mul_meaning {q : UInt8} (hp : isWildcard p) (hq : isWildcard q) :
    meaning q * meaning p = meaning (if p = star then star else q) := by
  have hnil : [] ∈ meaning p ∧ [] ∈ meaning q := ⟨fits_nil_iff.2 hp, fits_nil_iff.2 hq⟩
  simp only [isWildcard, Bool.or_eq_true, decide_eq_true_eq] at hp hq
  ext s
  rw [Language.mem_mul]
  obtain rfl | rfl := hp
  · exact iff_of_true ⟨[], hnil.2, s, trivial, rfl⟩ trivial
  obtain rfl | rfl := hq
  · exact iff_of_true ⟨s, trivial, [], hnil.1, append_nil s⟩ trivial
  · constructor
    · rintro ⟨a, ha, b, hb, rfl⟩
      exact fun h => (mem_append.1 h).elim ha hb
    · exact fun hs => ⟨s, hs, [], hnil.1, append_nil s⟩

lemma concat_mem_mul :
    s ++ [c] ∈ L * M ↔ s ++ [c] ∈ L ∧ [] ∈ M ∨ ∃ a ∈ L, ∃ b, b ++ [c] ∈ M ∧ a ++ b = s := by
  rw [Language.mem_mul]
  constructor
  · rintro ⟨a, ha, b, hb, hab⟩
    obtain rfl | ⟨b, d, rfl⟩ := eq_nil_or_concat b
    · exact .inl ⟨by rwa [← hab, append_nil], hb⟩
    · rw [concat_eq_append, ← append_assoc] at hab
      obtain ⟨rfl, hd⟩ := append_inj' hab rfl
      obtain rfl := singleton_inj.1 hd
      exact .inr ⟨a, ha, b, by simpa using hb, rfl⟩
  · rintro (⟨hs, hnil⟩ | ⟨a, ha, b, hb, rfl⟩)
    · exact ⟨_, hs, [], hnil, append_nil _⟩
    · exact ⟨a, ha, _, hb, (append_assoc ..).symm⟩

lemma nil_mem_mul_meaning : [] ∈ L * meaning p ↔ [] ∈ L ∧ isWildcard p := by
  rw [Language.mem_mul, ← fits_nil_iff, ← mem_meaning]
  constructor
  · rintro ⟨a, ha, b, hb, hab⟩
    obtain ⟨rfl, rfl⟩ := append_eq_nil_iff.1 hab
    exact ⟨ha, hb⟩
  · rintro ⟨hL, hp⟩
    exact ⟨[], hL, [], hp, rfl⟩

lemma concat_mem_mul_meaning : s ++ [c] ∈ L * meaning p ↔
    if p = star then s ++ [c] ∈ L ∨ s ∈ L * meaning p
    else if p = percent then s ++ [c] ∈ L ∨ c ≠ slash ∧ s ∈ L * meaning p
    else s ∈ L ∧ p = c := by
  rw [concat_mem_mul]
  simp only [mem_meaning, Language.mem_mul, Fits]
  split_ifs with hstar hpercent
  · simp
  · simp only [mem_append, mem_singleton, not_or]
    grind
  · simp only [and_false, false_or]
    constructor
    · rintro ⟨a, ha, b, hb, rfl⟩
      obtain ⟨rfl, hc⟩ := append_inj' (hb.trans (nil_append [p]).symm) rfl
      exact ⟨by rwa [append_nil], (singleton_inj.1 hc).symm⟩
    · rintro ⟨hs, rfl⟩
      exact ⟨s, hs, [], rfl, append_nil s⟩

/-! ## The collapsed pattern -/

lemma language_collapseFrom (last : Option UInt8) (pattern : List UInt8) :
    language (collapseFrom last pattern) = language last.toList * language pattern := by
  induction pattern generalizing last with
  | nil => simp [collapseFrom, language]
  | cons p rest ih =>
    rw [collapseFrom, language_cons, ← mul_assoc]
    by_cases hrun : isWildcard p && last.any isWildcard
    · obtain ⟨hp, hlast⟩ := Bool.and_eq_true_iff.1 hrun
      obtain ⟨q, rfl, hq⟩ := (Option.any_eq_true ..).1 hlast
      have hmul := meaning_mul_meaning hp hq
      rw [if_pos hrun, ih]
      split_ifs at hmul ⊢ <;> simp [language, hmul]
    · rw [if_neg hrun, language, map_append, prod_append, ← language, ← language, ih]
      simp [language, mul_assoc]

lemma length_collapseFrom_le (last : Option UInt8) (pattern : List UInt8) :
    (collapseFrom last pattern).length ≤
      2 * literals (collapseFrom last pattern) + if last.any (!isWildcard ·) then 0 else 1 := by
  unfold literals
  induction pattern generalizing last with
  | nil => cases last <;> grind [collapseFrom]
  | cons p rest ih =>
    have hrun := ih (if p = star then some star else last)
    have hnext := ih (some p)
    cases last <;> grind [collapseFrom, isWildcard]

lemma length_collapseFrom_le_length (last : Option UInt8) (pattern : List UInt8) :
    (collapseFrom last pattern).length ≤ last.toList.length + pattern.length := by
  induction pattern generalizing last with
  | nil => simp [collapseFrom]
  | cons p rest ih =>
    have hrun := ih (if p = star then some star else last)
    have hnext := ih (some p)
    cases last <;> grind [collapseFrom]

lemma literals_le (h : name ∈ language pattern) : literals pattern ≤ name.length := by
  induction pattern generalizing name with
  | nil => simp [literals]
  | cons p rest ih =>
    rw [language_cons, Language.mem_mul] at h
    obtain ⟨a, ha, b, hb, rfl⟩ := h
    have hrest := ih hb
    rw [literals, countP_cons, ← literals, length_append]
    cases hp : isWildcard p with
    | true => simp; omega
    | false =>
      have hne : a ≠ [] := fun hnil => by simp [fits_nil_iff.1 (hnil ▸ ha)] at hp
      have := length_pos_iff.2 hne
      simp
      omega

/-! ## The table -/

def IsRow (L : Language UInt8) : List UInt8 → List UInt8 → List Bool → Prop
  | _, _, [] => False
  | read, [], cell :: row => (cell ↔ read ∈ L) ∧ row = []
  | read, c :: name, cell :: row => (cell ↔ read ∈ L) ∧ IsRow L (read ++ [c]) name row

lemma isRow_replicate {read : List UInt8} (h : read ≠ []) (name : List UInt8) :
    IsRow 1 read name (List.replicate (name.length + 1) false) := by
  induction name generalizing read with
  | nil => exact ⟨by simpa using h, rfl⟩
  | cons c name ih => exact ⟨by simpa using h, ih (by simp)⟩

lemma isRow_first (name : List UInt8) :
    IsRow 1 [] name (true :: List.replicate name.length false) := by
  cases name with
  | nil => exact ⟨by simp, rfl⟩
  | cons c name => exact ⟨by simp, isRow_replicate (by simp) name⟩

section IsRow

variable {read : List UInt8} {row : List Bool}

lemma IsRow.head (h : IsRow L read name row) :
    ∃ cell rest, row = cell :: rest ∧ (cell ↔ read ∈ L) := by
  cases row with
  | nil => cases name <;> exact h.elim
  | cons cell rest => cases name <;> exact ⟨cell, rest, rfl, h.1⟩

lemma IsRow.cells {left before : Bool} (h : IsRow L read name (before :: row))
    (hleft : left ↔ read ∈ L * meaning p) :
    IsRow (L * meaning p) read name (left :: cells p name left (before :: row)) := by
  induction name generalizing read left before row with
  | nil => exact ⟨hleft, rfl⟩
  | cons c name ih =>
    obtain ⟨hbefore, hrest⟩ := h
    obtain ⟨here, rest, rfl, hhere⟩ := hrest.head
    refine ⟨hleft, ih hrest ?_⟩
    rw [concat_mem_mul_meaning, ← hhere, ← hleft, ← hbefore]
    split_ifs <;> simp

lemma IsRow.nextRow (h : IsRow L [] name row) :
    IsRow (L * meaning p) [] name (nextRow p name row) := by
  obtain ⟨cell, rest, rfl, hcell⟩ := h.head
  refine h.cells ?_
  rw [nil_mem_mul_meaning, ← hcell]
  simp

lemma IsRow.getD (h : IsRow L read name row) :
    row.getD name.length false ↔ read ++ name ∈ L := by
  induction name generalizing read row with
  | nil =>
    obtain ⟨cell, rest, rfl, hcell⟩ := h.head
    simpa using hcell
  | cons c name ih =>
    obtain ⟨cell, rest, rfl, -⟩ := h.head
    simpa using ih h.2

lemma rows_spec (pattern : List UInt8) (work : ℕ) (h : IsRow L [] name row) :
    IsRow (L * language pattern) [] name (rows name pattern row work).1 ∧
      (rows name pattern row work).2 = work + pattern.length * (name.length + 1) := by
  induction pattern generalizing L row work with
  | nil => exact ⟨by simpa [language, rows] using h, by simp [rows]⟩
  | cons p rest ih =>
    obtain ⟨hrow, hwork⟩ := ih (work + (name.length + 1)) (h.nextRow (p := p))
    rw [language_cons, ← mul_assoc]
    refine ⟨hrow, hwork.trans ?_⟩
    rw [length_cons, Nat.add_mul]
    omega

end IsRow

/-- The match is that of the meaning, and the work is at most proportional to the square of the
name's length and to the pattern's. -/
theorem glob_iff (pattern name : List UInt8) :
    ((glob pattern name).1 ↔ name ∈ language pattern) ∧
      (glob pattern name).2 ≤
        3 * ((2 * name.length + 1) * name.length + pattern.length) + 1 := by
  have hlanguage : language (collapseWildcards pattern) = language pattern := by
    simpa [language, collapseWildcards] using language_collapseFrom none pattern
  have hshort : (collapseWildcards pattern).length ≤ pattern.length := by
    simpa [collapseWildcards] using length_collapseFrom_le_length none pattern
  have hlong : (collapseWildcards pattern).length ≤ 2 * literals (collapseWildcards pattern) + 1 :=
    length_collapseFrom_le none pattern
  rw [← hlanguage, glob]
  generalize collapseWildcards pattern = collapsed at *
  dsimp only
  split_ifs with hmany
  · refine ⟨iff_of_false (by simp) fun h => (literals_le h).not_gt hmany, ?_⟩
    dsimp only
    omega
  · obtain ⟨hrow, hwork⟩ := rows_spec collapsed
      (pattern.length + collapsed.length + (name.length + 1)) (isRow_first name)
    refine ⟨by simpa using hrow.getD, ?_⟩
    -- The table has at most `2 n + 1` rows of `n + 1` cells.
    have htable : collapsed.length * name.length ≤ (2 * name.length + 1) * name.length :=
      Nat.mul_le_mul_right _ (by omega)
    have hname : name.length ≤ (2 * name.length + 1) * name.length :=
      Nat.le_mul_of_pos_left _ (Nat.succ_pos _)
    rw [hwork, Nat.mul_add_one]
    omega

end Epistle.Imap.ListPattern
