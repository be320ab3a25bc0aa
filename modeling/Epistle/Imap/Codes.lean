import Epistle.Lib.Text

/-!
# Sequence sets of replies

How a reply writes ascending numbers (`imap/session/codes`): each run of consecutive numbers as one
`first:last` range. The loop follows a run while the number behind it is the next one of the list,
and compares the two as optional values: behind the last number of the list there is none, and
behind the largest number of 32 bits there is none either.

* `sequenceSet_written_iff`: the numbers are written unless the largest one is among them.
-/

namespace Epistle.Imap.Codes

open Lib.Text List

def maxNumber : ℕ := 4294967295

def checkedSucc (last : ℕ) : Option ℕ := if last < maxNumber then some (last + 1) else none

def rangesFrom (checks : Bool) (first last : ℕ) : List ℕ → Option (List (ℕ × ℕ))
  | [] =>
      if none = checkedSucc last then if checks then none else some [(first, 0)]
      else some [(first, last)]
  | number :: rest =>
      if some number = checkedSucc last then rangesFrom checks first number rest
      else ((first, last) :: ·) <$> rangesFrom checks number number rest

def rangeText (range : ℕ × ℕ) : List Char :=
  if range.1 = range.2 then Nat.toDigits 10 range.1
  else Nat.toDigits 10 range.1 ++ ':' :: Nat.toDigits 10 range.2

/-- A set of numbers as ranges. -/
def sequenceSet (checks : Bool) : List ℕ → Option (List Char)
  | [] => some []
  | first :: rest =>
      (rangesFrom checks first first rest).map fun ranges =>
        [','].intercalate (ranges.map rangeText)

/-! ## What a set denotes -/

def expandRange (part : List Char) : Option (ℕ × ℕ) :=
  let ends := (splitOnce ':' part).getD (part, part)
  (digits ends.1).bind fun first => (digits ends.2).map (first, ·)

/-- The ranges of a set, as a client reads it. -/
def expand (text : List Char) : Option (List (ℕ × ℕ)) :=
  if text = [] then some [] else (text.splitOn ',').mapM expandRange

def Covers (range : ℕ × ℕ) (number : ℕ) : Prop :=
  min range.1 range.2 ≤ number ∧ number ≤ max range.1 range.2

/-- A text denotes the numbers of a list, in one range for each maximal run of them: the ranges
ascend, and no two could be one. -/
def Written (numbers : List ℕ) (text : List Char) : Prop :=
  ∃ ranges, expand text = some ranges ∧
    (∀ number, number ∈ numbers ↔ ∃ range ∈ ranges, Covers range number) ∧
    (∀ range ∈ ranges, range.1 ≤ range.2) ∧ ranges.Pairwise fun r r' => r.2 + 1 < r'.1

lemma digits_notMem {c : Char} (h : c.isDigit = false) (number : ℕ) :
    c ∉ Nat.toDigits 10 number := fun hc =>
  absurd (Nat.isDigit_of_mem_toDigits (by decide) (by decide) hc) (by simp [h])

lemma comma_notMem_rangeText (range : ℕ × ℕ) : ',' ∉ rangeText range := by
  unfold rangeText
  split_ifs
  · exact digits_notMem rfl _
  · simp [digits_notMem (c := ',') rfl]

lemma expandRange_rangeText (range : ℕ × ℕ) : expandRange (rangeText range) = some range := by
  unfold rangeText expandRange
  split_ifs with heq
  · rw [splitOnce_eq_none.2 (digits_notMem rfl _)]
    simp [digits_toDigits, Prod.ext_iff, heq]
  · rw [splitOnce_eq_some.2 ⟨rfl, digits_notMem rfl _⟩]
    simp [digits_toDigits]

lemma expand_text (ranges : List (ℕ × ℕ)) :
    expand ([','].intercalate (ranges.map rangeText)) = some ranges := by
  obtain rfl | hne := eq_or_ne ranges []
  · rfl
  have hsplit : ([','].intercalate (ranges.map rangeText)).splitOn ',' = ranges.map rangeText :=
    splitOn_intercalate ',' (by simpa using fun _ a b _ h => h ▸ comma_notMem_rangeText (a, b))
      (by simpa)
  have hmap : (ranges.map rangeText).mapM expandRange = some ranges := by
    simpa [mapM_map, Function.comp_def, expandRange_rangeText] using
      mapM_pure (m := Option) (l := ranges) (f := id)
  rw [expand, if_neg, hsplit, hmap]
  -- An empty text would split into one empty part, which is no range.
  intro hnil
  rw [hnil] at hsplit
  rw [← hsplit] at hmap
  cases hmap

/-! ## Runs -/

section Ranges

variable {checks : Bool} {first last : ℕ} {rest : List ℕ}

lemma rangesFrom_lt {ranges : List (ℕ × ℕ)} (hbits : ∀ number ∈ last :: rest, number ≤ maxNumber)
    (hsorted : (last :: rest).Pairwise (· < ·)) (h : rangesFrom checks first last rest = some
      ranges) :
    ∀ range ∈ ranges, range.2 < maxNumber := by
  induction rest generalizing first last ranges with
  | nil =>
    by_cases hlast : last < maxNumber
    · obtain rfl : [(first, last)] = ranges := by simpa [rangesFrom, checkedSucc, hlast] using h
      simpa using hlast
    · obtain ⟨-, rfl⟩ : checks = false ∧ [(first, 0)] = ranges := by
        simpa [rangesFrom, checkedSucc, hlast] using h
      simp [maxNumber]
  | cons number rest ih =>
    rw [forall_mem_cons] at hbits
    obtain ⟨hlt, hsorted⟩ := pairwise_cons.1 hsorted
    unfold rangesFrom at h
    split_ifs at h
    · exact ih hbits.2 hsorted h
    · obtain ⟨more, hmore, rfl⟩ := Option.map_eq_some_iff.1 h
      refine forall_mem_cons.2 ⟨?_, ih hbits.2 hsorted hmore⟩
      exact (hlt number (by simp)).trans_le (hbits.2 number (by simp))

lemma rangesFrom_spec (checks : Bool) (hbits : ∀ number ∈ last :: rest, number < maxNumber)
    (hsorted : (last :: rest).Pairwise (· < ·)) (hle : first ≤ last) :
    ∃ ranges, rangesFrom checks first last rest = some ranges ∧
      (∀ number, (first ≤ number ∧ number ≤ last ∨ number ∈ rest) ↔
        ∃ range ∈ ranges, Covers range number) ∧
      (∀ range ∈ ranges, first ≤ range.1 ∧ range.1 ≤ range.2) ∧
      ranges.Pairwise fun r r' => r.2 + 1 < r'.1 := by
  have hcovers : ∀ {a b : ℕ}, a ≤ b → ∀ n, Covers (a, b) n ↔ a ≤ n ∧ n ≤ b := fun h n => by
    rw [Covers, min_eq_left h, max_eq_right h]
  induction rest generalizing first last with
  | nil =>
    refine ⟨[(first, last)], ?_, ?_, by simpa using hle, by simp⟩
    · simp [rangesFrom, checkedSucc, hbits]
    · simp [hcovers hle]
  | cons number rest ih =>
    rw [forall_mem_cons] at hbits
    obtain ⟨hlt, hsorted⟩ := pairwise_cons.1 hsorted
    have hnumber := hlt number (by simp)
    have hnext : checkedSucc last = some (last + 1) := if_pos hbits.1
    by_cases hrun : number = last + 1
    · -- The run goes on.
      obtain ⟨ranges, hranges, hmem, hle, hgap⟩ := ih hbits.2 hsorted (show first ≤ number by omega)
      refine ⟨ranges, by rw [rangesFrom, hnext, if_pos (hrun ▸ rfl), hranges], fun n => ?_,
        hle, hgap⟩
      rw [← hmem, mem_cons]
      grind
    · -- The run ends, and the next one starts behind a gap.
      obtain ⟨ranges, hranges, hmem, hle', hgap⟩ := ih hbits.2 hsorted (le_refl number)
      refine ⟨(first, last) :: ranges, ?_, fun n => ?_, ?_, ?_⟩
      · rw [rangesFrom, hnext, if_neg (by simpa using hrun), hranges]
        rfl
      · rw [exists_mem_cons_iff, ← hmem, hcovers hle, mem_cons]
        grind
      · exact forall_mem_cons.2 ⟨⟨le_rfl, hle⟩, fun r hr => ⟨by grind, (hle' r hr).2⟩⟩
      · exact pairwise_cons.2 ⟨fun r hr => by grind, hgap⟩

end Ranges

/-- Of ascending numbers the text is written, and denotes them, exactly if the largest number of 32
bits is not among them, with overflow checks and without. -/
theorem sequenceSet_written_iff (checks : Bool) {numbers : List ℕ}
    (hsorted : numbers.Pairwise (· < ·)) (hbits : ∀ number ∈ numbers, number ≤ maxNumber) :
    (∃ text, sequenceSet checks numbers = some text ∧ Written numbers text) ↔
      maxNumber ∉ numbers := by
  cases numbers with
  | nil => exact iff_of_true ⟨[], rfl, [], rfl, by simp⟩ (by simp)
  | cons first rest =>
    constructor
    · rintro ⟨text, htext, ranges, hexpand, hmem, hle, -⟩ hmax
      obtain ⟨ranges', hranges, rfl⟩ := Option.map_eq_some_iff.1 htext
      have hlt := rangesFrom_lt hbits hsorted hranges
      obtain rfl := Option.some.inj ((expand_text ranges').symm.trans hexpand)
      obtain ⟨range, hrange, hcovers⟩ := (hmem maxNumber).1 hmax
      have hend := hcovers.2
      rw [max_eq_right (hle range hrange)] at hend
      exact (hlt range hrange).not_ge hend
    · intro hmax
      obtain ⟨ranges, hranges, hmem, hle, hgap⟩ := rangesFrom_spec checks
        (fun n hn => (hbits n hn).lt_of_ne fun heq => hmax (heq ▸ hn)) hsorted le_rfl
      refine ⟨_, congrArg (Option.map _) hranges, ranges, expand_text _, fun n => ?_,
        fun r hr => (hle r hr).2, hgap⟩
      rw [← hmem, mem_cons]
      grind

/-- Numbers of a single run. -/
theorem sequenceSet_written_twoNumbers :
    (∃ text, sequenceSet true [7, 8] = some text ∧ Written [7, 8] text) ↔ maxNumber ∉ [7, 8] :=
  sequenceSet_written_iff true (by decide) (by decide)

/-- The largest number alone: the checked addition stops the reply, and the wrapped one writes a
range of all numbers. -/
theorem sequenceSet_maxNumber :
    sequenceSet true [maxNumber] = none ∧
      sequenceSet false [maxNumber] = some "4294967295:0".toList := by
  decide

end Epistle.Imap.Codes
