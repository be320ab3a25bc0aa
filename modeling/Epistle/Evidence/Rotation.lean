import Epistle.Lib.Splice
import Mathlib.Data.List.MinMax
import Mathlib.Data.Nat.Find
import Mathlib.Data.Prod.Lex

/-!
# The key in force

`evidence/rotation`: the keys of an evidence chain, newest first, and the records in it that hand
over from one to the next. A key is checked against the two records beside it alone, so records
that are missing or out of order let two keys sign at one place.

* `Timeline.check_iff`: one key passes at each place exactly if the records beside two keys that are
  not neighbours never leave a line in common, and records of all hand-overs in order are enough.
-/

namespace Epistle.Evidence.KeyRotation

open List

/-- A place in the chain: the day and the line in its file. -/
abbrev At := ℤ ×ₗ ℕ

/-- Why a key is refused. -/
inductive Fault
  | unknown | notYet | handedOver | unrecorded
  deriving DecidableEq

/-- A hand-over from one key to the next. -/
structure Rotation where
  old : String
  new : String

/-- The keys of a log, newest first, and where each hand-over is recorded. -/
structure Timeline where
  lineage : List String
  handovers : List (At × Rotation)
  reachesEnd : Bool
  nodup : lineage.Nodup
  /-- Lines are counted from one. -/
  lines_pos : ∀ h ∈ handovers, 0 < (ofLex h.1).2

namespace Timeline

/-- The place of the record of a hand-over. -/
def position (t : Timeline) (old new : String) : Option At :=
  (t.handovers.find? fun h => h.2.old = old ∧ h.2.new = new).map (·.1)

/-- Whether a key may have signed at a place. -/
def check (t : Timeline) (key : String) (place : At) : Except Fault Unit :=
  match t.lineage.idxOf? key with
  | none => .error .unknown
  | some index =>
    if (t.lineage[index + 1]?.bind (t.position · key)).any (place ≤ ·) then .error .notYet
    else if index = 0 then .ok ()
    else match t.lineage[index - 1]?.bind (t.position key) with
      | some handedOver => if place < handedOver then .ok () else .error .handedOver
      | none => if t.reachesEnd then .error .unrecorded else .ok ()

/-- Whether a key may have sealed a day. -/
def checkSeal (t : Timeline) (key : String) (day : ℤ) : Except Fault Unit :=
  t.check key (toLex (day + 1, 0))

variable {t : Timeline} {key : String} {place place' : At} {i j : ℕ}

/-- Where the key at an index took over from the one before. -/
def handover (t : Timeline) (i : ℕ) : Option At :=
  t.lineage[i + 1]?.bind fun old => t.lineage[i]?.bind (t.position old)

/-- A place after the record that introduces a key, if there is one, and before the one that hands
over from it. -/
def Between (t : Timeline) (i : ℕ) (place : At) : Prop :=
  (∀ u ∈ t.handover i, u < place) ∧ (i ≠ 0 → ∃ u ∈ t.handover (i - 1), place < u)

/-- The place right behind another. -/
def next (place : At) : At := toLex ((ofLex place).1, (ofLex place).2 + 1)

/-- The records leave two keys a place in common: each of the keys, unless it is the newest, is
handed over in a record, and a line lies between every record that introduces one of them and every
record that hands over from one of them. -/
def Overlap (t : Timeline) (i j : ℕ) : Prop :=
  (∀ k ∈ [i, j], k ≠ 0 → (t.handover (k - 1)).isSome) ∧
    ∀ k ∈ [i, j], ∀ u ∈ t.handover k, ∀ l ∈ [i, j], l ≠ 0 → ∀ v ∈ t.handover (l - 1), next u < v

/-- All hand-overs are recorded, the oldest first. -/
def Ordered (t : Timeline) : Prop :=
  ∀ i, i + 1 < t.lineage.length → ∃ u ∈ t.handover i, ∀ v ∈ t.handover (i + 1), v < u

lemma lt_iff_next_le {u v : At} : u < v ↔ next u ≤ v := by
  simp only [next, Prod.Lex.le_iff, Prod.Lex.lt_iff, ofLex_toLex]
  omega

/-- A place lies behind some places and before others exactly if a line is left between any two of
them. -/
lemma exists_between_iff {us vs : List At} :
    (∃ place, (∀ u ∈ us, u < place) ∧ ∀ v ∈ vs, place < v) ↔ ∀ u ∈ us, ∀ v ∈ vs, next u < v := by
  constructor
  · rintro ⟨place, hus, hvs⟩ u hu v hv
    exact (lt_iff_next_le.1 (hus u hu)).trans_lt (hvs v hv)
  · intro h
    rcases eq_or_ne us [] with rfl | hne
    · -- The days have no first one.
      obtain ⟨day, hday⟩ : ∃ day : ℤ, ∀ v ∈ vs, day < (ofLex v).1 := by
        induction vs with
        | nil => exact ⟨0, nofun⟩
        | cons v vs ih =>
          obtain ⟨day, hday⟩ := ih nofun
          refine ⟨min day ((ofLex v).1 - 1), forall_mem_cons.2 ⟨by omega, fun w hw => ?_⟩⟩
          exact (min_le_left _ _).trans_lt (hday w hw)
      exact ⟨toLex (day, 0), nofun, fun v hv => Prod.Lex.lt_iff.2 (.inl (hday v hv))⟩
    · have hpos := length_pos_of_ne_nil hne
      refine ⟨next (us.maximum_of_length_pos hpos), fun u hu => ?_,
        h _ (maximum_of_length_pos_mem hpos)⟩
      exact (le_maximum_of_length_pos_of_mem hu hpos).trans_lt (lt_iff_next_le.2 le_rfl)

lemma exists_between_iff_overlap :
    (∃ place, t.Between i place ∧ t.Between j place) ↔ t.Overlap i j := by
  have hbetween : ∀ k place, t.Between k place ↔ (k ≠ 0 → (t.handover (k - 1)).isSome) ∧
      (∀ u ∈ t.handover k, u < place) ∧ (k ≠ 0 → ∀ v ∈ t.handover (k - 1), place < v) := by
    intro k place
    rw [Between]
    cases t.handover (k - 1) <;> simp [and_comm]
  have hiff := @exists_between_iff ([i, j].filterMap t.handover)
    (([i, j].filter (· ≠ 0)).filterMap fun k => t.handover (k - 1))
  simp only [mem_filterMap, mem_filter, decide_eq_true_eq, forall_exists_index, and_imp] at hiff
  constructor
  · rintro ⟨place, hi, hj⟩
    have hkey : ∀ k ∈ [i, j], _ := fun k hk => (hbetween k place).1 (by
      obtain rfl | rfl : k = i ∨ k = j := by simpa using hk
      exacts [hi, hj])
    refine ⟨fun k hk => (hkey k hk).1, fun k hk u hu l hl h0 v hv => ?_⟩
    exact hiff.1 ⟨place, fun u k hk => (hkey k hk).2.1 u, fun v k hk h0 => (hkey k hk).2.2 h0 v⟩
      u k hk hu v l hl h0 hv
  · rintro ⟨hsome, hnext⟩
    obtain ⟨place, hlow, hhigh⟩ :=
      hiff.2 fun u k hk hu v l hl h0 hv => hnext k hk u hu l hl h0 v hv
    have hkey : ∀ k ∈ [i, j], t.Between k place := fun k hk => (hbetween k place).2
      ⟨hsome k hk, fun u => hlow u k hk, fun h0 v => hhigh v k hk h0⟩
    exact ⟨place, hkey i (by simp), hkey j (by simp)⟩

lemma check_eq_ok_iff (h : t.reachesEnd = true ∨ t.Ordered) :
    t.check key place = .ok () ↔ ∃ i, t.lineage[i]? = some key ∧ t.Between i place := by
  have hidx := fun i => @Lib.idxOf?_eq_some _ _ _ t.nodup key i
  cases hk : t.lineage.idxOf? key with
  | none => simp [check, hk, ← hidx]
  | some i =>
    have hi := (hidx i).1 hk
    have hat : t.lineage[i + 1]?.bind (t.position · key) = t.handover i := by
      simp [handover, hi]
    simp only [check, hk, hat, ← hidx, Option.some.injEq, exists_eq_left', Between]
    have hany : (t.handover i).any (place ≤ ·) = true ↔ ¬ ∀ u ∈ t.handover i, u < place := by
      cases t.handover i <;> simp
    by_cases hlate : (t.handover i).any (place ≤ ·) = true
    · rw [if_pos hlate]
      exact iff_of_false nofun fun hb => hany.1 hlate hb.1
    rw [if_neg hlate, and_iff_right (not_not.1 (mt hany.2 hlate))]
    by_cases h0 : i = 0
    · simp [h0]
    · have hsucc := Nat.sub_add_cancel (Nat.pos_of_ne_zero h0)
      have hbefore : t.lineage[i - 1]?.bind (t.position key) = t.handover (i - 1) := by
        simp [handover, hi, hsucc]
      rw [if_neg h0, hbefore, forall_prop_of_true h0]
      cases hu : t.handover (i - 1) with
      | none =>
        have hend : t.reachesEnd = true := h.resolve_right fun h => by
          obtain ⟨u, hsome, -⟩ := h (i - 1) (hsucc ▸ (List.getElem?_eq_some_iff.1 hi).1)
          cases hu.symm.trans hsome
        simp [hend]
      | some u => simp

/-- Only the order of a place and the records counts. -/
lemma check_congr
    (h : ∀ r ∈ t.handovers, (place ≤ r.1 ↔ place' ≤ r.1) ∧ (place < r.1 ↔ place' < r.1)) :
    t.check key place = t.check key place' := by
  have hpos : ∀ old new, ∀ u ∈ t.position old new,
      (place ≤ u ↔ place' ≤ u) ∧ (place < u ↔ place' < u) := by
    intro old new u hu
    obtain ⟨r, hr, rfl⟩ := Option.map_eq_some_iff.1 hu
    exact h r (mem_of_find?_eq_some hr)
  unfold check
  cases t.lineage.idxOf? key with
  | none => rfl
  | some i =>
    have hat : (t.lineage[i + 1]?.bind (t.position · key)).any (place ≤ ·) =
        (t.lineage[i + 1]?.bind (t.position · key)).any (place' ≤ ·) := by
      cases hu : t.lineage[i + 1]?.bind (t.position · key) with
      | none => rfl
      | some u =>
        obtain ⟨old, -, hu⟩ := Option.bind_eq_some_iff.1 hu
        exact decide_eq_decide.2 (hpos old key u hu).1
    simp only [hat]
    cases hu : t.lineage[i - 1]?.bind (t.position key) with
    | none => rfl
    | some u =>
      obtain ⟨new, -, hu⟩ := Option.bind_eq_some_iff.1 hu
      simp only [(hpos key new u hu).2]

/-- No record lies between the last one of a day and the next day. -/
lemma checkSeal_eq {day : ℤ} {line : ℕ}
    (h : ∀ r ∈ t.handovers, (ofLex r.1).1 = day → (ofLex r.1).2 < line) :
    t.checkSeal key day = t.check key (toLex (day, line)) := by
  refine check_congr fun r hr => ?_
  have hline := t.lines_pos r hr
  have hlast := h r hr
  simp only [Prod.Lex.le_iff, Prod.Lex.lt_iff, ofLex_toLex]
  omega

lemma Ordered.le (h : t.Ordered) (hij : i ≤ j) (hj : j + 1 < t.lineage.length) {u : At}
    (hu : u ∈ t.handover j) : ∃ v ∈ t.handover i, u ≤ v := by
  induction hij using Nat.decreasingInduction with
  | self => exact ⟨u, hu, le_rfl⟩
  | of_succ k hk ih =>
    obtain ⟨v, hv, huv⟩ := ih
    obtain ⟨w, hw, hlt⟩ := h k (by omega)
    exact ⟨w, hw, huv.trans (hlt v hv).le⟩

/-- One key passes, if no other is between the records beside it. -/
lemma eq_of_check (h : t.reachesEnd = true ∨ t.Ordered)
    (hno : ∀ i j, i < j → j < t.lineage.length → t.Between i place → ¬ t.Between j place)
    {key' : String} (hkey : t.check key place = .ok ()) (hkey' : t.check key' place = .ok ()) :
    key = key' := by
  obtain ⟨i, hi, hbi⟩ := (check_eq_ok_iff h).1 hkey
  obtain ⟨j, hj, hbj⟩ := (check_eq_ok_iff h).1 hkey'
  rcases lt_trichotomy i j with hlt | rfl | hlt
  · exact absurd hbj (hno i j hlt (List.getElem?_eq_some_iff.1 hj).1 hbi)
  · exact Option.some.inj (hi.symm.trans hj)
  · exact absurd hbi (hno j i hlt (List.getElem?_eq_some_iff.1 hi).1 hbj)

lemma Ordered.existsUnique (h : t.Ordered) (hne : t.lineage ≠ [])
    (hplace : ∀ i, place ∉ t.handover i) : ∃! key, t.check key place = .ok () := by
  refine existsUnique_of_exists_of_unique ?_ fun _ _ => eq_of_check (.inr h) ?_
  · -- The newest key whose record lies before the place, or the oldest one.
    have hlast : ∃ i, t.lineage.length ≤ i + 1 ∨ ∃ u ∈ t.handover i, u < place :=
      ⟨t.lineage.length, .inl (by omega)⟩
    classical
    obtain ⟨k, hspec, hmin⟩ := Nat.findX hlast
    have hlt : k < t.lineage.length := by
      by_contra hk
      have hpos := length_pos_of_ne_nil hne
      exact hmin (t.lineage.length - 1) (by omega) (.inl (by omega))
    refine ⟨_, (check_eq_ok_iff (.inr h)).2
      ⟨k, getElem?_eq_getElem hlt, fun u hu => ?_, fun h0 => ?_⟩⟩
    · rcases hspec with hold | ⟨v, hv, hvlt⟩
      · rw [handover, getElem?_eq_none hold] at hu
        cases hu
      · exact Option.mem_unique hu hv ▸ hvlt
    · obtain ⟨u, hu, -⟩ := h (k - 1) (by omega)
      refine ⟨u, hu, lt_of_le_of_ne (not_lt.1 fun hult => ?_) ?_⟩
      · exact hmin (k - 1) (by omega) (.inr ⟨u, hu, hult⟩)
      · rintro rfl
        exact hplace _ hu
  · intro i j hij hj hbi hbj
    obtain ⟨u, hu, hlt⟩ := hbj.2 (by omega)
    obtain ⟨v, hv, huv⟩ := h.le (by omega : i ≤ j - 1) (by omega) hu
    exact lt_asymm (hlt.trans_le huv) (hbi.1 v hv)

/-- When the walk reached the end, one key at most passes at each place exactly if the records leave
no two keys that are not neighbours a place in common. When all hand-overs are recorded, the
oldest first, one key passes at every other place. A day is sealed by the key that passes behind
its last record. -/
theorem check_iff (t : Timeline) :
    (t.reachesEnd = true →
      ((∀ place key key', t.check key place = .ok () → t.check key' place = .ok () → key = key') ↔
        ∀ i j, i + 1 < j → j < t.lineage.length → ¬ t.Overlap i j)) ∧
    (t.lineage ≠ [] → t.Ordered → ∀ place, (∀ i, place ∉ t.handover i) →
      ∃! key, t.check key place = .ok ()) ∧
    ∀ key day line, (∀ r ∈ t.handovers, (ofLex r.1).1 = day → (ofLex r.1).2 < line) →
      t.checkSeal key day = t.check key (toLex (day, line)) := by
  refine ⟨fun hend => ⟨fun h i j hij hj hoverlap => ?_, fun h place _ _ => ?_⟩,
    fun hne h _ => h.existsUnique hne, fun _ _ _ => checkSeal_eq⟩
  · obtain ⟨place, hboth⟩ := exists_between_iff_overlap.2 hoverlap
    have hi : i < t.lineage.length := by omega
    have heq := h place _ _
      ((check_eq_ok_iff (.inl hend)).2 ⟨i, getElem?_eq_getElem hi, hboth.1⟩)
      ((check_eq_ok_iff (.inl hend)).2 ⟨j, getElem?_eq_getElem hj, hboth.2⟩)
    exact (by omega : i ≠ j) (t.nodup.getElem_inj_iff.1 heq)
  · refine eq_of_check (.inl hend) fun i j hij hj hbi hbj => ?_
    rcases Nat.lt_or_eq_of_le hij with hfar | rfl
    · exact h i j hfar hj (exists_between_iff_overlap.1 ⟨place, hbi, hbj⟩)
    · -- Neighbours have a record in common.
      obtain ⟨u, hu, hlt⟩ := hbj.2 (by omega)
      exact lt_asymm hlt (hbi.1 u hu)

/-- The second hand-over is recorded before the first. -/
theorem check_two_keys :
    let t : Timeline := ⟨["c", "b", "a"],
      [(toLex (0, 5), ⟨"b", "c"⟩), (toLex (0, 10), ⟨"a", "b"⟩)], true, by decide, by decide⟩
    t.check "c" (toLex (0, 7)) = .ok () ∧ t.check "a" (toLex (0, 7)) = .ok () := by
  decide

end Timeline

end Epistle.Evidence.KeyRotation
