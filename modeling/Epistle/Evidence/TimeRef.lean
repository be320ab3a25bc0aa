import Epistle.Lib.Word
import Mathlib.Tactic.Linarith

/-!
# The time reference

`evidence/timeref`: whether the wall clock is believed, and what time it is if not. The true time
advances with the monotonic clock, and only differences of that clock are taken, so a moment of it
is given by the true time then, in nanoseconds.

* `Reaches.sound_wall`: a believed wall clock is at most `sealMarginSecs` ahead.
* `Reaches.cautious_iff`: so is the time of a reading that is not believed, unless it is the first
  one of a log that could not be read: that one repeats the wall clock.
-/

namespace Epistle.Evidence.TimeRef

open Lib List

/-- How far the wall clock may be ahead of the anchor. -/
def slackSecs : ℕ := 300
/-- A clock may drift by one second in so many. -/
def driftDivisor : ℕ := 1000
def behindSecs : ℕ := 3600
def startSlackSecs : ℕ := 600
def driftCapSecs : ℕ := 600
def sealMarginSecs : ℕ := 1800
def refreshSecs : ℕ := 60

/-- What a reference says of a time. -/
structure Reading where
  time : ℕ
  sound : Bool
  wall : ℕ
  estimate : ℕ

/-- The earliest time a reading allows. -/
def Reading.cautious (r : Reading) : ℕ := if r.sound then r.wall else min r.wall r.estimate

/-- The state behind the lock. -/
structure State where
  floor : ℕ := 0
  unknown : Bool := false
  origin : Option ℕ := none
  anchor : Option (ℕ × ℕ) := none
  fallback : Option (ℕ × ℕ) := none
  vouched : Option (ℕ × ℕ) := none

/-- A reference with a floor and no anchor. -/
def new (floor : ℕ) : State := { floor }

def unknown : State := { unknown := true }

/-- The whole seconds between two readings of the monotonic clock. -/
def elapsed (since now : ℕ) : ℕ := (now - since) / 1000000000

/-- What a reference makes the time to be. -/
def expected (ref : ℕ × ℕ) (mono : ℕ) : ℕ := saturatingAdd 64 ref.1 (elapsed ref.2 mono)

namespace State

/-- Whether a time is near the floor, or there is no floor. -/
def nearFloor (s : State) (wall : ℕ) : Bool :=
  !s.unknown && (s.floor = 0 ||
    (s.floor ≤ saturatingAdd 64 wall behindSecs && wall ≤ saturatingAdd 64 s.floor startSlackSecs))

/-- Whether the wall clock agrees with the anchor, or without one with the floor. -/
def believed (s : State) (wall mono : ℕ) : Bool :=
  match s.anchor with
  | some anchor =>
      let drift := s.origin.elim 0 fun origin =>
        min (elapsed origin mono / driftDivisor) driftCapSecs
      wall ≤ saturatingAdd 64 (saturatingAdd 64 (expected anchor mono) slackSecs) drift &&
        expected anchor mono ≤ saturatingAdd 64 wall behindSecs
  | none => s.nearFloor wall || (!s.unknown && s.vouched.any fun vouched =>
      wall ≤ saturatingAdd 64 (expected vouched mono) slackSecs &&
        expected vouched mono ≤ saturatingAdd 64 wall behindSecs)

/-- Read the time; a wall clock that is believed becomes the anchor now and then. -/
def readAt (s : State) (wall mono : ℕ) : Reading × State :=
  if s.believed wall mono then
    (⟨wall, true, wall, wall⟩,
      match s.anchor with
      | none => { s with anchor := some (wall, mono), origin := some mono }
      | some anchor =>
          if elapsed anchor.2 mono ≥ refreshSecs then
            { s with anchor := some (min wall (expected anchor mono), mono) }
          else s)
  else
    match s.anchor.or s.fallback with
    | some ref =>
        let estimate := max (expected ref mono) s.floor
        (⟨estimate, false, wall, estimate⟩, s)
    | none =>
        let base := if s.unknown then wall else s.floor
        let estimate := max base s.floor
        (⟨estimate, false, wall, estimate⟩, { s with fallback := some (base, mono) })

/-- The floor only goes up. -/
def raiseFloor (s : State) (time : ℕ) : State := { s with floor := max s.floor time }

/-- A time that others attest is the new anchor, and raises the floor. -/
def witness (s : State) (time mono : ℕ) : State :=
  { s with
    floor := max s.floor time, anchor := some (time, mono), origin := some mono, unknown := false }

end State

/-! ## Runs -/

/-- A call of `read_at`. -/
structure Call where
  before : State
  wall : ℕ
  mono : ℕ

def Call.reading (c : Call) : Reading := (c.before.readAt c.wall c.mono).1

/-- At `mono`, `time` is at most `secs` seconds ahead of the true time. -/
def Within (mono secs time : ℕ) : Prop :=
  time * 1000000000 ≤ mono + secs * 1000000000

/-- What a reference that starts as `s₀` at `mono₀` becomes, by which calls of `read_at`. -/
inductive Reaches (s₀ : State) (mono₀ : ℕ) : ℕ → State → List Call → Prop
  | start : Reaches s₀ mono₀ mono₀ s₀ []
  | readAt {mono mono' s calls} (h : Reaches s₀ mono₀ mono s calls) (hmono : mono ≤ mono')
      (wall : ℕ) :
      Reaches s₀ mono₀ mono' (s.readAt wall mono').2 (⟨s, wall, mono'⟩ :: calls)
  | raiseFloor {mono s calls c} (h : Reaches s₀ mono₀ mono s calls) (hc : c ∈ calls) :
      Reaches s₀ mono₀ mono (s.raiseFloor c.reading.time) calls
  | witness {mono mono' s calls time} (h : Reaches s₀ mono₀ mono s calls)
      (htime : Within mono' 0 time) :
      Reaches s₀ mono₀ (max mono mono') (s.witness time mono') calls

/-- The first reading of a log that could not be read is not ahead. -/
def Call.Fair (c : Call) : Prop :=
  c.before.unknown = true → c.before.fallback = none → Within c.mono sealMarginSecs c.wall

/-- A reference, of some moment up to `mono`. -/
def Ref (mono secs : ℕ) (ref : ℕ × ℕ) : Prop := ref.2 ≤ mono ∧ Within ref.2 secs ref.1

variable {mono mono' secs time wall mono₀ floor : ℕ} {ref : ℕ × ℕ} {s s₀ : State}
  {calls : List Call} {c : Call}

lemma Within.weaken {k time' : ℕ} (h : Within mono k time) (hmono : mono ≤ mono')
    (hk : k ≤ secs) (htime : time' ≤ time) : Within mono' secs time' := by
  unfold Within at *
  linarith

lemma Within.add {m : ℕ} (h : Within mono secs time) (hwall : wall ≤ time + m) :
    Within mono (secs + m) wall := by
  unfold Within at *
  linarith

lemma Ref.weaken {k : ℕ} (h : Ref mono k ref) (hmono : mono ≤ mono') (hk : k ≤ secs) :
    Ref mono' secs ref :=
  ⟨h.1.trans hmono, h.2.weaken le_rfl hk le_rfl⟩

/-- The monotonic clock takes no reference further ahead. -/
lemma Ref.expected (h : Ref mono secs ref) : Within mono secs (expected ref mono) := by
  obtain ⟨hle, hwithin⟩ := h
  have hsum : TimeRef.expected ref mono ≤ ref.1 + elapsed ref.2 mono := min_le_left ..
  have helapsed : elapsed ref.2 mono * 1000000000 + ref.2 ≤ mono :=
    Nat.add_le_of_le_sub hle (Nat.div_mul_le_self ..)
  unfold Within at *
  linarith

/-- All that a reference knows, a believed clock apart, is at most `secs` ahead. -/
structure Known (mono secs : ℕ) (s : State) (calls : List Call) : Prop where
  floor : Within mono secs s.floor
  fallback : ∀ ref ∈ s.fallback, Ref mono secs ref
  times : ∀ c ∈ calls, Within mono secs c.reading.time

lemma Known.weaken {k : ℕ} (h : Known mono k s calls) (hmono : mono ≤ mono') (hk : k ≤ secs) :
    Known mono' secs s calls where
  floor := h.floor.weaken hmono hk le_rfl
  fallback ref href := (h.fallback ref href).weaken hmono hk
  times c hc := (h.times c hc).weaken hmono hk le_rfl

lemma Known.raiseFloor (h : Known mono secs s calls) (hc : c ∈ calls) :
    Known mono secs (s.raiseFloor c.reading.time) calls :=
  ⟨max_rec' _ h.floor (h.times c hc), h.fallback, h.times⟩

lemma readAt_refused (h : s.believed wall mono = false) : ∃ estimate fallback,
    s.readAt wall mono = (⟨estimate, false, wall, estimate⟩, { s with fallback }) := by
  rw [State.readAt, if_neg (by simp [h])]
  split <;> exact ⟨_, _, rfl⟩

/-- A believed reading sets the reference, or moves it to no later time than it gives. -/
lemma readAt_believed (hanchor : ∀ ref ∈ s.anchor, Ref mono startSlackSecs ref)
    (h : s.believed wall mono = true) (hwall : s.anchor = none → Within mono startSlackSecs wall) :
    ∃ anchor origin,
      s.readAt wall mono = (⟨wall, true, wall, wall⟩, { s with anchor := some anchor, origin }) ∧
        Ref mono startSlackSecs anchor := by
  rw [State.readAt, if_pos h]
  cases href : s.anchor with
  | none => exact ⟨_, _, rfl, le_rfl, hwall href⟩
  | some ref =>
    dsimp only
    split_ifs
    · refine ⟨_, _, rfl, le_rfl, ?_⟩
      exact (hanchor ref href).expected.weaken le_rfl le_rfl (min_le_right ..)
    · exact ⟨ref, s.origin, by rw [← href], hanchor ref href⟩

/-- A reading that is not believed is dated by what is known. -/
lemma Known.readAt (h : Known mono secs s calls) (hbelieved : s.believed wall mono = false)
    (hanchor : ∀ ref ∈ s.anchor, Ref mono secs ref)
    (hwall : s.unknown = true → s.fallback = none → Within mono secs wall) :
    Within mono secs (s.readAt wall mono).1.estimate ∧
      Known mono secs (s.readAt wall mono).2 (⟨s, wall, mono⟩ :: calls) := by
  have hdated : Within mono secs (s.readAt wall mono).1.estimate ∧
      ∀ ref ∈ (s.readAt wall mono).2.fallback, Ref mono secs ref := by
    rw [State.readAt, if_neg (by simp [hbelieved])]
    cases href : s.anchor.or s.fallback with
    | some ref =>
      have hknown : Ref mono secs ref := by
        rcases Option.or_eq_some_iff.1 href with hsome | ⟨-, hsome⟩
        · exact hanchor ref hsome
        · exact h.fallback ref hsome
      exact ⟨max_rec' _ hknown.expected h.floor, h.fallback⟩
    | none =>
      have hbase : Within mono secs (if s.unknown then wall else s.floor) := by
        split_ifs with hunknown
        · exact hwall hunknown (Option.or_eq_none_iff.1 href).2
        · exact h.floor
      refine ⟨max_rec' _ hbase h.floor, fun ref href => ?_⟩
      cases href
      exact ⟨le_rfl, hbase⟩
  obtain ⟨hestimate, hfallback⟩ := hdated
  obtain ⟨estimate, fallback, heq⟩ := readAt_refused hbelieved
  refine ⟨hestimate, by rw [heq]; exact h.floor, hfallback, forall_mem_cons.2 ⟨?_, h.times⟩⟩
  rw [heq] at hestimate
  rw [Call.reading, heq]
  exact hestimate

/-- How far ahead anything known may be: not at all while nothing was believed. -/
def State.margin (s : State) : ℕ :=
  if s.anchor = none ∧ s.unknown = false then 0 else sealMarginSecs

/-- The invariant of a run. -/
structure Good (mono : ℕ) (s : State) (calls : List Call) : Prop where
  known : Known mono s.margin s calls
  anchor : ∀ ref ∈ s.anchor, Ref mono startSlackSecs ref
  unknown : s.unknown = true → s.anchor = none
  vouched : s.vouched = none
  floor : s.anchor = none → s.unknown = false → 0 < s.floor

lemma Good.later (h : Good mono s calls) (hmono : mono ≤ mono') : Good mono' s calls :=
  { h with known := h.known.weaken hmono le_rfl
           anchor := fun ref href => (h.anchor ref href).weaken hmono le_rfl }

lemma State.margin_le (s : State) : s.margin ≤ sealMarginSecs := by
  unfold margin
  split_ifs
  · exact Nat.zero_le _
  · exact le_rfl

lemma Good.margin (h : Good mono s calls) : Known mono sealMarginSecs s calls :=
  h.known.weaken le_rfl s.margin_le

/-- A believed clock is near the reference, or near the floor if there is none. -/
lemma Good.believed (h : Good mono s calls) (hbelieved : s.believed wall mono = true) :
    Within mono sealMarginSecs wall ∧
      (s.anchor = none → s.unknown = false ∧ Within mono startSlackSecs wall) := by
  unfold State.believed at hbelieved
  cases hanchor : s.anchor with
  | some ref =>
    rw [hanchor] at hbelieved
    dsimp only at hbelieved
    have hdrift : s.origin.elim 0
        (fun origin => min (elapsed origin mono / driftDivisor) driftCapSecs) ≤ driftCapSecs := by
      cases s.origin
      · exact Nat.zero_le _
      · exact min_le_right ..
    have hwall : wall ≤ expected ref mono + slackSecs + driftCapSecs := by
      have hle := of_decide_eq_true (Bool.and_eq_true_iff.1 hbelieved).1
      exact hle.trans ((min_le_left ..).trans (Nat.add_le_add (min_le_left ..) hdrift))
    rw [add_assoc] at hwall
    exact ⟨((h.anchor ref hanchor).expected.add hwall).weaken le_rfl (by decide) le_rfl, nofun⟩
  | none =>
    rw [hanchor, h.vouched] at hbelieved
    simp only [State.nearFloor, Option.any_none, Bool.and_false, Bool.or_false, Bool.and_eq_true,
      Bool.not_eq_true', Bool.or_eq_true, decide_eq_true_eq] at hbelieved
    obtain ⟨hunknown, hfloor⟩ := hbelieved
    have hwall : wall ≤ s.floor + startSlackSecs :=
      (hfloor.resolve_left (h.floor hanchor hunknown).ne').2.trans (min_le_left ..)
    have htrue : Within mono 0 s.floor := by
      simpa [State.margin, hanchor, hunknown] using h.known.floor
    exact ⟨(htrue.add hwall).weaken le_rfl (by decide) le_rfl, fun _ =>
      ⟨hunknown, (htrue.add hwall).weaken le_rfl (by decide) le_rfl⟩⟩

/-- What is promised of a reading: its wall clock if it is believed, else its cautious time. -/
def Call.Fine (c : Call) : Prop := Within c.mono sealMarginSecs c.reading.cautious

lemma Good.readAt (h : Good mono s calls) (hfair : Call.Fair ⟨s, wall, mono⟩) :
    Call.Fine ⟨s, wall, mono⟩ ∧
      Good mono (s.readAt wall mono).2 (⟨s, wall, mono⟩ :: calls) := by
  cases hbelieved : s.believed wall mono with
  | true =>
    obtain ⟨hwall, hfirst⟩ := h.believed hbelieved
    obtain ⟨anchor, origin, heq, href⟩ :=
      readAt_believed h.anchor hbelieved fun hnone => (hfirst hnone).2
    have hunknown : s.unknown ≠ true := fun hunknown =>
      absurd hunknown (by simp [(hfirst (h.unknown hunknown)).1])
    have htime : Within mono sealMarginSecs (Call.mk s wall mono).reading.time := by
      rwa [Call.reading, heq]
    rw [Call.Fine, Call.reading, heq]
    have hknown := h.margin
    refine ⟨hwall, ⟨hknown.1, hknown.2, forall_mem_cons.2 ⟨htime, hknown.3⟩⟩, ?_,
      fun hu => absurd hu hunknown, h.vouched, nofun⟩
    rintro ref ⟨⟩
    exact href
  | false =>
    have hanchor : ∀ ref ∈ s.anchor, Ref mono s.margin ref := fun ref href => by
      rw [State.margin, if_neg (by simp [Option.mem_def.1 href])]
      exact (h.anchor ref href).weaken le_rfl (by decide)
    obtain ⟨hestimate, hknown⟩ := h.known.readAt hbelieved hanchor fun hunknown hnone => by
      rw [State.margin, if_neg (by simp [hunknown])]
      exact hfair hunknown hnone
    obtain ⟨estimate, fallback, heq⟩ := readAt_refused hbelieved
    rw [heq] at hestimate hknown
    rw [Call.Fine, Call.reading, heq]
    refine ⟨?_, hknown, h.anchor, h.unknown, h.vouched, h.floor⟩
    exact hestimate.weaken le_rfl s.margin_le (min_le_right ..)

lemma Good.raiseFloor (h : Good mono s calls) (hc : c ∈ calls) :
    Good mono (s.raiseFloor c.reading.time) calls :=
  { h with
    known := h.known.raiseFloor hc
    floor := fun hanchor hunknown => lt_max_of_lt_left (h.floor hanchor hunknown) }

lemma Good.witness (h : Good mono s calls) (hmono : mono' ≤ mono) (htime : Within mono' 0 time) :
    Good mono (s.witness time mono') calls where
  known :=
    ⟨max_rec' _ h.margin.1 (htime.weaken hmono (Nat.zero_le _) le_rfl), h.margin.2, h.margin.3⟩
  anchor := by
    rintro ref ⟨⟩
    exact ⟨hmono, htime.weaken le_rfl (Nat.zero_le _) le_rfl⟩
  unknown := nofun
  vouched := h.vouched
  floor := nofun

/-- A reference at its start. -/
inductive Starts (mono : ℕ) : State → Prop
  | new {floor : ℕ} (hpos : 0 < floor) (h : Within mono 0 floor) : Starts mono (new floor)
  | unknown : Starts mono unknown

lemma Starts.good (h : Starts mono s) : Good mono s [] := by
  cases h with
  | new hpos h => exact ⟨⟨h, nofun, nofun⟩, nofun, nofun, rfl, fun _ _ => hpos⟩
  | unknown =>
    have hfloor : Within mono sealMarginSecs 0 := by simp [Within]
    exact ⟨⟨hfloor, nofun, nofun⟩, nofun, fun _ => rfl, rfl, nofun⟩

/-- A run all of whose readings are fair keeps the invariant and its promise. -/
lemma Reaches.good (h : Reaches s₀ mono₀ mono s calls) (hs₀ : Starts mono₀ s₀)
    (hfair : ∀ c ∈ calls, c.Fair) : (∀ c ∈ calls, c.Fine) ∧ Good mono s calls := by
  induction h with
  | start => exact ⟨nofun, hs₀.good⟩
  | readAt h hmono wall ih =>
    obtain ⟨hfirst, hrest⟩ := forall_mem_cons.1 hfair
    obtain ⟨hfine, hgood⟩ := ih hrest
    obtain ⟨hnext, hgood'⟩ := (hgood.later hmono).readAt hfirst
    exact ⟨forall_mem_cons.2 ⟨hnext, hfine⟩, hgood'⟩
  | raiseFloor h hc ih => exact (ih hfair).imp id fun hgood => hgood.raiseFloor hc
  | witness h htime ih =>
    exact (ih hfair).imp id fun hgood =>
      (hgood.later (le_max_left ..)).witness (le_max_right ..) htime

/-- What is known stays known. -/
lemma Reaches.known (h : Reaches s₀ mono₀ mono s calls) (hs₀ : s₀.unknown = false) :
    s.unknown = false ∧ ∀ c ∈ calls, c.before.unknown = false := by
  induction h with
  | start => exact ⟨hs₀, nofun⟩
  | readAt h hmono wall ih =>
    refine ⟨?_, forall_mem_cons.2 ih⟩
    unfold State.readAt
    repeat' split
    all_goals exact ih.1
  | raiseFloor h hc ih => exact ih
  | witness h htime ih => exact ⟨rfl, ih.2⟩

/-- A wall clock that is believed is never more than the margin of a seal ahead. -/
theorem Reaches.sound_wall (hpos : 0 < floor) (hfloor : Within mono₀ 0 floor)
    (h : Reaches (new floor) mono₀ mono s calls) :
    ∀ c ∈ calls, c.reading.sound = true → Within c.mono sealMarginSecs c.reading.wall := by
  intro c hc hsound
  have hfair : ∀ c ∈ calls, c.Fair := fun c hc hunknown =>
    absurd hunknown (by simp [(h.known rfl).2 c hc])
  simpa [Call.Fine, Reading.cautious, hsound] using (h.good (.new hpos hfloor) hfair).1 c hc

/-- Three readings two minutes apart, the second of which moves the anchor. -/
theorem Reaches.sound_wall_reanchored :
    let s₁ := ((new 1000).readAt 1600 1000000000000).2
    let s₂ := (s₁.readAt 1720 1120000000000).2
    let c : Call := ⟨s₂, 1840, 1240000000000⟩
    s₁.anchor ≠ s₂.anchor ∧ c.reading.sound = true ∧ Within c.mono sealMarginSecs c.reading.wall := by
  intro s₁ s₂ c
  have hsound : c.reading.sound = true := by decide
  have hfloor : Within 1000000000000 0 1000 := by simp [Within]
  have hrun : Reaches (new 1000) 1000000000000 _ _ _ :=
    .readAt (.readAt (.readAt .start le_rfl 1600) (by decide : _ ≤ 1120000000000) 1720)
      (by decide : _ ≤ 1240000000000) 1840
  exact ⟨by decide, hsound, hrun.sound_wall (by decide) hfloor c mem_cons_self hsound⟩

/-- The cautious time of a reading that is not believed is not further ahead either, in every run
whose first reading of an unreadable log was not; a further reading keeps that exactly if it is
such a first reading and is not ahead, or is none. -/
theorem Reaches.cautious_iff (hs₀ : Starts mono₀ s₀) (h : Reaches s₀ mono₀ mono s calls)
    (hfair : ∀ c ∈ calls, c.Fair) :
    (∀ c ∈ calls, c.reading.sound = false → Within c.mono sealMarginSecs c.reading.cautious) ∧
    ∀ wall mono', mono ≤ mono' → (Call.Fair ⟨s, wall, mono'⟩ ↔
      ((s.readAt wall mono').1.sound = false →
        Within mono' sealMarginSecs (s.readAt wall mono').1.cautious)) := by
  obtain ⟨hfine, hgood⟩ := h.good hs₀ hfair
  refine ⟨fun c hc _ => hfine c hc, fun wall mono' hmono => ⟨fun hnext _ => ?_, fun hnext => ?_⟩⟩
  · exact ((hgood.later hmono).readAt hnext).1
  · -- The first reading of an unreadable log is dated by the wall clock.
    intro (hunknown : s.unknown = true) (hfallback : s.fallback = none)
    have hread : s.readAt wall mono' = (⟨max wall s.floor, false, wall, max wall s.floor⟩,
        { s with fallback := some (wall, mono') }) := by
      simp [State.readAt, State.believed, State.nearFloor, hgood.unknown hunknown, hunknown,
        hfallback]
    simpa [hread, Reading.cautious] using hnext

/-- A log that could not be read, and a wall clock within the margin. -/
theorem Reaches.cautious_iff_near : (unknown.readAt 1600 0).1.sound = false ∧
    Within 0 sealMarginSecs (unknown.readAt 1600 0).1.cautious :=
  ⟨by decide, ((Reaches.start.cautious_iff .unknown nofun).2 1600 0 le_rfl).1
    (fun _ _ => by simp [Within, sealMarginSecs]) (by decide)⟩

/-- A log that could not be read, and a wall clock an hour ahead. -/
theorem Reaches.cautious_unknown :
    Reaches unknown 0 0 (unknown.readAt 3600 0).2 [⟨unknown, 3600, 0⟩] ∧
    (unknown.readAt 3600 0).1.sound = false ∧
    ¬ Within 0 sealMarginSecs (unknown.readAt 3600 0).1.cautious :=
  ⟨.readAt .start le_rfl 3600, by decide, by unfold Within; decide⟩

end Epistle.Evidence.TimeRef
