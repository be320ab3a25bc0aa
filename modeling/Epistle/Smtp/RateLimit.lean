import Epistle.Lib.FixedWindow
import Epistle.Lib.Word
import Mathlib.Data.List.AList

/-!
# The rate limiter

`WindowLimiter` of `smtp/ratelimit/mod.rs`: one map from keys to windows, with a queue of the
windows in the order they began that lets an old window make room for a new key. Keys are the
octets of a string, lowercased in ASCII.

With authenticated keys only a window that is over is ever evicted. Such a window answers as no
window at all, so a key's entry `Tracks` a counter of its own: they are equal, or both are over.

Counts and limits are `u32`. A charge past `u32::MAX` wraps, as in a release build.

* `WindowLimiter.limits_each_key_alone`: the answers on a key are those of its own counter, and
  the net units of a window stay within the limits.
-/

namespace Epistle.Smtp

open Lib

def toAsciiLowercase (key : List UInt8) : List UInt8 :=
  key.map fun b => if 65 ≤ b ∧ b ≤ 90 then b + 32 else b

/-- Size of the map past which an unseen key makes room. -/
def maxEntries : ℕ := 10000

/-- The windows by their keys. -/
abbrev Entries := AList fun _ : List UInt8 => Window

def Entries.live (entries : Entries) (record : List UInt8 × ℕ) : Bool :=
  (entries.lookup record.1).any fun entry => entry.start = record.2

/-- A limiter of events in windows of one length. -/
structure WindowLimiter where
  windowSecs : ℕ
  authenticatedKeys : Bool
  entries : Entries
  windows : List (List UInt8 × ℕ)
  windowSecs_pos : 0 < windowSecs

open Counter

namespace WindowLimiter

def new (windowSecs : ℕ) : WindowLimiter :=
  ⟨max windowSecs 1, false, ∅, [], lt_of_lt_of_le Nat.zero_lt_one (le_max_right ..)⟩

def forAuthenticatedKeys (windowSecs : ℕ) : WindowLimiter :=
  { new windowSecs with authenticatedKeys := true }

/-- Note that a window began. -/
def recordWindow (self : WindowLimiter) (key : List UInt8) (start : ℕ) : WindowLimiter :=
  let windows := self.windows ++ [(key, start)]
  { self with
    windows :=
      if windows.length > 2 * max self.entries.entries.length maxEntries then
        windows.filter self.entries.live
      else windows }

/-- Free one slot for an unseen key: drop the oldest window when it is over, or when
`evictActive` allows dropping a running one. -/
def freeSlot (entries : Entries) (now windowSecs : ℕ) (evictActive : Bool) :
    List (List UInt8 × ℕ) → Bool × Entries × List (List UInt8 × ℕ)
  | [] => (false, entries, [])
  | (key, start) :: windows =>
      if !entries.live (key, start) then
        -- A dead record at the head is dropped on the way.
        freeSlot entries now windowSecs evictActive windows
      else if now - start < windowSecs ∧ !evictActive then
        (false, entries, (key, start) :: windows)
      else (true, entries.erase key, windows)

/-- Begin a window. -/
def startWindow (self : WindowLimiter) (key : List UInt8) (count now : ℕ) : WindowLimiter :=
  { self with entries := self.entries.insert key ⟨now, count⟩ }.recordWindow key now

/-- Take some units of a key, if its window has room. -/
def checkN (self : WindowLimiter) (key : List UInt8) (count limit now : ℕ) :
    Bool × WindowLimiter :=
  if limit = 0 ∨ count = 0 then (true, self)
  else
    let key := toAsciiLowercase key
    match self.entries.lookup key with
    | some entry =>
        let restart := decide (now - entry.start ≥ self.windowSecs)
        let used := if restart then 0 else entry.used
        if saturatingAdd 32 used count > limit then (false, self)
        else if restart then (true, self.startWindow key count now)
        else
          (true, { self with
            entries := self.entries.insert key
              { entry with used := wrappingAdd 32 used count } })
    | none =>
        if count > limit then (false, self)
        else if self.entries.entries.length ≥ maxEntries then
          let (freed, entries, windows) :=
            freeSlot self.entries now self.windowSecs (!self.authenticatedKeys) self.windows
          let self := { self with entries, windows }
          -- Authenticated keys are admitted whether or not a slot was freed.
          if !freed && !self.authenticatedKeys then (false, self)
          else (true, self.startWindow key count now)
        else (true, self.startWindow key count now)

/-- Whether the window of a key has room. -/
def hasRoom (self : WindowLimiter) (key : List UInt8) (count limit now : ℕ) : Bool :=
  if limit = 0 ∨ count = 0 then true
  else
    let used := match self.entries.lookup (toAsciiLowercase key) with
      | some entry => if now - entry.start < self.windowSecs then entry.used else 0
      | none => 0
    decide (saturatingAdd 32 used count ≤ limit)

/-- Give units back. -/
def refund (self : WindowLimiter) (key : List UInt8) (count time : ℕ) : WindowLimiter :=
  let key := toAsciiLowercase key
  match self.entries.lookup key with
  | some entry =>
      if entry.start ≤ time ∧ time - entry.start < self.windowSecs then
        { self with entries := self.entries.insert key { entry with used := entry.used - count } }
      else self
  | none => self

/-! ## Runs -/

/-- The numbers of a call are `u32`. -/
def IsWord : WindowOp → Prop
  | .charge count limit _ => count ≤ wordMax 32 ∧ limit ≤ wordMax 32
  | .ask count limit _ => count ≤ wordMax 32 ∧ limit ≤ wordMax 32
  | .refund count _ => count ≤ wordMax 32

instance : DecidablePred IsWord
  | .charge .. => inferInstanceAs (Decidable (_ ∧ _))
  | .ask .. => inferInstanceAs (Decidable (_ ∧ _))
  | .refund .. => inferInstanceAs (Decidable (_ ≤ _))

/-- A call of the limiter. -/
structure Call where
  key : List UInt8
  op : WindowOp
  isWord : IsWord op

def Call.On (key : List UInt8) (c : Call) : Prop := toAsciiLowercase c.key = toAsciiLowercase key

instance (key : List UInt8) (c : Call) : Decidable (c.On key) := inferInstanceAs (Decidable (_ = _))

/-- What a call does. -/
def call (self : WindowLimiter) (c : Call) : Option Bool × WindowLimiter :=
  match c.op with
  | .charge count limit now => let (a, next) := self.checkN c.key count limit now; (some a, next)
  | .ask count limit now => (some (self.hasRoom c.key count limit now), self)
  | .refund count time => (none, self.refund c.key count time)

def history (key : List UInt8) : WindowLimiter → List Call → List (WindowOp × Option Bool)
  | _, [] => []
  | self, c :: calls =>
      let (answer, next) := self.call c
      if c.On key then (c.op, answer) :: history key next calls else history key next calls

def opsOn (key : List UInt8) (calls : List Call) : List WindowOp :=
  (calls.filter fun c => c.On key).map Call.op

/-! ## A call on its own key and on the others -/

def NoOverflow (w : ℕ) (c : Counter) (_ : Ledger) : WindowOp → Prop
  | .charge count limit now => limit < wordMax 32 ∨ c.used w now + count ≤ wordMax 32
  | .ask count limit now => limit < wordMax 32 ∨ c.used w now + count ≤ wordMax 32
  | .refund _ _ => True

instance (w : ℕ) (c : Counter) (l : Ledger) : ∀ op, Decidable (NoOverflow w c l op)
  | .charge .. => inferInstanceAs (Decidable (_ ∨ _))
  | .ask .. => inferInstanceAs (Decidable (_ ∨ _))
  | .refund .. => inferInstanceAs (Decidable True)

lemma saturatingAdd_le_iff {used count limit : ℕ} (hlimit : limit ≤ wordMax 32)
    (h : limit < wordMax 32 ∨ used + count ≤ wordMax 32) :
    saturatingAdd 32 used count ≤ limit ↔ used + count ≤ limit := by
  unfold saturatingAdd
  omega

@[simp]
lemma startWindow_lookup (self : WindowLimiter) (key : List UInt8) (count now : ℕ) :
    (self.startWindow key count now).entries.lookup key = some ⟨now, count⟩ :=
  AList.lookup_insert _

@[simp]
lemma startWindow_lookup_ne (self : WindowLimiter) {key k : List UInt8} (h : k ≠ key)
    (count now : ℕ) :
    (self.startWindow key count now).entries.lookup k = self.entries.lookup k :=
  AList.lookup_insert_ne h

variable {self : WindowLimiter} {key k : List UInt8} {count limit now : ℕ}

lemma checkN_own (hauth : self.authenticatedKeys = true) (hlimit : limit ≤ wordMax 32)
    (hno : limit < wordMax 32 ∨
      used self.windowSecs now (self.entries.lookup (toAsciiLowercase key)) + count ≤
        wordMax 32) :
    (some (self.checkN key count limit now).1,
      (self.checkN key count limit now).2.entries.lookup (toAsciiLowercase key)) =
      Counter.call self.windowSecs (self.entries.lookup (toAsciiLowercase key))
        (.charge count limit now) := by
  unfold checkN Counter.call
  by_cases hfree : limit = 0 ∨ count = 0
  · simp only [hfree, if_true]
  simp only [hfree, if_false, hauth]
  cases hentry : self.entries.lookup (toAsciiLowercase key) with
  | none =>
    dsimp only [used, charged]
    by_cases hfits : count ≤ limit
    · have hover : ¬ count > limit := hfits.not_gt
      simp only [hover, if_false, zero_add, hfits, if_true, Bool.not_true, Bool.and_false,
        Bool.false_eq_true]
      split_ifs <;> simp
    · have hover : count > limit := Nat.lt_of_not_le hfits
      simp [hover, hfits, hentry]
  | some entry =>
    rw [hentry] at hno
    dsimp only [used, charged] at hno ⊢
    by_cases hrun : now - entry.start < self.windowSecs
    · have hrestart : ¬ now - entry.start ≥ self.windowSecs := hrun.not_ge
      simp only [hrun, if_true] at hno ⊢
      simp only [hrestart, decide_false, Bool.false_eq_true, if_false]
      have hsat := saturatingAdd_le_iff hlimit hno
      by_cases hfits : entry.used + count ≤ limit
      · -- What is granted is within the limit, so the sum does not wrap.
        have hover : ¬ saturatingAdd 32 entry.used count > limit := (hsat.2 hfits).not_gt
        simp [hover, hfits, wrappingAdd_eq (hfits.trans hlimit)]
      · have hover : saturatingAdd 32 entry.used count > limit :=
          Nat.lt_of_not_le (hsat.not.2 hfits)
        simp [hover, hfits, hentry]
    · have hrestart : now - entry.start ≥ self.windowSecs := Nat.le_of_not_lt hrun
      simp only [hrun, if_false] at hno ⊢
      simp only [hrestart, decide_true, if_true]
      have hsat := saturatingAdd_le_iff hlimit hno
      by_cases hfits : 0 + count ≤ limit
      · have hover : ¬ saturatingAdd 32 0 count > limit := (hsat.2 hfits).not_gt
        simp only [hover, hfits, if_true, if_false, startWindow_lookup]
      · have hover : saturatingAdd 32 0 count > limit := Nat.lt_of_not_le (hsat.not.2 hfits)
        simp only [hover, hfits, if_true, if_false, hentry]

lemma freeSlot_lookup (entries : Entries) (now w : ℕ) (windows : List (List UInt8 × ℕ))
    (k : List UInt8) :
    (freeSlot entries now w false windows).2.1.lookup k = entries.lookup k ∨
      (freeSlot entries now w false windows).2.1.lookup k = none ∧
        Counter.Over w now (entries.lookup k) := by
  induction windows with
  | nil => exact .inl rfl
  | cons record windows ih =>
    obtain ⟨key, start⟩ := record
    rw [freeSlot]
    by_cases hlive : entries.live (key, start) = true
    · simp only [hlive, Bool.not_true, Bool.false_eq_true, if_false, Bool.not_false, and_true]
      split_ifs with hrun
      · exact .inl rfl
      by_cases hk : k = key
      · subst hk
        -- The record is live, so its start is that of the entry.
        refine .inr ⟨AList.lookup_erase k entries, fun v hv => ?_⟩
        have hstart : v.start = start := by
          simpa [Entries.live, Option.mem_def.1 hv] using hlive
        rw [hstart]
        exact Nat.le_of_not_lt hrun
      · exact .inl (AList.lookup_erase_ne hk)
    · simp only [hlive, Bool.not_false, if_true]
      exact ih

def afterFreeSlot (self : WindowLimiter) (now : ℕ) : WindowLimiter :=
  let slot := freeSlot self.entries now self.windowSecs (!self.authenticatedKeys) self.windows
  { self with entries := slot.2.1, windows := slot.2.2 }

lemma checkN_cases (self : WindowLimiter) (key : List UInt8) (count limit now : ℕ) :
    (self.checkN key count limit now).2 = self ∨
    (self.checkN key count limit now).2 = self.startWindow (toAsciiLowercase key) count now ∨
    (∃ entry, (self.checkN key count limit now).2 =
      { self with entries := self.entries.insert (toAsciiLowercase key) entry }) ∨
    (self.checkN key count limit now).2 = self.afterFreeSlot now ∨
    (self.checkN key count limit now).2 =
      (self.afterFreeSlot now).startWindow (toAsciiLowercase key) count now := by
  unfold checkN
  by_cases hfree : limit = 0 ∨ count = 0
  · exact .inl (by rw [if_pos hfree])
  rw [if_neg hfree]
  dsimp only
  cases self.entries.lookup (toAsciiLowercase key) with
  | some entry =>
    dsimp only
    generalize decide (now - entry.start ≥ self.windowSecs) = restart
    cases restart with
    | true =>
      simp only [if_true]
      split_ifs
      · exact .inl rfl
      · exact .inr (.inl rfl)
    | false =>
      simp only [Bool.false_eq_true, if_false]
      split_ifs
      · exact .inl rfl
      · exact .inr (.inr (.inl ⟨_, rfl⟩))
  | none =>
    dsimp only
    split_ifs
    · exact .inl rfl
    · exact .inr (.inr (.inr (.inl rfl)))
    · exact .inr (.inr (.inr (.inr rfl)))
    · exact .inr (.inl rfl)

lemma checkN_other (hauth : self.authenticatedKeys = true) (hk : k ≠ toAsciiLowercase key) :
    (self.checkN key count limit now).2.entries.lookup k = self.entries.lookup k ∨
      (self.checkN key count limit now).2.entries.lookup k = none ∧
        Counter.Over self.windowSecs now (self.entries.lookup k) := by
  have hslot := freeSlot_lookup self.entries now self.windowSecs self.windows k
  have hafter : (self.afterFreeSlot now).entries =
      (freeSlot self.entries now self.windowSecs false self.windows).2.1 := by
    simp [afterFreeSlot, hauth]
  rcases checkN_cases self key count limit now with h | h | ⟨entry, h⟩ | h | h <;> rw [h]
  · exact .inl rfl
  · exact .inl (startWindow_lookup_ne _ hk _ _)
  · exact .inl (AList.lookup_insert_ne hk)
  · rwa [hafter]
  · rwa [startWindow_lookup_ne _ hk, hafter]

structure SameConfig (l l' : WindowLimiter) : Prop where
  windowSecs : l'.windowSecs = l.windowSecs
  authenticatedKeys : l'.authenticatedKeys = l.authenticatedKeys

lemma call_sameConfig (self : WindowLimiter) (c : Call) : SameConfig self (self.call c).2 := by
  unfold call
  split
  · rename_i count limit now _
    rcases checkN_cases self c.key count limit now with h | h | ⟨entry, h⟩ | h | h <;>
      simp only [h] <;> exact ⟨rfl, rfl⟩
  · exact ⟨rfl, rfl⟩
  · dsimp only
    unfold refund
    dsimp only
    split
    · split_ifs <;> exact ⟨rfl, rfl⟩
    · exact ⟨rfl, rfl⟩

lemma hasRoom_own (hlimit : limit ≤ wordMax 32)
    (hno : limit < wordMax 32 ∨
      used self.windowSecs now (self.entries.lookup (toAsciiLowercase key)) + count ≤
        wordMax 32) :
    some (self.hasRoom key count limit now) =
      (Counter.call self.windowSecs (self.entries.lookup (toAsciiLowercase key))
        (.ask count limit now)).1 := by
  have hsat := saturatingAdd_le_iff hlimit hno
  unfold hasRoom Counter.call
  by_cases hfree : limit = 0 ∨ count = 0
  · simp only [hfree, if_true, ← or_assoc, true_or, decide_true]
  · simp only [hfree, if_false, ← or_assoc, false_or, ← hsat]
    rfl

lemma refund_own (time : ℕ) :
    (self.refund key count time).entries.lookup (toAsciiLowercase key) =
      credited self.windowSecs count time
        (self.entries.lookup (toAsciiLowercase key)) := by
  unfold refund credited
  dsimp only
  cases hentry : self.entries.lookup (toAsciiLowercase key) with
  | none => exact hentry
  | some entry =>
    simp only [Option.map_some]
    split_ifs
    · exact AList.lookup_insert _
    · exact hentry

lemma refund_other (hk : k ≠ toAsciiLowercase key) (time : ℕ) :
    (self.refund key count time).entries.lookup k = self.entries.lookup k := by
  unfold refund
  dsimp only
  split
  · split_ifs
    · exact AList.lookup_insert_ne hk
    · rfl
  · rfl

/-! ## A key's entry and its own counter -/

def Tracks (w t : ℕ) (entry c : Counter) : Prop :=
  entry = c ∨ entry.Over w t ∧ c.Over w t

section Tracks

variable {w t : ℕ} {entry c : Counter}

lemma Tracks.mono (h : Tracks w t entry c) {t' : ℕ} (hle : t ≤ t') : Tracks w t' entry c :=
  h.imp id fun ⟨he, hc⟩ => ⟨he.mono hle, hc.mono hle⟩

lemma Tracks.used (h : Tracks w t entry c) : entry.used w t = c.used w t := by
  rcases h with rfl | ⟨he, hc⟩
  · rfl
  · rw [he.used, hc.used]

lemma Tracks.evict (h : Tracks w t entry c) (hover : entry.Over w t) : Tracks w t none c := by
  refine .inr ⟨by simp [Counter.Over], ?_⟩
  rcases h with rfl | ⟨-, hc⟩
  · exact hover
  · exact hc

lemma Tracks.call {op : WindowOp} (h : Tracks w (op.clock t) entry c) :
    (entry.call w op).1 = (c.call w op).1 ∧
      Tracks w (op.clock t) (entry.call w op).2 (c.call w op).2 := by
  rcases h with rfl | ⟨he, hc⟩
  · exact ⟨rfl, .inl rfl⟩
  cases op with
  | charge count limit now =>
    replace he : entry.Over w now := he
    replace hc : c.Over w now := hc
    simp only [Counter.call, he.used, hc.used, he.charged, hc.charged]
    split_ifs
    · exact ⟨rfl, .inr ⟨he, hc⟩⟩
    · exact ⟨rfl, .inl rfl⟩
    · exact ⟨rfl, .inr ⟨he, hc⟩⟩
  | ask count limit now =>
    replace he : entry.Over w now := he
    replace hc : c.Over w now := hc
    simp only [Counter.call, he.used, hc.used]
    exact ⟨trivial, .inr ⟨he, hc⟩⟩
  | refund count time => exact ⟨rfl, .inr ⟨he.credited count time, hc.credited count time⟩⟩

end Tracks

lemma call_own {c : Call} (hauth : self.authenticatedKeys = true) (hon : c.On k)
    (hno : NoOverflow self.windowSecs (self.entries.lookup (toAsciiLowercase k)) .empty c.op) :
    ((self.call c).1, (self.call c).2.entries.lookup (toAsciiLowercase k)) =
      Counter.call self.windowSecs (self.entries.lookup (toAsciiLowercase k)) c.op := by
  obtain ⟨key, op, hword⟩ := c
  have hkey : toAsciiLowercase key = toAsciiLowercase k := hon
  rw [← hkey] at hno ⊢
  cases op with
  | charge count limit now => exact checkN_own hauth hword.2 hno
  | ask count limit now => exact Prod.ext (hasRoom_own hword.2 hno) rfl
  | refund count time => exact Prod.ext rfl (refund_own time)

variable {t : ℕ}

lemma call_other {c : Call} (hauth : self.authenticatedKeys = true) (hon : ¬ c.On k) :
    (self.call c).2.entries.lookup (toAsciiLowercase k) =
        self.entries.lookup (toAsciiLowercase k) ∨
      (self.call c).2.entries.lookup (toAsciiLowercase k) = none ∧
        Counter.Over self.windowSecs (c.op.clock t) (self.entries.lookup (toAsciiLowercase k)) := by
  obtain ⟨key, op, hword⟩ := c
  have hkey : toAsciiLowercase k ≠ toAsciiLowercase key := fun h => hon h.symm
  cases op with
  | charge count limit now => exact checkN_other hauth hkey
  | ask count limit now => exact .inl rfl
  | refund count time => exact .inl (refund_other hkey time)

lemma NoOverflow.of_tracks {w : ℕ} {entry c : Counter} {l l' : Ledger} {op : WindowOp}
    (h : NoOverflow w c l op) (htracks : Tracks w (op.clock t) entry c) :
    NoOverflow w entry l' op := by
  cases op with
  | charge count limit now | ask count limit now =>
    have hused : entry.used w now = c.used w now := htracks.used
    simpa only [NoOverflow, hused] using h
  | refund count time => trivial

lemma history_eq {w : ℕ} (hw : self.windowSecs = w) (hauth : self.authenticatedKeys = true)
    {calls : List Call} {c : Counter} {l : Ledger}
    (htracks : Tracks w t (self.entries.lookup (toAsciiLowercase k)) c)
    (hclock : (t :: (calls.map Call.op).filterMap WindowOp.now?).Pairwise (· ≤ ·))
    (hno : Counter.Along (NoOverflow w) w c l (opsOn k calls)) :
    self.history k calls = Counter.history w c (opsOn k calls) := by
  induction calls generalizing self t c l with
  | nil => rfl
  | cons call calls ih =>
    subst hw
    obtain ⟨hw, ha⟩ := self.call_sameConfig call
    obtain ⟨hle, hnext⟩ := WindowOp.clock_le hclock
    have htracks := htracks.mono hle
    rw [history]
    dsimp only
    by_cases hon : call.On k
    · have hops : opsOn k (call :: calls) = call.op :: opsOn k calls := by
        simp [opsOn, hon]
      rw [hops] at hno ⊢
      rw [if_pos hon, Counter.history]
      -- The entry takes the call as a counter, and so does the counter it tracks.
      obtain ⟨hanswer, hentry⟩ := Prod.ext_iff.1 (call_own hauth hon (hno.1.of_tracks htracks))
      obtain ⟨hsame, htracks⟩ := htracks.call
      dsimp only at hanswer hentry
      rw [← hentry] at htracks
      rw [hanswer, hsame, ih hw (ha.trans hauth) htracks hnext hno.2]
    · have hops : opsOn k (call :: calls) = opsOn k calls := by
        simp [opsOn, hon]
      rw [hops] at hno ⊢
      rw [if_neg hon]
      refine ih hw (ha.trans hauth) ?_ hnext hno
      rcases call_other (k := k) (t := t) hauth hon with hstays | ⟨hnone, hover⟩
      · rwa [hstays]
      · rw [hnone]
        exact htracks.evict hover

/-- Whatever calls are made on whatever keys, as long as the clock does not go back: the calls on
one key get the answers of a counter that sees these calls alone, provided none of them runs
into the saturation of `u32` at a limit of `u32::MAX`; and if they also give back only what they
were charged, no grant takes the net units of its window past its limit. -/
theorem limits_each_key_alone (windowSecs : ℕ) (calls : List Call)
    (hclock : ((calls.map Call.op).filterMap WindowOp.now?).Pairwise (· ≤ ·)) (key : List UInt8)
    (hno : Counter.Along (NoOverflow (max windowSecs 1)) (max windowSecs 1) none .empty
      (opsOn key calls)) :
    (forAuthenticatedKeys windowSecs).history key calls =
      Counter.history (max windowSecs 1) none (opsOn key calls) ∧
    (Counter.Along Counter.Repays (max windowSecs 1) none .empty (opsOn key calls) →
      Counter.Along (Counter.NetWithin (max windowSecs 1)) (max windowSecs 1) none .empty
        (opsOn key calls)) := by
  have hzero : (0 :: (calls.map Call.op).filterMap WindowOp.now?).Pairwise (· ≤ ·) :=
    List.pairwise_cons.2 ⟨fun _ _ => Nat.zero_le _, hclock⟩
  refine ⟨history_eq rfl rfl (.inl (AList.lookup_empty _)) hzero hno, fun hrepays => ?_⟩
  refine along_net_le (forAuthenticatedKeys windowSecs).windowSecs_pos
    (agrees_empty _) (List.pairwise_cons.2 ⟨fun _ _ => Nat.zero_le _, ?_⟩) hrepays
  -- The clock of the key's own calls is a part of the whole.
  exact hclock.sublist ((List.filter_sublist.map Call.op).filterMap WindowOp.now?)

/-- All of `u32::MAX`, then one more, at a limit of `u32::MAX`. -/
def fillingCalls : List Call :=
  [⟨[97], .charge 4294967295 4294967295 0, by decide⟩, ⟨[97], .charge 1 4294967295 0, by decide⟩]

def repayingCalls : List Call :=
  [⟨[97], .charge 3 3 0, by decide⟩, ⟨[97], .charge 5 0 0, by decide⟩,
    ⟨[97], .refund 5 0, by decide⟩, ⟨[97], .charge 3 3 0, by decide⟩]

/-- Two keys in turn, one of them in two cases. -/
def alternatingCalls : List Call :=
  [⟨[97], .charge 2 3 0, by decide⟩, ⟨[98], .charge 9 9 5, by decide⟩,
    ⟨[65], .charge 2 3 10, by decide⟩, ⟨[97], .refund 2 0, by decide⟩,
    ⟨[65], .charge 2 3 20, by decide⟩]

/-- The saturated sum is not past a limit of `u32::MAX`, and the sum itself wraps: what a counter
refuses is granted, and the net units of the window are past the limit. And units that were
never charged, because there was no limit, are credited to the window when they are given back,
which then grants six units at a limit of three. -/
theorem charge_past_limit :
    (forAuthenticatedKeys 60).history [97] fillingCalls =
      [(.charge 4294967295 4294967295 0, some true), (.charge 1 4294967295 0, some true)] ∧
    Counter.history 60 none (opsOn [97] fillingCalls) =
      [(.charge 4294967295 4294967295 0, some true), (.charge 1 4294967295 0, some false)] ∧
    (((forAuthenticatedKeys 60).history [97] fillingCalls).foldl (Ledger.step 60) .empty).net 60 =
      4294967296 ∧
    (((forAuthenticatedKeys 60).history [97] repayingCalls).foldl (Ledger.step 60) .empty).net 60 =
      6 := by
  decide

/-- A key in two spellings beside another key: a charge that fits, one that does not, a refund, and
one that fits again. -/
theorem limits_alternating_keys :
    (forAuthenticatedKeys 60).history [65] alternatingCalls =
        [(.charge 2 3 0, some true), (.charge 2 3 10, some false), (.refund 2 0, none),
          (.charge 2 3 20, some true)] ∧
      Counter.Along (Counter.NetWithin 60) 60 none .empty (opsOn [65] alternatingCalls) := by
  obtain ⟨hhistory, hnet⟩ := limits_each_key_alone 60 alternatingCalls (by decide) [65] (by decide)
  exact ⟨hhistory.trans (by decide), hnet (by decide)⟩

end WindowLimiter

end Epistle.Smtp
