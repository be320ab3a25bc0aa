import Epistle.Smtp.RateLimit
import Mathlib.Data.List.Perm.Subperm

/-!
# The queue of the rate limiter

The limiter keeps its entries twice: in the map, and as records in the queue of windows, where a
record outlives its window. Every record is of a key in the map, and of the records of one key the
last is the live one.

* `WindowLimiter.every_entry_has_one_record`: what holds after any calls.
-/

namespace Epistle.Smtp

open Lib List Option

open AList

lemma length_keys_erase {α : Type} {β : α → Type} [DecidableEq α] {s : AList β} {a : α}
    (h : a ∈ s.keys) : (s.erase a).keys.length + 1 = s.keys.length := by
  have hpos := length_pos_of_mem h
  rw [keys_erase, length_erase_of_mem h]
  omega

namespace Entries

variable {entries : Entries} {key : List UInt8} {entry : Window}

/-- How many keys have an entry. -/
def size (entries : Entries) : ℕ := entries.entries.length

lemma size_eq (entries : Entries) : entries.size = entries.keys.length := by
  simp [size, AList.keys, List.keys]

lemma size_insert_of_none (h : entries.lookup key = none) :
    size (entries.insert key entry) = entries.size + 1 := by
  rw [size, entries_insert_of_notMem (lookup_eq_none.1 h), length_cons, size]

lemma mem_keys_of_some (h : entries.lookup key = some entry) : key ∈ entries.keys :=
  mem_keys.1 (lookup_isSome.1 (by simp [h]))

lemma size_insert_of_some {other : Window} (h : entries.lookup key = some other) :
    size (entries.insert key entry) = entries.size := by
  rw [size_eq, size_eq, keys_insert, length_cons, ← keys_erase]
  exact length_keys_erase (mem_keys_of_some h)

lemma size_erase_of_some (h : entries.lookup key = some entry) :
    size (entries.erase key) + 1 = entries.size := by
  rw [size_eq, size_eq]
  exact length_keys_erase (mem_keys_of_some h)

lemma live_iff {record : List UInt8 × ℕ} :
    entries.live record ↔ ∃ entry, entries.lookup record.1 = some entry ∧
      entry.start = record.2 := by
  rw [live, Option.any_eq_true]
  constructor
  · rintro ⟨entry, hentry, hstart⟩
    exact ⟨entry, hentry, by simpa using hstart⟩
  · rintro ⟨entry, hentry, hstart⟩
    exact ⟨entry, hentry, by simpa using hstart⟩

end Entries

open Entries

namespace WindowLimiter

variable {entries : Entries} {windows : List (List UInt8 × ℕ)} {self : WindowLimiter}

/-! ## Records and entries -/

/-- The records of the queue: all are of keys in the map, and the last one of each key is live. -/
structure Queued (entries : Entries) (windows : List (List UInt8 × ℕ)) : Prop where
  known : ∀ record ∈ windows, (entries.lookup record.1).isSome
  last : ∀ key entry, entries.lookup key = some entry → ∃ before after,
    windows = before ++ (key, entry.start) :: after ∧
      (∀ record ∈ before, record.1 = key → record.2 < entry.start) ∧
      ∀ record ∈ after, record.1 ≠ key

namespace Queued

lemma empty : Queued ∅ [] := by
  refine ⟨by simp, fun key entry h => ?_⟩
  simp at h

variable {key : List UInt8}

lemma start_le (h : Queued entries windows) {entry : Window}
    (hentry : entries.lookup key = some entry) {record : List UInt8 × ℕ} (hmem : record ∈ windows)
    (hkey : record.1 = key) : record.2 ≤ entry.start := by
  obtain ⟨before, after, rfl, hbefore, hafter⟩ := h.last key entry hentry
  simp only [mem_append, mem_cons] at hmem
  obtain hmem | rfl | hmem := hmem
  · exact (hbefore record hmem hkey).le
  · exact le_rfl
  · exact absurd hkey (hafter record hmem)

lemma count_eq_one (h : Queued entries windows) {entry : Window}
    (hentry : entries.lookup key = some entry) : windows.count (key, entry.start) = 1 := by
  obtain ⟨before, after, rfl, hbefore, hafter⟩ := h.last key entry hentry
  have hnotBefore : (key, entry.start) ∉ before := fun hmem =>
    absurd (hbefore _ hmem rfl) (lt_irrefl _)
  have hnotAfter : (key, entry.start) ∉ after := fun hmem => hafter _ hmem rfl
  rw [count_append, count_cons_self, count_eq_zero_of_not_mem hnotBefore,
    count_eq_zero_of_not_mem hnotAfter]

lemma start (h : Queued entries windows) {now count : ℕ}
    (hlater : ∀ entry, entries.lookup key = some entry → entry.start < now) :
    Queued (entries.insert key ⟨now, count⟩) (windows ++ [(key, now)]) := by
  constructor
  · intro record hrecord
    by_cases hkey : record.1 = key
    · rw [hkey, lookup_insert]
      rfl
    · rw [lookup_insert_ne hkey]
      obtain hrecord | hrecord := mem_append.1 hrecord
      · exact h.known record hrecord
      · exact absurd (by simp_all) hkey
  · intro key' entry hentry
    by_cases hkey : key' = key
    · subst hkey
      obtain rfl : ⟨now, count⟩ = entry := by simpa using hentry
      refine ⟨windows, [], rfl, fun record hrecord hkey => ?_, by simp⟩
      -- Records of a key that is not in the map are not in the queue.
      obtain ⟨old, hold⟩ := isSome_iff_exists.1 (h.known record hrecord)
      rw [hkey] at hold
      exact lt_of_le_of_lt (h.start_le hold hrecord hkey) (hlater old hold)
    · rw [lookup_insert_ne hkey] at hentry
      obtain ⟨before, after, rfl, hbefore, hafter⟩ := h.last key' entry hentry
      refine ⟨before, after ++ [(key, now)], by simp, hbefore, fun record hrecord => ?_⟩
      obtain hrecord | hrecord := mem_append.1 hrecord
      · exact hafter record hrecord
      · rw [mem_singleton.1 hrecord]
        exact Ne.symm hkey

lemma compact (h : Queued entries windows) : Queued entries (windows.filter entries.live) := by
  refine ⟨fun record hrecord => h.known record (mem_of_mem_filter hrecord), ?_⟩
  intro key entry hentry
  obtain ⟨before, after, rfl, hbefore, hafter⟩ := h.last key entry hentry
  have hlive : entries.live (key, entry.start) := live_iff.2 ⟨entry, hentry, rfl⟩
  refine ⟨before.filter entries.live, after.filter entries.live, ?_, ?_, ?_⟩
  · rw [filter_append, filter_cons_of_pos hlive]
  · exact fun record hrecord => hbefore record (mem_of_mem_filter hrecord)
  · exact fun record hrecord => hafter record (mem_of_mem_filter hrecord)

lemma length_compact_le (h : Queued entries windows) :
    (windows.filter entries.live).length ≤ entries.size := by
  have hsame : ∀ r ∈ windows.filter entries.live, ∀ r' ∈ windows.filter entries.live,
      r.1 = r'.1 → r = r' := by
    intro r hr r' hr' hkey
    obtain ⟨entry, hentry, hstart⟩ := live_iff.1 (of_mem_filter hr)
    obtain ⟨entry', hentry', hstart'⟩ := live_iff.1 (of_mem_filter hr')
    obtain rfl : entry = entry' := some.inj (hentry.symm.trans (hkey ▸ hentry'))
    exact Prod.ext hkey (hstart.symm.trans hstart')
  have hnodup : (windows.filter entries.live).Nodup := by
    refine nodup_iff_count_le_one.2 fun r => ?_
    by_cases hr : r ∈ windows.filter entries.live
    · obtain ⟨entry, hentry, hstart⟩ := live_iff.1 (of_mem_filter hr)
      have hr : r = (r.1, entry.start) := Prod.ext rfl hstart.symm
      calc (windows.filter entries.live).count r
          ≤ windows.count r := List.filter_sublist.count_le _
        _ = 1 := by
          rw [hr]
          exact h.count_eq_one hentry
    · rw [count_eq_zero_of_not_mem hr]
      exact Nat.zero_le 1
  have hsub : (windows.filter entries.live).map Prod.fst ⊆ entries.keys := by
    intro key hkey
    obtain ⟨r, hr, rfl⟩ := List.mem_map.1 hkey
    obtain ⟨entry, hentry, -⟩ := live_iff.1 (of_mem_filter hr)
    exact mem_keys_of_some hentry
  rw [size_eq, ← length_map Prod.fst]
  exact (List.Nodup.subperm (hnodup.map_on hsame) hsub).length_le

lemma tail {record : List UInt8 × ℕ} (h : Queued entries (record :: windows))
    (hdead : ¬ entries.live record) : Queued entries windows := by
  refine ⟨fun r hr => h.known r (mem_cons_of_mem _ hr), fun key entry hentry => ?_⟩
  obtain ⟨before, after, heq, hbefore, hafter⟩ := h.last key entry hentry
  obtain - | ⟨first, before⟩ := before
  · obtain ⟨rfl, -⟩ := List.cons.inj heq
    exact absurd (live_iff.2 ⟨entry, hentry, rfl⟩) hdead
  · exact ⟨before, after, (List.cons.inj heq).2,
      fun r hr => hbefore r (mem_cons_of_mem _ hr), hafter⟩

lemma evict {start : ℕ} (h : Queued entries ((key, start) :: windows))
    (hlive : entries.live (key, start)) : Queued (entries.erase key) windows := by
  obtain ⟨entry, hentry, rfl⟩ := live_iff.1 hlive
  -- It is the last record of its key.
  have hgone : ∀ record ∈ windows, record.1 ≠ key := by
    obtain ⟨before, after, heq, hbefore, hafter⟩ := h.last key entry hentry
    obtain - | ⟨first, before⟩ := before
    · rw [(List.cons.inj heq).2]
      exact hafter
    · obtain ⟨rfl, -⟩ := List.cons.inj heq
      exact absurd (hbefore _ (mem_cons_self ..) rfl) (lt_irrefl _)
  constructor
  · intro record hrecord
    rw [lookup_erase_ne (hgone record hrecord)]
    exact h.known record (mem_cons_of_mem _ hrecord)
  · intro key' entry' hentry'
    have hkey : key' ≠ key := by
      rintro rfl
      simp at hentry'
    rw [lookup_erase_ne hkey] at hentry'
    obtain ⟨before, after, heq, hbefore, hafter⟩ := h.last key' entry' hentry'
    obtain - | ⟨first, before⟩ := before
    · exact absurd (congrArg Prod.fst (List.cons.inj heq).1).symm hkey
    · exact ⟨before, after, (List.cons.inj heq).2,
        fun r hr => hbefore r (mem_cons_of_mem _ hr), hafter⟩

lemma exists_live (h : Queued entries windows) (hsize : entries.size ≠ 0) :
    ∃ record ∈ windows, entries.live record := by
  rw [size_eq] at hsize
  obtain ⟨key, hkey⟩ := exists_mem_of_length_pos (Nat.pos_of_ne_zero hsize)
  obtain ⟨entry, hentry⟩ :=
    isSome_iff_exists.1 (lookup_isSome.2 (mem_keys.2 hkey))
  obtain ⟨before, after, rfl, -, -⟩ := h.last key entry hentry
  exact ⟨(key, entry.start), by simp, live_iff.2 ⟨entry, hentry, rfl⟩⟩

end Queued

/-! ## Making room -/

/-- What is left once a slot was asked for: the map without one entry, or the same map if the oldest
window is running and may not go. -/
structure SlotAsked (entries : Entries) (windows : List (List UInt8 × ℕ)) (evictActive : Bool)
    (slot : Bool × Entries × List (List UInt8 × ℕ)) : Prop where
  queued : Queued slot.2.1 slot.2.2
  length_le : slot.2.2.length ≤ windows.length
  lookup_eq_none : ∀ key, entries.lookup key = none → slot.2.1.lookup key = none
  freed : slot.1 = true → slot.2.1.size + 1 = entries.size
  kept : slot.1 = false → slot.2.1 = entries ∧ (evictActive = true → entries.size = 0)

lemma slotAsked_freeSlot (h : Queued entries windows) (now w : ℕ) (evictActive : Bool) :
    SlotAsked entries windows evictActive (freeSlot entries now w evictActive windows) := by
  induction windows with
  | nil =>
    refine ⟨h, le_rfl, fun _ h => h, by simp [freeSlot], fun _ => ⟨rfl, fun _ => ?_⟩⟩
    by_contra hsize
    obtain ⟨record, hrecord, -⟩ := h.exists_live hsize
    simp at hrecord
  | cons record windows ih =>
    obtain ⟨key, start⟩ := record
    rw [freeSlot]
    by_cases hlive : entries.live (key, start) = true
    · simp only [hlive, Bool.not_true, Bool.false_eq_true, if_false]
      split_ifs with hrun
      · refine ⟨h, le_rfl, fun _ h => h, by simp, fun _ => ⟨rfl, fun hactive => ?_⟩⟩
        simp [hactive] at hrun
      · obtain ⟨entry, hentry, -⟩ := live_iff.1 hlive
        refine ⟨h.evict hlive, by simp, fun k hk => ?_, fun _ => size_erase_of_some hentry,
          by simp⟩
        by_cases hkey : k = key
        · rw [hkey, lookup_erase]
        · rw [lookup_erase_ne hkey, hk]
    · simp only [hlive, Bool.not_false, if_true]
      have htail := ih (h.tail hlive)
      exact ⟨htail.queued, htail.length_le.trans (by simp), htail.lookup_eq_none, htail.freed,
        htail.kept⟩

/-! ## Calls -/

/-- The queue stands for the map, and neither outgrows its bound. -/
structure Sound (limiter : WindowLimiter) : Prop where
  queued : Queued limiter.entries limiter.windows
  queue_le : limiter.windows.length ≤ 2 * max limiter.entries.size maxEntries
  size_le : limiter.authenticatedKeys = false → limiter.entries.size ≤ maxEntries

variable {key : List UInt8} {entry : Window}

lemma Sound.startWindow {count now : ℕ} (hqueued : Queued self.entries self.windows)
    (hlater : ∀ entry, self.entries.lookup key = some entry → entry.start < now)
    (hsize : self.authenticatedKeys = false →
      size (self.entries.insert key ⟨now, count⟩) ≤ maxEntries) :
    Sound (self.startWindow key count now) := by
  have hstart : Queued (self.entries.insert key ⟨now, count⟩) (self.windows ++ [(key, now)]) :=
    hqueued.start hlater
  unfold WindowLimiter.startWindow recordWindow
  dsimp only
  split_ifs with hlong
  · refine ⟨hstart.compact, ?_, hsize⟩
    have hle := hstart.length_compact_le
    dsimp only
    omega
  · exact ⟨hstart, Nat.le_of_not_lt hlong, hsize⟩

lemma Queued.setUsed (h : Queued entries windows) (hentry : entries.lookup key = some entry)
    (used : ℕ) : Queued (entries.insert key { entry with used }) windows := by
  constructor
  · intro record hrecord
    by_cases hkey : record.1 = key
    · rw [hkey, lookup_insert]
      rfl
    · rw [lookup_insert_ne hkey]
      exact h.known record hrecord
  · intro key' entry' hentry'
    by_cases hkey : key' = key
    · subst hkey
      obtain rfl : { entry with used } = entry' := by simpa using hentry'
      exact h.last key' entry hentry
    · rw [lookup_insert_ne hkey] at hentry'
      exact h.last key' entry' hentry'

lemma Sound.setUsed (h : Sound self) (hentry : self.entries.lookup key = some entry) (used : ℕ) :
    Sound { self with entries := self.entries.insert key { entry with used } } := by
  have hsize : size (self.entries.insert key { entry with used }) = self.entries.size :=
    size_insert_of_some hentry
  refine ⟨h.queued.setUsed hentry used, ?_, fun hauth => ?_⟩
  · rw [hsize]
    exact h.queue_le
  · rw [hsize]
    exact h.size_le hauth

lemma Sound.checkN_of_some (h : Sound self)
    (hentry : self.entries.lookup (toAsciiLowercase key) = some entry) (count limit now : ℕ) :
    Sound (self.checkN key count limit now).2 := by
  unfold WindowLimiter.checkN
  by_cases hfree : limit = 0 ∨ count = 0
  · rw [if_pos hfree]
    exact h
  rw [if_neg hfree]
  simp only [hentry]
  by_cases hrestart : now - entry.start ≥ self.windowSecs
  · simp only [hrestart, decide_true, if_true]
    split_ifs
    · exact h
    -- The window is over, so the new one starts later.
    have hpos := self.windowSecs_pos
    refine .startWindow h.queued (fun old hold => ?_) fun hauth => ?_
    · obtain rfl : entry = old := some.inj (hentry.symm.trans hold)
      omega
    · rw [size_insert_of_some hentry]
      exact h.size_le hauth
  · simp only [hrestart, decide_false, Bool.false_eq_true, if_false]
    split_ifs
    · exact h
    · exact h.setUsed hentry _

lemma Sound.checkN_of_none (h : Sound self)
    (hnone : self.entries.lookup (toAsciiLowercase key) = none) (count limit now : ℕ) :
    Sound (self.checkN key count limit now).2 ∧
      ((self.checkN key count limit now).1 = true ↔ limit = 0 ∨ count ≤ limit) := by
  unfold WindowLimiter.checkN
  by_cases hfree : limit = 0 ∨ count = 0
  · rw [if_pos hfree]
    refine ⟨h, iff_of_true rfl ?_⟩
    omega
  rw [if_neg hfree]
  simp only [hnone]
  have hslot := slotAsked_freeSlot h.queued now self.windowSecs (!self.authenticatedKeys)
  split_ifs with hover hfull hrefused
  · refine ⟨h, iff_of_false (by simp) ?_⟩
    omega
  · -- A full map has a window that can go.
    simp only [Bool.and_eq_true, Bool.not_eq_true'] at hrefused
    have hempty := (hslot.kept hrefused.1).2 (by simp [hrefused.2])
    have hpos : 0 < maxEntries := by decide
    change maxEntries ≤ self.entries.size at hfull
    omega
  · refine ⟨.startWindow hslot.queued (fun old hold => ?_) fun hauth => ?_,
      iff_of_true rfl (by omega)⟩
    · simp [hslot.lookup_eq_none _ hnone] at hold
    · change self.authenticatedKeys = false at hauth
      have hfreed := hslot.freed (by simpa [hauth] using hrefused)
      have hle := h.size_le hauth
      rw [size_insert_of_none (hslot.lookup_eq_none _ hnone)]
      omega
  · -- There is room in the map.
    refine ⟨.startWindow h.queued (fun old hold => ?_) fun _ => ?_, iff_of_true rfl (by omega)⟩
    · simp [hnone] at hold
    · rw [size_insert_of_none hnone]
      exact Nat.lt_of_not_le hfull

lemma Sound.refund (h : Sound self) (key : List UInt8) (count time : ℕ) :
    Sound (self.refund key count time) := by
  unfold WindowLimiter.refund
  cases hentry : self.entries.lookup (toAsciiLowercase key) with
  | none =>
    simp only [hentry]
    exact h
  | some entry =>
    simp only [hentry]
    split_ifs
    · exact h.setUsed hentry _
    · exact h

lemma Sound.call (h : Sound self) (c : Call) : Sound (self.call c).2 := by
  unfold WindowLimiter.call
  split
  · rename_i count limit now _
    cases hentry : self.entries.lookup (toAsciiLowercase c.key) with
    | none => exact (h.checkN_of_none hentry count limit now).1
    | some entry => exact h.checkN_of_some hentry count limit now
  · exact h
  · exact h.refund ..

def afterCalls (self : WindowLimiter) (calls : List Call) : WindowLimiter :=
  calls.foldl (fun limiter c => (limiter.call c).2) self

lemma Sound.afterCalls (h : Sound self) (calls : List Call) : Sound (self.afterCalls calls) := by
  induction calls generalizing self with
  | nil => exact h
  | cons c calls ih => exact ih (h.call c)

lemma afterCalls_authenticatedKeys (self : WindowLimiter) (calls : List Call) :
    (self.afterCalls calls).authenticatedKeys = self.authenticatedKeys := by
  induction calls generalizing self with
  | nil => rfl
  | cons c calls ih => exact (ih _).trans (call_sameConfig self c).authenticatedKeys

lemma sound_new (windowSecs : ℕ) : Sound (new windowSecs) :=
  ⟨.empty, Nat.zero_le _, fun _ => Nat.zero_le _⟩

lemma sound_forAuthenticatedKeys (windowSecs : ℕ) : Sound (forAuthenticatedKeys windowSecs) :=
  ⟨.empty, Nat.zero_le _, fun _ => Nat.zero_le _⟩

/-- After any calls on a limiter of either kind, every key in the map has one live record. A slot
can be freed while there is a key; a limiter with keys from the network never holds more than its
bound, and refuses a key that it does not know only for the limit. The queue stays within its bound.
-/
theorem every_entry_has_one_record (windowSecs : ℕ) (calls : List Call) (fresh : WindowLimiter)
    (hfresh : fresh = new windowSecs ∨ fresh = forAuthenticatedKeys windowSecs) :
    let limiter := fresh.afterCalls calls
    (∀ key entry, limiter.entries.lookup key = some entry →
      limiter.windows.count (key, entry.start) = 1) ∧
    (limiter.entries.size ≠ 0 →
      (∃ record ∈ limiter.windows, limiter.entries.live record) ∧
      ∀ now, (freeSlot limiter.entries now limiter.windowSecs true limiter.windows).1 = true) ∧
    (fresh = new windowSecs →
      limiter.entries.size ≤ maxEntries ∧
      ∀ key count limit now, limiter.entries.lookup (toAsciiLowercase key) = none →
        ((limiter.checkN key count limit now).1 = true ↔ limit = 0 ∨ count ≤ limit)) ∧
    limiter.windows.length ≤ 2 * max limiter.entries.size maxEntries + 1 := by
  have hsound : Sound (fresh.afterCalls calls) := by
    obtain rfl | rfl := hfresh
    · exact (sound_new windowSecs).afterCalls calls
    · exact (sound_forAuthenticatedKeys windowSecs).afterCalls calls
  refine ⟨fun key entry => hsound.queued.count_eq_one, fun hsize => ?_, ?_, ?_⟩
  · refine ⟨hsound.queued.exists_live hsize, fun now => ?_⟩
    have hslot := slotAsked_freeSlot hsound.queued now (fresh.afterCalls calls).windowSecs true
    by_contra hkept
    exact hsize ((hslot.kept (Bool.eq_false_iff.2 hkept)).2 rfl)
  · rintro rfl
    refine ⟨hsound.size_le ?_, fun key count limit now hnone =>
      (hsound.checkN_of_none hnone count limit now).2⟩
    rw [afterCalls_authenticatedKeys]
    rfl
  · exact hsound.queue_le.trans (Nat.le_succ _)

/-- Two keys, one of which starts a second window. -/
theorem every_entry_has_one_record_restarted :
    ((new 60).afterCalls [⟨[97], .charge 1 5 100, by decide⟩, ⟨[98], .charge 1 5 110, by decide⟩,
      ⟨[97], .charge 1 5 170, by decide⟩]).windows.count ([97], 170) = 1 :=
  (every_entry_has_one_record 60 [⟨[97], .charge 1 5 100, by decide⟩,
    ⟨[98], .charge 1 5 110, by decide⟩, ⟨[97], .charge 1 5 170, by decide⟩] (new 60) (.inl rfl)).1
    [97] ⟨170, 1⟩ (by decide +kernel)

lemma Sound.checkN_eq_hasRoom (h : Sound self) {count limit now : ℕ} (hcount : count ≤ wordMax 32) :
    (self.checkN key count limit now).1 = self.hasRoom key count limit now := by
  cases hentry : self.entries.lookup (toAsciiLowercase key) with
  | none =>
    rw [Bool.eq_iff_iff, (h.checkN_of_none hentry count limit now).2, hasRoom, hentry]
    split_ifs with hfree
    · simp only [iff_true]
      omega
    · simp only [saturatingAdd, zero_add, decide_eq_true_eq]
      omega
  | some entry =>
    unfold checkN hasRoom
    by_cases hfree : limit = 0 ∨ count = 0
    · rw [if_pos hfree, if_pos hfree]
    rw [if_neg hfree, if_neg hfree]
    simp only [hentry]
    by_cases hrun : now - entry.start < self.windowSecs
    · have hrestart : ¬ now - entry.start ≥ self.windowSecs := hrun.not_ge
      simp only [hrun, hrestart, decide_false, Bool.false_eq_true, if_true, if_false]
      split_ifs with hover <;> simpa using hover
    · have hrestart : now - entry.start ≥ self.windowSecs := Nat.le_of_not_lt hrun
      simp only [hrun, hrestart, decide_true, if_true, if_false]
      split_ifs with hover <;> simpa using hover

/-- After any calls on a limiter of either kind, a charge is granted exactly when asking first says
that there is room. -/
theorem charge_granted_iff_hasRoom (windowSecs : ℕ) (calls : List Call) (fresh : WindowLimiter)
    (hfresh : fresh = new windowSecs ∨ fresh = forAuthenticatedKeys windowSecs)
    (key : List UInt8) {count : ℕ} (hcount : count ≤ wordMax 32) (limit now : ℕ) :
    ((fresh.afterCalls calls).checkN key count limit now).1 =
      (fresh.afterCalls calls).hasRoom key count limit now := by
  obtain rfl | rfl := hfresh
  · exact ((sound_new windowSecs).afterCalls calls).checkN_eq_hasRoom hcount
  · exact ((sound_forAuthenticatedKeys windowSecs).afterCalls calls).checkN_eq_hasRoom hcount

/-- Two more on top of four, with a limit of five. -/
theorem charge_refused_at_limit :
    (((new 60).afterCalls [⟨[97], .charge 4 5 100, by decide⟩]).checkN [97] 2 5 110).1 =
      ((new 60).afterCalls [⟨[97], .charge 4 5 100, by decide⟩]).hasRoom [97] 2 5 110 :=
  charge_granted_iff_hasRoom 60 _ (new 60) (.inl rfl) [97] (by decide) 5 110

end WindowLimiter

end Epistle.Smtp
