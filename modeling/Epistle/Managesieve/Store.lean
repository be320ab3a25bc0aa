import Epistle.Lib.Table

/-!
# The scripts of an account

`managesieve/store`: scripts are files, and an index beside them counts their changes. A call writes
the files first and the index last, so that a call that is stopped in between leaves the two
different. The next call sees that by the names of the scripts only.

* `run_same_state`: when a state number stands for one set of scripts;
* `run_size_le`, `run_active_script`: what every run leaves in place.
-/

namespace Epistle.Managesieve

open Lib List

variable {Name Content Id : Type} [LinearOrder Name]

/-- The id and the revision of each script. -/
abbrev Entries (Name Id : Type) [LinearOrder Name] : Type := Table Name (Id × ℕ)

/-- The scripts and the marker of the active one. -/
structure Files (Name Content : Type) [LinearOrder Name] where
  scripts : Table Name Content
  active : Option Name

/-- The script directory of an account: its files, and the index with its state number. -/
structure Disk (Name Content Id : Type) [LinearOrder Name] where
  files : Files Name Content
  /-- A counter of 64 bits in the code, too large to run out. -/
  state : ℕ
  entries : Entries Name Id

/-- The index of a call. -/
structure Txn (Name Id : Type) [LinearOrder Name] where
  entries : Entries Name Id
  changed : Bool

/-- A script without an entry gets one, with a fresh id. -/
def enter (fresh : Name → Id) (txn : Txn Name Id) (name : Name) : Txn Name Id :=
  if (txn.entries.get name).isNone then ⟨txn.entries.set name (fresh name, 1), true⟩ else txn

/-- The index brought in line with the names on disk. -/
def reconcile (fresh : Name → Id) (entries : Entries Name Id) (onDisk : List Name) :
    Txn Name Id :=
  let kept : Entries Name Id :=
    ⟨entries.entries.filter (·.1 ∈ onDisk), entries.sorted.filter _⟩
  onDisk.foldl (enter fresh) ⟨kept, kept.size ≠ entries.size⟩

/-- The transaction a call starts with. -/
def Disk.writeTxn (fresh : Name → Id) (self : Disk Name Content Id) : Txn Name Id :=
  reconcile fresh self.entries self.files.scripts.keys

/-- The index is written last, and only after a change. -/
def Disk.commit (self : Disk Name Content Id) (files : Files Name Content) (txn : Txn Name Id) :
    Disk Name Content Id :=
  if txn.changed then ⟨files, self.state + 1, txn.entries⟩ else { self with files }

/-- The calls that change scripts. -/
inductive Call (Name Content : Type)
  | put (name : Name) (content : Content)
  | delete (name : Name)
  | rename (old new : Name)
  | setActive (name : Option Name)

/-- The most scripts of an account. -/
def maxScripts : ℕ := 50

/-- The index once a script was written: a new revision, or a new entry. -/
def wrote (fresh : Name → Id) (entries : Entries Name Id) (name : Name) : Entries Name Id :=
  match entries.get name with
  | some (id, rev) => entries.set name (id, rev + 1)
  | none => entries.set name (fresh name, 1)

/-- The index once a script was renamed: its entry goes with it. -/
def renamed (entries : Entries Name Id) (old new : Name) : Entries Name Id :=
  match entries.get old with
  | some entry => (entries.erase old).set new entry
  | none => entries

/-- The files after each write of a call, and the index to commit. -/
def Call.writes (fresh : Name → Id) (files : Files Name Content) (txn : Txn Name Id) :
    Call Name Content → List (Files Name Content) × Txn Name Id
  | put name content =>
    if (txn.entries.get name).isNone ∧ maxScripts ≤ txn.entries.size then ([], txn)
    else ([{ files with scripts := files.scripts.set name content }],
      ⟨wrote fresh txn.entries name, true⟩)
  | delete name =>
    if files.active = some name ∨ (files.scripts.get name).isNone then ([], txn)
    else ([{ files with scripts := files.scripts.erase name }], ⟨txn.entries.erase name, true⟩)
  | rename old new =>
    match files.scripts.get old with
    | none => ([], txn)
    | some content =>
      if (files.scripts.get new).isSome then ([], txn)
      else
        let moved := { files with scripts := (files.scripts.erase old).set new content }
        -- The marker of the active script follows.
        (moved :: if files.active = some old then [{ moved with active := some new }] else [],
          ⟨renamed txn.entries old new, true⟩)
  | setActive name =>
    if name.any fun name => (files.scripts.get name).isNone then ([], txn)
    else ([{ files with active := name }],
      { txn with changed := txn.changed || files.active ≠ name })

/-- A call that is not stopped. -/
def Call.finish (fresh : Name → Id) (call : Call Name Content) (disk : Disk Name Content Id) :
    Disk Name Content Id :=
  let done := call.writes fresh disk.files (disk.writeTxn fresh)
  disk.commit (done.1.getLastD disk.files) done.2

/-- What a snapshot lists: each script with its id, its revision and whether it is active. -/
structure Report (Name Content Id : Type) [LinearOrder Name] where
  state : ℕ
  scripts : List (Name × Id × ℕ × Bool)
  contents : Table Name Content

/-- What a snapshot tells of the directory. -/
def Disk.report (self : Disk Name Content Id) : Report Name Content Id where
  state := self.state
  scripts := self.entries.entries.map fun (name, id, rev) =>
    (name, id, rev, self.files.active = some name)
  contents := self.files.scripts

/-- A reconcile that changed the index is counted before the listing is reported. -/
def Disk.snapshot (fresh : Name → Id) (self : Disk Name Content Id) : Disk Name Content Id :=
  self.commit self.files (self.writeTxn fresh)

/-- A call to its end, a call that a crash stops after so many writes, or a snapshot. -/
inductive Event (Name Content Id : Type)
  | call (fresh : Name → Id) (call : Call Name Content)
  | stopped (fresh : Name → Id) (call : Call Name Content) (writes : ℕ)
  | snapshot (fresh : Name → Id)

/-- The files that a stopped call leaves. -/
def Call.left (fresh : Name → Id) (call : Call Name Content) (disk : Disk Name Content Id)
    (writes : ℕ) : Files Name Content :=
  (disk.files :: (call.writes fresh disk.files (disk.writeTxn fresh)).1).getD writes disk.files

/-- What an event leaves of the directory. -/
def Disk.step (self : Disk Name Content Id) : Event Name Content Id → Disk Name Content Id
  | .call fresh call => call.finish fresh self
  | .stopped fresh call writes => { self with files := call.left fresh self writes }
  | .snapshot fresh => self.snapshot fresh

/-- The disk after some events, the last in front, and the reports that were given. -/
def run : List (Event Name Content Id) → Disk Name Content Id × List (Report Name Content Id)
  | [] => (⟨⟨.empty, none⟩, 0, .empty⟩, [])
  | event :: earlier =>
    let disk := (run earlier).1.step event
    (disk, match event with
      | .snapshot _ => disk.report :: (run earlier).2
      | _ => (run earlier).2)

/-! ## What the next call sees -/

/-- The index and the scripts differ in a name that is none of these. -/
def Disk.StaleBut (self : Disk Name Content Id) (touched : List Name) : Prop :=
  ∃ name ∉ touched, (self.files.scripts.get name).isSome ≠ (self.entries.get name).isSome

/-- The index has other names than the scripts. -/
def Disk.Stale (self : Disk Name Content Id) : Prop := self.StaleBut []

/-- Wherever this call is stopped on this disk, the next one finds a name that the index does not
have or has too much, or the call had nothing to change. -/
def Call.Noticed (disk : Disk Name Content Id) : Call Name Content → Prop
  | put name content => disk.entries.get name = none ∨
      disk.files.scripts.get name = some content ∨ disk.StaleBut [name]
  | delete name => disk.entries.get name ≠ none ∨ disk.StaleBut [name]
  | rename old new => disk.entries.get old ≠ none ∨ disk.entries.get new = none ∨
      disk.StaleBut [old, new]
  | setActive name => disk.files.active = name ∨ disk.Stale

/-- A call is stopped before its first write, or where the next call notices it. -/
def Event.Seen (disk : Disk Name Content Id) : Event Name Content Id → Prop
  | .stopped _ c writes => writes = 0 ∨ c.Noticed disk
  | _ => True

variable {fresh : Name → Id} {disk : Disk Name Content Id}

lemma foldl_enter {names : List Name} {txn : Txn Name Id}
    (h : (names.foldl (enter fresh) txn).changed = false) :
    txn.changed = false ∧ names.foldl (enter fresh) txn = txn ∧
      ∀ name ∈ names, (txn.entries.get name).isSome := by
  induction names generalizing txn with
  | nil => exact ⟨h, rfl, by simp⟩
  | cons name names ih =>
    rw [foldl_cons, enter] at h ⊢
    split_ifs at h ⊢ with hnone
    · -- Once something was entered, the flag stays.
      exact nomatch (ih h).1
    · obtain ⟨hchanged, heq, hnames⟩ := ih h
      refine ⟨hchanged, heq, forall_mem_cons.2 ⟨?_, hnames⟩⟩
      simpa [Option.isSome_iff_ne_none] using hnone

/-- With nothing to reconcile the index has the names of the scripts. -/
lemma not_stale_of_unchanged (h : (disk.writeTxn fresh).changed = false) : ¬ disk.Stale := by
  obtain ⟨hsize, -, hnames⟩ := foldl_enter h
  have hall := length_filter_eq_length_iff.1 (not_not.1 (of_decide_eq_false hsize))
  simp only [filter_eq_self.2 hall] at hnames
  rintro ⟨name, -, hne⟩
  refine hne ?_
  rw [Bool.eq_iff_iff, ← Table.mem_keys, ← Table.mem_keys]
  constructor
  · exact fun hmem => (Table.mem_keys _).2 (hnames name hmem)
  · intro hmem
    obtain ⟨entry, hentry, rfl⟩ := mem_map.1 hmem
    exact of_decide_eq_true (hall entry hentry)

/-- A call without a change to commit leaves the files as they are. -/
lemma writes_unchanged {call : Call Name Content} {files : Files Name Content} {txn : Txn Name Id}
    (h : (call.writes fresh files txn).2.changed = false) :
    (call.writes fresh files txn).1.getLastD files = files := by
  cases call with
  | put | delete =>
    rw [Call.writes] at h ⊢
    split_ifs at h ⊢
    rfl
  | rename old new =>
    rw [Call.writes] at h ⊢
    cases hold : files.scripts.get old with
    | none => rfl
    | some content =>
      simp only [hold] at h ⊢
      split_ifs at h ⊢
      rfl
  | setActive name =>
    rw [Call.writes] at h ⊢
    split_ifs at h ⊢
    · rfl
    · obtain ⟨-, rfl⟩ : txn.changed = false ∧ files.active = name := by simpa using h
      rfl

/-! ## Runs -/

/-- What is known of the disk, given the reports up to now. -/
structure Good (disk : Disk Name Content Id) (reports : List (Report Name Content Id)) : Prop where
  le : ∀ r ∈ reports, r.state ≤ disk.state
  current : ¬ disk.Stale → ∀ r ∈ reports, r.state = disk.state → r = disk.report
  same : ∀ r ∈ reports, ∀ r' ∈ reports, r.state = r'.state → r = r'

variable {reports : List (Report Name Content Id)}

/-- A new state number has not been reported. -/
lemma Good.commit (h : Good disk reports) {files : Files Name Content} {txn : Txn Name Id}
    (hchanged : txn.changed = true) :
    Good (disk.commit files txn) reports ∧ ∀ r ∈ reports,
      r.state ≠ (disk.commit files txn).state := by
  have hlt : ∀ r ∈ reports, r.state < disk.state + 1 := fun r hr => Nat.lt_succ_of_le (h.le r hr)
  rw [Disk.commit, if_pos hchanged]
  exact ⟨⟨fun r hr => (hlt r hr).le, fun _ r hr heq => absurd heq (hlt r hr).ne, h.same⟩,
    fun r hr => (hlt r hr).ne⟩

lemma Good.finish (h : Good disk reports) (call : Call Name Content) :
    Good (call.finish fresh disk) reports := by
  by_cases hchanged : (call.writes fresh disk.files (disk.writeTxn fresh)).2.changed = true
  · exact (h.commit hchanged).1
  · rw [Call.finish, Disk.commit, if_neg hchanged, writes_unchanged (Bool.eq_false_iff.2 hchanged)]
    exact h

lemma Good.snapshot (h : Good disk reports) :
    Good (disk.snapshot fresh) ((disk.snapshot fresh).report :: reports) := by
  have hnow : Good (disk.snapshot fresh) reports ∧ ∀ r ∈ reports,
      r.state = (disk.snapshot fresh).state → r = (disk.snapshot fresh).report := by
    unfold Disk.snapshot
    by_cases hchanged : (disk.writeTxn fresh).changed = true
    · obtain ⟨hgood, hne⟩ := @Good.commit _ _ _ _ _ _ h disk.files _ hchanged
      exact ⟨hgood, fun r hr heq => absurd heq (hne r hr)⟩
    · rw [Disk.commit, if_neg hchanged]
      exact ⟨h, h.current (not_stale_of_unchanged (Bool.eq_false_iff.2 hchanged))⟩
  obtain ⟨hgood, hnow⟩ := hnow
  refine ⟨forall_mem_cons.2 ⟨le_rfl, hgood.le⟩,
    fun hstale => forall_mem_cons.2 ⟨fun _ => rfl, hgood.current hstale⟩, ?_⟩
  refine forall_mem_cons.2 ⟨forall_mem_cons.2 ⟨fun _ => rfl, fun r hr heq => ?_⟩, fun r hr => ?_⟩
  · exact (hnow r hr heq.symm).symm
  · exact forall_mem_cons.2 ⟨hnow r hr, hgood.same r hr⟩

/-- Each write of a call that is noticed leaves a stale index, or the files as they were. -/
lemma Call.Noticed.writes {call : Call Name Content} (h : call.Noticed disk) {txn : Txn Name Id} :
    ∀ files ∈ (call.writes fresh disk.files txn).1,
      { disk with files }.Stale ∨ files = disk.files := by
  cases call with
  | put name content =>
    rw [Call.writes]
    split_ifs
    · exact nofun
    refine forall_mem_singleton.2 ?_
    obtain hnew | hsame | ⟨n, hn, hne⟩ := h
    · exact .inl ⟨name, not_mem_nil, by simp [Table.get_set, hnew]⟩
    · have hset : disk.files.scripts.set name content = disk.files.scripts := by
        refine Table.ext_get fun n => ?_
        rw [Table.get_set]
        split_ifs with heq
        · rw [heq, hsame]
        · rfl
      exact .inr (by rw [hset])
    · exact .inl ⟨n, not_mem_nil, by simpa [Table.get_set, mem_singleton.not.1 hn] using hne⟩
  | delete name =>
    rw [Call.writes]
    split_ifs
    · exact nofun
    refine forall_mem_singleton.2 (.inl ?_)
    obtain hindexed | ⟨n, hn, hne⟩ := h
    · exact ⟨name, not_mem_nil, by simp [Table.get_erase, Option.isSome_iff_ne_none.2 hindexed]⟩
    · exact ⟨n, not_mem_nil, by simpa [Table.get_erase, mem_singleton.not.1 hn] using hne⟩
  | rename old new =>
    rw [Call.writes]
    cases hold : disk.files.scripts.get old with
    | none => exact nofun
    | some content =>
      dsimp only
      by_cases hnew : (disk.files.scripts.get new).isSome
      · rw [if_pos hnew]
        exact nofun
      rw [if_neg hnew]
      have hne : old ≠ new := fun heq => hnew (heq ▸ hold ▸ rfl)
      -- The second write only moves the marker, so both leave the same names.
      have hstale : ∀ active, { disk with
          files := ⟨(disk.files.scripts.erase old).set new content, active⟩ }.Stale := by
        intro active
        obtain hindexed | hfree | ⟨n, hn, hdiffer⟩ := h
        · exact ⟨old, not_mem_nil, by
            simp [Table.get_set, Table.get_erase, hne, Option.isSome_iff_ne_none.2 hindexed]⟩
        · exact ⟨new, not_mem_nil, by simp [Table.get_set, hfree]⟩
        · obtain ⟨hn, hn'⟩ : n ≠ old ∧ n ≠ new := by simpa using hn
          exact ⟨n, not_mem_nil, by simpa [Table.get_set, Table.get_erase, hn, hn'] using hdiffer⟩
      refine forall_mem_cons.2 ⟨.inl (hstale _), ?_⟩
      split_ifs
      · exact forall_mem_singleton.2 (.inl (hstale _))
      · exact nofun
  | setActive name =>
    rw [Call.writes]
    split_ifs
    · exact nofun
    refine forall_mem_singleton.2 ?_
    obtain rfl | ⟨n, hn, hne⟩ := h
    · exact .inr rfl
    · exact .inl ⟨n, hn, hne⟩

lemma left_mem (fresh : Name → Id) (call : Call Name Content) (disk : Disk Name Content Id)
    (writes : ℕ) : call.left fresh disk writes ∈
      disk.files :: (call.writes fresh disk.files (disk.writeTxn fresh)).1 := by
  rw [Call.left, getD_eq_getElem?_getD]
  cases hget : (disk.files :: (call.writes fresh disk.files (disk.writeTxn fresh)).1)[writes]? with
  | none => exact mem_cons_self
  | some files => exact mem_of_getElem? hget

lemma Good.stopped (h : Good disk reports) {call : Call Name Content} {writes : ℕ}
    (hseen : (Event.stopped fresh call writes).Seen disk) :
    Good (disk.step (.stopped fresh call writes)) reports := by
  refine ⟨h.le, fun hstale => ?_, h.same⟩
  have hleft : (disk.step (.stopped fresh call writes)).Stale ∨
      call.left fresh disk writes = disk.files := by
    rw [Disk.step]
    obtain rfl | hnoticed := hseen
    · exact .inr rfl
    obtain heq | hmem := mem_cons.1 (left_mem fresh call disk writes)
    · exact .inr heq
    · exact hnoticed.writes _ hmem
  obtain hstale' | hsame := hleft
  · exact absurd hstale' hstale
  · rw [Disk.step, hsame] at hstale ⊢
    exact h.current hstale

/-- In a run that is stopped only where the next call sees it, two snapshots with the same state
number report the same scripts with the same contents. -/
theorem run_same_state (events : List (Event Name Content Id))
    (h : ∀ event earlier, event :: earlier <:+ events → event.Seen (run earlier).1) :
    ∀ r ∈ (run events).2, ∀ r' ∈ (run events).2, r.state = r'.state → r = r' := by
  suffices hgood : Good (run events).1 (run events).2 from hgood.same
  -- Over the run: what one event preserves, given the condition on that event.
  induction events with
  | nil => exact ⟨nofun, nofun, nofun⟩
  | cons event earlier ih =>
    have hearlier := ih fun event' earlier' hsuffix =>
      h event' earlier' (hsuffix.trans (suffix_cons _ _))
    cases event with
    | call fresh call => exact hearlier.finish call
    | stopped fresh call writes => exact hearlier.stopped (h _ _ suffix_rfl)
    | snapshot fresh => exact hearlier.snapshot

/-- The put of a new script is stopped between two pairs of snapshots. The second pair has a new
number, and its two reports are the same. -/
theorem run_same_state_noticed :
    let fresh : ℕ → ℕ := id
    let reports := (run [.snapshot fresh, .snapshot fresh, .stopped fresh (.put 2 20) 1,
      .snapshot fresh, .snapshot fresh, (.call fresh (.put 1 10) : Event ℕ ℕ ℕ)]).2
    reports.map Report.state = [2, 2, 1, 1] ∧
      ∀ r ∈ reports, ∀ r' ∈ reports, r.state = r'.state → r = r' := by
  intro fresh
  refine ⟨by decide +kernel, run_same_state _ fun event earlier hsuffix => ?_⟩
  simp only [suffix_cons_iff, cons.injEq, suffix_nil, reduceCtorEq, or_false] at hsuffix
  obtain ⟨rfl, rfl⟩ | ⟨rfl, rfl⟩ | ⟨rfl, rfl⟩ | ⟨rfl, rfl⟩ | ⟨rfl, rfl⟩ | ⟨rfl, rfl⟩ := hsuffix
  case inr.inr.inl => exact .inr (.inl (by decide +kernel))
  all_goals trivial

/-- A script is written again, and the index is not: the state number stays. -/
theorem run_stopped_put :
    let fresh : ℕ → ℕ := id
    let written : List (Event ℕ ℕ ℕ) := [.snapshot fresh, .call fresh (.put 1 10)]
    let later : List (Event ℕ ℕ ℕ) := .snapshot fresh :: .stopped fresh (.put 1 20) 1 :: written
    ∃ r ∈ (run later).2, ∃ r' ∈ (run later).2,
      r.state = r'.state ∧ r.contents.get 1 = some 20 ∧ r'.contents.get 1 = some 10 := by
  decide +kernel

/-! ## What is always there -/

lemma isSome_foldl_enter (names : List Name) (txn : Txn Name Id) (name : Name) :
    ((names.foldl (enter fresh) txn).entries.get name).isSome ↔
      (txn.entries.get name).isSome ∨ name ∈ names := by
  induction names generalizing txn with
  | nil => simp
  | cons n names ih =>
    rw [foldl_cons, ih, mem_cons, enter]
    split_ifs with hnone
    · rw [Table.get_set]
      split_ifs with heq <;> simp [heq]
    · have hsome : (txn.entries.get n).isSome := by simpa [Option.isSome_iff_ne_none] using hnone
      grind

lemma isSome_writeTxn (name : Name) :
    ((disk.writeTxn fresh).entries.get name).isSome ↔ name ∈ disk.files.scripts.keys := by
  rw [Disk.writeTxn, reconcile, isSome_foldl_enter, or_iff_right_of_imp]
  rw [← Table.mem_keys]
  intro hmem
  obtain ⟨entry, hentry, rfl⟩ := mem_map.1 hmem
  exact of_decide_eq_true (mem_filter.1 hentry).2

lemma writes_size_le {txn : Txn Name Id} {files : Files Name Content}
    (hnames : ∀ name, (txn.entries.get name).isSome ↔ name ∈ files.scripts.keys)
    (h : files.scripts.size ≤ maxScripts) (call : Call Name Content) :
    ∀ files' ∈ (call.writes fresh files txn).1, files'.scripts.size ≤ maxScripts := by
  cases call with
  | put name content =>
    rw [Call.writes]
    split_ifs with hfull
    · exact nofun
    refine forall_mem_singleton.2 ?_
    by_cases hname : name ∈ files.scripts.keys
    · refine (Table.size_le_length fun n hn => ?_).trans (files.scripts.length_keys.trans_le h)
      exact ((Table.mem_keys_set _ content).1 hn).elim (· ▸ hname) id
    · -- The index has an entry for every script.
      have hsize : files.scripts.size ≤ txn.entries.size :=
        txn.entries.length_keys ▸ Table.size_le_length fun n hn =>
          (Table.mem_keys _).2 ((hnames n).2 hn)
      have hroom : txn.entries.size < maxScripts := by
        by_contra hroom
        exact hfull ⟨by simpa using (hnames name).not.2 hname, Nat.le_of_not_lt hroom⟩
      refine (Table.size_le_length (l := name :: files.scripts.keys) fun n hn => ?_).trans ?_
      · exact mem_cons.2 ((Table.mem_keys_set _ content).1 hn)
      · simp only [length_cons, Table.length_keys]
        omega
  | delete name =>
    rw [Call.writes]
    split_ifs
    · exact nofun
    refine forall_mem_singleton.2 (le_trans ?_ h)
    exact length_filter_le _ _
  | rename old new =>
    rw [Call.writes]
    cases hold : files.scripts.get old with
    | none => exact nofun
    | some content =>
      have hmoved : ((files.scripts.erase old).set new content).size ≤ maxScripts := by
        -- The new name takes the place of the old one.
        refine (Table.size_le_length (l := files.scripts.keys.map fun n =>
          if n = old then new else n)
          fun n hn => mem_map.2 ?_).trans (by simpa using h)
        rcases (Table.mem_keys_set _ content).1 hn with rfl | hn
        · exact ⟨old, (Table.mem_keys _).2 (by simp [hold]), if_pos rfl⟩
        · rw [Table.mem_keys, Table.get_erase] at hn
          split_ifs at hn with hne
          · simp at hn
          · exact ⟨n, (Table.mem_keys _).2 hn, if_neg hne⟩
      dsimp only
      split_ifs <;> simp [hmoved]
  | setActive name =>
    rw [Call.writes]
    split_ifs
    · exact nofun
    · exact forall_mem_singleton.2 h

lemma files_step {P : Files Name Content → Prop} (h : P disk.files) {event : Event Name Content Id}
    (hcall : ∀ fresh call, event = .call fresh call →
      P ((Call.writes fresh disk.files (disk.writeTxn fresh) call).1.getLastD disk.files))
    (hstopped : ∀ fresh call writes, event = .stopped fresh call writes →
      ∀ files ∈ (Call.writes fresh disk.files (disk.writeTxn fresh) call).1, P files) :
    P (disk.step event).files := by
  cases event with
  | call fresh call =>
    rw [Disk.step, Call.finish, Disk.commit]
    split_ifs <;> exact hcall fresh call rfl
  | stopped fresh call writes =>
    change P (call.left fresh disk writes)
    rcases mem_cons.1 (left_mem fresh call disk writes) with heq | hmem
    · exact heq ▸ h
    · exact hstopped fresh call writes rfl _ hmem
  | snapshot fresh =>
    rw [Disk.step, Disk.snapshot, Disk.commit]
    split_ifs <;> exact h

/-- However the calls on a store are stopped, it never has more scripts than its limit. -/
theorem run_size_le (events : List (Event Name Content Id)) :
    (run events).1.files.scripts.size ≤ maxScripts := by
  induction events with
  | nil => exact Nat.zero_le _
  | cons event earlier ih =>
    refine files_step (P := fun files => files.scripts.size ≤ maxScripts) ih
      (fun fresh call _ => ?_)
      fun fresh call _ _ => writes_size_le isSome_writeTxn ih call
    rcases mem_cons.1 (getLastD_mem_cons ..) with heq | hmem
    · exact heq ▸ ih
    · exact writes_size_le isSome_writeTxn ih call _ hmem

/-! ## The active script -/

/-- The marker names a script. -/
def Files.Live (files : Files Name Content) : Prop :=
  ∀ name ∈ files.active, (files.scripts.get name).isSome

lemma Files.Live.writes {txn : Txn Name Id} {files : Files Name Content} (h : files.Live)
    (call : Call Name Content) : ((call.writes fresh files txn).1.getLastD files).Live := by
  cases call with
  | put name content =>
    rw [Call.writes]
    split_ifs
    · exact h
    · intro n hn
      have hsome := h n hn
      simp only [getLastD, getLast, Table.get_set]
      split_ifs <;> simp [hsome]
  | delete name =>
    rw [Call.writes]
    split_ifs with hkept
    · exact h
    · intro n hn
      have hne : n ≠ name := by
        rintro rfl
        exact hkept (.inl hn)
      simpa [getLastD, Table.get_erase, hne] using h n hn
  | rename old new =>
    rw [Call.writes]
    cases hold : files.scripts.get old with
    | none => exact h
    | some content =>
      dsimp only
      split_ifs with hnew hactive
      · exact h
      · rintro n ⟨⟩
        simp [Table.get_set]
      · intro n hn
        have hne : n ≠ old := by
          rintro rfl
          exact hactive hn
        have hsome := h n hn
        simp only [getLastD, getLast, Table.get_set, Table.get_erase, hne, if_false]
        split_ifs <;> simp [hsome]
  | setActive name =>
    rw [Call.writes]
    split_ifs with hname
    · exact h
    · rintro n rfl
      simpa [Option.isSome_iff_ne_none] using hname

/-- In every run that does not stop in the middle of a rename, the active script is there. -/
theorem run_active_script (events : List (Event Name Content Id))
    (h : ∀ fresh old new writes, .stopped fresh (.rename old new) writes ∉ events) :
    (run events).1.files.Live := by
  induction events with
  | nil => exact nofun
  | cons event earlier ih =>
    have hlive := ih fun fresh old new writes hmem =>
      h fresh old new writes (mem_cons_of_mem _ hmem)
    refine files_step hlive (fun fresh call _ => hlive.writes call) ?_
    rintro fresh call writes rfl files hfiles
    -- Only a rename writes twice.
    have hlast : files = (call.writes fresh (run earlier).1.files
        ((run earlier).1.writeTxn fresh)).1.getLastD (run earlier).1.files := by
      cases call with
      | rename old new => exact absurd mem_cons_self (h fresh old new writes)
      | put | delete | setActive =>
        rw [Call.writes] at hfiles ⊢
        split_ifs at hfiles ⊢
        · exact nomatch hfiles
        · exact mem_singleton.1 hfiles
    exact hlast ▸ hlive.writes call

/-- A script that is stored, activated and renamed, with no call cut short. -/
theorem run_active_script_renamed :
    (run [.call id (.rename 1 2), .call id (.setActive (some 1)),
      (.call id (.put 1 10) : Event ℕ ℕ ℕ)]).1.files.Live :=
  run_active_script _ fun _ _ _ _ => by simp

end Epistle.Managesieve
