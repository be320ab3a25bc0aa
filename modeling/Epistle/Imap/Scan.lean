import Epistle.Imap.Mailbox

/-!
# UIDs

A scan gives a UID to every message that has none: the next ones of the counter, in the order of the
ids. Each is in its sidecar before the counter is written. A scan that is stopped in between leaves
UIDs behind the counter, and the next one gives them again.

* `UidOp.uid_belongs_to_one`: in a run of such operations no two messages get the same UID, at
  the same time or one after the other.
-/

namespace Epistle.Imap

open Lib List Function Option

open UInt32

lemma toNat_succ {c : UInt32} (h : c.toNat + 1 < 2 ^ 32) : (c + 1).toNat = c.toNat + 1 := by
  rw [UInt32.toNat_add]
  exact Nat.mod_eq_of_lt h

namespace Directory

variable {ι : Type} [LinearOrder ι]

/-! ## One scan -/

def messageAt (dir : Directory ι) (id : ι) : MessageRef ι where
  uid := (dir.uids id).getD 0
  id := id
  size := ((dir.emls.get id).map (·.size)).getD 0
  flags := dir.readFlags id
  internalDate := ((dir.emls.get id).map (·.modified)).getD .unixEpoch
  internalZone := dir.readZone id
  modseq := dir.readModseq id

def unseen (dir : Directory ι) (ids : List ι) : ℕ := ids.countP fun id => (dir.uids id).isNone

/-- A scan of `ids` takes `s` to `t`: each of them has a UID then, that it had or that is new. -/
structure Scanned (s t : Scan ι) (ids : List ι) : Prop where
  /-- Only UIDs change. -/
  dir_eq : t.dir = { s.dir with uids := t.dir.uids }
  kept : ∀ {id u}, s.dir.uids id = some u → t.dir.uids id = some u
  others : ∀ {id}, id ∉ ids → t.dir.uids id = s.dir.uids id
  given : ∀ {id}, id ∈ ids → (t.dir.uids id).isSome
  messages_eq : t.messages = s.messages ++ ids.map t.dir.messageAt

/-- The new UIDs are the next ones of the counter, in the order of `ids`. -/
structure Numbered (s t : Scan ι) (ids : List ι) : Prop where
  counter_eq : t.counter.toNat = s.counter.toNat + s.dir.unseen ids
  fresh : ∀ {id u}, s.dir.uids id = none → t.dir.uids id = some u → s.counter < u ∧ u ≤ t.counter
  ascending : ids.Pairwise fun a b => ∀ u v, s.dir.uids a = none → s.dir.uids b = none →
    t.dir.uids a = some u → t.dir.uids b = some v → u < v

variable {s t : Scan ι} {id : ι} {u : UInt32} {dir dir' : Directory ι} {ids : List ι}

lemma next_of_some (h : s.dir.uids id = some u) :
    s.next id = ⟨s.dir, s.counter, s.messages ++ [s.dir.messageAt id]⟩ := by
  simp [Scan.next, assignOrRead, messageAt, h]

lemma next_of_none (h : s.dir.uids id = none) :
    s.next id =
      let dir := { s.dir with uids := update s.dir.uids id (some (s.counter + 1)) }
      ⟨dir, s.counter + 1, s.messages ++ [dir.messageAt id]⟩ := by
  simp [Scan.next, assignOrRead, messageAt, h]

lemma messageAt_congr (hdir : dir' = { dir with uids := dir'.uids })
    (huid : dir'.uids id = dir.uids id) : dir'.messageAt id = dir.messageAt id := by
  rw [hdir]
  simp only [messageAt, readFlags, readZone, readModseq, huid]

lemma unseen_congr (h : ∀ id ∈ ids, dir'.uids id = dir.uids id) :
    dir'.unseen ids = dir.unseen ids :=
  countP_congr fun id hid => by rw [h id hid]

lemma scanned_next (s : Scan ι) (id : ι) : Scanned s (s.next id) [id] := by
  cases h : s.dir.uids id with
  | some u =>
    rw [next_of_some h]
    refine ⟨rfl, fun h => h, fun _ => rfl, ?_, rfl⟩
    simp [h]
  | none =>
    rw [next_of_none h]
    refine ⟨rfl, fun {id' u} hu => ?_, fun {id'} hid' => ?_, ?_, rfl⟩
    · have hne : id' ≠ id := by
        rintro rfl
        simp [h] at hu
      exact (update_of_ne hne ..).trans hu
    · exact update_of_ne (by simpa using hid') ..
    · simp

lemma Scanned.append {r : Scan ι} {ids' : List ι} (h : Scanned s t ids) (h' : Scanned t r ids') :
    Scanned s r (ids ++ ids') := by
  refine ⟨?_, fun hu => h'.kept (h.kept hu), fun {id} hid => ?_, fun {id} hid => ?_, ?_⟩
  · rw [h'.dir_eq, h.dir_eq]
  · obtain ⟨hid, hid'⟩ := not_or.1 (List.mem_append.not.1 hid)
    rw [h'.others hid', h.others hid]
  · obtain hid | hid := mem_append.1 hid
    · obtain ⟨u, hu⟩ := isSome_iff_exists.1 (h.given hid)
      simp [h'.kept hu]
    · exact h'.given hid
  · have hmessages : ids.map r.dir.messageAt = ids.map t.dir.messageAt := by
      refine map_congr_left fun id hid => messageAt_congr h'.dir_eq ?_
      obtain ⟨u, hu⟩ := isSome_iff_exists.1 (h.given hid)
      rw [hu, h'.kept hu]
    rw [h'.messages_eq, h.messages_eq, append_assoc, map_append, hmessages]

lemma scanned_foldl (s : Scan ι) (ids : List ι) : Scanned s (ids.foldl Scan.next s) ids := by
  induction ids generalizing s with
  | nil => exact ⟨rfl, fun h => h, fun _ => rfl, by simp, by simp⟩
  | cons id ids ih => exact (scanned_next s id).append (ih (s.next id))

lemma Numbered.cons_of_some (h : s.dir.uids id = some u) (ht : Numbered (s.next id) t ids) :
    Numbered s t (id :: ids) := by
  rw [next_of_some h] at ht
  refine ⟨?_, ht.fresh, .cons ?_ ht.ascending⟩
  · rw [ht.counter_eq, unseen, unseen, countP_cons_of_neg (by simp [h])]
  · intro b _ u v hnone
    simp [h] at hnone

lemma Numbered.cons_of_none (hid : id ∉ ids) (h : s.dir.uids id = none)
    (hroom : s.counter.toNat + 1 < 2 ^ 32) (hscan : Scanned (s.next id) t ids)
    (ht : Numbered (s.next id) t ids) : Numbered s t (id :: ids) := by
  rw [next_of_none h] at ht hscan
  set dir : Directory ι :=
    { s.dir with uids := update s.dir.uids id (some (s.counter + 1)) }
  have hself : t.dir.uids id = some (s.counter + 1) := hscan.kept (update_self ..)
  have hne : ∀ {id'}, id' ≠ id → dir.uids id' = s.dir.uids id' := fun hne =>
    update_of_ne hne ..
  have hmem : ∀ {id'}, id' ∈ ids → dir.uids id' = s.dir.uids id' := fun hmem =>
    hne fun heq => hid (heq ▸ hmem)
  have hsucc := toNat_succ hroom
  have hcounter : t.counter.toNat = s.counter.toNat + 1 + s.dir.unseen ids := by
    rw [ht.counter_eq, ← hsucc, unseen_congr fun id' => hmem]
  refine ⟨?_, ?_, .cons ?_ ?_⟩
  · rw [hcounter, unseen, unseen, countP_cons_of_pos (by simp [h])]
    omega
  · intro id' u hnone hu
    simp only [lt_iff_toNat_lt, le_iff_toNat_le]
    by_cases heq : id' = id
    · -- The UID given here is the next one.
      obtain rfl : s.counter + 1 = u := by
        rw [heq, hself] at hu
        exact some.inj hu
      omega
    · have hfresh := ht.fresh ((hne heq).trans hnone) hu
      simp only [lt_iff_toNat_lt, le_iff_toNat_le] at hfresh
      omega
  · intro b hb u v _ hnone hu hv
    obtain rfl : s.counter + 1 = u := by
      rw [hself] at hu
      exact some.inj hu
    exact (ht.fresh ((hmem hb).trans hnone) hv).1
  · refine ht.ascending.imp_of_mem fun {a b} ha hb hab u v hnone hnone' => ?_
    exact hab u v ((hmem ha).trans hnone) ((hmem hb).trans hnone')

lemma numbered_foldl (hids : ids.Nodup) (hroom : s.counter.toNat + s.dir.unseen ids < 2 ^ 32) :
    Numbered s (ids.foldl Scan.next s) ids := by
  induction ids generalizing s with
  | nil =>
    refine ⟨rfl, fun {id u} hnone hu => ?_, .nil⟩
    rw [foldl_nil, hnone] at hu
    exact absurd hu (by simp)
  | cons id ids ih =>
    obtain ⟨hid, hids⟩ := nodup_cons.1 hids
    rw [foldl_cons]
    cases h : s.dir.uids id with
    | some u =>
      refine .cons_of_some h (ih hids ?_)
      rw [unseen, countP_cons_of_neg (by simp [h])] at hroom
      rw [next_of_some h]
      exact hroom
    | none =>
      rw [unseen, countP_cons_of_pos (by simp [h])] at hroom
      have hroom' : s.counter.toNat + 1 < 2 ^ 32 := by omega
      refine .cons_of_none hid h hroom' (scanned_foldl _ ids) (ih hids ?_)
      have hcongr : (s.next id).dir.unseen ids = s.dir.unseen ids := by
        refine unseen_congr fun id' hid' => ?_
        rw [next_of_none h]
        exact update_of_ne (fun heq : id' = id => hid (heq ▸ hid')) ..
      have hcounter : (s.next id).counter.toNat = s.counter.toNat + 1 := by
        rw [next_of_none h]
        exact toNat_succ hroom'
      rw [hcongr, hcounter]
      change s.counter.toNat + (s.dir.unseen ids + 1) < 2 ^ 32 at hroom
      omega

def UidsLeft (dir : Directory ι) : Prop :=
  dir.readUidCounter.toNat + dir.unseen dir.ids < 2 ^ 32

instance (dir : Directory ι) : Decidable dir.UidsLeft := inferInstanceAs (Decidable (_ < _))

lemma ids_nodup (dir : Directory ι) : dir.ids.Nodup := dir.emls.keys_nodup

lemma scanned_scanning (dir : Directory ι) (ids : List ι) :
    Scanned ⟨dir, dir.readUidCounter, []⟩ (dir.scanning ids) ids :=
  scanned_foldl _ ids

lemma numbered_scanning (h : dir.UidsLeft) :
    Numbered ⟨dir, dir.readUidCounter, []⟩ (dir.scanning dir.ids) dir.ids :=
  numbered_foldl dir.ids_nodup h

lemma scanMailbox_snd (dir : Directory ι) :
    dir.scanMailbox.2 =
      if dir.readUidCounter < (dir.scanning dir.ids).counter then
        { (dir.scanning dir.ids).dir with uidCounter := some (dir.scanning dir.ids).counter }
      else (dir.scanning dir.ids).dir := rfl

lemma scanMailbox_uids (dir : Directory ι) :
    dir.scanMailbox.2.uids = (dir.scanning dir.ids).dir.uids := by
  rw [scanMailbox_snd]
  split_ifs <;> rfl

lemma readUidCounter_scanMailbox (h : dir.UidsLeft) :
    dir.scanMailbox.2.readUidCounter = (dir.scanning dir.ids).counter := by
  have hcounter := (numbered_scanning h).counter_eq
  change (dir.scanning dir.ids).counter.toNat = dir.readUidCounter.toNat + _ at hcounter
  rw [scanMailbox_snd]
  split_ifs with hlt
  · rfl
  · -- No UID was given.
    rw [lt_iff_toNat_lt] at hlt
    have heq : dir.readUidCounter = (dir.scanning dir.ids).counter :=
      UInt32.toNat_inj.1 (by omega)
    rw [← heq]
    change (dir.scanning dir.ids).dir.readUidCounter = _
    rw [(dir.scanned_scanning dir.ids).dir_eq]
    rfl

lemma le_readUidCounter_scanMailbox (h : dir.UidsLeft) :
    dir.readUidCounter ≤ dir.scanMailbox.2.readUidCounter := by
  have hcounter := (numbered_scanning h).counter_eq
  rw [readUidCounter_scanMailbox h, le_iff_toNat_le, hcounter]
  exact Nat.le_add_right ..

/-! ## Who has a UID -/

/-- A UID that was given to one message: the counter is not behind it, and no other message has
it. -/
def Owned (dir : Directory ι) (id : ι) (u : UInt32) : Prop :=
  u ≤ dir.readUidCounter ∧ ∀ id', dir.uids id' = some u → id' = id

/-- No two messages have the same UID, nor will they. -/
def Unique (dir : Directory ι) : Prop := ∀ id u, dir.uids id = some u → dir.Owned id u

lemma Owned.of_uids (h : dir.Owned id u) (hcounter : dir'.uidCounter = dir.uidCounter)
    (huids : ∀ id' u, dir'.uids id' = some u → dir.uids id' = some u) : dir'.Owned id u := by
  refine ⟨?_, fun id' hu => h.2 id' (huids id' u hu)⟩
  rw [readUidCounter, hcounter]
  exact h.1

lemma Unique.of_uids (h : dir.Unique) (hcounter : dir'.uidCounter = dir.uidCounter)
    (huids : ∀ id' u, dir'.uids id' = some u → dir.uids id' = some u) : dir'.Unique :=
  fun id u hu => (h id u (huids id u hu)).of_uids hcounter huids

lemma Owned.scanMailbox (hleft : dir.UidsLeft) (h : dir.Owned id u) :
    dir.scanMailbox.2.Owned id u := by
  refine ⟨UInt32.le_trans h.1 (le_readUidCounter_scanMailbox hleft), fun id' hu => ?_⟩
  rw [scanMailbox_uids] at hu
  cases hold : dir.uids id' with
  | none =>
    have hfresh := ((numbered_scanning hleft).fresh hold hu).1
    exact absurd h.1 (UInt32.not_le.2 hfresh)
  | some v =>
    have hkept := (dir.scanned_scanning dir.ids).kept hold
    rw [hu] at hkept
    exact h.2 id' (hold.trans hkept.symm)

lemma Unique.scanMailbox (hleft : dir.UidsLeft) (h : dir.Unique) : dir.scanMailbox.2.Unique := by
  have hscan := dir.scanned_scanning dir.ids
  have hnum := numbered_scanning hleft
  intro id u hu
  rw [scanMailbox_uids] at hu
  cases hold : dir.uids id with
  | some v =>
    obtain rfl : v = u := some.inj ((hscan.kept hold).symm.trans hu)
    exact (h id v hold).scanMailbox hleft
  | none =>
    obtain ⟨hlt, hle⟩ := hnum.fresh hold hu
    refine ⟨by rwa [readUidCounter_scanMailbox hleft], fun id' hu' => ?_⟩
    rw [scanMailbox_uids] at hu'
    cases hold' : dir.uids id' with
    | some v =>
      obtain rfl : v = u := some.inj ((hscan.kept hold').symm.trans hu')
      exact absurd (h id' v hold').1 (UInt32.not_le.2 hlt)
    | none =>
      have hin : ∀ {id v}, dir.uids id = none → (dir.scanning dir.ids).dir.uids id = some v →
          id ∈ dir.ids := by
        intro id v hold hv
        by_contra hid
        rw [hscan.others hid, hold] at hv
        exact absurd hv (by simp)
      -- Both are new, and new UIDs ascend.
      have hids := dir.emls.keys_sorted
      obtain hlt | heq | hlt := lt_trichotomy id' id
      · have hne := Table.rel_of_lt_of_pairwise hids hnum.ascending (hin hold' hu') (hin hold hu)
          hlt u u hold' hold hu' hu
        exact absurd hne (UInt32.lt_irrefl u)
      · exact heq
      · have hne := Table.rel_of_lt_of_pairwise hids hnum.ascending (hin hold hu) (hin hold' hu')
          hlt u u hold hold' hu hu'
        exact absurd hne (UInt32.lt_irrefl u)

end Directory

/-! ## Runs -/

/-- What happens to the UIDs of a mailbox: messages arrive and are removed, and it is scanned. -/
inductive UidOp (ι : Type)
  | deliver (id : ι) (eml : Eml) (tokens : List (List Char))
  | append (id : ι) (eml : Eml) (zone : Option Int16) (flags : List Flag)
  | removeFiles (id : ι)
  | pop3Remove (ids : List ι)
  | scan
  | scanStopped (messages : ℕ)

open Directory

namespace UidOp

variable {ι : Type} [LinearOrder ι]

def step (dir : Directory ι) : UidOp ι → Directory ι
  | deliver id eml tokens => dir.deliverToAccount id eml tokens
  | append id eml zone flags => dir.appendDated id eml zone flags
  | removeFiles id => dir.removeFiles id
  | pop3Remove ids => dir.pop3Remove ids
  | scan => dir.scanMailbox.2
  | scanStopped messages => dir.scanStopped messages

/-- Some operations, one after the other. -/
def run (dir : Directory ι) (ops : List (UidOp ι)) : Directory ι := ops.foldl step dir

def Whole (dir : Directory ι) : UidOp ι → Prop
  | scan => dir.UidsLeft
  | scanStopped messages => ∀ id ∈ dir.ids.take messages, (dir.uids id).isSome
  | _ => True

instance (dir : Directory ι) (op : UidOp ι) : Decidable (op.Whole dir) :=
  match op with
  | scan => inferInstanceAs (Decidable dir.UidsLeft)
  | scanStopped messages =>
      inferInstanceAs (Decidable (∀ id ∈ dir.ids.take messages, (dir.uids id).isSome))
  | deliver _ _ _ | append _ _ _ _ | removeFiles _ | pop3Remove _ =>
    inferInstanceAs (Decidable True)

def WholeRun (dir : Directory ι) : List (UidOp ι) → Prop
  | [] => True
  | op :: ops => op.Whole dir ∧ WholeRun (step dir op) ops

instance decidableWholeRun (dir : Directory ι) (ops : List (UidOp ι)) :
    Decidable (WholeRun dir ops) :=
  match ops with
  | [] => inferInstanceAs (Decidable True)
  | op :: ops =>
      have := decidableWholeRun (step dir op) ops
      inferInstanceAs (Decidable (op.Whole dir ∧ WholeRun (step dir op) ops))

variable {dir : Directory ι} {op : UidOp ι}

lemma step_cases (h : op.Whole dir) :
    ((step dir op).uidCounter = dir.uidCounter ∧
      ∀ id u, (step dir op).uids id = some u → dir.uids id = some u) ∨
    (dir.UidsLeft ∧ step dir op = dir.scanMailbox.2) := by
  cases op with
  | deliver id eml tokens =>
    refine .inl ?_
    simp only [step, deliverToAccount]
    split_ifs <;> exact ⟨rfl, fun _ _ h => h⟩
  | append id eml zone flags =>
    refine .inl ?_
    simp only [step, appendDated]
    split_ifs <;> exact ⟨rfl, fun _ _ h => h⟩
  | removeFiles id =>
    refine .inl ⟨rfl, fun id' u hu => ?_⟩
    change update dir.uids id none id' = some u at hu
    have hne : id' ≠ id := by
      rintro rfl
      simp at hu
    rwa [update_of_ne hne] at hu
  | pop3Remove ids => exact .inl ⟨rfl, fun _ _ h => h⟩
  | scan => exact .inr ⟨h, rfl⟩
  | scanStopped messages =>
    -- Every message it got to has a UID, so it gives none.
    have hscan := dir.scanned_scanning (dir.ids.take messages)
    refine .inl ⟨by rw [step, Directory.scanStopped, hscan.dir_eq], fun id u hu => ?_⟩
    by_cases hid : id ∈ dir.ids.take messages
    · obtain ⟨v, hv⟩ := isSome_iff_exists.1 (h id hid)
      rw [← hu]
      exact hv.trans (hscan.kept hv).symm
    · exact (hscan.others hid).symm.trans hu

lemma step_owned (hop : op.Whole dir) {id : ι} {u : UInt32} (h : dir.Owned id u) :
    (step dir op).Owned id u := by
  obtain ⟨hcounter, huids⟩ | ⟨hleft, hstep⟩ := step_cases hop
  · exact h.of_uids hcounter huids
  · rw [hstep]
    exact h.scanMailbox hleft

lemma step_unique (hop : op.Whole dir) (h : dir.Unique) : (step dir op).Unique := by
  obtain ⟨hcounter, huids⟩ | ⟨hleft, hstep⟩ := step_cases hop
  · exact h.of_uids hcounter huids
  · rw [hstep]
    exact h.scanMailbox hleft

lemma run_preserves {P : Directory ι → Prop}
    (hstep : ∀ {dir op}, Whole dir op → P dir → P (step dir op)) {ops : List (UidOp ι)}
    (hrun : WholeRun dir ops) (h : P dir) : P (run dir ops) := by
  induction ops generalizing dir with
  | nil => exact h
  | cons op ops ih => exact ih hrun.2 (hstep hrun.1 h)

lemma wholeRun_append {ops later : List (UidOp ι)} :
    WholeRun dir (ops ++ later) ↔ WholeRun dir ops ∧ WholeRun (run dir ops) later := by
  induction ops generalizing dir with
  | nil => simp [WholeRun, run]
  | cons op ops ih =>
    rw [cons_append, WholeRun, WholeRun, ih, and_assoc]
    rfl

lemma run_append (dir : Directory ι) (ops later : List (UidOp ι)) :
    run dir (ops ++ later) = run (run dir ops) later := foldl_append ..

/-- Messages arrive and are removed, and the mailbox is scanned, with no scan stopped between the
first UID that it gives and the counter. Then a UID that a message had at some time belongs to no
other message, at that time or later. -/
theorem uid_belongs_to_one (ops later : List (UidOp ι))
    (hrun : WholeRun empty (ops ++ later)) {id id' : ι} {u : UInt32}
    (h : (run empty ops).uids id = some u)
    (h' : (run empty (ops ++ later)).uids id' = some u) : id' = id := by
  obtain ⟨hops, hlater⟩ := wholeRun_append.1 hrun
  have hunique : (run empty ops).Unique :=
    run_preserves step_unique hops fun id u hu => absurd hu (by simp [empty])
  have howned : (run empty (ops ++ later)).Owned id u := by
    rw [run_append]
    exact run_preserves (P := (·.Owned id u)) (fun hop h => step_owned hop h) hlater
      (hunique id u h)
  exact howned.2 id' h'

/-- Three messages: two are scanned, the first is removed, and the third is scanned. -/
theorem uid_belongs_to_one_removed :
    (run empty
      [deliver 1 ⟨10, .unixEpoch⟩ [], append 2 ⟨20, .unixEpoch⟩ none [.seen], scan]).uids 1
        = some 1 ∧
    (run empty
      ([deliver 1 ⟨10, .unixEpoch⟩ [], append 2 ⟨20, .unixEpoch⟩ none [.seen], scan] ++
        [removeFiles 1, scanStopped 1, deliver 3 ⟨30, .unixEpoch⟩ [], scan])).uids 3 ≠ some 1 :=
  ⟨by decide +kernel, fun h =>
    absurd (@uid_belongs_to_one ℕ _
      [deliver 1 ⟨10, .unixEpoch⟩ [], append 2 ⟨20, .unixEpoch⟩ none [.seen], scan]
      [removeFiles 1, scanStopped 1, deliver 3 ⟨30, .unixEpoch⟩ [], scan] (by decide +kernel)
      1 3 1 (by decide +kernel) h) (by decide)⟩

/-- A scan is stopped between the UID it gives to the first message and the counter. The next one
gives the same UID to the second message. -/
theorem stopped_scan_gives_uid_twice :
    (run empty [deliver 1 ⟨10, .unixEpoch⟩ [], scanStopped 1,
        deliver 2 ⟨20, .unixEpoch⟩ [], scan]).uids 1 = some 1 ∧
      (run empty [deliver 1 ⟨10, .unixEpoch⟩ [], scanStopped 1,
        deliver (2 : ℕ) ⟨20, .unixEpoch⟩ [], scan]).uids 2 = some 1 := by
  decide +kernel

end UidOp

end Epistle.Imap
