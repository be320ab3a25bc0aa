import Epistle.Imap.Scan
import Mathlib.Data.List.Chain
import Mathlib.Data.List.Sort

/-!
# The order in which messages are seen

A writer allocates the id of its message first and publishes the file later, so that files do not
appear in the order of their ids. The sequence numbers of a snapshot follow the ids, and UIDs are
given in the order in which opens find the files (`imap/scan`).

* `Arrival.ordered_iff_inOrder`: when the snapshots of a run are ordered.
-/

namespace Epistle.Imap

open Lib List Option

def numbers {ι : Type} (messages : List (MessageRef ι)) : List (ι × UInt32) :=
  messages.map fun message => (message.id, message.uid)

lemma numbers_of_load {ι : Type} {uuid : UuidText ι} {messages : List (MessageRef ι)}
    {generation asked : Index.Generation}
    {loaded : List (MessageRef ι)}
    (hload : Index.load uuid (Index.write uuid generation messages) asked = some loaded) :
    generation = asked ∧ numbers loaded = numbers messages := by
  rw [Index.load_write] at hload
  split_ifs at hload with hasked
  refine ⟨hasked.1, ?_⟩
  have hread := Fallible.forall₂_of_mapM (filter_eq_some_iff.1 hload).1
  clear hload
  induction hread with
  | nil => rfl
  | cons hmessage _ ih =>
    obtain ⟨flags, -, rfl⟩ := map_eq_some_iff.1 hmessage
    exact congrArg (_ :: ·) ih

namespace Directory

variable {ι : Type} [LinearOrder ι] {uuid : UuidText ι} {dir dir' : Directory ι}
  {messages : List (MessageRef ι)} {snapshot : Snapshot ι} {id : ι}

/-- Some messages are those that have a UID, in the order of their ids. -/
structure Lists (dir : Directory ι) (numbers : List (ι × UInt32)) : Prop where
  sorted : (numbers.map Prod.fst).Pairwise (· < ·)
  mem_iff : ∀ {id u}, (id, u) ∈ numbers ↔ dir.uids id = some u

/-- The files of a mailbox as messages arrive: the index lists every message that has a UID. -/
structure Valid (uuid : UuidText ι) (dir : Directory ι) : Prop where
  unique : dir.Unique
  seen_mem : ∀ {id u}, dir.uids id = some u → id ∈ dir.ids
  index : ∀ text ∈ dir.index, ∃ generation messages,
    text = Index.write uuid generation messages ∧ generation.2 = messages.length ∧
      dir.Lists (numbers messages)

/-- An open finds every message, and gives UIDs as a scan does. -/
structure Opened (uuid : UuidText ι) (dir : Directory ι) (snapshot : Snapshot ι)
    (dir' : Directory ι) : Prop where
  ids_eq : dir'.ids = dir.ids
  uids_eq : dir'.uids = (dir.scanning dir.ids).dir.uids
  found : snapshot.messages.map (·.id) = dir.ids
  lists : dir'.Lists (numbers snapshot.messages)
  valid : dir'.Valid uuid

lemma Lists.map_fst_subset (h : dir.Lists (numbers messages)) (hv : dir.Valid uuid) :
    messages.map (·.id) ⊆ dir.ids := by
  rintro id hid
  obtain ⟨message, hmessage, rfl⟩ := List.mem_map.1 hid
  exact hv.seen_mem (h.mem_iff.1 (List.mem_map_of_mem hmessage))

lemma Lists.ids_sorted (h : dir.Lists (numbers messages)) :
    (messages.map (·.id)).Pairwise (· < ·) := by
  have hsorted := h.sorted
  rwa [numbers, List.map_map] at hsorted

lemma Lists.mem_ids (h : dir.Lists (numbers messages)) :
    id ∈ messages.map (·.id) ↔ (dir.uids id).isSome := by
  rw [isSome_iff_exists]
  constructor
  · intro hid
    obtain ⟨message, hmessage, rfl⟩ := List.mem_map.1 hid
    exact ⟨message.uid, h.mem_iff.1 (List.mem_map_of_mem hmessage)⟩
  · rintro ⟨u, hu⟩
    obtain ⟨message, hmessage, heq⟩ := List.mem_map.1 (h.mem_iff.2 hu)
    exact List.mem_map.2 ⟨message, hmessage, congrArg Prod.fst heq⟩

lemma Lists.ids_eq (h : dir.Lists (numbers messages)) (hv : dir.Valid uuid)
    (hlength : messages.length = dir.emls.size) : messages.map (·.id) = dir.ids := by
  have hnodup := h.ids_sorted.imp fun h => h.ne
  have hsublist : (messages.map (·.id)).Sublist dir.ids :=
    sublist_of_subperm_of_pairwise (subperm_of_subset hnodup (h.map_fst_subset hv))
      h.ids_sorted dir.emls.keys_sorted
  refine hsublist.eq_of_length ?_
  rw [length_map, hlength, ids, Table.length_keys]

lemma scanMailbox_emls (dir : Directory ι) : dir.scanMailbox.2.emls = dir.emls := by
  have hdir := congrArg Directory.emls (dir.scanned_scanning dir.ids).dir_eq
  rw [scanMailbox_snd]
  split_ifs <;> exact hdir

lemma scanning_uids (h : ∀ id ∈ dir.ids, (dir.uids id).isSome) :
    (dir.scanning dir.ids).dir.uids = dir.uids := by
  have hscan := dir.scanned_scanning dir.ids
  funext id
  by_cases hid : id ∈ dir.ids
  · obtain ⟨u, hu⟩ := isSome_iff_exists.1 (h id hid)
    rw [hu]
    exact hscan.kept hu
  · exact hscan.others hid

lemma lists_scanning (hv : dir.Valid uuid) :
    (dir.scanning dir.ids).dir.Lists (numbers dir.scanMailbox.1) := by
  have hscan := dir.scanned_scanning dir.ids
  have hnumbers : numbers dir.scanMailbox.1 = dir.ids.map fun id =>
      (id, ((dir.scanning dir.ids).dir.uids id).getD 0) := by
    change numbers (dir.scanning dir.ids).messages = _
    rw [hscan.messages_eq, numbers, nil_append, List.map_map]
    rfl
  rw [hnumbers]
  constructor
  · rw [List.map_map]
    exact (List.map_id dir.ids).symm ▸ dir.emls.keys_sorted
  · intro id u
    simp only [List.mem_map, Prod.mk.injEq]
    constructor
    · rintro ⟨id, hid, rfl, rfl⟩
      obtain ⟨u, hu⟩ := isSome_iff_exists.1 (hscan.given hid)
      simp [hu]
    · intro hu
      refine ⟨id, ?_, rfl, by simp [hu]⟩
      by_contra hid
      rw [hscan.others hid] at hu
      exact hid (hv.seen_mem hu)

lemma openAt_opened (hv : dir.Valid uuid) (hleft : dir.UidsLeft) :
    Opened uuid dir (Snapshot.openAt uuid dir).1 (Snapshot.openAt uuid dir).2 := by
  cases hload : dir.index.bind (Index.load uuid · dir.currentGeneration) with
  | some loaded =>
    simp only [Snapshot.openAt, hload]
    obtain ⟨text, htext, hload⟩ := bind_eq_some_iff.1 hload
    obtain ⟨generation, messages, rfl, hcount, hlists⟩ := hv.index text htext
    obtain ⟨rfl, hnumbers⟩ := numbers_of_load hload
    rw [← hnumbers] at hlists
    have hlength : loaded.length = dir.emls.size := by
      have h := congrArg List.length hnumbers
      rw [numbers, numbers, length_map, length_map] at h
      exact h.trans hcount.symm
    have hids := hlists.ids_eq hv hlength
    refine ⟨rfl, ?_, hids, hlists, hv⟩
    refine (scanning_uids fun id hid => ?_).symm
    exact hlists.mem_ids.1 (hids ▸ hid)
  | none =>
    simp only [Snapshot.openAt, hload]
    have hids : dir.scanMailbox.2.ids = dir.ids := congrArg Table.keys dir.scanMailbox_emls
    have hlists := lists_scanning hv
    have hlists' : dir.scanMailbox.2.Lists (numbers dir.scanMailbox.1) :=
      ⟨hlists.sorted, by rw [scanMailbox_uids]; exact hlists.mem_iff⟩
    have hfound : dir.scanMailbox.1.map (·.id) = dir.ids := by
      change (dir.scanning dir.ids).messages.map (·.id) = _
      rw [(dir.scanned_scanning dir.ids).messages_eq, nil_append, List.map_map]
      exact List.map_id dir.ids
    refine ⟨hids, dir.scanMailbox_uids, hfound, ⟨hlists'.sorted, hlists'.mem_iff⟩, ?_⟩
    refine ⟨(hv.unique.scanMailbox hleft).of_uids rfl fun _ _ h => h, fun {id u} hu => ?_, ?_⟩
    · change id ∈ dir.scanMailbox.2.ids
      rw [hids, ← hfound]
      exact hlists'.mem_ids.2 (isSome_iff_exists.2 ⟨u, hu⟩)
    · rintro text ⟨⟩
      refine ⟨_, _, rfl, ?_, hlists'.sorted, hlists'.mem_iff⟩
      have h := congrArg List.length hfound
      rw [length_map, ids, Table.length_keys] at h
      exact h.symm

/-! ## The order of UIDs -/

def Ascending (dir : Directory ι) : Prop :=
  ∀ a b u v, a < b → dir.uids a = some u → dir.uids b = some v → u < v

def Settled (dir : Directory ι) : Prop :=
  ∀ a ∈ dir.ids, ∀ b v, a < b → dir.uids b = some v → (dir.uids a).isSome

lemma Opened.isSome_uids (h : Opened uuid dir snapshot dir') (hid : id ∈ dir.ids) :
    (dir'.uids id).isSome := by
  rw [h.uids_eq]
  exact (dir.scanned_scanning dir.ids).given hid

lemma Opened.settled (h : Opened uuid dir snapshot dir') : dir'.Settled :=
  fun _ ha _ _ _ _ => h.isSome_uids (h.ids_eq ▸ ha)

lemma Opened.ascending (h : Opened uuid dir snapshot dir') (hv : dir.Valid uuid)
    (hleft : dir.UidsLeft) (hasc : dir.Ascending) (hsettled : dir.Settled) : dir'.Ascending := by
  intro a b u v hab hu hv'
  have ha := h.ids_eq ▸ h.valid.seen_mem hu
  have hb := h.ids_eq ▸ h.valid.seen_mem hv'
  rw [h.uids_eq] at hu hv'
  have hscan := dir.scanned_scanning dir.ids
  have hnum := numbered_scanning hleft
  cases hold : dir.uids a with
  | some w =>
    obtain rfl : w = u := some.inj ((hscan.kept hold).symm.trans hu)
    cases hold' : dir.uids b with
    | some w' =>
      obtain rfl : w' = v := some.inj ((hscan.kept hold').symm.trans hv')
      exact hasc a b w w' hab hold hold'
    | none => exact UInt32.lt_of_le_of_lt (hv.unique a w hold).1 (hnum.fresh hold' hv').1
  | none =>
    cases hold' : dir.uids b with
    | some w' => simpa [hold] using hsettled a ha b w' hab hold'
    | none =>
      exact Table.rel_of_lt_of_pairwise dir.emls.keys_sorted hnum.ascending ha hb hab u v hold
        hold' hu hv'

lemma Lists.uids_pairwise (h : dir.Lists (numbers messages)) (hasc : dir.Ascending) :
    messages.Pairwise (·.uid < ·.uid) := by
  refine (pairwise_map.1 h.ids_sorted).imp_of_mem fun {a b} ha hb hab => ?_
  exact hasc a.id b.id a.uid b.uid hab (h.mem_iff.1 (List.mem_map_of_mem ha))
    (h.mem_iff.1 (List.mem_map_of_mem hb))

lemma Opened.isPrefix (h : Opened uuid dir snapshot dir') (hv : dir.Valid uuid)
    (hsettled : dir.Settled) (hlists : dir.Lists (numbers messages)) :
    messages.map (·.id) <+: snapshot.messages.map (·.id) := by
  rw [h.found]
  refine Table.isPrefix_of_lower hlists.ids_sorted dir.emls.keys_sorted
    (hlists.map_fst_subset hv) fun a ha b hb hab => ?_
  obtain ⟨v, hv'⟩ := isSome_iff_exists.1 (hlists.mem_ids.1 hb)
  exact hlists.mem_ids.2 (hsettled a ha b v hab hv')

lemma Opened.not_pairwise (h : Opened uuid dir snapshot dir') (hv : dir.Valid uuid)
    (hleft : dir.UidsLeft) (hsettled : ¬ dir.Settled) :
    ¬ snapshot.messages.Pairwise (·.uid < ·.uid) := by
  intro hpairwise
  simp only [Settled, not_forall, not_isSome_iff_eq_none] at hsettled
  obtain ⟨a, ha, b, v, hab, hv', hnone⟩ := hsettled
  have hkept : dir'.uids b = some v := by
    rw [h.uids_eq]
    exact (dir.scanned_scanning dir.ids).kept hv'
  obtain ⟨u, hu⟩ := isSome_iff_exists.1 (h.isSome_uids ha)
  have hfresh : dir.readUidCounter < u :=
    ((numbered_scanning hleft).fresh hnone (h.uids_eq ▸ hu)).1
  have hasc : (snapshot.messages.map (·.id)).Pairwise fun a b =>
      ∀ u v, dir'.uids a = some u → dir'.uids b = some v → u < v := by
    refine pairwise_map.2 (hpairwise.imp_of_mem fun {m n} hm hn hmn u v hu hv => ?_)
    rw [h.lists.mem_iff.1 (List.mem_map_of_mem hm)] at hu
    rw [h.lists.mem_iff.1 (List.mem_map_of_mem hn)] at hv
    cases hu
    cases hv
    exact hmn
  have hlt : u < v :=
    Table.rel_of_lt_of_pairwise h.lists.ids_sorted hasc (h.lists.mem_ids.2 (by simp [hu]))
      (h.lists.mem_ids.2 (by simp [hkept])) hab u v hu hkept
  exact absurd (UInt32.lt_trans hfresh hlt) (UInt32.not_lt.2 (hv.unique b v hv').1)

end Directory

/-! ## Writers and sessions -/

/-- A mailbox, the ids that writers have allocated, and the snapshots of its sessions, the last one
first. -/
structure Arrivals (ι : Type) [LinearOrder ι] where
  dir : Directory ι
  allocated : List ι
  opened : List (Snapshot ι)

/-- A step of a writer or of a session. -/
inductive Arrival (ι : Type)
  /-- A writer allocates the id of its message. -/
  | allocate (id : ι)
  | deliver (id : ι) (eml : Eml) (tokens : List (List Char))
  | append (id : ι) (eml : Eml) (zone : Option Int16) (flags : List Flag)
  | openAt

/-- A mailbox nothing ever happened to. -/
def Arrivals.empty {ι : Type} [LinearOrder ι] : Arrivals ι := ⟨.empty, [], []⟩

/-- In every snapshot UIDs ascend with the sequence numbers, and each snapshot has the messages of
the one before, in their order, and new ones behind them only. -/
def Arrivals.Ordered {ι : Type} [LinearOrder ι] (w : Arrivals ι) : Prop :=
  (∀ snapshot ∈ w.opened, snapshot.messages.Pairwise (·.uid < ·.uid)) ∧
    w.opened.IsChain fun later earlier =>
      earlier.messages.map (·.id) <+: later.messages.map (·.id)

instance {ι : Type} [LinearOrder ι] (w : Arrivals ι) : Decidable w.Ordered :=
  inferInstanceAs (Decidable (_ ∧ _))

namespace Arrival

variable {ι : Type} [LinearOrder ι] {uuid : UuidText ι} {w : Arrivals ι} {op : Arrival ι}
  {ops : List (Arrival ι)}

def step (uuid : UuidText ι) (w : Arrivals ι) : Arrival ι → Arrivals ι
  | allocate id => { w with allocated := id :: w.allocated }
  | deliver id eml tokens => { w with dir := w.dir.deliverToAccount id eml tokens }
  | append id eml zone flags => { w with dir := w.dir.appendDated id eml zone flags }
  | openAt =>
      let (snapshot, dir) := Snapshot.openAt uuid w.dir
      { w with dir, opened := snapshot :: w.opened }

def run (uuid : UuidText ι) (w : Arrivals ι) (ops : List (Arrival ι)) : Arrivals ι :=
  ops.foldl (step uuid) w

def published : Arrival ι → Option ι
  | deliver id _ _ | append id _ _ _ => some id
  | allocate _ | openAt => none

/-- What can happen: ids are allocated in ascending order, and a file appears once, under an id that
was allocated; an open has UIDs for all messages. -/
def Can (w : Arrivals ι) (op : Arrival ι) : Prop :=
  match op with
  | allocate id => ∀ a ∈ w.allocated, a < id
  | deliver id _ _ | append id _ _ _ => id ∈ w.allocated ∧ id ∉ w.dir.ids
  | openAt => w.dir.UidsLeft

def InOrder (w : Arrivals ι) (op : Arrival ι) : Prop :=
  ∀ id ∈ op.published, ∀ a ∈ w.dir.ids, (w.dir.uids a).isSome → a < id

def Along (uuid : UuidText ι) (P : Arrivals ι → Arrival ι → Prop) (w : Arrivals ι) :
    List (Arrival ι) → Prop
  | [] => True
  | op :: ops => P w op ∧ Along uuid P (step uuid w op) ops

instance : DecidablePred (Can w) := fun op =>
  match op with
  | allocate id => inferInstanceAs (Decidable (∀ a ∈ w.allocated, a < id))
  | deliver id _ _ | append id _ _ _ =>
      inferInstanceAs (Decidable (id ∈ w.allocated ∧ id ∉ w.dir.ids))
  | openAt => inferInstanceAs (Decidable w.dir.UidsLeft)

instance : DecidablePred (InOrder w) := fun op =>
  inferInstanceAs (Decidable (∀ id ∈ op.published, _))

instance decidableAlong {P : Arrivals ι → Arrival ι → Prop} [∀ w, DecidablePred (P w)]
    (uuid : UuidText ι) (w : Arrivals ι) (ops : List (Arrival ι)) :
    Decidable (Along uuid P w ops) :=
  match ops with
  | [] => inferInstanceAs (Decidable True)
  | op :: ops =>
      have := decidableAlong (P := P) uuid (step uuid w op) ops
      inferInstanceAs (Decidable (P w op ∧ Along uuid P (step uuid w op) ops))

/-- A file has appeared: UIDs, counter and index are as before. -/
structure Published (dir dir' : Directory ι) (id : ι) : Prop where
  uids_eq : dir'.uids = dir.uids
  uidCounter_eq : dir'.uidCounter = dir.uidCounter
  index_eq : dir'.index = dir.index
  mem_ids : ∀ {a}, a ∈ dir'.ids ↔ a = id ∨ a ∈ dir.ids

lemma step_cases (uuid : UuidText ι) (h : Can w op) :
    (op.published = none ∧ (step uuid w op).dir = w.dir ∧ (step uuid w op).opened = w.opened) ∨
    (∃ id, op.published = some id ∧ id ∉ w.dir.ids ∧ Published w.dir (step uuid w op).dir id ∧
      (step uuid w op).opened = w.opened) ∨
    op = openAt ∧ w.dir.UidsLeft := by
  cases op with
  | allocate id => exact .inl ⟨rfl, rfl, rfl⟩
  | deliver id eml tokens =>
    refine .inr (.inl ⟨id, rfl, h.2, ?_, rfl⟩)
    simp only [step, Directory.deliverToAccount]
    split_ifs <;> exact ⟨rfl, rfl, rfl, Table.mem_keys_set ..⟩
  | append id eml zone flags =>
    refine .inr (.inl ⟨id, rfl, h.2, ?_, rfl⟩)
    simp only [step, Directory.appendDated]
    split_ifs <;> exact ⟨rfl, rfl, rfl, Table.mem_keys_set ..⟩
  | openAt => exact .inr (.inr ⟨rfl, h⟩)

namespace Published

variable {dir dir' : Directory ι} {id : ι}

lemma lists (h : Published dir dir' id) {numbers : List (ι × UInt32)}
    (hlists : dir.Lists numbers) : dir'.Lists numbers :=
  ⟨hlists.sorted, h.uids_eq ▸ hlists.mem_iff⟩

lemma valid (h : Published dir dir' id) (hv : dir.Valid uuid) : dir'.Valid uuid := by
  refine ⟨hv.unique.of_uids h.uidCounter_eq fun a u hu => ?_, fun hu => ?_, fun text htext => ?_⟩
  · rwa [h.uids_eq] at hu
  · rw [h.uids_eq] at hu
    exact h.mem_ids.2 (.inr (hv.seen_mem hu))
  · rw [h.index_eq] at htext
    obtain ⟨generation, messages, rfl, hcount, hlists⟩ := hv.index text htext
    exact ⟨generation, messages, rfl, hcount, h.lists hlists⟩

lemma settled_iff (h : Published dir dir' id) (hv : dir.Valid uuid) (hid : id ∉ dir.ids) :
    dir'.Settled ↔ dir.Settled ∧ ∀ a ∈ dir.ids, (dir.uids a).isSome → a < id := by
  have hnone : dir.uids id = none := eq_none_iff_forall_ne_some.2 fun u hu =>
    hid (hv.seen_mem hu)
  simp only [Directory.Settled, h.uids_eq, h.mem_ids, forall_eq_or_imp, hnone,
    isSome_none, Bool.false_eq_true]
  constructor
  · rintro ⟨hbehind, hsettled⟩
    refine ⟨hsettled, fun a ha hseen => ?_⟩
    obtain ⟨u, hu⟩ := isSome_iff_exists.1 hseen
    have hne : a ≠ id := fun heq => hid (heq ▸ ha)
    exact lt_of_le_of_ne (not_lt.1 fun hlt => hbehind a u hlt hu) hne
  · rintro ⟨hsettled, hbehind⟩
    refine ⟨fun b v hlt hv' => ?_, hsettled⟩
    exact (hbehind b (hv.seen_mem hv') (by simp [hv'])).asymm hlt

end Published

/-- What holds along a run whose files appear in order. -/
structure Good (uuid : UuidText ι) (w : Arrivals ι) : Prop where
  valid : w.dir.Valid uuid
  last : ∀ snapshot ∈ w.opened.head?, w.dir.Lists (numbers snapshot.messages)
  ascending : w.dir.Ascending
  settled : w.dir.Settled
  ordered : w.Ordered

lemma good_empty : Good uuid (Arrivals.empty : Arrivals ι) where
  valid := ⟨nofun, nofun, nofun⟩
  last := nofun
  ascending := nofun
  settled := nofun
  ordered := ⟨nofun, .nil⟩

lemma good_openAt (h : Good uuid w) (hleft : w.dir.UidsLeft) :
    Good uuid (step uuid w openAt) := by
  have hopened := Directory.openAt_opened h.valid hleft
  have hasc := hopened.ascending h.valid hleft h.ascending h.settled
  refine ⟨hopened.valid, ?_, hasc, hopened.settled, ?_, ?_⟩
  · rintro snapshot ⟨⟩
    exact hopened.lists
  · exact forall_mem_cons.2 ⟨hopened.lists.uids_pairwise hasc, h.ordered.1⟩
  · refine h.ordered.2.cons fun earlier hearlier => ?_
    exact hopened.isPrefix h.valid h.settled (h.last earlier hearlier)

lemma good_step (h : Good uuid w) (hcan : Can w op) (hop : InOrder w op) :
    Good uuid (step uuid w op) := by
  obtain ⟨-, hdir, hopened⟩ | ⟨id, hid, hnew, hpub, hopened⟩ | ⟨rfl, hleft⟩ :=
    step_cases uuid hcan
  · refine ⟨hdir ▸ h.valid, hdir ▸ hopened ▸ h.last, hdir ▸ h.ascending, hdir ▸ h.settled, ?_⟩
    rw [Arrivals.Ordered, hopened]
    exact h.ordered
  · refine ⟨hpub.valid h.valid, ?_, ?_, ?_, ?_⟩
    · rw [hopened]
      exact fun snapshot hsnapshot => hpub.lists (h.last snapshot hsnapshot)
    · unfold Directory.Ascending
      rw [hpub.uids_eq]
      exact h.ascending
    · exact (hpub.settled_iff h.valid hnew).2 ⟨h.settled, hop id hid⟩
    · rw [Arrivals.Ordered, hopened]
      exact h.ordered
  · exact good_openAt h hleft

lemma mem_opened_run {snapshot : Snapshot ι} (h : snapshot ∈ w.opened) :
    snapshot ∈ (run uuid w ops).opened := by
  induction ops generalizing w with
  | nil => exact h
  | cons op ops ih =>
    refine ih ?_
    cases op with
    | openAt => exact mem_cons_of_mem _ h
    | _ => exact h

lemma not_ordered_of_not_settled (hv : w.dir.Valid uuid) (hsettled : ¬ w.dir.Settled)
    (hcan : Along uuid Can w (ops ++ [openAt])) : ¬ (run uuid w (ops ++ [openAt])).Ordered := by
  have hopen : ∀ {w : Arrivals ι} (later : List (Arrival ι)), w.dir.Valid uuid →
      ¬ w.dir.Settled → w.dir.UidsLeft → ¬ (run uuid (step uuid w openAt) later).Ordered := by
    intro w later hv hsettled hleft hordered
    refine (Directory.openAt_opened hv hleft).not_pairwise hv hleft hsettled ?_
    exact hordered.1 _ (mem_opened_run (mem_cons_self ..))
  induction ops generalizing w with
  | nil => exact hopen [] hv hsettled hcan.1
  | cons op ops ih =>
    obtain ⟨-, hdir, -⟩ | ⟨id, -, hnew, hpub, -⟩ | ⟨rfl, hleft⟩ :=
      step_cases uuid hcan.1
    · exact ih (hdir ▸ hv) (hdir ▸ hsettled) hcan.2
    · refine ih (hpub.valid hv) (fun h => hsettled ?_) hcan.2
      exact ((hpub.settled_iff hv hnew).1 h).1
    · exact hopen _ hv hsettled hleft

lemma ordered_run_iff (h : Good uuid w) (hcan : Along uuid Can w (ops ++ [openAt])) :
    (run uuid w (ops ++ [openAt])).Ordered ↔ Along uuid InOrder w ops := by
  induction ops generalizing w with
  | nil => exact iff_of_true (good_openAt h hcan.1).ordered trivial
  | cons op ops ih =>
    by_cases hop : InOrder w op
    · exact (ih (good_step h hcan.1 hop) hcan.2).trans (iff_and_self.2 fun _ => hop)
    · refine iff_of_false ?_ fun hin => hop hin.1
      obtain ⟨hnone, -, -⟩ | ⟨id, hid, hnew, hpub, -⟩ | ⟨rfl, -⟩ :=
        step_cases uuid hcan.1
      · exact absurd (fun id hid => by simp [hnone] at hid) hop
      · refine not_ordered_of_not_settled (w := step uuid w op) (hpub.valid h.valid)
          (fun hsettled => hop ?_) hcan.2
        rintro _ hid'
        obtain rfl : id = _ := some.inj (hid.symm.trans hid')
        exact ((hpub.settled_iff h.valid hnew).1 hsettled).2
      · exact absurd nofun hop

/-- Writers allocate ids, in ascending order, and publish their files later, while sessions open the
mailbox. The snapshots of a run and of an open at its end are ordered if and only if every file
appears behind the messages that have a UID then. -/
theorem ordered_iff_inOrder (uuid : UuidText ι) (ops : List (Arrival ι))
    (hcan : Along uuid Can .empty (ops ++ [openAt])) :
    (run uuid .empty (ops ++ [openAt])).Ordered ↔ Along uuid InOrder .empty ops :=
  ordered_run_iff good_empty hcan

def twoUuids : UuidText Bool where
  toText id := if id then "01890a5d-ac96-774b-bcce-b302099a8058".toList else
    "01890a5d-ac96-774b-bcce-b302099a8057".toList
  parseStr s := if s = "01890a5d-ac96-774b-bcce-b302099a8058".toList then some true else
    if s = "01890a5d-ac96-774b-bcce-b302099a8057".toList then some false else none
  parseStr_toText := by decide +kernel
  plain := by decide +kernel

def twoArrivals : List (Arrival Bool) :=
  [allocate false, allocate true, deliver false ⟨10, .unixEpoch⟩ [], openAt,
    append true ⟨20, .unixEpoch⟩ (some 60) [.seen], openAt]

/-- Two messages that appear in the order of their ids, one appended with a flag. -/
theorem ordered_twoArrivals :
    Along twoUuids Can .empty (twoArrivals ++ [openAt]) ∧
      (run twoUuids .empty (twoArrivals ++ [openAt])).Ordered :=
  ⟨by decide +kernel,
    (ordered_iff_inOrder twoUuids twoArrivals (by decide +kernel)).2 (by decide +kernel)⟩

def lateArrivals : List (Arrival Bool) :=
  [allocate false, allocate true, append true ⟨20, .unixEpoch⟩ none [], openAt,
    deliver false ⟨10, .unixEpoch⟩ []]

/-- The message that was found first is the second of the next snapshot, with the smaller UID. -/
theorem lateArrivals_not_ordered :
    Along twoUuids Can .empty (lateArrivals ++ [openAt]) ∧
      ((run twoUuids .empty (lateArrivals ++ [openAt])).opened.map (numbers ·.messages)) =
        [[(false, 2), (true, 1)], [(true, 1)]] ∧
      ¬ (run twoUuids .empty (lateArrivals ++ [openAt])).Ordered := by
  decide +kernel

end Arrival

end Epistle.Imap
