import Epistle.Migrate.Replay

/-!
# A batch keeps the account

What a run knows while it copies, and what is on the disk wherever it is stopped. Between its
messages a batch is marked in the progress file, so that a run that is stopped there is followed by
a replay; the checkpoint behind the batch clears the mark once the ledger has what the batch
settled.
-/

namespace Epistle.Migrate

open Lib List

section

variable (sha256 : List UInt8 → Digest) (src : Source) (literal : ℕ)

def carried : List Message :=
  src.messages.filter fun m => m.size ≤ literal ∧ (parseFlags m.flags).isSome

def Bodies (k : ℕ) (d : Disk) : Prop :=
  d.mailbox.map Stored.content = ((carried src literal).take k).map Message.content

/-- A progress file that a run may trust. -/
structure StateOk (k : ℕ) (records : List Record) (state : Option FolderState) : Prop where
  absent : state = none → k = 0
  trusted : ∀ st, state = some st → st.uidValidity = src.uidValidity → st.inProgress = false →
    Settled sha256 (carried src literal) records k st.lastUid

def Sound (d : Disk) : Prop :=
  ∃ k records, Bodies src literal k d ∧ (src.uidValidity ≠ 0 →
    Holds sha256 src.uidValidity d.ledger records ∧
    (∀ r ∈ records, ∃ m ∈ (carried src literal).take k, r = mark sha256 m) ∧
    StateOk sha256 src literal k records d.state)

/-- What holds in a run, with what the batch has settled and not yet confirmed. -/
structure Going (dedupe : Bool) (q k : ℕ) (seen : ℕ → Bool) (settled : List Record) (c : Copy)
    (d : Disk) : Prop where
  bodies : Bodies src literal k d
  core : Core sha256 (carried src literal) dedupe c.index c.ledger.records k seen
  sorted : c.ledger.records.Pairwise (·.uid < ·.uid)
  cursor : c.ledger.Cursor q
  writable : c.ledger.writable = decide (src.uidValidity ≠ 0)
  ledger : src.uidValidity ≠ 0 → Holds sha256 src.uidValidity d.ledger c.ledger.records ∧
    c.ledger.Fits sha256 src.uidValidity d.ledger
  state : src.uidValidity ≠ 0 → StateOk sha256 src literal k c.ledger.records d.state
  reach : c.state.lastUid < q
  seen_lt : ∀ u, seen u → u < q
  passed : ∀ m ∈ carried src literal, m.uid ≤ c.state.lastUid → seen m.uid
  beyond : src.uidValidity ≠ 0 → ∀ m ∈ carried src literal, seen m.uid →
    nextUid c.state.lastUid ≤ m.uid → mark sha256 m ∈ c.ledger.records ++ settled
  settled_sorted : settled.Pairwise (·.uid < ·.uid)
  settled_seen : ∀ r ∈ settled, ∃ m ∈ carried src literal, r = mark sha256 m ∧ seen m.uid ∧
    m.uid ≤ c.state.lastUid

/-- The UIDs left of a window: all below its end `q` that are not seen. -/
structure Todo (q : ℕ) (seen : ℕ → Bool) (last : ℕ) (todo : List ℕ) : Prop where
  sorted : todo.Pairwise (· < ·)
  within : ∀ u ∈ todo, u < q ∧ u ≤ maxUid
  fresh : ∀ u ∈ todo, seen u = false
  after : ∀ u ∈ todo, last < u
  cover : ∀ m ∈ carried src literal, m.uid < q → seen m.uid ∨ m.uid ∈ todo

def Unconfirmed (records : List Record) (todo : List ℕ) : Prop :=
  ∀ m ∈ carried src literal, m.uid ∈ todo → mark sha256 m ∉ records

/-- A batch is being written. -/
def Marked (d : Disk) : Prop := ∃ st, d.state = some st ∧ st.inProgress = true

end

section Specs

variable {sha256 : List UInt8 → Digest} {src : Source} {literal : ℕ}

lemma carried_sorted : (carried src literal).Pairwise (·.uid < ·.uid) :=
  src.sorted.sublist filter_sublist

variable {m : Message} {k : ℕ} {d : Disk}

lemma mem_carried :
    m ∈ carried src literal ↔ m ∈ src.messages ∧ m.size ≤ literal ∧
      (parseFlags m.flags).isSome := by
  simp [carried]

lemma carried_range (h : m ∈ carried src literal) : 0 < m.uid ∧ m.uid ≤ maxUid :=
  src.uid_range m (mem_carried.1 h).1

lemma eq_of_source_uid {a b : Message} (ha : a ∈ src.messages) (hb : b ∈ src.messages)
    (h : a.uid = b.uid) : a = b :=
  eq_of_uid_eq src.sorted ha hb h

lemma Going.sound {dedupe : Bool} {q : ℕ} {seen : ℕ → Bool} {settled : List Record} {c : Copy}
    (h : Going sha256 src literal dedupe q k seen settled c d) :
    Sound sha256 src literal d :=
  ⟨k, c.ledger.records, h.bodies, fun hv => ⟨(h.ledger hv).1, h.core.confirmed, h.state hv⟩⟩

lemma StateOk.of_marked {records : List Record} (h : Marked d) :
    StateOk sha256 src literal k records d.state := by
  obtain ⟨st, hst, hprogress⟩ := h
  refine ⟨fun hnone => absurd (hst.symm.trans hnone) nofun, fun st' hst' _ hdone => ?_⟩
  obtain rfl := Option.some.inj (hst.symm.trans hst')
  exact absurd (hprogress.symm.trans hdone) nofun

lemma claim_spec {P : Disk → Prop} (index : Option Table) (f : Digest) :
    Triple P (claim index f) (fun r d => P d ∧ r = claimIndex index f)
      (fun e d => e = .storage ∧ P d) P := by
  cases index with
  | none => exact .pure fun d hd => ⟨hd, rfl⟩
  | some table =>
    refine .bind (R := fun _ => P) (.read (fun d hd => hd) fun d hd => ⟨⟨rfl, hd⟩, hd⟩) fun _ => ?_
    exact .pure fun d hd => ⟨hd, rfl⟩

lemma store_spec (d₀ : Disk) {dedupe : Bool} {seen : ℕ → Bool} {c : Copy}
    (hcore : Core sha256 (carried src literal) dedupe c.index c.ledger.records k seen)
    (hm : m ∈ src.messages) (hsize : m.size ≤ literal) (hseen : seen m.uid = false)
    (hready : ∀ a ∈ carried src literal, a.uid < m.uid → seen a.uid)
    (hnew : m ∈ carried src literal → mark sha256 m ∉ c.ledger.records) :
    let P : ℕ → Disk → Prop := fun k d =>
      Bodies src literal k d ∧ d.ledger = d₀.ledger ∧ d.state = d₀.state
    Triple (P k) (store sha256 c m)
      (fun r d => ∃ k', k ≤ k' ∧ P k' d ∧
        Core sha256 (carried src literal) dedupe r.2.index c.ledger.records k' (visit seen m.uid) ∧
        r.2.ledger = c.ledger ∧ r.2.state = c.state ∧
        (m ∈ carried src literal → r.1 = some (finger sha256 m)) ∧
        (m ∉ carried src literal → r.1 = none))
      (fun e d => ∃ k', k ≤ k' ∧ P k' d ∧ (e ≠ .storage → k' = k))
      (fun d => ∃ k', k ≤ k' ∧ P k' d) := by
  intro P
  rw [store]
  cases hflags : parseFlags m.flags with
  | none =>
    -- Marked deleted, so not to be copied.
    have hout : m ∉ carried src literal := fun h => by simpa [hflags] using (mem_carried.1 h).2.2
    refine .pure fun d hd => ⟨k, le_refl k, hd, ?_, rfl, rfl, fun h => absurd h hout, fun _ => rfl⟩
    exact hcore.congr fun a ha => by
      have hne : a.uid ≠ m.uid :=
        fun heq => hout (eq_of_source_uid (mem_carried.1 ha).1 hm heq ▸ ha)
      simp [visit, hne]
  | some flags =>
    have hin : m ∈ carried src literal := mem_carried.2 ⟨hm, hsize, by simp [hflags]⟩
    have hfail : ∀ e d, P k d → ∃ k', k ≤ k' ∧ P k' d ∧ (e ≠ MigrateError.storage → k' = k) :=
      fun e d hd => ⟨k, le_refl k, hd, fun _ => rfl⟩
    refine .bind ((claim_spec c.index (finger sha256 m)).weaken (fun _ h => h) (fun _ _ h => h)
      (fun e d h => hfail e d h.2) fun d hd => ⟨k, le_refl k, hd⟩) fun r => ?_
    obtain ⟨claimed, index⟩ := r
    refine .assuming (p := (claimed, index) = claimIndex c.index (finger sha256 m))
      (fun d hd => hd.2) fun hclaim => ?_
    dsimp only
    by_cases hstored : m ∈ (carried src literal).take k
    · obtain ⟨hfound, hcore'⟩ := hcore.claimed carried_sorted hstored hseen
      rw [← hclaim] at hfound hcore'
      -- Without a replay a stored message that is not seen is in the ledger.
      obtain rfl : dedupe = true := by
        cases dedupe with
        | true => rfl
        | false => exact absurd (hcore.known hstored hseen) (hnew hin)
      obtain rfl : claimed = true := hfound
      refine .pure fun d hd => ⟨k, le_refl k, hd.1, hcore', rfl, rfl, fun _ => rfl, ?_⟩
      exact fun h => absurd hin h
    · obtain ⟨hfound, hnext, hcore'⟩ := hcore.missing carried_sorted hin hstored hready
      rw [← hclaim] at hfound hcore'
      obtain rfl : claimed = false := hfound
      rw [if_neg (by decide)]
      have hmore : ∀ d message, P k d → message.content = m.content →
          P (k + 1) { d with mailbox := d.mailbox ++ [message] } := by
        refine fun d message hd hcontent => ⟨?_, hd.2⟩
        rw [Bodies, hnext, map_append, map_append, ← hd.1, map_singleton,
          map_singleton, hcontent]
      have happend : ∀ flags, Triple (fun d => P k d ∧ (false, index) =
          claimIndex c.index (finger sha256 m)) (append ⟨m.body, m.internalDate, flags⟩)
          (fun _ => P (k + 1)) (fun e d => ∃ k', k ≤ k' ∧ P k' d ∧ (e ≠ .storage → k' = k))
          (fun d => ∃ k', k ≤ k' ∧ P k' d) := by
        refine fun flags => .step (fun d hd => hmore d _ hd.1 rfl) fun n d hd => ?_
        -- In place, with its flags or without.
        have hplaced : ∀ flags, (∃ k', k ≤ k' ∧ P k' { d with mailbox := d.mailbox ++
              [⟨m.body, m.internalDate, flags⟩] } ∧
            (MigrateError.storage ≠ MigrateError.storage → k' = k)) ∧
            ∃ k', k ≤ k' ∧ P k' { d with mailbox := d.mailbox ++
              [⟨m.body, m.internalDate, flags⟩] } := fun flags =>
          have := hmore d ⟨m.body, m.internalDate, flags⟩ hd.1 rfl
          ⟨⟨k + 1, Nat.le_succ k, this, fun h => absurd rfl h⟩, k + 1, Nat.le_succ k, this⟩
        obtain _ | _ | n := n
        · exact ⟨hfail _ d hd.1, k, le_refl k, hd.1⟩
        · exact hplaced []
        · exact hplaced flags
      have hdone : ∀ c' : Copy, c'.index = index → c'.ledger = c.ledger → c'.state = c.state →
          ∀ d, P (k + 1) d → ∃ k', k ≤ k' ∧ P k' d ∧
            Core sha256 (carried src literal) dedupe c'.index c.ledger.records k'
              (visit seen m.uid) ∧
            c'.ledger = c.ledger ∧ c'.state = c.state ∧
            (m ∈ carried src literal → some (finger sha256 m) = some (finger sha256 m)) ∧
            (m ∉ carried src literal → some (finger sha256 m) = none) :=
        fun c' hi hl hst d hd => ⟨k + 1, Nat.le_succ k, hd, hi ▸ hcore', hl, hst, fun _ => rfl,
          fun h => absurd hin h⟩
      split
      · split_ifs
        · exact .fail fun d hd => hfail _ d hd.1
        · exact .bind (happend _) fun _ => .pure (hdone _ rfl rfl rfl)
      · exact .bind (happend _) fun _ => .pure (hdone _ rfl rfl rfl)

/-! ## What the source gives -/

lemma destutter_insertionSort {α : Type} (f : α → ℕ) {l answer : List α}
    (hl : l.Pairwise (f · < f ·)) (hperm : answer.Perm l) :
    (answer.insertionSort (f · ≤ f ·)).destutter (f · ≠ f ·) = l := by
  have : Std.Total fun a b => f a ≤ f b := ⟨fun a b => le_total (f a) (f b)⟩
  have : IsTrans α fun a b => f a ≤ f b := ⟨fun a b c => le_trans⟩
  have hinj : ∀ a b, a ∈ l → b ∈ l → f a = f b → a = b := fun a b ha hb h =>
    inj_on_of_nodup_map (pairwise_map.2 (hl.imp ne_of_lt)) ha hb h
  have hsort : (answer.insertionSort (f · ≤ f ·)).Perm l :=
    (perm_insertionSort _ answer).trans hperm
  have heq : answer.insertionSort (f · ≤ f ·) = l :=
    hsort.eq_of_pairwise (fun a b ha hb hab hba => hinj a b (hsort.subset ha) hb (by omega))
      (pairwise_insertionSort _ answer) (hl.imp le_of_lt)
  rw [heq]
  exact destutter_of_isChain _ _ (hl.imp ne_of_lt).isChain

lemma fetch_eq (wanted : List Listed) :
    src.fetch wanted = src.messages.filter fun m => wanted.any (·.uid = m.uid) :=
  destutter_insertionSort Message.uid (src.sorted.sublist filter_sublist) (src.order_perm _)

lemma listUids_eq (first : ℕ) (upto : Option ℕ) :
    src.listUids first upto = (src.messages.filter fun m => first ≤ m.uid ∧
      upto.all (m.uid ≤ ·)).map
      fun m => ⟨m.uid, m.size⟩ := by
  refine destutter_insertionSort Listed.uid ?_ ((src.order_perm _).map _)
  exact pairwise_map.2 (src.sorted.sublist filter_sublist)

variable (src) in
def Known (items : List Listed) : Prop := ∀ i ∈ items, ∃ m ∈ src.messages, i = ⟨m.uid, m.size⟩

lemma mem_fetch {items : List Listed} (hknown : Known src items) :
    m ∈ src.fetch (items.filter (·.size ≤ literal)) ↔
      m ∈ src.messages ∧ m.uid ∈ items.map Listed.uid ∧ m.size ≤ literal := by
  rw [fetch_eq, mem_filter]
  refine and_congr_right fun hm => ?_
  simp only [any_eq_true, mem_filter, mem_map, decide_eq_true_eq]
  constructor
  · rintro ⟨i, ⟨hi, hsize⟩, huid⟩
    obtain ⟨a, ha, rfl⟩ := hknown i hi
    obtain rfl := eq_of_source_uid ha hm huid
    exact ⟨⟨_, hi, rfl⟩, hsize⟩
  · rintro ⟨⟨i, hi, huid⟩, hsize⟩
    obtain ⟨a, ha, rfl⟩ := hknown i hi
    obtain rfl := eq_of_source_uid ha hm huid
    exact ⟨_, ⟨hi, hsize⟩, rfl⟩

/-! ## Confirming -/

variable (sha256 src) in
def Partly (d : Disk) (records settled : List Record) (d' : Disk) : Prop :=
  d'.mailbox = d.mailbox ∧ d'.state = d.state ∧ ∃ added, added.Sublist settled ∧
    (src.uidValidity ≠ 0 → Holds sha256 src.uidValidity d'.ledger (records ++ added))

variable (sha256 src) in
/-- A ledger with the settled messages that are above the UID it reached. -/
structure Confirmed (d : Disk) (l : Ledger) (settled : List Record) (l' : Ledger) (d' : Disk) :
    Prop where
  mailbox : d'.mailbox = d.mailbox
  state : d'.state = d.state
  added : ∃ added, added.Sublist settled ∧ l'.records = l.records ++ added
  sorted : l'.records.Pairwise (·.uid < ·.uid)
  writable : l'.writable = l.writable
  ledger : src.uidValidity ≠ 0 → Holds sha256 src.uidValidity d'.ledger l'.records ∧
    l'.Fits sha256 src.uidValidity d'.ledger
  above : src.uidValidity ≠ 0 → ∀ r ∈ settled, l.last < r.uid → r ∈ l'.records
  cursor : l' = l ∨ l'.current = none

lemma mem_dropWhile_of_lt {last : ℕ} {l : List Record} {r : Record}
    (hr : r ∈ l) (h : last < r.uid) : r ∈ l.dropWhile (·.uid ≤ last) := by
  induction l with
  | nil => simp at hr
  | cons x l ih =>
    by_cases hx : x.uid ≤ last
    · rw [dropWhile_cons_of_pos (by simpa using hx)]
      rcases mem_cons.1 hr with rfl | hr
      · exact absurd hx (Nat.not_le.2 h)
      · exact ih hr
    · rwa [dropWhile_cons_of_neg (by simpa using hx)]

lemma confirm_frame {l : Ledger} {settled : List Record}
    (hwritable : l.writable = decide (src.uidValidity ≠ 0))
    (hledger : src.uidValidity ≠ 0 → Holds sha256 src.uidValidity d.ledger l.records ∧
      l.Fits sha256 src.uidValidity d.ledger) (hrecords : l.records.Pairwise (·.uid < ·.uid))
    (hsorted : settled.Pairwise (·.uid < ·.uid)) (hbound : ∀ r ∈ settled, r.uid ≤ maxUid) :
    Triple (· = d) (l.confirm sha256 settled) (Confirmed sha256 src d l settled)
      (fun _ => Partly sha256 src d l.records settled) (Partly sha256 src d l.records settled) := by
  by_cases hv : src.uidValidity = 0
  · -- Nothing is recorded without a UIDVALIDITY.
    have hw : ¬l.writable := by simp [hwritable, hv]
    rw [Ledger.confirm, if_pos (.inr hw)]
    refine .pure ?_
    rintro _ rfl
    exact ⟨rfl, rfl, ⟨[], nil_sublist _, by simp⟩, hrecords, rfl, fun h => absurd hv h,
      fun h => absurd hv h, .inl rfl⟩
  · have hw : l.writable := by simp [hwritable, hv]
    refine (Ledger.confirm_spec hsorted hbound).weaken (P := fun d' => (d'.mailbox = d.mailbox ∧
      d'.state = d.state ∧ Holds sha256 src.uidValidity d'.ledger l.records) ∧
        l.Fits sha256 src.uidValidity d'.ledger) ?_ ?_ ?_ ?_
    · rintro _ rfl
      exact ⟨⟨rfl, rfl, (hledger hv).1⟩, (hledger hv).2⟩
    · rintro l' d' ⟨⟨hmail, hstate, hholds⟩, hfits, heq, hwr, hcur⟩
      simp only [hw, if_true] at heq
      refine ⟨hmail, hstate, ⟨_, dropWhile_sublist _, heq⟩, hholds.sorted, hwr,
        fun _ => ⟨hholds, hfits⟩, fun _ r hr hlt => ?_, hcur⟩
      rw [heq]
      exact mem_append_right _ (mem_dropWhile_of_lt hr hlt)
    all_goals
      simp only [hw, if_true]
    · rintro _ d' ⟨k, hmail, hstate, hholds⟩
      exact ⟨hmail, hstate, _, (take_sublist _ _).trans (dropWhile_sublist _),
        fun _ => hholds⟩
    · rintro d' ⟨k, hmail, hstate, hholds⟩
      exact ⟨hmail, hstate, _, (take_sublist _ _).trans (dropWhile_sublist _),
        fun _ => hholds⟩

/-! ## A batch -/

section Batch

variable {dedupe : Bool} {q k : ℕ} {seen : ℕ → Bool} {settled : List Record} {c : Copy} {d : Disk}

variable {last : ℕ} {d' : Disk} {later : List ℕ}

lemma Settled.mono {W : List Message} {records added : List Record}
    (h : Settled sha256 W records k last) : Settled sha256 W (records ++ added) k last :=
  ⟨h.passed, fun m hm hle => mem_append_left _ (h.beyond m hm hle)⟩

lemma Going.settled_le (h : Going sha256 src literal dedupe q k seen settled c d) :
    ∀ r ∈ settled, r.uid ≤ c.state.lastUid ∧ r.uid ≤ maxUid := by
  intro r hr
  obtain ⟨m, hm, rfl, -, hle⟩ := h.settled_seen r hr
  exact ⟨hle, (carried_range hm).2⟩

lemma Going.accounted (h : Going sha256 src literal false q k seen settled c d)
    (hv : src.uidValidity ≠ 0) (hroom : c.state.lastUid < maxUid) :
    Settled sha256 (carried src literal) c.ledger.records k c.state.lastUid := by
  refine ⟨fun m hm hle => h.core.seen_stored m hm (h.passed m hm hle), fun m hm hle => ?_⟩
  by_cases hseen : seen m.uid
  · refine (mem_append.1 (h.beyond hv m (mem_of_mem_take hm) hseen hle)).resolve_right ?_
    intro hin
    have := (h.settled_le _ hin).1
    have hnext : nextUid c.state.lastUid = c.state.lastUid + 1 := by unfold nextUid; omega
    change m.uid ≤ _ at this
    omega
  · exact h.core.known hm (by simpa using hseen)

lemma Going.sound_more {k' : ℕ} {added : List Record}
    (h : Going sha256 src literal dedupe q k seen settled c d) (hle : k ≤ k')
    (hbodies : Bodies src literal k' d') (hadded : added.Sublist settled)
    (hholds : src.uidValidity ≠ 0 →
      Holds sha256 src.uidValidity d'.ledger (c.ledger.records ++ added))
    (hstate : src.uidValidity ≠ 0 →
      StateOk sha256 src literal k' (c.ledger.records ++ added) d'.state) :
    Sound sha256 src literal d' := by
  refine ⟨k', c.ledger.records ++ added, hbodies, fun hv => ⟨hholds hv, fun r hr => ?_, hstate hv⟩⟩
  have hmore := (take_sublist_take_left (l := carried src literal) hle).subset
  rcases mem_append.1 hr with hr | hr
  · obtain ⟨m, hm, rfl⟩ := h.core.confirmed r hr
    exact ⟨m, hmore hm, rfl⟩
  · obtain ⟨m, hm, rfl, hseen, -⟩ := h.settled_seen r (hadded.subset hr)
    exact ⟨m, hmore (h.core.seen_stored m hm hseen), rfl⟩

lemma giveUp_spec {error : MigrateError} {d₀ : Disk}
    (h : Going sha256 src literal dedupe q k seen settled c d₀) (hmarked : Marked d₀)
    (hroom : c.state.lastUid < maxUid) {Q : List Record × Copy → Disk → Prop} :
    Triple (fun d => ∃ k', k ≤ k' ∧ (Bodies src literal k' d ∧ d.ledger = d₀.ledger ∧
        d.state = d₀.state) ∧ (error ≠ .storage → k' = k))
      (giveUp sha256 dedupe c settled error) Q (fun _ => Sound sha256 src literal)
      (Sound sha256 src literal) := by
  refine .ofState fun d hd => ?_
  obtain ⟨k', hle, ⟨hbodies, hledger, hstate⟩, hsame⟩ := hd
  -- Whatever the ledger took, the disk is sound with a state that is marked or accounts for it.
  have hsound : ∀ d' : Disk, Partly sha256 src d c.ledger.records settled d' →
      ∀ st, (∀ records, src.uidValidity ≠ 0 →
        StateOk sha256 src literal k' (c.ledger.records ++ records) st) →
        Sound sha256 src literal { d' with state := st } := by
    rintro d' ⟨hmail, -, added, hadded, hholds⟩ st hst
    exact h.sound_more hle (by rwa [Bodies, hmail]) hadded hholds (hst added)
  have hkeep : ∀ d' : Disk, Partly sha256 src d c.ledger.records settled d' →
      Sound sha256 src literal d' := fun d' hd' => by
    have hst : Marked d' := by rw [Marked, hd'.2.1, hstate]; exact hmarked
    exact hsound d' hd' d'.state fun _ _ => .of_marked hst
  refine .bind (R := fun _ => Partly sha256 src d c.ledger.records settled) (.attempt ?_) fun _ =>
    ?_
  · refine (confirm_frame h.writable (fun hv => ?_) h.sorted h.settled_sorted
      fun r hr => (h.settled_le r hr).2).weaken (fun _ h => h) ?_ (fun _ _ h => h) hkeep
    · rw [hledger]
      exact h.ledger hv
    · intro l d' hd'
      obtain ⟨added, hadded, heq⟩ := hd'.added
      exact ⟨hd'.mailbox, hd'.state, added, hadded, fun hv => heq ▸ (hd'.ledger hv).1⟩
  · have hsave : ∀ d' : Disk, Partly sha256 src d c.ledger.records settled d' →
        Sound sha256 src literal { d' with state := some { c.state with
          inProgress := dedupe || error = .storage
          copied := c.state.copied + c.report.copied } } := by
      refine fun d' hd' => hsound d' hd' _ fun records hv => ⟨nofun, fun st hst _ hdone => ?_⟩
      obtain rfl := Option.some.inj hst
      obtain ⟨rfl, herror⟩ := Bool.or_eq_false_iff.1 hdone
      rw [hsame (of_decide_eq_false herror)]
      exact (h.accounted hv hroom).mono
    refine .bind (R := fun _ => Sound sha256 src literal) (.replace hsave ?_ ?_)
      fun _ => .fail fun _ h => h
    · exact fun d' hd' => ⟨hkeep d' hd', hkeep d' hd'⟩
    · exact fun d' hd' => ⟨hsave d' hd', hsave d' hd'⟩

variable (sha256 src literal) in
/-- What holds between the messages of a batch: `rest` are its messages left, `later` the UIDs of
the batches behind it. -/
def InBatch (dedupe : Bool) (q : ℕ) (later : List ℕ) (rest : List Message)
    (acc : List Record × Copy) (d : Disk) : Prop :=
  ∃ k seen, Going sha256 src literal dedupe q k seen acc.1 acc.2 d ∧ Marked d ∧
    Todo src literal q seen acc.2.state.lastUid (rest.map Message.uid ++ later) ∧
    Unconfirmed sha256 src literal acc.2.ledger.records (rest.map Message.uid ++ later) ∧
    ∀ m ∈ rest, m ∈ src.messages ∧ m.size ≤ literal

lemma Todo.remove {uid : ℕ} {left right : List ℕ}
    (h : Todo src literal q seen last (left ++ uid :: right)) :
    Todo src literal q (Migrate.visit seen uid) last (left ++ right) := by
  have hsub : (left ++ right).Sublist (left ++ uid :: right) :=
    (sublist_cons_self uid right).append_left left
  have hne : ∀ u ∈ left ++ right, u ≠ uid := by
    obtain ⟨-, hright, hacross⟩ := pairwise_append.1 h.sorted
    intro u hu
    rcases mem_append.1 hu with hu | hu
    · exact ne_of_lt (hacross u hu uid (mem_cons_self ..))
    · exact (ne_of_lt ((pairwise_cons.1 hright).1 u hu)).symm
  refine ⟨h.sorted.sublist hsub, fun u hu => h.within u (hsub.subset hu), fun u hu => ?_,
    fun u hu => h.after u (hsub.subset hu), fun m hm hlt => ?_⟩
  · simp [Migrate.visit, h.fresh u (hsub.subset hu), hne u hu]
  · rcases h.cover m hm hlt with hs | hin
    · exact .inl (by simp [Migrate.visit, hs])
    · by_cases heq : m.uid = uid
      · exact .inl (by simp [Migrate.visit, heq])
      · exact .inr (by simpa [heq] using hin)

lemma Todo.visit {uid : ℕ} {todo : List ℕ} (h : Todo src literal q seen last (uid :: todo)) :
    Todo src literal q (Migrate.visit seen uid) uid todo :=
  have h' : Todo src literal q seen last ([] ++ uid :: todo) := h
  { h'.remove with after := (pairwise_cons.1 h.sorted).1 }

variable (sha256 src literal) in
def StoreEnds (dedupe : Bool) (c : Copy) (k : ℕ) (seen : ℕ → Bool) (m : Message) (d₀ : Disk) :
    Except MigrateError (Option Digest × Copy) → Disk → Prop
  | .ok r, d => ∃ k', k ≤ k' ∧
      (Bodies src literal k' d ∧ d.ledger = d₀.ledger ∧ d.state = d₀.state) ∧
      Core sha256 (carried src literal) dedupe r.2.index c.ledger.records k' (visit seen m.uid) ∧
      r.2.ledger = c.ledger ∧ r.2.state = c.state ∧
      (m ∈ carried src literal → r.1 = some (finger sha256 m)) ∧
      (m ∉ carried src literal → r.1 = none)
  | .error e, d => ∃ k', k ≤ k' ∧
      (Bodies src literal k' d ∧ d.ledger = d₀.ledger ∧ d.state = d₀.state) ∧
      (e ≠ .storage → k' = k)

lemma storeNext_spec {m : Message} {rest : List Message} {acc : List Record × Copy} :
    Triple (InBatch sha256 src literal dedupe q later (m :: rest) acc)
      (storeNext sha256 dedupe acc m) (InBatch sha256 src literal dedupe q later rest)
      (fun _ => Sound sha256 src literal) (Sound sha256 src literal) := by
  refine .ofState fun d hd => ?_
  obtain ⟨k, seen, hgoing, hmarked, htodo, hnew, hrest⟩ := hd
  obtain ⟨settled, c⟩ := acc
  obtain ⟨⟨hm, hsize⟩, hrest⟩ := forall_mem_cons.1 hrest
  rw [map_cons, cons_append] at htodo hnew
  obtain ⟨hwithin, hmax⟩ := htodo.within _ (mem_cons_self ..)
  have hlast : c.state.lastUid < m.uid := htodo.after _ (mem_cons_self ..)
  obtain ⟨hfirst, -⟩ := pairwise_cons.1 htodo.sorted
  -- What is before the message is seen.
  have hready : ∀ a ∈ carried src literal, a.uid < m.uid → seen a.uid := by
    intro a ha hlt
    refine (htodo.cover a ha (lt_trans hlt hwithin)).resolve_right fun hin => ?_
    rcases mem_cons.1 hin with heq | hin
    · omega
    · exact absurd (hfirst _ hin) (Nat.lt_asymm hlt)
  have hstore := store_spec d hgoing.core hm hsize (htodo.fresh _ (mem_cons_self ..)) hready
    fun hin => hnew m hin (mem_cons_self ..)
  rw [storeNext]
  refine .bind (R := StoreEnds sha256 src literal dedupe c k seen m d) (.attempt (hstore.weaken
    (by rintro _ rfl; exact ⟨hgoing.bodies, rfl, rfl⟩) (fun _ _ h => h) (fun _ _ h => h) ?_))
    fun r => ?_
  · rintro d' ⟨k', hle, hbodies, hledger, hstate⟩
    refine hgoing.sound_more hle hbodies (nil_sublist _) (fun hv => ?_) fun _ => .of_marked ?_
    · rw [hledger, append_nil]
      exact (hgoing.ledger hv).1
    · rw [Marked, hstate]
      exact hmarked
  cases r with
  | error e => exact giveUp_spec hgoing hmarked (lt_of_lt_of_le hlast hmax)
  | ok r =>
    obtain ⟨f, c'⟩ := r
    refine .pure ?_
    rintro d' ⟨k', hle, ⟨hbodies, hledger, hstate⟩, hcore, hl, hst, hcarried, hleft⟩
    have hmark' : Marked d' := by rw [Marked, hstate]; exact hmarked
    dsimp only at hcore hl hst hcarried hleft
    refine ⟨k', visit seen m.uid, ⟨hbodies, by simpa [hl] using hcore,
      by simpa [hl] using hgoing.sorted, by simpa [hl] using hgoing.cursor,
      by simpa [hl] using hgoing.writable, ?_, ?_, ?_, ?_, ?_, ?_, ?_, ?_⟩,
      hmark', htodo.visit, ?_, hrest⟩
    · rw [hl, hledger]
      exact hgoing.ledger
    · exact fun _ => .of_marked hmark'
    · exact hwithin
    · intro u hu
      rcases Bool.or_eq_true_iff.1 hu with hu | heq
      · exact hgoing.seen_lt u hu
      · rw [of_decide_eq_true heq]
        exact hwithin
    · intro a ha hle'
      rcases Nat.lt_or_eq_of_le hle' with hlt | heq
      · simp [visit, hready a ha hlt]
      · simp [visit, heq]
    · intro hv a ha hs hnext
      rw [hl]
      rcases Bool.or_eq_true_iff.1 hs with hs | heq
      · have hnext' : nextUid c.state.lastUid ≤ a.uid :=
          le_trans (nextUid_mono (le_of_lt hlast)) hnext
        rw [← append_assoc]
        exact mem_append_left _ (hgoing.beyond hv a ha hs hnext')
      · obtain rfl := eq_of_source_uid (mem_carried.1 ha).1 hm (of_decide_eq_true heq)
        rw [hcarried ha]
        exact mem_append_right _ (mem_append_right _ (mem_singleton_self _))
    · refine pairwise_append.2 ⟨hgoing.settled_sorted, ?_, fun x hx y hy => ?_⟩
      · cases f <;> simp
      · obtain ⟨f', -, rfl⟩ : ∃ f', f = some f' ∧ y = ⟨m.uid, f'⟩ := by
          cases f with
          | none => simp at hy
          | some f' => exact ⟨f', rfl, by simpa using hy⟩
        exact lt_of_le_of_lt (hgoing.settled_le x hx).1 hlast
    · intro x hx
      rcases mem_append.1 hx with hx | hx
      · obtain ⟨a, ha, rfl, hs, hle'⟩ := hgoing.settled_seen x hx
        exact ⟨a, ha, rfl, by simp [visit, hs], le_of_lt (lt_of_le_of_lt hle' hlast)⟩
      · by_cases hin : m ∈ carried src literal
        · rw [hcarried hin] at hx
          exact ⟨m, hin, mem_singleton.1 hx, by simp [visit], le_refl _⟩
        · rw [hleft hin] at hx
          simp at hx
    · rw [hl]
      exact fun a ha hin => hnew a ha (mem_cons_of_mem _ hin)

lemma Going.settled_state (h : Going sha256 src literal dedupe q k seen [] c d)
    (hv : src.uidValidity ≠ 0)
    (hseen : dedupe = false ∨ ∀ m ∈ carried src literal, seen m.uid) :
    Settled sha256 (carried src literal) c.ledger.records k c.state.lastUid := by
  refine ⟨fun m hm hle => h.core.seen_stored m hm (h.passed m hm hle), fun m hm hle => ?_⟩
  have hin := mem_of_mem_take hm
  by_cases hs : seen m.uid
  · simpa using h.beyond hv m hin hs hle
  · rcases hseen with rfl | hall
    · exact h.core.known hm (by simpa using hs)
    · exact absurd (hall m hin) hs

lemma Going.beyond_confirmed {l : Ledger}
    (h : Going sha256 src literal dedupe q k seen settled c d) (hv : src.uidValidity ≠ 0)
    (hl : Confirmed sha256 src d c.ledger settled l d') {m : Message}
    (hm : m ∈ carried src literal) (hs : seen m.uid) (hnext : nextUid c.state.lastUid ≤ m.uid) :
    mark sha256 m ∈ l.records := by
  obtain ⟨added, -, heq⟩ := hl.added
  have hmax := (carried_range hm).2
  rcases mem_append.1 (h.beyond hv m hm hs hnext) with hin | hin
  · rw [heq]
    exact mem_append_left _ hin
  · have huid : m.uid = maxUid := eq_maxUid_of_nextUid_le (h.settled_le _ hin).1 hnext hmax
    by_cases hlast : c.ledger.last < m.uid
    · exact hl.above hv _ hin hlast
    · -- The ledger has a record with the largest UID, which is the message's own.
      obtain ⟨r, hr, hruid⟩ := Ledger.exists_last (lt_of_lt_of_le (carried_range hm).1
        (Nat.not_lt.1 hlast))
      obtain ⟨a, ha, rfl⟩ := h.core.confirmed r hr
      have ha := mem_of_mem_take ha
      have hsame : a.uid = m.uid := le_antisymm (huid ▸ (carried_range ha).2)
        (le_trans (Nat.not_lt.1 hlast) (le_of_eq hruid.symm))
      rw [heq, ← eq_of_uid_eq carried_sorted ha hm hsame]
      exact mem_append_left _ hr

lemma Going.frame (h : Going sha256 src literal dedupe q k seen settled c d) (c' : Copy)
    (d' : Disk) (hindex : c'.index = c.index)
    (hl : c'.ledger = c.ledger) (hlast : c'.state.lastUid = c.state.lastUid)
    (hmail : d'.mailbox = d.mailbox) (hledger : d'.ledger = d.ledger)
    (hstate : src.uidValidity ≠ 0 → StateOk sha256 src literal k c.ledger.records d'.state) :
    Going sha256 src literal dedupe q k seen settled c' d' := by
  obtain ⟨target, index, ledger, state, report⟩ := c'
  dsimp only at hindex hl hlast
  subst hindex hl
  exact ⟨by rw [Bodies, hmail]; exact h.bodies, h.core, h.sorted, h.cursor, h.writable,
    by rw [hledger]; exact h.ledger, hstate, by rw [hlast]; exact h.reach, h.seen_lt,
    by rw [hlast]; exact h.passed, by rw [hlast]; exact h.beyond, h.settled_sorted,
    by rw [hlast]; exact h.settled_seen⟩

lemma Going.checkpoint {l : Ledger} (h : Going sha256 src literal dedupe q k seen settled c d)
    (hl : Confirmed sha256 src d c.ledger settled l d') (hlast : last < q)
    (hpassed : ∀ m ∈ carried src literal, m.uid ≤ last → seen m.uid) :
    let state := { c.state with lastUid := max c.state.lastUid last, inProgress := dedupe }
    Going sha256 src literal dedupe q k seen [] { c with ledger := l, state := state }
      { d' with state := some state } := by
  intro state
  obtain ⟨added, hadded, heq⟩ := hl.added
  have hnew : ∀ r ∈ added, ∃ m ∈ (carried src literal).take k, r = mark sha256 m := by
    intro r hr
    obtain ⟨m, hm, rfl, hs, -⟩ := h.settled_seen r (hadded.subset hr)
    exact ⟨m, h.core.seen_stored m hm hs, rfl⟩
  have hpass : ∀ m ∈ carried src literal, m.uid ≤ state.lastUid → seen m.uid := by
    intro m hm hle
    rcases le_max_iff.1 hle with hle | hle
    · exact h.passed m hm hle
    · exact hpassed m hm hle
  have hbeyond : src.uidValidity ≠ 0 → ∀ m ∈ carried src literal, seen m.uid →
      nextUid state.lastUid ≤ m.uid → mark sha256 m ∈ l.records := fun hv m hm hs hnext =>
    h.beyond_confirmed hv hl hm hs (le_trans (nextUid_mono (le_max_left ..)) hnext)
  have hcore : Core sha256 (carried src literal) dedupe c.index l.records k seen := by
    rw [heq]
    exact h.core.confirm hnew
  refine ⟨by rw [Bodies, hl.mailbox]; exact h.bodies, hcore, hl.sorted, ?_,
    hl.writable.trans h.writable, hl.ledger, fun hv => ⟨nofun, fun st hst _ hdone => ?_⟩,
    max_lt h.reach hlast, h.seen_lt, hpass, ?_, .nil, by simp⟩
  · rcases hl.cursor with rfl | hnone
    · exact h.cursor
    · exact Ledger.cursor_of_current_none hnone q
  · -- Without a replay the mark is cleared here.
    obtain rfl := Option.some.inj hst
    obtain rfl : dedupe = false := hdone
    refine ⟨fun m hm hle => h.core.seen_stored m hm (hpass m hm hle), fun m hm hle => ?_⟩
    by_cases hs : seen m.uid
    · exact hbeyond hv m (mem_of_mem_take hm) hs hle
    · exact hcore.known hm (by simpa using hs)
  · simpa using hbeyond

lemma Todo.fetch {items : List Listed} (hknown : Known src items)
    (h : Todo src literal q seen last (items.map Listed.uid ++ later)) :
    let fetched := src.fetch (items.filter (·.size ≤ literal))
    Todo src literal q seen last (fetched.map Message.uid ++ later) := by
  intro fetched
  have hsub : ∀ u ∈ fetched.map Message.uid, u ∈ items.map Listed.uid := by
    intro u hu
    obtain ⟨m, hm, rfl⟩ := List.mem_map.1 hu
    exact ((mem_fetch hknown).1 hm).2.1
  have hall : ∀ u ∈ fetched.map Message.uid ++ later, u ∈ items.map Listed.uid ++ later :=
    fun u hu =>
    mem_append.2 ((mem_append.1 hu).imp_left (hsub u))
  obtain ⟨-, hlater, hbefore⟩ := pairwise_append.1 h.sorted
  refine ⟨pairwise_append.2 ⟨?_, hlater, fun u hu => hbefore u (hsub u hu)⟩,
    fun u hu => h.within u (hall u hu), fun u hu => h.fresh u (hall u hu),
    fun u hu => h.after u (hall u hu), fun m hm hlt => ?_⟩
  · rw [pairwise_map, show fetched = _ from fetch_eq _]
    exact src.sorted.sublist filter_sublist
  · refine (h.cover m hm hlt).imp_right fun hin => mem_append.2 ?_
    refine (mem_append.1 hin).imp_left fun hin => List.mem_map.2 ⟨m, ?_, rfl⟩
    exact (mem_fetch hknown).2 ⟨(mem_carried.1 hm).1, hin, (mem_carried.1 hm).2.1⟩

variable (sha256 src literal) in
def InWindow (dedupe : Bool) (q : ℕ) (todo : List ℕ) (c : Copy) (d : Disk) : Prop :=
  c.state.inProgress = dedupe ∧ ∃ k seen, Going sha256 src literal dedupe q k seen [] c d ∧
    Todo src literal q seen c.state.lastUid todo ∧
    Unconfirmed sha256 src literal c.ledger.records todo

lemma batch_spec {settings : Settings} (hliteral : settings.literal = literal)
    {items : List Listed} (hknown : Known src items) :
    Triple (InWindow sha256 src literal dedupe q (items.map Listed.uid ++ later) c)
      (batch sha256 src settings dedupe c items) (InWindow sha256 src literal dedupe q later)
      (fun _ => Sound sha256 src literal) (Sound sha256 src literal) := by
  subst hliteral
  refine .ofState fun d hd => ?_
  obtain ⟨-, k, seen, hgoing, htodo, hnew⟩ := hd
  set fetched := src.fetch (items.filter (·.size ≤ settings.literal)) with hfetched
  obtain ⟨-, -, hbefore⟩ := pairwise_append.1 htodo.sorted
  rw [batch]
  refine .bind (R := fun r d' => d' = d ∧ r = fetched) ?_ fun r => ?_
  · split_ifs with hwanted
    · refine .pure fun d' hd' => ⟨hd', ?_⟩
      rw [hfetched, fetch_eq, hwanted]
      simp
    · refine .read (fun d' hd' => ⟨hd', rfl⟩) ?_
      rintro _ rfl
      exact ⟨hgoing.sound, hgoing.sound⟩
  refine .assuming (p := r = fetched) (fun _ hd => hd.2) fun hr => ?_
  subst hr
  -- The mark is on the disk before the first message.
  refine .bind (R := fun _ d' => ∀ c' : Copy, c'.index = c.index → c'.ledger = c.ledger →
    c'.state.lastUid = c.state.lastUid →
      InBatch sha256 src settings.literal dedupe q later fetched ([], c') d') ?_ fun _ => ?_
  · refine .replace ?_ ?_ ?_
    · rintro d' ⟨rfl, -⟩ c' hindex hl hlast
      have hmarked : Marked { d' with state := some { c.state with inProgress := true } } :=
        ⟨_, rfl, rfl⟩
      refine ⟨k, seen, hgoing.frame _ _ hindex hl hlast rfl rfl fun _ => .of_marked hmarked,
        hmarked,
        hlast ▸ htodo.fetch hknown, ?_, fun m hm => ?_⟩
      · intro m hm hin
        rw [hl]
        refine hnew m hm (mem_append.2 ((mem_append.1 hin).imp_left fun hin => ?_))
        obtain ⟨a, ha, heq⟩ := List.mem_map.1 hin
        exact heq ▸ ((mem_fetch hknown).1 ha).2.1
      · obtain ⟨hin, -, hsize⟩ := (mem_fetch hknown).1 hm
        exact ⟨hin, hsize⟩
    · rintro d' ⟨rfl, -⟩
      exact ⟨hgoing.sound, hgoing.sound⟩
    · rintro d' ⟨rfl, -⟩
      have hmarked : Marked { d' with state := some { c.state with inProgress := true } } :=
        ⟨_, rfl, rfl⟩
      have hgoing' := hgoing.frame c { d' with state := some { c.state with
        inProgress := true } } rfl rfl rfl rfl rfl fun _ => .of_marked hmarked
      exact ⟨hgoing'.sound, hgoing'.sound⟩
  refine .bind ((Triple.foldlM (fun _ _ _ => storeNext_spec) fetched _).pre
    fun d' hd' => hd' _ rfl rfl rfl) fun r => ?_
  refine .ofState fun d₁ hd₁ => ?_
  obtain ⟨settled, c₁⟩ := r
  obtain ⟨k₁, seen₁, hgoing₁, hmarked, htodo₁, hnew₁, -⟩ := hd₁
  dsimp only at hgoing₁ htodo₁ hnew₁
  simp only [map_nil, nil_append] at htodo₁ hnew₁
  have hkeep : ∀ d', Partly sha256 src d₁ c₁.ledger.records settled d' →
      Sound sha256 src settings.literal d' := by
    rintro d' ⟨hmail, hstate, added, hadded, hholds⟩
    refine hgoing₁.sound_more (le_refl k₁) ?_ hadded hholds fun _ => .of_marked ?_
    · rw [Bodies, hmail]
      exact hgoing₁.bodies
    · rw [Marked, hstate]
      exact hmarked
  refine .bind ((confirm_frame hgoing₁.writable hgoing₁.ledger hgoing₁.sorted
    hgoing₁.settled_sorted fun r hr => (hgoing₁.settled_le r hr).2).weaken (fun _ h => h)
      (fun _ _ h => h) (fun _ => hkeep) hkeep) fun l => ?_
  -- The last UID of the batch is passed, as is everything before it.
  set last := (items.getLast?.map Listed.uid).getD 0 with hlast
  have hcases : last = 0 ∨ last ∈ items.map Listed.uid := by
    rw [hlast]
    cases hget : items.getLast? with
    | none => exact .inl rfl
    | some i => exact .inr (mem_map_of_mem (mem_of_getLast? hget))
  have hafter : ∀ u ∈ later, max c₁.state.lastUid last < u := fun u hu =>
    max_lt (htodo₁.after u hu) (hcases.elim (fun h => h ▸ Nat.lt_of_le_of_lt (Nat.zero_le _)
      (htodo₁.after u hu)) fun h => hbefore last h u hu)
  have hq : last < q := hcases.elim (fun h => h ▸ Nat.lt_of_le_of_lt (Nat.zero_le _) hgoing₁.reach)
    fun h => (htodo.within last (mem_append_left _ h)).1
  have hpassed : ∀ m ∈ carried src settings.literal, m.uid ≤ last → seen₁ m.uid := by
    intro m hm hle
    refine (htodo₁.cover m hm (lt_of_le_of_lt hle hq)).resolve_right fun hin => ?_
    exact absurd (lt_of_le_of_lt (le_max_right ..) (hafter _ hin)) (Nat.not_lt.2 hle)
  have hdone : ∀ d', Confirmed sha256 src d₁ c₁.ledger settled l d' → _ := fun d' hd' =>
    hgoing₁.checkpoint hd' hq hpassed
  refine .bind (.replace (fun d' hd' => ⟨rfl, k₁, seen₁, hdone d' hd', ?_, ?_⟩) (fun d' hd' => ?_)
    fun d' hd' => ⟨(hdone d' hd').sound, (hdone d' hd').sound⟩) fun _ => .pure fun _ h => h
  · obtain ⟨added, hadded, heq⟩ := hd'.added
    have hsound := hkeep d' ⟨hd'.mailbox, hd'.state, added, hadded, fun hv =>
      heq ▸ (hd'.ledger hv).1⟩
    exact ⟨hsound, hsound⟩
  · exact ⟨htodo₁.sorted, htodo₁.within, htodo₁.fresh, hafter, htodo₁.cover⟩
  · intro m hm hin
    obtain ⟨added, hadded, heq⟩ := hd'.added
    rw [heq]
    intro hmark
    rcases mem_append.1 hmark with hmark | hmark
    · exact hnew₁ m hm hin hmark
    · exact absurd (htodo₁.after _ hin)
        (Nat.not_lt.2 (hgoing₁.settled_le _ (hadded.subset hmark)).1)

end Batch

end Specs

end Epistle.Migrate
