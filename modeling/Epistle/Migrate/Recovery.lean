import Epistle.Migrate.Batch

/-!
# Every message once, however often a copy is stopped

A folder is copied by any number of runs, each of which may be stopped or fail at any of its steps,
and then by one that comes to its end. The mailbox then has one copy of each message of the source
that is neither marked deleted nor too large, and nothing else. Nothing is asked of the hash
function: messages that share a fingerprint are told apart by their number.

* `copied_exactly_once`: the mailbox at the end.
-/

namespace Epistle.Migrate

open Lib List

section

variable {sha256 : List UInt8 → Digest} {src : Source} {literal : ℕ} {dedupe : Bool} {q k : ℕ}
  {seen : ℕ → Bool} {c : Copy} {d : Disk}

/-! ## The index of the mailbox -/

lemma holds_foldl_add {t : Table} {M : Multiset Digest} (ht : t.Holds M) (hashes : List Digest) :
    (hashes.foldl Table.add t).Holds (hashes + M) := by
  induction hashes generalizing t M with
  | nil => simpa using ht
  | cons h hashes ih =>
    have hsum : ((h :: hashes : List Digest) : Multiset Digest) + M = hashes + (h ::ₘ M) := by
      rw [← Multiset.cons_coe, Multiset.cons_add, Multiset.add_cons]
    rw [hsum]
    exact ih (ht.add h)

lemma scan_spec (maxMessageSize : ℕ) :
    Triple (· = d) (scan sha256 maxMessageSize)
      (fun t d' => d' = d ∧ t.Holds (d.mailbox.map fun m => fingerprint sha256 (key sha256 m.body)))
      (fun _ d' => d' = d) (· = d) := by
  rw [scan]
  refine .readThen (fun _ h => ⟨h, h⟩) fun mailbox => ?_
  refine .assuming (p := mailbox = d.mailbox) (fun d' h => h.1 ▸ h.2) fun hmail => ?_
  subst hmail
  split_ifs
  · exact .fail fun _ h => h.1
  · refine .pure fun d' h => ⟨h.1, ?_⟩
    have hholds := holds_foldl_add (Table.holds_new d.mailbox.length)
      (d.mailbox.map fun m => fingerprint sha256 (key sha256 m.body))
    rwa [foldl_map, Multiset.add_zero] at hholds

def below (first : ℕ) : ℕ → Bool := fun u => u < first

variable (sha256 src literal) in
/-- What holds before a window that starts at `first`. -/
inductive Ready (first : ℕ) (c : Copy) (d : Disk) : Bool → Bool → Prop
  | going {k : ℕ} {dedupe initialized : Bool} (prepared : initialized = true ∨ dedupe = false)
      (going : Going sha256 src literal dedupe first k (below first) [] c d) :
      Ready first c d dedupe initialized
  | replay {k : ℕ} (sound : Sound sha256 src literal d) (bodies : Bodies src literal k d)
      (reach : c.state.lastUid < first) (ahead : ∀ m ∈ carried src literal, first ≤ m.uid)
      (going : ∀ t : Table, t.Holds (unseen sha256 (carried src literal) k (below first)) →
        Going sha256 src literal true first k (below first) [] { c with index := some t } d) :
      Ready first c d true false

variable {first uid windows : ℕ} {initialized empty : Bool} {listed : List Listed}
  {settings : Settings} {upto : Option ℕ} {examined : Examined} {P : Disk → Prop} {p p' : Place}

lemma Ready.sound (h : Ready sha256 src literal first c d dedupe initialized) :
    Sound sha256 src literal d := by
  cases h with
  | going _ hgoing => exact hgoing.sound
  | replay hsound => exact hsound

lemma Ready.reach (h : Ready sha256 src literal first c d dedupe initialized) :
    c.state.lastUid < first := by
  cases h with
  | going _ hgoing => exact hgoing.reach
  | replay _ _ hreach => exact hreach

lemma unseen_mailbox (hbodies : Bodies src literal k d)
    (hahead : ∀ m ∈ carried src literal, q ≤ m.uid) :
    (d.mailbox.map fun m => fingerprint sha256 (key sha256 m.body) : Multiset Digest) =
      unseen sha256 (carried src literal) k (below q) := by
  have hall : ((carried src literal).take k).filter (fun m => !below q m.uid) =
      (carried src literal).take k := by
    refine filter_eq_self.2 fun m hm => ?_
    simpa [below] using hahead m (mem_of_mem_take hm)
  have hmap := congrArg (List.map fun content => fingerprint sha256 (key sha256 content.1)) hbodies
  rw [map_map, map_map] at hmap
  rw [unseen, hall]
  exact congrArg _ hmap

lemma prepareMailbox_spec (initialized : Bool) :
    Triple (fun d => Ready sha256 src literal first c d dedupe initialized)
      (if initialized then pure c else prepareMailbox sha256 dedupe c)
      (fun c' d => c'.state = c.state ∧
        ∃ k, Going sha256 src literal dedupe first k (below first) [] c' d)
      (fun _ => Sound sha256 src literal) (Sound sha256 src literal) := by
  refine .ofState fun d hd => ?_
  have hsound := hd.sound
  have hkeep : ∀ d', d' = d → Sound sha256 src literal d' := fun d' h => h ▸ hsound
  split_ifs with hinit
  · obtain rfl : initialized = true := hinit
    refine .pure ?_
    rintro _ rfl
    cases hd with
    | going _ hgoing => exact ⟨rfl, _, hgoing⟩
  · rw [prepareMailbox]
    refine .bind (R := fun _ d' => d' = d) (.read (fun _ h => h) fun d' h =>
      ⟨hkeep d' h, hkeep d' h⟩)
      fun _ => ?_
    cases hd with
    | going hprepared hgoing =>
      obtain rfl : dedupe = false := hprepared.resolve_left hinit
      refine .pure ?_
      rintro _ rfl
      exact ⟨rfl, _, hgoing⟩
    | replay _ hbodies _ hahead hgoing =>
      refine .bind ((scan_spec _).weaken (fun _ h => h) (fun _ _ h => h) (fun _ => hkeep) hkeep)
        fun t => .pure ?_
      rintro _ ⟨rfl, ht⟩
      exact ⟨rfl, _, hgoing t (unseen_mailbox hbodies hahead ▸ ht)⟩

/-! ## What the ledger confirms -/

lemma Going.lookup (h : Going sha256 src literal dedupe q k seen [] c d) (hq : q ≤ uid) :
    Going sha256 src literal dedupe (uid + 1) k seen []
      { c with ledger := (c.ledger.fingerprint uid).2 } d := by
  obtain ⟨-, hrecords, hwritable, hvalidity, hpresent, hcursor⟩ :=
    Ledger.fingerprint_spec h.sorted h.cursor hq
  have hlt : ∀ {u}, u < q → u < uid + 1 := fun hu => Nat.lt_succ_of_lt (lt_of_lt_of_le hu hq)
  have hledger : src.uidValidity ≠ 0 → Holds sha256 src.uidValidity d.ledger c.ledger.records ∧
      (c.ledger.fingerprint uid).2.Fits sha256 src.uidValidity d.ledger := by
    intro hv
    obtain ⟨hholds, hfits⟩ := h.ledger hv
    refine ⟨hholds, hvalidity.trans hfits.validity, fun ha => ?_, fun hw hp => ?_⟩
    · rw [hrecords]
      exact hfits.absent (hpresent ▸ ha)
    · rw [hrecords]
      exact hfits.exact (hwritable ▸ hw) (hpresent ▸ hp)
  exact ⟨h.bodies, hrecords.symm ▸ h.core, hrecords.symm ▸ h.sorted,
    hcursor.mono (Nat.le_succ uid), hwritable.trans h.writable, hrecords.symm ▸ hledger,
    hrecords.symm ▸ h.state, hlt h.reach, fun u hu => hlt (h.seen_lt u hu), h.passed,
    hrecords.symm ▸ h.beyond, h.settled_sorted, h.settled_seen⟩

lemma Going.confirmed_visit {c' : Copy} {m : Message}
    (h : Going sha256 src literal dedupe q k seen [] c d) (hm : m ∈ (carried src literal).take k)
    (hseen : seen m.uid = false) (hq : m.uid < q) (hmark : mark sha256 m ∈ c.ledger.records)
    (hindex : c'.index = (claimIndex c.index (finger sha256 m)).2) (hl : c'.ledger = c.ledger)
    (hstate : c'.state = c.state) :
    Going sha256 src literal dedupe q k (visit seen m.uid) [] c' d := by
  obtain ⟨target, index, ledger, state, report⟩ := c'
  dsimp only at hindex hl hstate
  subst hindex hl hstate
  have hcore := (h.core.claimed carried_sorted hm hseen).2
  refine ⟨h.bodies, hcore, h.sorted, h.cursor, h.writable, h.ledger, h.state, h.reach,
    fun u hu => ?_, fun a ha hle => ?_, fun hv a ha hs hnext => ?_, .nil, by simp⟩
  · rcases Bool.or_eq_true_iff.1 hu with hu | heq
    · exact h.seen_lt u hu
    · rw [of_decide_eq_true heq]
      exact hq
  · simp [visit, h.passed a ha hle]
  · rcases Bool.or_eq_true_iff.1 hs with hs | heq
    · exact h.beyond hv a ha hs hnext
    · obtain rfl := eq_of_uid_eq carried_sorted ha (mem_of_mem_take hm) (of_decide_eq_true heq)
      exact mem_append_left _ hmark

variable (sha256 src literal) in
def Looking (dedupe : Bool) (q : ℕ) (rest : List Listed) (acc : List Listed × Copy) (d : Disk) :
    Prop :=
  acc.2.state.inProgress = dedupe ∧ Known src (acc.1 ++ rest) ∧
    ∃ k seen p, p ≤ q ∧ (∀ i ∈ rest, p ≤ i.uid) ∧
      Going sha256 src literal dedupe p k seen [] acc.2 d ∧
      Todo src literal q seen acc.2.state.lastUid ((acc.1 ++ rest).map Listed.uid) ∧
      Unconfirmed sha256 src literal acc.2.ledger.records (acc.1.map Listed.uid)

lemma confirmed_spec {item : Listed} {rest : List Listed} {acc : List Listed × Copy} :
    Triple (Looking sha256 src literal dedupe q (item :: rest) acc) (confirmed acc item)
      (Looking sha256 src literal dedupe q rest) (fun _ => Sound sha256 src literal)
      (Sound sha256 src literal) := by
  refine .ofState fun d hd => ?_
  obtain ⟨pending, c⟩ := acc
  obtain ⟨hprogress, hknown, k, seen, p, hpq, hrest, hgoing, htodo, hnew⟩ := hd
  dsimp only at hprogress hknown hgoing htodo hnew
  have hsound : ∀ d', d' = d → Sound sha256 src literal d' := fun d' h => h ▸ hgoing.sound
  have hp : p ≤ item.uid := hrest item (mem_cons_self ..)
  have hlooked := hgoing.lookup hp
  obtain ⟨hfound, hrecords, -⟩ := Ledger.fingerprint_spec hgoing.sorted hgoing.cursor hp
  rw [map_append, map_cons] at htodo
  have huid : item.uid < q := (htodo.within _ (by simp)).1
  -- The lookups rise.
  have hafter : ∀ i ∈ rest, item.uid + 1 ≤ i.uid := by
    obtain ⟨-, hright, -⟩ := pairwise_append.1 htodo.sorted
    exact fun i hi => (pairwise_cons.1 hright).1 i.uid (mem_map_of_mem hi)
  rw [confirmed]
  refine .bind (R := fun _ d' => d' = d) (.read (fun _ h => h) fun d' h =>
    ⟨hsound d' h, hsound d' h⟩)
    fun _ => ?_
  dsimp only
  cases hf : (c.ledger.fingerprint item.uid).1 with
  | none =>
    refine .pure ?_
    rintro _ rfl
    refine ⟨hprogress, by simpa using hknown, k, seen, item.uid + 1, huid, hafter, hlooked,
      by simpa using htodo, fun m hm hin => ?_⟩
    dsimp only at hin ⊢
    rw [hrecords]
    rw [map_append, mem_append, map_singleton, mem_singleton] at hin
    rcases hin with hin | heq
    · exact hnew m hm hin
    · intro hmark
      have hsome := (hfound (finger sha256 m)).2 (heq ▸ hmark)
      simp [hf] at hsome
  | some f =>
    have hin := (hfound f).1 hf
    obtain ⟨m, hm, hmark⟩ := hgoing.core.confirmed _ hin
    obtain ⟨huidm, hfinger⟩ := Record.mk.inj hmark
    have hfresh : seen m.uid = false := huidm ▸ htodo.fresh item.uid (by simp)
    refine .bind ((claim_spec _ f).weaken (P := fun d' => d' = d) (fun _ h => h) (fun _ _ h => h)
      (fun _ d' h => hsound d' h.2) hsound) fun r => .pure ?_
    rintro d' ⟨rfl, hr⟩
    refine ⟨hprogress, fun i hi => hknown i ?_, k, visit seen item.uid, item.uid + 1, huid,
      hafter, ?_,
      by simpa using htodo.remove, ?_⟩
    · exact (sublist_cons_self item rest).append_left pending |>.subset hi
    · have hvisit : visit seen item.uid = visit seen m.uid := congrArg _ huidm
      rw [hvisit]
      refine hlooked.confirmed_visit hm hfresh (by omega) ?_ ?_ rfl rfl
      · rw [hrecords, ← hmark]
        exact hin
      · rw [← hfinger, hr]
    · dsimp only
      rw [hrecords]
      exact hnew

/-! ## A window -/

lemma takeBatch_append (settings : Settings) (n bytes : ℕ) (listed : List Listed) :
    takeBatch settings n bytes listed ++ listed.drop (takeBatch settings n bytes listed).length =
      listed := by
  induction listed generalizing n bytes with
  | nil => rfl
  | cons item listed ih =>
    rw [takeBatch]
    split_ifs
    · rw [length_cons, drop_succ_cons, cons_append, ih]
    · rfl

lemma takeBatch_ne_nil (settings : Settings) (h : listed ≠ []) :
    takeBatch settings 0 0 listed ≠ [] := by
  obtain ⟨item, rest, rfl⟩ := exists_cons_of_ne_nil h
  rw [takeBatch, if_pos ⟨settings.batch_pos, .inl rfl⟩]
  exact cons_ne_nil _ _

lemma batches_flatten (settings : Settings) {fuel : ℕ} (h : listed.length ≤ fuel) :
    (batches settings fuel listed).flatten = listed := by
  induction fuel generalizing listed with
  | zero => simp [batches, length_eq_zero_iff.1 (Nat.le_zero.1 h)]
  | succ fuel ih =>
    cases listed with
    | nil => rfl
    | cons item rest =>
      have hpos := length_pos_of_ne_nil (takeBatch_ne_nil settings (cons_ne_nil item rest))
      have hlen : ((item :: rest).drop (takeBatch settings 0 0 (item :: rest)).length).length ≤
          fuel := by
        rw [length_drop]
        omega
      rw [batches, flatten_cons, ih hlen]
      · exact takeBatch_append ..
      · exact cons_ne_nil item rest

lemma Going.seen_congr {seen' : ℕ → Bool} {settled : List Record}
    (h : Going sha256 src literal dedupe q k seen settled c d)
    (heq : ∀ m ∈ carried src literal, seen' m.uid = seen m.uid) (hlt : ∀ u, seen' u → u < q) :
    Going sha256 src literal dedupe q k seen' settled c d := by
  refine ⟨h.bodies, h.core.congr heq, h.sorted, h.cursor, h.writable, h.ledger, h.state,
    h.reach, hlt,
    fun m hm hle => ?_, fun hv m hm hs => h.beyond hv m hm (heq m hm ▸ hs), h.settled_sorted, ?_⟩
  · rw [heq m hm]
    exact h.passed m hm hle
  · intro r hr
    obtain ⟨m, hm, rfl, hs, hle⟩ := h.settled_seen r hr
    exact ⟨m, hm, rfl, (heq m hm).trans hs, hle⟩

lemma Going.mono {q' : ℕ} {settled : List Record}
    (h : Going sha256 src literal dedupe q k seen settled c d) (hq : q ≤ q') :
    Going sha256 src literal dedupe q' k seen settled c d :=
  { h with
    cursor := h.cursor.mono hq
    reach := lt_of_lt_of_le h.reach hq
    seen_lt := fun u hu => lt_of_lt_of_le (h.seen_lt u hu) hq }

lemma Going.confirmed_nil (h : Going sha256 src literal dedupe q k seen [] c d) :
    Confirmed sha256 src d c.ledger [] c.ledger d :=
  ⟨rfl, rfl, ⟨[], .slnil, by simp⟩, h.sorted, rfl, h.ledger, by simp, .inl rfl⟩

lemma batches_spec (hliteral : settings.literal = literal) (pending : List Listed) :
    Triple (fun d => Known src pending ∧
        InWindow sha256 src literal dedupe q (pending.map Listed.uid) c d)
      ((batches settings pending.length pending).foldlM (batch sha256 src settings dedupe) c)
      (InWindow sha256 src literal dedupe q []) (fun _ => Sound sha256 src literal)
      (Sound sha256 src literal) := by
  have hflat : (batches settings pending.length pending).flatten = pending :=
    batches_flatten settings (le_refl _)
  refine (Triple.foldlM (I := fun rest c d => Known src rest.flatten ∧
    InWindow sha256 src literal dedupe q (rest.flatten.map Listed.uid) c d) (fun items rest c => ?_)
      (batches settings pending.length pending) c).weaken (fun d hd => hflat.symm ▸ hd)
      (fun _ _ hd => hd.2) (fun _ _ h => h) fun _ h => h
  refine .assuming (p := Known src (items ++ rest.flatten)) (fun _ hd => hd.1) fun hknown => ?_
  refine (batch_spec hliteral (fun i hi => hknown i (mem_append_left _ hi))).weaken
    (fun d hd => ?_) (fun c d hd => ⟨fun i hi => hknown i (mem_append_right _ hi), hd⟩)
    (fun _ _ h => h) fun _ h => h
  rw [← map_append]
  exact hd.2

lemma window_spec (hliteral : settings.literal = literal) {last : ℕ} (hknown : Known src listed)
    (hfirst : first ≤ q) (hlisted : ∀ i ∈ listed, first ≤ i.uid)
    (htodo : Todo src literal q (below first) last (listed.map Listed.uid))
    (hupto : upto.getD 0 < q) :
    Triple (fun d => Ready sha256 src literal first c d dedupe initialized ∧
        c.state.inProgress = dedupe ∧ c.state.lastUid = last)
      (window sha256 src settings dedupe initialized c listed upto)
      (fun c' d => c'.state.inProgress = dedupe ∧
        ∃ k, Going sha256 src literal dedupe q k (below q) [] c' d)
      (fun _ => Sound sha256 src literal) (Sound sha256 src literal) := by
  rw [window]
  refine .assuming (p := c.state.inProgress = dedupe ∧ c.state.lastUid = last) (fun _ hd => hd.2)
    fun hstate => ?_
  refine .bind ((prepareMailbox_spec initialized).pre fun _ hd => hd.1) fun c₁ => ?_
  -- The lookups in the ledger.
  refine .bind ((Triple.foldlM (I := Looking sha256 src literal dedupe q)
    (fun _ _ _ => confirmed_spec) listed ([], c₁)).pre fun d hd => ?_) fun r => ?_
  · obtain ⟨heq, k, hgoing⟩ := hd
    rw [← heq] at hstate
    refine ⟨hstate.1, hknown, k, below first, first, hfirst, hlisted, hgoing, ?_,
      by simp [Unconfirmed]⟩
    rw [hstate.2]
    exact htodo
  obtain ⟨pending, c₂⟩ := r
  dsimp only
  refine .bind ((batches_spec (q := q) hliteral pending).pre fun d hd => ?_) fun c₃ => ?_
  · obtain ⟨hprogress, hknown, k, seen, p, hpq, -, hgoing, htodo, hnew⟩ := hd
    rw [append_nil] at hknown htodo
    exact ⟨hknown, hprogress, k, seen, hgoing.mono hpq, htodo, hnew⟩
  -- The checkpoint at the end of the window.
  refine .ofState fun d hd => ?_
  obtain ⟨hprogress, k, seen, hgoing, htodo, -⟩ := hd
  have hall : ∀ m ∈ carried src literal, m.uid < q → seen m.uid := fun m hm hlt =>
    (htodo.cover m hm hlt).resolve_right (by simp)
  have hdone := hgoing.checkpoint hgoing.confirmed_nil hupto
    fun m hm hle => hall m hm (lt_of_le_of_lt hle hupto)
  rw [show ({ c₃.state with lastUid := max c₃.state.lastUid (upto.getD 0), inProgress := dedupe } :
    FolderState) = { c₃.state with lastUid := max c₃.state.lastUid (upto.getD 0) } by
      rw [← hprogress]] at hdone
  refine .bind (R := fun _ d' => d' = _) (.replace (fun d' hd' => by rw [hd']) ?_ ?_) fun _ =>
    .pure ?_
  · rintro _ rfl
    exact ⟨hgoing.sound, hgoing.sound⟩
  · rintro _ rfl
    exact ⟨hdone.sound, hdone.sound⟩
  · rintro _ rfl
    refine ⟨hprogress, k, hdone.seen_congr (fun m hm => ?_) fun u hu => by simpa [below] using hu⟩
    rw [Bool.eq_iff_iff, below, decide_eq_true_eq]
    exact ⟨hall m hm, hgoing.seen_lt m.uid⟩

/-! ## A run -/

def windowReach (first : ℕ) : Option ℕ → ℕ
  | some last => max first (last + 1)
  | none => max first (maxUid + 1)

lemma lt_windowReach (hmax : uid ≤ maxUid) :
    uid < windowReach first upto ↔ uid < first ∨ upto.all (uid ≤ ·) := by
  cases upto with
  | none => simp [windowReach, Nat.lt_succ_of_le hmax]
  | some last => simp [windowReach, Nat.lt_succ_iff]

lemma known_listUids (first : ℕ) (upto : Option ℕ) : Known src (src.listUids first upto) := by
  intro i hi
  rw [listUids_eq] at hi
  obtain ⟨m, hm, rfl⟩ := List.mem_map.1 hi
  exact ⟨m, mem_of_mem_filter hm, rfl⟩

lemma mem_listUids :
    uid ∈ (src.listUids first upto).map Listed.uid ↔
      first ≤ uid ∧ upto.all (uid ≤ ·) ∧ ∃ m ∈ src.messages, m.uid = uid := by
  rw [listUids_eq, map_map, mem_map]
  constructor
  · rintro ⟨m, hm, rfl⟩
    have := mem_filter.1 hm
    exact ⟨by simpa using (of_decide_eq_true this.2).1, (of_decide_eq_true this.2).2, m,
      this.1, rfl⟩
  · rintro ⟨hfirst, hupto, m, hm, rfl⟩
    exact ⟨m, mem_filter.2 ⟨hm, decide_eq_true ⟨hfirst, hupto⟩⟩, rfl⟩

lemma todo_listUids {last : ℕ} (upto : Option ℕ) (hlast : last < first) :
    Todo src literal (windowReach first upto) (below first) last
      ((src.listUids first upto).map Listed.uid) := by
  have hmax : ∀ u ∈ (src.listUids first upto).map Listed.uid, u ≤ maxUid := by
    intro u hu
    obtain ⟨-, -, m, hm, rfl⟩ := mem_listUids.1 hu
    exact (src.uid_range m hm).2
  refine ⟨?_, fun u hu => ⟨?_, hmax u hu⟩, fun u hu => ?_, fun u hu => ?_, fun m hm hlt => ?_⟩
  · rw [listUids_eq, map_map, pairwise_map]
    exact src.sorted.sublist filter_sublist
  · exact (lt_windowReach (hmax u hu)).2 (.inr (mem_listUids.1 hu).2.1)
  · simpa [below] using (mem_listUids.1 hu).1
  · exact lt_of_lt_of_le hlast (mem_listUids.1 hu).1
  · by_cases hfirst : m.uid < first
    · exact .inl (decide_eq_true hfirst)
    · refine .inr (mem_listUids.2 ⟨Nat.not_lt.1 hfirst, ?_, m, (mem_carried.1 hm).1, rfl⟩)
      exact ((lt_windowReach (carried_range hm).2).1 hlt).resolve_left hfirst

lemma list_spec (hexists : examined.exists = src.messages.length) (p : Place) (upto : Option ℕ) :
    Triple P (list src examined p upto) (fun r d => P d ∧ r.1 = src.listUids p.from upto)
      (fun _ => P) P := by
  rw [list]
  split_ifs with hempty hlimit
  · refine .pure fun d hd => ⟨hd, ?_⟩
    refine (eq_nil_iff_forall_not_mem.2 fun i hi => ?_).symm
    obtain ⟨hfirst, hupto, m, hm, -⟩ := mem_listUids.1 (mem_map_of_mem (f := Listed.uid) hi)
    rcases hempty with ⟨hzero, -⟩ | hbehind
    · exact absurd hm (by simp [length_eq_zero_iff.1 (hexists.symm.trans hzero)])
    · cases upto with
      | none => simp at hbehind
      | some last =>
        simp only [Option.any_some, Option.all_some, decide_eq_true_eq] at hbehind hupto
        omega
  · exact .fail fun d hd => hd
  · exact .bind (R := fun r d => P d ∧ r = src.listUids p.from upto)
      (.read (fun d hd => ⟨hd, rfl⟩) fun d hd => ⟨hd, hd⟩) fun r => .pure fun d hd => hd

lemma Ready.report {report : FolderReport}
    (h : Ready sha256 src literal first c d dedupe initialized) :
    Ready sha256 src literal first { c with report := report } d dedupe initialized := by
  cases h with
  | going hprepared hgoing =>
    exact .going hprepared (hgoing.frame _ _ rfl rfl rfl rfl rfl hgoing.state)
  | replay hsound hbodies hreach hahead hgoing =>
    exact .replay hsound hbodies hreach hahead fun t ht =>
      (hgoing t ht).frame _ _ rfl rfl rfl rfl rfl (hgoing t ht).state

variable (sha256 src literal) in
def Full (dedupe : Bool) (c : Copy) (d : Disk) : Prop :=
  ∃ q k seen, Going sha256 src literal dedupe q k seen [] c d ∧
    ∀ m ∈ carried src literal, seen m.uid

lemma count_spec (examined : Examined) (listed : List Listed) :
    Triple P (count examined c listed)
      (fun c' d => P d ∧ ∃ report, c' = { c with report := report }) (fun _ => P) P := by
  rw [count]
  dsimp only
  split_ifs
  all_goals first
    | exact .fail fun d hd => hd
    | exact .pure fun d hd => ⟨hd, _, rfl⟩

lemma loop_dry (hdry : settings.dryRun = true) (hexists : examined.exists = src.messages.length)
    (fuel : ℕ) (p : Place) (c : Copy) :
    Triple P (loop sha256 src settings examined dedupe fuel p c) (fun _ => P) (fun _ => P) P := by
  induction fuel generalizing p c with
  | zero => exact .fail fun d hd => hd
  | succ fuel ih =>
    rw [loop]
    refine .bind ((list_spec hexists p _).post fun _ d hd => hd.1) fun r => ?_
    refine .bind ((count_spec examined r.1).post fun _ d hd => hd.1) fun c => ?_
    rw [if_pos hdry]
    refine .bind (R := fun _ => P) (.pure fun d hd => hd) fun c => ?_
    split
    · exact ih _ _
    · exact .pure fun d hd => hd

lemma Place.next_eq_some
    (h : p.next examined (windowEnd examined p.from p.width p.tail) empty windows = some p') :
    p.tail = false ∧ examined.exists ≠ 0 ∧ p'.windows = windows ∧ p'.initialized = true ∧
      ∃ last, windowEnd examined p.from p.width p.tail = some last ∧
        last = min (min (p.from + (p.width - 1)) maxUid) (examined.uidNext - 1) ∧
        (last < examined.uidNext - 1 ∧ p'.from = last + 1 ∧ p'.tail = false ∨
          last + 1 = examined.uidNext ∧ p'.from = max p.from examined.uidNext ∧
            p'.tail = true) := by
  rw [windowEnd] at h ⊢
  split_ifs at h ⊢ with hend
  · simp [next] at h
  · obtain ⟨hnext, htail⟩ := not_or.1 hend
    simp only [next] at h
    generalize (if empty then min (p.width * 2) maxUid else 10000) = width at h
    split_ifs at h with hempty hmore
    · obtain rfl := Option.some.inj h
      exact ⟨by simpa using htail, hempty, rfl, rfl, _, rfl, rfl,
        .inl ⟨hmore, rfl, by simpa using htail⟩⟩
    · obtain rfl := Option.some.inj h
      exact ⟨by simpa using htail, hempty, rfl, rfl, _, rfl, rfl, .inr ⟨by omega, rfl, rfl⟩⟩

lemma Place.next_from (hfrom : p.tail = false → p.from ≤ maxUid + 1)
    (h : p.next examined (windowEnd examined p.from p.width p.tail) empty windows = some p') :
    p'.from = windowReach p.from (windowEnd examined p.from p.width p.tail) ∧
      p'.initialized = true ∧ (p'.tail = false → p'.from ≤ maxUid + 1) := by
  obtain ⟨htail, -, -, hinit, last, hend, hlast, hcases⟩ := Place.next_eq_some h
  have hfrom := hfrom htail
  rw [hend, windowReach]
  generalize maxUid = bound at hfrom hlast ⊢
  obtain ⟨hmore, hfrom', -⟩ | ⟨hbehind, hfrom', htail'⟩ := hcases
  · exact ⟨by omega, hinit, fun _ => by omega⟩
  · exact ⟨by omega, hinit, fun h => by simp [htail'] at h⟩

lemma Place.next_eq_none (h : p.next examined upto empty windows = none) :
    upto = none ∨ examined.exists = 0 := by
  cases upto with
  | none => exact .inl rfl
  | some last =>
    refine .inr ?_
    by_contra hempty
    simp only [next, if_neg hempty] at h
    split_ifs at h

lemma loop_spec (hliteral : settings.literal = literal) (hdry : settings.dryRun = false)
    (hexists : examined.exists = src.messages.length) (fuel : ℕ) (p : Place) (c : Copy)
    (hfrom : p.tail = false → p.from ≤ maxUid + 1) :
    Triple (fun d => Ready sha256 src literal p.from c d dedupe p.initialized ∧
        c.state.inProgress = dedupe)
      (loop sha256 src settings examined dedupe fuel p c) (Full sha256 src literal dedupe)
      (fun _ => Sound sha256 src literal) (Sound sha256 src literal) := by
  induction fuel generalizing p c with
  | zero => exact .fail fun d hd => hd.1.sound
  | succ fuel ih =>
    rw [loop]
    refine .bind ((list_spec hexists p _).weaken (fun _ hd => hd) (fun _ _ hd => hd)
      (fun _ _ hd => hd.1.sound) fun _ hd => hd.1.sound) fun r => ?_
    set upto := windowEnd examined p.from p.width p.tail with hupto
    refine .assuming (p := r.1 = src.listUids p.from upto) (fun _ hd => hd.2) fun hlisted => ?_
    refine .bind ((count_spec examined r.1).weaken (fun _ hd => hd.1) (fun _ _ hd => hd)
      (fun _ _ hd => hd.1.sound) fun _ hd => hd.1.sound) fun c₁ => ?_
    rw [hlisted, if_neg (by simp [hdry])]
    -- The window sees everything up to where it ends.
    refine .ofState fun d hd => ?_
    obtain ⟨⟨hready, hprogress⟩, report, rfl⟩ := hd
    have hfirst : p.from ≤ windowReach p.from upto := by
      cases upto <;> exact le_max_left ..
    have hend : upto.getD 0 < windowReach p.from upto := by
      cases upto with
      | none => exact lt_of_lt_of_le (Nat.succ_pos maxUid) (le_max_right ..)
      | some last => exact lt_of_lt_of_le (Nat.lt_succ_self last) (le_max_right ..)
    refine .bind ((window_spec hliteral (known_listUids p.from upto) hfirst
      (fun i hi => (mem_listUids.1 (mem_map_of_mem hi)).1)
      (todo_listUids upto hready.reach) hend).pre ?_) fun c₂ => ?_
    · rintro _ rfl
      exact ⟨hready.report, hprogress, rfl⟩
    cases hnext : p.next examined upto (src.listUids p.from upto).isEmpty r.2 with
    | some p' =>
      obtain ⟨hp', hinit, htail⟩ := Place.next_from hfrom hnext
      refine (ih p' c₂ htail).pre fun d hd => ?_
      obtain ⟨hprogress, k, hgoing⟩ := hd
      rw [hp', hinit]
      exact ⟨.going (.inl rfl) hgoing, hprogress⟩
    | none =>
      refine .pure fun d hd => ?_
      obtain ⟨-, k, hgoing⟩ := hd
      refine ⟨_, k, _, hgoing, fun m hm => decide_eq_true ?_⟩
      rcases Place.next_eq_none hnext with hnone | hempty
      · rw [hnone]
        exact lt_of_lt_of_le (Nat.lt_succ_of_le (carried_range hm).2) (le_max_right ..)
      · have hnil : src.messages = [] := length_eq_zero_iff.1 (hexists.symm.trans hempty)
        exact absurd (mem_carried.1 hm).1 (by simp [hnil])

lemma openLedger_frame {writable : Bool} {records : List Record}
    (hholds : src.uidValidity ≠ 0 → Holds sha256 src.uidValidity d.ledger records)
    (hnone : src.uidValidity = 0 → records = []) :
    let Same : Disk → Prop := fun d' => d'.mailbox = d.mailbox ∧ d'.state = d.state ∧
      (src.uidValidity ≠ 0 → Holds sha256 src.uidValidity d'.ledger records)
    Triple (· = d) (openLedger sha256 src.uidValidity writable)
      (fun l d' => Same d' ∧ l.records = records ∧ l.current = none ∧
        l.writable = decide (writable = true ∧ src.uidValidity ≠ 0) ∧
        (src.uidValidity ≠ 0 → l.Fits sha256 src.uidValidity d'.ledger))
      (fun _ => Same) Same := by
  intro Same
  by_cases hv : src.uidValidity = 0
  · rw [openLedger, if_pos hv]
    refine .pure ?_
    rintro _ rfl
    exact ⟨⟨rfl, rfl, hholds⟩, (hnone hv).symm, rfl, by simp [Ledger.empty, hv], fun h =>
      absurd hv h⟩
  · refine (openLedger_spec src.uidValidity_lt hv writable).weaken (P := fun d' =>
      d'.mailbox = d.mailbox ∧ d'.state = d.state ∧ Holds sha256 src.uidValidity d'.ledger records)
      ?_ ?_ ?_ ?_
    · rintro _ rfl
      exact ⟨rfl, rfl, hholds hv⟩
    · rintro l d' ⟨⟨hmail, hstate, hl⟩, hrecords, hw, hcurrent, hfits⟩
      exact ⟨⟨hmail, hstate, fun _ => hl⟩, hrecords, hcurrent, by simp [hw, hv], fun _ => hfits⟩
    · rintro _ d' ⟨-, hmail, hstate, hl⟩
      exact ⟨hmail, hstate, fun _ => hl⟩
    · rintro d' ⟨hmail, hstate, hl⟩
      exact ⟨hmail, hstate, fun _ => hl⟩

variable (sha256 src literal) in
/-- A sound disk with `k` messages, and its ledger when it has been opened for writing. -/
structure Opened (k : ℕ) (l : Ledger) (d : Disk) : Prop where
  bodies : Bodies src literal k d
  holds : src.uidValidity ≠ 0 → Holds sha256 src.uidValidity d.ledger l.records
  confirmed : ∀ r ∈ l.records, ∃ m ∈ (carried src literal).take k, r = mark sha256 m
  state : src.uidValidity ≠ 0 → StateOk sha256 src literal k l.records d.state
  sorted : l.records.Pairwise (·.uid < ·.uid)
  current : l.current = none
  writable : l.writable = decide (src.uidValidity ≠ 0)
  fits : src.uidValidity ≠ 0 → l.Fits sha256 src.uidValidity d.ledger

lemma Opened.going (h : Opened sha256 src literal k c.ledger d) (hfirst : 0 < first)
    (hmax : first ≤ maxUid) (hlast : c.state.lastUid = first - 1)
    (hstored : ∀ m ∈ carried src literal, m.uid < first → m ∈ (carried src literal).take k)
    (hmatches : Matches sha256 (carried src literal) c.ledger.records k (below first) dedupe
      c.index) : Going sha256 src literal dedupe first k (below first) [] c d := by
  have hnext : nextUid c.state.lastUid = first := by
    rw [hlast, nextUid, Nat.sub_add_cancel hfirst]
    exact min_eq_left hmax
  have hcore : Core sha256 (carried src literal) dedupe c.index c.ledger.records k (below first) :=
    ⟨fun m hm hs => hstored m hm (of_decide_eq_true hs), h.confirmed, hmatches⟩
  refine ⟨h.bodies, hcore, h.sorted, Ledger.cursor_of_current_none h.current first, h.writable,
    fun hv => ⟨h.holds hv, h.fits hv⟩, h.state, ?_, fun u hu => of_decide_eq_true hu,
    fun m hm hle => ?_, fun hv m hm hs hle => ?_, .nil, by simp⟩
  · rw [hlast]
    exact Nat.sub_lt hfirst Nat.one_pos
  · rw [hlast] at hle
    exact decide_eq_true (lt_of_le_of_lt hle (Nat.sub_lt hfirst Nat.one_pos))
  · rw [hnext] at hle
    exact absurd (of_decide_eq_true hs) (Nat.not_lt.2 hle)

lemma Opened.ready (h : Opened sha256 src literal k c.ledger d) (hindex : c.index = none)
    (hlast : c.state.lastUid = (startOf src.uidValidity d.state).1 - 1) :
    Ready sha256 src literal (startOf src.uidValidity d.state).1 c d
      (startOf src.uidValidity d.state).2 false := by
  have hone : 1 ≤ maxUid := by decide
  have hpos : ∀ m ∈ carried src literal, 1 ≤ m.uid := fun m hm => (carried_range hm).1
  have hsound : Sound sha256 src literal d :=
    ⟨k, c.ledger.records, h.bodies, fun hv => ⟨h.holds hv, h.confirmed, h.state hv⟩⟩
  have hstored : ∀ m ∈ carried src literal, m.uid < 1 → m ∈ (carried src literal).take k :=
    fun m hm hlt => absurd hlt (Nat.not_lt.2 (hpos m hm))
  -- A replay has seen nothing.
  have hreplay : c.state.lastUid = 1 - 1 → Ready sha256 src literal 1 c d true false := by
    intro hlast
    refine .replay hsound h.bodies (by rw [hlast]; decide) hpos fun t ht => ?_
    have h' : Opened sha256 src literal k { c with index := some t }.ledger d := h
    exact h'.going Nat.one_pos hone hlast hstored (.replay (le_refl k) ht fun m hm _ => hm)
  have hstate := h.state
  cases hsaved : d.state with
  | none =>
    rw [hsaved] at hlast hstate
    by_cases hv : src.uidValidity = 0
    · simp only [startOf, hv, decide_true] at hlast ⊢
      exact hreplay hlast
    · -- The first run, with an empty mailbox.
      obtain rfl : k = 0 := (hstate hv).absent rfl
      simp only [startOf, hv, decide_false] at hlast ⊢
      refine .going (.inr rfl) (h.going Nat.one_pos hone hlast hstored ?_)
      rw [hindex]
      exact .resume fun m hm => absurd hm (by simp)
  | some st =>
    rw [hsaved] at hlast hstate
    rw [startOf] at hlast ⊢
    split_ifs at hlast ⊢ with hsame hprogress
    · exact hreplay hlast
    · have hsettled := (hstate hsame.1).trusted st rfl hsame.2 (by simpa using hprogress)
      refine .going (.inr rfl) (h.going (nextUid_pos _) (min_le_right ..) hlast
        (fun m hm hlt => ?_) ?_)
      · exact hsettled.passed m hm (le_of_lt_nextUid hlt)
      · rw [hindex]
        exact .resume fun m hm hs => hsettled.beyond m hm (Nat.not_lt.1 (of_decide_eq_false hs))
    · exact hreplay hlast

lemma startOf_le (uidValidity : ℕ) (saved : Option FolderState) :
    (startOf uidValidity saved).1 ≤ maxUid := by
  have hone : 1 ≤ maxUid := by decide
  cases saved with
  | none => exact hone
  | some st =>
    rw [startOf]
    split_ifs
    · exact hone
    · exact min_le_right ..
    · exact hone

lemma Full.sound_done (h : Full sha256 src literal dedupe c d) {state : FolderState}
    (hlast : state.lastUid = c.state.lastUid) :
    Sound sha256 src literal { d with state := some state } ∧
      d.mailbox.map Stored.content = (carried src literal).map Message.content := by
  obtain ⟨q, k, seen, hgoing, hall⟩ := h
  constructor
  · refine (hgoing.frame c { d with state := some state } rfl rfl rfl rfl rfl
      fun hv => ⟨nofun, fun st hst _ _ => ?_⟩).sound
    obtain rfl := Option.some.inj hst
    rw [hlast]
    exact hgoing.settled_state hv (.inr hall)
  · rw [hgoing.bodies, take_eq_self carried_sorted fun m hm =>
      hgoing.core.seen_stored m hm (hall m hm)]

lemma folder_spec (hliteral : settings.literal = literal)
    (hexists : examined.exists = src.messages.length) (target : Target) :
    Triple (Sound sha256 src literal) (folder sha256 src settings examined target)
      (fun _ d => Sound sha256 src literal d ∧ (settings.dryRun = false →
        d.mailbox.map Stored.content = (carried src literal).map Message.content))
      (fun _ => Sound sha256 src literal) (Sound sha256 src literal) := by
  refine .ofState fun d hd => ?_
  -- Without a UIDVALIDITY there are no records.
  obtain ⟨k, records, hbodies, hrecords, hconfirmed, hnone, hsorted⟩ : ∃ k records,
      Bodies src literal k d ∧ (src.uidValidity ≠ 0 →
        Holds sha256 src.uidValidity d.ledger records ∧
          StateOk sha256 src literal k records d.state) ∧
      (∀ r ∈ records, ∃ m ∈ (carried src literal).take k, r = mark sha256 m) ∧
      (src.uidValidity = 0 → records = []) ∧ records.Pairwise (·.uid < ·.uid) := by
    obtain ⟨k, records, hbodies, hrest⟩ := hd
    by_cases hv : src.uidValidity = 0
    · exact ⟨k, [], hbodies, fun h => absurd hv h, by simp, fun _ => rfl, .nil⟩
    · obtain ⟨hholds, hconfirmed, hstate⟩ := hrest hv
      exact ⟨k, records, hbodies, fun _ => ⟨hholds, hstate⟩, hconfirmed, fun h => absurd h hv,
        hholds.sorted⟩
  have hsame : ∀ d' : Disk, d'.mailbox = d.mailbox ∧ d'.state = d.state ∧
      (src.uidValidity ≠ 0 → Holds sha256 src.uidValidity d'.ledger records) →
      Sound sha256 src literal d' := by
    rintro d' ⟨hmail, hstate, hholds⟩
    refine ⟨k, records, by rwa [Bodies, hmail], fun hv => ⟨hholds hv, hconfirmed, ?_⟩⟩
    rw [hstate]
    exact (hrecords hv).2
  rw [folder]
  refine .readThen (fun _ h => h ▸ ⟨hd, hd⟩) fun saved => ?_
  refine .assuming (p := saved = d.state) (fun d' h => h.1 ▸ h.2) fun hsaved => ?_
  subst hsaved
  refine .bind ((openLedger_frame (fun hv => (hrecords hv).1) hnone).weaken (fun _ h => h.1)
    (fun _ _ h => h) (fun _ => hsame) hsame) fun l => ?_
  refine .ofState fun d₁ hd₁ => ?_
  obtain ⟨hsame₁, hl, hcurrent, hwritable, hfits⟩ := hd₁
  have hsound₁ := hsame d₁ hsame₁
  obtain ⟨hmail₁, hstate₁, hholds₁⟩ := hsame₁
  by_cases hdry : settings.dryRun
  · refine .bind (R := fun _ => Sound sha256 src literal) ((loop_dry hdry hexists _ _ _).pre ?_)
      fun c => ?_
    · rintro _ rfl
      exact hsound₁
    · rw [if_pos hdry]
      exact .pure fun d' hd' => ⟨hd', fun h => absurd (hdry.symm.trans h) (by decide)⟩
  · have hdry' : settings.dryRun = false := by simpa using hdry
    have hopened : Opened sha256 src literal k l d₁ := by
      subst hl
      refine ⟨by rwa [Bodies, hmail₁], hholds₁, hconfirmed, fun hv => ?_, hsorted, hcurrent,
        ?_, hfits⟩
      · rw [hstate₁]
        exact (hrecords hv).2
      · simpa [hdry'] using hwritable
    refine .bind ((loop_spec hliteral hdry' hexists _ _ _
      fun _ => Nat.le_succ_of_le (startOf_le ..)).pre ?_) fun c => ?_
    · rintro _ rfl
      rw [← hstate₁]
      exact ⟨hopened.ready rfl rfl, rfl⟩
    · rw [if_neg hdry]
      refine .bind (R := fun _ d' => Sound sha256 src literal d' ∧
        d'.mailbox.map Stored.content = (carried src literal).map Message.content)
        (.replace (fun d' hd' => hd'.sound_done rfl) (fun d' hd' => ?_) fun d' hd' => ?_)
        fun _ => .pure fun d' hd' => ⟨hd'.1, fun _ => hd'.2⟩
      · obtain ⟨q, k, seen, hgoing, -⟩ := hd'
        exact ⟨hgoing.sound, hgoing.sound⟩
      · exact ⟨And.left (hd'.sound_done rfl), And.left (hd'.sound_done rfl)⟩

/-! ## The number of windows -/

/-- Windows that a run can still list, and the two that it may pass over. -/
def Place.left (examined : Examined) (p : Place) : ℕ :=
  windowLimit examined - p.windows + if p.tail then 1 else 2

lemma Place.left_next (hfrom : p.tail = false → p.from ≤ maxUid)
    (hwindows : windows = p.windows + 1 ∧ p.windows < windowLimit examined ∨
      windows = p.windows ∧ (examined.exists = 0 ∨
        (windowEnd examined p.from p.width p.tail).any (p.from > ·)))
    (h : p.next examined (windowEnd examined p.from p.width p.tail) empty windows = some p') :
    p'.left examined < p.left examined ∧ (p'.tail = false → p'.from ≤ maxUid) := by
  have hbound := examined.uidNext_le
  obtain ⟨htail, hne, hcount, -, last, hend, hlast, hcases⟩ := Place.next_eq_some h
  have hfrom := hfrom htail
  simp only [hend, Option.any_some, decide_eq_true_eq] at hwindows
  simp only [left, htail, hcount]
  generalize windowLimit examined = limit at hwindows ⊢
  generalize maxUid = bound at hfrom hbound hlast ⊢
  obtain ⟨hmore, hfrom', htail'⟩ | ⟨-, -, htail'⟩ := hcases
  · -- The window is not behind its end, so it was listed.
    obtain ⟨rfl, hlt⟩ | ⟨-, hskipped⟩ := hwindows
    · exact ⟨by simp only [htail']; omega, fun _ => by omega⟩
    · have hgt := hskipped.resolve_left hne
      omega
  · simp only [htail', if_true, Bool.false_eq_true, if_false]
    exact ⟨by omega, nofun⟩

lemma list_windows (examined : Examined) (p : Place) (upto : Option ℕ) :
    Triple (fun _ => True) (list src examined p upto)
      (fun r _ => r.2 = p.windows + 1 ∧ p.windows < windowLimit examined ∨
        r.2 = p.windows ∧ (examined.exists = 0 ∨ upto.any (p.from > ·)))
      (fun _ _ => True) fun _ => True := by
  rw [list]
  split_ifs with hskip hlimit
  · exact .pure fun _ _ => .inr ⟨rfl, hskip.imp_left And.left⟩
  · exact .fail fun _ _ => trivial
  · exact .bind (R := fun _ _ => True) (.read (fun _ _ => trivial) fun _ _ => ⟨trivial, trivial⟩)
      fun _ => .pure fun _ _ => .inl ⟨rfl, Nat.not_le.1 hlimit⟩

lemma loop_enough (fuel : ℕ) {c : Copy} (hfrom : p.tail = false → p.from ≤ maxUid)
    (hfuel : p.left examined ≤ fuel) :
    loop sha256 src settings examined dedupe (fuel + 1) p c =
      loop sha256 src settings examined dedupe fuel p c := by
  induction fuel generalizing p c with
  | zero =>
    rw [Place.left] at hfuel
    split_ifs at hfuel <;> omega
  | succ fuel ih =>
    rw [loop, loop]
    refine bind_congr ((list_windows examined p _).post fun r _ hr => ?_)
    refine congrArg (count examined c r.1 >>= ·) (funext fun c₁ => ?_)
    refine congrArg (_ >>= ·) (funext fun c₂ => ?_)
    cases hnext : p.next examined (windowEnd examined p.from p.width p.tail) r.1.isEmpty r.2 with
    | none => rfl
    | some p' =>
      obtain ⟨hleft, hfrom'⟩ := Place.left_next hfrom hr hnext
      exact ih hfrom' (Nat.le_of_lt_succ (lt_of_lt_of_le hleft hfuel))

lemma sound_empty : Sound sha256 src literal Disk.empty :=
  ⟨0, [], rfl, fun _ => ⟨holds_none _, by simp, fun _ => rfl, nofun⟩⟩

end

/-! ## All runs -/

/-- A run: how it is set up, what the source says at its start, and what goes wrong in it. -/
structure Attempt where
  settings : Settings
  examined : Examined
  target : Target
  faults : List (Option Fault)

def Attempt.prog (sha256 : List UInt8 → Digest) (src : Source) (a : Attempt) : Run FolderReport :=
  folder sha256 src a.settings a.examined a.target

def afterRuns (sha256 : List UInt8 → Digest) (src : Source) (attempts : List Attempt) : Disk :=
  runs (attempts.map fun a => (a.prog sha256 src, a.faults)) Disk.empty

/-- After any runs, each stopped or failed anywhere, a run that completes leaves the mailbox with
one copy of each message that is neither marked deleted nor too large, in the source's order, and
nothing else. -/
theorem copied_exactly_once (sha256 : List UInt8 → Digest) (src : Source) (literal : ℕ)
    (attempts : List Attempt) (final : Attempt)
    (hlimit : ∀ a ∈ final :: attempts, a.settings.literal = literal)
    (hexists : ∀ a ∈ final :: attempts, a.examined.exists = src.messages.length)
    (hdry : final.settings.dryRun = false) {report : FolderReport} {rest : List (Option Fault)}
    {d : Disk}
    (hdone : final.prog sha256 src final.faults (afterRuns sha256 src attempts) =
      (.done report, rest, d)) :
    d.mailbox.map Stored.content = (carried src literal).map Message.content := by
  obtain ⟨hfinal, hlimit⟩ := forall_mem_cons.1 hlimit
  obtain ⟨hexists', hexists⟩ := forall_mem_cons.1 hexists
  have hsound : Sound sha256 src literal (afterRuns sha256 src attempts) := by
    refine runs_preserve _ (fun m hm => ?_) sound_empty
    obtain ⟨a, ha, rfl⟩ := List.mem_map.1 hm
    exact (folder_spec (hlimit a ha) (hexists a ha) a.target).post fun _ _ h => h.1
  have hend := folder_spec hfinal hexists' final.target final.faults _ hsound
  change Ends _ _ _ (final.prog sha256 src final.faults (afterRuns sha256 src attempts)) at hend
  rw [hdone] at hend
  exact hend.2 hdry

def toyHash (octets : List UInt8) : Digest :=
  ⟨(octets ++ List.replicate 32 0).take 32, by simp⟩

def twins : Source where
  uidValidity := 7
  messages := [⟨1, 1, [], none, [65]⟩, ⟨2, 1, [], none, [65]⟩,
    ⟨4, 1, ["\\Deleted".toList], none, [66]⟩]
  order := List.reverse
  sorted := by decide
  uid_range := by decide
  uidValidity_lt := by decide
  order_perm := reverse_perm

def twinsAttempt (faults : List (Option Fault)) : Attempt :=
  ⟨⟨false, 100, 2, 1000, by decide⟩, ⟨3, 5, by decide⟩, ⟨none, 0, 100⟩, faults⟩

/-- A run is stopped with one of the twins stored; the next one claims it for the first and stores
the second. -/
theorem copied_exactly_once_twins :
    let first := twinsAttempt (List.replicate 10 none ++ [some (.stop 0)])
    (afterRuns toyHash twins [first]).mailbox.length = 1 ∧
      ∃ report rest d, (twinsAttempt []).prog toyHash twins [] (afterRuns toyHash twins [first]) =
          (.done report, rest, d) ∧
        d.mailbox.map Stored.content = [([65], none), ([65], none)] := by
  intro first
  have hdone : ((twinsAttempt []).prog toyHash twins [] (afterRuns toyHash twins [first])).1 =
      .done ⟨3, 3, 1, 1, 1, 1, 0, 0, 0, false⟩ := by decide +kernel
  obtain ⟨rest, d, hrun⟩ := exists_of_done hdone
  refine ⟨by decide +kernel, _, rest, d, hrun, ?_⟩
  have hcopied := copied_exactly_once toyHash twins 100 [first] (twinsAttempt [])
    (by simp [first, twinsAttempt]) (by simp [first, twinsAttempt, twins]) rfl hrun
  exact hcopied.trans (by decide +kernel)

end Epistle.Migrate
