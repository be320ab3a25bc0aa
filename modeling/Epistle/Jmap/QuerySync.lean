import Epistle.Jmap.QueryChanges

/-!
# A client that follows an email query

Deliveries, expunges and moves change a mailbox in two steps: the files first (`storage/delivery`,
`imap/snapshot.rs`), then the journal. `Email/query` and `Email/queryChanges` read in two steps
as well: the list first, then the journal. The steps interleave freely. A move is a delivery of a
copy with an id of its own into one mailbox and an expunge in another. Any number of sessions may
expunge one message; each records the destruction.

The list is read through the index of the mailbox (`imap/index`), which is served while its stamp,
the mod-sequence counter and the number of message files, is the mailbox's own. A delivery and a
POP3 session do not advance the counter, so a removal and a delivery can leave an old index in
place.

The model follows one mailbox and one client of it. `here` and `elsewhere` record which ids were
given out in this mailbox and in others; no id is given out twice.

* `exact_after_undisturbed_call`: after a call that no change overlaps, the client has the list of
  the mailbox.
-/

namespace Epistle.Jmap

open Lib List Option

variable {ι : Type*} [LinearOrder ι]

attribute [local instance] decidableMem

/-! ## The mailbox -/

/-- A mailbox, with the changes that are between their two steps. -/
structure World (ι : Type*) where
  name : ι
  files : List ι
  /-- Published, and not yet recorded as created. -/
  uncreated : List ι
  /-- Removed, and not yet recorded as destroyed: one for each session that removed it. -/
  undestroyed : List ι
  here : List ι
  elsewhere : List ι
  journal : Journal ι
  /-- The mod-sequence counter, one in a new mailbox. -/
  modseq : ℕ
  /-- The ids an earlier reader found, with the stamp of the mailbox at that time. -/
  index : Option ((ℕ × ℕ) × List ι)

namespace World

/-- A new mailbox. -/
def empty (name : ι) : World ι := ⟨name, [], [], [], [], [], .empty, 1, none⟩

/-- The mod-sequence counter, and how many message files there are. -/
def currentGeneration (w : World ι) : ℕ × ℕ := (max w.modseq 1, w.files.length)

/-- The messages of the mailbox as a reader finds them: those of an index with the current stamp, or
those of a scan, which becomes the index. -/
def opened (w : World ι) : List ι × World ι :=
  let scanned := (w.files, { w with index := some (w.currentGeneration, w.files) })
  match w.index with
  | none => scanned
  | some (generation, ids) => if generation = w.currentGeneration then (ids, w) else scanned

/-- An index with the current stamp lists the files there are. -/
def fresh (w : World ι) : Bool :=
  w.index.all fun index => index.1 = w.currentGeneration → index.2.Perm w.files

/-- No change is between its two steps. -/
def idle (w : World ι) : Bool := w.uncreated = [] ∧ w.undestroyed = []

end World

/-- A step of a session that changes mail. -/
inductive Action (ι : Type*)
  /-- A message is renamed into place. -/
  | publish (id : ι)
  | recordCreated (id : ι)
  | remove (id : ι)
  | recordDestroyed (ids : List ι)
  /-- A line about flags, a mailbox or a message elsewhere. -/
  | note (change : Change ι)
  | trim (floor : ℕ)
  /-- The mod-sequence counter goes up: messages were expunged, or flags stored. -/
  | advance
  /-- Another reader opens the mailbox. -/
  | «open»
  deriving DecidableEq, Repr

/-- Whether a step records a creation or a destruction. -/
def Action.records : Action ι → Bool
  | .recordCreated _ | .recordDestroyed _ => true
  | _ => false

/-- Whether a step is one of a delivery, an expunge or a move. -/
def Action.changes : Action ι → Bool
  | .publish _ | .remove _ => true
  | a => a.records

namespace World

/-- One step of a session that changes mail. -/
def step (w : World ι) : Action ι → Option (World ι)
  | .publish id =>
      if id ∉ w.here ∧ id ∉ w.elsewhere then
        some { w with
          files := id :: w.files, uncreated := id :: w.uncreated, here := id :: w.here }
      else none
  | .recordCreated id =>
      if id ∈ w.uncreated then
        some { w with
          uncreated := w.uncreated.erase id
          journal := w.journal.record [⟨.email, .created, id⟩, ⟨.mailbox, .updated, w.name⟩] }
      else none
  | .remove id =>
      -- The session's snapshot may be old: the files can be gone already.
      if id ∈ w.here then
        some { w with files := w.files.erase id, undestroyed := id :: w.undestroyed }
      else none
  | .recordDestroyed ids =>
      if ids ≠ [] ∧ ids.Nodup ∧ ∀ id ∈ ids, id ∈ w.undestroyed then
        some { w with
          undestroyed := w.undestroyed.diff ids
          journal := w.journal.record
            (ids.map (⟨.email, .destroyed, ·⟩) ++ [⟨.mailbox, .updated, w.name⟩]) }
      else none
  | .note change =>
      if change.object = .mailbox ∨ change.op = .updated then
        some { w with journal := w.journal.record [change] }
      else if change.id ∉ w.here then
        some { w with
          elsewhere := change.id :: w.elsewhere, journal := w.journal.record [change] }
      else none
  | .trim floor =>
      if h : w.journal.floor ≤ floor ∧ floor ≤ w.journal.lines.length then
        some { w with journal := w.journal.trim floor h.2 }
      else none
  | .advance => some { w with modseq := w.modseq + 1 }
  | .open => some w.opened.2

end World

/-! ## The client -/

/-- The calls of a client. -/
inductive Call
  | query
  | queryChanges (max : Option ℕ)
  deriving DecidableEq, Repr

/-- Why a call for changes is not answered. -/
inductive QueryError
  | cannotCalculateChanges
  | tooManyChanges
  deriving DecidableEq, Repr

/-- A mailbox and a client of it, with the call it is in. -/
structure Sys (ι : Type*) where
  world : World ι
  client : Option (Client ι)
  call : Option (Call × List ι)
  failed : Option QueryError

/-- A step of the mailbox or of a call. -/
inductive Event (ι : Type*)
  | act (action : Action ι)
  | readList (call : Call)
  | readJournal
  deriving DecidableEq, Repr

/-- The client after a reply to `Email/queryChanges`. -/
def queryChanges (journal : Journal ι) (max : Option ℕ) (current : List ι) (c : Client ι) :
    Except QueryError (Client ι) :=
  match journal.since c.position with
  | none => .error .cannotCalculateChanges
  | some entries =>
      let folded := fold entries .email none false journal.current
      let (removed, added) := diff folded current .email
      if max.any (removed.length + added.length > ·) then .error .tooManyChanges
      else .ok ⟨c.apply removed added, journal.current⟩

namespace Sys

/-- A new account, and a client that knows nothing. -/
def start (name : ι) : Sys ι := ⟨.empty name, none, none, none⟩

/-- One step. -/
def step (s : Sys ι) : Event ι → Option (Sys ι)
  | .act action => do
      let w ← s.world.step action
      return { s with world := w }
  | .readList call =>
      if s.call = none ∧ (call = .query ∨ s.client.isSome) then
        some { s with
          world := s.world.opened.2, call := some (call, emailQueryIds s.world.opened.1) }
      else none
  | .readJournal =>
      match s.call, s.client with
      | none, _ => none
      | some (.query, list), _ =>
          some { s with
            client := some ⟨list, s.world.journal.current⟩, call := none, failed := none }
      | some (.queryChanges _, _), none => none
      | some (.queryChanges max, list), some c =>
          match queryChanges s.world.journal max list c with
          | .error e => some { s with call := none, failed := some e }
          | .ok c => some { s with client := some c, call := none, failed := none }

/-- Steps one after the other. -/
def run (s : Sys ι) : List (Event ι) → Option (Sys ι)
  | [] => some s
  | e :: events => do (← s.step e).run events

/-- The condition on a step: nothing is recorded during a call, no delivery is half done when a
query reads its list and no change at all when the changes are asked for, and the index that is read
is not an old one. -/
def meets (s : Sys ι) : Event ι → Bool
  | .act action => action.records → s.call = none
  | .readList .query => s.world.uncreated = [] ∧ s.world.fresh
  | .readList (.queryChanges _) => s.world.idle && s.world.fresh
  | .readJournal => true

/-- Every step of a run meets the condition. -/
def Meets (s : Sys ι) : List (Event ι) → Bool
  | [] => true
  | e :: events => s.meets e && match s.step e with
      | none => true
      | some t => t.Meets events

end Sys

/-! ## What a step of the mailbox does -/

section Ops

variable {id : ι} {a b : List (Change ι)}

variable {name : ι}

lemma opsOf_mailbox {op : Op} : opsOf .email id [⟨.mailbox, op, name⟩] = [] := by
  simp [opsOf]

lemma opsOf_created {x : ι} :
    opsOf .email id [⟨.email, .created, x⟩, ⟨.mailbox, .updated, name⟩] =
      if x = id then [.created] else [] := by
  by_cases h : x = id <;> simp [opsOf, h]

lemma opsOf_destroyed {ids : List ι} :
    opsOf .email id (ids.map (⟨.email, .destroyed, ·⟩) ++ [⟨.mailbox, .updated, name⟩]) =
      (ids.filter (· = id)).map fun _ => .destroyed := by
  rw [opsOf_append, opsOf_mailbox, append_nil]
  simp [opsOf, List.filter_map, Function.comp_def]

lemma eq_updated_of_mem_opsOf {change : Change ι} {op : Op}
    (hkind : change.object = .mailbox ∨ change.op = .updated)
    (hop : op ∈ opsOf .email id [change]) : op = .updated := by
  obtain ⟨found, hfound, rfl⟩ := List.mem_map.1 hop
  obtain ⟨hfound, hemail⟩ := mem_filter.1 hfound
  obtain rfl := mem_singleton.1 hfound
  have hemail : found.object = .email ∧ found.id = id := by simpa using hemail
  exact hkind.resolve_left fun hmailbox =>
    absurd (hmailbox.symm.trans hemail.1) (by decide)

end Ops

open World

open Journal

namespace World

/-- The changes of a message after a position. -/
def opsFrom (w : World ι) (p : ℕ) (id : ι) : List Op := opsOf .email id (w.journal.lines.drop p)

/-- What a step does, by the lines it adds. -/
structure Advances (quiet : Bool) (w : World ι) (new : List (Change ι)) (w' : World ι) : Prop where
  lines : w'.journal.lines = w.journal.lines ++ new
  here : ∀ id ∈ w.here, id ∈ w'.here
  calm : quiet → ∀ id ∈ w.here, ∀ op ∈ opsOf .email id new, op = .updated
  /-- Files change where a change is still to be recorded, or is recorded now. -/
  same : ∀ id, (quiet = false → opsOf .email id new = []) → id ∉ w'.uncreated →
    id ∉ w'.undestroyed → id ∉ w.uncreated ∧ id ∉ w.undestroyed ∧ (id ∈ w'.files ↔ id ∈ w.files)
  created : ∀ id, .created ∈ opsOf .email id new → id ∈ w.uncreated ∨ id ∉ w.here
  fresh : ∀ id ∈ w'.uncreated, id ∈ w.uncreated ∨ id ∉ w.here

/-- A step that leaves the files and the journal alone. -/
lemma advances_same (w : World ι) (modseq : ℕ) (index : Option ((ℕ × ℕ) × List ι)) (quiet : Bool) :
    Advances quiet w [] { w with modseq, index } :=
  ⟨(append_nil _).symm, fun _ hx => hx, by simp [opsOf], fun _ _ hu hd => ⟨hu, hd, Iff.rfl⟩,
    by simp [opsOf], fun _ hx => .inl hx⟩

omit [LinearOrder ι] in
lemma opened_same (w : World ι) : ∃ index, w.opened.2 = { w with index } := by
  unfold opened
  cases hindex : w.index with
  | none => exact ⟨_, rfl⟩
  | some index =>
    dsimp only
    split_ifs
    · exact ⟨w.index, rfl⟩
    · exact ⟨_, rfl⟩

lemma step_advances {w w' : World ι} {a : Action ι} (h : w.step a = some w') :
    ∃ new, Advances (!a.records) w new w' := by
  cases a with
  | publish id =>
    simp only [step, ite_none_right_eq_some, some.injEq] at h
    obtain ⟨⟨hhere, -⟩, rfl⟩ := h
    refine ⟨[], by simp, fun x hx => by simp [hx], by simp [opsOf], ?_, by simp [opsOf], ?_⟩
    · intro x _ hu hd
      simp only [mem_cons, not_or] at hu
      exact ⟨hu.2, hd, by simp [hu.1]⟩
    · intro x hx
      rcases mem_cons.1 hx with rfl | hx
      · exact .inr hhere
      · exact .inl hx
  | recordCreated id =>
    simp only [step, ite_none_right_eq_some, some.injEq] at h
    obtain ⟨hin, rfl⟩ := h
    refine ⟨_, rfl, fun x hx => hx, by simp [Action.records], ?_, ?_, ?_⟩
    · -- A message without a line of its own is not the one recorded.
      intro x hnone hu hd
      have hne : id ≠ x := fun hx => by simpa [opsOf_created, hx] using hnone rfl
      exact ⟨fun hx => hu ((mem_erase_of_ne hne.symm).2 hx), hd, Iff.rfl⟩
    · intro x hx
      by_cases hne : id = x
      · exact .inl (hne ▸ hin)
      · simp [opsOf_created, hne] at hx
    · exact fun x hx => .inl (mem_of_mem_erase hx)
  | remove id =>
    simp only [step, ite_none_right_eq_some, some.injEq] at h
    obtain ⟨hin, rfl⟩ := h
    refine ⟨[], by simp, fun x hx => hx, by simp [opsOf], ?_, by simp [opsOf], fun x hx => .inl hx⟩
    intro x _ hu hd
    simp only [mem_cons, not_or] at hd
    exact ⟨hu, hd.2, mem_erase_of_ne hd.1⟩
  | recordDestroyed ids =>
    simp only [step, ite_none_right_eq_some, some.injEq] at h
    obtain ⟨-, rfl⟩ := h
    refine ⟨_, rfl, fun x hx => hx, by simp [Action.records], ?_, ?_, fun x hx => .inl hx⟩
    · intro x hnone hu hd
      have hx : x ∉ ids := fun hx => by
        have := hnone rfl
        simp only [opsOf_destroyed, map_eq_nil_iff, filter_eq_nil_iff] at this
        simpa using this x hx
      exact ⟨hu, fun hd' => hd (mem_diff_of_mem hd' hx), Iff.rfl⟩
    · intro x hx
      simp [opsOf_destroyed] at hx
  | note change =>
    simp only [step] at h
    split_ifs at h with hkind hout
    · obtain rfl := some.inj h
      exact ⟨_, rfl, fun x hx => hx, fun _ x _ o ho => eq_updated_of_mem_opsOf hkind ho,
        fun x _ hu hd => ⟨hu, hd, Iff.rfl⟩, fun x hx => absurd (eq_updated_of_mem_opsOf hkind hx)
          (by decide),
        fun x hx => .inl hx⟩
    · -- The message of the note is in no view of this mailbox.
      obtain rfl := some.inj h
      have hother : ∀ x ∈ w.here, opsOf .email x [change] = [] := fun x hx => by
        have hne : change.id ≠ x := fun heq => hout (heq ▸ hx)
        simp [opsOf, hne]
      refine ⟨_, rfl, fun x hx => hx, fun _ x hx o ho => ?_, fun x _ hu hd => ⟨hu, hd, Iff.rfl⟩,
        fun x hx => .inr fun hin => ?_, fun x hx => .inl hx⟩
      · simp [hother x hx] at ho
      · simp [hother x hin] at hx
  | trim floor =>
    simp only [step, dite_none_right_eq_some, some.injEq] at h
    obtain ⟨-, rfl⟩ := h
    exact ⟨[], by simp [trim], fun x hx => hx, by simp [opsOf],
      fun x _ hu hd => ⟨hu, hd, Iff.rfl⟩, by simp [opsOf], fun x hx => .inl hx⟩
  | advance => exact some.inj h ▸ ⟨[], advances_same w _ w.index _⟩
  | «open» =>
    obtain ⟨index, hindex⟩ := w.opened_same
    exact some.inj h ▸ hindex ▸ ⟨[], advances_same w w.modseq index _⟩

/-- What holds of a mailbox in use. -/
structure Inv (w : World ι) : Prop where
  nodup : w.files.Nodup
  files_here : ∀ id ∈ w.files, id ∈ w.here
  gone : ∀ id, id ∈ w.undestroyed ∨ .destroyed ∈ opsOf .email id w.journal.lines →
    id ∉ w.files ∧ (id ∈ w.here ∨ id ∈ w.elsewhere)

lemma inv_empty (name : ι) : (empty name).Inv :=
  ⟨.nil, by simp [empty], by simp [empty, Journal.empty, opsOf]⟩

lemma Inv.step {w w' : World ι} {a : Action ι} (hw : w.Inv) (h : w.step a = some w') :
    w'.Inv := by
  cases a with
  | publish id =>
    simp only [World.step, ite_none_right_eq_some, some.injEq] at h
    obtain ⟨⟨hhere, helse⟩, rfl⟩ := h
    refine ⟨hw.nodup.cons fun hin => hhere (hw.files_here id hin), ?_, fun x hx => ?_⟩
    · exact fun x hx => (mem_cons.1 hx).elim (fun h => by simp [h])
        fun h => mem_cons_of_mem _ (hw.files_here x h)
    · obtain ⟨hgone, hknown⟩ := hw.gone x hx
      have hne : x ≠ id := fun heq => hknown.elim (heq ▸ hhere) (heq ▸ helse)
      exact ⟨by simp [hne, hgone], hknown.imp_left (mem_cons_of_mem _)⟩
  | recordCreated id =>
    simp only [World.step, ite_none_right_eq_some, some.injEq] at h
    obtain ⟨-, rfl⟩ := h
    refine ⟨hw.nodup, hw.files_here, fun x hx => hw.gone x (hx.imp_right fun hx => ?_)⟩
    rw [record, opsOf_append, opsOf_created] at hx
    by_cases hne : id = x <;> simpa [hne] using hx
  | remove id =>
    simp only [World.step, ite_none_right_eq_some, some.injEq] at h
    obtain ⟨hin, rfl⟩ := h
    refine ⟨hw.nodup.erase id, fun x hx => hw.files_here x (mem_of_mem_erase hx), ?_⟩
    intro x hx
    by_cases hne : x = id
    · -- It stays known, so that its id is not given out again.
      subst hne
      exact ⟨hw.nodup.not_mem_erase, .inl hin⟩
    · obtain ⟨hgone, hknown⟩ := hw.gone x (by simpa [hne] using hx)
      exact ⟨fun hx => hgone (mem_of_mem_erase hx), hknown⟩
  | recordDestroyed ids =>
    simp only [World.step, ite_none_right_eq_some, some.injEq] at h
    obtain ⟨⟨-, -, hin⟩, rfl⟩ := h
    refine ⟨hw.nodup, hw.files_here, fun x hx => hw.gone x ?_⟩
    rw [record, opsOf_append, opsOf_destroyed, mem_append] at hx
    rcases hx with hx | hx | hx
    · exact .inl (diff_subset _ _ hx)
    · exact .inr hx
    · obtain ⟨y, hy, -⟩ := List.mem_map.1 hx
      obtain ⟨hy, hyx⟩ := mem_filter.1 hy
      exact .inl (of_decide_eq_true hyx ▸ hin y hy)
  | note change =>
    simp only [World.step] at h
    split_ifs at h with hkind hout
    · obtain rfl := some.inj h
      refine ⟨hw.nodup, hw.files_here, fun x hx => hw.gone x (hx.imp_right fun hx => ?_)⟩
      rw [record, opsOf_append, mem_append] at hx
      exact hx.resolve_right fun hx => absurd (eq_updated_of_mem_opsOf hkind hx) (by decide)
    · -- Its id is known from now on, and no file here has it.
      obtain rfl := some.inj h
      refine ⟨hw.nodup, hw.files_here, fun x hx => ?_⟩
      by_cases hne : change.id = x
      · subst hne
        exact ⟨fun hin => hout (hw.files_here _ hin), .inr (mem_cons_self ..)⟩
      · obtain ⟨hgone, hknown⟩ := hw.gone x (hx.imp_right fun hx => by
          simpa [record, opsOf, hne] using hx)
        exact ⟨hgone, hknown.imp_right (mem_cons_of_mem _)⟩
  | trim floor =>
    simp only [World.step, dite_none_right_eq_some, some.injEq] at h
    obtain ⟨-, rfl⟩ := h
    exact ⟨hw.nodup, hw.files_here, hw.gone⟩
  | advance => exact some.inj h ▸ ⟨hw.nodup, hw.files_here, hw.gone⟩
  | «open» =>
    obtain ⟨index, hindex⟩ := w.opened_same
    exact some.inj h ▸ hindex ▸ ⟨hw.nodup, hw.files_here, hw.gone⟩

lemma Inv.ids_opened {w : World ι} (hw : w.Inv) (hfresh : w.fresh) :
    emailQueryIds w.opened.1 = emailQueryIds w.files := by
  unfold opened
  cases hindex : w.index with
  | none => rfl
  | some index =>
    dsimp only
    split_ifs with hstamp
    · have hperm : index.2.Perm w.files := by
        simpa [fresh, hindex, hstamp] using hfresh
      have hsorted := emailQueryIds_sorted (hperm.nodup_iff.2 hw.nodup)
      exact hsorted.eq_of_mem_iff (emailQueryIds_sorted hw.nodup) fun id => by
        rw [emailQueryIds_mem, emailQueryIds_mem, hperm.mem_iff]
    · rfl

end World

/-! ## What a client knows -/

/-- A list shows the mailbox, but for changes still to be recorded. -/
structure Agrees (ids : List ι) (w : World ι) : Prop where
  sorted : ids.Pairwise (· > ·)
  here : ∀ id ∈ ids, id ∈ w.here
  same : ∀ id, id ∉ w.uncreated → id ∉ w.undestroyed → (id ∈ ids ↔ id ∈ w.files)
  fresh : ∀ id ∈ w.uncreated, id ∉ ids

/-- A client's list shows the mailbox, but for changes after its position. -/
structure Sync (c : Client ι) (w : World ι) : Prop where
  position : c.position ≤ w.journal.lines.length
  sorted : c.ids.Pairwise (· > ·)
  here : ∀ id ∈ c.ids, id ∈ w.here
  same : ∀ id, w.opsFrom c.position id = [] → id ∉ w.uncreated → id ∉ w.undestroyed →
    (id ∈ c.ids ↔ id ∈ w.files)
  created : ∀ id, (w.opsFrom c.position id).head? = some .created → id ∉ c.ids
  fresh : ∀ id ∈ w.uncreated, id ∉ c.ids

/-- A client's list and the list of its call differ by the changes after its position. -/
structure Differ (c : Client ι) (list : List ι) (w : World ι) : Prop where
  same : ∀ id, w.opsFrom c.position id = [] → (id ∈ c.ids ↔ id ∈ list)
  destroyed : ∀ id, (w.opsFrom c.position id).getLast? = some .destroyed → id ∉ list

section Advance

variable {quiet : Bool} {w w' : World ι} {new : List (Change ι)} {ids list : List ι} {c : Client ι}

lemma World.Advances.opsFrom (h : World.Advances quiet w new w') {p : ℕ}
    (hp : p ≤ w.journal.lines.length) (id : ι) :
    w'.opsFrom p id = w.opsFrom p id ++ opsOf .email id new := by
  rw [World.opsFrom, h.lines, drop_append_of_le_length hp, opsOf_append]
  rfl

lemma Sync.advance (hc : Sync c w) (h : World.Advances quiet w new w') : Sync c w' := by
  have hops := h.opsFrom hc.position
  refine ⟨?_, hc.sorted, fun id hin => h.here id (hc.here id hin), ?_, ?_, ?_⟩
  · rw [h.lines, length_append]
    exact Nat.le_add_right_of_le hc.position
  · intro id hnone hu hd
    rw [hops, append_eq_nil_iff] at hnone
    obtain ⟨hu, hd, hfiles⟩ := h.same id (fun _ => hnone.2) hu hd
    exact (hc.same id hnone.1 hu hd).trans hfiles.symm
  · intro id hhead
    rw [hops, List.head?_append] at hhead
    cases hold : (w.opsFrom c.position id).head? with
    | some op => exact hc.created id (by rw [hold]; simpa [hold] using hhead)
    | none =>
      rw [hold, none_or] at hhead
      exact (h.created id (mem_of_mem_head? hhead)).elim (hc.fresh id)
        fun hout hin => hout (hc.here id hin)
  · exact fun id hu => (h.fresh id hu).elim (hc.fresh id) fun hout hin => hout (hc.here id hin)

lemma Agrees.advance (hl : Agrees ids w) (h : World.Advances true w new w') : Agrees ids w' := by
  refine ⟨hl.sorted, fun id hin => h.here id (hl.here id hin), fun id hu hd => ?_, fun id hu => ?_⟩
  · obtain ⟨hu, hd, hfiles⟩ := h.same id nofun hu hd
    exact (hl.same id hu hd).trans hfiles.symm
  · exact (h.fresh id hu).elim (hl.fresh id) fun hout hin => hout (hl.here id hin)

lemma Differ.advance (hd : Differ c list w) (hp : c.position ≤ w.journal.lines.length)
    (hlist : ∀ id ∈ list, id ∈ w.here) (h : World.Advances true w new w') : Differ c list w' := by
  have hops := h.opsFrom hp
  refine ⟨fun id hnone => ?_, fun id hlast hin => ?_⟩
  · rw [hops, append_eq_nil_iff] at hnone
    exact hd.same id hnone.1
  · -- What is added about a message here is no destruction.
    rw [hops, List.getLast?_append] at hlast
    cases hnew : (opsOf .email id new).getLast? with
    | none => exact hd.destroyed id (by simpa [hnew] using hlast) hin
    | some op =>
      obtain rfl : op = .destroyed := by simpa [hnew] using hlast
      exact absurd (h.calm rfl id (hlist id hin) _ (mem_of_mem_getLast? hnew))
        (by decide)

lemma Agrees.sync (hl : Agrees ids w) : Sync ⟨ids, w.journal.current⟩ w := by
  refine ⟨Nat.le_refl _, hl.sorted, hl.here, fun id _ => hl.same id, fun id hhead => ?_, hl.fresh⟩
  simp [opsFrom, current, opsOf] at hhead

lemma Agrees.read (hw : w.Inv) (hu : w.uncreated = []) : Agrees (emailQueryIds w.files) w :=
  ⟨emailQueryIds_sorted hw.nodup, fun id hin => hw.files_here id (emailQueryIds_mem.1 hin),
    fun id _ _ => emailQueryIds_mem, by simp [hu]⟩

lemma Differ.read (hw : w.Inv) (hidle : w.idle) (hc : Sync c w) :
    Differ c (emailQueryIds w.files) w := by
  obtain ⟨hu, hd⟩ : w.uncreated = [] ∧ w.undestroyed = [] := by simpa [idle] using hidle
  refine ⟨fun id hnone => ?_, fun id hlast hin => ?_⟩
  · rw [emailQueryIds_mem]
    exact hc.same id hnone (by simp [hu]) (by simp [hd])
  · have hmem : .destroyed ∈ opsOf .email id w.journal.lines := by
      rw [← take_append_drop c.position w.journal.lines, opsOf_append]
      exact mem_append_right _ (mem_of_mem_getLast? hlast)
    exact (hw.gone id (.inr hmem)).1 (emailQueryIds_mem.1 hin)

lemma Agrees.exact (hl : Agrees ids w) (hw : w.Inv) (hidle : w.idle) :
    ids = emailQueryIds w.files := by
  obtain ⟨hu, hd⟩ : w.uncreated = [] ∧ w.undestroyed = [] := by simpa [idle] using hidle
  refine hl.sorted.eq_of_mem_iff (emailQueryIds_sorted hw.nodup) fun id => ?_
  rw [emailQueryIds_mem]
  exact hl.same id (by simp [hu]) (by simp [hd])

end Advance

/-! ## Runs -/

lemma queryChanges_ok {w : World ι} {max : Option ℕ} {list : List ι} {c c' : Client ι}
    (hc : Sync c w) (hl : Agrees list w) (hd : Differ c list w)
    (h : queryChanges w.journal max list c = .ok c') : c' = ⟨list, w.journal.current⟩ := by
  rw [queryChanges] at h
  cases hsince : w.journal.since c.position with
  | none => simp [hsince] at h
  | some entries =>
    have hops : ∀ id, opsOf .email id (entries.map (·.change)) = w.opsFrom c.position id :=
      fun id => by rw [since_changes hsince]; rfl
    simp only [hsince] at h
    split_ifs at h
    obtain rfl := Except.ok.inj h
    rw [apply_diff hc.sorted hl.sorted] <;> simp only [hops]
    · exact hd.same
    · exact hc.created
    · exact hd.destroyed

open Sys

namespace Sys

/-- What holds in a run whose steps meet the condition. -/
structure Good (s : Sys ι) : Prop where
  world : s.world.Inv
  client : ∀ c, s.client = some c → Sync c s.world
  call : ∀ call list, s.call = some (call, list) → Agrees list s.world
  differ : ∀ max list c, s.call = some (.queryChanges max, list) → s.client = some c →
    Differ c list s.world

lemma good_start (name : ι) : (start name).Good :=
  ⟨inv_empty name, by simp [start], by simp [start], by simp [start]⟩

variable {s t : Sys ι}

lemma Good.act {a : Action ι} {w : World ι} (hs : s.Good) (hm : a.records → s.call = none)
    (h : s.world.step a = some w) : ({ s with world := w } : Sys ι).Good := by
  obtain ⟨new, hadv⟩ := step_advances h
  -- Nothing is recorded during a call.
  have hquiet : ∀ x, s.call = some x → World.Advances true s.world new w := fun x hx => by
    cases hrec : a.records with
    | true => simp [hm hrec] at hx
    | false => simpa [hrec] using hadv
  refine ⟨hs.world.step h, fun c hc => (hs.client c hc).advance hadv, ?_, ?_⟩
  · exact fun call list hcall => (hs.call call list hcall).advance (hquiet _ hcall)
  · intro max list c hcall hc
    exact (hs.differ max list c hcall hc).advance (hs.client c hc).position
      (hs.call _ list hcall).here (hquiet _ hcall)

lemma Good.readList {call : Call} (hs : s.Good) (hm : s.meets (.readList call)) :
    ({ s with
      world := s.world.opened.2
      call := some (call, emailQueryIds s.world.opened.1) } : Sys ι).Good := by
  obtain ⟨hu, hfresh⟩ : s.world.uncreated = [] ∧ s.world.fresh := by
    cases call <;> simp_all [meets, idle]
  obtain ⟨index, hindex⟩ := s.world.opened_same
  -- Reading the list is what another reader does, and then to keep the list.
  have hopened := hs.act (a := .open) nofun rfl
  rw [hs.world.ids_opened hfresh]
  rw [hindex] at hopened ⊢
  refine ⟨hopened.world, hopened.client, fun call' list h => ?_, fun max list c h hc => ?_⟩
  · obtain ⟨-, rfl⟩ := Prod.mk.inj (some.inj h)
    exact .read hopened.world hu
  · obtain ⟨rfl, rfl⟩ := Prod.mk.inj (some.inj h)
    have hidle : s.world.idle := (Bool.and_eq_true_iff.1 hm).1
    exact .read hopened.world hidle (hopened.client c hc)

lemma Good.readJournal (hs : s.Good) (h : s.step .readJournal = some t) : t.Good := by
  obtain ⟨w, client, call, failed⟩ := s
  match call, client with
  | none, _ => simp [step] at h
  | some (.query, list), _ =>
    obtain rfl := some.inj h
    refine ⟨hs.world, fun c hc => ?_, nofun, nofun⟩
    obtain rfl := some.inj hc
    exact (hs.call _ list rfl).sync
  | some (.queryChanges _, _), none => simp [step] at h
  | some (.queryChanges max, list), some c =>
    simp only [step] at h
    have hlist := hs.call _ list rfl
    cases hreply : queryChanges w.journal max list c with
    | error e =>
      simp only [hreply, some.injEq] at h
      subst h
      exact ⟨hs.world, hs.client, nofun, nofun⟩
    | ok c' =>
      simp only [hreply, some.injEq] at h
      subst h
      refine ⟨hs.world, fun x hx => ?_, nofun, nofun⟩
      obtain rfl := some.inj hx
      rw [queryChanges_ok (hs.client c rfl) hlist (hs.differ max list c rfl rfl) hreply]
      exact hlist.sync

lemma Good.step {s t : Sys ι} {e : Event ι} (hs : s.Good) (hm : s.meets e)
    (h : s.step e = some t) : t.Good := by
  cases e with
  | act a =>
    obtain ⟨w, hw, rfl⟩ : ∃ w, s.world.step a = some w ∧ { s with world := w } = t := by
      simpa [Sys.step, bind_eq_some_iff] using h
    exact hs.act (of_decide_eq_true hm) hw
  | readList call =>
    simp only [Sys.step, ite_none_right_eq_some, some.injEq] at h
    obtain ⟨-, rfl⟩ := h
    exact hs.readList hm
  | readJournal => exact hs.readJournal h

lemma Good.run {events : List (Event ι)} (hs : s.Good) (hm : s.Meets events)
    (h : s.run events = some t) : t.Good := by
  induction events generalizing s with
  | nil => exact some.inj h ▸ hs
  | cons e events ih =>
    obtain ⟨u, hu, hrun⟩ := bind_eq_some_iff.1 h
    simp only [Meets, hu, Bool.and_eq_true] at hm
    exact ih (hs.step hm.1 hu) hm.2 hrun

lemma run_append {a b : List (Event ι)} :
    s.run (a ++ b) = some t ↔ ∃ u, s.run a = some u ∧ u.run b = some t := by
  induction a generalizing s with
  | nil => simp [run]
  | cons e a ih => cases h : s.step e <;> simp [run, h, ih]

lemma Good.acts {actions : List (Action ι)} (hs : s.Good)
    (hquiet : ∀ a ∈ actions, a.changes = false) (h : s.run (actions.map .act) = some t) :
    t.Good ∧ t.world.idle = s.world.idle ∧ t.client = s.client ∧ t.call = s.call := by
  induction actions generalizing s with
  | nil => exact some.inj h ▸ ⟨hs, rfl, rfl, rfl⟩
  | cons a actions ih =>
    obtain ⟨u, hu, hrun⟩ := bind_eq_some_iff.1 h
    obtain ⟨w, hw, rfl⟩ : ∃ w, s.world.step a = some w ∧ { s with world := w } = u := by
      simpa [Sys.step, bind_eq_some_iff] using hu
    obtain ⟨ha, hquiet⟩ := forall_mem_cons.1 hquiet
    have hrec : a.records = false := by
      revert ha
      cases a <;> first | exact fun _ => rfl | exact id
    have hidle : w.idle = s.world.idle := by
      cases a with
      | publish | recordCreated | remove | recordDestroyed => cases ha
      | note change =>
        simp only [World.step] at hw
        split_ifs at hw <;> exact some.inj hw ▸ rfl
      | trim floor =>
        simp only [World.step, dite_none_right_eq_some, some.injEq] at hw
        exact hw.2 ▸ rfl
      | advance => exact some.inj hw ▸ rfl
      | «open» =>
        obtain ⟨index, hindex⟩ := s.world.opened_same
        exact some.inj hw ▸ hindex ▸ rfl
    obtain ⟨ht, hidle', hclient, hcall⟩ := ih (hs.act (by simp [hrec]) hw) hquiet hrun
    exact ⟨ht, hidle'.trans hidle, hclient, hcall⟩

end Sys

/-- In every run whose steps meet the condition, after a call of `Email/queryChanges` that no
change overlaps and that does not fail, the client has the list of the mailbox. -/
theorem exact_after_undisturbed_call (name : ι) {events : List (Event ι)} {max : Option ℕ}
    {between : List (Action ι)} {s t : Sys ι} (hmeets : (start name).Meets events)
    (hs : (start name).run events = some s) (hidle : s.world.idle) (hfresh : s.world.fresh)
    (hquiet : ∀ a ∈ between, a.changes = false)
    (ht : s.run (.readList (.queryChanges max) :: between.map .act ++ [.readJournal]) = some t)
    (hok : t.failed = none) :
    ∃ c, t.client = some c ∧ c.ids = emailQueryIds t.world.files := by
  have hgood : s.Good := (good_start name).run hmeets hs
  -- The three parts of the call.
  obtain ⟨u, hu, hrest⟩ := bind_eq_some_iff.1 ht
  obtain ⟨v, hv, hlast⟩ := run_append.1 hrest
  obtain ⟨t', hstep, rfl⟩ : ∃ t', v.step .readJournal = some t' ∧ t' = t := by
    simpa [run, bind_eq_some_iff] using hlast
  simp only [Sys.step, ite_none_right_eq_some, some.injEq] at hu
  obtain ⟨⟨-, hsome⟩, rfl⟩ := hu
  obtain ⟨c, hc⟩ := isSome_iff_exists.1 (hsome.resolve_left nofun)
  have hread : s.meets (.readList (.queryChanges max)) := Bool.and_eq_true_iff.2 ⟨hidle, hfresh⟩
  have hopened : s.world.opened.2.idle := by
    obtain ⟨index, hindex⟩ := s.world.opened_same
    rw [hindex]
    exact hidle
  obtain ⟨hvgood, hvidle, hclient, hcall⟩ := (hgood.readList hread).acts hquiet hv
  replace hclient := hclient.trans hc
  have hlist := hvgood.call _ _ hcall
  simp only [Sys.step, hcall, hclient] at hstep
  cases hreply : queryChanges v.world.journal max (emailQueryIds s.world.opened.1) c with
  | error e =>
    simp only [hreply, some.injEq] at hstep
    subst hstep
    simp at hok
  | ok c' =>
    simp only [hreply, some.injEq] at hstep
    subst hstep
    refine ⟨c', rfl, ?_⟩
    rw [queryChanges_ok (hvgood.client c hclient) hlist (hvgood.differ max _ c hcall hclient)
      hreply]
    exact hlist.exact hvgood.world (hvidle.trans hopened)

/-- A delivery during a query that is recorded after it, an expunge, another reader, and a call with
nothing going on. -/
theorem exact_after_undisturbed_call_delivery : ∃ t : Sys ℕ,
    (start 0).run ([.act (.publish 1), .act (.recordCreated 1), .readList .query,
      .act (.publish 2), .readJournal, .act (.recordCreated 2), .act (.remove 1), .act .advance,
      .act (.recordDestroyed [1]), .act .open] ++
      .readList (.queryChanges none) :: [.note ⟨.email, .updated, 2⟩, .trim 1].map .act ++
      [.readJournal]) = some t ∧
    ∃ c, t.client = some c ∧ c.ids = emailQueryIds t.world.files := by
  have hs : (start 0).run [.act (.publish 1), .act (.recordCreated 1), .readList .query,
      .act (.publish 2), .readJournal, .act (.recordCreated 2), .act (.remove 1), .act .advance,
      .act (.recordDestroyed [1]), .act .open] = some _ := rfl
  exact ⟨_, rfl, @exact_after_undisturbed_call ℕ _ 0 _ none [.note ⟨.email, .updated, 2⟩, .trim 1]
    _ _ rfl hs rfl (by decide +kernel) (by decide) rfl rfl⟩

/-- A message that is published and recorded between the two reads of a query is in no reply. One
that is published before a query and recorded after it is in two. One that is delivered when another
was taken away over POP3 is not in the index, which is served for the number of files. -/
theorem delivery_missed_or_doubled :
    (∃ s t : Sys ℕ,
      (start 0).run [.readList .query, .act (.publish 1), .act (.recordCreated 1),
        .readJournal] = some s ∧ s.world.idle ∧
      s.run [.readList (.queryChanges none), .readJournal] = some t ∧ t.failed = none ∧
      t.client = some ⟨[], 2⟩ ∧ emailQueryIds t.world.files = [1]) ∧
    (∃ s t : Sys ℕ,
      (start 0).run [.act (.publish 1), .readList .query, .readJournal,
        .act (.recordCreated 1)] = some s ∧ s.world.idle ∧
      s.run [.readList (.queryChanges none), .readJournal] = some t ∧ t.failed = none ∧
      t.client = some ⟨[1, 1], 2⟩ ∧ emailQueryIds t.world.files = [1]) ∧
    ∃ s t : Sys ℕ,
      (start 0).run [.act (.publish 1), .act (.recordCreated 1), .readList .query, .readJournal,
        .act (.remove 1), .act (.recordDestroyed [1]), .act (.publish 2),
        .act (.recordCreated 2)] = some s ∧ s.world.idle ∧
      s.run [.readList (.queryChanges none), .readJournal] = some t ∧ t.failed = none ∧
      t.client.map Client.ids ≠ some [2] ∧ emailQueryIds t.world.files = [2] :=
  ⟨⟨_, _, rfl, rfl, rfl, rfl, rfl, rfl⟩, ⟨_, _, rfl, rfl, rfl, rfl, rfl, rfl⟩,
    ⟨_, _, rfl, rfl, rfl, rfl, by decide, rfl⟩⟩

end Epistle.Jmap
