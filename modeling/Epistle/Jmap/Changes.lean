import Epistle.Jmap.QueryChanges

/-!
# Paging through changes

`Email/changes`, `Mailbox/changes` and `Thread/changes` (`api/jmap/state`): a reply folds the
journal from the client's position on and may stop in the middle of it, before the entry that would
name more ids than the client allows. The client goes on from the position the reply ends at.

What exists is said by the journal alone: the changes of one id take it through its life, in which
it is created when it is absent, and updated or destroyed when it is present (`life`).

* `sync_reaches_end`: all pages together.
-/

namespace Epistle.Jmap

open Lib List Option

variable {ι : Type*} [DecidableEq ι]

/-- The type a state string belongs to. -/
inductive Kind
  | email
  | mailbox
  | thread
  deriving DecidableEq, Repr

def Kind.object : Kind → Object
  | .email | .thread => .email
  | .mailbox => .mailbox

/-- Whether in-place updates are passed over: a thread does not change when the keywords of its
email do. -/
def Kind.skipUpdates (kind : Kind) : Bool := kind = .thread

def Folded.ids (folded : Folded ι) (wanted : Outcome → Bool) : List ι :=
  (folded.outcomes.filter fun (_, outcome) => wanted outcome).map (·.1)

def Outcome.isUpdated : Outcome → Bool
  | .updated _ => true
  | _ => false

/-- What a client is told of the changes. -/
structure ChangesReply (ι : Type*) where
  newState : ℕ
  hasMoreChanges : Bool
  created : List ι
  updated : List ι
  destroyed : List ι
  countsOnly : Option Bool
  deriving DecidableEq, Repr

/-- The changes after a state, as many as are asked for. -/
def changesReply (j : Journal ι) (kind : Kind) (max : Option ℕ) (since : ℕ) :
    Option (ChangesReply ι) := do
  let entries ← j.since since
  let folded := fold entries kind.object max kind.skipUpdates j.current
  let updated := folded.ids Outcome.isUpdated
  return {
    newState := folded.through
    hasMoreChanges := folded.hasMore
    created := folded.ids (· = .created)
    updated
    destroyed := folded.ids (· = .destroyed)
    countsOnly :=
      if kind = .mailbox then
        some (!updated.isEmpty && folded.outcomes.all fun (_, outcome) =>
          match outcome with
          | .updated onlyUpdates => onlyUpdates
          | _ => true)
      else none }

/-! ## The client -/

structure Reader (ι : Type*) where
  position : ℕ
  /-- The position that each object it holds was fetched at. -/
  copies : ι → Option ℕ
  /-- Whether it was told that there is more. -/
  more : Bool

def Reader.take (reader : Reader ι) (reply : ChangesReply ι) : Reader ι where
  position := reply.newState
  copies id :=
    if id ∈ reply.destroyed then none
    else if id ∈ reply.created ∨ id ∈ reply.updated then some reply.newState
    else reader.copies id
  more := reply.hasMoreChanges

/-- What a client has after some replies. -/
def sync (j : Journal ι) (kind : Kind) (maxes : ℕ → Option ℕ) (reader : Reader ι) :
    ℕ → Option (Reader ι)
  | 0 => some reader
  | n + 1 => do
      let reader ← sync j kind maxes reader n
      if reader.more then
        let reply ← changesReply j kind (maxes n) reader.position
        return reader.take reply
      else return reader

/-! ## Where the fold stops -/

section Stop

variable {object : Object} {skip : Bool}

lemma foldTracks_stop (object : Object) (max : Option ℕ) (skip : Bool) (entries : List (Entry ι))
    (tracks : List (ι × Track)) :
    ∃ seen rest, entries = seen ++ rest ∧
      (foldTracks object max skip entries tracks).1 = (foldTracks object none skip seen tracks).1 ∧
      ((rest = [] ∧ (foldTracks object max skip entries tracks).2 = none) ∨
        ∃ entry after, rest = entry :: after ∧
          (foldTracks object max skip entries tracks).2 = some (entry.position - 1) ∧
          max.any ((foldTracks object none skip seen tracks).1.length ≥ ·)) := by
  induction entries generalizing tracks with
  | nil => exact ⟨[], [], rfl, rfl, .inl ⟨rfl, rfl⟩⟩
  | cons entry entries ih =>
    obtain ⟨position, change⟩ := entry
    by_cases hskip : change.object ≠ object ∨ (skip ∧ change.op = .updated)
    · obtain ⟨seen, rest, rfl, htracks, hstop⟩ := ih tracks
      refine ⟨⟨position, change⟩ :: seen, rest, rfl, ?_⟩
      simp only [foldTracks, if_pos hskip]
      exact ⟨htracks, hstop⟩
    · by_cases hfull : tracks.lookup change.id = none ∧ max.any (tracks.length ≥ ·)
      · have hstops : foldTracks object max skip (⟨position, change⟩ :: entries) tracks =
            (tracks, some (position - 1)) := by
          rw [foldTracks, if_neg hskip, if_pos hfull]
        refine ⟨[], ⟨position, change⟩ :: entries, rfl, ?_⟩
        rw [hstops]
        exact ⟨rfl, .inr ⟨_, _, rfl, rfl, hfull.2⟩⟩
      · obtain ⟨seen, rest, rfl, htracks, hstop⟩ := ih (touch change.id change.op tracks)
        refine ⟨⟨position, change⟩ :: seen, rest, rfl, ?_⟩
        simp only [foldTracks, if_neg hskip, if_neg hfull, any_none, Bool.false_eq_true,
          and_false, if_false]
        exact ⟨htracks, hstop⟩

lemma foldTracks_length {m : ℕ} (entries : List (Entry ι)) {tracks : List (ι × Track)}
    (h : tracks.length ≤ m) : (foldTracks object (some m) skip entries tracks).1.length ≤ m := by
  induction entries generalizing tracks with
  | nil => exact h
  | cons entry entries ih =>
    obtain ⟨position, change⟩ := entry
    rw [foldTracks]
    split_ifs with hskip hfull
    · exact ih h
    · exact h
    · refine ih ?_
      have hkeys := congrArg List.length (keys_touch change.id change.op tracks)
      rw [length_map] at hkeys
      rw [hkeys]
      split_ifs with hmem
      · rwa [length_map]
      · -- The id is new, so there was room for it.
        have hnone : tracks.lookup change.id = none := by
          rw [lookup_eq_none_iff]
          intro kt hkt
          have hne : change.id ≠ kt.1 := fun heq => hmem (heq ▸ List.mem_map_of_mem hkt)
          simpa using hne
        have hroom : ¬ m ≤ tracks.length := fun hle => hfull ⟨hnone, by simpa using hle⟩
        rw [length_append, length_map, length_singleton]
        omega

lemma foldTracks_skip (entries : List (Entry ι)) (tracks : List (ι × Track)) :
    foldTracks object none skip entries tracks =
      foldTracks object none false
        (entries.filter fun entry => !(skip && entry.change.op = .updated)) tracks := by
  induction entries generalizing tracks with
  | nil => rfl
  | cons entry entries ih =>
    obtain ⟨position, change⟩ := entry
    by_cases hskip : skip ∧ change.op = .updated
    · rw [filter_cons_of_neg (by simpa using hskip), foldTracks, if_pos (.inr hskip)]
      exact ih tracks
    · rw [filter_cons_of_pos (by simpa [imp_iff_not_or] using hskip), foldTracks, foldTracks]
      simp only [hskip, or_false, Bool.false_eq_true, false_and, any_none, and_false,
        if_false, ih]

end Stop

/-! ## What a page says -/

def contentOps (kind : Kind) (id : ι) (changes : List (Change ι)) : List Op :=
  (opsOf kind.object id changes).filter fun op => !(kind.skipUpdates && op = .updated)

lemma contentOps_map (kind : Kind) (id : ι) (entries : List (Entry ι)) :
    contentOps kind id (entries.map (·.change)) =
      opsOf kind.object id ((entries.filter fun entry =>
        !(kind.skipUpdates && entry.change.op = .updated)).map (·.change)) := by
  simp only [contentOps, opsOf, List.filter_map, List.map_map, List.filter_filter]
  refine congrArg _ (filter_congr fun entry _ => ?_)
  simp only [Function.comp_apply]
  rw [Bool.and_comm]

variable {j : Journal ι} {p : ℕ} {kind : Kind} {max : Option ℕ} {present after : Bool}
  {reply : ChangesReply ι} {initial : ι → Bool}

omit [DecidableEq ι] in
lemma Journal.since_append {seen rest : List (Entry ι)} {entry : Entry ι}
    (h : j.since p = some (seen ++ entry :: rest)) :
    entry.position = p + seen.length + 1 ∧ p + seen.length < j.current := by
  simp only [Journal.since, ite_none_left_eq_some, some.injEq] at h
  have hget := congrArg (·[seen.length]?) h.2
  simp only [List.getElem?_map, List.getElem?_drop, List.getElem?_zipIdx,
    List.getElem?_append_right le_rfl, Nat.sub_self, List.getElem?_cons_zero,
    Option.map_map, map_eq_some_iff] at hget
  obtain ⟨change, hchange, rfl⟩ := hget
  obtain ⟨hlt, -⟩ := List.getElem?_eq_some_iff.1 hchange
  exact ⟨Nat.add_comm .., hlt⟩

omit [DecidableEq ι] in
lemma Journal.since_seen {seen rest : List (Entry ι)} (h : j.since p = some (seen ++ rest)) :
    seen.map (·.change) = (j.lines.take (p + seen.length)).drop p := by
  have hchanges := Journal.since_changes h
  rw [map_append] at hchanges
  rw [drop_take, Nat.add_sub_cancel_left, ← hchanges, ← length_map,
    take_left]

/-- The fold of a page: where it ends, and what it says of an id. -/
structure FoldsTo (j : Journal ι) (kind : Kind) (max : Option ℕ) (p : ℕ) (folded : Folded ι) :
    Prop where
  le_through : p ≤ folded.through
  through_le : folded.through ≤ j.current
  ends : folded.hasMore = false → folded.through = j.current
  advances : (∀ m ∈ max, 0 < m) → folded.hasMore → p < folded.through
  few : ∀ m ∈ max, folded.outcomes.length ≤ m
  outcomes : ∀ id outcome, (id, outcome) ∈ folded.outcomes ↔
    ∃ t, trackOf none (contentOps kind id ((j.lines.take folded.through).drop p)) = some t ∧
      t.outcome = some outcome

omit [DecidableEq ι] in
lemma Journal.since_length {entries : List (Entry ι)} (h : j.since p = some entries) :
    p + entries.length = j.current := by
  have hlength := congrArg List.length (Journal.since_changes h)
  simp only [Journal.since, ite_none_left_eq_some, not_or, not_lt] at h
  rw [length_map, length_drop] at hlength
  rw [hlength]
  exact Nat.add_sub_cancel' h.1.2

lemma foldsTo_fold {entries : List (Entry ι)} (h : j.since p = some entries) :
    FoldsTo j kind max p (fold entries kind.object max kind.skipUpdates j.current) := by
  obtain ⟨seen, rest, rfl, htracks, hstop⟩ :=
    foldTracks_stop kind.object max kind.skipUpdates entries []
  have hlength := Journal.since_length h
  rw [length_append] at hlength
  -- The page ends behind what was seen.
  have hthrough : (foldTracks kind.object max kind.skipUpdates (seen ++ rest) []).2.getD
      j.current = p + seen.length := by
    obtain ⟨hrest, hnone⟩ | ⟨entry, after, rfl, hsome, -⟩ := hstop
    · rw [hnone, getD_none, ← hlength, hrest]
      rfl
    · rw [hsome, getD_some, (Journal.since_append h).1]
      rfl
  obtain ⟨hkeys, hlookup⟩ := foldTracks_spec kind.object (seen.filter fun entry =>
    !(kind.skipUpdates && entry.change.op = .updated)) [] (by simp)
  rw [← foldTracks_skip, ← htracks] at hkeys hlookup
  refine ⟨?_, ?_, ?_, ?_, ?_, ?_⟩
  · exact (Nat.le_add_right p _).trans_eq hthrough.symm
  · refine hthrough.trans_le ?_
    omega
  · intro hmore
    have hnone := isSome_eq_false_iff.1 hmore
    exact congrArg (Option.getD · j.current) (isNone_iff_eq_none.1 hnone)
  · intro hmax hmore
    refine Nat.lt_of_lt_of_eq ?_ hthrough.symm
    obtain ⟨-, hnone⟩ | ⟨-, -, -, -, hfull⟩ := hstop
    · exact absurd (hnone ▸ hmore : (none : Option ℕ).isSome) (by simp)
    · -- Without an entry there is no id, and one is allowed.
      cases seen with
      | nil =>
        cases max with
        | none => cases hfull
        | some m =>
          have hm : m ≤ 0 := of_decide_eq_true hfull
          exact absurd ((hmax m rfl).trans_le hm) (lt_irrefl 0)
      | cons entry seen =>
        rw [length_cons]
        omega
  · rintro m rfl
    refine (length_filterMap_le ..).trans ?_
    exact foldTracks_length _ (Nat.zero_le m)
  · intro id outcome
    have hpage : (fold (seen ++ rest) kind.object max kind.skipUpdates j.current).through =
        p + seen.length := hthrough
    rw [hpage, ← Journal.since_seen h, contentOps_map,
      show trackOf none _ = _ from (hlookup id).symm]
    exact mem_outcomes hkeys id outcome

/-! ## Lives -/

def Op.alter : Bool → Op → Option Bool
  | false, .created => some true
  | true, .updated => some true
  | true, .destroyed => some false
  | _, _ => none

def life (present : Bool) (ops : List Op) : Option Bool := ops.foldlM Op.alter present

lemma life_append (present : Bool) (ops ops' : List Op) :
    life present (ops ++ ops') = (life present ops).bind (life · ops') :=
  foldlM_append ..

lemma life_cons (present : Bool) (op : Op) (ops : List Op) :
    life present (op :: ops) = (Op.alter present op).bind (life · ops) :=
  foldlM_cons ..

lemma life_filter {ops : List Op} (skip : Bool) (h : life present ops = some after) :
    life present (ops.filter fun op => !(skip && op = .updated)) = some after := by
  induction ops generalizing present with
  | nil => exact h
  | cons op ops ih =>
    rw [life_cons, bind_eq_some_iff] at h
    obtain ⟨middle, halter, hrest⟩ := h
    by_cases hskip : (!(skip && decide (op = .updated))) = true
    · rw [filter_cons, if_pos hskip, life_cons, halter, bind_some, ih hrest]
    · obtain rfl : op = .updated := by simpa using (by simpa using hskip : skip ∧ _).2
      rw [filter_cons, if_neg hskip]
      cases present with
      | false => cases halter
      | true =>
        obtain rfl := some.inj halter
        exact ih hrest

lemma track_of_life {ops : List Op} {t : Track} (h : life present ops = some after)
    (ht : trackOf none ops = some t) :
    (t.first = .created ↔ present = false) ∧ (t.last = .destroyed ↔ after = false) := by
  have hne : ops ≠ [] := by
    rintro rfl
    cases ht
  obtain ⟨u, hu, hfirst, hlast⟩ := trackOf_none hne
  obtain rfl : u = t := some.inj (hu.symm.trans ht)
  constructor
  · obtain ⟨op, rest, rfl⟩ := exists_cons_of_ne_nil hne
    obtain rfl : op = u.first := some.inj hfirst
    rw [life_cons, bind_eq_some_iff] at h
    obtain ⟨middle, halter, -⟩ := h
    cases present <;> cases hop : u.first <;> simp_all [Op.alter]
  · obtain ⟨rest, op, rfl⟩ := (eq_nil_or_concat' ops).resolve_left hne
    obtain rfl : op = u.last := by simpa using hlast
    rw [life_append, bind_eq_some_iff] at h
    obtain ⟨middle, -, halter⟩ := h
    rw [life_cons, bind_eq_some_iff] at halter
    obtain ⟨after', halter, hnil⟩ := halter
    obtain rfl : after' = after := some.inj hnil
    cases middle <;> cases hop : u.last <;> simp_all [Op.alter]

/-- What a page says of an object that has lived through it. -/
structure ChangesReply.Tells (reply : ChangesReply ι) (id : ι) (ops : List Op)
    (present after : Bool) : Prop where
  created : id ∈ reply.created ↔ ops ≠ [] ∧ present = false ∧ after = true
  updated : id ∈ reply.updated ↔ ops ≠ [] ∧ present = true ∧ after = true
  destroyed : id ∈ reply.destroyed ↔ ops ≠ [] ∧ present = true ∧ after = false

omit [DecidableEq ι] in
lemma Folded.mem_ids {folded : Folded ι} {wanted : Outcome → Bool} {id : ι} :
    id ∈ folded.ids wanted ↔ ∃ outcome, wanted outcome ∧ (id, outcome) ∈ folded.outcomes := by
  simp [Folded.ids, and_comm]

lemma Track.outcome_of_life {t : Track} (hfirst : t.first = .created ↔ present = false)
    (hlast : t.last = .destroyed ↔ after = false) :
    t.outcome =
      match present, after with
      | true, true => some (.updated t.onlyUpdates)
      | true, false => some .destroyed
      | false, true => some .created
      | false, false => none := by
  unfold Track.outcome
  cases present <;> cases after <;> simp_all

lemma FoldsTo.tells {folded : Folded ι} (h : FoldsTo j kind max p folded)
    (hcreated : reply.created = folded.ids (· = .created))
    (hupdated : reply.updated = folded.ids Outcome.isUpdated)
    (hdestroyed : reply.destroyed = folded.ids (· = .destroyed)) {id : ι}
    (hlife : life present (contentOps kind id ((j.lines.take folded.through).drop p)) =
      some after) :
    reply.Tells id (contentOps kind id ((j.lines.take folded.through).drop p)) present after := by
  set ops := contentOps kind id ((j.lines.take folded.through).drop p) with hops
  have houtcomes := h.outcomes id
  rw [← hops] at houtcomes
  by_cases hne : ops = []
  · -- Without a change there is no outcome.
    have hnone : ∀ outcome, (id, outcome) ∉ folded.outcomes := by
      intro outcome hmem
      obtain ⟨t, ht, -⟩ := (houtcomes outcome).1 hmem
      rw [hne] at ht
      cases ht
    constructor <;> simp [hcreated, hupdated, hdestroyed, Folded.mem_ids, hnone, hne]
  · obtain ⟨t, ht, -⟩ := trackOf_none hne
    obtain ⟨hfirst, hlast⟩ := track_of_life hlife ht
    have houtcome : ∀ outcome, (id, outcome) ∈ folded.outcomes ↔ t.outcome = some outcome := by
      intro outcome
      rw [houtcomes, ht]
      simp
    rw [Track.outcome_of_life hfirst hlast] at houtcome
    constructor
    all_goals
      simp only [hcreated, hupdated, hdestroyed, Folded.mem_ids, houtcome]
      cases present <;> cases after <;> simp [hne, Outcome.isUpdated]

omit [DecidableEq ι] in
lemma Folded.length_ids (folded : Folded ι) :
    (folded.ids (· = .created)).length + (folded.ids Outcome.isUpdated).length +
      (folded.ids (· = .destroyed)).length = folded.outcomes.length := by
  obtain ⟨outcomes, through, hasMore⟩ := folded
  simp only [Folded.ids, length_map]
  induction outcomes with
  | nil => rfl
  | cons pair outcomes ih =>
    obtain ⟨id, outcome⟩ := pair
    cases outcome <;> simp [Outcome.isUpdated] at ih ⊢ <;> omega

/-- What a reply does: it ends at a position of the journal, it names few ids, and it says what has
become of each object. -/
structure ChangesReply.Pages (reply : ChangesReply ι) (j : Journal ι) (kind : Kind)
    (max : Option ℕ) (p : ℕ) : Prop where
  le_newState : p ≤ reply.newState
  newState_le : reply.newState ≤ j.current
  ends : reply.hasMoreChanges = false → reply.newState = j.current
  advances : (∀ m ∈ max, 0 < m) → reply.hasMoreChanges → p < reply.newState
  few : ∀ m ∈ max, reply.created.length + reply.updated.length + reply.destroyed.length ≤ m
  tells : ∀ id present after,
    life present (contentOps kind id ((j.lines.take reply.newState).drop p)) = some after →
    reply.Tells id (contentOps kind id ((j.lines.take reply.newState).drop p)) present after

lemma changesReply_spec (h : changesReply j kind max p = some reply) :
    reply.Pages j kind max p := by
  obtain ⟨entries, hentries, h⟩ := bind_eq_some_iff.1 h
  have hfold : FoldsTo j kind max p (fold entries kind.object max kind.skipUpdates j.current) :=
    foldsTo_fold hentries
  obtain rfl := some.inj h
  refine ⟨hfold.le_through, hfold.through_le, hfold.ends, hfold.advances, fun m hm => ?_, ?_⟩
  · exact (Folded.length_ids _).trans_le (hfold.few m hm)
  · intro id present after hlife
    exact hfold.tells rfl rfl rfl hlife

/-! ## The client stays current -/

def Journal.Lawful (j : Journal ι) (kind : Kind) (initial : ι → Bool) : Prop :=
  ∀ id, (life (initial id) (opsOf kind.object id j.lines)).isSome

def Present (kind : Kind) (initial : ι → Bool) (id : ι) (changes : List (Change ι)) : Prop :=
  life (initial id) (opsOf kind.object id changes) = some true

/-- A client that holds what exists at its position, and of each object a copy that was fetched
behind its last change. -/
structure Reader.Current (reader : Reader ι) (j : Journal ι) (kind : Kind) (initial : ι → Bool) :
    Prop where
  floor_le : j.floor ≤ reader.position
  le_current : reader.position ≤ j.current
  holds : ∀ id, (reader.copies id).isSome ↔
    Present kind initial id (j.lines.take reader.position)
  unchanged : ∀ id, ∀ v ∈ reader.copies id, v ≤ reader.position ∧
    contentOps kind id ((j.lines.take reader.position).drop v) = []
  ends : reader.more = false → reader.position = j.current

lemma drop_take_append {α : Type*} (l : List α) {v q : ℕ} (hv : v ≤ p) (hp : p ≤ q)
    (hlen : p ≤ l.length) : (l.take q).drop v = (l.take p).drop v ++ (l.take q).drop p := by
  have hfront : l.take p = (l.take q).take p := by rw [take_take, min_eq_left hp]
  rw [hfront, ← drop_append_of_le_length, take_append_drop]
  simp only [length_take]
  omega

lemma Journal.Lawful.between (h : j.Lawful kind initial) (id : ι) {q : ℕ} (hp : p ≤ q)
    (hlen : p ≤ j.lines.length) :
    ∃ present after,
      life (initial id) (opsOf kind.object id (j.lines.take p)) = some present ∧
      life (initial id) (opsOf kind.object id (j.lines.take q)) = some after ∧
      life present (contentOps kind id ((j.lines.take q).drop p)) = some after := by
  have hwhole := h id
  obtain ⟨last, hwhole⟩ := isSome_iff_exists.1 hwhole
  rw [← take_append_drop q j.lines, opsOf_append, life_append,
    bind_eq_some_iff] at hwhole
  obtain ⟨after, hafter, -⟩ := hwhole
  have hsplit := drop_take_append j.lines (Nat.zero_le p) hp hlen
  rw [drop_zero, drop_zero] at hsplit
  have hafter' := hafter
  rw [hsplit, opsOf_append, life_append, bind_eq_some_iff] at hafter'
  obtain ⟨present, hpresent, hpage⟩ := hafter'
  exact ⟨present, after, hpresent, hafter, life_filter _ hpage⟩

lemma Reader.Current.take {reader : Reader ι} (hj : j.Lawful kind initial)
    (h : reader.Current j kind initial)
    (hreply : changesReply j kind max reader.position = some reply) :
    (reader.take reply).Current j kind initial := by
  have hpage := changesReply_spec hreply
  have hcopies : ∀ id, (((reader.take reply).copies id).isSome ↔
      Present kind initial id (j.lines.take reply.newState)) ∧
      ∀ v ∈ (reader.take reply).copies id, v ≤ reply.newState ∧
        contentOps kind id ((j.lines.take reply.newState).drop v) = [] := by
    intro id
    obtain ⟨present, after, hpresent, hafter, hlife⟩ :=
      hj.between id hpage.le_newState h.le_current
    have htells := hpage.tells id present after hlife
    have hholds := h.holds id
    simp only [Present, hpresent, hafter, some.injEq, Reader.take, htells.created,
      htells.updated, htells.destroyed] at hholds ⊢
    set ops := contentOps kind id ((j.lines.take reply.newState).drop reader.position) with hops
    by_cases hne : ops = []
    · -- Nothing happened to the object, and the copy is as good as it was.
      rw [hne] at hlife
      obtain rfl : present = after := some.inj hlife
      simp only [hne, ne_eq, not_true_eq_false, false_and, or_self_iff, if_false]
      refine ⟨hholds, fun v hv => ?_⟩
      obtain ⟨hle, hnone⟩ := h.unchanged id v hv
      refine ⟨hle.trans hpage.le_newState, ?_⟩
      rw [drop_take_append j.lines hle hpage.le_newState h.le_current, contentOps, opsOf,
        filter_append, map_append, filter_append]
      exact append_eq_nil_iff.2 ⟨hnone, hops.symm.trans hne⟩
    · have hnone : contentOps kind id ((j.lines.take reply.newState).drop reply.newState) = [] := by
        rw [drop_eq_nil_of_le (length_take_le ..)]
        rfl
      cases present <;> cases after <;> simp_all
  exact ⟨h.floor_le.trans hpage.le_newState, hpage.newState_le, fun id => (hcopies id).1,
    fun id => (hcopies id).2, hpage.ends⟩

/-! ## All pages -/

lemma exists_changesReply (kind : Kind) (max : Option ℕ) (hfloor : j.floor ≤ p)
    (hcurrent : p ≤ j.current) : ∃ reply, changesReply j kind max p = some reply := by
  have hsince : ∃ entries, j.since p = some entries := by
    refine ⟨_, if_neg ?_⟩
    omega
  obtain ⟨entries, hentries⟩ := hsince
  exact ⟨_, bind_eq_some_iff.2 ⟨entries, hentries, rfl⟩⟩

lemma sync_spec {reader : Reader ι} (hj : j.Lawful kind initial)
    (h : reader.Current j kind initial) {maxes : ℕ → Option ℕ} (hmax : ∀ n, ∀ m ∈ maxes n, 0 < m)
    (n : ℕ) :
    ∃ r, sync j kind maxes reader n = some r ∧ r.Current j kind initial ∧
      (r.more → reader.position + n ≤ r.position) := by
  induction n with
  | zero => exact ⟨reader, rfl, h, fun _ => le_refl _⟩
  | succ n ih =>
    obtain ⟨r, hr, hcurrent, hforward⟩ := ih
    by_cases hmore : r.more
    · obtain ⟨reply, hreply⟩ :=
        exists_changesReply kind (maxes n) hcurrent.floor_le hcurrent.le_current
      refine ⟨r.take reply, ?_, hcurrent.take hj hreply, fun hagain => ?_⟩
      · simp [sync, hr, hmore, hreply]
      · have hlt := (changesReply_spec hreply).advances (hmax n) hagain
        have hle := hforward hmore
        exact (Nat.add_le_add_right hle 1).trans hlt
    · refine ⟨r, ?_, hcurrent, fun hagain => absurd hagain hmore⟩
      simp [sync, hr, hmore]

/-- A client that starts with what exists at a position of the journal, and asks with any positive
limits, is told after finitely many pages that this was all. No page names more ids than its limit.
The client then holds exactly the ids that exist at the end, each in a copy fetched behind the last
change of its content. -/
theorem sync_reaches_end {j : Journal ι} {kind : Kind} {initial : ι → Bool}
    (hj : j.Lawful kind initial) {start : ℕ} (hfloor : j.floor ≤ start)
    (hcurrent : start ≤ j.current) {maxes : ℕ → Option ℕ} (hmax : ∀ n, ∀ m ∈ maxes n, 0 < m)
    {copies : ι → Option ℕ}
    (hcopies : ∀ id v, copies id = some v ↔
      v = start ∧ Present kind initial id (j.lines.take start)) :
    (∃ n r, sync j kind maxes ⟨start, copies, true⟩ n = some r ∧ r.more = false) ∧
      ∀ n, ∃ r, sync j kind maxes ⟨start, copies, true⟩ n = some r ∧
        (∀ reply, changesReply j kind (maxes n) r.position = some reply → ∀ m ∈ maxes n,
          reply.created.length + reply.updated.length + reply.destroyed.length ≤ m) ∧
        (r.more = false → ∀ id,
          ((r.copies id).isSome ↔ Present kind initial id j.lines) ∧
          ∀ v ∈ r.copies id, contentOps kind id (j.lines.drop v) = []) := by
  have hstart : Reader.Current ⟨start, copies, true⟩ j kind initial := by
    refine ⟨hfloor, hcurrent, fun id => ?_, fun id v hv => ?_, fun hmore => nomatch hmore⟩
    · simp [isSome_iff_exists, hcopies]
    · obtain ⟨rfl, -⟩ := (hcopies id v).1 hv
      refine ⟨le_refl _, ?_⟩
      rw [drop_eq_nil_of_le (length_take_le ..)]
      rfl
  have hspec := sync_spec hj hstart hmax
  constructor
  · -- One page more than there are positions left.
    obtain ⟨r, hr, hcurrent', hforward⟩ := hspec (j.current - start + 1)
    refine ⟨_, r, hr, Bool.eq_false_iff.2 fun hmore => ?_⟩
    have hle := hforward hmore
    have hlast := hcurrent'.le_current
    dsimp only at hle
    omega
  · intro n
    obtain ⟨r, hr, hcurrent', -⟩ := hspec n
    refine ⟨r, hr, fun reply hreply => (changesReply_spec hreply).few, fun hmore id => ?_⟩
    have hwhole : j.lines.take r.position = j.lines := by
      rw [hcurrent'.ends hmore]
      exact take_length
    have hholds := hcurrent'.holds id
    have hunchanged := hcurrent'.unchanged id
    rw [hwhole] at hholds hunchanged
    exact ⟨hholds, fun v hv => (hunchanged v hv).2⟩

/-- A journal of one email that is created, a second that is created and destroyed, and the first
destroyed and created again. -/
def busyJournal : Journal (Fin 2) :=
  ⟨[⟨.email, .created, 0⟩, ⟨.email, .created, 1⟩, ⟨.email, .updated, 0⟩, ⟨.email, .destroyed, 1⟩,
    ⟨.mailbox, .updated, 1⟩, ⟨.email, .destroyed, 0⟩, ⟨.email, .created, 0⟩], 0, by decide⟩

/-- A client that saw the first line of the busy journal, one change a page. -/
theorem sync_reaches_end_busy :
    (∃ n r, sync busyJournal .email (fun _ => some 1)
        ⟨1, fun id => if id = 0 then some 1 else none, true⟩ n = some r ∧ r.more = false) ∧
      ∀ n, ∃ r, sync busyJournal .email (fun _ => some 1)
          ⟨1, fun id => if id = 0 then some 1 else none, true⟩ n = some r ∧
        (∀ reply, changesReply busyJournal .email (some 1) r.position = some reply →
          ∀ m ∈ some 1,
          reply.created.length + reply.updated.length + reply.destroyed.length ≤ m) ∧
        (r.more = false → ∀ id,
          ((r.copies id).isSome ↔ Present .email (fun _ => false) id busyJournal.lines) ∧
          ∀ v ∈ r.copies id, contentOps .email id (busyJournal.lines.drop v) = []) := by
  have hcopies : ∀ id v, (if id = 0 then some 1 else none : Option ℕ) = some v ↔
      v = 1 ∧ Present .email (fun _ => false) id (busyJournal.lines.take 1) := by
    intro id v
    have hpresent : Present .email (fun _ => false) id (busyJournal.lines.take 1) ↔ id = 0 := by
      unfold Present
      revert id
      decide
    rw [hpresent]
    by_cases hid : id = 0 <;> simp [hid, eq_comm]
  exact sync_reaches_end (by unfold Journal.Lawful; decide) (by decide) (by decide)
    (fun _ m hm => by simp at hm; omega) hcopies

end Epistle.Jmap
