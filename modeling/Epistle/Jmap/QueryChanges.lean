import Epistle.Lib.Splice
import Mathlib.Data.List.Sort
import Mathlib.Data.Prod.Lex

/-!
# Changes of an email query

The change journal of an account (`imap/changelog`), the fold of its lines into one outcome per id
(`api/jmap/fold`) and the difference that `Email/queryChanges` and `Mailbox/queryChanges` reply
with (`api/jmap/query_changes.rs`). Ids are of any linearly ordered type; a journal line is at the
position of its index in the journal, counted from one.
-/

namespace Epistle.Jmap

open Lib List Option

/-- The kind of object a journal line is about. -/
inductive Object
  | email
  | mailbox
  deriving DecidableEq, Repr

/-- What happened to the object. -/
inductive Op
  | created
  | updated
  | destroyed
  deriving DecidableEq, Repr

/-- A line of the journal. -/
structure Change (ι : Type*) where
  object : Object
  op : Op
  id : ι
  deriving DecidableEq, Repr

/-- A journal line with its position. -/
structure Entry (ι : Type*) where
  position : ℕ
  change : Change ι
  deriving DecidableEq, Repr

/-- An account's journal. -/
structure Journal (ι : Type*) where
  lines : List (Change ι)
  floor : ℕ
  floor_le : floor ≤ lines.length

namespace Journal

variable {ι : Type*}

def empty : Journal ι := ⟨[], 0, Nat.le_refl 0⟩

/-- The position behind the last line. -/
def current (j : Journal ι) : ℕ := j.lines.length

/-- Add lines to the journal. -/
def record (j : Journal ι) (changes : List (Change ι)) : Journal ι :=
  ⟨j.lines ++ changes, j.floor, by rw [length_append]; exact Nat.le_add_right_of_le j.floor_le⟩

/-- Forget the lines below a position. -/
def trim (j : Journal ι) (floor : ℕ) (h : floor ≤ j.lines.length) : Journal ι := ⟨j.lines, floor, h⟩

/-- The lines after a position, if none of them is forgotten. -/
def since (j : Journal ι) (since : ℕ) : Option (List (Entry ι)) :=
  if since < j.floor ∨ since > j.current then none
  else some (((j.lines.zipIdx 1).drop since).map fun (change, position) => ⟨position, change⟩)

lemma since_changes {j : Journal ι} {p : ℕ} {entries : List (Entry ι)}
    (h : j.since p = some entries) : entries.map (·.change) = j.lines.drop p := by
  simp only [Journal.since, ite_none_left_eq_some, some.injEq] at h
  rw [← h.2, List.map_map, map_drop]
  exact congrArg _ (zipIdx_map_fst 1 j.lines)

end Journal

/-! ## The fold -/

inductive Outcome
  | created
  | updated (onlyUpdates : Bool)
  | destroyed
  deriving DecidableEq, Repr

/-- The folded changes, in the order each id first changed. -/
structure Folded (ι : Type*) where
  outcomes : List (ι × Outcome)
  /-- The position the reply covers. -/
  through : ℕ
  hasMore : Bool
  deriving DecidableEq, Repr

/-- The changes of one id so far. -/
structure Track where
  first : Op
  last : Op
  onlyUpdates : Bool
  deriving DecidableEq, Repr

/-- Take one more change of an id into account. -/
def Track.next (t : Option Track) (op : Op) : Track :=
  match t with
  | none => ⟨op, op, op = .updated⟩
  | some t => { t with last := op, onlyUpdates := t.onlyUpdates && op = .updated }

def Track.outcome (t : Track) : Option Outcome :=
  if t.first ≠ .created then
    if t.last ≠ .destroyed then some (.updated t.onlyUpdates) else some .destroyed
  else if t.last ≠ .destroyed then some .created
  else none

open Track

section Fold

variable {ι : Type*} [DecidableEq ι]

def touch (id : ι) (op : Op) : List (ι × Track) → List (ι × Track)
  | [] => [(id, next none op)]
  | (k, t) :: tracks => if k = id then (k, next (some t) op) :: tracks
      else (k, t) :: touch id op tracks

def foldTracks (object : Object) (max : Option ℕ) (skipUpdates : Bool) :
    List (Entry ι) → List (ι × Track) → List (ι × Track) × Option ℕ
  | [], tracks => (tracks, none)
  | ⟨position, change⟩ :: entries, tracks =>
      if change.object ≠ object ∨ (skipUpdates ∧ change.op = .updated) then
        foldTracks object max skipUpdates entries tracks
      else if tracks.lookup change.id = none ∧ max.any (tracks.length ≥ ·) then
        (tracks, some (position - 1))
      else foldTracks object max skipUpdates entries (touch change.id change.op tracks)

/-- What became of each object. -/
def fold (entries : List (Entry ι)) (object : Object) (max : Option ℕ) (skipUpdates : Bool)
    (last : ℕ) : Folded ι :=
  let (tracks, stopped) := foldTracks object max skipUpdates entries []
  ⟨tracks.filterMap fun (id, t) => t.outcome.map (id, ·), stopped.getD last, stopped.isSome⟩

end Fold

/-! ## Queries -/

section Query

variable {ι : Type*} [LinearOrder ι]

/-- The ids of a list, newest first. -/
def emailQueryIds (messages : List ι) : List ι := (messages.insertionSort (· ≤ ·)).reverse

/-- `removed` holds every changed id that existed at the old state; `added` holds every changed id
in the current results, with its index, lowest index first. -/
def diff (folded : Folded ι) (current : List ι) (kind : Object) : List ι × List (ℕ × ι) :=
  let outcomes := folded.outcomes.filter fun (_, outcome) =>
    !(kind = .mailbox && outcome = .updated true)
  ((outcomes.filter fun (_, outcome) => outcome ≠ .created).map (·.1),
    (outcomes.filterMap fun (id, _) => (current.idxOf? id).map (·, id)).insertionSort
      fun a b => toLex a ≤ toLex b)

/-- A client's copy of a query's results, and the state it is from. -/
structure Client (ι : Type*) where
  ids : List ι
  position : ℕ
  deriving DecidableEq, Repr

/-- What a client makes of a reply. -/
def Client.apply (c : Client ι) (removed : List ι) (added : List (ℕ × ι)) : List ι :=
  insertAll added (c.ids.filter (· ∉ removed))

@[reducible] def decidableMem (id : ι) (ids : List ι) : Decidable (id ∈ ids) :=
  inferInstance

end Query

/-! ## What the fold says of an id -/

section FoldSpec

variable {ι : Type*} [DecidableEq ι] {object : Object}

def opsOf (object : Object) (id : ι) (changes : List (Change ι)) : List Op :=
  (changes.filter fun change => change.object = object ∧ change.id = id).map (·.op)

lemma opsOf_append (object : Object) (id : ι) (changes changes' : List (Change ι)) :
    opsOf object id (changes ++ changes') = opsOf object id changes ++ opsOf object id
      changes' := by
  simp [opsOf]

def trackOf (t : Option Track) (ops : List Op) : Option Track :=
  ops.foldl (fun t op => some (next t op)) t

lemma lookup_touch (id id' : ι) (op : Op) (tracks : List (ι × Track)) :
    (touch id op tracks).lookup id' =
      if id' = id then some (next (tracks.lookup id) op) else tracks.lookup id' := by
  induction tracks with
  | nil =>
    by_cases h : id' = id
    · simp [touch, h]
    · simp [touch, h, lookup_cons, beq_false_of_ne h]
  | cons kt tracks ih =>
    obtain ⟨k, t⟩ := kt
    rw [touch]
    by_cases hk : k = id
    · subst hk
      by_cases h : id' = k
      · simp [h]
      · simp [lookup_cons, beq_false_of_ne h, h]
    · rw [if_neg hk, lookup_cons, ih, lookup_cons, lookup_cons,
        beq_false_of_ne (Ne.symm hk)]
      by_cases h : id' = k
      · simp [h, hk]
      · simp [beq_false_of_ne h]

lemma keys_touch (id : ι) (op : Op) (tracks : List (ι × Track)) :
    (touch id op tracks).map (·.1) =
      if id ∈ tracks.map (·.1) then tracks.map (·.1) else tracks.map (·.1) ++ [id] := by
  induction tracks with
  | nil => simp [touch]
  | cons kt tracks ih =>
    obtain ⟨k, t⟩ := kt
    rw [touch]
    by_cases hk : k = id
    · simp [hk]
    · rw [if_neg hk, map_cons, map_cons, ih]
      by_cases hin : id ∈ tracks.map (·.1)
      · rw [if_pos hin, if_pos (mem_cons_of_mem _ hin)]
      · rw [if_neg hin, if_neg (by simpa [Ne.symm hk] using hin), cons_append]

lemma foldTracks_spec (object : Object) (entries : List (Entry ι)) (tracks : List (ι × Track))
    (hnodup : (tracks.map (·.1)).Nodup) :
    ((foldTracks object none false entries tracks).1.map (·.1)).Nodup ∧
      ∀ id, (foldTracks object none false entries tracks).1.lookup id =
        trackOf (tracks.lookup id) (opsOf object id (entries.map (·.change))) := by
  induction entries generalizing tracks with
  | nil => exact ⟨hnodup, fun id => rfl⟩
  | cons entry entries ih =>
    obtain ⟨position, change⟩ := entry
    rw [foldTracks]
    by_cases hobject : change.object = object
    · have hnext : ((touch change.id change.op tracks).map (·.1)).Nodup := by
        rw [keys_touch]
        split_ifs with hin
        · exact hnodup
        · exact hnodup.append (nodup_singleton _) (by simpa using hin)
      simp only [hobject, ne_eq, not_true_eq_false, Bool.false_eq_true, false_and, or_self_iff,
        if_false, any_none, and_false]
      obtain ⟨hkeys, hlookup⟩ := ih _ hnext
      refine ⟨hkeys, fun id => ?_⟩
      rw [hlookup, lookup_touch]
      by_cases hid : id = change.id
      · subst hid
        simp [opsOf, hobject, trackOf]
      · simp [opsOf, hid, Ne.symm hid]
    · simp only [hobject, ne_eq, not_false_eq_true, true_or, if_true]
      obtain ⟨hkeys, hlookup⟩ := ih tracks hnodup
      refine ⟨hkeys, fun id => ?_⟩
      rw [hlookup]
      simp [opsOf, hobject]

lemma trackOf_some (t : Track) (ops : List Op) :
    ∃ u, trackOf (some t) ops = some u ∧ u.first = t.first ∧
      u.last = ops.getLast?.getD t.last := by
  induction ops generalizing t with
  | nil => exact ⟨t, rfl, rfl, rfl⟩
  | cons op ops ih =>
    obtain ⟨u, hu, hfirst, hlast⟩ := ih (next (some t) op)
    refine ⟨u, hu, hfirst, ?_⟩
    rw [hlast, List.getLast?_cons]
    rfl

lemma trackOf_none {ops : List Op} (hne : ops ≠ []) :
    ∃ u, trackOf none ops = some u ∧ ops.head? = some u.first ∧ ops.getLast? = some u.last := by
  obtain ⟨op, ops, rfl⟩ := exists_cons_of_ne_nil hne
  obtain ⟨u, hu, hfirst, hlast⟩ := trackOf_some (next none op) ops
  refine ⟨u, hu, ?_, ?_⟩
  · rw [hfirst]
    rfl
  · rw [hlast, List.getLast?_cons]
    rfl

lemma mem_iff_lookup {tracks : List (ι × Track)} (hnodup : (tracks.map (·.1)).Nodup) (id : ι)
    (t : Track) : (id, t) ∈ tracks ↔ tracks.lookup id = some t := by
  induction tracks with
  | nil => simp
  | cons kt tracks ih =>
    obtain ⟨k, u⟩ := kt
    rw [map_cons, nodup_cons] at hnodup
    rw [mem_cons, lookup_cons, ih hnodup.2]
    by_cases hk : id = k
    · subst hk
      -- The key is at the head only.
      have hout : tracks.lookup id ≠ some t := fun h =>
        hnodup.1 (List.mem_map.2 ⟨(id, t), (ih hnodup.2).2 h, rfl⟩)
      simp [hout, eq_comm]
    · simp [hk, beq_false_of_ne hk]

lemma mem_outcomes {tracks : List (ι × Track)} (hnodup : (tracks.map (·.1)).Nodup) (id : ι)
    (outcome : Outcome) :
    (id, outcome) ∈ tracks.filterMap (fun (id, t) => t.outcome.map (id, ·)) ↔
      ∃ t, tracks.lookup id = some t ∧ t.outcome = some outcome := by
  simp only [mem_filterMap, Prod.exists, map_eq_some_iff, Prod.mk.injEq]
  constructor
  · rintro ⟨k, t, hin, o, ho, rfl, rfl⟩
    exact ⟨t, (mem_iff_lookup hnodup k t).1 hin, ho⟩
  · rintro ⟨t, ht, ho⟩
    exact ⟨id, t, (mem_iff_lookup hnodup id t).2 ht, outcome, ho, rfl, rfl⟩

lemma fold_outcomes (entries : List (Entry ι)) (last : ℕ) (id : ι) (outcome : Outcome) :
    (id, outcome) ∈ (fold entries object none false last).outcomes ↔
      ∃ t, trackOf none (opsOf object id (entries.map (·.change))) = some t ∧
        t.outcome = some outcome := by
  obtain ⟨hkeys, hlookup⟩ := foldTracks_spec object entries [] (by simp)
  rw [show trackOf none (opsOf object id (entries.map (·.change))) = _ from (hlookup id).symm]
  exact mem_outcomes hkeys id outcome

lemma fold_nodup (entries : List (Entry ι)) (last : ℕ) :
    ((fold entries object none false last).outcomes.map (·.1)).Nodup := by
  obtain ⟨hkeys, -⟩ := foldTracks_spec object entries [] (by simp)
  refine hkeys.sublist (keys_filterMap_sublist (fun kt x h => ?_) _)
  obtain ⟨o, -, rfl⟩ := map_eq_some_iff.1 h
  rfl

end FoldSpec

/-! ## What a client does with the reply -/

section Apply

variable {ι : Type*} [LinearOrder ι]

lemma emailQueryIds_mem {messages : List ι} {id : ι} :
    id ∈ emailQueryIds messages ↔ id ∈ messages := by
  simp [emailQueryIds]

lemma emailQueryIds_sorted {messages : List ι} (h : messages.Nodup) :
    (emailQueryIds messages).Pairwise (· > ·) := by
  have hle := messages.pairwise_insertionSort (· ≤ ·)
  have hne : (messages.insertionSort (· ≤ ·)).Nodup := (messages.perm_insertionSort _).nodup_iff.2 h
  rw [emailQueryIds, pairwise_reverse]
  exact (hle.and hne).imp fun ⟨hle, hne⟩ => lt_of_le_of_ne hle hne

section Diff

variable {entries : List (Entry ι)} {current : List ι} {last : ℕ}

lemma mem_removed {id : ι} :
    id ∈ (diff (fold entries .email none false last) current .email).1 ↔
      ∃ op, (opsOf .email id (entries.map (·.change))).head? = some op ∧ op ≠ .created := by
  simp only [diff, List.mem_map, mem_filter, Prod.exists, exists_and_right, exists_eq_right,
    fold_outcomes, decide_eq_true_eq]
  constructor
  · rintro ⟨o, ⟨⟨t, ht, ho⟩, -⟩, hne⟩
    have hops : opsOf .email id (entries.map (·.change)) ≠ [] := fun h => by
      simp [h, trackOf] at ht
    obtain ⟨u, hu, hhead, -⟩ := trackOf_none hops
    obtain rfl : u = t := some.inj (hu.symm.trans ht)
    refine ⟨u.first, hhead, fun hfirst => ?_⟩
    simp only [outcome, hfirst, ne_eq, not_true_eq_false, if_false] at ho
    split_ifs at ho
    exact hne (some.inj ho).symm
  · rintro ⟨op, hhead, hne⟩
    have hops : opsOf .email id (entries.map (·.change)) ≠ [] := fun h => by simp [h] at hhead
    obtain ⟨u, hu, hfirst, -⟩ := trackOf_none hops
    obtain rfl : op = u.first := some.inj (hhead.symm.trans hfirst)
    by_cases hlast : u.last = .destroyed
    · exact ⟨.destroyed, ⟨⟨u, hu, by simp [outcome, hne, hlast]⟩, by simp⟩, by simp⟩
    · exact ⟨.updated u.onlyUpdates, ⟨⟨u, hu, by simp [outcome, hne, hlast]⟩, by simp⟩, by simp⟩

lemma mem_added (hcurrent : current.Nodup) {i : ℕ} {id : ι} :
    (i, id) ∈ (diff (fold entries .email none false last) current .email).2 ↔
      (∃ t o, trackOf none (opsOf .email id (entries.map (·.change))) = some t ∧
        t.outcome = some o) ∧ current[i]? = some id := by
  simp only [diff, mem_insertionSort, mem_filterMap, mem_filter, Prod.exists,
    map_eq_some_iff, Prod.mk.injEq, fold_outcomes, idxOf?_eq_some hcurrent]
  constructor
  · rintro ⟨id, o, ⟨⟨t, ht, ho⟩, -⟩, i, hi, rfl, rfl⟩
    exact ⟨⟨t, o, ht, ho⟩, hi⟩
  · rintro ⟨⟨t, o, ht, ho⟩, hi⟩
    exact ⟨id, o, ⟨⟨t, ht, ho⟩, by simp⟩, i, hi, rfl, rfl⟩

lemma added_sorted (hcurrent : current.Nodup) :
    (diff (fold entries .email none false last) current .email).2.Pairwise (·.1 < ·.1) := by
  set folded := fold entries .email none false last with hfolded
  have hids : ((diff folded current .email).2.map (·.2)).Nodup := by
    refine (((perm_insertionSort _ _).map _).nodup_iff).2 ?_
    refine (((fold_nodup entries last).sublist (List.filter_sublist.map _))).sublist
      (keys_filterMap_sublist (fun x y h => ?_) _)
    obtain ⟨i, -, rfl⟩ := map_eq_some_iff.1 h
    rfl
  have hle : (diff folded current .email).2.Pairwise (fun a b => toLex a ≤ toLex b) :=
    pairwise_insertionSort _ _
  refine (hle.and (pairwise_map.1 hids)).imp_of_mem fun {a b} ha hb hab => ?_
  rcases Prod.Lex.le_iff.1 hab.1 with hlt | ⟨heq, -⟩
  · exact hlt
  · -- One index has one id.
    have ha := ((mem_added hcurrent).1 ha).2
    have hb := ((mem_added hcurrent).1 hb).2
    have heq : a.1 = b.1 := heq
    rw [heq, hb] at ha
    exact absurd (some.inj ha).symm hab.2

lemma apply_diff {c : Client ι} (hc : c.ids.Pairwise (· > ·)) (hcurrent : current.Pairwise (· > ·))
    (hsame : ∀ id, opsOf .email id (entries.map (·.change)) = [] → (id ∈ c.ids ↔ id ∈ current))
    (hcreated : ∀ id, (opsOf .email id (entries.map (·.change))).head? = some .created →
      id ∉ c.ids)
    (hdestroyed : ∀ id, (opsOf .email id (entries.map (·.change))).getLast? = some .destroyed →
      id ∉ current) :
    c.apply (diff (fold entries .email none false last) current .email).1
      (diff (fold entries .email none false last) current .email).2 = current := by
  set removed := (diff (fold entries .email none false last) current .email).1
  set added := (diff (fold entries .email none false last) current .email).2
  let changed : ι → Bool := fun id => opsOf .email id (entries.map (·.change)) ≠ []
  have hnodup : current.Nodup := hcurrent.imp ne_of_gt
  -- The ids that stay are those without a change.
  have hstay : c.ids.filter (· ∉ removed) = current.filter (!changed ·) := by
    refine (hc.filter _).eq_of_mem_iff (hcurrent.filter _) fun id => ?_
    simp only [mem_filter, decide_eq_true_eq, Bool.not_eq_true', changed, decide_eq_false_iff_not,
      not_not]
    constructor
    · rintro ⟨hin, hkept⟩
      have hops : opsOf .email id (entries.map (·.change)) = [] := by
        by_contra hne
        obtain ⟨u, -, hhead, -⟩ := trackOf_none hne
        by_cases hfirst : u.first = .created
        · exact hcreated id (hfirst ▸ hhead) hin
        · exact hkept (mem_removed.2 ⟨u.first, hhead, hfirst⟩)
      exact ⟨(hsame id hops).1 hin, hops⟩
    · rintro ⟨hin, hops⟩
      refine ⟨(hsame id hops).2 hin, fun hrem => ?_⟩
      obtain ⟨op, hhead, -⟩ := mem_removed.1 hrem
      simp [hops] at hhead
  -- The ids that are added are the others, each at its own index.
  have hmarked : added = marked changed current := by
    refine (added_sorted hnodup).eq_of_mem_iff (pairwise_markedFrom changed 0 current) fun x => ?_
    obtain ⟨i, id⟩ := x
    rw [mem_added hnodup, marked, mem_markedFrom]
    simp only [Nat.zero_le, Nat.sub_zero, true_and, decide_eq_true_eq, changed]
    refine and_congr_left fun hi => ⟨?_, fun hne => ?_⟩
    · rintro ⟨t, o, ht, -⟩ hops
      simp [hops, trackOf] at ht
    · obtain ⟨u, hu, -, hlast⟩ := trackOf_none hne
      have hexists : u.last ≠ .destroyed := fun h =>
        hdestroyed id (h ▸ hlast) (mem_of_getElem? hi)
      by_cases hfirst : u.first = .created
      · exact ⟨u, .created, hu, by simp [outcome, hfirst, hexists]⟩
      · exact ⟨u, .updated u.onlyUpdates, hu, by simp [outcome, hfirst, hexists]⟩
  rw [Client.apply, hstay, hmarked, insertAll_marked]

end Diff

end Apply

end Epistle.Jmap
