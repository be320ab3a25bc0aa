import Epistle.Migrate.Copy

/-!
# What a replay accounts for

The messages that are to be copied, in UID order, and a local mailbox that has a first part of them.
A run has seen some of the UIDs.
-/

namespace Epistle.Migrate

open Lib List

section

variable (sha256 : List UInt8 → Digest)

def finger (m : Message) : Digest := fingerprint sha256 (key sha256 m.body)

def mark (m : Message) : Record := ⟨m.uid, finger sha256 m⟩

def unseen (W : List Message) (k : ℕ) (seen : ℕ → Bool) : Multiset Digest :=
  ((W.take k).filter fun m => !seen m.uid).map (finger sha256)

end

def visit (seen : ℕ → Bool) (uid : ℕ) : ℕ → Bool := fun u => seen u || u = uid

section Messages

variable {sha256 : List UInt8 → Digest} {W : List Message} {k : ℕ} {seen : ℕ → Bool} {m : Message}

lemma eq_of_uid_eq (hW : W.Pairwise (·.uid < ·.uid)) {a b : Message} (ha : a ∈ W) (hb : b ∈ W)
    (h : a.uid = b.uid) : a = b :=
  inj_on_of_nodup_map (pairwise_map.2 (hW.imp ne_of_lt)) ha hb h

lemma mem_take_of_uid_lt (hW : W.Pairwise (·.uid < ·.uid)) {a b : Message} (ha : a ∈ W)
    (hb : b ∈ W.take k) (h : a.uid < b.uid) : a ∈ W.take k := by
  obtain ⟨i, hil, rfl⟩ := mem_iff_getElem.1 ha
  obtain ⟨j, hjk, rfl⟩ := mem_take_iff_getElem.1 hb
  have hjl : j < W.length := by omega
  -- A smaller UID is at a smaller index.
  have hij : i < j := by
    rcases Nat.lt_trichotomy i j with hlt | rfl | hgt
    · exact hlt
    · exact absurd h (lt_irrefl _)
    · exact absurd (pairwise_iff_getElem.1 hW j i hjl hil hgt) (Nat.lt_asymm h)
  exact mem_take_iff_getElem.2 ⟨i, by omega, rfl⟩

lemma take_succ_of_next (hW : W.Pairwise (·.uid < ·.uid)) (hm : m ∈ W) (hout : m ∉ W.take k)
    (hbefore : ∀ a ∈ W, a.uid < m.uid → a ∈ W.take k) : W.take (k + 1) = W.take k ++ [m] := by
  obtain ⟨i, hi⟩ := mem_iff_getElem?.1 hm
  obtain ⟨hil, rfl⟩ := List.getElem?_eq_some_iff.1 hi
  have hki : k ≤ i := by
    by_contra hlt
    exact hout (mem_take_iff_getElem.2 ⟨i, by omega, rfl⟩)
  obtain rfl : k = i := by
    by_contra hne
    have hlt : k < i := lt_of_le_of_ne hki hne
    have hkl : k < W.length := lt_trans hlt hil
    -- The message at `k` is before, so it would be among the first `k`.
    have hin := hbefore W[k] (getElem_mem hkl) (pairwise_iff_getElem.1 hW k i hkl hil hlt)
    obtain ⟨j, hj, heq⟩ := mem_take_iff_getElem.1 hin
    have := pairwise_iff_getElem.1 hW j k (by omega) hkl (by omega)
    rw [heq] at this
    exact lt_irrefl _ this
  rw [take_add_one, hi]
  rfl

lemma take_eq_self (hW : W.Pairwise (·.uid < ·.uid)) (h : ∀ a ∈ W, a ∈ W.take k) :
    W.take k = W := by
  have hnodup : W.Nodup := hW.imp fun hlt heq => ne_of_lt hlt (congrArg Message.uid heq)
  exact (take_sublist k W).eq_of_length_le (hnodup.subperm h).length_le

lemma filter_visit {l : List Message} (hl : l.Pairwise (·.uid < ·.uid)) (hm : m ∈ l)
    (hseen : seen m.uid = false) :
    (l.filter fun a => !seen a.uid).Perm (m :: l.filter fun a => !visit seen m.uid a.uid) := by
  induction l with
  | nil => simp at hm
  | cons a l ih =>
    obtain ⟨ha, hl⟩ := pairwise_cons.1 hl
    rcases mem_cons.1 hm with rfl | hm
    · -- The other messages have other UIDs.
      have hsame : l.filter (fun a => !visit seen m.uid a.uid) = l.filter fun a => !seen a.uid :=
        filter_congr fun x hx => by simp [visit, (ne_of_lt (ha x hx)).symm]
      rw [filter_cons_of_pos (by simpa using hseen), filter_cons_of_neg (by simp [visit]),
        hsame]
    · have hne : a.uid ≠ m.uid := ne_of_lt (ha m hm)
      have hkeep : visit seen m.uid a.uid = seen a.uid := by simp [visit, hne]
      rw [filter_cons, filter_cons, hkeep]
      split_ifs
      · exact ((ih hl hm).cons a).trans (.swap m a _)
      · exact ih hl hm

lemma unseen_visit (hW : W.Pairwise (·.uid < ·.uid)) (hm : m ∈ W.take k)
    (hseen : seen m.uid = false) :
    unseen sha256 W k seen = finger sha256 m ::ₘ unseen sha256 W k (visit seen m.uid) := by
  have hperm := filter_visit (hW.sublist (take_sublist k W)) hm hseen
  exact Multiset.coe_eq_coe.2 (hperm.map (finger sha256))

lemma unseen_eq_zero (h : ∀ a ∈ W.take k, seen a.uid) : unseen sha256 W k seen = 0 := by
  rw [unseen, filter_eq_nil_iff.2 fun a ha => by simp [h a ha]]
  rfl

lemma unseen_congr {seen' : ℕ → Bool} (h : ∀ a ∈ W.take k, seen' a.uid = seen a.uid) :
    unseen sha256 W k seen' = unseen sha256 W k seen := by
  rw [unseen, unseen, filter_congr fun a ha => by rw [h a ha]]

end Messages

/-! ## The account of a run -/

section Account

variable (sha256 : List UInt8 → Digest) (W : List Message)

/-- How a run tells what is in the mailbox: the copies left to claim are those of the messages not
seen yet, or what is stored and not seen is in the ledger. -/
inductive Matches (records : List Record) (k : ℕ) (seen : ℕ → Bool) : Bool → Option Table → Prop
  | replay {table : Table} {scanned : ℕ} (le : scanned ≤ k)
      (holds : table.Holds (unseen sha256 W scanned seen))
      (old : ∀ m ∈ W.take k, seen m.uid = false → m ∈ W.take scanned) :
      Matches records k seen true (some table)
  | resume (known : ∀ m ∈ W.take k, seen m.uid = false → mark sha256 m ∈ records) :
      Matches records k seen false none

/-- The account of a run with `k` messages in the mailbox. -/
structure Core (dedupe : Bool) (index : Option Table) (records : List Record) (k : ℕ)
    (seen : ℕ → Bool) : Prop where
  seen_stored : ∀ m ∈ W, seen m.uid → m ∈ W.take k
  confirmed : ∀ r ∈ records, ∃ m ∈ W.take k, r = mark sha256 m
  matches_ : Matches sha256 W records k seen dedupe index

/-- A progress file accounts for the mailbox: what it has passed is stored, and what is stored
beyond is in the ledger. -/
structure Settled (records : List Record) (k lastUid : ℕ) : Prop where
  passed : ∀ m ∈ W, m.uid ≤ lastUid → m ∈ W.take k
  beyond : ∀ m ∈ W.take k, nextUid lastUid ≤ m.uid → mark sha256 m ∈ records

end Account

def claimIndex (index : Option Table) (f : Digest) : Bool × Option Table :=
  match index with
  | none => (false, none)
  | some table => ((table.claimHash f).1, some (table.claimHash f).2)

namespace Core

variable {sha256 : List UInt8 → Digest} {W : List Message} {dedupe : Bool} {index : Option Table}
  {records : List Record} {k : ℕ} {seen : ℕ → Bool} {m : Message}

lemma congr {seen' : ℕ → Bool} (h : Core sha256 W dedupe index records k seen)
    (heq : ∀ a ∈ W, seen' a.uid = seen a.uid) : Core sha256 W dedupe index records k seen' := by
  have htake : ∀ {j}, ∀ a ∈ W.take j, seen' a.uid = seen a.uid :=
    fun a ha => heq a (mem_of_mem_take ha)
  refine ⟨fun a ha hs => h.seen_stored a ha (heq a ha ▸ hs), h.confirmed, ?_⟩
  cases h.matches_ with
  | replay hle hholds hold =>
    refine .replay hle (unseen_congr htake ▸ hholds) fun a ha hs => hold a ha ?_
    exact htake a ha ▸ hs
  | resume hknown => exact .resume fun a ha hs => hknown a ha (htake a ha ▸ hs)

lemma seen_stored_visit (hW : W.Pairwise (·.uid < ·.uid)) (h : ∀ a ∈ W, seen a.uid → a ∈ W.take k)
    (hm : m ∈ W.take k) : ∀ a ∈ W, visit seen m.uid a.uid → a ∈ W.take k := by
  intro a ha hs
  rcases Bool.or_eq_true_iff.1 hs with hs | heq
  · exact h a ha hs
  · exact eq_of_uid_eq hW ha (mem_of_mem_take hm) (of_decide_eq_true heq) ▸ hm

lemma seen_of_visit_false {uid u : ℕ} (h : visit seen uid u = false) : seen u = false :=
  (Bool.or_eq_false_iff.1 h).1

lemma known (h : Core sha256 W false index records k seen) (hm : m ∈ W.take k)
    (hseen : seen m.uid = false) : mark sha256 m ∈ records := by
  cases h.matches_ with
  | resume hknown => exact hknown m hm hseen

lemma claimed (hW : W.Pairwise (·.uid < ·.uid)) (h : Core sha256 W dedupe index records k seen)
    (hm : m ∈ W.take k) (hseen : seen m.uid = false) :
    (claimIndex index (finger sha256 m)).1 = dedupe ∧
      Core sha256 W dedupe (claimIndex index (finger sha256 m)).2 records k (visit seen m.uid) := by
  have hstored := seen_stored_visit hW h.seen_stored hm
  cases h.matches_ with
  | replay hle hholds hold =>
    have hunseen : unseen sha256 W _ seen = _ := unseen_visit hW (hold m hm hseen) hseen
    obtain ⟨hfound, hrest⟩ := hholds.claimHash (finger sha256 m)
    rw [hunseen] at hfound hrest
    refine ⟨hfound.trans (decide_eq_true (Multiset.mem_cons_self _ _)), hstored, h.confirmed, ?_⟩
    exact .replay hle (by rwa [Multiset.erase_cons_head] at hrest)
      fun a ha hs => hold a ha (seen_of_visit_false hs)
  | resume hknown =>
    exact ⟨rfl, hstored, h.confirmed, .resume fun a ha hs => hknown a ha (seen_of_visit_false hs)⟩

lemma missing (hW : W.Pairwise (·.uid < ·.uid)) (h : Core sha256 W dedupe index records k seen)
    (hm : m ∈ W) (hout : m ∉ W.take k) (hready : ∀ a ∈ W, a.uid < m.uid → seen a.uid) :
    (claimIndex index (finger sha256 m)).1 = false ∧ W.take (k + 1) = W.take k ++ [m] ∧
      Core sha256 W dedupe (claimIndex index (finger sha256 m)).2 records (k + 1)
        (visit seen m.uid) := by
  have hnext : W.take (k + 1) = W.take k ++ [m] :=
    take_succ_of_next hW hm hout fun a ha hlt => h.seen_stored a ha (hready a ha hlt)
  have hmore : ∀ a ∈ W.take k, a ∈ W.take (k + 1) := fun a ha => hnext ▸ mem_append_left _ ha
  have hm' : m ∈ W.take (k + 1) := hnext ▸ mem_append_right _ (mem_singleton_self m)
  have hstored := seen_stored_visit hW (fun a ha hs => hmore a (h.seen_stored a ha hs)) hm'
  have hconfirmed : ∀ r ∈ records, ∃ a ∈ W.take (k + 1), r = mark sha256 a := fun r hr => by
    obtain ⟨a, ha, rfl⟩ := h.confirmed r hr
    exact ⟨a, hmore a ha, rfl⟩
  -- Among the first `k + 1` only the message itself is new, and it is seen now.
  have hold : ∀ a ∈ W.take (k + 1), visit seen m.uid a.uid = false → a ∈ W.take k := by
    intro a ha hs
    rw [hnext] at ha
    rcases mem_append.1 ha with ha | ha
    · exact ha
    · rw [mem_singleton.1 ha] at hs
      simp [visit] at hs
  cases h.matches_ with
  | @replay table scanned hle hholds hscan =>
    have hall : ∀ a ∈ W.take scanned, seen a.uid := by
      intro a ha
      have hsub : ∀ {b}, b ∈ W.take scanned → b ∈ W.take k :=
        fun hb => (take_sublist_take_left hle).subset hb
      rcases Nat.lt_trichotomy a.uid m.uid with hlt | heq | hgt
      · exact hready a (mem_of_mem_take ha) hlt
      · exact absurd (eq_of_uid_eq hW (mem_of_mem_take ha) hm heq ▸ hsub ha) hout
      · exact absurd (hsub (mem_take_of_uid_lt hW hm ha hgt)) hout
    obtain ⟨hfound, hrest⟩ := hholds.claimHash (finger sha256 m)
    rw [unseen_eq_zero hall] at hfound hrest
    have hzero : unseen sha256 W scanned (visit seen m.uid) = 0 :=
      unseen_eq_zero fun a ha => by simp [visit, hall a ha]
    refine ⟨hfound.trans (decide_eq_false (Multiset.notMem_zero _)), hnext, hstored, hconfirmed, ?_⟩
    refine .replay (Nat.le_succ_of_le hle) (by rw [hzero]; exact hrest) fun a ha hs => ?_
    exact hscan a (hold a ha hs) (seen_of_visit_false hs)
  | resume hknown =>
    exact ⟨rfl, hnext, hstored, hconfirmed,
      .resume fun a ha hs => hknown a (hold a ha hs) (seen_of_visit_false hs)⟩

lemma confirm {added : List Record} (h : Core sha256 W dedupe index records k seen)
    (hadded : ∀ r ∈ added, ∃ m ∈ W.take k, r = mark sha256 m) :
    Core sha256 W dedupe index (records ++ added) k seen := by
  refine ⟨h.seen_stored, fun r hr => (mem_append.1 hr).elim (h.confirmed r) (hadded r), ?_⟩
  cases h.matches_ with
  | replay hle hholds hold => exact .replay hle hholds hold
  | resume hknown => exact .resume fun a ha hs => mem_append_left _ (hknown a ha hs)

end Core

end Epistle.Migrate
