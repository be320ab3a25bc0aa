import Epistle.Lib.Chain
import Epistle.Lib.Octets
import Mathlib.Data.Multiset.AddSub
import Mathlib.Tactic.Linarith

/-!
# Recognising a message that is already stored

The identity of a message (`migrate/imap/dedupe`) and the disposable table of the identities in a
local mailbox (`dedupe/disk`): bucket heads and linked records in one scratch file, at the offsets
the code uses. The hash function is a parameter; nothing is asked of it.
-/

namespace Epistle.Migrate

open Lib Lib.Octets List Function

/-! ## Identities -/

/-- How much of a message is searched for its id. -/
def headerScanBytes : ℕ := 256 * 1024

/-- A line without its carriage return. -/
def stripCr (line : List UInt8) : List UInt8 :=
  if line.getLast? = some 13 then line.dropLast else line

/-- Whether a line continues a field. -/
def isContinuation (line : List UInt8) : Bool := line.head? = some 32 || line.head? = some 9

def messageIdName : List UInt8 := [109, 101, 115, 115, 97, 103, 101, 45, 105, 100]

def messageIdLines : List (List UInt8) → Option (List UInt8)
  | [] => none
  | line :: lines =>
      let line := stripCr line
      if line = [] then none
      else match line.findIdx? (· = 58) with
        | none => messageIdLines lines
        | some colon =>
            if eqIgnoreCase (line.take colon) messageIdName then
              let value := line.drop (colon + 1) ++
                (lines.takeWhile isContinuation).flatMap stripCr
              let trimmed := trimAscii value
              if trimmed = [] then none else some trimmed
            else messageIdLines lines

/-- The id of a message, from its header. -/
def messageId (message : List UInt8) : Option (List UInt8) :=
  messageIdLines ((message.take headerScanBytes).splitOn 10)

/-- The identity of a message for deduplication. -/
inductive Key
  | messageId (id : List UInt8) (size : ℕ)
  | digest (digest : Digest) (size : ℕ)

section

variable (sha256 : List UInt8 → Digest)

/-- What tells two messages apart: their id and size, or else their octets. -/
def key (message : List UInt8) : Key :=
  match messageId message with
  | some id => .messageId id message.length
  | none => .digest (sha256 message) message.length

/-- The octets of a key. -/
def Key.octets : Key → List UInt8
  | .messageId id size => [105, 100] ++ id ++ leBytes 8 size
  | .digest d size => [100, 105, 103, 101, 115, 116] ++ d.1 ++ leBytes 8 size

/-- The digest of a key. -/
def fingerprint (key : Key) : Digest := sha256 key.octets

end

/-! ## The table -/

/-- Bucket heads and linked records in one scratch file: a pointer, or a hash, at an offset. -/
structure Table where
  pointer : ℕ → ℕ
  hash : ℕ → Option Digest
  buckets : ℕ
  entries : ℕ

namespace Table

/-- A table for some entries. -/
def new (entries : ℕ) : Table := ⟨fun _ => 0, fun _ => none, max 1 (entries * 2).nextPowerOfTwo, 0⟩

/-- The place of the bucket of a hash. -/
def bucket (t : Table) (hash : Digest) : ℕ := (ofLe (hash.1.take 8) &&& (t.buckets - 1)) * 8

/-- The place of an entry. -/
def offset (t : Table) (entry : ℕ) : ℕ := t.buckets * 8 + (entry - 1) * 40

/-- The place of an entry's link to the next. -/
def cell (t : Table) (entry : ℕ) : ℕ := t.offset entry + 32

/-- Add a hash in front of its chain. -/
def add (t : Table) (hash : Digest) : Table :=
  let bucket := t.bucket hash
  let entry := t.entries + 1
  { t with
    hash := update t.hash (t.offset entry) (some hash)
    pointer := update (update t.pointer (t.cell entry) (t.pointer bucket)) bucket
      entry
    entries := entry }

/-- Follow a chain, and take the first entry with a hash out of it. -/
def claimFrom (t : Table) (hash : Digest) : ℕ → ℕ → Bool × Table
  | 0, _ => (false, t)
  | fuel + 1, link =>
      let entry := t.pointer link
      if entry = 0 then (false, t)
      else if t.hash (t.offset entry) = some hash then
        (true, { t with pointer := update t.pointer link (t.pointer (t.cell entry)) })
      else t.claimFrom hash fuel (t.cell entry)

/-- Take an entry with a hash out of the table. -/
def claimHash (t : Table) (hash : Digest) : Bool × Table :=
  t.claimFrom hash (t.entries + 1) (t.bucket hash)

/-! ### The table as a multiset -/

def hashes (t : Table) (es : List ℕ) : List Digest := es.filterMap fun e => t.hash (t.offset e)

structure Chained (t : Table) (chain : ℕ → List ℕ) (M : Multiset Digest) : Prop where
  pos : 0 < t.buckets
  isChain : ∀ h, IsChain t.pointer t.cell (t.bucket h) (chain (t.bucket h))
  range : ∀ a, ∀ e ∈ chain a, e ≠ 0 ∧ e ≤ t.entries
  nodup : ∀ a, (chain a).Nodup
  hash : ∀ a, ∀ e ∈ chain a, ∃ h, t.hash (t.offset e) = some h ∧ t.bucket h = a
  count : ∀ h, M.count h = (t.hashes (chain (t.bucket h))).count h

/-- A table has these hashes. -/
def Holds (t : Table) (M : Multiset Digest) : Prop := ∃ chain, t.Chained chain M

variable {t : Table}

lemma bucket_lt (h : 0 < t.buckets) (hash : Digest) : t.bucket hash < t.buckets * 8 := by
  have hand : ofLe (hash.1.take 8) &&& (t.buckets - 1) ≤ t.buckets - 1 := Nat.and_le_right
  unfold bucket
  omega

lemma bucket_ne_cell (h : 0 < t.buckets) (hash : Digest) (e : ℕ) : t.cell e ≠ t.bucket hash := by
  have := bucket_lt h hash
  unfold cell offset
  omega

lemma offset_injective {d e : ℕ} (hd : d ≠ 0) (he : e ≠ 0) (h : t.offset d = t.offset e) :
    d = e := by
  unfold offset at h
  omega

lemma cell_injective {d e : ℕ} (hd : d ≠ 0) (he : e ≠ 0) (h : t.cell d = t.cell e) : d = e :=
  offset_injective hd he (Nat.add_right_cancel h)

lemma holds_new (entries : ℕ) : (new entries).Holds 0 :=
  ⟨fun _ => [], by simp [new], fun _ => rfl, by simp, by simp, by simp, by simp [hashes]⟩

lemma Holds.add {M : Multiset Digest} (ht : t.Holds M) (hash : Digest) :
    (t.add hash).Holds (hash ::ₘ M) := by
  obtain ⟨chain, hc⟩ := ht
  have hnew : t.entries + 1 ≠ 0 := Nat.succ_ne_zero _
  -- No record is at the place of the new one.
  have hold : ∀ a, ∀ e ∈ chain a, t.offset e ≠ t.offset (t.entries + 1) := fun a e he h => by
    obtain ⟨hne, hle⟩ := hc.range a e he
    exact absurd (offset_injective hne hnew h) (by omega)
  have hhash : ∀ a, ∀ e ∈ chain a, (t.add hash).hash (t.offset e) = t.hash (t.offset e) :=
    fun a e he => update_of_ne (hold a e he) _ _
  have hself : (t.add hash).hash (t.offset (t.entries + 1)) = some hash :=
    update_self ..
  set b := t.bucket hash with hb
  refine ⟨update chain b ((t.entries + 1) :: chain b), hc.pos, fun h => ?_, fun a e he => ?_,
    fun a => ?_, fun a e he => ?_, fun h => ?_⟩
  · -- The bucket's chain gets longer; the others are not written to.
    change IsChain _ t.cell (t.bucket h) (update chain b _ (t.bucket h))
    by_cases hbucket : t.bucket h = b
    · rw [hbucket, update_self]
      refine IsChain.push (hb ▸ hc.isChain hash) hnew (bucket_ne_cell hc.pos _ _) fun x hx => ?_
      exact ⟨bucket_ne_cell hc.pos _ _, fun h => hold b x hx (Nat.add_right_cancel h)⟩
    · rw [update_of_ne hbucket]
      refine ((hc.isChain h).update_of_ne (bucket_ne_cell hc.pos h _).symm fun x hx =>
        ?_).update_of_ne
        hbucket fun x _ => bucket_ne_cell hc.pos _ _
      exact fun h' => hold _ x hx (Nat.add_right_cancel h')
  · change e ≠ 0 ∧ e ≤ t.entries + 1
    by_cases ha : a = b
    · rw [ha, update_self] at he
      rcases mem_cons.1 he with rfl | he
      · exact ⟨hnew, Nat.le_refl _⟩
      · exact ⟨(hc.range b e he).1, Nat.le_succ_of_le (hc.range b e he).2⟩
    · rw [update_of_ne ha] at he
      exact ⟨(hc.range a e he).1, Nat.le_succ_of_le (hc.range a e he).2⟩
  · by_cases ha : a = b
    · rw [ha, update_self]
      exact (hc.nodup b).cons fun hin => absurd (hc.range b _ hin).2 (by omega)
    · rw [update_of_ne ha]
      exact hc.nodup a
  · change ∃ h, (t.add hash).hash (t.offset e) = some h ∧ t.bucket h = a
    by_cases ha : a = b
    · rw [ha, update_self] at he
      rcases mem_cons.1 he with rfl | he
      · exact ⟨hash, hself, ha.symm⟩
      · rw [hhash b e he, ha]
        exact hc.hash b e he
    · rw [update_of_ne ha] at he
      rw [hhash a e he]
      exact hc.hash a e he
  · change _ = ((t.add hash).hashes (update chain b _ (t.bucket h))).count h
    have hkeep : ∀ a, (t.add hash).hashes (chain a) = t.hashes (chain a) := fun a =>
      filterMap_congr (hhash a)
    by_cases hbucket : t.bucket h = b
    · have hcons : (t.add hash).hashes ((t.entries + 1) :: chain b) = hash ::
        t.hashes (chain b) := by
        rw [← hkeep b]
        exact filterMap_cons_some hself
      rw [hbucket, update_self, hcons, count_cons, Multiset.count_cons, hc.count,
        hbucket]
      by_cases heq : h = hash
      · simp [heq]
      · simp [heq, Ne.symm heq]
    · rw [update_of_ne hbucket, hkeep, ← hc.count, Multiset.count_cons_of_ne]
      rintro rfl
      exact hbucket rfl

lemma claimFrom_spec {hash : Digest} {fuel link : ℕ} {es : List ℕ}
    (hchain : IsChain t.pointer t.cell link es) (hfuel : es.length < fuel) (hne : ∀ e ∈ es, e ≠ 0)
    (hnodup : es.Nodup) (hlink : ∀ e ∈ es, t.cell e ≠ link) :
    ∃ pointer, t.claimFrom hash fuel link =
        (es.any fun e => t.hash (t.offset e) = some hash, { t with pointer := pointer }) ∧
      IsChain pointer t.cell link (es.eraseP fun e => t.hash (t.offset e) = some hash) ∧
      ∀ a, a ≠ link → (∀ e ∈ es, t.cell e ≠ a) → pointer a = t.pointer a := by
  induction es generalizing fuel link with
  | nil =>
    obtain ⟨fuel, rfl⟩ := Nat.exists_eq_succ_of_ne_zero (Nat.ne_zero_of_lt hfuel)
    exact ⟨t.pointer, by simp [claimFrom, show t.pointer link = 0 from hchain], hchain,
      fun a _ _ => rfl⟩
  | cons e es ih =>
    obtain ⟨fuel, rfl⟩ := Nat.exists_eq_succ_of_ne_zero (Nat.ne_zero_of_lt hfuel)
    obtain ⟨hptr, he, hrest⟩ := id hchain
    obtain ⟨hcell, hcells⟩ := forall_mem_cons.1 hlink
    obtain ⟨hnotin, hnodup⟩ := nodup_cons.1 hnodup
    rw [claimFrom]
    simp only [hptr, he, if_false]
    by_cases hhit : t.hash (t.offset e) = some hash
    · refine ⟨update t.pointer link (t.pointer (t.cell e)), by simp [hhit], ?_, ?_⟩
      · rw [eraseP_cons_of_pos (by simpa using hhit)]
        exact hchain.unlink hcells
      · exact fun a ha _ => update_of_ne ha _ _
    · obtain ⟨pointer, heq, hchain', hframe⟩ := ih hrest (Nat.lt_of_succ_lt_succ hfuel)
        (fun x hx => hne x (mem_cons_of_mem _ hx)) hnodup fun x hx h =>
          hnotin (cell_injective (hne x (mem_cons_of_mem _ hx)) he h ▸ hx)
      refine ⟨pointer, by simp [hhit, heq], ?_, fun a ha hout => ?_⟩
      · -- The pointer to the record is not among the links behind it.
        rw [eraseP_cons_of_neg (by simpa using hhit)]
        exact ⟨(hframe link hcell.symm hcells).trans hptr, he, hchain'⟩
      · exact hframe a (hout e (mem_cons_self ..)).symm fun x hx =>
          hout x (mem_cons_of_mem _ hx)

lemma hashes_eraseP (t : Table) (hash : Digest) (es : List ℕ) :
    t.hashes (es.eraseP fun e => t.hash (t.offset e) = some hash) = (t.hashes es).erase hash := by
  induction es with
  | nil => rfl
  | cons e es ih =>
    cases hh : t.hash (t.offset e) with
    | none => simpa [hashes, hh] using ih
    | some h =>
      by_cases heq : h = hash
      · simp [hashes, hh, heq]
      · simpa [hashes, hh, heq, erase_cons] using ih

lemma Holds.claimHash {M : Multiset Digest} (ht : t.Holds M) (hash : Digest) :
    (t.claimHash hash).1 = decide (hash ∈ M) ∧ (t.claimHash hash).2.Holds (M.erase hash) := by
  obtain ⟨chain, hc⟩ := ht
  set b := t.bucket hash with hb
  have hlen : (chain b).length < t.entries + 1 := by
    have hsub : (chain b).Subperm ((List.range t.entries).map (· + 1)) := by
      refine subperm_of_subset (hc.nodup b) fun e he => ?_
      obtain ⟨hne, hle⟩ := hc.range b e he
      exact List.mem_map.2 ⟨e - 1, by simp; omega, by omega⟩
    simpa [Nat.lt_succ_iff] using hsub.length_le
  obtain ⟨pointer, heq, hchain, hframe⟩ := claimFrom_spec (hb ▸ hc.isChain hash) hlen
    (fun e he => (hc.range b e he).1) (hc.nodup b) fun e _ => bucket_ne_cell hc.pos hash e
  have heq : t.claimHash hash = _ := heq
  rw [heq]
  refine ⟨?_, ?_⟩
  · rw [Bool.eq_iff_iff, decide_eq_true_eq, ← Multiset.count_pos, hc.count, count_pos_iff]
    simp [hashes, hb]
  have hsub : ∀ a, ∀ e ∈ update chain b
      ((chain b).eraseP fun e => t.hash (t.offset e) = some hash) a, e ∈ chain a := by
    intro a e he
    by_cases ha : a = b
    · subst ha
      rw [update_self] at he
      exact mem_of_mem_eraseP he
    · rwa [update_of_ne ha] at he
  refine ⟨_, hc.pos, fun h => ?_, fun a e he => hc.range a e (hsub a e he), fun a => ?_,
    fun a e he => hc.hash a e (hsub a e he), fun h => ?_⟩
  · change IsChain pointer t.cell (t.bucket h) (update chain b _ (t.bucket h))
    by_cases hbucket : t.bucket h = b
    · rw [hbucket, update_self]
      exact hchain
    · -- Another bucket's records are not this one's.
      rw [update_of_ne hbucket]
      refine (hc.isChain h).congr (hframe _ hbucket fun e _ => bucket_ne_cell hc.pos _ _) ?_
      intro e he
      refine hframe _ (bucket_ne_cell hc.pos _ _) fun x hx hcell => ?_
      obtain rfl := cell_injective (hc.range _ x hx).1 (hc.range _ e he).1 hcell
      obtain ⟨h₁, hh₁, hb₁⟩ := hc.hash _ x hx
      obtain ⟨h₂, hh₂, hb₂⟩ := hc.hash _ x he
      exact hbucket (hb₂ ▸ hb₁ ▸ congrArg t.bucket (Option.some.inj (hh₂.symm.trans hh₁)))
  · by_cases ha : a = b
    · rw [ha, update_self]
      exact (hc.nodup b).sublist eraseP_sublist
    · rw [update_of_ne ha]
      exact hc.nodup a
  · change _ = (t.hashes (update chain b _ (t.bucket h))).count h
    by_cases hbucket : t.bucket h = b
    · rw [hbucket, update_self, hashes_eraseP]
      by_cases heq : h = hash
      · subst heq
        rw [Multiset.count_erase_self, hc.count, count_erase_self]
      · rw [Multiset.count_erase_of_ne heq, hc.count, count_erase_of_ne heq, hbucket]
    · rw [update_of_ne hbucket, ← hc.count, Multiset.count_erase_of_ne]
      rintro rfl
      exact hbucket rfl

end Table

end Epistle.Migrate
