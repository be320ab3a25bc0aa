import Epistle.Evidence.Inclusion
import Epistle.Evidence.Record

/-!
# What an inclusion proof proves

How far the verifier climbs and on which side it hashes depend on the index and the size alone, so
two proofs for one place that it accepts under one root have hashed pairs in the same order. Read
from the root down, they are the same pairs, unless two different ones have the same hash.

A hash of 32 octets is not injective on pairs of 32 octets. What is assumed is that no pair of the
verifier collides with one on the path of the leaf in the tree.

* `verifyInclusion_sound`: what is accepted is the leaf, with the proof of its path.
-/

namespace Epistle.Evidence

open Lib Lib.Fallible Lib.SplitTree List

section

variable (sha256 : List UInt8 → Digest)

def climbPairs (s : Climb) : List Digest → List (Digest × Digest)
  | [] => []
  | sibling :: proof =>
      (if s.fn % 2 = 1 ∨ s.fn = s.sn then (sibling, s.hash) else (s.hash, sibling)) ::
        match climbStep sha256 s sibling with
        | none => []
        | some s' => climbPairs s' proof

def CollisionFree (pairs pairs' : List (Digest × Digest)) : Prop :=
  ∀ a ∈ pairs, ∀ b ∈ pairs', nodeHash sha256 a.1 a.2 = nodeHash sha256 b.1 b.2 → a = b

end

variable {sha256 : List UInt8 → Digest} {leaf : ℕ → Digest}

lemma CollisionFree.tail {a b : Digest × Digest} {pairs pairs' : List (Digest × Digest)}
    (h : CollisionFree sha256 (a :: pairs) (b :: pairs')) : CollisionFree sha256 pairs pairs' :=
  fun x hx y hy => h x (mem_cons_of_mem _ hx) y (mem_cons_of_mem _ hy)

lemma climbStep_eq_some {fn sn : ℕ} {hash sibling : Digest} {s : Climb}
    (h : climbStep sha256 ⟨fn, sn, hash⟩ sibling = some s) :
    sn ≠ 0 ∧ ∃ fn' sn', (∀ hash sibling, climbStep sha256 ⟨fn, sn, hash⟩ sibling = some ⟨fn', sn',
        if fn % 2 = 1 ∨ fn = sn then nodeHash sha256 sibling hash
        else nodeHash sha256 hash sibling⟩) := by
  have hsn : sn ≠ 0 := by
    rintro rfl
    simp [climbStep] at h
  refine ⟨hsn, ?_⟩
  by_cases hside : fn % 2 = 1 ∨ fn = sn
  · refine ⟨(shiftEven fn fn sn).1 / 2, (shiftEven fn fn sn).2 / 2, fun hash sibling => ?_⟩
    rw [climbStep, if_neg hsn, if_pos hside, if_pos hside]
  · refine ⟨fn / 2, sn / 2, fun hash sibling => ?_⟩
    rw [climbStep, if_neg hsn, if_neg hside, if_neg hside]

lemma climb_unique {fn sn : ℕ} {x y : Digest} {p q : List Digest} {s t : Climb}
    (hp : p.foldlM (climbStep sha256) ⟨fn, sn, x⟩ = some s)
    (hq : q.foldlM (climbStep sha256) ⟨fn, sn, y⟩ = some t) (hs : s.sn = 0) (ht : t.sn = 0)
    (hhash : s.hash = t.hash)
    (hfree : CollisionFree sha256 (climbPairs sha256 ⟨fn, sn, x⟩ p)
      (climbPairs sha256 ⟨fn, sn, y⟩ q)) : x = y ∧ p = q := by
  induction p generalizing q fn sn x y with
  | nil =>
    obtain rfl := Option.some.inj hp
    cases q with
    | nil =>
      obtain rfl := Option.some.inj hq
      exact ⟨hhash, rfl⟩
    | cons sibling q =>
      -- At the top there is nothing to climb to.
      obtain ⟨v, hv, -⟩ := foldlM_cons_eq_some hq
      exact absurd hs (climbStep_eq_some hv).1
  | cons a p ih =>
    obtain ⟨v, hv, -⟩ := foldlM_cons_eq_some hp
    obtain ⟨hsn, fn', sn', hstep⟩ := climbStep_eq_some hv
    cases q with
    | nil =>
      obtain rfl := Option.some.inj hq
      exact absurd ht hsn
    | cons b q =>
      rw [foldlM_cons, hstep] at hp hq
      simp only [climbPairs, hstep] at hfree
      have hpair := hfree _ (mem_cons_self ..) _ (mem_cons_self ..)
      obtain ⟨hnode, rfl⟩ := ih hp hq hfree.tail
      by_cases hside : fn % 2 = 1 ∨ fn = sn
      · rw [if_pos hside, if_pos hside] at hnode hpair
        obtain ⟨rfl, rfl⟩ := Prod.mk.inj (hpair hnode)
        exact ⟨rfl, rfl⟩
      · rw [if_neg hside, if_neg hside] at hnode hpair
        obtain ⟨rfl, rfl⟩ := Prod.mk.inj (hpair hnode)
        exact ⟨rfl, rfl⟩

lemma verifyInclusion_eq_true {index size : ℕ} {x root : Digest} {proof : List Digest}
    (h : verifyInclusion sha256 index size x proof root = true) :
    ∃ s, proof.foldlM (climbStep sha256) ⟨index, size - 1, x⟩ = some s ∧ s.sn = 0 ∧
      s.hash = root := by
  unfold verifyInclusion at h
  split_ifs at h
  split at h
  · cases h
  · rename_i s hs
    simp only [Bool.and_eq_true, decide_eq_true_eq] at h
    exact ⟨s, hs, h⟩

open TreeBuilder

lemma finish_root (sha256 : List UInt8 → Digest) {leaves : List Digest} {leaf : ℕ → Digest}
    (hleaf : ∀ i x, leaves[i]? = some x → leaf i = x) (hne : leaves ≠ []) :
    ((leaves.foldl (push sha256) new).finish sha256 []).1 =
      hashRange (nodeHash sha256) leaf 0 leaves.length := by
  have hnew : new.count = 0 := rfl
  obtain ⟨hbuilt, hcount, -⟩ := foldl_push_built leaves (forProofs_built sha256 leaf 0 [])
    (b := new) fun i x hi => by rw [hnew, Nat.zero_add, hleaf i x hi]
  rw [hnew, Nat.zero_add] at hcount
  rw [finish]
  cases hstack : (leaves.foldl (push sha256) new).stack with
  | nil =>
    have hzero := hbuilt.stacked.eq_zero hstack
    exact absurd (length_eq_zero_iff.1 (hcount ▸ hzero)) hne
  | cons top stack =>
    rw [← hcount]
    exact (foldStack_isNode hbuilt hstack).1

/-- Whatever the verifier accepts for a place under the root of a day is the leaf there, and the
proof is the one of its path, unless a pair it hashed collides with one on that path. -/
theorem verifyInclusion_sound (sha256 : List UInt8 → Digest) (leaves : List Digest) {i : ℕ}
    (hi : i < leaves.length) (x : Digest) (proof : List Digest) :
    let n := leaves.length
    let leaf := fun k => leaves.getD k (emptyRoot sha256)
    let path := (pathRanges i n).map (rangeHash sha256 leaf)
    let root := ((leaves.foldl (push sha256) new).finish sha256 []).1
    CollisionFree sha256 (climbPairs sha256 ⟨i, n - 1, x⟩ proof)
      (climbPairs sha256 ⟨i, n - 1, leaves[i]⟩ path) →
    verifyInclusion sha256 i n x proof root = true → x = leaves[i] ∧ proof = path := by
  intro n leaf path root hfree h
  have hleaf : leaf i = leaves[i] := by simp [leaf, List.getD, hi]
  have hroot : root = hashRange (nodeHash sha256) leaf 0 n :=
    finish_root sha256 (fun k y hk => by simp [leaf, List.getD, hk])
      (ne_nil_of_length_pos (Nat.zero_lt_of_lt hi))
  have hpath := @verifyInclusion_path sha256 leaf i n hi
  rw [hleaf, ← hroot] at hpath
  obtain ⟨s, hs, hsn, hhash⟩ := verifyInclusion_eq_true h
  obtain ⟨t, ht, htn, hhash'⟩ := verifyInclusion_eq_true hpath
  exact climb_unique hs ht hsn htn (hhash.trans hhash'.symm) hfree

/-- A hash of one octet, 32 times. -/
def repeated (b : UInt8) : Digest := ⟨List.replicate 32 b, length_replicate⟩

def threeLeafHash : List UInt8 → Digest :=
  let node := "b331da6ec49d4547d9942a6727e5123f69bed5a0b97ac171cfbfd6201431fcfa"
  hashTable [(1 :: ((repeated 1).1 ++ (repeated 2).1), node),
    (1 :: ((ofHex node.toList).getD [] ++ (repeated 3).1),
      "30a02c023aa9f351be86615ceedfd51bc34d9a2a003174b4132ea26e5c2d0417")]

/-- The first of three leaves. -/
theorem verifyInclusion_sound_first_of_three :
    let leaves := [repeated 1, repeated 2, repeated 3]
    let root := ((leaves.foldl (push threeLeafHash) new).finish
      threeLeafHash []).1
    verifyInclusion threeLeafHash 0 3 (repeated 1) [repeated 2, repeated 3] root = true ∧
      repeated 1 = leaves[0] := by
  intro leaves root
  have hverify : verifyInclusion threeLeafHash 0 3 (repeated 1) [repeated 2, repeated 3] root =
      true := by
    decide +kernel
  refine ⟨hverify, (verifyInclusion_sound threeLeafHash leaves (by decide) _ _ ?_ hverify).1⟩
  have hpath : (pathRanges 0 3).map (rangeHash threeLeafHash fun k => leaves.getD k
      (emptyRoot threeLeafHash)) = [repeated 2, repeated 3] := by
    have hranges : pathRanges 0 3 = [(1, 2), (2, 3)] := by decide
    rw [hranges]
    simp only [map_cons, map_nil, rangeHash, Nat.reduceSub, hashRange_one]
    rfl
  unfold CollisionFree
  simp only [leaves, length_cons, length_nil] at hpath ⊢
  rw [hpath]
  decide +kernel

end Epistle.Evidence
