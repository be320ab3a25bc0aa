import Epistle.Lib.Octets
import Epistle.Lib.SplitTree

/-!
# The Merkle tree over a day of records

The root of a day is computed while its leaves are read, with one complete subtree per level on a
stack (`evidence/merkle`). A builder for proofs also keeps the hashes of the ranges that the paths
of its targets need, as they are formed; the verifier walks the bits of an index and of the last
index.
-/

namespace Epistle.Evidence

open Lib Lib.SplitTree

section Hashes

variable (sha256 : List UInt8 → Digest)

/-- The root of a tree without leaves. -/
def emptyRoot : Digest := sha256 []

/-- The hash of a leaf. -/
def leafHash (recordHash : Digest) : Digest := sha256 (0 :: recordHash.1)

/-- The hash of a node. -/
def nodeHash (left right : Digest) : Digest := sha256 (1 :: (left.1 ++ right.1))

end Hashes

/-! ## Paths -/

/-- Where a tree is split. -/
def largestPowerOfTwoBelow (n : ℕ) : ℕ := 1 <<< Nat.log2 (n - 1)

def pathRangesFrom (index : ℕ) : ℕ → ℕ → ℕ → List (ℕ × ℕ)
  | 0, _, _ => []
  | fuel + 1, low, high =>
      if high - low > 1 then
        let split := largestPowerOfTwoBelow (high - low)
        if index < low + split then (low + split, high) :: pathRangesFrom index fuel low
          (low + split)
        else (low, low + split) :: pathRangesFrom index fuel (low + split) high
      else []

/-- The ranges whose hashes are the path of a leaf. -/
def pathRanges (index size : ℕ) : List (ℕ × ℕ) := (pathRangesFrom index size 0 size).reverse

/-! ## The builder -/

/-- A complete subtree, with the leaves it is over. -/
structure Subtree where
  start : ℕ
  size : ℕ
  hash : Digest
  deriving DecidableEq

/-- The leaves of a subtree. -/
def Subtree.range (t : Subtree) : ℕ × ℕ := (t.start, t.start + t.size)

/-- A tree that is fed its leaves one by one. -/
structure TreeBuilder where
  stack : List Subtree
  count : ℕ
  wanted : List (ℕ × ℕ)
  found : ℕ × ℕ → Option Digest

namespace TreeBuilder

def new : TreeBuilder where
  stack := []
  count := 0
  wanted := []
  found := fun _ => none

def forProofs (size : ℕ) (targets : List ℕ) : TreeBuilder where
  stack := []
  count := 0
  wanted := (targets.filter (· < size)).flatMap (pathRanges · size)
  found := fun _ => none

/-- Keep the hash of a subtree, if a target needs it. -/
def keep (b : TreeBuilder) (t : Subtree) : TreeBuilder :=
  if t.range ∈ b.wanted then { b with found := Function.update b.found t.range (some t.hash) }
  else b

variable (sha256 : List UInt8 → Digest)

/-- Join the subtrees of one size on top of the stack. -/
def merge : List Subtree → Subtree → TreeBuilder → TreeBuilder
  | [], subtree, b => { b with stack := [subtree] }
  | left :: stack, subtree, b =>
      if left.size = subtree.size then
        let subtree := ⟨left.start, left.size * 2, nodeHash sha256 left.hash subtree.hash⟩
        merge stack subtree (b.keep subtree)
      else { b with stack := subtree :: left :: stack }

/-- Add a leaf. -/
def push (b : TreeBuilder) (leaf : Digest) : TreeBuilder :=
  let subtree : Subtree := ⟨b.count, 1, leaf⟩
  merge sha256 b.stack subtree { b.keep subtree with count := b.count + 1 }

/-- Join what is left on the stack. -/
def foldStack («end» : ℕ) : List Subtree → Subtree → TreeBuilder → Subtree × TreeBuilder
  | [], acc, b => (acc, b)
  | left :: stack, acc, b =>
      let acc := ⟨left.start, «end» - left.start, nodeHash sha256 left.hash acc.hash⟩
      foldStack «end» stack acc (b.keep acc)

/-- The root, and the path of each target. -/
def finish (b : TreeBuilder) (targets : List ℕ) : Digest × (ℕ → Option (List Digest)) :=
  match b.stack with
  | [] => (emptyRoot sha256, fun _ => none)
  | acc :: stack =>
      let (acc, b) := foldStack sha256 b.count stack acc b
      (acc.hash, (targets.filter (· < b.count)).foldl (fun proofs target =>
        Function.update proofs target (some ((pathRanges target b.count).filterMap b.found)))
        fun _ => none)

end TreeBuilder

/-! ## The verifier -/

/-- Where the verifier is: the index and the last index, shifted, and the hash so far. -/
structure Climb where
  fn : ℕ
  sn : ℕ
  hash : Digest
  deriving DecidableEq

def shiftEven : ℕ → ℕ → ℕ → ℕ × ℕ
  | 0, fn, sn => (fn, sn)
  | fuel + 1, fn, sn => if fn % 2 = 0 ∧ fn ≠ 0 then shiftEven fuel (fn / 2) (sn / 2) else (fn, sn)

section Verifier

variable (sha256 : List UInt8 → Digest)

/-- One hash of a proof. -/
def climbStep (s : Climb) (sibling : Digest) : Option Climb :=
  if s.sn = 0 then none
  else if s.fn % 2 = 1 ∨ s.fn = s.sn then
    let (fn, sn) := shiftEven s.fn s.fn s.sn
    some ⟨fn / 2, sn / 2, nodeHash sha256 sibling s.hash⟩
  else some ⟨s.fn / 2, s.sn / 2, nodeHash sha256 s.hash sibling⟩

/-- Whether a path leads from a leaf to a root. -/
def verifyInclusion (index size : ℕ) (leaf : Digest) (proof : List Digest) (root : Digest) : Bool :=
  if index ≥ size then false
  else
    match proof.foldlM (climbStep sha256) ⟨index, size - 1, leaf⟩ with
    | none => false
    | some s => s.sn = 0 && s.hash = root

end Verifier

end Epistle.Evidence
