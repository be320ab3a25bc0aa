import Epistle.Evidence.Merkle

/-!
# Every inclusion proof is whole, and verifies

Three descriptions of one path agree for every number of leaves: the ranges the builder forms, while
it pushes and when it folds what is left on its stack; the ranges a proof lists from the top down;
and the walk of the verifier over the bits of the index.

* `proofs_verify`: the proofs are whole and verify;
* `root_is_merkleTreeHash`: the root is the one RFC 6962 defines.
-/

namespace Epistle.Evidence

open Lib Lib.SplitTree List

lemma largestPowerOfTwoBelow_eq (n : ℕ) : largestPowerOfTwoBelow n = splitSize n := by
  rw [largestPowerOfTwoBelow, splitSize, Nat.shiftLeft_eq, one_mul]

section

variable (sha256 : List UInt8 → Digest) (leaf : ℕ → Digest)

def rangeHash (r : ℕ × ℕ) : Digest := hashRange (nodeHash sha256) leaf r.1 (r.2 - r.1)

def Subtree.Right (t : Subtree) : Prop := t.hash = rangeHash sha256 leaf t.range

/-- A stack over the leaves below an end: blocks, the smallest on top. -/
inductive Stacked : ℕ → List Subtree → Prop
  | nil : Stacked 0 []
  | cons {t : Subtree} {stack : List Subtree} (j : ℕ) (size : t.size = 2 ^ j)
      (dvd : 2 ^ (j + 1) ∣ t.start) (right : t.Right sha256 leaf) (rest : Stacked t.start stack) :
      Stacked (t.start + t.size) (t :: stack)

def Kept (b : TreeBuilder) (r : ℕ × ℕ) : Prop :=
  r ∈ b.wanted → b.found r = some (rangeHash sha256 leaf r)

structure Built (b : TreeBuilder) : Prop where
  stacked : Stacked sha256 leaf b.count b.stack
  kept : ∀ j low, 2 ^ j ∣ low → low + 2 ^ j ≤ b.count → Kept sha256 leaf b (low, low + 2 ^ j)

end

variable {sha256 : List UInt8 → Digest} {leaf : ℕ → Digest}

/-! ## Pushing -/

namespace TreeBuilder

@[simp] lemma keep_wanted (b : TreeBuilder) (t : Subtree) : (b.keep t).wanted = b.wanted := by
  rw [keep]
  split_ifs <;> rfl

@[simp] lemma keep_count (b : TreeBuilder) (t : Subtree) : (b.keep t).count = b.count := by
  rw [keep]
  split_ifs <;> rfl

lemma keep_self {b : TreeBuilder} {t : Subtree} (h : t.Right sha256 leaf) :
    Kept sha256 leaf (b.keep t) t.range := by
  intro hwanted
  rw [keep_wanted] at hwanted
  rw [keep, if_pos hwanted]
  exact (Function.update_self ..).trans (congrArg some h)

lemma keep_of_kept {b : TreeBuilder} {t : Subtree} (h : t.Right sha256 leaf) {r : ℕ × ℕ}
    (hr : Kept sha256 leaf b r) : Kept sha256 leaf (b.keep t) r := by
  by_cases heq : r = t.range
  · exact heq ▸ keep_self h
  · intro hwanted
    rw [keep_wanted] at hwanted
    rw [keep]
    split_ifs
    · exact (Function.update_of_ne heq ..).trans (hr hwanted)
    · exact hr hwanted

end TreeBuilder

variable {t : Subtree} {j n low high fuel m : ℕ} {stack : List Subtree} {b : TreeBuilder}

lemma Subtree.right_iff : t.Right sha256 leaf ↔
    t.hash = hashRange (nodeHash sha256) leaf t.start t.size := by
  rw [Subtree.Right, rangeHash, Subtree.range, Nat.add_sub_cancel_left]

lemma Subtree.Right.join {left : Subtree} (hl : left.Right sha256 leaf)
    (ht : t.Right sha256 leaf) (hls : left.size = 2 ^ j) (hts : t.size = 2 ^ j)
    (hstart : t.start = left.start + left.size) :
    Subtree.Right sha256 leaf ⟨left.start, left.size * 2, nodeHash sha256 left.hash t.hash⟩ := by
  rw [Subtree.right_iff] at hl ht ⊢
  dsimp only
  rw [hl, ht, hts, hstart, hls, Nat.mul_two]
  exact (hashRange_join (Nat.two_pow_pos j) (le_refl _)).symm

lemma not_dvd_end {start i : ℕ} (hdvd : 2 ^ (j + 1) ∣ start) (h : 2 ^ i ∣ start + 2 ^ j) :
    i ≤ j := by
  by_contra hlt
  have hsum : 2 ^ (j + 1) ∣ start + 2 ^ j := (Nat.pow_dvd_pow 2 (Nat.not_le.1 hlt)).trans h
  have hpow : 2 ^ (j + 1) ∣ 2 ^ j := (Nat.dvd_add_right hdvd).1 hsum
  exact absurd ((Nat.pow_dvd_pow_iff_le_right Nat.one_lt_two).1 hpow) (Nat.not_succ_le_self j)

lemma Stacked.eq_zero (h : Stacked sha256 leaf n stack) (hnil : stack = []) : n = 0 := by
  cases h with
  | nil => rfl
  | cons => exact absurd hnil (cons_ne_nil _ _)

lemma Stacked.top (h : Stacked sha256 leaf n (t :: stack)) :
    ∃ j, t.size = 2 ^ j ∧ 2 ^ (j + 1) ∣ t.start ∧
      t.Right sha256 leaf ∧ Stacked sha256 leaf t.start stack ∧ n = t.start + t.size := by
  cases h with
  | cons j hsize hdvd hright hrest => exact ⟨j, hsize, hdvd, hright, hrest, rfl⟩

lemma Stacked.dvd_succ (h : Stacked sha256 leaf n stack) (hdvd : 2 ^ j ∣ n)
    (hne : ∀ t ∈ stack.head?, t.size ≠ 2 ^ j) : 2 ^ (j + 1) ∣ n := by
  cases h with
  | nil => exact Nat.dvd_zero _
  | @cons t stack i hsize hi _ _ =>
    have hne := hne t rfl
    rw [hsize] at hdvd hne ⊢
    have hle : j ≤ i := not_dvd_end hi hdvd
    have hlt : j < i := lt_of_le_of_ne hle fun heq => hne (heq ▸ rfl)
    have hpow : 2 ^ (j + 1) ∣ 2 ^ i := Nat.pow_dvd_pow 2 hlt
    exact Nat.dvd_add ((hpow.trans (Nat.pow_dvd_pow 2 (Nat.le_succ i))).trans hi) hpow

lemma Built.of_stack (hstack : Stacked sha256 leaf t.start stack) (hsize : t.size = 2 ^ j)
    (hdvd : 2 ^ (j + 1) ∣ t.start) (hright : t.Right sha256 leaf)
    (hcount : b.count = t.start + t.size)
    (hkept : ∀ i low, 2 ^ i ∣ low → low + 2 ^ i < b.count → Kept sha256 leaf b (low, low + 2 ^ i))
    (hlast : ∀ i ≤ j, ∀ low, low + 2 ^ i = b.count → Kept sha256 leaf b (low, low + 2 ^ i)) :
    Built sha256 leaf { b with stack := t :: stack } := by
  refine ⟨?_, fun i low hi hle => ?_⟩
  · rw [hcount]
    exact .cons j hsize hdvd hright hstack
  · rcases Nat.lt_or_eq_of_le hle with hlt | heq
    · exact hkept i low hi hlt
    · refine hlast i (not_dvd_end hdvd ?_) low heq
      rw [← hsize, ← hcount]
      exact heq ▸ Nat.dvd_add_self_right.2 hi

open TreeBuilder

lemma merge_built (hstack : Stacked sha256 leaf t.start stack) (hsize : t.size = 2 ^ j)
    (hdvd : 2 ^ j ∣ t.start) (hright : t.Right sha256 leaf) (hcount : b.count = t.start + t.size)
    (hkept : ∀ i low, 2 ^ i ∣ low → low + 2 ^ i < b.count → Kept sha256 leaf b (low, low + 2 ^ i))
    (hlast : ∀ i ≤ j, ∀ low, low + 2 ^ i = b.count → Kept sha256 leaf b (low, low + 2 ^ i)) :
    Built sha256 leaf (merge sha256 stack t b) ∧
      (merge sha256 stack t b).count = b.count ∧
      (merge sha256 stack t b).wanted = b.wanted := by
  induction stack generalizing t b j with
  | nil =>
    have hodd := hstack.dvd_succ hdvd (by simp)
    exact ⟨.of_stack hstack hsize hodd hright hcount hkept hlast, rfl, rfl⟩
  | cons left stack ih =>
    rw [TreeBuilder.merge]
    split_ifs with hsame
    · obtain ⟨i, hleft, hodd, hright', hrest, hstart⟩ := hstack.top
      obtain rfl : i = j :=
        Nat.pow_right_injective (le_refl 2) (hleft.symm.trans (hsame.trans hsize))
      have hjoin := hright'.join hright hleft hsize hstart
      have hdouble : left.size * 2 = 2 ^ (i + 1) := by rw [hleft, pow_succ]
      have hcount' : b.count = left.start + left.size * 2 := by
        rw [hcount, hstart, ← hsame, Nat.mul_two, add_assoc]
      set joined : Subtree := ⟨left.start, left.size * 2, nodeHash sha256 left.hash t.hash⟩ with hj
      have hlast' : ∀ i' ≤ i + 1, ∀ low, low + 2 ^ i' = (b.keep joined).count →
          Kept sha256 leaf (b.keep joined) (low, low + 2 ^ i') := by
        intro i' hi' low heq
        rw [keep_count] at heq
        rcases Nat.lt_or_eq_of_le hi' with hlt | rfl
        · exact keep_of_kept hjoin (hlast i' (Nat.le_of_lt_succ hlt) low heq)
        · -- The joined subtree itself.
          obtain rfl : low = left.start := by omega
          rw [← hdouble]
          exact keep_self hjoin
      obtain ⟨hbuilt, hc, hw⟩ := ih (t := joined) (b := b.keep joined) hrest hdouble hodd hjoin
        (by rw [keep_count]; exact hcount')
        (fun i low hi hlt => keep_of_kept hjoin (hkept i low hi (by simpa using hlt)))
        hlast'
      exact ⟨hbuilt, by simpa using hc, by simpa using hw⟩
    · have hodd := hstack.dvd_succ hdvd (by rintro _ ⟨⟩; rwa [← hsize])
      exact ⟨.of_stack hstack hsize hodd hright hcount hkept hlast, rfl, rfl⟩

lemma push_built (h : Built sha256 leaf b) :
    Built sha256 leaf (b.push sha256 (leaf b.count)) ∧
      (b.push sha256 (leaf b.count)).count = b.count + 1 ∧
      (b.push sha256 (leaf b.count)).wanted = b.wanted := by
  have hright : Subtree.Right sha256 leaf ⟨b.count, 1, leaf b.count⟩ :=
    Subtree.right_iff.2 (hashRange_one _).symm
  have hpush := merge_built (j := 0) (b := { b.keep ⟨b.count, 1, leaf b.count⟩ with
    count := b.count + 1 }) h.stacked rfl (Nat.one_dvd _) hright rfl
    (fun i low hi hlt => keep_of_kept hright (h.kept i low hi (Nat.le_of_lt_succ hlt))) ?_
  · obtain ⟨hbuilt, hcount, hwanted⟩ := hpush
    exact ⟨hbuilt, hcount, hwanted.trans (keep_wanted ..)⟩
  · intro i hi low heq
    obtain rfl := Nat.le_zero.1 hi
    obtain rfl : low = b.count := Nat.succ.inj heq
    exact keep_self hright

lemma foldl_push_built (leaves : List Digest) (h : Built sha256 leaf b)
    (hleaves : ∀ i x, leaves[i]? = some x → leaf (b.count + i) = x) :
    Built sha256 leaf (leaves.foldl (push sha256) b) ∧
      (leaves.foldl (push sha256) b).count = b.count + leaves.length ∧
      (leaves.foldl (push sha256) b).wanted = b.wanted := by
  induction leaves generalizing b with
  | nil => exact ⟨h, rfl, rfl⟩
  | cons x leaves ih =>
    obtain rfl : leaf b.count = x := hleaves 0 x rfl
    obtain ⟨hbuilt, hcount, hwanted⟩ := push_built h
    obtain ⟨hbuilt', hcount', hwanted'⟩ := ih hbuilt fun i y hy => by
      rw [hcount, add_assoc, add_comm 1]
      exact hleaves (i + 1) y hy
    refine ⟨hbuilt', ?_, hwanted'.trans hwanted⟩
    rw [foldl_cons, hcount', hcount, length_cons]
    omega

/-! ## Folding -/

lemma Subtree.Right.fold {left acc : Subtree} (hl : left.Right sha256 leaf)
    (hacc : acc.hash = hashRange (nodeHash sha256) leaf acc.start (n - acc.start))
    (hsize : left.size = 2 ^ j) (hstart : acc.start = left.start + left.size)
    (hlt : acc.start < n) (hle : n - acc.start ≤ 2 ^ j) :
    nodeHash sha256 left.hash acc.hash =
      hashRange (nodeHash sha256) leaf left.start (n - left.start) := by
  have hn : n - left.start = 2 ^ j + (n - acc.start) := by omega
  rw [Subtree.right_iff.1 hl, hacc, hsize, hn, hashRange_join (Nat.sub_pos_of_lt hlt) hle, ← hsize,
    hstart]

lemma foldStack_kept {a : Subtree} (hstack : Stacked sha256 leaf a.start stack)
    (ha : a.hash = hashRange (nodeHash sha256) leaf a.start (n - a.start)) (hlt : a.start < n)
    (hdvd : 2 ^ j ∣ a.start) (hj : n < a.start + 2 ^ j) :
    (foldStack sha256 n stack a b).1.hash = hashRange (nodeHash sha256) leaf 0 n ∧
      (foldStack sha256 n stack a b).2.wanted = b.wanted ∧
      (foldStack sha256 n stack a b).2.count = b.count ∧
      (∀ r, Kept sha256 leaf b r →
        Kept sha256 leaf (foldStack sha256 n stack a b).2 r) ∧
      ∀ t ∈ stack, Kept sha256 leaf (foldStack sha256 n stack a b).2 (t.start, n) := by
  induction stack generalizing a b j with
  | nil =>
    generalize hs : a.start = s at hstack ha
    cases hstack with
    | nil => exact ⟨ha, rfl, rfl, fun _ h => h, by simp⟩
  | cons left stack ih =>
    obtain ⟨i, hsize, hodd, hright, hrest, hstart⟩ := hstack.top
    have hji : j ≤ i := not_dvd_end hodd (by rwa [← hsize, ← hstart])
    have hpow : 2 ^ j ≤ 2 ^ i := Nat.pow_le_pow_right Nat.two_pos hji
    have hnode := hright.fold ha hsize hstart hlt (by omega)
    set joined : Subtree := ⟨left.start, n - left.start, nodeHash sha256 left.hash a.hash⟩ with hdef
    have hjoined : joined.Right sha256 leaf := Subtree.right_iff.2 hnode
    have hrange : joined.range = (left.start, n) :=
      Prod.ext rfl (by simp [hdef, Subtree.range]; omega)
    obtain ⟨hroot, hwanted, hcount, hkeep, hall⟩ :=
      ih (a := joined) (b := b.keep joined) hrest hnode
      (by simp only [hdef]; omega) hodd (by simp only [hdef]; rw [pow_succ]; omega)
    rw [foldStack]
    refine ⟨hroot, by simpa using hwanted, by simpa using hcount, fun r hr => ?_, fun t ht => ?_⟩
    · exact hkeep r (keep_of_kept hjoined hr)
    · rcases mem_cons.1 ht with rfl | ht
      · exact hkeep _ (hrange ▸ keep_self hjoined)
      · exact hall t ht

lemma Stacked.exists_start (h : Stacked sha256 leaf n stack) (hdvd : 2 ^ j ∣ low)
    (hlt : low < n) (hgt : n < low + 2 ^ j) : ∃ t ∈ stack, t.start = low := by
  induction h with
  | nil => exact absurd hlt (Nat.not_lt_zero low)
  | @cons t stack i hsize hodd _ _ ih =>
    rcases Nat.lt_trichotomy low t.start with hbefore | rfl | hafter
    · obtain ⟨t', ht', hstart⟩ := ih hbefore (by omega)
      exact ⟨t', mem_cons_of_mem _ ht', hstart⟩
    · exact ⟨t, mem_cons_self .., rfl⟩
    · -- Inside of a block no rest can start.
      exfalso
      rw [hsize] at hlt hgt
      by_cases hij : i < j
      · have hpow : 2 ^ (i + 1) ∣ low := (Nat.pow_dvd_pow 2 hij).trans hdvd
        have hsub : 2 ^ (i + 1) ∣ low - t.start := Nat.dvd_sub hpow hodd
        have := Nat.le_of_dvd (by omega) hsub
        rw [pow_succ] at this
        omega
      · have hpow : 2 ^ j ∣ t.start + 2 ^ i :=
          Nat.dvd_add ((Nat.pow_dvd_pow 2 (by omega)).trans hodd) (Nat.pow_dvd_pow 2 (by omega))
        have hsub : 2 ^ j ∣ t.start + 2 ^ i - low := Nat.dvd_sub hpow hdvd
        have := Nat.le_of_dvd (by omega) hsub
        omega

lemma foldStack_isNode {top : Subtree} (h : Built sha256 leaf b)
    (hstack : b.stack = top :: stack) :
    let folded := foldStack sha256 b.count stack top b
    folded.1.hash = hashRange (nodeHash sha256) leaf 0 b.count ∧ folded.2.wanted = b.wanted ∧
      folded.2.count = b.count ∧
      ∀ low high, IsNode b.count low high → Kept sha256 leaf folded.2 (low, high) := by
  intro folded
  have hstacked := h.stacked
  rw [hstack] at hstacked
  obtain ⟨j, hsize, hodd, hright, hrest, hcount⟩ := hstacked.top
  have hpos := Nat.two_pow_pos j
  have htop : top.hash = hashRange (nodeHash sha256) leaf top.start (b.count - top.start) := by
    rw [hcount, Nat.add_sub_cancel_left]
    exact Subtree.right_iff.1 hright
  obtain ⟨hroot, hwanted, hc, hkeep, hall⟩ := foldStack_kept (b := b) hrest htop (by omega) hodd
    (by rw [pow_succ]; omega)
  refine ⟨hroot, hwanted, hc, fun low high hnode => ?_⟩
  cases hnode with
  | block i hi hle => exact hkeep _ (h.kept i low hi hle)
  | rest i hi hlt hgt =>
    obtain ⟨t, ht, rfl⟩ := h.stacked.exists_start hi hlt hgt
    rw [hstack] at ht
    rcases mem_cons.1 ht with rfl | ht
    · -- The top of the stack is a block.
      have hblock := h.kept j t.start ((Nat.pow_dvd_pow 2 (Nat.le_succ j)).trans hodd)
        (by rw [hcount, hsize])
      rw [← hsize, ← hcount] at hblock
      exact hkeep _ hblock
    · exact hall t ht

/-! ## Paths -/

lemma pathRangesFrom_of_lt (index fuel : ℕ) (hmore : high - low > 1) :
    ∃ m, 2 ^ m < high - low ∧ high - low ≤ 2 ^ (m + 1) ∧
      pathRangesFrom index (fuel + 1) low high =
        if index < low + 2 ^ m then
          (low + 2 ^ m, high) :: pathRangesFrom index fuel low (low + 2 ^ m)
        else (low, low + 2 ^ m) :: pathRangesFrom index fuel (low + 2 ^ m) high := by
  obtain ⟨m, hm⟩ : ∃ m, splitSize (high - low) = 2 ^ m := ⟨_, rfl⟩
  refine ⟨m, hm ▸ splitSize_lt hmore, ?_, ?_⟩
  · rw [Nat.pow_succ', ← hm]
    exact le_two_mul_splitSize _
  · rw [pathRangesFrom, if_pos hmore]
    dsimp only
    rw [largestPowerOfTwoBelow_eq, hm]

lemma isNode_of_mem_pathRangesFrom {index : ℕ} (h : IsNode n low high) :
    ∀ r ∈ pathRangesFrom index fuel low high, IsNode n r.1 r.2 := by
  induction fuel generalizing low high with
  | zero => simp [pathRangesFrom]
  | succ fuel ih =>
    by_cases hmore : high - low > 1
    · obtain ⟨m, hlt, hle, heq⟩ := pathRangesFrom_of_lt index fuel hmore
      obtain ⟨hdvd, hn⟩ := h.left hlt
      rw [heq]
      split_ifs
      · exact forall_mem_cons.2 ⟨h.right hlt hle, ih (.block m hdvd hn)⟩
      · exact forall_mem_cons.2 ⟨.block m hdvd hn, ih (h.right hlt hle)⟩
    · rw [pathRangesFrom, if_neg hmore]
      simp

/-! ## Verifying -/

lemma shiftEven_mul {odd d sn : ℕ} (hodd : odd % 2 = 1) (hfuel : d ≤ fuel) :
    shiftEven fuel (odd * 2 ^ d) sn = (odd, sn / 2 ^ d) := by
  induction d generalizing fuel sn with
  | zero =>
    cases fuel with
    | zero => simp [shiftEven]
    | succ fuel => simp [shiftEven, hodd]
  | succ d ih =>
    obtain ⟨fuel, rfl⟩ : ∃ k, fuel = k + 1 := ⟨fuel - 1, by omega⟩
    have hhalf : odd * 2 ^ (d + 1) / 2 = odd * 2 ^ d := by
      rw [pow_succ, ← mul_assoc, Nat.mul_div_cancel _ Nat.two_pos]
    have heven : odd * 2 ^ (d + 1) % 2 = 0 := by
      rw [pow_succ, ← mul_assoc, Nat.mul_mod_left]
    have hne : odd * 2 ^ (d + 1) ≠ 0 :=
      Nat.mul_ne_zero (by rintro rfl; simp at hodd) (Nat.two_pow_pos _).ne'
    rw [shiftEven, if_pos ⟨heven, hne⟩, hhalf, ih (by omega), Nat.div_div_eq_div_mul, Nat.pow_succ']

variable (sha256 leaf) in
def Reaches (n low high : ℕ) (s : Climb) : Prop :=
  ∃ k, 2 ^ k ∣ low ∧ high = min n (low + 2 ^ k) ∧
    s = ⟨low / 2 ^ k, (n - 1) / 2 ^ k, hashRange (nodeHash sha256) leaf low (high - low)⟩

lemma nodeHash_parts (hlt : 2 ^ m < high - low) (hle : high - low ≤ 2 ^ (m + 1)) :
    nodeHash sha256 (hashRange (nodeHash sha256) leaf low (2 ^ m))
        (hashRange (nodeHash sha256) leaf (low + 2 ^ m) (high - (low + 2 ^ m))) =
      hashRange (nodeHash sha256) leaf low (high - low) := by
  have hsize : high - low = 2 ^ m + (high - (low + 2 ^ m)) := by omega
  rw [hsize, hashRange_join (by omega) (by rw [pow_succ] at hle; omega)]

lemma Reaches.left {s : Climb} (h : IsNode n low high) (hlt : 2 ^ m < high - low)
    (hle : high - low ≤ 2 ^ (m + 1)) (hs : Reaches sha256 leaf n low (low + 2 ^ m) s) :
    ∃ s', climbStep sha256 s (rangeHash sha256 leaf (low + 2 ^ m, high)) = some s' ∧
      Reaches sha256 leaf n low high s' := by
  obtain ⟨k, hk, hhigh, rfl⟩ := hs
  have hn := h.le
  have hpos := Nat.two_pow_pos m
  obtain ⟨a, rfl⟩ := h.dvd hlt
  -- The part ends before the leaves do, so it is at its own level.
  obtain rfl : k = m := Nat.pow_right_injective (le_refl 2) (by dsimp only; omega)
  have hfn : 2 ^ (k + 1) * a / 2 ^ k = 2 * a := by
    rw [pow_succ, mul_assoc, Nat.mul_div_cancel_left _ hpos]
  have hsn : 2 * a + 1 ≤ (n - 1) / 2 ^ k := by
    rw [Nat.le_div_iff_mul_le hpos]
    have : (2 * a + 1) * 2 ^ k = 2 ^ (k + 1) * a + 2 ^ k := by ring
    omega
  rw [climbStep, hfn, if_neg (by dsimp only; omega), if_neg (by dsimp only; omega)]
  refine ⟨_, rfl, k + 1, Nat.dvd_mul_right .., h.high_eq hlt hle, ?_⟩
  congr 1
  · rw [Nat.mul_div_cancel_left _ (Nat.two_pow_pos _), Nat.mul_div_cancel_left _ Nat.two_pos]
  · rw [Nat.div_div_eq_div_mul, pow_succ]
  · rw [Nat.add_sub_cancel_left]
    exact nodeHash_parts hlt hle

lemma Reaches.right {s : Climb} (h : IsNode n low high) (hlt : 2 ^ m < high - low)
    (hle : high - low ≤ 2 ^ (m + 1)) (hs : Reaches sha256 leaf n (low + 2 ^ m) high s) :
    ∃ s', climbStep sha256 s (rangeHash sha256 leaf (low, low + 2 ^ m)) = some s' ∧
      Reaches sha256 leaf n low high s' := by
  obtain ⟨k, hk, hhigh, rfl⟩ := hs
  have hn := h.le
  have hpos := Nat.two_pow_pos k
  have hkm : k ≤ m := not_dvd_end (h.dvd hlt) hk
  obtain ⟨d, rfl⟩ := Nat.exists_eq_add_of_le hkm
  have hhigh' := h.high_eq hlt hle
  obtain ⟨a, rfl⟩ := h.dvd hlt
  have hmul : 2 ^ (k + d + 1) * a + 2 ^ (k + d) = (2 * a + 1) * 2 ^ d * 2 ^ k := by ring
  have hfn : (2 ^ (k + d + 1) * a + 2 ^ (k + d)) / 2 ^ k = (2 * a + 1) * 2 ^ d := by
    rw [hmul, Nat.mul_div_cancel _ hpos]
  have hle' : (2 * a + 1) * 2 ^ d ≤ (n - 1) / 2 ^ k := by
    rw [Nat.le_div_iff_mul_le hpos, ← hmul]
    omega
  have hdpos : 0 < (2 * a + 1) * 2 ^ d := Nat.mul_pos (Nat.succ_pos _) (Nat.two_pow_pos d)
  -- Below the level of the part there is nothing beside it up to the end of the leaves.
  have hbranch : (2 * a + 1) * 2 ^ d % 2 = 1 ∨ (2 * a + 1) * 2 ^ d = (n - 1) / 2 ^ k := by
    cases d with
    | zero => exact .inl (by omega)
    | succ d =>
      refine .inr (le_antisymm hle' (Nat.le_of_lt_succ ?_))
      have hne : 2 ^ k < 2 ^ (k + (d + 1)) := Nat.pow_lt_pow_right Nat.one_lt_two (by omega)
      have hend : n ≤ 2 ^ (k + (d + 1) + 1) * a + 2 ^ (k + (d + 1)) + 2 ^ k := by
        rw [pow_succ 2 (k + (d + 1))] at hhigh hhigh' ⊢
        omega
      rw [Nat.div_lt_iff_lt_mul hpos, Nat.succ_mul, ← hmul]
      omega
  have hshift : shiftEven ((2 * a + 1) * 2 ^ d) ((2 * a + 1) * 2 ^ d) ((n - 1) / 2 ^ k) =
      (2 * a + 1, (n - 1) / 2 ^ k / 2 ^ d) :=
    shiftEven_mul (by omega) (le_of_lt (lt_of_lt_of_le Nat.lt_two_pow_self
      (Nat.le_mul_of_pos_left _ (Nat.succ_pos _))))
  rw [climbStep, hfn, if_neg (by dsimp only; omega), if_pos hbranch]
  dsimp only
  rw [hshift]
  refine ⟨_, rfl, k + d + 1, Nat.dvd_mul_right .., hhigh', ?_⟩
  congr 1
  · rw [Nat.mul_div_cancel_left _ (Nat.two_pow_pos _)]
    omega
  · rw [Nat.div_div_eq_div_mul, Nat.div_div_eq_div_mul, ← pow_succ, ← pow_add]
    rfl
  · rw [rangeHash, Nat.add_sub_cancel_left]
    exact nodeHash_parts hlt hle

variable (sha256 leaf) in
lemma climb_path {index : ℕ} (h : IsNode n low high) (hlow : low ≤ index) (hhigh : index < high)
    (hfuel : high - low ≤ fuel) :
    ∃ s, ((pathRangesFrom index fuel low high).reverse.map (rangeHash sha256 leaf)).foldlM
        (climbStep sha256) ⟨index, n - 1, leaf index⟩ = some s ∧
          Reaches sha256 leaf n low high s := by
  induction fuel generalizing low high with
  | zero => omega
  | succ fuel ih =>
    by_cases hmore : high - low > 1
    · obtain ⟨m, hlt, hle, heq⟩ := pathRangesFrom_of_lt index fuel hmore
      have hpos := Nat.two_pow_pos m
      obtain ⟨hdvd, hn⟩ := h.left hlt
      rw [heq]
      -- The hash beside the node itself is the last of the proof.
      split_ifs with hside
      · obtain ⟨s, hs, hreach⟩ := ih (.block m hdvd hn) hlow hside (by omega)
        obtain ⟨s', hstep, hreach'⟩ := hreach.left h hlt hle
        refine ⟨s', ?_, hreach'⟩
        rw [reverse_cons, map_append, foldlM_append, hs]
        simp [hstep]
      · obtain ⟨s, hs, hreach⟩ := ih (h.right hlt hle) (Nat.not_lt.1 hside) hhigh (by omega)
        obtain ⟨s', hstep, hreach'⟩ := hreach.right h hlt hle
        refine ⟨s', ?_, hreach'⟩
        rw [reverse_cons, map_append, foldlM_append, hs]
        simp [hstep]
    · -- The leaf itself.
      have hn := h.le
      obtain rfl : index = low := by omega
      obtain rfl : high = index + 1 := by omega
      rw [pathRangesFrom, if_neg hmore]
      refine ⟨_, rfl, 0, Nat.one_dvd _, (min_eq_right hn).symm, ?_⟩
      rw [Nat.add_sub_cancel_left, hashRange_one, pow_zero, Nat.div_one, Nat.div_one]

lemma verifyInclusion_path {index n : ℕ} (h : index < n) :
    verifyInclusion sha256 index n (leaf index) ((pathRanges index n).map (rangeHash sha256 leaf))
      (hashRange (nodeHash sha256) leaf 0 n) = true := by
  obtain ⟨s, hs, k, -, hn, rfl⟩ := climb_path sha256 leaf
    (isNode_root (Nat.zero_lt_of_lt h)) (Nat.zero_le index) h (Nat.le_refl _)
  have hsn : (n - 1) / 2 ^ k = 0 := Nat.div_eq_of_lt (by have := Nat.two_pow_pos k; omega)
  rw [verifyInclusion, if_neg (Nat.not_le.2 h), pathRanges]
  rw [Nat.sub_zero] at hs
  rw [hs]
  simp [hsn]

lemma foldl_update_proofs (targets : List ℕ) (g : ℕ → List Digest) (i : ℕ)
    (proofs : ℕ → Option (List Digest)) :
    targets.foldl (fun proofs t => Function.update proofs t (some (g t))) proofs i =
      if i ∈ targets then some (g i) else proofs i := by
  induction targets generalizing proofs with
  | nil => simp
  | cons t targets ih =>
    rw [foldl_cons, ih]
    by_cases hin : i ∈ targets
    · rw [if_pos hin, if_pos (mem_cons_of_mem _ hin)]
    · by_cases heq : i = t
      · rw [if_neg hin, heq, Function.update_self, if_pos (mem_cons_self ..)]
      · rw [if_neg hin, Function.update_of_ne heq, if_neg (by simp [heq, hin])]

variable (sha256 leaf) in
lemma forProofs_built (size : ℕ) (targets : List ℕ) :
    Built sha256 leaf (forProofs size targets) :=
  ⟨.nil, fun j low _ hle => absurd hle (by
    have := Nat.two_pow_pos j
    simp only [forProofs]
    omega)⟩

lemma finish_spec (h : Built sha256 leaf b) {targets : List ℕ} {i : ℕ} (hi : i < b.count)
    (ht : i ∈ targets) (hwanted : ∀ r ∈ pathRanges i b.count, r ∈ b.wanted) :
    (b.finish sha256 targets).1 = hashRange (nodeHash sha256) leaf 0 b.count ∧
      (b.finish sha256 targets).2 i =
        some ((pathRanges i b.count).map (rangeHash sha256 leaf)) := by
  rw [finish]
  cases hstack : b.stack with
  | nil =>
    have hzero := h.stacked.eq_zero hstack
    omega
  | cons top stack =>
    obtain ⟨hroot, hwanted', hcount, hkept⟩ := foldStack_isNode h hstack
    have hin : i ∈ targets.filter (· < b.count) := mem_filter.2 ⟨ht, decide_eq_true hi⟩
    refine ⟨hroot, ?_⟩
    dsimp only
    rw [foldl_update_proofs, hcount, if_pos hin, ← filterMap_eq_map]
    -- Every range of the path is a node, so it is kept.
    refine congrArg some (filterMap_congr fun r hr => ?_)
    have hnode : IsNode b.count r.1 r.2 := isNode_of_mem_pathRangesFrom
      (isNode_root (Nat.zero_lt_of_lt hi)) r (mem_reverse.1 hr)
    refine hkept r.1 r.2 hnode ?_
    rw [hwanted']
    exact hwanted r hr

/-- A builder that is told the number of its leaves and some targets, and is fed the leaves, gives
for each target the hashes of all ranges beside its path, and the verifier accepts them. -/
theorem proofs_verify (sha256 : List UInt8 → Digest) (leaves : List Digest) (targets : List ℕ)
    {i : ℕ} (hi : i < leaves.length) (ht : i ∈ targets) :
    let n := leaves.length
    let leaf := fun k => leaves.getD k (emptyRoot sha256)
    let finished := (leaves.foldl (push sha256)
      (forProofs n targets)).finish sha256 targets
    ∃ proof, finished.2 i = some proof ∧
      proof = (pathRanges i n).map (rangeHash sha256 leaf) ∧
      verifyInclusion sha256 i n leaves[i] proof finished.1 = true := by
  intro n leaf finished
  have hfed := foldl_push_built leaves (forProofs_built sha256 leaf n targets) fun k x hk => by
    simp [forProofs, leaf, List.getD, hk]
  obtain ⟨hbuilt, hcount, hwanted⟩ := hfed
  have hn : (leaves.foldl (push sha256) (forProofs n targets)).count = n :=
    hcount.trans (zero_add _)
  obtain ⟨hroot, hproof⟩ := finish_spec hbuilt (hn.symm ▸ hi) ht fun r hr => by
    rw [hwanted]
    rw [hn] at hr
    exact mem_flatMap.2 ⟨i, mem_filter.2 ⟨ht, decide_eq_true hi⟩, hr⟩
  rw [hn] at hroot hproof
  refine ⟨_, hproof, rfl, ?_⟩
  have hleaf : leaves[i] = leaf i := by simp [leaf, List.getD, hi]
  rw [hleaf, hroot]
  exact verifyInclusion_path hi

def zeroHash (_ : List UInt8) : Digest := ⟨List.replicate 32 0, rfl⟩

/-- The last of five leaves, whose path is a single hash. -/
theorem proofs_verify_last_of_five :
    let leaves := List.replicate 5 (leafHash zeroHash (zeroHash []))
    let finished := (leaves.foldl (push zeroHash)
      (forProofs 5 [4])).finish zeroHash [4]
    ∃ proof, finished.2 4 = some proof ∧ proof.length = 1 ∧
      verifyInclusion zeroHash 4 5 (leafHash zeroHash (zeroHash [])) proof finished.1 = true := by
  obtain ⟨proof, hproof, hpath, hverify⟩ := proofs_verify zeroHash
    (List.replicate 5 (leafHash zeroHash (zeroHash []))) [4] (i := 4) (by decide) (by decide)
  refine ⟨proof, hproof, ?_, hverify⟩
  rw [hpath, length_map]
  rfl

/-! ## The root -/

/-- The hash of a list of leaves as RFC 6962 defines it (section 2.1): the list is split at the
largest power of two below its length. -/
def merkleTreeHash (sha256 : List UInt8 → Digest) : List Digest → Digest
  | [] => emptyRoot sha256
  | [leaf] => leaf
  | leaf :: next :: rest =>
      let leaves := leaf :: next :: rest
      let k := splitSize leaves.length
      nodeHash sha256 (merkleTreeHash sha256 (leaves.take k))
        (merkleTreeHash sha256 (leaves.drop k))
termination_by leaves => leaves.length
decreasing_by
  · simp only [length_take]
    exact lt_of_le_of_lt (min_le_left ..) (splitSize_lt (by simp))
  · simp only [length_drop]
    exact Nat.sub_lt (by simp) (splitSize_pos _)

lemma merkleTreeHash_eq {leaves : List Digest} (hne : leaves ≠ [])
    (hleaves : ∀ i x, leaves[i]? = some x → leaf (low + i) = x) :
    merkleTreeHash sha256 leaves = hashRange (nodeHash sha256) leaf low leaves.length := by
  induction hn : leaves.length using Nat.strong_induction_on generalizing leaves low with
  | _ n ih =>
    subst hn
    match leaves, hne with
    | [only], _ =>
      rw [merkleTreeHash, length_singleton, hashRange_one]
      exact (hleaves 0 only rfl).symm
    | x :: y :: rest, _ =>
      set leaves := x :: y :: rest with hdef
      set k := splitSize leaves.length with hk
      have hlong : 1 < leaves.length := by simp [hdef]
      have hlt : k < leaves.length := splitSize_lt hlong
      have hpos : 0 < k := splitSize_pos _
      have htake : (leaves.take k).length = k := by
        rw [length_take]
        omega
      have hdrop : (leaves.drop k).length = leaves.length - k := length_drop
      -- the first `k` leaves keep their numbers, the others are counted from `k` on
      have hleft : merkleTreeHash sha256 (leaves.take k) =
          hashRange (nodeHash sha256) leaf low (leaves.take k).length := by
        refine ih _ (by omega) (ne_nil_of_length_pos (by omega)) (fun i z hz => ?_) rfl
        rw [List.getElem?_take] at hz
        split at hz
        · exact hleaves i z hz
        · cases hz
      have hright : merkleTreeHash sha256 (leaves.drop k) =
          hashRange (nodeHash sha256) leaf (low + k) (leaves.drop k).length := by
        refine ih _ (by omega) (ne_nil_of_length_pos (by omega)) (fun i z hz => ?_) rfl
        rw [List.getElem?_drop] at hz
        rw [add_assoc]
        exact hleaves (k + i) z hz
      rw [hashRange_split hlong, merkleTreeHash, ← hk, hleft, hright, htake, hdrop]

variable (sha256 leaf) in
lemma new_built : Built sha256 leaf new :=
  ⟨.nil, fun j low _ hle => absurd hle (by
    have := Nat.two_pow_pos j
    simp only [new]
    omega)⟩

/-- The root that a builder gives for the leaves it was fed is the Merkle tree hash of their list.
-/
theorem root_is_merkleTreeHash (sha256 : List UInt8 → Digest) (leaves : List Digest)
    (targets : List ℕ) :
    ((leaves.foldl (push sha256) new).finish sha256 targets).1 =
      merkleTreeHash sha256 leaves := by
  let leaf := fun k => leaves.getD k (emptyRoot sha256)
  have hleaf : ∀ i x, leaves[i]? = some x → leaf i = x := fun i x hx => by
    simp [leaf, List.getD, hx]
  obtain ⟨hbuilt, hcount, -⟩ := foldl_push_built leaves (new_built sha256 leaf)
    fun i x hx => by simpa [new] using hleaf i x hx
  have hcount : (leaves.foldl (push sha256) new).count = leaves.length :=
    hcount.trans (zero_add _)
  rw [finish]
  cases hstack : (leaves.foldl (push sha256) new).stack with
  | nil =>
    have hzero := hbuilt.stacked.eq_zero hstack
    obtain rfl : leaves = [] := eq_nil_of_length_eq_zero (by omega)
    rw [merkleTreeHash]
  | cons top stack =>
    have hne : leaves ≠ [] := by
      rintro rfl
      simp [new] at hstack
    obtain ⟨hroot, -⟩ := foldStack_isNode hbuilt hstack
    rw [merkleTreeHash_eq hne fun i x hx => by rw [zero_add]; exact hleaf i x hx, ← hcount]
    exact hroot

end Epistle.Evidence
