import Mathlib.Algebra.Order.Ring.Int
import Mathlib.Data.Finset.SDiff

/-!
# Keyed sets without empty keys

A map from keys to sets that stands for a list of pairs held elsewhere. A key with nothing held has
no set. `Holdings` says that the map agrees with the pairs.
-/

namespace Epistle.Lib

open List

variable {κ ρ : Type*} [DecidableEq κ] [DecidableEq ρ]

def heldUnder (ps : List (κ × ρ)) (k : κ) : Finset ρ :=
    ((ps.filter (·.1 = k)).map Prod.snd).toFinset

variable {r : ρ}

@[simp]
lemma mem_heldUnder {ps : List (κ × ρ)} {k : κ} : r ∈ heldUnder ps k ↔ (k, r) ∈ ps := by
  simp [heldUnder]

def keyed (s : Finset ρ) : Option (Finset ρ) := if s = ∅ then none else some s

@[simp]
lemma getD_keyed (s : Finset ρ) : (keyed s).getD ∅ = s := by
  unfold keyed
  split_ifs with h
  · exact h.symm
  · rfl

def pairs (k : κ) (rs : List ρ) : List (κ × ρ) := rs.map (k, ·)

omit [DecidableEq κ] [DecidableEq ρ] in
@[simp]
lemma mem_pairs {k l : κ} {rs : List ρ} : (l, r) ∈ pairs k rs ↔ l = k ∧ r ∈ rs := by
  simp only [pairs, mem_map, Prod.mk.injEq]
  constructor
  · rintro ⟨r', hr', rfl, rfl⟩
    exact ⟨rfl, hr'⟩
  · rintro ⟨rfl, hr⟩
    exact ⟨r, hr, rfl, rfl⟩

def Holdings (m : κ → Option (Finset ρ)) (ps : List (κ × ρ)) : Prop :=
  ∀ k, m k = keyed (heldUnder ps k)

section Holdings

variable {m : κ → Option (Finset ρ)} {ps : List (κ × ρ)} {k : κ} {rs : List ρ}

lemma Holdings.nil : Holdings (fun _ : κ => (none : Option (Finset ρ))) [] := fun _ => rfl

lemma Holdings.getD (h : Holdings m ps) (k : κ) : (m k).getD ∅ = heldUnder ps k := by
  rw [h k, getD_keyed]

lemma Holdings.perm {ps' : List (κ × ρ)} (h : Holdings m ps) (hp : ps.Perm ps') :
    Holdings m ps' := by
  intro k
  rw [h k]
  congr 1
  ext r
  rw [mem_heldUnder, mem_heldUnder, hp.mem_iff]

lemma Holdings.add (h : Holdings m ps) (k : κ) (rs : List ρ) :
    Holdings (Function.update m k (keyed ((m k).getD ∅ ∪ rs.toFinset))) (pairs k rs ++ ps) := by
  intro l
  by_cases hl : l = k
  · subst hl
    rw [Function.update_self, h.getD]
    congr 1
    ext r
    simp [or_comm]
  · rw [Function.update_of_ne hl, h l]
    congr 1
    ext r
    simp [hl]

lemma Holdings.remove (h : Holdings m (pairs k rs ++ ps)) (hn : (pairs k rs ++ ps).Nodup) :
    Holdings (Function.update m k (keyed ((m k).getD ∅ \ rs.toFinset))) ps := by
  have hdisj : ∀ r ∈ rs, (k, r) ∉ ps := by
    intro r hr
    exact (disjoint_of_nodup_append hn) (mem_pairs.2 ⟨rfl, hr⟩)
  intro l
  by_cases hl : l = k
  · subst hl
    rw [Function.update_self, h.getD]
    congr 1
    ext r
    simp only [Finset.mem_sdiff, mem_heldUnder, mem_append, mem_pairs, mem_toFinset,
      true_and]
    have := hdisj r
    tauto
  · rw [Function.update_of_ne hl, h l]
    congr 1
    ext r
    simp [hl]

end Holdings

/-! ### A loop of insertions -/

def freshOf (s : Finset ρ) : List ρ → List ρ
  | [] => []
  | r :: rs => if r ∈ s then freshOf s rs else r :: freshOf (insert r s) rs

lemma mem_freshOf {s : Finset ρ} {rs : List ρ} : r ∈ freshOf s rs ↔ r ∈ rs ∧ r ∉ s := by
  induction rs generalizing s with
  | nil => simp [freshOf]
  | cons x xs ih =>
    rw [freshOf]
    split_ifs with hx
    · rw [ih, mem_cons]
      constructor
      · rintro ⟨hr, hs⟩
        exact ⟨.inr hr, hs⟩
      · rintro ⟨rfl | hr, hs⟩
        · exact absurd hx hs
        · exact ⟨hr, hs⟩
    · rw [mem_cons, ih, mem_cons, Finset.mem_insert]
      by_cases hr : r = x
      · simp [hr, hx]
      · simp [hr]

lemma freshOf_nodup (s : Finset ρ) (rs : List ρ) : (freshOf s rs).Nodup := by
  induction rs generalizing s with
  | nil => exact nodup_nil
  | cons x xs ih =>
    rw [freshOf]
    split_ifs with hx
    · exact ih s
    · refine nodup_cons.2 ⟨?_, ih _⟩
      intro hmem
      exact (mem_freshOf.1 hmem).2 (Finset.mem_insert_self x s)

lemma nodup_pairs_freshOf {ps : List (κ × ρ)} (hn : ps.Nodup) (k : κ) (rs : List ρ) :
    (pairs k (freshOf (heldUnder ps k) rs) ++ ps).Nodup := by
  refine List.Nodup.append ?_ hn ?_
  · exact (freshOf_nodup _ rs).map fun _ _ h => (Prod.mk.inj h).2
  · rintro ⟨l, r⟩ hl hr
    obtain ⟨rfl, hfresh⟩ := mem_pairs.1 hl
    exact (mem_freshOf.1 hfresh).2 (mem_heldUnder.2 hr)

end Epistle.Lib
