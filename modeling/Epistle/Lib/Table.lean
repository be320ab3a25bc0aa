import Mathlib.Algebra.BigOperators.Group.List.Basic
import Mathlib.Algebra.Order.Ring.Int

/-!
# Ordered tables

Finite maps as lists of entries in the order of their keys, so that going through a table has one
order, and two tables that answer alike are the same.
-/

namespace Epistle.Lib

open List Option

/-- A finite map, as entries in the order of their keys. -/
structure Table (κ ν : Type*) [LinearOrder κ] where
  entries : List (κ × ν)
  sorted : entries.Pairwise fun a b => a.1 < b.1
  deriving DecidableEq

namespace Table

variable {κ ν : Type*} [LinearOrder κ]

def insertEntry (k : κ) (v : ν) : List (κ × ν) → List (κ × ν)
  | [] => [(k, v)]
  | (a, b) :: rest =>
      if k < a then (k, v) :: (a, b) :: rest
      else if k = a then (k, v) :: rest
      else (a, b) :: insertEntry k v rest

lemma mem_insertEntry {k : κ} {v : ν} {x : κ × ν} {l : List (κ × ν)}
    (h : x ∈ insertEntry k v l) : x = (k, v) ∨ x ∈ l := by
  fun_induction insertEntry k v l with
  | case1 => simpa using h
  | case2 a b rest hlt => simpa using h
  | case3 b rest =>
    obtain h | h := mem_cons.1 h
    · exact .inl h
    · exact .inr (mem_cons_of_mem _ h)
  | case4 a b rest hlt hne ih =>
    obtain rfl | h := mem_cons.1 h
    · exact .inr (mem_cons_self ..)
    · exact (ih h).imp_right (mem_cons_of_mem _)

lemma insertEntry_sorted (k : κ) (v : ν) {l : List (κ × ν)}
    (h : l.Pairwise fun a b => a.1 < b.1) :
    (insertEntry k v l).Pairwise fun a b => a.1 < b.1 := by
  fun_induction insertEntry k v l with
  | case1 => exact pairwise_singleton _ _
  | case2 a b rest hlt =>
    refine .cons (fun x hx => ?_) h
    obtain rfl | hx := mem_cons.1 hx
    · exact hlt
    · exact hlt.trans (rel_of_pairwise_cons h hx)
  | case3 b rest =>
    exact .cons (fun x hx => rel_of_pairwise_cons h hx) h.of_cons
  | case4 a b rest hlt hne ih =>
    refine .cons (fun x hx => ?_) (ih h.of_cons)
    obtain rfl | hx := mem_insertEntry hx
    · exact lt_of_le_of_ne (not_lt.1 hlt) (Ne.symm hne)
    · exact rel_of_pairwise_cons h hx

def empty : Table κ ν := ⟨[], .nil⟩

/-- The value of a key. -/
def get (t : Table κ ν) (k : κ) : Option ν := t.entries.lookup k

/-- Let a key stand for a value. -/
def set (t : Table κ ν) (k : κ) (v : ν) : Table κ ν :=
  ⟨insertEntry k v t.entries, insertEntry_sorted k v t.sorted⟩

/-- Let a key stand for nothing. -/
def erase (t : Table κ ν) (k : κ) : Table κ ν :=
  ⟨t.entries.filter (·.1 ≠ k), t.sorted.filter _⟩

/-- How many keys stand for something. -/
def size (t : Table κ ν) : ℕ := t.entries.length

/-- The keys, in order. -/
def keys (t : Table κ ν) : List κ := t.entries.map Prod.fst

/-- The sum of a function over the entries. -/
def sum (t : Table κ ν) (f : κ → ν → ℕ) : ℕ := (t.entries.map fun x => f x.1 x.2).sum

variable {t : Table κ ν} {k l : κ} {v : ν}

@[simp] lemma get_empty (k : κ) : (empty : Table κ ν).get k = none := rfl

@[simp] lemma sum_empty (f : κ → ν → ℕ) : (empty : Table κ ν).sum f = 0 := rfl

/-! ## Reading -/

lemma lookup_cons_ite (a l : κ) (b : ν) (es : List (κ × ν)) :
    ((a, b) :: es).lookup l = if l = a then some b else es.lookup l := by
  by_cases h : l = a
  · simp [h]
  · have hbeq : (l == a) = false := by simpa using h
    rw [lookup_cons, hbeq, if_neg h]

lemma lookup_insertEntry (k l : κ) (v : ν) (es : List (κ × ν)) :
    (insertEntry k v es).lookup l = if l = k then some v else es.lookup l := by
  fun_induction insertEntry k v es with
  | case1 => rw [lookup_cons_ite]
  | case2 a b rest hlt => rw [lookup_cons_ite]
  | case3 b rest =>
    rw [lookup_cons_ite, lookup_cons_ite]
    split_ifs <;> rfl
  | case4 a b rest hlt hne ih =>
    rw [lookup_cons_ite, lookup_cons_ite, ih]
    split_ifs with hla hlk
    · exact absurd (hlk.symm.trans hla) hne
    · rfl
    · rfl
    · rfl

lemma get_set (t : Table κ ν) (k l : κ) (v : ν) :
    (t.set k v).get l = if l = k then some v else t.get l :=
  lookup_insertEntry k l v t.entries

lemma lookup_filter_ne (k l : κ) (es : List (κ × ν)) :
    (es.filter (·.1 ≠ k)).lookup l = if l = k then none else es.lookup l := by
  induction es with
  | nil => simp
  | cons x es ih =>
    obtain ⟨a, b⟩ := x
    by_cases hak : a = k
    · subst hak
      rw [filter_cons_of_neg (by simp), ih, lookup_cons_ite]
      split_ifs <;> rfl
    · rw [filter_cons_of_pos (by simpa using hak), lookup_cons_ite, lookup_cons_ite, ih]
      split_ifs with hla hlk
      · exact absurd (hla.symm.trans hlk) hak
      · rfl
      · rfl
      · rfl

lemma get_erase (t : Table κ ν) (k l : κ) :
    (t.erase k).get l = if l = k then none else t.get l :=
  lookup_filter_ne k l t.entries

lemma mem_entries : (k, v) ∈ t.entries ↔ t.get k = some v := by
  obtain ⟨es, hes⟩ := t
  change (k, v) ∈ es ↔ es.lookup k = some v
  induction es with
  | nil => simp
  | cons x es ih =>
    obtain ⟨a, b⟩ := x
    rw [mem_cons, ih hes.of_cons, lookup_cons_ite]
    by_cases h : k = a
    · subst h
      have hnone : es.lookup k = none := by
        rw [lookup_eq_none_iff]
        intro y hy
        have hlt := rel_of_pairwise_cons hes hy
        simpa using hlt.ne
      simp [hnone, eq_comm]
    · simp [h]

/-! ## Sums -/

lemma sum_insertEntry (f : κ → ν → ℕ) (k : κ) (v : ν) {es : List (κ × ν)}
    (h : es.Pairwise fun a b => a.1 < b.1) :
    ((insertEntry k v es).map fun x => f x.1 x.2).sum + ((es.lookup k).elim 0 (f k)) =
      (es.map fun x => f x.1 x.2).sum + f k v := by
  fun_induction insertEntry k v es with
  | case1 => simp
  | case2 a b rest hlt =>
    have hnone : ((a, b) :: rest).lookup k = none := by
      rw [lookup_eq_none_iff]
      intro y hy
      have hky : k < y.1 := by
        obtain rfl | hy := mem_cons.1 hy
        · exact hlt
        · exact hlt.trans (rel_of_pairwise_cons h hy)
      simpa using hky.ne
    rw [hnone]
    simp only [map_cons, sum_cons, elim_none]
    omega
  | case3 b rest =>
    rw [lookup_cons_ite, if_pos rfl]
    simp only [map_cons, sum_cons, elim_some]
    omega
  | case4 a b rest hlt hne ih =>
    rw [lookup_cons_ite, if_neg hne]
    simp only [map_cons, sum_cons]
    have := ih h.of_cons
    omega

lemma sum_set (t : Table κ ν) (f : κ → ν → ℕ) (k : κ) (v : ν) :
    (t.set k v).sum f + (t.get k).elim 0 (f k) = t.sum f + f k v :=
  sum_insertEntry f k v t.sorted

lemma sum_erase (t : Table κ ν) (f : κ → ν → ℕ) (k : κ) :
    (t.erase k).sum f + (t.get k).elim 0 (f k) = t.sum f := by
  obtain ⟨es, hes⟩ := t
  change ((es.filter (·.1 ≠ k)).map fun x => f x.1 x.2).sum + (es.lookup k).elim 0 (f k) =
    (es.map fun x => f x.1 x.2).sum
  induction es with
  | nil => rfl
  | cons x es ih =>
    obtain ⟨a, b⟩ := x
    have hih := ih hes.of_cons
    by_cases h : a = k
    · subst h
      have hkeep : es.filter (·.1 ≠ a) = es := by
        rw [filter_eq_self]
        intro y hy
        have hlt := rel_of_pairwise_cons hes hy
        simpa using hlt.ne'
      rw [filter_cons_of_neg (by simp), hkeep, lookup_cons_ite, if_pos rfl]
      simp only [map_cons, sum_cons, elim_some]
      omega
    · rw [filter_cons_of_pos (by simpa using h), lookup_cons_ite, if_neg (Ne.symm h)]
      simp only [map_cons, sum_cons]
      omega

lemma le_sum (f : κ → ν → ℕ) (h : t.get k = some v) : f k v ≤ t.sum f := by
  have hsum := t.sum_erase f k
  rw [h, elim_some] at hsum
  omega

/-! ## Keys -/

lemma keys_sorted (t : Table κ ν) : t.keys.Pairwise (· < ·) := pairwise_map.2 t.sorted

lemma rel_of_lt_of_pairwise {R : κ → κ → Prop} {ks : List κ} (hks : ks.Pairwise (· < ·))
    (hR : ks.Pairwise R) (hk : k ∈ ks) (hl : l ∈ ks) (hlt : k < l) : R k l := by
  refine List.Pairwise.forall_of_forall_of_flip (R := fun a b => a < b → R a b)
    (fun a _ h => absurd h (lt_irrefl a)) ?_ ?_ hk hl hlt
  · exact hR.imp fun {a b} hab (_ : a < b) => hab
  · exact hks.imp fun hab hba => absurd hba hab.asymm

lemma isPrefix_of_lower {ks ls : List κ} (hls : ls.Pairwise (· < ·)) (hks : ks.Pairwise (· < ·))
    (hsub : ls ⊆ ks) (hlower : ∀ k ∈ ks, ∀ l ∈ ls, k < l → k ∈ ls) : ls <+: ks := by
  induction ks generalizing ls with
  | nil => exact (subset_nil.1 hsub).symm ▸ nil_prefix
  | cons k ks ih =>
    obtain - | ⟨l, ls⟩ := ls
    · exact nil_prefix
    · obtain ⟨hl, hls⟩ := pairwise_cons.1 hls
      obtain ⟨hk, hks'⟩ := pairwise_cons.1 hks
      obtain ⟨hmem, hsub⟩ := cons_subset.1 hsub
      have hfirst : l = k := by
        by_contra hne
        have hlt : k < l := hk l ((mem_cons.1 hmem).resolve_left hne)
        obtain rfl | hmem' := mem_cons.1 (hlower k (by simp) l (by simp) hlt)
        · exact hne rfl
        · exact (hl k hmem').asymm hlt
      subst hfirst
      refine prefix_cons_inj _ |>.2 (ih hls hks' (fun a ha => ?_) fun a ha b hb hab => ?_)
      · exact (mem_cons.1 (hsub ha)).resolve_left (hl a ha).ne'
      · refine (mem_cons.1 (hlower a ?_ b ?_ hab)).resolve_left (hk a ha).ne'
        · exact mem_cons_of_mem l ha
        · exact mem_cons_of_mem l hb

lemma mem_keys (t : Table κ ν) : k ∈ t.keys ↔ (t.get k).isSome := by
  rw [keys, List.mem_map, isSome_iff_exists]
  constructor
  · rintro ⟨⟨k, v⟩, hmem, rfl⟩
    exact ⟨v, mem_entries.1 hmem⟩
  · rintro ⟨v, hv⟩
    exact ⟨(k, v), mem_entries.2 hv, rfl⟩

lemma mem_keys_set (t : Table κ ν) (v : ν) : l ∈ (t.set k v).keys ↔ l = k ∨ l ∈ t.keys := by
  rw [mem_keys, mem_keys, get_set]
  split_ifs with h <;> simp [h]

lemma keys_nodup (t : Table κ ν) : t.keys.Nodup := t.keys_sorted.imp fun h => h.ne

@[simp] lemma length_keys (t : Table κ ν) : t.keys.length = t.size := length_map _

lemma size_le_length {l : List κ} (h : t.keys ⊆ l) : t.size ≤ l.length :=
  length_keys t ▸ (subperm_of_subset t.keys_nodup h).length_le

lemma ext_get {t t' : Table κ ν} (h : ∀ k, t.get k = t'.get k) : t = t' := by
  have hentries : t.entries = t'.entries := by
    refine List.Perm.eq_of_pairwise ?_ t.sorted t'.sorted ?_
    · intro a b _ _ hab hba
      exact absurd (hab.trans hba) (lt_irrefl _)
    · refine (perm_ext_iff_of_nodup ?_ ?_).2 fun x => ?_
      · exact t.sorted.imp fun hlt heq => hlt.ne (congrArg Prod.fst heq)
      · exact t'.sorted.imp fun hlt heq => hlt.ne (congrArg Prod.fst heq)
      · obtain ⟨k, v⟩ := x
        rw [mem_entries, mem_entries, h]
  obtain ⟨es, hes⟩ := t
  obtain ⟨es', hes'⟩ := t'
  obtain rfl : es = es' := hentries
  rfl

end Table

end Epistle.Lib
