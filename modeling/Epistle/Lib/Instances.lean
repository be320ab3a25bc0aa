import Mathlib.Algebra.Order.Group.Nat
import Mathlib.Algebra.Order.Ring.Int
import Mathlib.Data.List.Count
import Mathlib.Data.List.Perm.Subperm

/-!
# Instances of names, taken in order

A list of items that have names, and a list of names that asks for them: the first time a name is
asked for it takes the first item of that name, the next time the second, and a name that has no
item left takes nothing.
-/

namespace Epistle.Lib.Instances

open List

variable {α κ : Type*} [DecidableEq κ] (key : α → κ)

def pick (items : List α) : (κ → ℕ) → List κ → List α
  | _, [] => []
  | taken, name :: names =>
      match (items.filter (key · = name))[taken name]? with
      | some a => a :: pick items (Function.update taken name (taken name + 1)) names
      | none => pick items taken names

variable {key} {items : List α} {taken : κ → ℕ}

variable {names : List κ}

lemma pick_cons_some {name : κ} {a : α}
    (h : (items.filter (key · = name))[taken name]? = some a) :
    pick key items taken (name :: names) =
      a :: pick key items (Function.update taken name (taken name + 1)) names := by
  rw [pick, h]

lemma pick_cons_none {name : κ} (h : (items.filter (key · = name))[taken name]? = none) :
    pick key items taken (name :: names) = pick key items taken names := by
  rw [pick, h]

lemma pick_eq_nil (h : ∀ name ∈ names, (items.filter (key · = name)).length ≤ taken name) :
    pick key items taken names = [] := by
  induction names with
  | nil => rfl
  | cons name names ih =>
    obtain ⟨hname, hnames⟩ := forall_mem_cons.1 h
    rw [pick_cons_none (List.getElem?_eq_none hname), ih hnames]

lemma pick_rest {done rest : List α} {extra : List κ} (hitems : items = done ++ rest)
    (htaken : ∀ name, taken name = (done.filter (key · = name)).length) :
    pick key items taken (rest.map key ++ extra) = rest := by
  induction rest generalizing done taken with
  | nil =>
    refine pick_eq_nil fun name _ => ?_
    simp [hitems, htaken]
  | cons a rest ih =>
    have hget : (items.filter (key · = key a))[taken (key a)]? = some a := by
      rw [hitems, filter_append, htaken, List.getElem?_append_right le_rfl]
      simp
    rw [map_cons, cons_append, pick_cons_some hget]
    have hitems' : items = done ++ [a] ++ rest := by simp [hitems]
    refine congrArg _ (ih hitems' fun name => ?_)
    by_cases hname : name = key a
    · subst hname
      simp [htaken]
    · simp [Function.update_of_ne hname, htaken, Ne.symm hname]

lemma pick_filter {p : κ → Bool} (h : ∀ name ∈ names, p name) :
    pick key (items.filter (p <| key ·)) taken names = pick key items taken names := by
  induction names generalizing taken with
  | nil => rfl
  | cons name names ih =>
    obtain ⟨hname, hnames⟩ := forall_mem_cons.1 h
    have hsame : (items.filter (p <| key ·)).filter (key · = name) =
        items.filter (key · = name) := by
      rw [filter_filter]
      refine filter_congr fun a _ => ?_
      by_cases ha : key a = name
      · simp [ha, hname]
      · simp [ha]
    rw [pick, pick, hsame]
    split
    · rw [ih hnames]
    · exact ih hnames

lemma pick_covered {p : κ → Bool} {extra : List κ} (hextra : ∀ name ∈ extra, p name) :
    pick key items (fun _ => 0) ((items.filter (p <| key ·)).map key ++ extra) =
      items.filter (p <| key ·) := by
  rw [← pick_filter (p := p)]
  · exact pick_rest (nil_append _).symm fun _ => rfl
  · intro name hname
    obtain h | h := mem_append.1 hname
    · obtain ⟨a, ha, rfl⟩ := List.mem_map.1 h
      exact (mem_filter.1 ha).2
    · exact hextra name h

/-! ## Counting -/

end Epistle.Lib.Instances
