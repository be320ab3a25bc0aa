import Mathlib.Algebra.Order.Ring.Int

/-!
# Postconditions of computations with a state that may end early

A computation in `ExceptT ε (StateM σ)` runs from a state, and either goes on with a result or ends
with a value of `ε`; the state is kept either way. `Ensures x s post ends` says where a run of `x`
from `s` leads: to a result and a state of which `post` holds, or to an end and a state of which
`ends` holds.
-/

namespace Epistle.Lib

variable {ε σ α β : Type}

def Ensures (x : ExceptT ε (StateM σ) α) (s : σ) (post : α → σ → Prop) (ends : ε → σ → Prop) :
    Prop :=
  match x.run.run s with
  | (.ok a, s') => post a s'
  | (.error e, s') => ends e s'

variable {s : σ} {post post' : α → σ → Prop} {ends ends' : ε → σ → Prop}

lemma Ensures.mono {x : ExceptT ε (StateM σ) α} (h : Ensures x s post ends)
    (hpost : ∀ a s', post a s' → post' a s') (hends : ∀ e s', ends e s' → ends' e s') :
    Ensures x s post' ends' := by
  unfold Ensures at h ⊢
  split at h
  · exact hpost _ _ h
  · exact hends _ _ h

lemma ensures_pure (a : α) :
    Ensures (pure a : ExceptT ε (StateM σ) α) s post ends ↔ post a s := Iff.rfl

lemma ensures_throw (e : ε) :
    Ensures (throw e : ExceptT ε (StateM σ) α) s post ends ↔ ends e s := Iff.rfl

lemma ensures_bind {x : ExceptT ε (StateM σ) β} {f : β → ExceptT ε (StateM σ) α} :
    Ensures (x >>= f) s post ends ↔ Ensures x s (fun b s' => Ensures (f b) s' post ends) ends := by
  have hrun : (x >>= f).run.run s =
      (ExceptT.bindCont f (x.run.run s).1).run (x.run.run s).2 := rfl
  unfold Ensures
  rw [hrun]
  obtain ⟨_ | b, s'⟩ := x.run.run s <;> rfl

lemma Ensures.bind {x : ExceptT ε (StateM σ) β} {f : β → ExceptT ε (StateM σ) α}
    {mid : β → σ → Prop} (hx : Ensures x s mid ends') (hends : ∀ e s', ends' e s' → ends e s')
    (hf : ∀ b s', mid b s' → Ensures (f b) s' post ends) : Ensures (x >>= f) s post ends :=
  ensures_bind.2 (hx.mono hf hends)

lemma Ensures.ite {x y : ExceptT ε (StateM σ) α} {c : Prop} [Decidable c]
    (hx : c → Ensures x s post ends) (hy : ¬ c → Ensures y s post ends) :
    Ensures (if c then x else y) s post ends := by
  split_ifs with h
  · exact hx h
  · exact hy h

lemma ensures_get {post : σ → σ → Prop} :
    Ensures (get : ExceptT ε (StateM σ) σ) s post ends ↔ post s s := Iff.rfl

lemma ensures_set {post : PUnit → σ → Prop} (s' : σ) :
    Ensures (set s' : ExceptT ε (StateM σ) PUnit) s post ends ↔ post ⟨⟩ s' := Iff.rfl

lemma ensures_modify {post : PUnit → σ → Prop} (f : σ → σ) :
    Ensures (modify f : ExceptT ε (StateM σ) PUnit) s post ends ↔ post ⟨⟩ (f s) := Iff.rfl

lemma ensures_lift (x : StateM σ α) :
    Ensures (liftM x : ExceptT ε (StateM σ) α) s post ends ↔ post (x.run s).1 (x.run s).2 := Iff.rfl

lemma ensures_except (x : Except ε α) :
    Ensures (liftM x : ExceptT ε (StateM σ) α) s post ends ↔
      (∀ a, x = .ok a → post a s) ∧ ∀ e, x = .error e → ends e s := by
  cases x with
  | ok a =>
    change post a s ↔ _
    simp
  | error e =>
    change ends e s ↔ _
    simp

/-! ## Relations every step keeps -/

def Keeps (R : σ → σ → Prop) (x : ExceptT ε (StateM σ) α) : Prop :=
  ∀ s, Ensures x s (fun _ => R s) fun _ => R s

section Keeps

variable {R : σ → σ → Prop}

lemma keeps_pure (hrefl : ∀ s, R s s) (a : α) : Keeps R (pure a : ExceptT ε (StateM σ) α) :=
  fun s => (ensures_pure a).2 (hrefl s)

lemma keeps_except (hrefl : ∀ s, R s s) (x : Except ε α) :
    Keeps R (liftM x : ExceptT ε (StateM σ) α) :=
  fun s => (ensures_except x).2 ⟨fun _ _ => hrefl s, fun _ _ => hrefl s⟩

lemma Keeps.bind (htrans : ∀ s₁ s₂ s₃, R s₁ s₂ → R s₂ s₃ → R s₁ s₃)
    {x : ExceptT ε (StateM σ) β} {f : β → ExceptT ε (StateM σ) α} (hx : Keeps R x)
    (hf : ∀ b, Keeps R (f b)) : Keeps R (x >>= f) := by
  intro s
  refine (hx s).bind (fun _ _ h => h) fun b s' h => ?_
  exact (hf b s').mono (fun _ s'' h' => htrans s s' s'' h h') fun _ s'' h' => htrans s s' s'' h h'

lemma Keeps.ite {x y : ExceptT ε (StateM σ) α} {c : Prop} [Decidable c] (hx : Keeps R x)
    (hy : Keeps R y) : Keeps R (if c then x else y) :=
  fun s => .ite (fun _ => hx s) fun _ => hy s

end Keeps

end Epistle.Lib
