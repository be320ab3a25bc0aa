import Mathlib.Algebra.Order.Ring.Int
import Mathlib.Data.List.Basic

/-!
# Programs over durable state

A program takes steps on a durable state. At each of its steps the process may be stopped, or the
step may report an error, in both cases with a part of its write on the disk. A list of faults says
what happens at each step in turn; no fault is the step as it is meant, and so is every step behind
the end of the list.
-/

namespace Epistle.Lib

/-- What goes wrong at a step. -/
inductive Fault
  | stop (reached : ℕ)
  | fail (reached : ℕ)
  deriving DecidableEq, Repr

/-- How a program ends. -/
inductive Outcome (ε α : Type)
  | done (a : α)
  | failed (e : ε)
  | stopped
  deriving DecidableEq, Repr

/-- A program in steps, each of which may fail or be stopped by a fault. -/
def Prog (σ ε α : Type) : Type :=
  List (Option Fault) → σ → Outcome ε α × List (Option Fault) × σ

lemma exists_of_done {σ ε α : Type} {r : Outcome ε α × List (Option Fault) × σ} {a : α}
    (h : r.1 = .done a) : ∃ rest s, r = (.done a, rest, s) := ⟨r.2.1, r.2.2, Prod.ext h rfl⟩

namespace Prog

variable {σ ε α β : Type}

def ret (a : α) : Prog σ ε α := fun faults s => (.done a, faults, s)

def andThen (m : Prog σ ε α) (f : α → Prog σ ε β) : Prog σ ε β := fun faults s =>
  match m faults s with
  | (.done a, faults, s) => f a faults s
  | (.failed e, faults, s) => (.failed e, faults, s)
  | (.stopped, faults, s) => (.stopped, faults, s)

instance : Monad (Prog σ ε) where
  pure := ret
  bind := andThen

def fail (e : ε) : Prog σ ε α := fun faults s => (.failed e, faults, s)

def attempt (m : Prog σ ε α) : Prog σ ε (Except ε α) := fun faults s =>
  match m faults s with
  | (.done a, faults, s) => (.done (.ok a), faults, s)
  | (.failed e, faults, s) => (.done (.error e), faults, s)
  | (.stopped, faults, s) => (.stopped, faults, s)

/-- A step: `full` is what it does, `part n` the state with only the first `n` units of its write,
`e` the error it reports. -/
def step (full : σ → α × σ) (part : ℕ → σ → σ) (e : ε) : Prog σ ε α
  | [], s => (.done (full s).1, [], (full s).2)
  | none :: faults, s => (.done (full s).1, faults, (full s).2)
  | some (.stop n) :: faults, s => (.stopped, faults, part n s)
  | some (.fail n) :: faults, s => (.failed e, faults, part n s)

def read (f : σ → α) (e : ε) : Prog σ ε α := step (fun s => (f s, s)) (fun _ s => s) e

/-- A write that is on the disk whole or not at all, whatever the step reports. -/
def replace (f : σ → σ) (e : ε) : Prog σ ε Unit :=
  step (fun s => ((), f s)) (fun n s => if n = 0 then s else f s) e

def ofExcept : Except ε α → Prog σ ε α
  | .ok a => ret a
  | .error e => fail e

@[simp] lemma ret_bind (a : α) (f : α → Prog σ ε β) : (ret a >>= f : Prog σ ε β) = f a := rfl

@[simp] lemma pure_bind (a : α) (f : α → Prog σ ε β) : (pure a >>= f : Prog σ ε β) = f a := rfl

end Prog

/-! ## Triples -/

open Prog

section Triples

variable {σ ε α β : Type} {P P' : σ → Prop} {Q : α → σ → Prop} {R : β → σ → Prop}
  {E E' : ε → σ → Prop} {C : σ → Prop}

def Ends (Q : α → σ → Prop) (E : ε → σ → Prop) (C : σ → Prop) :
    Outcome ε α × List (Option Fault) × σ → Prop
  | (.done a, _, s) => Q a s
  | (.failed e, _, s) => E e s
  | (.stopped, _, s) => C s

/-- From a state in `P` the program ends in `Q` with its result, in `E` with an error, or is
stopped in `C`. -/
def Triple (P : σ → Prop) (m : Prog σ ε α) (Q : α → σ → Prop) (E : ε → σ → Prop) (C : σ → Prop) :
    Prop :=
  ∀ faults s, P s → Ends Q E C (m faults s)

lemma Ends.imp {Q' : α → σ → Prop} {C' : σ → Prop} {r : Outcome ε α × List (Option Fault) × σ}
    (h : Ends Q E C r) (hQ : ∀ a s, Q a s → Q' a s) (hE : ∀ e s, E e s → E' e s)
    (hC : ∀ s, C s → C' s) : Ends Q' E' C' r := by
  obtain ⟨o, faults, s⟩ := r
  cases o with
  | done a => exact hQ a s h
  | failed e => exact hE e s h
  | stopped => exact hC s h

namespace Triple

variable {m : Prog σ ε α} {e : ε}

lemma weaken {Q' : α → σ → Prop} {C' : σ → Prop} (h : Triple P m Q E C) (hP : ∀ s, P' s → P s)
    (hQ : ∀ a s, Q a s → Q' a s) (hE : ∀ e s, E e s → E' e s) (hC : ∀ s, C s → C' s) :
    Triple P' m Q' E' C' :=
  fun faults s hs => (h faults s (hP s hs)).imp hQ hE hC

lemma pre (h : Triple P m Q E C) (hP : ∀ s, P' s → P s) :
    Triple P' m Q E C :=
  h.weaken hP (fun _ _ h => h) (fun _ _ h => h) fun _ h => h

lemma post {Q' : α → σ → Prop} (h : Triple P m Q E C) (hQ : ∀ a s, Q a s → Q' a s) :
    Triple P m Q' E C :=
  h.weaken (fun _ h => h) hQ (fun _ _ h => h) fun _ h => h

lemma assuming {p : Prop} (hp : ∀ s, P s → p) (h : p → Triple P m Q E C) :
    Triple P m Q E C :=
  fun faults s hs => h (hp s hs) faults s hs

lemma ofState (h : ∀ s, P s → Triple (· = s) m Q E C) : Triple P m Q E C :=
  fun faults s hs => h s hs faults s rfl

lemma pure {a : α} (h : ∀ s, P s → Q a s) : Triple P (pure a : Prog σ ε α) Q E C :=
  fun _ s hs => h s hs

lemma fail (h : ∀ s, P s → E e s) : Triple P (fail e : Prog σ ε α) Q E C :=
  fun _ s hs => h s hs

lemma bind {m : Prog σ ε β} {f : β → Prog σ ε α} (hm : Triple P m R E C)
    (hf : ∀ b, Triple (R b) (f b) Q E C) : Triple P (m >>= f) Q E C := by
  intro faults s hs
  have hend := hm faults s hs
  change Ends Q E C (andThen m f faults s)
  rw [andThen]
  generalize m faults s = r at hend
  obtain ⟨o, faults, s⟩ := r
  cases o with
  | done b => exact hf b faults s hend
  | failed e => exact hend
  | stopped => exact hend

lemma attempt {R : Except ε α → σ → Prop}
    (hm : Triple P m (fun a => R (.ok a)) (fun e => R (.error e)) C) :
    Triple P m.attempt R E C := by
  intro faults s hs
  have hend := hm faults s hs
  rw [Prog.attempt]
  generalize m faults s = r at hend
  obtain ⟨o, faults, s⟩ := r
  cases o <;> exact hend

lemma step {full : σ → α × σ} {part : ℕ → σ → σ} {e : ε}
    (hfull : ∀ s, P s → Q (full s).1 (full s).2)
    (hpart : ∀ n s, P s → E e (part n s) ∧ C (part n s)) :
    Triple P (step full part e) Q E C := by
  intro faults s hs
  match faults with
  | [] | none :: _ => exact hfull s hs
  | some (.stop n) :: _ => exact (hpart n s hs).2
  | some (.fail n) :: _ => exact (hpart n s hs).1

lemma read {f : σ → α} (hfull : ∀ s, P s → Q (f s) s) (hpart : ∀ s, P s → E e s ∧ C s) :
    Triple P (read f e) Q E C :=
  .step hfull fun _ => hpart

lemma readThen {f : σ → β} {g : β → Prog σ ε α} (hpart : ∀ s, P s → E e s ∧ C s)
    (hg : ∀ b, Triple (fun s => P s ∧ b = f s) (g b) Q E C) :
    Triple P (Prog.read f e >>= g) Q E C :=
  .bind (.read (fun _ hs => ⟨hs, rfl⟩) hpart) hg

lemma replace {f : σ → σ} {Q : Unit → σ → Prop} (hfull : ∀ s, P s → Q () (f s))
    (hbefore : ∀ s, P s → E e s ∧ C s) (hafter : ∀ s, P s → E e (f s) ∧ C (f s)) :
    Triple P (replace f e) Q E C := by
  refine .step hfull fun n s hs => ?_
  split_ifs
  · exact hbefore s hs
  · exact hafter s hs

lemma foldlM {f : β → α → Prog σ ε β} {I : List α → β → σ → Prop}
    (h : ∀ a rest b, Triple (I (a :: rest) b) (f b a) (I rest) E C) (l : List α) (b : β) :
    Triple (I l b) (l.foldlM f b) (I []) E C := by
  induction l generalizing b with
  | nil => exact .pure fun s hs => hs
  | cons a l ih => exact .bind (h a l b) ih

end Triple

lemma bind_congr {m : Prog σ ε β} {f g : β → Prog σ ε α}
    (h : Triple (fun _ => True) m (fun b _ => f b = g b) (fun _ _ => True) fun _ => True) :
    m >>= f = m >>= g := by
  funext faults s
  have hend := h faults s trivial
  change andThen m f faults s = andThen m g faults s
  rw [andThen, andThen]
  generalize m faults s = r at hend
  obtain ⟨o, faults, s⟩ := r
  cases o with
  | done b => exact congrFun (congrFun hend faults) s
  | failed e | stopped => rfl

end Triples

/-! ## Runs -/

section Runs

variable {σ ε α : Type}

def runs (ms : List (Prog σ ε α × List (Option Fault))) (s : σ) : σ :=
  ms.foldl (fun s m => (m.1 m.2 s).2.2) s

lemma runs_preserve {Inv : σ → Prop} (ms : List (Prog σ ε α × List (Option Fault)))
    (h : ∀ m ∈ ms, Triple Inv m.1 (fun _ => Inv) (fun _ => Inv) Inv) {s : σ} (hs : Inv s) :
    Inv (runs ms s) := by
  induction ms generalizing s with
  | nil => exact hs
  | cons m ms ih =>
    obtain ⟨hm, hms⟩ := List.forall_mem_cons.1 h
    refine ih hms ?_
    have hend := hm m.2 s hs
    change Inv (m.1 m.2 s).2.2
    generalize m.1 m.2 s = r at hend
    obtain ⟨o, rest, s⟩ := r
    cases o <;> exact hend

end Runs

end Epistle.Lib
