import Mathlib.Algebra.BigOperators.Group.List.Basic
import Mathlib.Algebra.Order.Ring.Int

/-!
# Fixed-window counters

A counter that grants units up to a limit per window, for one subject. A window starts with the
first units granted after the one before it is over, and lasts `w` ticks. Units can be given
back, by the time they were granted at. A limit of `0` admits everything and charges nothing.

What was granted is also kept in a `Ledger`, read off the calls and their answers alone: the
units granted under a limit and not given back. The counter of a window and the ledger's sum
over the window agree as long as only granted units are given back.
-/

namespace Epistle.Lib

open List Option

/-- A window and the units charged to it. -/
structure Window where
  start : ℕ
  used : ℕ
  deriving DecidableEq, Repr

inductive WindowOp
  | charge (count limit now : ℕ)
  | ask (count limit now : ℕ)
  | refund (count time : ℕ)
  deriving DecidableEq, Repr

def WindowOp.now? : WindowOp → Option ℕ
  | .charge _ _ now => some now
  | .ask _ _ now => some now
  | .refund _ _ => none

def WindowOp.clock (t : ℕ) (op : WindowOp) : ℕ := op.now?.getD t

lemma WindowOp.clock_le {t : ℕ} {op : WindowOp} {ops : List WindowOp}
    (h : (t :: (op :: ops).filterMap now?).Pairwise (· ≤ ·)) :
    t ≤ op.clock t ∧ (op.clock t :: ops.filterMap now?).Pairwise (· ≤ ·) := by
  rw [clock]
  cases hop : op.now? with
  | none =>
    rw [filterMap_cons_none hop] at h
    exact ⟨le_refl t, h⟩
  | some now =>
    rw [filterMap_cons_some hop] at h
    exact ⟨rel_of_pairwise_cons h (mem_cons_self ..), h.of_cons⟩

abbrev Counter := Option Window

namespace Counter

def used (w now : ℕ) : Counter → ℕ
  | some v => if now - v.start < w then v.used else 0
  | none => 0

def charged (w count now : ℕ) : Counter → Window
  | some v => if now - v.start < w then { v with used := v.used + count } else ⟨now, count⟩
  | none => ⟨now, count⟩

def credited (w count time : ℕ) (c : Counter) : Counter :=
  c.map fun v =>
    if v.start ≤ time ∧ time - v.start < w then { v with used := v.used - count } else v

def call (w : ℕ) (c : Counter) : WindowOp → Option Bool × Counter
  | .charge count limit now =>
      if limit = 0 ∨ count = 0 then (some true, c)
      else if c.used w now + count ≤ limit then (some true, some (c.charged w count now))
      else (some false, c)
  | .ask count limit now =>
      (some (decide (limit = 0 ∨ count = 0 ∨ c.used w now + count ≤ limit)), c)
  | .refund count time => (none, c.credited w count time)

def history (w : ℕ) : Counter → List WindowOp → List (WindowOp × Option Bool)
  | _, [] => []
  | c, op :: ops => (op, (c.call w op).1) :: history w (c.call w op).2 ops

lemma charged_used (w count now : ℕ) (c : Counter) :
    (c.charged w count now).used = c.used w now + count := by
  cases c with
  | none => simp [charged, used]
  | some v =>
    simp only [charged, used]
    split_ifs <;> simp

def Over (w now : ℕ) (c : Counter) : Prop := ∀ v ∈ c, w ≤ now - v.start

variable {w now : ℕ} {c : Counter}

lemma Over.mono {now' : ℕ} (h : c.Over w now) (hle : now ≤ now') : c.Over w now' := by
  intro v hv
  have := h v hv
  omega

lemma Over.used (h : c.Over w now) : c.used w now = 0 := by
  cases c with
  | none => rfl
  | some v => exact if_neg (Nat.not_lt_of_le (h v rfl))

lemma Over.charged (h : c.Over w now) (count : ℕ) : c.charged w count now = ⟨now, count⟩ := by
  cases c with
  | none => rfl
  | some v => exact if_neg (Nat.not_lt_of_le (h v rfl))

lemma credited_start (w count time : ℕ) (c : Counter) :
    (c.credited w count time).map Window.start = c.map Window.start := by
  cases c with
  | none => rfl
  | some v =>
    simp only [credited, map_some]
    split_ifs <;> rfl

lemma Over.credited (h : c.Over w now) (count time : ℕ) :
    (c.credited w count time).Over w now := by
  intro v hv
  have hstart := credited_start w count time c
  rw [mem_def.1 hv] at hstart
  obtain ⟨v', hv', heq⟩ := map_eq_some_iff.1 hstart.symm
  rw [← heq]
  exact h v' hv'

end Counter

/-! ## What was granted -/

def unitsIn (w s : ℕ) (charges : List (ℕ × ℕ)) : ℕ :=
  ((charges.filter fun x => s ≤ x.1 ∧ x.1 - s < w).map Prod.snd).sum

lemma unitsIn_cons (w s : ℕ) (x : ℕ × ℕ) (charges : List (ℕ × ℕ)) :
    unitsIn w s (x :: charges) =
      (if s ≤ x.1 ∧ x.1 - s < w then x.2 else 0) + unitsIn w s charges := by
  unfold unitsIn
  rw [filter_cons]
  split_ifs <;> simp_all

lemma unitsIn_erase {w s : ℕ} {x : ℕ × ℕ} {charges : List (ℕ × ℕ)} (h : x ∈ charges) :
    unitsIn w s charges =
      (if s ≤ x.1 ∧ x.1 - s < w then x.2 else 0) + unitsIn w s (charges.erase x) := by
  rw [← unitsIn_cons]
  exact (((perm_cons_erase h).filter _).map _).sum_eq

lemma unitsIn_eq_zero {w s : ℕ} {charges : List (ℕ × ℕ)} (h : ∀ x ∈ charges, x.1 < s) :
    unitsIn w s charges = 0 := by
  have hnil : (charges.filter fun x => s ≤ x.1 ∧ x.1 - s < w) = [] := by
    rw [filter_eq_nil_iff]
    intro x hx
    have := h x hx
    simp only [decide_eq_true_eq, not_and]
    omega
  rw [unitsIn, hnil]
  rfl

/-- The start of the last window, and the charges not given back, each with its time. -/
structure Ledger where
  start : Option ℕ
  charges : List (ℕ × ℕ)

namespace Ledger

def empty : Ledger := ⟨none, []⟩

/-- Enter a call with its answer. -/
def step (w : ℕ) (l : Ledger) : WindowOp × Option Bool → Ledger
  | (.charge count limit now, some true) =>
      if limit = 0 ∨ count = 0 then l
      else
        { start := if l.start.any fun s => now - s < w then l.start else some now
          charges := (now, count) :: l.charges }
  | (.refund count time, _) => { l with charges := l.charges.erase (time, count) }
  | _ => l

def net (w : ℕ) (l : Ledger) : ℕ := l.start.elim 0 fun s => unitsIn w s l.charges

end Ledger

namespace Counter

def Along (P : Counter → Ledger → WindowOp → Prop) (w : ℕ) :
    Counter → Ledger → List WindowOp → Prop
  | _, _, [] => True
  | c, l, op :: ops =>
      P c l op ∧ Along P w (c.call w op).2 (l.step w (op, (c.call w op).1)) ops

instance instDecidableAlong {P : Counter → Ledger → WindowOp → Prop}
    [∀ c l op, Decidable (P c l op)] (w : ℕ) : ∀ c l ops, Decidable (Along P w c l ops)
  | _, _, [] => inferInstanceAs (Decidable True)
  | c, l, op :: ops =>
      @instDecidableAnd _ _ inferInstance
        (instDecidableAlong w (c.call w op).2 (l.step w (op, (c.call w op).1)) ops)

/-- Only what was charged, and not given back yet, is given back. -/
def Repays (_ : Counter) (l : Ledger) : WindowOp → Prop
  | .refund count time => (time, count) ∈ l.charges
  | _ => True

instance (c : Counter) (l : Ledger) : ∀ op, Decidable (Repays c l op)
  | .refund .. => inferInstanceAs (Decidable (_ ∈ _))
  | .charge .. => inferInstanceAs (Decidable True)
  | .ask .. => inferInstanceAs (Decidable True)

def NetWithin (w : ℕ) (c : Counter) (l : Ledger) : WindowOp → Prop
  | .charge count limit now => limit ≠ 0 → count ≠ 0 →
      (c.call w (.charge count limit now)).1 = some true →
        (l.step w (.charge count limit now, some true)).net w ≤ limit
  | _ => True

/-! ## Counter and ledger -/

/-- The counter counts what the ledger has in the window; the clock stands at `t`. -/
structure Agrees (w t : ℕ) (c : Counter) (l : Ledger) : Prop where
  start : l.start = c.map Window.start
  started : ∀ v ∈ c, v.start ≤ t
  used : ∀ v ∈ c, v.used = unitsIn w v.start l.charges
  /-- No charge is later than the window: the last one took them all, or they are older. -/
  before : ∀ v ∈ c, ∀ x ∈ l.charges, x.1 < v.start + w
  charges : c = none → l.charges = []

lemma agrees_empty (w : ℕ) : Agrees w 0 none .empty :=
  ⟨rfl, by simp, by simp, by simp, fun _ => rfl⟩

variable {w t : ℕ} {c : Counter} {l : Ledger}

lemma Agrees.mono (h : Agrees w t c l) {t' : ℕ} (hle : t ≤ t') : Agrees w t' c l :=
  { h with started := fun v hv => le_trans (h.started v hv) hle }

lemma Agrees.charge (hw : 0 < w) (h : Agrees w t c l) {count limit now : ℕ} (hnow : t ≤ now)
    (hlimit : ¬ (limit = 0 ∨ count = 0)) :
    Agrees w now (some (c.charged w count now))
      (l.step w (.charge count limit now, some true)) := by
  have hstep : l.step w (.charge count limit now, some true) =
      ⟨if l.start.any fun s => now - s < w then l.start else some now,
        (now, count) :: l.charges⟩ := if_neg hlimit
  rw [hstep, h.start]
  -- The window restarts: whatever was charged before is older than `now`.
  have hfresh : (∀ x ∈ l.charges, x.1 < now) →
      Agrees w now (some ⟨now, count⟩) ⟨some now, (now, count) :: l.charges⟩ := by
    intro hold
    refine ⟨rfl, ?_, ?_, ?_, by simp⟩
    · rintro v ⟨⟩
      exact le_refl now
    · rintro v ⟨⟩
      simp [unitsIn_cons, unitsIn_eq_zero hold, hw]
    · rintro v ⟨⟩ x hx
      rcases mem_cons.1 hx with rfl | hx
      · exact Nat.lt_add_of_pos_right hw
      · have := hold x hx
        dsimp only
        omega
  cases c with
  | none => simpa [charged] using hfresh (by simp [h.charges rfl])
  | some v =>
    have hstart := h.started v rfl
    have hbefore := h.before v rfl
    by_cases hrun : now - v.start < w
    · simp only [charged, hrun, if_true, map_some, any_some, decide_true]
      refine ⟨rfl, ?_, ?_, ?_, by simp⟩
      · rintro v' ⟨⟩
        exact le_trans hstart hnow
      · rintro v' ⟨⟩
        have hin : v.start ≤ now ∧ now - v.start < w := ⟨le_trans hstart hnow, hrun⟩
        rw [unitsIn_cons, if_pos hin, h.used v rfl, add_comm]
      · rintro v' ⟨⟩ x hx
        rcases mem_cons.1 hx with rfl | hx
        · dsimp only
          omega
        · exact hbefore x hx
    · have hold : ∀ x ∈ l.charges, x.1 < now := fun x hx => by
        have := hbefore x hx
        omega
      simpa [charged, hrun] using hfresh hold

lemma Agrees.refund (h : Agrees w t c l) {count time : ℕ} (hmem : (time, count) ∈ l.charges) :
    Agrees w t (c.credited w count time) (l.step w (.refund count time, none)) := by
  cases c with
  | none => simp [h.charges rfl] at hmem
  | some v =>
    have hsum := h.used v rfl
    rw [unitsIn_erase hmem] at hsum
    have hbefore : ∀ x ∈ l.charges.erase (time, count), x.1 < v.start + w :=
      fun x hx => h.before v rfl x (mem_of_mem_erase hx)
    simp only [credited, map_some]
    split_ifs with hin
    · rw [if_pos hin] at hsum
      refine ⟨h.start, ?_, ?_, ?_, by simp⟩
      · rintro v' ⟨⟩
        exact h.started v rfl
      · rintro v' ⟨⟩
        show v.used - count = unitsIn w v.start (l.charges.erase (time, count))
        omega
      · rintro v' ⟨⟩
        exact hbefore
    · rw [if_neg hin, zero_add] at hsum
      refine ⟨h.start, ?_, ?_, ?_, by simp⟩
      · rintro v' ⟨⟩
        exact h.started v rfl
      · rintro v' ⟨⟩
        exact hsum
      · rintro v' ⟨⟩
        exact hbefore

lemma Agrees.call (hw : 0 < w) (h : Agrees w t c l) {op : WindowOp}
    (hclock : t ≤ op.clock t) (hrepays : Repays c l op) :
    Agrees w (op.clock t) (c.call w op).2 (l.step w (op, (c.call w op).1)) := by
  cases op with
  | charge count limit now =>
    have hnow : t ≤ now := hclock
    simp only [Counter.call]
    split_ifs with hfree hfits
    · have hsame : l.step w (.charge count limit now, some true) = l := if_pos hfree
      rw [hsame]
      exact h.mono hnow
    · exact h.charge hw hnow hfree
    · exact h.mono hnow
  | ask count limit now => exact h.mono hclock
  | refund count time => exact h.refund hrepays

lemma Agrees.netWithin (hw : 0 < w) (h : Agrees w t c l) {op : WindowOp}
    (hclock : t ≤ op.clock t) : NetWithin w c l op := by
  cases op with
  | ask | refund => trivial
  | charge count limit now =>
  intro hlimit hcount hgrant
  have hfree : ¬ (limit = 0 ∨ count = 0) := not_or.2 ⟨hlimit, hcount⟩
  have hnow : t ≤ now := hclock
  have hnext := h.charge hw hnow hfree
  have hfits : c.used w now + count ≤ limit := by
    by_contra hover
    simp [Counter.call, hfree, hover] at hgrant
  have hnet := hnext.used _ rfl
  rw [Ledger.net, hnext.start]
  show unitsIn w (c.charged w count now).start _ ≤ limit
  rw [← hnet, charged_used]
  exact hfits

lemma along_net_le (hw : 0 < w) (h : Agrees w t c l) {ops : List WindowOp}
    (hclock : (t :: ops.filterMap WindowOp.now?).Pairwise (· ≤ ·))
    (hrepays : Along Repays w c l ops) : Along (NetWithin w) w c l ops := by
  induction ops generalizing t c l with
  | nil => trivial
  | cons op ops ih =>
    obtain ⟨hle, hnext⟩ := WindowOp.clock_le hclock
    exact ⟨h.netWithin hw hle, ih (h.call hw hle hrepays.1) hnext hrepays.2⟩

end Counter

end Epistle.Lib
