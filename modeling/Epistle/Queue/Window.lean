import Epistle.Lib.Word
import Mathlib.Tactic.Common

/-!
# The give-up window

How much of its window a queued message has used: its age, less the time an operator held it and
the time its recipient waited for a warm-up cap. Each of the two has a stop-watch of its own
(`Envelope::hold` and `release`, `RecipientState::wait_for_cap` and `end_cap_wait`), and both are
taken from the age, so that a second on both is taken twice.

* `Entry.windowUsed_iff`: the window is right exactly if no second was both held and waited, or all
  of them were held or waited.
-/

namespace Epistle.Queue.Window

open Lib

/-- The hold of an entry: since when it is on hold, and the seconds of earlier holds. -/
structure Envelope where
  held : Option ℕ := none
  heldSecs : ℕ := 0

/-- The wait of a recipient: for the cap of which group, since when, and the seconds of earlier
waits. -/
structure RecipientState where
  warmup : Option String := none
  nextAttempt : ℕ := 0
  cappedAt : ℕ := 0
  waited : ℕ := 0

/-- An operator holds a message. -/
def Envelope.hold (e : Envelope) (now : ℕ) : Envelope :=
  if e.held.isNone then { e with held := some now } else e

/-- The message goes on. -/
def Envelope.release (e : Envelope) (now : ℕ) : Envelope :=
  match e.held with
  | some since => ⟨none, saturatingAdd 64 e.heldSecs (now - since)⟩
  | none => e

def RecipientState.warmupWait (r : RecipientState) (now : ℕ) : ℕ :=
  saturatingAdd 64 r.waited (if r.warmup.isSome then now - r.cappedAt else 0)

/-- A recipient waits for a warm-up cap. -/
def RecipientState.waitForCap (r : RecipientState) (group : String) (opens now : ℕ) :
    RecipientState :=
  ⟨some group, opens, if r.warmup.isNone then now else r.cappedAt, r.waited⟩

/-- The wait ends. -/
def RecipientState.endCapWait (r : RecipientState) (now : ℕ) : RecipientState :=
  if r.warmup.isSome then
    ⟨none, r.nextAttempt, 0, saturatingAdd 64 r.waited (now - r.cappedAt)⟩
  else r

/-- A queue entry with one recipient, by the time of its spool id. -/
structure Entry where
  created : ℕ
  envelope : Envelope := {}
  recipient : RecipientState := {}

inductive Event where
  | hold
  | release
  | waitForCap (group : String) (opens : ℕ)
  | endCapWait

/-- Whether a message is held after an event. -/
def Event.leavesHeld (held : Bool) : Event → Bool
  | .hold => true
  | .release => false
  | .waitForCap .. | .endCapWait => held

/-- Whether a recipient waits after an event. -/
def Event.leavesWaiting (waiting : Bool) : Event → Bool
  | .waitForCap .. => true
  | .endCapWait => false
  | .hold | .release => waiting

namespace Entry

def step (e : Entry) (now : ℕ) : Event → Entry
  | .hold => { e with envelope := e.envelope.hold now }
  | .release => { e with envelope := e.envelope.release now }
  | .waitForCap group opens => { e with recipient := e.recipient.waitForCap group opens now }
  | .endCapWait => { e with recipient := e.recipient.endCapWait now }

def run (e : Entry) : List (ℕ × Event) → Entry
  | [] => e
  | (t, event) :: history => (e.step t event).run history

/-- The age of a message. -/
def messageAge (e : Entry) (now : ℕ) : ℕ := now - e.created

/-- How much of the window is used. -/
def windowUsed (e : Entry) (now : ℕ) : ℕ :=
  e.messageAge now - e.envelope.heldSecs - e.recipient.warmupWait now

def held (e : Entry) : Bool := e.envelope.held.isSome

def waiting (e : Entry) : Bool := e.recipient.warmup.isSome

/-- A message is held from a `hold` to the next `release` of its history. -/
lemma held_run (e : Entry) (history : List (ℕ × Event)) :
    (e.run history).held = history.foldl (fun held event => event.2.leavesHeld held) e.held := by
  induction history generalizing e with
  | nil => rfl
  | cons ev history ih =>
    rw [run, ih, List.foldl_cons]
    congr 1
    obtain ⟨created, ⟨held, heldSecs⟩, recipient⟩ := e
    cases ev.2 <;> cases held <;> rfl

/-- A recipient waits from a `waitForCap` to the next `endCapWait` of the history. -/
lemma waiting_run (e : Entry) (history : List (ℕ × Event)) :
    (e.run history).waiting =
      history.foldl (fun waiting event => event.2.leavesWaiting waiting) e.waiting := by
  induction history generalizing e with
  | nil => rfl
  | cons ev history ih =>
    rw [run, ih, List.foldl_cons]
    congr 1
    obtain ⟨created, envelope, ⟨warmup, nextAttempt, cappedAt, waited⟩⟩ := e
    cases ev.2 <;> cases warmup <;> rfl

end Entry

/-! ## The time line -/

def spent (p : Entry → Bool) (now : ℕ) (e : Entry) (t₀ : ℕ) : List (ℕ × Event) → ℕ
  | [] => if p e then now - t₀ else 0
  | (t, event) :: history => (if p e then t - t₀ else 0) + spent p now (e.step t event) t history

def Runs (t₀ now : ℕ) : List (ℕ × Event) → Prop
  | [] => t₀ ≤ now
  | (t, _) :: history => t₀ ≤ t ∧ Runs t now history

variable {p q : Entry → Bool} {history later : List (ℕ × Event)} {t₀ t now now' : ℕ} {e : Entry}

lemma Runs.le (h : Runs t₀ now history) : t₀ ≤ now := by
  induction history generalizing t₀ with
  | nil => exact h
  | cons ev history ih => exact h.1.trans (ih h.2)

lemma Runs.append (h : Runs t₀ now history) (hlater : Runs now now' later) :
    Runs t₀ now' (history ++ later) := by
  induction history generalizing t₀ with
  | nil =>
    cases later with
    | nil => exact le_trans h hlater
    | cons ev later => exact ⟨le_trans h hlater.1, hlater.2⟩
  | cons ev history ih => exact ⟨h.1, ih h.2⟩

lemma spent_or_add_spent_and (p q : Entry → Bool) (now : ℕ) (e : Entry) (t₀ : ℕ)
    (history : List (ℕ × Event)) :
    spent (fun e => p e || q e) now e t₀ history + spent (fun e => p e && q e) now e t₀ history =
      spent p now e t₀ history + spent q now e t₀ history := by
  induction history generalizing e t₀ with
  | nil => cases hp : p e <;> cases hq : q e <;> simp [spent, hp, hq]
  | cons ev history ih =>
    have hrest := ih (e.step ev.1 ev.2) ev.1
    cases hp : p e <;> cases hq : q e <;> simp [spent, hp, hq] <;> omega

lemma spent_add_spent_not (p : Entry → Bool) (e : Entry) (h : Runs t₀ now history) :
    spent p now e t₀ history + spent (fun e => !p e) now e t₀ history = now - t₀ := by
  induction history generalizing e t₀ with
  | nil => cases hp : p e <;> simp [spent, hp]
  | cons ev history ih =>
    have hrest := ih (e.step ev.1 ev.2) h.2
    have hle := h.2.le
    have hfirst := h.1
    cases hp : p e <;> simp [spent, hp] <;> omega

lemma spent_mono (p : Entry → Bool) (e : Entry) (t₀ : ℕ) (history : List (ℕ × Event))
    (hlater : Runs now now' later) :
    spent p now e t₀ history ≤ spent p now' e t₀ (history ++ later) := by
  induction history generalizing e t₀ with
  | nil =>
    have hle := hlater.le
    cases later with
    | nil => simp only [List.append_nil, spent]; split_ifs <;> omega
    | cons ev later =>
      have hfirst := hlater.1
      simp only [List.nil_append, spent]
      split_ifs <;> omega
  | cons ev history ih => exact Nat.add_le_add_left (ih _ _) _

/-! ## Stop-watches -/

/-- A stop-watch: since when it runs, and the seconds of its earlier runs. -/
structure Watch where
  since : Option ℕ
  total : ℕ

namespace Watch

def start (w : Watch) (now : ℕ) : Watch := if w.since.isNone then ⟨some now, w.total⟩ else w

def stop (w : Watch) (now : ℕ) : Watch :=
  match w.since with
  | some since => ⟨none, saturatingAdd 64 w.total (now - since)⟩
  | none => w

def Moves (w : Watch) (now : ℕ) (w' : Watch) : Prop := w' = w.start now ∨ w' = w.stop now ∨ w' = w

def read (w : Watch) (now : ℕ) : ℕ := w.total + w.since.elim 0 (now - ·)

/-- The watch shows no time to come. -/
structure Fine (w : Watch) (now : ℕ) : Prop where
  since_le : ∀ s ∈ w.since, s ≤ now
  read_le : w.read now ≤ now

variable {w w' : Watch}

lemma Fine.read_eq (h : w.Fine now) (ht : now ≤ t) :
    w.read t = w.read now + if w.since.isSome then t - now else 0 := by
  obtain ⟨_ | s, total⟩ := w
  · simp [read]
  · have hs := h.since_le s rfl
    simp [read]
    omega

lemma Fine.moves (h : w.Fine now) (ht : now ≤ t) (htime : t < 2 ^ 64) (hw : w.Moves t w') :
    w'.read t = w.read t ∧ w'.Fine t := by
  have hread : w.read t ≤ t := by
    have hle := h.read_le
    rw [h.read_eq ht]
    split_ifs <;> omega
  have hsince : ∀ s ∈ w.since, s ≤ t := fun s hs => (h.since_le s hs).trans ht
  suffices hw' : w'.read t = w.read t ∧ ∀ s ∈ w'.since, s ≤ t from ⟨hw'.1, hw'.2, hw'.1 ▸ hread⟩
  obtain ⟨_ | s, total⟩ := w <;> obtain rfl | rfl | rfl := hw
  all_goals simp [start, stop, read, saturatingAdd, wordMax] at hread hsince ⊢
  all_goals omega

end Watch

lemma read_run {watch : Entry → Watch} (hstep : ∀ e t event,
    (watch e).Moves t (watch (e.step t event)))
    (hp : ∀ e, p e = (watch e).since.isSome) (h : Runs t₀ now history) (hnow : now < 2 ^ 64)
    (hfine : (watch e).Fine t₀) :
    (watch (e.run history)).read now = (watch e).read t₀ + spent p now e t₀ history := by
  induction history generalizing e t₀ with
  | nil => rw [Entry.run, spent, hp, hfine.read_eq h]
  | cons ev history ih =>
    obtain ⟨hmoved, hfine'⟩ := hfine.moves h.1 (h.2.le.trans_lt hnow) (hstep e ev.1 ev.2)
    rw [Entry.run, ih h.2 hfine', hmoved, hfine.read_eq h.1, spent, add_assoc, hp]

namespace Entry

def heldWatch (e : Entry) : Watch := ⟨e.envelope.held, e.envelope.heldSecs⟩

def waitWatch (e : Entry) : Watch :=
  ⟨e.recipient.warmup.map fun _ => e.recipient.cappedAt, e.recipient.waited⟩

lemma heldWatch_step (e : Entry) (t : ℕ) (event : Event) :
    e.heldWatch.Moves t (e.step t event).heldWatch := by
  obtain ⟨created, ⟨held, heldSecs⟩, recipient⟩ := e
  cases event with
  | hold => exact .inl (by cases held <;> rfl)
  | release => exact .inr (.inl (by cases held <;> rfl))
  | waitForCap | endCapWait => exact .inr (.inr rfl)

lemma waitWatch_step (e : Entry) (t : ℕ) (event : Event) :
    e.waitWatch.Moves t (e.step t event).waitWatch := by
  obtain ⟨created, envelope, ⟨warmup, nextAttempt, cappedAt, waited⟩⟩ := e
  cases event with
  | hold | release => exact .inr (.inr rfl)
  | waitForCap => exact .inl (by cases warmup <;> rfl)
  | endCapWait => exact .inr (.inl (by cases warmup <;> rfl))

lemma created_run (e : Entry) (history : List (ℕ × Event)) :
    (e.run history).created = e.created := by
  induction history generalizing e with
  | nil => rfl
  | cons ev history ih =>
    rw [run, ih]
    cases ev.2 <;> rfl

variable {created : ℕ}

lemma windowUsed_run (h : Runs created now history) (hnow : now < 2 ^ 64)
    (hheld : (run { created } history).held = false) :
    (run { created } history).windowUsed now = now - created -
      spent held now { created } created history - spent waiting now { created } created
        history := by
  have hfine : (Watch.mk none 0).Fine created := ⟨nofun, Nat.zero_le _⟩
  have hheldRead := (read_run (p := held) (e := { created }) heldWatch_step (fun _ => rfl) h hnow
    hfine).trans (zero_add _)
  have hwaitRead := (read_run (p := waiting) (e := { created }) waitWatch_step
    (fun e => Option.isSome_map.symm) h hnow hfine).trans (zero_add _)
  have hle := spent_add_spent_not waiting { created } h
  have hcreated : (run { created } history).created = created := created_run ..
  generalize run { created } history = e at *
  have hwait : e.waitWatch.read now =
      e.recipient.waited + if e.recipient.warmup.isSome then now - e.recipient.cappedAt else 0 := by
    unfold Watch.read waitWatch
    cases e.recipient.warmup <;> rfl
  have hsecs : e.heldWatch.read now = e.envelope.heldSecs := by
    unfold held at hheld
    simp [Watch.read, heldWatch, Option.not_isSome_iff_eq_none.1 (by simpa using hheld)]
  -- No more seconds were waited than there were, so the sum of the waits does not saturate.
  rw [windowUsed, messageAge, RecipientState.warmupWait, saturatingAdd, ← hwait, ← hsecs, hcreated,
    hheldRead, hwaitRead, min_eq_left (by unfold wordMax; omega)]

/-- The window that a message has used is its age less the seconds in which it was held or its
recipient waited, each taken once, exactly if no second was both or every second was either. While
it is that, it does not fall, and a message that was neither for `maxAge` seconds is expired. -/
theorem windowUsed_iff (h : Runs created now history) (hnow : now < 2 ^ 64)
    (hheld : (run { created } history).held = false) :
    let used := fun now history => (run { created } history).windowUsed now
    let covered := fun now => spent (fun e => e.held || e.waiting) now { created } created
    (used now history = now - created - covered now history ↔
      spent (fun e => e.held && e.waiting) now { created } created history = 0 ∨
        covered now history = now - created) ∧
    (used now history = now - created - covered now history →
      (∀ later now', Runs now now' later →
        used now' (history ++ later) = now' - created - covered now' (history ++ later) →
          used now history ≤ used now' (history ++ later)) ∧
      ∀ maxAge, maxAge ≤ spent (fun e => !(e.held || e.waiting)) now { created } created history →
        maxAge ≤ used now history) := by
  intro used covered
  have hsum := spent_or_add_spent_and held waiting now { created } created history
  have hfree := spent_add_spent_not (fun e => e.held || e.waiting) { created } h
  refine ⟨?_, fun hused => ⟨fun later now' hlater hused' => ?_, fun maxAge hmax => ?_⟩⟩
  · -- By `hsum` the seconds that were both are those taken twice.
    simp only [used, covered, windowUsed_run h hnow hheld]
    omega
  · have hfree' := spent_add_spent_not (fun e => e.held || e.waiting) { created } (h.append hlater)
    have hmono := spent_mono (fun e => !(e.held || e.waiting)) { created } created history hlater
    simp only [covered] at hused hused'
    omega
  · simp only [covered] at hused
    omega

/-- Five of twenty seconds are waited and none is held. -/
theorem windowUsed_iff_waiting : Runs 0 20 [(10, .waitForCap "gmail" 15), (15, .endCapWait)] ∧
    (run { created := 0 } [(10, .waitForCap "gmail" 15), (15, .endCapWait)]).windowUsed 20 =
      15 := by
  have h : Runs 0 20 [(10, .waitForCap "gmail" 15), (15, .endCapWait)] := by simp [Runs]
  exact ⟨h, (windowUsed_iff h (by decide) rfl).1.2 (.inl (by decide))⟩

/-- Ten seconds of hold while the recipient waits are taken twice. -/
theorem windowUsed_held_waiting :
    let history : List (ℕ × Event) :=
      [(10, .waitForCap "gmail" 20), (10, .hold), (20, .release), (20, .endCapWait)]
    Runs 0 20 history ∧ (run { created := 0 } history).held = false ∧
      (run { created := 0 } history).windowUsed 20 = 0 ∧
      20 - spent (fun e => e.held || e.waiting) 20 { created := 0 } 0 history = 10 :=
  ⟨by simp [Runs], by decide⟩

end Entry

end Epistle.Queue.Window
