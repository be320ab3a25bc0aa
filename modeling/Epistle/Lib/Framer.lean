import Mathlib.Algebra.Order.Ring.Int
import Mathlib.Data.List.Basic

/-!
# Incremental framers

A framer cuts a stream into items. It is polled with the symbols received so far and answers with
the item at their front, asks for more symbols, or fails.

What makes the pieces irrelevant is that an answer, once given, survives more input:
`Framer.item_append` and `Framer.fail_append`. A request for more input promises nothing.
-/

namespace Epistle.Lib

open List

inductive Poll (β ε : Type*)
  | item (value : β) (width : ℕ)
  /-- No item is complete yet. -/
  | more
  /-- The buffer cannot be framed. -/
  | fail (error : ε)

/-- A poll function whose items and failures are not withdrawn when more symbols arrive. -/
structure Framer (α β ε : Type*) where
  /-- The answer for the symbols received so far. -/
  poll : List α → Poll β ε
  /-- An item takes at least one symbol. -/
  width_pos : ∀ {b x n}, poll b = .item x n → 0 < n
  width_le : ∀ {b x n}, poll b = .item x n → n ≤ b.length
  item_append : ∀ {b x n} (r : List α), poll b = .item x n → poll (b ++ r) = .item x n
  fail_append : ∀ {b e} (r : List α), poll b = .fail e → ∃ e', poll (b ++ r) = .fail e'

/-- What a consumer has seen of a stream: the items so far, the failure that stopped it, and
the symbols not yet part of an item. -/
structure Progress (α β ε : Type*) where
  items : List β
  /-- The first failure, after which nothing more is polled. -/
  error : Option ε
  /-- Symbols received and not consumed by an item. -/
  rest : List α

inductive Op (α : Type*)
  | feed (piece : List α)
  /-- Ask for the next item. -/
  | poll

def fed {α : Type*} : List (Op α) → List α
  | [] => []
  | .feed piece :: ops => piece ++ fed ops
  | .poll :: ops => fed ops

namespace Framer

variable {α β ε : Type*} (F : Framer α β ε)

variable {b : List α} {total : Progress α β ε}

lemma length_drop_lt {x : β} {n : ℕ} (h : F.poll b = .item x n) :
    (b.drop n).length < b.length := by
  have hpos := F.width_pos h
  have hle := F.width_le h
  rw [length_drop]
  omega

def drain (b : List α) : Progress α β ε :=
  match _h : F.poll b with
  | .item x n =>
      let p := drain (b.drop n)
      { p with items := x :: p.items }
  | .more => ⟨[], none, b⟩
  | .fail e => ⟨[], some e, b⟩
termination_by b.length
decreasing_by exact F.length_drop_lt _h

def step (p : Progress α β ε) (op : Op α) : Progress α β ε :=
  match p.error, op with
  | some _, _ => p
  | none, .feed piece => { p with rest := p.rest ++ piece }
  | none, .poll =>
      match F.poll p.rest with
      | .item x n => { p with items := p.items ++ [x], rest := p.rest.drop n }
      | .more => p
      | .fail e => { p with error := some e }

def run (p : Progress α β ε) (ops : List (Op α)) : Progress α β ε :=
  ops.foldl F.step p

def Settled (p : Progress α β ε) : Prop :=
  p.error.isSome ∨ F.poll p.rest = .more

/-- The consumer before any symbol has arrived. -/
def start : Progress α β ε := ⟨[], none, []⟩

lemma drain_of_item {x : β} {n : ℕ} (h : F.poll b = .item x n) :
    F.drain b = { F.drain (b.drop n) with items := x :: (F.drain (b.drop n)).items } := by
  rw [drain]
  split <;> simp_all

lemma drain_of_more (h : F.poll b = .more) : F.drain b = ⟨[], none, b⟩ := by
  rw [drain]
  split <;> simp_all

lemma drain_of_fail {e : ε} (h : F.poll b = .fail e) : F.drain b = ⟨[], some e, b⟩ := by
  rw [drain]
  split <;> simp_all

lemma drain_items_of_not_item (h : ∀ x n, F.poll b ≠ .item x n) : (F.drain b).items = [] := by
  cases hb : F.poll b with
  | item x n => exact absurd hb (h x n)
  | more => rw [F.drain_of_more hb]
  | fail e => rw [F.drain_of_fail hb]

/-- `total` is what the schedule still has to show when the symbols `r` are yet to come: the items
already seen followed by those of the whole remainder. -/
def Shows (p : Progress α β ε) (r : List α) (total : Progress α β ε) : Prop :=
  match p.error with
  | none => total.items = p.items ++ (F.drain (p.rest ++ r)).items ∧
      total.error.isSome = (F.drain (p.rest ++ r)).error.isSome ∧
      total.rest = (F.drain (p.rest ++ r)).rest
  | some _ => total.items = p.items ∧ total.error.isSome = true

lemma shows_step {p : Progress α β ε} {op : Op α} {r : List α}
    (h : F.Shows p (fed [op] ++ r) total) : F.Shows (F.step p op) r total := by
  unfold step
  cases hp : p.error with
  | some e => simpa only [Shows, hp] using h
  | none =>
    simp only [Shows, hp] at h
    cases op with
    | feed piece => simpa only [Shows, hp, fed, append_nil, append_assoc] using h
    | poll =>
      simp only [fed, nil_append] at h
      cases hpoll : F.poll p.rest with
      | item x n =>
        have hle := F.width_le hpoll
        rw [F.drain_of_item (F.item_append r hpoll), drop_append_of_le_length hle] at h
        simpa only [Shows, hp, append_assoc, singleton_append] using h
      | more => simpa only [Shows, hp] using h
      | fail e =>
        obtain ⟨e', he'⟩ := F.fail_append r hpoll
        rw [F.drain_of_fail he'] at h
        simp only [Shows]
        exact ⟨by simpa using h.1, by simpa using h.2.1⟩

lemma shows_run (ops : List (Op α)) (r : List α) (p : Progress α β ε)
    (h : F.Shows p (fed ops ++ r) total) : F.Shows (F.run p ops) r total := by
  induction ops generalizing p with
  | nil => simpa only [run, fed, nil_append, foldl_nil] using h
  | cons op ops ih =>
    apply ih
    apply F.shows_step
    cases op <;> simpa only [fed, append_nil, nil_append, append_assoc] using h

lemma shows_start (s : List α) : F.Shows start s (F.drain s) := by
  simp [Shows, start]

lemma shows_settled {p : Progress α β ε} (hs : F.Settled p) (h : F.Shows p [] total) :
    total.items = p.items ∧ total.error.isSome = p.error.isSome ∧
      (p.error = none → total.rest = p.rest) := by
  unfold Shows at h
  cases hp : p.error with
  | none =>
    have hmore : F.poll p.rest = .more := by simpa [Settled, hp] using hs
    simp only [hp, append_nil, F.drain_of_more hmore] at h
    exact ⟨h.1, h.2.1, fun _ => h.2.2⟩
  | some e =>
    simp only [hp] at h
    exact ⟨h.1, by simpa using h.2, fun hnone => by cases hnone⟩

lemma run_settled (ops : List (Op α)) (hs : F.Settled (F.run start ops)) :
    (F.drain (fed ops)).items = (F.run start ops).items ∧
      (F.drain (fed ops)).error.isSome = (F.run start ops).error.isSome ∧
      ((F.run start ops).error = none →
        (F.drain (fed ops)).rest = (F.run start ops).rest) := by
  apply F.shows_settled hs
  apply F.shows_run
  simpa using F.shows_start (fed ops)

end Framer

end Epistle.Lib
