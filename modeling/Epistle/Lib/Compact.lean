import Mathlib.Algebra.Order.Ring.Int
import Mathlib.Data.List.Basic

/-!
# Compacting a buffer in place

Parts of a buffer are moved down one after the other, each behind the one before, and the buffer is
cut off behind the last. `Compacted` is what holds in between: what was moved is the front of the
buffer, and what was not looked at yet is where it always was.
-/

namespace Epistle.Lib.Compact

open List

variable {α : Type*} {data orig out : List α} {read src len dst : ℕ}

def slice (data : List α) (start len : ℕ) : List α := (data.drop start).take len

def overwrite (data : List α) (dst : ℕ) (elements : List α) : List α :=
  data.take dst ++ elements ++ data.drop (dst + elements.length)

def copyWithin (data : List α) (src len dst : ℕ) : Option (List α) :=
  if src + len ≤ data.length ∧ dst + len ≤ data.length then
    some (overwrite data dst (slice data src len))
  else none

def copyForward (data : List α) (src dst : ℕ) : ℕ → Option (List α)
  | 0 => some data
  | len + 1 => do
      let data ← copyForward data src dst len
      let element ← data[src + len]?
      if dst + len < data.length then some (data.set (dst + len) element) else none

lemma length_slice (h : src + len ≤ data.length) : (slice data src len).length = len := by
  rw [slice, length_take, length_drop]
  omega

lemma length_overwrite {elements : List α} (h : dst + elements.length ≤ data.length) :
    (overwrite data dst elements).length = data.length := by
  rw [overwrite, length_append, length_append, length_take, length_drop]
  omega

lemma length_copyWithin {data' : List α} (h : copyWithin data src len dst = some data') :
    data'.length = data.length := by
  unfold copyWithin at h
  split_ifs at h with hfits
  rw [← Option.some.inj h, length_overwrite]
  rw [length_slice hfits.1]
  exact hfits.2

lemma overwrite_slice_self (h : src + len ≤ data.length) :
    overwrite data src (slice data src len) = data := by
  rw [overwrite, length_slice h, slice, append_assoc, ← drop_drop, take_append_drop,
    take_append_drop]

lemma copyWithin_self (h : src + len ≤ data.length) : copyWithin data src len src = some data := by
  rw [copyWithin, if_pos ⟨h, h⟩, overwrite_slice_self h]

lemma copyForward_self (h : src + len ≤ data.length) :
    copyForward data src src len = some data := by
  induction len with
  | zero => rfl
  | succ len ih =>
    have hlt : src + len < data.length := by omega
    rw [copyForward, ih (by omega)]
    simp [hlt]

/-- The buffer on the way: `out` was moved, and it was read up to `read`. -/
structure Compacted (orig out : List α) (read : ℕ) (data : List α) : Prop where
  length : data.length = orig.length
  room : out.length ≤ read
  bound : read ≤ orig.length
  front : data.take out.length = out
  behind : data.drop read = orig.drop read

namespace Compacted

lemma start (orig : List α) : Compacted orig [] 0 orig :=
  ⟨rfl, Nat.le_refl _, Nat.zero_le _, rfl, rfl⟩

lemma skip (h : Compacted orig out read data) {read' : ℕ} (hle : read ≤ read')
    (hbound : read' ≤ orig.length) : Compacted orig out read' data where
  length := h.length
  room := Nat.le_trans h.room hle
  bound := hbound
  front := h.front
  behind := by
    obtain ⟨k, rfl⟩ := Nat.exists_eq_add_of_le hle
    rw [← drop_drop, h.behind, drop_drop]

lemma slice_eq (h : Compacted orig out read data) (hle : read ≤ src) (len : ℕ) :
    slice data src len = slice orig src len := by
  obtain ⟨k, rfl⟩ := Nat.exists_eq_add_of_le hle
  rw [slice, slice, ← drop_drop, h.behind, drop_drop]

lemma copy (h : Compacted orig out read data) (hbound : read + len ≤ orig.length) :
    ∃ data', copyWithin data read len out.length = some data' ∧
      Compacted orig (out ++ slice orig read len) (read + len) data' := by
  have hlen : (slice orig read len).length = len := length_slice hbound
  have hroom := h.room
  have hlength := h.length
  have hfits : out.length + len ≤ data.length := by omega
  refine ⟨overwrite data out.length (slice orig read len), ?_, ?_⟩
  · rw [copyWithin, if_pos ⟨by omega, hfits⟩, h.slice_eq (Nat.le_refl _)]
  · have hout : (out ++ slice orig read len).length = out.length + len := by
      rw [length_append, hlen]
    have hwhole : overwrite data out.length (slice orig read len) =
        (out ++ slice orig read len) ++ data.drop (out.length + len) := by
      rw [overwrite, h.front, hlen]
    refine ⟨?_, by omega, hbound, ?_, ?_⟩
    · rw [length_overwrite (by omega), hlength]
    · rw [hwhole, take_left]
    · have hcut : read + len = (out ++ slice orig read len).length + (read - out.length) := by omega
      rw [hwhole, hcut, ← drop_drop, drop_left, drop_drop, hout]
      have hsum : out.length + len + (read - out.length) = read + len := by omega
      rw [hsum, ← drop_drop, h.behind, drop_drop]

end Compacted

end Epistle.Lib.Compact
