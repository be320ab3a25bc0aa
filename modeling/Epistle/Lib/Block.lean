import Mathlib.Algebra.Order.Ring.Int
import Mathlib.Data.List.Basic
import Mathlib.Data.List.TakeDrop

/-!
# Blocks with fields at fixed places

A block is a list of a fixed length that is written field by field, each at its offset, and read in
slices. A slice that lies where a field was written is the field; one that lies elsewhere is what
was there before.
-/

namespace Epistle.Lib.Block

open List

variable {α : Type*}

def patch (block : List α) (offset : ℕ) (field : List α) : List α :=
  block.take offset ++ field ++ block.drop (offset + field.length)

def slice (block : List α) (start stop : ℕ) : List α := (block.take stop).drop start

def slice? (block : List α) (start stop : ℕ) : Option (List α) :=
  if start ≤ stop ∧ stop ≤ block.length then some (slice block start stop) else none

variable {block field : List α} {offset start stop : ℕ}

lemma length_patch (h : offset + field.length ≤ block.length) :
    (patch block offset field).length = block.length := by
  simp only [patch, length_append, length_take, length_drop]
  omega

lemma length_slice (h : stop ≤ block.length) : (slice block start stop).length = stop - start := by
  simp only [slice, length_drop, length_take]
  omega

lemma slice_patch_self (h : offset ≤ block.length) :
    slice (patch block offset field) offset (offset + field.length) = field := by
  have htake : (block.take offset).length = offset := length_take_of_le h
  have hfield : (patch block offset field).take (offset + field.length) =
      block.take offset ++ field := by
    rw [patch, take_left']
    rw [length_append, htake]
  rw [slice, hfield, drop_left' htake]

lemma slice_patch_before (h : stop ≤ offset) (hlen : offset ≤ block.length) :
    slice (patch block offset field) start stop = slice block start stop := by
  have htake : (patch block offset field).take stop = block.take stop := by
    rw [patch, append_assoc, take_append_of_le_length, take_take,
      Nat.min_eq_left h]
    rw [length_take_of_le hlen]
    exact h
  rw [slice, slice, htake]

lemma slice_patch_behind (h : offset + field.length ≤ start) (hlen : start ≤ block.length) :
    slice (patch block offset field) start stop = slice block start stop := by
  have hoffset : offset ≤ block.length := by omega
  have htake : (block.take offset ++ field).length = offset + field.length := by
    rw [length_append, length_take_of_le hoffset]
  have hdrop : ∀ i, offset + field.length ≤ i →
      (patch block offset field).drop i = block.drop i := by
    intro i hi
    obtain ⟨k, rfl⟩ := Nat.exists_eq_add_of_le hi
    rw [patch, ← drop_drop, drop_left' htake, drop_drop]
  rw [slice, slice, drop_take, drop_take, hdrop start h]

lemma slice_zero (n : ℕ) : slice block 0 n = block.take n := drop_zero

lemma slice_append {middle : ℕ} (h : start ≤ middle) (h' : middle ≤ stop)
    (hlen : middle ≤ block.length) :
    slice block start stop = slice block start middle ++ slice block middle stop := by
  have htake : block.take stop = block.take middle ++ slice block middle stop := by
    conv_lhs => rw [← take_append_drop middle (block.take stop)]
    rw [take_take, Nat.min_eq_left h', slice]
  have hstart : start ≤ (block.take middle).length := by
    rw [length_take_of_le hlen]
    exact h
  conv_lhs => rw [slice, htake, drop_append_of_le_length hstart]
  rfl

lemma slice_replicate (n : ℕ) (a : α) (start stop : ℕ) :
    slice (List.replicate n a) start stop = List.replicate (min stop n - start) a := by
  rw [slice, take_replicate, drop_replicate]

/-! ## Layouts -/

def patches (block : List α) (fields : List (ℕ × List α)) : List α :=
  fields.foldl (fun block field => patch block field.1 field.2) block

lemma length_patches {fields : List (ℕ × List α)}
    (h : ∀ field ∈ fields, field.1 + field.2.length ≤ block.length) :
    (patches block fields).length = block.length := by
  induction fields generalizing block with
  | nil => rfl
  | cons field fields ih =>
    obtain ⟨hfield, hfields⟩ := forall_mem_cons.1 h
    have hlen := length_patch hfield
    rw [patches, foldl_cons, ← patches, ih (by simpa only [hlen] using hfields), hlen]

lemma slice_patches_of_disjoint {fields : List (ℕ × List α)} (hstart : start ≤ block.length)
    (h : ∀ field ∈ fields, field.1 + field.2.length ≤ block.length ∧
      (stop ≤ field.1 ∨ field.1 + field.2.length ≤ start)) :
    slice (patches block fields) start stop = slice block start stop := by
  induction fields generalizing block with
  | nil => rfl
  | cons field fields ih =>
    obtain ⟨⟨hfits, hside⟩, hfields⟩ := forall_mem_cons.1 h
    have hlen := length_patch hfits
    rw [patches, foldl_cons, ← patches,
      ih (by simpa only [hlen] using hstart) (by simpa only [hlen] using hfields)]
    obtain hside | hside := hside
    · exact slice_patch_before hside (by omega)
    · exact slice_patch_behind hside hstart

lemma slice_patches {before after : List (ℕ × List α)}
    (hbefore : ∀ field ∈ before, field.1 + field.2.length ≤ block.length)
    (hfits : offset + field.length ≤ stop) (hstop : stop ≤ block.length)
    (hafter : ∀ field ∈ after, field.1 + field.2.length ≤ block.length ∧
      (stop ≤ field.1 ∨ field.1 + field.2.length ≤ offset)) :
    slice (patches block (before ++ (offset, field) :: after)) offset stop =
      field ++ slice (patches block before) (offset + field.length) stop := by
  have hlen := length_patches hbefore
  have hpatch : (patch (patches block before) offset field).length = block.length := by
    rw [length_patch (by omega), hlen]
  have hsplit : patches block (before ++ (offset, field) :: after) =
      patches (patch (patches block before) offset field) after := by
    simp [patches, foldl_append]
  rw [hsplit, slice_patches_of_disjoint (by omega) (by simpa only [hpatch] using hafter),
    slice_append (Nat.le_add_right offset field.length) hfits (by omega),
    slice_patch_self (by omega), slice_patch_behind (Nat.le_refl _) (by omega)]

lemma slice_patches_replicate {n : ℕ} {a : α} {before after : List (ℕ × List α)}
    (h : ∀ field ∈ before ++ after, field.1 + field.2.length ≤ n ∧
      (stop ≤ field.1 ∨ field.1 + field.2.length ≤ offset))
    (hfits : offset + field.length ≤ stop) (hstop : stop ≤ n) :
    slice (patches (List.replicate n a) (before ++ (offset, field) :: after)) offset stop =
      field ++ List.replicate (stop - (offset + field.length)) a := by
  have hn : (List.replicate n a).length = n := length_replicate
  obtain ⟨hbefore, hafter⟩ := forall_mem_append.1 h
  rw [slice_patches (by simpa only [hn] using fun f hf => (hbefore f hf).1) hfits
    (by omega) (by simpa only [hn] using hafter), slice_patches_of_disjoint (by omega)]
  · rw [slice_replicate, Nat.min_eq_left hstop]
  · intro f hf
    obtain ⟨hle, hside⟩ := hbefore f hf
    exact ⟨by omega, by omega⟩

end Epistle.Lib.Block
