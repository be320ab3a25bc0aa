import Epistle.Backup.TarFormat
import Epistle.Lib.Fallible
import Mathlib.Data.List.Nodup

/-!
# Header blocks

What a header block that was written is read as. Every field is found at its place and the checksum
matches.
-/

namespace Epistle.Backup

open Lib Lib.Block List

/-! ## The checksum -/

def weight (byte : UInt8) (index : ℕ) : ℕ := if 148 ≤ index ∧ index < 156 then 32 else byte.toNat

lemma sum_weight_outside {bytes : List UInt8} {i : ℕ}
    (h : i + bytes.length ≤ 148 ∨ 156 ≤ i) :
    ((bytes.zipIdx i).map fun (byte, index) => weight byte index).sum =
      (bytes.map UInt8.toNat).sum := by
  induction bytes generalizing i with
  | nil => rfl
  | cons byte bytes ih =>
    rw [length_cons] at h
    have hhead : weight byte i = byte.toNat := if_neg (by omega)
    rw [zipIdx_cons, map_cons, map_cons, sum_cons, sum_cons,
      ih (by omega)]
    exact congrArg (· + (bytes.map UInt8.toNat).sum) hhead

lemma sum_weight_inside {bytes : List UInt8} {i : ℕ} (hlow : 148 ≤ i)
    (hhigh : i + bytes.length ≤ 156) :
    ((bytes.zipIdx i).map fun (byte, index) => weight byte index).sum = 32 * bytes.length := by
  induction bytes generalizing i with
  | nil => rfl
  | cons byte bytes ih =>
    rw [length_cons] at hhigh
    have hhead : weight byte i = 32 := if_pos ⟨hlow, by omega⟩
    rw [zipIdx_cons, map_cons, sum_cons, ih (by omega) (by omega)]
    change weight byte i + 32 * bytes.length = 32 * (bytes.length + 1)
    omega

variable {block : List UInt8} {size : ℕ}

lemma checksum_eq (h : 156 ≤ block.length) :
    checksum block = ((slice block 0 148).map UInt8.toNat).sum + 256 +
      ((slice block 156 block.length).map UInt8.toNat).sum := by
  have hsplit : slice block 0 148 ++ slice block 148 156 ++ slice block 156 block.length =
      block := by
    rw [← slice_append (by omega) (by omega) (by omega),
      ← slice_append (by omega) (by omega) (by omega), slice_zero, take_length]
  have hfirst : (slice block 0 148).length = 148 := length_slice (by omega)
  have hmiddle : (slice block 148 156).length = 8 := length_slice h
  have hweight : checksum block =
      (block.zipIdx.map fun (byte, index) => weight byte index).sum := rfl
  rw [hweight]
  conv_lhs => rw [← hsplit]
  rw [zipIdx_append, zipIdx_append, map_append, map_append, sum_append,
    sum_append, length_append, hfirst, hmiddle, sum_weight_outside (by omega),
    sum_weight_inside (by omega) (by omega), sum_weight_outside (by omega), hmiddle]

lemma checksum_patch {field : List UInt8} (hblock : block.length = blockLen)
    (hfield : field.length = 8) : checksum (patch block 148 field) = checksum block := by
  have hlen : (patch block 148 field).length = blockLen := by
    rw [length_patch, hblock]
    rw [hfield, hblock]
    decide
  rw [blockLen] at hblock hlen
  rw [checksum_eq (by omega), checksum_eq (by omega), hlen, hblock,
    slice_patch_before (by omega) (by omega), slice_patch_behind (by omega) (by omega)]

lemma sum_toNat_le (bytes : List UInt8) : (bytes.map UInt8.toNat).sum ≤ 255 * bytes.length := by
  induction bytes with
  | nil => simp
  | cons byte bytes ih =>
    have hbyte := byte.toNat_lt
    rw [map_cons, sum_cons, length_cons]
    omega

lemma checksum_lt (h : block.length = blockLen) : checksum block < 8 ^ 6 := by
  rw [blockLen] at h
  have hfirst := sum_toNat_le (slice block 0 148)
  have hlast := sum_toNat_le (slice block 156 block.length)
  rw [length_slice (by omega)] at hfirst hlast
  rw [checksum_eq (by omega)]
  omega

/-! ## The fields -/

open Radix

open Utf8

section Layout

variable (name : List UInt8) (mode : UInt32) (size : ℕ) (kind : UInt8)

/-- The fields of a header, each at its place. -/
def layout : List (ℕ × List UInt8) :=
  [(0, name.take nameField),
    (100, (encode (write 8 7 (mode &&& 0o7777).toNat)).take 7),
    (108, encode "0000000".toList), (116, encode "0000000".toList),
    (124, (encode (write 8 11 size)).take 11),
    (136, encode "00000000000".toList), (156, [kind]),
    (257, encode "ustar\x00".toList), (263, encode "00".toList),
    (148, encode "        ".toList)]

def places : List (ℕ × ℕ) :=
  [(0, 100), (100, 8), (108, 8), (116, 8), (124, 12), (136, 12), (156, 1), (257, 6), (263, 2),
    (148, 8)]

lemma unsummed_eq :
    unsummed name mode size kind = patches (List.replicate blockLen 0)
      (layout name mode size kind) :=
  rfl

variable {name mode size kind}

lemma exists_place {field : ℕ × List UInt8} (h : field ∈ layout name mode size kind) :
    ∃ width, (field.1, width) ∈ places ∧ field.2.length ≤ width := by
  simp only [layout, mem_cons, not_mem_nil, or_false] at h
  rcases h with rfl | rfl | rfl | rfl | rfl | rfl | rfl | rfl | rfl | rfl
  · exact ⟨100, by simp [places], length_take_le ..⟩
  · exact ⟨8, by simp [places], (length_take_le ..).trans (by decide)⟩
  · exact ⟨8, by simp [places], by decide⟩
  · exact ⟨8, by simp [places], by decide⟩
  · exact ⟨12, by simp [places], (length_take_le ..).trans (by decide)⟩
  · exact ⟨12, by simp [places], by decide⟩
  · exact ⟨1, by simp [places], by simp⟩
  · exact ⟨6, by simp [places], by decide⟩
  · exact ⟨2, by simp [places], by decide⟩
  · exact ⟨8, by simp [places], by decide⟩

lemma field_le {field : ℕ × List UInt8} (h : field ∈ layout name mode size kind) :
    field.1 + field.2.length ≤ blockLen := by
  obtain ⟨width, hplace, hwidth⟩ := exists_place h
  have hblock : ∀ place ∈ places, place.1 + place.2 ≤ blockLen := by decide
  exact (Nat.add_le_add_left hwidth _).trans (hblock _ hplace)

lemma length_unsummed : (unsummed name mode size kind).length = blockLen := by
  have hfits := fun field (h : field ∈ layout name mode size kind) => field_le h
  rw [unsummed_eq, length_patches (by simpa using hfits), length_replicate]

lemma slice_unsummed {offset width : ℕ} {field : List UInt8} (hplace : (offset, width) ∈ places)
    (hmem : (offset, field) ∈ layout name mode size kind) (hwidth : field.length ≤ width) :
    slice (unsummed name mode size kind) offset (offset + width) =
      field ++ List.replicate (width - field.length) 0 := by
  have hdisjoint : ∀ p ∈ places, ∀ q ∈ places, p.1 ≠ q.1 →
      q.1 + q.2 ≤ p.1 ∨ p.1 + p.2 ≤ q.1 := by decide
  have hblock : ∀ place ∈ places, place.1 + place.2 ≤ blockLen := by decide
  have hnodup : ((layout name mode size kind).map (·.1)).Nodup := by
    change [0, 100, 108, 116, 124, 136, 156, 257, 263, 148].Nodup
    decide
  obtain ⟨before, after, hsplit⟩ := append_of_mem hmem
  rw [unsummed_eq, hsplit, slice_patches_replicate _ (Nat.add_le_add_left hwidth _)
    (hblock _ hplace)]
  · congr 2
    omega
  · intro other hother
    have hin : other ∈ layout name mode size kind := by
      rw [hsplit]
      simp only [mem_append, mem_cons] at hother ⊢
      exact hother.imp_right .inr
    -- No other field is at the offset.
    have hne : other.1 ≠ offset := by
      rw [hsplit, map_append, map_cons, nodup_middle, nodup_cons,
        ← map_append] at hnodup
      rintro rfl
      exact hnodup.1 (List.mem_map.2 ⟨other, hother, rfl⟩)
    obtain ⟨width', hplace', hwidth'⟩ := exists_place hin
    have hside := hdisjoint _ hplace' _ hplace hne
    have hle := field_le hin
    dsimp only at hside
    omega

lemma length_sumText {block : List UInt8} (h : block.length = blockLen) :
    (encode (write 8 6 (checksum block) ++ ['\x00', ' '])).length = 8 := by
  have hlen := length_write (by decide) (by decide) (checksum_lt h)
  rw [encode_of_ascii, length_map, length_append, hlen]
  · rfl
  · intro c hc
    obtain hc | hc := mem_append.1 hc
    · exact toNat_lt_of_isDigit (by decide) (isDigit_of_mem_write (by decide) (by decide) hc)
    · have hblank : ∀ c ∈ ['\x00', ' '], c.toNat < 128 := by decide
      exact hblank c hc

lemma length_header : (header name mode size kind).length = blockLen := by
  have hlen := @length_unsummed name mode size kind
  rw [header, length_patch, hlen]
  rw [length_sumText hlen, hlen]
  decide

lemma slice_header_sum :
    slice (header name mode size kind) 148 156 =
      encode (write 8 6 (checksum (header name mode size kind)) ++ ['\x00', ' ']) := by
  have hlen := @length_unsummed name mode size kind
  have hself := @slice_patch_self UInt8 (unsummed name mode size kind)
    (encode (write 8 6 (checksum (unsummed name mode size kind)) ++ ['\x00', ' '])) 148
    (by rw [hlen]; decide)
  rw [length_sumText hlen] at hself
  rw [header, checksum_patch hlen (length_sumText hlen)]
  exact hself

lemma slice_header {start stop : ℕ} (h : stop ≤ 148 ∨ 156 ≤ start) (hstart : start ≤ blockLen) :
    slice (header name mode size kind) start stop =
      slice (unsummed name mode size kind) start stop := by
  have hlen := @length_unsummed name mode size kind
  have htext := length_sumText hlen
  rw [header]
  obtain h | h := h
  · exact slice_patch_before h (by rw [hlen]; decide)
  · exact slice_patch_behind (by omega) (by omega)

lemma slice_header_pathPrefix :
    slice (header name mode size kind) 345 500 = List.replicate 155 0 := by
  have hblock : ∀ place ∈ places, place.1 + place.2 ≤ 345 := by decide
  rw [slice_header (.inr (by decide)) (by decide), unsummed_eq, slice_patches_of_disjoint]
  · exact slice_replicate blockLen 0 345 500
  · rw [length_replicate]
    decide
  · intro field hfield
    obtain ⟨width, hplace, hwidth⟩ := exists_place hfield
    have hle := hblock _ hplace
    have hfits := field_le hfield
    rw [length_replicate]
    dsimp only at hle
    omega

end Layout

/-! ## Numbers -/

lemma octal_digits {text tail : List Char} (hne : text ≠ [])
    (hdigits : ∀ c ∈ text, isDigit 8 c) (hlen : text.length ≤ 12)
    (htail : ∀ c ∈ tail, c = '\x00' ∨ c = ' ') (what : HeaderField) :
    octal (encode (text ++ tail)) what = .ok (Nat.ofDigitChars 8 text 0) := by
  have hplain : ∀ c ∈ text, ¬ (c = '\x00' || c = ' ') := by
    intro c hc hblank
    have hdigit := hdigits c hc
    obtain rfl | rfl : c = '\x00' ∨ c = ' ' := by simpa using hblank
    · exact absurd hdigit (by decide)
    · exact absurd hdigit (by decide)
  have htrim : trimField (text ++ tail) = text := by
    have hstart : (text ++ tail).dropWhile (fun c => c = '\x00' || c = ' ') = text ++ tail := by
      obtain ⟨c, rest, rfl⟩ := exists_cons_of_ne_nil hne
      rw [cons_append, dropWhile_cons, if_neg (hplain c (mem_cons_self ..))]
    rw [trimField, hstart, List.rdropWhile, reverse_append, dropWhile_append_of_pos]
    · rw [← List.rdropWhile, rdropWhile_eq_self_iff]
      exact fun hne => hplain _ (getLast_mem hne)
    · intro c hc
      simpa using htail c (mem_reverse.1 hc)
  have hbound : Nat.ofDigitChars 8 text 0 < 2 ^ 64 :=
    (ofDigitChars_lt hdigits).trans_le
      ((Nat.pow_le_pow_right (by decide) hlen).trans (by decide))
  rw [octal, decodeLossy_encode, htrim, parse_eq_digits hdigits,
    digits_eq hne hdigits, Option.filter_some, if_pos (decide_eq_true hbound)]

lemma octal_cut {width value n : ℕ} (hn : 0 < n) (hle : n ≤ width) (hlen : n ≤ 12) {k : ℕ}
    (what : HeaderField) :
    octal ((encode (write 8 width value)).take n ++ List.replicate k 0) what =
      .ok (Nat.ofDigitChars 8 ((write 8 width value).take n) 0) := by
  have hdigit : ∀ c ∈ write 8 width value, isDigit 8 c := fun c hc =>
    isDigit_of_mem_write (by decide) (by decide) hc
  have hascii : ∀ c ∈ write 8 width value, c.toNat < 128 := fun c hc =>
    toNat_lt_of_isDigit (by decide) (hdigit c hc)
  have htake : (encode (write 8 width value)).take n =
      encode ((write 8 width value).take n) := by
    rw [encode_of_ascii hascii, ← map_take, encode_of_ascii]
    exact fun c hc => hascii c (mem_of_mem_take hc)
  have hzeros : List.replicate k 0 = encode (List.replicate k '\x00') := by
    rw [encode_of_ascii, map_replicate]
    · rfl
    · intro c hc
      rw [eq_of_mem_replicate hc]
      decide
  rw [htake, hzeros, ← encode_append]
  refine octal_digits ?_ (fun c hc => hdigit c (mem_of_mem_take hc)) ?_ ?_ what
  · refine ne_nil_of_length_pos ?_
    rw [length_take_of_le (hle.trans (width_le_length_write width value))]
    exact hn
  · exact (length_take_le ..).trans hlen
  · exact fun c hc => .inl (eq_of_mem_replicate hc)

def cutSize (size : ℕ) : ℕ := Nat.ofDigitChars 8 ((write 8 11 size).take 11) 0

lemma cutSize_eq (h : size < 8 ^ 11) : cutSize size = size := by
  rw [cutSize, take_of_length_le (length_write (by decide) (by decide) h).le]
  exact ofDigitChars_write (by decide) (by decide) 11 size

lemma cutSize_lt (size : ℕ) : cutSize size < 8 ^ 11 := by
  have hlt := @Radix.ofDigitChars_lt 8 ((write 8 11 size).take 11)
    fun c hc => isDigit_of_mem_write (by decide) (by decide) (mem_of_mem_take hc)
  exact hlt.trans_le (Nat.pow_le_pow_right (by decide) (length_take_le ..))

lemma cutSize_pos (h : ¬ size < 8 ^ 11) : 0 < cutSize size := by
  refine Nat.pos_of_ne_zero fun hzero => ?_
  -- The digits behind the cut write the whole number, and are too few for it.
  have hsplit : Nat.ofDigitChars 8 ((write 8 11 size).drop 11) (cutSize size) = size := by
    rw [cutSize, ← Nat.ofDigitChars_append, take_append_drop,
      ofDigitChars_write (by decide) (by decide)]
  have hlt := @Radix.ofDigitChars_lt_mul 8 ((write 8 11 size).drop 11)
    (fun c hc => isDigit_of_mem_write (by decide) (by decide) (mem_of_mem_drop hc))
    (cutSize size)
  rw [hsplit, hzero, Nat.zero_add, Nat.mul_one] at hlt
  have hlen : 11 < (Nat.toDigits 8 size).length := by
    rw [← Nat.not_le, Nat.length_toDigits_le_iff (by decide) (by decide)]
    exact h
  have hdrop : ((write 8 11 size).drop 11).length = (Nat.toDigits 8 size).length - 11 := by
    rw [write, List.leftpad, length_drop, length_append, length_replicate]
    omega
  rw [hdrop, ← Nat.length_toDigits_le_iff (by decide) (by omega)] at hlt
  omega

section Read

variable {name : List UInt8} {mode : UInt32} {size : ℕ} {kind : UInt8}

lemma slice_header_field {offset : ℕ} (width : ℕ) {field : List UInt8}
    (hmem : (offset, field) ∈ layout name mode size kind) (hplace : (offset, width) ∈ places)
    (hwidth : field.length ≤ width) (hsum : offset + width ≤ 148 ∨ 156 ≤ offset) :
    slice (header name mode size kind) offset (offset + width) =
      field ++ List.replicate (width - field.length) 0 := by
  have hblock : ∀ place ∈ places, place.1 ≤ blockLen := by decide
  rw [slice_header hsum (hblock _ hplace), slice_unsummed hplace hmem hwidth]

lemma octal_size : octal (slice (header name mode size kind) 124 136) .size =
    .ok (cutSize size) := by
  have hfield : (124, (encode (write 8 11 size)).take 11) ∈
      layout name mode size kind := by simp [layout]
  rw [slice_header_field 12 hfield (by decide)
    ((length_take_le ..).trans (by decide)) (by decide)]
  exact octal_cut (by decide) (by decide) (by decide) _

lemma octal_mode : octal (slice (header name mode size kind) 100 108) .mode =
    .ok (mode &&& 0o7777).toNat := by
  have hfield : (100, (encode (write 8 7 (mode &&& 0o7777).toNat)).take 7) ∈
      layout name mode size kind := by simp [layout]
  have hmode : (mode &&& 0o7777).toNat < 8 ^ 7 := by
    rw [UInt32.toNat_and]
    exact Nat.and_le_right.trans_lt (by decide)
  rw [slice_header_field 8 hfield (by decide)
    ((length_take_le ..).trans (by decide)) (by decide),
    octal_cut (by decide) (by decide) (by decide),
    take_of_length_le (length_write (by decide) (by decide) hmode).le,
    ofDigitChars_write (by decide) (by decide)]

lemma octal_checksum : octal (slice (header name mode size kind) 148 156) .checksum =
    .ok (checksum (header name mode size kind)) := by
  have hlen := length_write (by decide) (by decide)
    (checksum_lt (@length_header name mode size kind))
  rw [slice_header_sum, octal_digits (write_ne_nil 6 _)
    (fun c hc => isDigit_of_mem_write (by decide) (by decide) hc) (by rw [hlen]; decide)
    (by decide), ofDigitChars_write (by decide) (by decide)]

lemma slice_header_magic : slice (header name mode size kind) 257 262 =
    encode "ustar".toList := by
  have hfield : (257, encode "ustar\x00".toList) ∈ layout name mode size kind := by
    simp [layout]
  have hmagic := slice_header_field 6 hfield (by decide) (by decide) (by decide)
  have hfive : slice (header name mode size kind) 257 262 =
      (slice (header name mode size kind) 257 263).take 5 := by
    rw [slice, slice, take_drop, take_take]
    rfl
  rw [hfive, hmagic]
  decide

lemma getD_header : (header name mode size kind).getD 156 0 = kind := by
  have hfield : (156, [kind]) ∈ layout name mode size kind := by simp [layout]
  have hkind := slice_header_field 1 hfield (by decide) (by simp) (by decide)
  have hat : (header name mode size kind)[156]? = some kind := by
    have hget := congrArg (·[0]?) hkind
    simpa [slice, List.getElem?_drop, List.getElem?_take] using hget
  rw [List.getD_eq_getElem?_getD, hat, Option.getD_some]

lemma all_header : (header name mode size kind).all (· = 0) = false := by
  refine Bool.eq_false_iff.2 fun hall => ?_
  rw [all_eq_true] at hall
  have hmem : (117 : UInt8) ∈ slice (header name mode size kind) 257 262 := by
    rw [slice_header_magic]
    decide
  have hzero := hall 117 (mem_of_mem_take (mem_of_mem_drop hmem))
  exact absurd hzero (by decide)

end Read

lemma headerName_header {name : List Char} {mode : UInt32} {kind : UInt8}
    (hlen : (encode name).length ≤ nameField) (hnul : '\x00' ∉ name) :
    headerName (header (encode name) mode size kind) = name := by
  have hfield : (0, (encode name).take nameField) ∈
      layout (encode name) mode size kind := by simp [layout]
  have hname := slice_header_field 100 hfield (by decide) (length_take_le ..) (by decide)
  rw [take_of_length_le hlen, zero_add] at hname
  have hempty : fieldText (slice (header (encode name) mode size kind) 345 500) = [] := by
    rw [slice_header_pathPrefix]
    decide
  have hnonzero : ∀ b ∈ encode name, (decide (b ≠ 0)) = true := by
    intro b hb
    refine decide_eq_true fun hzero => hnul ?_
    subst hzero
    exact ascii_mem_encode hb (by decide)
  have htext : fieldText (slice (header (encode name) mode size kind) 0 100) = name := by
    have hstop : (List.replicate (100 - (encode name).length) (0 : UInt8)).takeWhile
        (· ≠ 0) = [] := by
      cases 100 - (encode name).length <;> simp [replicate_succ]
    rw [hname, fieldText, takeWhile_append_of_pos hnonzero, hstop, append_nil,
      decodeLossy_encode]
  rw [headerName, hempty, htext]
  exact if_pos rfl

lemma nextMember_header {name : List UInt8} {mode : UInt32} {kind : UInt8} (tail : List UInt8) :
    nextMember (header name mode size kind ++ tail) =
      if cutSize size ≤ tail.length then
        .ok (some ⟨header name mode size kind, tail.take (cutSize size),
          blockLen + (cutSize size + 511) / blockLen * blockLen⟩)
      else .error (.error .truncatedMember) := by
  have hlen := @length_header name mode size kind
  have htake : (header name mode size kind ++ tail).take blockLen =
      header name mode size kind := by
    rw [← hlen, take_left]
  have hdata : slice? (header name mode size kind ++ tail) blockLen (blockLen + cutSize size) =
      if cutSize size ≤ tail.length then some (tail.take (cutSize size)) else none := by
    have hrange : (blockLen ≤ blockLen + cutSize size ∧
        blockLen + cutSize size ≤ (header name mode size kind ++ tail).length) ↔
        cutSize size ≤ tail.length := by
      rw [length_append, hlen]
      omega
    simp only [slice?, hrange]
    refine if_congr Iff.rfl (congrArg some ?_) rfl
    rw [slice, drop_take, Nat.add_sub_cancel_left, ← hlen, drop_left]
  rw [nextMember, if_neg (by rw [length_append]; omega)]
  simp only [htake, all_header, Bool.false_eq_true, if_false, slice_header_magic, ne_eq,
    not_true_eq_false, octal_checksum, octal_size, Fallible.ok_bind, hdata]
  by_cases hfits : cutSize size ≤ tail.length
  · simp only [if_pos hfits]
    rfl
  · simp only [if_neg hfits]

end Epistle.Backup
