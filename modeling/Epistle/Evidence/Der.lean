import Epistle.Lib.Octets
import Mathlib.Data.List.Induction
import Mathlib.Data.List.TakeWhile

/-!
# Elements of a timestamp token

`evidence/tsa/der`: tag, length and value, read and written. Lengths and integers are written in
the fewest digits, and no others are read.

* `encoding_unique`: an element that is read is what would be written for it, and what is written
  is read back; an integer is read from the one content that is written for it.
-/

namespace Epistle.Evidence.Der

open Lib.Octets List

/-- Why some octets are not read. -/
inductive DerError
  | truncated | highTag | badLength | badValue

/-- A tag and its content. -/
structure Tlv where
  tag : UInt8
  value : List UInt8
  raw : List UInt8

def number (digits : List UInt8) : ℕ := digits.foldl (fun n digit => (n <<< 8) ||| digit.toNat) 0

/-- The length that starts with `first`, and what is behind it. -/
def readLength (first : UInt8) (rest : List UInt8) : Except DerError (ℕ × List UInt8) :=
  if first < 0x80 then .ok (first.toNat, rest)
  else
    let count := (first &&& 0x7f).toNat
    if count = 0 ∨ count > 4 ∨ rest.length < count then
      .error (if rest.length < count then .truncated else .badLength)
    else
      let digits := rest.take count
      if digits.head? = some 0 ∨ number digits < 0x80 then .error .badLength
      else .ok (number digits, rest.drop count)

/-- The first value of some octets, and what is behind it. -/
def readTlv : List UInt8 → Except DerError (Tlv × List UInt8)
  | [] => .error .truncated
  | tag :: afterTag =>
    if tag &&& 0x1f = 0x1f then .error .highTag
    else match afterTag with
      | [] => .error .truncated
      | first :: rest => do
        let (length, rest') ← readLength first rest
        if rest'.length < length then throw .truncated
        let header := rest.length + 2 - rest'.length
        return (⟨tag, rest'.take length, (tag :: first :: rest).take (header + length)⟩,
          rest'.drop length)

/-- The number in an integer of at most eight octets. -/
def smallUnsigned (tlv : Tlv) : Except DerError ℕ :=
  match tlv.value with
  | [] => .error .badValue
  | first :: rest =>
    if first &&& 0x80 ≠ 0 ∨ first = 0 ∧ rest.head?.any (· &&& 0x80 = 0) then .error .badValue
    else
      let digits := if first = 0 then rest else first :: rest
      if digits.length > 8 then .error .badValue else .ok (number digits)

/-- The digits of a word, without leading zeros. -/
def minimal (n : ℕ) : List UInt8 := (leBytes 8 n).reverse.dropWhile (· = 0)

/-- The octets of a length. -/
def lengthOctets (length : ℕ) : List UInt8 :=
  if length < 0x80 then [.ofNat length]
  else (0x80 ||| .ofNat (minimal length).length) :: minimal length

/-- The octets of a value. -/
def encode (tag : UInt8) (content : List UInt8) : List UInt8 :=
  tag :: lengthOctets content.length ++ content

def unsignedContent (value : ℕ) : List UInt8 :=
  let digits := minimal value
  if digits.head?.all (· &&& 0x80 ≠ 0) then 0 :: digits else digits

/-! ## Digits -/

variable {n : ℕ} {digits rest after : List UInt8} {first : UInt8}

lemma number_concat (digits : List UInt8) (digit : UInt8) :
    number (digits ++ [digit]) = 256 * number digits + digit.toNat := by
  rw [number, foldl_append, foldl_cons, foldl_nil,
    ← Nat.shiftLeft_add_eq_or_of_lt digit.toNat_lt, Nat.shiftLeft_eq, mul_comm]
  rfl

lemma number_eq (digits : List UInt8) : number digits = ofLe digits.reverse := by
  induction digits using reverseRecOn with
  | nil => rfl
  | append_singleton digits digit ih =>
    rw [number_concat, reverse_append, ih]
    exact add_comm ..

lemma leBytes_ofLe (l : List UInt8) (k : ℕ) : leBytes (l.length + k) (ofLe l) = l ++
    replicate k 0 := by
  induction l with
  | nil =>
    induction k with
    | zero => rfl
    | succ k ih => simp_all [leBytes, ofLe, replicate_succ]
  | cons b l ih =>
    have hb : UInt8.ofNat (b.toNat + 256 * ofLe l) = b := by
      apply UInt8.toNat_inj.1
      have := b.toNat_lt
      simp only [UInt8.toNat_ofNat']
      omega
    have hdiv : (b.toNat + 256 * ofLe l) / 256 = ofLe l := by
      have := b.toNat_lt
      omega
    rw [length_cons, Nat.succ_add, leBytes, ofLe, hb, hdiv, ih, cons_append]

/-- Digits without a leading zero are those of their number. -/
lemma minimal_number (hhead : digits.head? ≠ some 0) (hlen : digits.length ≤ 8) :
    minimal (number digits) = digits := by
  have h := leBytes_ofLe digits.reverse (8 - digits.length)
  rw [length_reverse, Nat.add_sub_cancel' hlen] at h
  rw [minimal, number_eq, h, reverse_append, reverse_reverse, reverse_replicate,
    dropWhile_append_of_pos (by simp)]
  cases digits with
  | nil => rfl
  | cons digit digits => exact dropWhile_cons_of_neg (by simpa using hhead)

lemma number_minimal (h : n < 2 ^ 64) : number (minimal n) = n := by
  have hzeros : ∀ l : List UInt8, number (l.dropWhile (· = 0)) = number l := by
    intro l
    induction l with
    | nil => rfl
    | cons digit l ih =>
      by_cases hdigit : digit = 0
      · subst hdigit
        simpa [number] using ih
      · simp [hdigit]
  rw [minimal, hzeros, number_eq, reverse_reverse]
  exact ofLe_leBytes h

lemma head_minimal (n : ℕ) : (minimal n).head? ≠ some 0 := by
  intro h
  have := head?_dropWhile_not (· = (0 : UInt8)) (leBytes 8 n).reverse
  rw [← minimal, h] at this
  simp at this

/-- A number of `k` octets has no more digits. -/
lemma length_minimal_le {k : ℕ} (hk : k ≤ 8) (h : n < 256 ^ k) : (minimal n).length ≤ k := by
  have heq := leBytes_ofLe (leBytes k n) (8 - k)
  rw [length_leBytes, Nat.add_sub_cancel' hk, ofLe_leBytes h] at heq
  rw [minimal, heq, reverse_append, reverse_replicate, dropWhile_append_of_pos (by simp)]
  simpa using (dropWhile_suffix (l := (leBytes k n).reverse) (· = 0)).length_le

lemma number_lt (digits : List UInt8) : number digits < 256 ^ digits.length := by
  induction digits using reverseRecOn with
  | nil => simp [number]
  | append_singleton digits digit ih =>
    have := digit.toNat_lt
    rw [number_concat, length_append, length_singleton, pow_succ]
    omega

/-! ## Elements -/

/-- The first octet of a long length counts its digits. -/
lemma count_octet : (∀ k < 256, 128 ≤ k → 0x80 ||| (.ofNat k &&& 0x7f) = UInt8.ofNat k) ∧
    ∀ k ≤ 4, ¬ (0x80 ||| UInt8.ofNat k) < 0x80 ∧ ((0x80 ||| UInt8.ofNat k) &&& 0x7f).toNat = k := by
  decide +kernel

/-- A length is read exactly if it is written so. -/
lemma readLength_iff : readLength first rest = .ok (n, after) ↔
    n < 256 ^ 4 ∧ ∃ digits, lengthOctets n = first :: digits ∧ rest = digits ++ after := by
  unfold readLength
  constructor
  · intro h
    dsimp only at h
    split_ifs at h with hshort hcount hdigits
    · cases h
      have hlt : first.toNat < 0x80 := hshort
      refine ⟨by omega, [], ?_, rfl⟩
      rw [lengthOctets, if_pos hlt, UInt8.ofNat_toNat]
    · obtain ⟨h0, h4, hlen⟩ := not_or.1 hcount |>.imp_right not_or.1
      obtain ⟨hhead, hlong⟩ := not_or.1 hdigits
      cases h
      have htake : (rest.take (first &&& 0x7f).toNat).length = (first &&& 0x7f).toNat :=
        length_take_of_le (not_lt.1 hlen)
      have hlt := number_lt (rest.take (first &&& 0x7f).toNat)
      have hmin := minimal_number hhead (by omega)
      have hfirst := count_octet.1 first.toNat first.toNat_lt (not_lt.1 hshort)
      refine ⟨hlt.trans_le (Nat.pow_le_pow_right (by decide) (by omega)),
        rest.take (first &&& 0x7f).toNat, ?_, (take_append_drop ..).symm⟩
      rw [lengthOctets, if_neg hlong, hmin, htake, UInt8.ofNat_toNat]
      simpa using hfirst
  · rintro ⟨hlt, digits, hoctets, rfl⟩
    rw [lengthOctets] at hoctets
    split_ifs at hoctets with hshort
    · cases hoctets
      have : (UInt8.ofNat n).toNat = n := UInt8.toNat_ofNat_of_lt' (hshort.trans (by decide))
      rw [if_pos (by rwa [UInt8.lt_iff_toNat_lt, this]), this]
      rfl
    · cases hoctets
      have hle := length_minimal_le (by decide) hlt
      have hnumber := number_minimal (n := n) (by omega)
      obtain ⟨hlarge, hcount⟩ := count_octet.2 _ hle
      have hne : (minimal n).length ≠ 0 := fun h => by
        rw [length_eq_zero_iff.1 h] at hnumber
        exact hshort (hnumber ▸ by decide)
      have hfits : ¬ ((minimal n).length = 0 ∨ (minimal n).length > 4 ∨
          (minimal n ++ after).length < (minimal n).length) := by
        rw [length_append]
        omega
      rw [if_neg hlarge]
      dsimp only
      rw [hcount, if_neg hfits, take_left, drop_left, hnumber,
        if_neg (not_or.2 ⟨head_minimal n, hshort⟩)]

lemma readTlv_cons {tag : UInt8} (htag : ¬ tag &&& 0x1f = 0x1f) (hlength : n < 256 ^ 4)
    (hn : lengthOctets n = first :: digits) (after : List UInt8) :
    readTlv (tag :: first :: (digits ++ after)) =
      if after.length < n then .error .truncated
      else .ok (⟨tag, after.take n, tag :: lengthOctets n ++ after.take n⟩, after.drop n) := by
  rw [readTlv, if_neg htag]
  simp only [readLength_iff.2 ⟨hlength, digits, hn, rfl⟩, bind, Except.bind]
  split_ifs
  · rfl
  · have hheader : (digits ++ after).length + 2 - after.length + n = digits.length + n + 2 := by
      rw [length_append]
      omega
    rw [hheader, take_succ_cons, take_succ_cons, take_length_add_append, hn]
    rfl

/-- What is read is written so. -/
lemma spec_of_readTlv {input : List UInt8} {e : Tlv} (h : readTlv input = .ok (e, after)) :
    e.value.length < 256 ^ 4 ∧ e.raw = encode e.tag e.value ∧ input = e.raw ++ after := by
  obtain _ | ⟨tag, _ | ⟨first, rest⟩⟩ := input
  · cases h
  · rw [readTlv] at h
    split_ifs at h
  by_cases htag : tag &&& 0x1f = 0x1f
  · rw [readTlv, if_pos htag] at h
    cases h
  cases hlength : readLength first rest with
  | error e => simp [readTlv, htag, hlength, bind, Except.bind] at h
  | ok p =>
    obtain ⟨hlt, digits, hoctets, rfl⟩ := readLength_iff.1 hlength
    rw [readTlv_cons htag hlt hoctets] at h
    split_ifs at h with hlong
    cases h
    refine ⟨(length_take_le ..).trans_lt hlt, ?_, by simp [hoctets]⟩
    rw [encode, length_take_of_le (not_lt.1 hlong)]

lemma raw_of_readTlv {input : List UInt8} {e : Tlv} (h : readTlv input = .ok (e, after)) :
    e.raw = encode e.tag e.value :=
  (spec_of_readTlv h).2.1

lemma readTlv_encode {tag : UInt8} (htag : ¬ tag &&& 0x1f = 0x1f) {content : List UInt8}
    (h : content.length < 256 ^ 4) (rest : List UInt8) :
    readTlv (encode tag content ++ rest) = .ok (⟨tag, content, encode tag content⟩, rest) := by
  obtain ⟨first, digits, hoctets⟩ : ∃ first digits,
      lengthOctets content.length = first :: digits := by
    unfold lengthOctets
    split_ifs
    · exact ⟨_, _, rfl⟩
    · exact ⟨_, _, rfl⟩
  have hread := readTlv_cons htag h hoctets (content ++ rest)
  rw [if_neg (by rw [length_append]; omega), take_left, drop_left] at hread
  simpa [encode, hoctets] using hread

/-- The sign bit decides between the two forms of an integer. -/
lemma smallUnsigned_iff (e : Tlv) (h : n < 2 ^ 64) :
    smallUnsigned e = .ok n ↔ e.value = unsignedContent n := by
  constructor
  · intro hread
    obtain ⟨tag, _ | ⟨first, rest⟩, raw⟩ := e
    · cases hread
    simp only [smallUnsigned] at hread
    split_ifs at hread with hbad hzero hlong hlong <;> cases hread
    · subst hzero
      have hsecond := (not_or.1 hbad).2
      have hhead : rest.head? ≠ some 0 := fun h => hsecond (by simp [h])
      rw [unsignedContent, minimal_number hhead (not_lt.1 hlong)]
      cases rest <;> simp_all
    · have hhead : (first :: rest).head? ≠ some 0 := by simpa using hzero
      rw [unsignedContent, minimal_number hhead (not_lt.1 hlong)]
      simp_all
  · intro hvalue
    have hnumber := number_minimal h
    have hhead := head_minimal n
    have hlen := length_minimal_le (le_refl 8) h
    rw [smallUnsigned, hvalue, unsignedContent]
    cases hdigits : minimal n with
    | nil => simp_all
    | cons first rest => by_cases htop : first &&& 0x80 = 0 <;> simp_all

/-- Each element has one encoding, and each number one content. -/
theorem encoding_unique :
    (∀ input e rest, readTlv input = .ok (e, rest) → e.raw = encode e.tag e.value) ∧
    (∀ tag content rest, ¬ tag &&& 0x1f = 0x1f → content.length < 2 ^ 32 →
      readTlv (encode tag content ++ rest) = .ok (⟨tag, content, encode tag content⟩, rest)) ∧
    ∀ e n, n < 2 ^ 64 → (smallUnsigned e = .ok n ↔ e.value = unsignedContent n) :=
  ⟨fun _ _ _ => raw_of_readTlv, fun _ _ rest htag h => readTlv_encode htag h rest,
    fun e _ => smallUnsigned_iff e⟩

end Epistle.Evidence.Der
