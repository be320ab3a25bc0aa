import Epistle.Lib.Base64
import Epistle.Lib.LossyText
import Epistle.Lib.Text
import Mathlib.Data.List.Forall2

/-!
# Sender rewriting

The envelope sender of forwarded mail (`queue/srs`): `Srs.forward` puts the sender into a signed
address of our own domain, and `Srs.reverse` reads it back from the local part of a bounce. The
prefix is cut off at its length in octets, which is an error inside a character.

* `Srs.reverse_iff`: an address made here is read back until it is too old, and a local part is
  answered, with the hash of what it names, exactly if no character lies across its fifth octet.
-/

namespace Epistle.Queue

open Lib Text List Option

/-- A rewriter: the tags its secret gives. -/
structure Srs where
  /-- HMAC-SHA256 under the secret. -/
  sign : List UInt8 → List UInt8
  length_sign : ∀ data, (sign data).length = 32

/-- What a rewritten local part begins with. -/
def srs0 : List Char := "SRS0=".toList

def base32 : List Char := "ABCDEFGHIJKLMNOPQRSTUVWXYZ234567".toList

def tsModulus : ℕ := 1024

/-- The day in two letters. -/
def encodeTimestamp (days : ℕ) : List Char :=
  let value := days % tsModulus
  [base32.getD (value / 32 % 32) 'A', base32.getD (value % 32) 'A']

open Utf8

def base32Value (c : UInt8) : Option ℕ := base32.idxOf? (ascii c).toUpper

/-- The day that two letters stand for. -/
def decodeTimestamp (ts : List Char) : Option ℕ :=
  match encode ts with
  | [hi, lo] => do
      let hi ← base32Value hi
      let lo ← base32Value lo
      return hi * 32 + lo
  | _ => none

/-- How many days ago a day was. -/
def timestampAge (stamp nowDays : ℕ) : ℕ := (nowDays % tsModulus + tsModulus - stamp) % tsModulus

def stripPrefixCi (text head : List Char) : Option (Option (List Char)) :=
  if (encode text).length < (encode head).length then some none
  else (takeOctets (encode head).length text).map fun start =>
    if eqIgnoreAsciiCase start head then some (text.drop start.length) else none

/-- Whether two texts are the same, in a time that does not tell where they differ. -/
def constantTimeEq (a b : List UInt8) : Bool :=
  a.length == b.length && (a.zip b).foldl (fun diff xy => diff ||| (xy.1 ^^^ xy.2)) 0 == 0

namespace Srs

variable (srs : Srs)

/-- The tag of an address. -/
def hash (ts domain localPart : List Char) : List Char :=
  let data := toLower (ts ++ '=' :: domain ++ '=' :: localPart)
  (Base64.encode (srs.sign (encode data))).take 4

def srsLocal (localPart domain : List Char) (nowDays : ℕ) : List Char :=
  let ts := encodeTimestamp nowDays
  srs0 ++ (srs.hash ts domain localPart ++ '=' :: (ts ++ '=' :: (domain ++ '=' :: localPart)))

/-- The address that a message is sent on from. -/
def forward (localPart domain ourDomain : List Char) (nowDays : ℕ) : List Char :=
  srs.srsLocal localPart domain nowDays ++ '@' :: ourDomain

/-- The sender behind `SRS0=`. -/
def reverseRest (rest : List Char) (nowDays maxAgeDays : ℕ) : Option (List Char × List Char) := do
  let (hash, rest) ← splitOnce '=' rest
  let (ts, rest) ← splitOnce '=' rest
  let (domain, localPart) ← splitOnce '=' rest
  if domain = [] ∨ localPart = [] then none
  else if !constantTimeEq (encode (srs.hash ts domain localPart)) (encode hash) then none
  else
    let stamp ← decodeTimestamp ts
    if timestampAge stamp nowDays > maxAgeDays then none else some (localPart, domain)

/-- The sender of an address made by `forward`. -/
def reverse (srsLocal : List Char) (nowDays maxAgeDays : ℕ) :
    Option (Option (List Char × List Char)) :=
  (stripPrefixCi srsLocal srs0).map fun rest =>
    rest.bind (srs.reverseRest · nowDays maxAgeDays)

end Srs

/-! ## Fields -/

lemma foldl_or_eq_zero (ds : List (UInt8 × UInt8)) (d : UInt8) :
    ds.foldl (fun diff xy => diff ||| (xy.1 ^^^ xy.2)) d = 0 ↔ d = 0 ∧ ∀ xy ∈ ds, xy.1 = xy.2 := by
  induction ds generalizing d with
  | nil => simp
  | cons xy ds ih =>
    rw [foldl_cons, ih, UInt8.or_eq_zero_iff, UInt8.xor_eq_zero_iff, forall_mem_cons,
      and_assoc]

lemma constantTimeEq_iff {a b : List UInt8} : constantTimeEq a b ↔ a = b := by
  have hzip := @forall₂_iff_zip _ _ (· = ·) a b
  rw [forall₂_eq_eq_eq] at hzip
  rw [constantTimeEq, Bool.and_eq_true, beq_iff_eq, beq_iff_eq, foldl_or_eq_zero, hzip]
  simp

lemma decodeTimestamp_encodeTimestamp (days : ℕ) :
    decodeTimestamp (encodeTimestamp days) = some (days % tsModulus) := by
  have hdigit : ∀ n : Fin 32, (base32.getD n 'A').toNat < 128 ∧
      base32Value (UInt8.ofNat (base32.getD n 'A').toNat) = some n.1 := by decide
  obtain ⟨hhi, hvalue⟩ := hdigit ⟨days % tsModulus / 32 % 32, Nat.mod_lt _ (by decide)⟩
  obtain ⟨hlo, hvalue'⟩ := hdigit ⟨days % tsModulus % 32, Nat.mod_lt _ (by decide)⟩
  have hbytes := encode_of_ascii (s := encodeTimestamp days)
    (forall_mem_cons.2 ⟨hhi, forall_mem_singleton.2 hlo⟩)
  rw [decodeTimestamp, hbytes]
  have hday : days % tsModulus / 32 % 32 * 32 + days % tsModulus % 32 = days % tsModulus := by
    unfold tsModulus
    omega
  change ((base32Value _).bind fun hi => (base32Value _).bind fun lo => some (hi * 32 + lo)) = _
  rw [hvalue, hvalue', bind_some, bind_some, hday]

lemma timestampAge_eq {d n : ℕ} (hd : d ≤ n) (hn : n < d + 1024) :
    timestampAge (d % tsModulus) n = n - d := by
  unfold timestampAge tsModulus
  omega

lemma equals_notMem_take {tag : List UInt8} (h : tag.length = 32) :
    '=' ∉ (Base64.encode tag).take 4 := by
  obtain _ | ⟨a, _ | ⟨b, _ | ⟨c, rest⟩⟩⟩ := tag
  iterate 3 · simp at h
  have ha := a.toNat_lt
  have hb := b.toNat_lt
  have hc := c.toNat_lt
  simp only [Base64.encode, take_succ_cons, take_zero, mem_cons, not_mem_nil, or_false, not_or]
  refine ⟨?_, ?_, ?_, ?_⟩ <;> exact (Base64.symbol_ne_pad (by omega)).symm

lemma equals_notMem_encodeTimestamp (days : ℕ) : '=' ∉ encodeTimestamp days := by
  have hdigit : ∀ n : Fin 32, '=' ≠ base32.getD n 'A' := by decide
  simp only [encodeTimestamp, mem_cons, not_mem_nil, or_false, not_or]
  exact ⟨hdigit ⟨_, Nat.mod_lt _ (by decide)⟩, hdigit ⟨_, Nat.mod_lt _ (by decide)⟩⟩

lemma stripPrefixCi_append (rest : List Char) :
    stripPrefixCi (srs0 ++ rest) srs0 = some (some rest) := by
  have hascii : ∀ c ∈ srs0, c.toNat < 128 := by decide
  have hlen : (encode srs0).length = srs0.length := by
    rw [encode_of_ascii hascii, length_map]
  have htake := takeOctets_ascii hascii rest
  unfold stripPrefixCi
  rw [if_neg (by rw [encode_append, length_append]; omega), hlen, htake, map_some,
    if_pos (by decide), drop_left]

variable (srs : Srs) {text localPart domain : List Char} {n m : ℕ}

lemma Srs.reverseRest_eq_some {rest : List Char} :
    srs.reverseRest rest n m = some (localPart, domain) ↔ domain ≠ [] ∧ localPart ≠ [] ∧
      '=' ∉ domain ∧ ∃ ts stamp, '=' ∉ srs.hash ts domain localPart ∧ '=' ∉ ts ∧
        rest = srs.hash ts domain localPart ++ '=' :: (ts ++ '=' :: (domain ++ '=' :: localPart)) ∧
        decodeTimestamp ts = some stamp ∧ timestampAge stamp n ≤ m := by
  constructor
  · intro h
    simp only [reverseRest, bind_eq_bind, bind_eq_some_iff, Prod.exists,
      splitOnce_eq_some] at h
    obtain ⟨hash, _, ⟨rfl, hhash⟩, ts, _, ⟨rfl, hts⟩, domain', localPart', ⟨rfl, hdomain⟩, h⟩ := h
    split_ifs at h with hne heq
    obtain ⟨stamp, hstamp, h⟩ := bind_eq_some_iff.1 h
    split_ifs at h with hage
    obtain ⟨rfl, rfl⟩ := Prod.mk.inj (some.inj h)
    have hfield : srs.hash ts domain' localPart' = hash := by
      have hbytes := constantTimeEq_iff.1 (by simpa using heq)
      rw [← some.injEq, ← decode_encode, hbytes, decode_encode]
    obtain ⟨hd, hl⟩ := not_or.1 hne
    exact ⟨hd, hl, hdomain, ts, stamp, hfield ▸ hhash, hts, by rw [hfield], hstamp, not_lt.1 hage⟩
  · rintro ⟨hd, hl, hdomain, ts, stamp, hhash, hts, rfl, hstamp, hage⟩
    simp only [reverseRest, splitOnce_eq_some.2 ⟨rfl, hhash⟩, splitOnce_eq_some.2 ⟨rfl, hts⟩,
      splitOnce_eq_some.2 ⟨rfl, hdomain⟩, bind_eq_bind, bind_some]
    rw [if_neg (not_or.2 ⟨hd, hl⟩), if_neg (by simp [constantTimeEq_iff]), hstamp, bind_some,
      if_neg (not_lt.2 hage)]

lemma stripPrefixCi_isSome : (stripPrefixCi text srs0).isSome ↔
    (encode text).length < 5 ∨ (takeOctets 5 text).isSome := by
  have hlen : (encode srs0).length = 5 := by decide
  rw [stripPrefixCi, hlen]
  split_ifs with h <;> simp [h]

lemma eq_append_of_stripPrefixCi {rest : List Char}
    (h : stripPrefixCi text srs0 = some (some rest)) :
    ∃ start, text = start ++ rest ∧ eqIgnoreAsciiCase start srs0 := by
  unfold stripPrefixCi at h
  split_ifs at h
  · simp at h
  obtain ⟨start, hstart, h⟩ := map_eq_some_iff.1 h
  split_ifs at h with heq
  obtain ⟨rest, rfl⟩ := takeOctets_prefix hstart
  rw [drop_left, some.injEq] at h
  exact ⟨start, by rw [h], heq⟩

/-- Sender rewriting. An address made on day `d` is read back on day `n` exactly if it has a local
part and is not older than `m` days; and a local part is answered, with the hash of the fields
returned in its place, exactly if it is short or a character ends at its fifth octet. -/
theorem Srs.reverse_iff (hdomain : domain ≠ []) (heq : '=' ∉ domain) (ourDomain : List Char) {d : ℕ}
    (hd : d ≤ n) (hn : n < d + 1024) (nowDays maxAgeDays : ℕ) :
    (∃ address, srs.forward localPart domain ourDomain d = address ++ '@' :: ourDomain ∧
      (srs.reverse address n m = some (some (localPart, domain)) ↔ localPart ≠ [] ∧ n - d ≤ m)) ∧
    ((∃ answer, srs.reverse text nowDays maxAgeDays = some answer ∧
      ∀ l o, answer = some (l, o) → ∃ start ts, eqIgnoreAsciiCase start srs0 ∧
        text = start ++ (srs.hash ts o l ++ '=' :: (ts ++ '=' :: (o ++ '=' :: l)))) ↔
      (encode text).length < 5 ∨ (takeOctets 5 text).isSome) := by
  constructor
  · have hhash : '=' ∉ srs.hash (encodeTimestamp d) domain localPart :=
      equals_notMem_take (srs.length_sign _)
    have hts := equals_notMem_encodeTimestamp d
    refine ⟨srs.srsLocal localPart domain d, rfl, ?_⟩
    rw [reverse, srsLocal, stripPrefixCi_append, map_some, bind_some, some.injEq,
      reverseRest_eq_some]
    constructor
    · rintro ⟨-, hl, -, ts, stamp, hhash', hts', hrest, hstamp, hage⟩
      -- The fields of the two readings are the same: none has the sign in it.
      obtain ⟨-, hrest⟩ := Prod.mk.inj (some.inj ((splitOnce_eq_some.2 ⟨rfl, hhash⟩).symm.trans
        (splitOnce_eq_some.2 ⟨hrest, hhash'⟩)))
      obtain ⟨rfl, -⟩ := Prod.mk.inj (some.inj ((splitOnce_eq_some.2 ⟨rfl, hts⟩).symm.trans
        (splitOnce_eq_some.2 ⟨hrest, hts'⟩)))
      obtain rfl := some.inj ((decodeTimestamp_encodeTimestamp d).symm.trans hstamp)
      exact ⟨hl, timestampAge_eq hd hn ▸ hage⟩
    · rintro ⟨hl, hage⟩
      exact ⟨hdomain, hl, heq, _, _, hhash, hts, rfl, decodeTimestamp_encodeTimestamp d,
        (timestampAge_eq hd hn).trans_le hage⟩
  · rw [← stripPrefixCi_isSome]
    constructor
    · rintro ⟨answer, h, -⟩
      obtain ⟨rest, hrest, -⟩ := map_eq_some_iff.1 h
      exact Option.isSome_of_eq_some hrest
    · intro h
      obtain ⟨rest, hrest⟩ := isSome_iff_exists.1 h
      refine ⟨rest.bind (srs.reverseRest · nowDays maxAgeDays), by rw [reverse, hrest]; rfl, ?_⟩
      intro l o hanswer
      obtain ⟨rest, rfl, hfields⟩ := bind_eq_some_iff.1 hanswer
      obtain ⟨start, rfl, hstart⟩ := eq_append_of_stripPrefixCi hrest
      obtain ⟨-, -, -, ts, -, -, -, rfl, -⟩ := srs.reverseRest_eq_some.1 hfields
      exact ⟨start, ts, hstart, rfl⟩

def Srs.zero : Srs := ⟨fun _ => List.replicate 32 0, by simp⟩

/-- The tag that the secret `secret` gives to `ah=b=a`; no other text is signed below. -/
def Srs.secretTag (data : List UInt8) : List UInt8 :=
  if data = encode "ah=b=a".toList then
    [0xf3, 0x99, 0x5f, 0xfb, 0x1f, 0x61, 0xd5, 0x2f, 0x40, 0x7b, 0x48, 0x69, 0x35, 0x88, 0x65, 0x2b,
      0x81, 0xbb, 0xd9, 0xdf, 0x72, 0x6f, 0x5c, 0x7a, 0x38, 0x6a, 0x7c, 0x83, 0x9e, 0x85, 0x79, 0x0f]
  else List.replicate 32 0

lemma Srs.length_secretTag (data : List UInt8) : (secretTag data).length = 32 := by
  unfold secretTag
  split_ifs <;> rfl

/-- The rewriter of that secret. -/
def Srs.secret : Srs := ⟨secretTag, length_secretTag⟩

/-- An address that is read back on the day it was made. -/
theorem Srs.reverse_same_day : ['b'] ≠ [] ∧ '=' ∉ ['b'] ∧ ∃ address,
    Srs.secret.forward ['a'] ['b'] ['c'] 7 = address ++ '@' :: ['c'] ∧
      Srs.secret.reverse address 7 0 = some (some (['a'], ['b'])) := by
  obtain ⟨⟨address, hforward, hreverse⟩, -⟩ := @Srs.reverse_iff Srs.secret [] ['a'] ['b'] 7 0
    (by decide) (by decide) ['c'] 7 le_rfl (by decide) 0 0
  exact ⟨by decide, by decide, address, hforward, hreverse.2 ⟨by decide, by decide⟩⟩

/-- The cut at five octets is inside the last character. -/
theorem Srs.reverse_across_fifth : ¬ ∃ answer, Srs.zero.reverse "aaaaß".toList 0 0 =
    some answer := by
  have h : Srs.zero.reverse "aaaaß".toList 0 0 = none := by decide
  rintro ⟨answer, hanswer⟩
  cases h.symm.trans hanswer

end Epistle.Queue
