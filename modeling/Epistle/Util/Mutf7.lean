import Epistle.Lib.Text

/-!
# Modified UTF-7

The spelling of international mailbox names (`util/mutf7`): printable ASCII stands for itself, apart
from `&`, and every run of other characters is the base64 of their UTF-16, between `&` and `-`. A
name decodes only if it is the one spelling of what it decodes to.

* `Mutf7.decode_eq_some_iff`: decoding is the inverse of encoding.
-/

namespace Epistle.Util.Mutf7

open Lib.Text List Option

def alphabet : List Char :=
  "ABCDEFGHIJKLMNOPQRSTUVWXYZabcdefghijklmnopqrstuvwxyz0123456789+,".toList

def isPrintable (c : Char) : Bool := ' ' ≤ c && c ≤ '~'

/-! ## UTF-16 -/

def encodeUtf16 (c : Char) : List ℕ :=
  if c.toNat < 0x10000 then [c.toNat]
  else [0xD800 + (c.toNat - 0x10000) / 0x400, 0xDC00 + (c.toNat - 0x10000) % 0x400]

def fromUtf16 : List ℕ → Option (List Char)
  | [] => some []
  | [u] => if 0xD800 ≤ u ∧ u < 0xE000 then none else some [Char.ofNat u]
  | u :: v :: rest =>
      if 0xD800 ≤ u ∧ u < 0xDC00 then
        if 0xDC00 ≤ v ∧ v < 0xE000 then do
          let more ← fromUtf16 rest
          return Char.ofNat (0x10000 + (u - 0xD800) * 0x400 + (v - 0xDC00)) :: more
        else none
      else if 0xDC00 ≤ u ∧ u < 0xE000 then none
      else do
        let more ← fromUtf16 (v :: rest)
        return Char.ofNat u :: more

/-! ## Runs -/

def symbols : List ℕ → List ℕ
  | [] => []
  | [a] => [a / 4, a % 4 * 16]
  | [a, b] => [a / 4, a % 4 * 16 + b / 16, b % 16 * 4]
  | a :: b :: c :: rest =>
      a / 4 :: (a % 4 * 16 + b / 16) :: (b % 16 * 4 + c / 64) :: c % 64 :: symbols rest

def flush (run : List ℕ) : List Char :=
  if run = [] then []
  else
    '&' :: (symbols (run.flatMap fun unit => [unit / 256, unit % 256])).map (alphabet.getD · 'A') ++
      ['-']

def octetsFrom : ℕ → ℕ → List ℕ → List ℕ
  | _, _, [] => []
  | bits, count, value :: rest =>
      let bits := bits * 64 + value
      let count := count + 6
      if 8 ≤ count then
        (bits / 2 ^ (count - 8)) % 256 :: octetsFrom (bits % 2 ^ (count - 8)) (count - 8) rest
      else octetsFrom bits count rest

def units : List ℕ → Option (List ℕ)
  | [] => some []
  | [_] => none
  | a :: b :: rest => do
      let more ← units rest
      return (a * 256 + b) :: more

def decodeRun (run : List Char) : Option (List Char) := do
  let values ← run.mapM fun symbol => alphabet.idxOf? symbol
  let units ← units (octetsFrom 0 0 values)
  fromUtf16 units

/-! ## Names -/

def encodeFrom : List ℕ → List Char → List Char
  | run, [] => flush run
  | run, c :: name =>
      if isPrintable c then
        flush run ++ (if c = '&' then ['&', '-'] else [c]) ++ encodeFrom [] name
      else encodeFrom (run ++ encodeUtf16 c) name

/-- A name in modified UTF-7. -/
def encode (name : List Char) : List Char := encodeFrom [] name

def decodeFrom : ℕ → List Char → Option (List Char)
  | _, [] => some []
  | 0, _ :: _ => none
  | fuel + 1, c :: rest =>
      if c = '&' then do
        let (run, after) ← splitOnce '-' rest
        let decoded ← if run = [] then some ['&'] else decodeRun run
        let more ← decodeFrom fuel after
        return decoded ++ more
      else if isPrintable c then do
        let more ← decodeFrom fuel rest
        return c :: more
      else none

/-- The name that a text in modified UTF-7 stands for, if it is written as it would be. -/
def decode (name : List Char) : Option (List Char) := do
  let out ← decodeFrom name.length name
  if encode out = name then some out else none

lemma encode_of_decode {name out : List Char} (h : decode name = some out) : encode out = name := by
  obtain ⟨decoded, -, h⟩ := bind_eq_some_iff.1 h
  split_ifs at h with hsame
  exact some.inj h ▸ hsame

/-! ## Units and octets are read back -/

lemma toNat_valid (c : Char) : c.toNat < 0xD800 ∨ 0xDFFF < c.toNat ∧ c.toNat < 0x110000 := c.valid

lemma encodeUtf16_lt {c : Char} {unit : ℕ} (h : unit ∈ encodeUtf16 c) : unit < 0x10000 := by
  have hc := toNat_valid c
  unfold encodeUtf16 at h
  split_ifs at h with hlow
  · rw [mem_singleton.1 h]
    exact hlow
  · simp only [mem_cons, not_mem_nil, or_false] at h
    omega

lemma fromUtf16_encodeUtf16 (c : Char) (rest : List ℕ) :
    fromUtf16 (encodeUtf16 c ++ rest) = (fromUtf16 rest).map (c :: ·) := by
  have hc := toNat_valid c
  unfold encodeUtf16
  split_ifs with hlow
  · -- No character is a surrogate, so the unit stands for itself.
    have hself : ¬(0xD800 ≤ c.toNat ∧ c.toNat < 0xE000) := by omega
    cases rest with
    | nil => simp [fromUtf16, hself]
    | cons unit rest =>
      rw [singleton_append, fromUtf16, if_neg (by omega), if_neg (by omega), Char.ofNat_toNat]
      cases fromUtf16 (unit :: rest) <;> rfl
  · rw [cons_append, singleton_append, fromUtf16, if_pos (by omega), if_pos (by omega)]
    have hpair : 0x10000 + (0xD800 + (c.toNat - 0x10000) / 0x400 - 0xD800) * 0x400 +
        (0xDC00 + (c.toNat - 0x10000) % 0x400 - 0xDC00) = c.toNat := by omega
    rw [hpair, Char.ofNat_toNat]
    cases fromUtf16 rest <;> rfl

lemma fromUtf16_flatMap (chars : List Char) : fromUtf16 (chars.flatMap encodeUtf16) =
    some chars := by
  induction chars with
  | nil => rfl
  | cons c chars ih => rw [flatMap_cons, fromUtf16_encodeUtf16, ih, map_some]

lemma units_flatMap (run : List ℕ) :
    units (run.flatMap fun unit => [unit / 256, unit % 256]) = some run := by
  induction run with
  | nil => rfl
  | cons unit run ih => simp [units, ih, Nat.div_add_mod']

lemma octetsFrom_symbols {octets : List ℕ} (h : ∀ octet ∈ octets, octet < 256) :
    octetsFrom 0 0 (symbols octets) = octets := by
  induction octets using symbols.induct with
  | case1 => rfl
  | case2 a =>
    simp only [forall_mem_cons] at h
    simp [symbols, octetsFrom]
    omega
  | case3 a b =>
    simp only [forall_mem_cons] at h
    simp [symbols, octetsFrom]
    omega
  | case4 a b c rest ih =>
    simp only [forall_mem_cons] at h
    obtain ⟨ha, hb, hc, hrest⟩ := h
    simp [symbols, octetsFrom, Nat.mod_one, ih hrest]
    omega

lemma symbols_lt {octets : List ℕ} (h : ∀ octet ∈ octets, octet < 256) :
    ∀ value ∈ symbols octets, value < 64 := by
  induction octets using symbols.induct with
  | case1 => simp [symbols]
  | case2 a =>
    simp only [symbols, forall_mem_cons] at h ⊢
    exact ⟨by omega, by omega, by simp⟩
  | case3 a b =>
    simp only [symbols, forall_mem_cons] at h ⊢
    exact ⟨by omega, by omega, by omega, by simp⟩
  | case4 a b c rest ih =>
    simp only [symbols, forall_mem_cons] at h ⊢
    exact ⟨by omega, by omega, by omega, by omega, ih h.2.2.2⟩

lemma alphabet_symbol : ∀ value < 64, alphabet.idxOf? (alphabet.getD value 'A') = some value ∧
    alphabet.getD value 'A' ≠ '-' := by
  decide

def body (run : List ℕ) : List Char :=
  (symbols (run.flatMap fun unit => [unit / 256, unit % 256])).map (alphabet.getD · 'A')

lemma flush_of_ne_nil {run : List ℕ} (h : run ≠ []) : flush run = '&' :: body run ++ ['-'] :=
    if_neg h

section Run

variable {run : List ℕ}

lemma octets_lt (h : ∀ unit ∈ run, unit < 0x10000) :
    ∀ octet ∈ run.flatMap fun unit => [unit / 256, unit % 256], octet < 256 := by
  intro octet hoctet
  obtain ⟨unit, hunit, hoctet⟩ := mem_flatMap.1 hoctet
  have hlt := h unit hunit
  simp only [mem_cons, not_mem_nil, or_false] at hoctet
  omega

lemma dash_notMem_body (h : ∀ unit ∈ run, unit < 0x10000) : '-' ∉ body run := by
  intro hdash
  obtain ⟨value, hvalue, heq⟩ := List.mem_map.1 hdash
  exact (alphabet_symbol value (symbols_lt (octets_lt h) value hvalue)).2 heq

lemma mapM_body (h : ∀ unit ∈ run, unit < 0x10000) :
    (body run).mapM (fun symbol => alphabet.idxOf? symbol) =
      some (symbols (run.flatMap fun unit => [unit / 256, unit % 256])) := by
  have hlt := symbols_lt (octets_lt h)
  unfold body
  generalize symbols _ = values at hlt ⊢
  induction values with
  | nil => rfl
  | cons value values ih =>
    obtain ⟨hvalue, hvalues⟩ := forall_mem_cons.1 hlt
    rw [map_cons, mapM_cons, (alphabet_symbol value hvalue).1, ih hvalues]
    rfl

end Run

lemma flatMap_encodeUtf16_lt (chars : List Char) :
    ∀ unit ∈ chars.flatMap encodeUtf16, unit < 0x10000 := by
  intro unit hunit
  obtain ⟨c, -, hc⟩ := mem_flatMap.1 hunit
  exact encodeUtf16_lt hc

lemma decodeRun_body (chars : List Char) :
    decodeRun (body (chars.flatMap encodeUtf16)) = some chars := by
  have hlt := flatMap_encodeUtf16_lt chars
  simp only [decodeRun, mapM_body hlt, bind_eq_bind, bind_some,
    octetsFrom_symbols (octets_lt hlt), units_flatMap, fromUtf16_flatMap]

/-! ## Names are read back -/

def Reads (rest out : List Char) : Prop := ∀ fuel, rest.length ≤ fuel →
    decodeFrom fuel rest = some out

variable {rest out : List Char}

lemma Reads.printable {c : Char} (hc : isPrintable c) (hamp : c ≠ '&') (h : Reads rest out) :
    Reads (c :: rest) (c :: out) := by
  rintro (_ | fuel) hfuel
  · simp at hfuel
  · rw [decodeFrom, if_neg hamp, if_pos hc, h fuel (by simpa using hfuel)]
    rfl

lemma Reads.shifted {run decoded : List Char} (hdash : '-' ∉ run)
    (hrun : (if run = [] then some ['&'] else decodeRun run) = some decoded) (h : Reads rest out) :
    Reads ('&' :: run ++ '-' :: rest) (decoded ++ out) := by
  rintro (_ | fuel) hfuel
  · simp at hfuel
  · have hrest : rest.length ≤ fuel := by
      simp only [length_append, length_cons] at hfuel
      omega
    rw [cons_append, decodeFrom, if_pos rfl, splitOnce_eq_some.2 ⟨rfl, hdash⟩]
    simp only [bind_eq_bind, bind_some, h fuel hrest]
    split_ifs at hrun ⊢ with hnil
    · exact congrArg (some <| · ++ out) (some.inj hrun)
    · rw [hrun]
      rfl

lemma Reads.flush (chars : List Char) (h : Reads rest out) :
    Reads (flush (chars.flatMap encodeUtf16) ++ rest) (chars ++ out) := by
  have hbody := decodeRun_body chars
  cases chars with
  | nil => exact h
  | cons c chars =>
    -- A run that is not empty is written with symbols, or it would decode to nothing.
    have hne : (c :: chars).flatMap encodeUtf16 ≠ [] := fun hnil => by
      rw [hnil] at hbody
      cases hbody
    have hsymbols : body ((c :: chars).flatMap encodeUtf16) ≠ [] := fun hnil => by
      rw [hnil] at hbody
      cases hbody
    rw [flush_of_ne_nil hne, append_assoc]
    exact h.shifted (dash_notMem_body (flatMap_encodeUtf16_lt _)) (by rw [if_neg hsymbols, hbody])

lemma reads_encodeFrom (pending name : List Char) :
    Reads (encodeFrom (pending.flatMap encodeUtf16) name) (pending ++ name) := by
  induction name generalizing pending with
  | nil =>
    have hnil : Reads [] [] := fun fuel _ => by cases fuel <;> rfl
    simpa [encodeFrom] using hnil.flush pending
  | cons c name ih =>
    rw [encodeFrom]
    split_ifs with hc hamp
    · subst hamp
      rw [append_assoc]
      exact (Reads.shifted not_mem_nil rfl (ih [])).flush pending
    · rw [append_assoc]
      exact ((ih []).printable hc hamp).flush pending
    · have hpending := ih (pending ++ [c])
      rw [flatMap_append, append_assoc] at hpending
      simpa using hpending

/-- Decoding is the inverse of encoding: every name is read back from its spelling, and no other
spelling decodes to it. -/
theorem decode_eq_some_iff {name out : List Char} : decode name = some out ↔ name = encode out := by
  refine ⟨fun h => (encode_of_decode h).symm, ?_⟩
  rintro rfl
  have hread : decodeFrom (encode out).length (encode out) = some out :=
    reads_encodeFrom [] out _ le_rfl
  rw [decode, hread, bind_eq_bind, bind_some, if_pos rfl]

end Epistle.Util.Mutf7
