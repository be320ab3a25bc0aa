import Epistle.Lib.Lines

/-!
# UTF-8 decoding

An octet-wise UTF-8 machine: between characters, or inside one with the range the next octet must
be in. Octets below `0x80` are characters of their own and never part of another.
-/

namespace Epistle.Lib.Utf8

open List Option

/-- Inside a character: the octets still needed, the bits so far, and the range of the next
octet. -/
structure Pending where
  need : ℕ
  value : ℕ
  low : UInt8
  high : UInt8
  /-- An octet inside a character is not ASCII. -/
  low_ge : 0x80 ≤ low

def first (b : UInt8) : Option (Option Pending × Option Char) :=
  if b < 0x80 then some (none, some (Char.ofNat b.toNat))
  else if b < 0xC2 then none
  else if b < 0xE0 then some (some ⟨1, b.toNat - 0xC0, 0x80, 0xBF, by decide⟩, none)
  else if b < 0xF0 then
    -- No overlong forms, no surrogates.
    some (some ⟨2, b.toNat - 0xE0, if b = 0xE0 then 0xA0 else 0x80,
      if b = 0xED then 0x9F else 0xBF, by split_ifs <;> decide⟩, none)
  else if b < 0xF5 then
    some (some ⟨3, b.toNat - 0xF0, if b = 0xF0 then 0x90 else 0x80,
      if b = 0xF4 then 0x8F else 0xBF, by split_ifs <;> decide⟩, none)
  else none

def step : Option Pending → UInt8 → Option (Option Pending × Option Char)
  | none, b => first b
  | some p, b =>
      if p.low ≤ b ∧ b ≤ p.high then
        let value := p.value * 64 + (b.toNat - 0x80)
        if p.need = 1 then some (none, some (Char.ofNat value))
        else some (some ⟨p.need - 1, value, 0x80, 0xBF, by decide⟩, none)
      else none

/-- The text from a state on. -/
def decodeFrom : Option Pending → List UInt8 → Option (List Char)
  | none, [] => some []
  | some _, [] => none
  | st, b :: bs => do
      let (next, c) ← step st b
      let text ← decodeFrom next bs
      return c.toList ++ text

/-- The text of a valid UTF-8 string. -/
def decode (bs : List UInt8) : Option (List Char) := decodeFrom none bs

def replacement : Char := Char.ofNat 0xFFFD

/-- One octet of any string: the next state, and the text with the replacement character for what
is invalid. -/
def lossyStep (st : Option Pending) (b : UInt8) : Option Pending × List Char :=
  match step st b with
  | some (next, c) => (next, c.toList)
  | none =>
      match st with
      | none => (none, [replacement])
      | some _ =>
          -- The octet ends the invalid part, and is looked at as a first one.
          match first b with
          | some (next, c) => (next, replacement :: c.toList)
          | none => (none, [replacement, replacement])

/-- The text of any string from a state on. -/
def decodeLossyFrom : Option Pending → List UInt8 → List Char
  | none, [] => []
  | some _, [] => [replacement]
  | st, b :: bs => (lossyStep st b).2 ++ decodeLossyFrom (lossyStep st b).1 bs

/-- The text of any string. -/
def decodeLossy (bs : List UInt8) : List Char := decodeLossyFrom none bs

/-! ## ASCII -/

def ascii (b : UInt8) : Char := Char.ofNat b.toNat

@[simp] lemma toNat_ascii (b : UInt8) : (ascii b).toNat = b.toNat := by
  have : b.toNat.isValidChar := .inl (Nat.lt_trans b.toNat_lt (by decide))
  rw [ascii, Char.ofNat, dif_pos this]
  rfl

variable {q : List UInt8} {b : UInt8} {st : Option Pending} {c : Char} {v : ℕ} {s : List Char}

lemma decodeFrom_none_ascii (hq : ∀ b ∈ q, b < 0x80) :
    decodeFrom none q = some (q.map ascii) := by
  induction q with
  | nil => rfl
  | cons b q ih =>
    obtain ⟨hb, hq⟩ := forall_mem_cons.1 hq
    have hstep : step none b = some (none, some (ascii b)) := if_pos hb
    rw [decodeFrom, hstep]
    simp [ih hq]

open UInt8

lemma Pending.step_ascii (p : Pending) (hb : b < 0x80) : step (some p) b = none := by
  refine if_neg fun hin => ?_
  exact absurd (UInt8.lt_of_lt_of_le hb (UInt8.le_trans p.low_ge hin.1)) (UInt8.lt_irrefl b)

lemma decodeFrom_append_ascii {p : List UInt8} (hq : ∀ b ∈ q, b < 0x80) (hne : q ≠ [])
    {text : List Char} (h : decodeFrom st (p ++ q) = some text) : ∃ t, text = t ++ q.map ascii := by
  induction p generalizing st text with
  | nil =>
    cases st with
    | none => exact ⟨[], by simpa [decodeFrom_none_ascii hq] using h.symm⟩
    | some pending =>
      obtain ⟨b, q, rfl⟩ := exists_cons_of_ne_nil hne
      simp [decodeFrom, pending.step_ascii (hq b (mem_cons_self ..))] at h
  | cons b p ih =>
    rw [cons_append] at h
    cases hstep : step st b with
    | none => simp [decodeFrom, hstep] at h
    | some r =>
      obtain ⟨next, c⟩ := r
      simp only [decodeFrom, hstep, bind_eq_bind, bind_some,
        bind_eq_some_iff, Option.pure_def, some.injEq] at h
      obtain ⟨rest, hrest, rfl⟩ := h
      obtain ⟨t, rfl⟩ := ih hrest
      exact ⟨c.toList ++ t, by simp⟩

lemma decodeLossyFrom_none_ascii (hq : ∀ b ∈ q, b < 0x80) :
    decodeLossyFrom none q = q.map ascii := by
  induction q with
  | nil => rfl
  | cons b q ih =>
    obtain ⟨hb, hq⟩ := forall_mem_cons.1 hq
    have hstep : step none b = some (none, some (ascii b)) := if_pos hb
    simp [decodeLossyFrom, lossyStep, hstep, ih hq]

lemma decodeLossyFrom_append_ascii (st : Option Pending) (p : List UInt8)
    (hq : ∀ b ∈ q, b < 0x80) (hne : q ≠ []) :
    ∃ t, decodeLossyFrom st (p ++ q) = t ++ q.map ascii := by
  induction p generalizing st with
  | nil =>
    cases st with
    | none => exact ⟨[], decodeLossyFrom_none_ascii hq⟩
    | some pending =>
      -- The first octet ends the broken character, and stands for itself.
      obtain ⟨b, q, rfl⟩ := exists_cons_of_ne_nil hne
      obtain ⟨hb, hq⟩ := forall_mem_cons.1 hq
      have hfirst : first b = some (none, some (ascii b)) := if_pos hb
      refine ⟨[replacement], ?_⟩
      simp [decodeLossyFrom, lossyStep, pending.step_ascii hb, hfirst,
        decodeLossyFrom_none_ascii hq]
  | cons b p ih =>
    obtain ⟨t, ht⟩ := ih (lossyStep st b).1
    exact ⟨(lossyStep st b).2 ++ t, by simp [decodeLossyFrom, ht]⟩

/-! ## Encoding -/

def encode (s : List Char) : List UInt8 := s.flatMap String.utf8EncodeChar

/-- The octets of a text. -/
def octetsOf (text : String) : List UInt8 := encode text.toList

lemma toNat_octet {n : ℕ} (h : n < 256) : (ofNat n).toNat = n := by
  rw [toNat_ofNat', Nat.mod_eq_of_lt h]

lemma decodeFrom_of_more {p : Pending} (h : step st b = some (some p, none)) (bs : List UInt8) :
    decodeFrom st (b :: bs) = decodeFrom (some p) bs := by
  cases hbs : decodeFrom (some p) bs <;> simp [decodeFrom, h, hbs]

lemma decodeFrom_of_char (h : step st b = some (none, some c)) (bs : List UInt8) :
    decodeFrom st (b :: bs) = (decodeFrom none bs).map (c :: ·) := by
  cases hbs : decodeFrom none bs <;> simp [decodeFrom, h, hbs]

lemma decodeFrom_inner {p : Pending} (hneed : p.need ≠ 1) (hlow : p.low.toNat ≤ b.toNat)
    (hhigh : b.toNat ≤ p.high.toNat) (bs : List UInt8) :
    decodeFrom (some p) (b :: bs) =
      decodeFrom (some ⟨p.need - 1, p.value * 64 + (b.toNat - 0x80), 0x80, 0xBF, by decide⟩)
        bs := by
  refine decodeFrom_of_more ?_ bs
  rw [step, if_pos ⟨le_iff_toNat_le.2 hlow, le_iff_toNat_le.2 hhigh⟩]
  simp [hneed]

lemma decodeFrom_last {p : Pending} (hneed : p.need = 1) (hlow : p.low.toNat ≤ b.toNat)
    (hhigh : b.toNat ≤ p.high.toNat) (bs : List UInt8) :
    decodeFrom (some p) (b :: bs) =
      (decodeFrom none bs).map (Char.ofNat (p.value * 64 + (b.toNat - 0x80)) :: ·) := by
  refine decodeFrom_of_char ?_ bs
  rw [step, if_pos ⟨le_iff_toNat_le.2 hlow, le_iff_toNat_le.2 hhigh⟩]
  simp [hneed]

lemma step_first (hascii : 0xC2 ≤ b.toNat) :
    step none b =
      if b.toNat < 0xE0 then some (some ⟨1, b.toNat - 0xC0, 0x80, 0xBF, by decide⟩, none)
      else if b.toNat < 0xF0 then
        some (some ⟨2, b.toNat - 0xE0, if b = 0xE0 then 0xA0 else 0x80,
          if b = 0xED then 0x9F else 0xBF, by split_ifs <;> decide⟩, none)
      else if b.toNat < 0xF5 then
        some (some ⟨3, b.toNat - 0xF0, if b = 0xF0 then 0x90 else 0x80,
          if b = 0xF4 then 0x8F else 0xBF, by split_ifs <;> decide⟩, none)
      else none := by
  have h80 : ¬ b < 0x80 := fun h => absurd (lt_iff_toNat_lt.1 h) (by simp; omega)
  have hc2 : ¬ b < 0xC2 := fun h => absurd (lt_iff_toNat_lt.1 h) (by simp; omega)
  rw [step, first, if_neg h80, if_neg hc2]
  rfl

lemma toNat_ite_eq (a b x y : UInt8) :
    (if a = b then x else y).toNat = if a.toNat = b.toNat then x.toNat else y.toNat := by
  simp only [UInt8.toNat_inj]
  split_ifs <;> rfl

/-- An octet that goes on with a character, as a number. -/
@[simp]
lemma toNat_more (n : ℕ) : (ofNat (n % 64 + 128)).toNat = n % 64 + 128 :=
  toNat_octet (by omega)

lemma decodeFrom_two (hlow : 0x80 ≤ v) (hhigh : v ≤ 0x7FF) (bs : List UInt8) :
    decodeFrom none (ofNat (v / 64 % 32 + 192) :: ofNat (v % 64 + 128) :: bs) =
      (decodeFrom none bs).map (Char.ofNat v :: ·) := by
  have h0 : (ofNat (v / 64 % 32 + 192)).toNat = v / 64 + 192 := by
    rw [toNat_octet (by omega)]; omega
  rw [decodeFrom_of_more (by rw [step_first (by omega), if_pos (by omega)]),
    decodeFrom_last rfl (by simp; omega) (by simp; omega), h0, toNat_more]
  have hv : (v / 64 + 192 - 0xC0) * 64 + (v % 64 + 128 - 0x80) = v := by omega
  rw [hv]

lemma decodeFrom_three (hlow : 0x800 ≤ v) (hhigh : v ≤ 0xFFFF)
    (hvalid : v < 0xD800 ∨ 0xDFFF < v) (bs : List UInt8) :
    decodeFrom none (ofNat (v / 4096 % 16 + 224) :: ofNat (v / 64 % 64 + 128) ::
      ofNat (v % 64 + 128) :: bs) = (decodeFrom none bs).map (Char.ofNat v :: ·) := by
  have h0 : (ofNat (v / 4096 % 16 + 224)).toNat = v / 4096 + 224 := by
    rw [toNat_octet (by omega)]; omega
  generalize ofNat (v / 4096 % 16 + 224) = a at h0
  rw [decodeFrom_of_more (by rw [step_first (by omega), if_neg (by omega), if_pos (by omega)]),
    decodeFrom_inner (by simp), decodeFrom_last (by simp), h0, toNat_more, toNat_more]
  · have hv : ((v / 4096 + 224 - 0xE0) * 64 + (v / 64 % 64 + 128 - 0x80)) * 64 +
        (v % 64 + 128 - 0x80) = v := by omega
    rw [hv]
  iterate 2 · simp; omega
  -- No overlong form, and no surrogate.
  all_goals simp only [toNat_ite_eq, toNat_more, reduceToNat]
  all_goals split_ifs <;> omega

lemma decodeFrom_four (hlow : 0x10000 ≤ v) (hhigh : v < 0x110000) (bs : List UInt8) :
    decodeFrom none (ofNat (v / 262144 % 8 + 240) :: ofNat (v / 4096 % 64 + 128) ::
      ofNat (v / 64 % 64 + 128) :: ofNat (v % 64 + 128) :: bs) =
      (decodeFrom none bs).map (Char.ofNat v :: ·) := by
  have h0 : (ofNat (v / 262144 % 8 + 240)).toNat = v / 262144 + 240 := by
    rw [toNat_octet (by omega)]; omega
  generalize ofNat (v / 262144 % 8 + 240) = a at h0
  rw [decodeFrom_of_more (by
      rw [step_first (by omega), if_neg (by omega), if_neg (by omega), if_pos (by omega)]),
    decodeFrom_inner (by simp), decodeFrom_inner (by simp), decodeFrom_last (by simp), h0,
    toNat_more, toNat_more, toNat_more]
  · have hv : (((v / 262144 + 240 - 0xF0) * 64 + (v / 4096 % 64 + 128 - 0x80)) * 64 +
        (v / 64 % 64 + 128 - 0x80)) * 64 + (v % 64 + 128 - 0x80) = v := by omega
    rw [hv]
  iterate 4 · simp; omega
  -- No overlong form, and no value past the last character.
  all_goals simp only [toNat_ite_eq, toNat_more, reduceToNat]
  all_goals split_ifs <;> omega

lemma decodeFrom_encodeChar (c : Char) (bs : List UInt8) :
    decodeFrom none (String.utf8EncodeChar c ++ bs) = (decodeFrom none bs).map (c :: ·) := by
  have hvalid : c.toNat < 0xD800 ∨ 0xDFFF < c.toNat ∧ c.toNat < 0x110000 := c.valid
  have hc : Char.ofNat c.toNat = c := Char.ofNat_toNat c
  change decodeFrom none ((if c.toNat ≤ 127 then _ else if c.toNat ≤ 2047 then _
    else if c.toNat ≤ 65535 then _ else _) ++ bs) = _
  split_ifs with h1 h2 h3
  · have hascii : ofNat c.toNat < 0x80 := by
      rw [lt_iff_toNat_lt, toNat_octet (by omega)]
      simp
      omega
    have hstep : step none (ofNat c.toNat) = some (none, some c) := by
      rw [step, first, if_pos hascii, toNat_octet (by omega), hc]
    exact decodeFrom_of_char hstep bs
  · have htwo := decodeFrom_two (v := c.toNat) (by omega) h2 bs
    rw [hc] at htwo
    exact htwo
  · have hthree := decodeFrom_three (v := c.toNat) (by omega) h3 (by omega) bs
    rw [hc] at hthree
    exact hthree
  · have hfour := decodeFrom_four (v := c.toNat) (by omega) (by omega) bs
    rw [hc] at hfour
    exact hfour

lemma decode_encode_append (s : List Char) (bs : List UInt8) :
    decode (encode s ++ bs) = (decode bs).map (s ++ ·) := by
  induction s with
  | nil => cases h : decode bs <;> simp [encode, h]
  | cons c s ih =>
    have hcons : encode (c :: s) ++ bs = String.utf8EncodeChar c ++ (encode s ++ bs) := by
      simp [encode]
    rw [hcons, decode, decodeFrom_encodeChar, ← decode, ih, Option.map_map]
    rfl

lemma decode_encode (s : List Char) : decode (encode s) = some s := by
  simpa [decode, decodeFrom] using decode_encode_append s []

lemma decodeLossyFrom_of_decodeFrom {bs : List UInt8} (h : decodeFrom st bs = some s) :
    decodeLossyFrom st bs = s := by
  induction bs generalizing st s with
  | nil =>
    cases st with
    | none => exact some.inj h
    | some p => cases h
  | cons b bs ih =>
    simp only [decodeFrom, bind_eq_bind, bind_eq_some_iff] at h
    obtain ⟨⟨next, c⟩, hstep, text, htext, h⟩ := h
    obtain rfl := some.inj h
    simp [decodeLossyFrom, lossyStep, hstep, ih htext]

lemma decodeLossy_encode (s : List Char) : decodeLossy (encode s) = s :=
  decodeLossyFrom_of_decodeFrom (decode_encode s)

@[simp] lemma encode_append (s t : List Char) : encode (s ++ t) = encode s ++ encode t := by
  simp [encode]

lemma toNat_of_mem_encodeChar (h : b ∈ String.utf8EncodeChar c) (hb : b < 0x80) :
    c.toNat = b.toNat := by
  have hlow : b.toNat < 128 := lt_iff_toNat_lt.1 hb
  have hhigh : ∀ {n : ℕ}, 128 ≤ n → n < 256 → b ≠ ofNat n := by
    rintro n h128 h256 rfl
    rw [toNat_octet h256] at hlow
    omega
  change b ∈ (if c.toNat ≤ 127 then _ else if c.toNat ≤ 2047 then _
    else if c.toNat ≤ 65535 then _ else _) at h
  split_ifs at h with h1
  · obtain rfl : b = ofNat c.toNat := mem_singleton.1 h
    exact (toNat_octet (by omega)).symm
  all_goals simp only [mem_cons, not_mem_nil, or_false] at h
  · obtain h | h := h <;> exact absurd h (hhigh (by omega) (by omega))
  · obtain h | h | h := h <;> exact absurd h (hhigh (by omega) (by omega))
  · obtain h | h | h | h := h <;> exact absurd h (hhigh (by omega) (by omega))

lemma ascii_mem_encode (h : b ∈ encode s) (hb : b < 0x80) : ascii b ∈ s := by
  obtain ⟨c, hc, hbc⟩ := mem_flatMap.1 h
  have hnat : (ascii b).toNat = c.toNat := by rw [toNat_ascii, toNat_of_mem_encodeChar hbc hb]
  rwa [Char.toNat_inj.1 hnat]

lemma mem_encode_of_ascii (h : c ∈ s) (hc : c.toNat < 128) : ofNat c.toNat ∈ encode s := by
  refine mem_flatMap.2 ⟨c, h, ?_⟩
  change ofNat c.toNat ∈ (if c.toNat ≤ 127 then _ else _)
  rw [if_pos (by omega)]
  exact mem_singleton_self _

lemma encode_of_ascii (h : ∀ c ∈ s, c.toNat < 128) :
    encode s = s.map fun c => ofNat c.toNat := by
  induction s with
  | nil => rfl
  | cons c s ih =>
    obtain ⟨hc, hs⟩ := forall_mem_cons.1 h
    have hchar : String.utf8EncodeChar c = [ofNat c.toNat] := by
      change (if c.toNat ≤ 127 then _ else _) = _
      exact if_pos (by omega)
    rw [map_cons, ← ih hs, encode, flatMap_cons, hchar]
    rfl

lemma splitInclusive_encode (s : List Char) :
    Lines.splitInclusive 10 (encode s) = (Lines.splitInclusive '\n' s).map encode := by
  have hplain : ∀ {l : List Char}, '\n' ∉ l → (10 : UInt8) ∉ encode l := fun hl h =>
    hl (ascii_mem_encode h (by decide))
  induction s using Lines.line_induction '\n' with
  | nil => rfl
  | plain l hl hne =>
    have hne' : encode l ≠ [] := by
      obtain ⟨c, l, rfl⟩ := exists_cons_of_ne_nil hne
      simp [encode, String.utf8EncodeChar_ne_nil]
    rw [Lines.splitInclusive_plain hl hne, Lines.splitInclusive_plain (hplain hl) hne']
    rfl
  | line l s hl ih =>
    have hcons : encode (l ++ '\n' :: s) = encode l ++ 10 :: encode s := by simp [encode]; rfl
    rw [hcons, Lines.splitInclusive_line hl, Lines.splitInclusive_line (hplain hl), ih]
    simp [encode]
    rfl

end Epistle.Lib.Utf8
