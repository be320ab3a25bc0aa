import Mathlib.Algebra.Order.Ring.Int
import Mathlib.Data.List.Basic

/-!
# Base64

The standard alphabet with padding (RFC 4648 section 4). Decoding is strict: the padding is
required, and the bits it stands for are zero.
-/

namespace Epistle.Lib.Base64

open Option

def symbol (n : ℕ) : Char :=
  if n < 26 then Char.ofNat (65 + n)
  else if n < 52 then Char.ofNat (71 + n)
  else if n < 62 then Char.ofNat (n - 4)
  else if n = 62 then '+'
  else '/'

/-- The six bits of a symbol. -/
def value (c : Char) : Option ℕ :=
  if 65 ≤ c.toNat ∧ c.toNat ≤ 90 then some (c.toNat - 65)
  else if 97 ≤ c.toNat ∧ c.toNat ≤ 122 then some (c.toNat - 71)
  else if 48 ≤ c.toNat ∧ c.toNat ≤ 57 then some (c.toNat + 4)
  else if c = '+' then some 62
  else if c = '/' then some 63
  else none

def encode : List UInt8 → List Char
  | [] => []
  | [a] => [symbol (a.toNat / 4), symbol (a.toNat % 4 * 16), '=', '=']
  | [a, b] =>
      [symbol (a.toNat / 4), symbol (a.toNat % 4 * 16 + b.toNat / 16), symbol (b.toNat % 16 * 4),
        '=']
  | a :: b :: c :: rest =>
      symbol (a.toNat / 4) :: symbol (a.toNat % 4 * 16 + b.toNat / 16) ::
        symbol (b.toNat % 16 * 4 + c.toNat / 64) :: symbol (c.toNat % 64) :: encode rest

/-- The octet of two symbols and two paddings. -/
def decodeOne (a b : Char) : Option (List UInt8) := do
  let x ← value a
  let y ← value b
  if y % 16 = 0 then some [UInt8.ofNat (x * 4 + y / 16)] else none

/-- The octets of three symbols and a padding. -/
def decodeTwo (a b c : Char) : Option (List UInt8) := do
  let x ← value a
  let y ← value b
  let z ← value c
  if z % 4 = 0 then
    some [UInt8.ofNat (x * 4 + y / 16), UInt8.ofNat (y % 16 * 16 + z / 4)]
  else none

/-- The octets of four symbols. -/
def decodeThree (a b c d : Char) : Option (List UInt8) := do
  let x ← value a
  let y ← value b
  let z ← value c
  let w ← value d
  return [UInt8.ofNat (x * 4 + y / 16), UInt8.ofNat (y % 16 * 16 + z / 4),
    UInt8.ofNat (z % 4 * 64 + w)]

/-- The octets of a text, or `none` if it is not the encoding of any. -/
def decode : List Char → Option (List UInt8)
  | [] => some []
  | a :: b :: c :: d :: rest =>
      if rest = [] ∧ d = '=' then
        if c = '=' then decodeOne a b else decodeTwo a b c
      else do
        let three ← decodeThree a b c d
        let more ← decode rest
        return three ++ more
  | _ => none

/-! ## Round trip -/

variable {n : ℕ}

lemma value_symbol (h : n < 64) : value (symbol n) = some n := by
  have all : ∀ n : Fin 64, value (symbol n) = some n.1 := by decide
  exact all ⟨n, h⟩

lemma symbol_ne_pad (h : n < 64) : symbol n ≠ '=' := by
  have all : ∀ n : Fin 64, symbol n ≠ '=' := by decide
  exact all ⟨n, h⟩

lemma ofNat_eq {b : UInt8} (h : n = b.toNat) : UInt8.ofNat n = b := by
  rw [h, UInt8.ofNat_toNat]

lemma decode_encode (bs : List UInt8) : decode (encode bs) = some bs := by
  induction bs using encode.induct with
  | case1 => rfl
  | case2 a =>
    have ha := a.toNat_lt
    simp only [encode, decode, decodeOne, and_self, if_true, bind_eq_bind,
      value_symbol (show a.toNat / 4 < 64 by omega),
      value_symbol (show a.toNat % 4 * 16 < 64 by omega), bind_some]
    rw [if_pos (by omega), ofNat_eq (b := a) (by omega)]
  | case3 a b =>
    have ha := a.toNat_lt
    have hb := b.toNat_lt
    simp only [encode, decode, decodeTwo, and_self, if_true, bind_eq_bind,
      symbol_ne_pad (show b.toNat % 16 * 4 < 64 by omega), if_false,
      value_symbol (show a.toNat / 4 < 64 by omega),
      value_symbol (show a.toNat % 4 * 16 + b.toNat / 16 < 64 by omega),
      value_symbol (show b.toNat % 16 * 4 < 64 by omega), bind_some]
    rw [if_pos (by omega), ofNat_eq (b := a) (by omega), ofNat_eq (b := b) (by omega)]
  | case4 a b c rest ih =>
    have ha := a.toNat_lt
    have hb := b.toNat_lt
    have hc := c.toNat_lt
    have hpad : ¬ (encode rest = [] ∧ symbol (c.toNat % 64) = '=') := fun h =>
      symbol_ne_pad (by omega) h.2
    simp only [encode, decode, decodeThree, if_neg hpad, bind_eq_bind, ih,
      value_symbol (show a.toNat / 4 < 64 by omega),
      value_symbol (show a.toNat % 4 * 16 + b.toNat / 16 < 64 by omega),
      value_symbol (show b.toNat % 16 * 4 + c.toNat / 64 < 64 by omega),
      value_symbol (show c.toNat % 64 < 64 by omega), bind_some, pure]
    rw [ofNat_eq (b := a) (by omega), ofNat_eq (b := b) (by omega), ofNat_eq (b := c) (by omega)]
    rfl

lemma forall_mem_encode {P : Char → Prop} (hpad : P '=') (hsymbol : ∀ n : Fin 64, P (symbol n))
    (bs : List UInt8) : ∀ c ∈ encode bs, P c := by
  have hlt : ∀ {n : ℕ}, n < 64 → P (symbol n) := fun h => hsymbol ⟨_, h⟩
  induction bs using encode.induct with
  | case1 => simp [encode]
  | case2 a =>
    have ha := a.toNat_lt
    simp only [encode, List.forall_mem_cons]
    exact ⟨hlt (by omega), hlt (by omega), hpad, hpad, by simp⟩
  | case3 a b =>
    have ha := a.toNat_lt
    have hb := b.toNat_lt
    simp only [encode, List.forall_mem_cons]
    exact ⟨hlt (by omega), hlt (by omega), hlt (by omega), hpad, by simp⟩
  | case4 a b c rest ih =>
    have ha := a.toNat_lt
    have hb := b.toNat_lt
    have hc := c.toNat_lt
    simp only [encode, List.forall_mem_cons]
    exact ⟨hlt (by omega), hlt (by omega), hlt (by omega), hlt (by omega), ih⟩

end Epistle.Lib.Base64
