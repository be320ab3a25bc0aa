import Epistle.Lib.Crlf
import Epistle.Lib.Fallible
import Epistle.Lib.Octets
import Epistle.Lib.Text
import Epistle.Lib.Utf8

/-!
# Evidence records

One line of the evidence log (`evidence/record`), without what it is about, which the chain does not
look at. The encoding of a record as JSON is that of a library; a line counts only if it is the
encoding of the record it is read as.
-/

namespace Epistle.Evidence

open Lib Lib.Fallible Lib.Text List Option

/-- The version of the records. -/
def formatVersion : ℕ := 1

/-- The `prev` of the first record ever written. -/
def genesis : Digest := ⟨List.replicate 32 0, length_replicate⟩

/-- The most records of a day. -/
def maxRecordsPerDay : ℕ := 50000000

/-- The longest line of the log. -/
def maxLine : ℕ := 256 * 1024

/-- Where the chain stands after a record. -/
structure Position where
  hash : Digest
  /-- A counter of 64 bits in the code, too large to run out. -/
  seq : ℕ
  time : ℕ
  deriving DecidableEq

/-- Before the first record ever written. -/
def Position.start : Position := ⟨genesis, 0, 0⟩

/-- One line of the evidence log, about something of type `E`. -/
structure Record (E : Type) where
  v : ℕ
  seq : ℕ
  /-- The hash of the line before, in hex. -/
  prev : List Char
  time : ℕ
  entry : E
  deriving DecidableEq

/-! ## Hex -/

def hexDigit (n : ℕ) : Char := "0123456789abcdef".toList.getD n '0'

/-- Octets in lower-case hexadecimal digits. -/
def toHex (octets : List UInt8) : List Char :=
  octets.flatMap fun b => [hexDigit (b.toNat / 16), hexDigit (b.toNat % 16)]

def nibble (c : Char) : Option ℕ :=
  if '0' ≤ c ∧ c ≤ '9' then some (c.toNat - 48)
  else if 'a' ≤ c ∧ c ≤ 'f' then some (c.toNat - 97 + 10)
  else none

/-- The octets that hexadecimal digits stand for. -/
def ofHex : List Char → Option (List UInt8)
  | [] => some []
  | [_] => none
  | high :: low :: rest => do
      let h ← nibble high
      let l ← nibble low
      let octets ← ofHex rest
      return UInt8.ofNat (h * 16 + l) :: octets

/-- The digest in a text. -/
def hashFromHex (value : List Char) : Option Digest := do
  let octets ← ofHex value
  if h : octets.length = 32 then some ⟨octets, h⟩ else none

def hashTable (known : List (List UInt8 × String)) (octets : List UInt8) : Digest :=
  ((known.lookup octets).bind fun hex => hashFromHex hex.toList).getD genesis

/-! ## Lines -/

/-- The encoding of records as JSON. -/
structure Codec (E : Type) where
  toVec : Record E → List UInt8
  fromSlice : List UInt8 → Except (List Char) (Record E)

variable {E : Type} (codec : Codec E)

/-- The line of a record. -/
def Record.toLine (record : Record E) : Option (List UInt8) :=
  let line := codec.toVec record
  if maxLine < line.length then none else some line

/-- Read a line that is exactly the one its record is written as. -/
def Record.parseCanonical (line : List UInt8) : Except (List Char) (Record E) := do
  let record ← codec.fromSlice line
  if record.v ≠ formatVersion then
    .error ("format version ".toList ++ Nat.toDigits 10 record.v)
  else if record.toLine codec = some line then return record
  else .error "not in canonical form (unknown, duplicate or reordered fields)".toList

/-- Where the chain stands after a record. -/
def Record.position (sha256 : List UInt8 → Digest) (record : Record E) (line : List UInt8) :
    Position :=
  ⟨sha256 line, record.seq, record.time⟩

/-! ## A record in JSON -/

/-- The fields of a setting that switches the time stamps on, as they are written. -/
def settingFields (record : Record Unit) : List (List Char) :=
  ["\x7b\"v\":".toList ++ Nat.toDigits 10 record.v, "\"seq\":".toList ++ Nat.toDigits 10 record.seq,
    "\"prev\":\"".toList ++ record.prev ++ ['"'], "\"time\":".toList ++ Nat.toDigits 10 record.time,
    "\"kind\":\"setting\"".toList, "\"name\":\"timestamp\"".toList,
    "\"value\":\"enabled\"\x7d".toList]

def fieldNumber (name field : List Char) : Option ℕ := stripPrefix name field >>= digits

def settingOfFields : List (List Char) → Option (Record Unit)
  | [v, seq, prev, time, kind, name, value] => do
      let v ← fieldNumber "\x7b\"v\":".toList v
      let seq ← fieldNumber "\"seq\":".toList seq
      let prev ← stripPrefix "\"prev\":\"".toList prev >>= stripSuffix '"'
      let time ← fieldNumber "\"time\":".toList time
      let record : Record Unit := ⟨v, seq, prev, time, ()⟩
      if [kind, name, value] = (settingFields record).drop 4 then some record else none
  | _ => none

/-- The encoding of records of that one setting. -/
def settingCodec : Codec Unit where
  toVec record := Utf8.encode ([','].intercalate (settingFields record))
  fromSlice octets :=
    match Utf8.decode octets >>= fun text => settingOfFields (text.splitOn ',') with
    | some record => .ok record
    | none => .error "invalid".toList

end Epistle.Evidence
