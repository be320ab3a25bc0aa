import Epistle.Lib.Block
import Epistle.Lib.Radix
import Epistle.Lib.Utf8

/-!
# The archive of a backup

The tar layout of `epistle backup` (`cli/backup/tar_format`): ustar members, each of a header block
and its data in blocks of 512 octets. A name that is longer than the name field travels in a PAX
record in front of its member. The archive is modelled before its compression.

Two loops of the source search until they are done, that for the length of a PAX record and those of
the reader. They are given a number of rounds here; that it is enough is proved (`paxRecord_spec`,
`readEntries_returns`).
-/

namespace Epistle.Backup

open Lib Lib.Block

structure Entry where
  name : List Char
  mode : UInt32
  data : List UInt8
  deriving DecidableEq

/-- How long the field for a name is. -/
def nameField : ℕ := 100

/-- The length of a block. -/
def blockLen : ℕ := 512

/-! ## Writing -/

open Utf8

/-- A field of a header with some octets, cut at its length. -/
def writeField (header : List UInt8) (offset len : ℕ) (value : List Char) : List UInt8 :=
  patch header offset ((encode value).take (len - 1))

/-- The sum over a header, with blanks in place of the sum. -/
def checksum (header : List UInt8) : ℕ :=
  (header.zipIdx.map fun (byte, index) =>
    if 148 ≤ index ∧ index < 156 then 32 else byte.toNat).sum

def regular : UInt8 := 48

def extended : UInt8 := 120

def longName : UInt8 := 76

/-- A header without its sum. -/
def unsummed (name : List UInt8) (mode : UInt32) (size : ℕ) (kind : UInt8) : List UInt8 :=
  let header := List.replicate blockLen 0
  let header := patch header 0 (name.take nameField)
  let header := writeField header 100 8 (Radix.write 8 7 (mode &&& 0o7777).toNat)
  -- The user and the group.
  let header := writeField header 108 8 "0000000".toList
  let header := writeField header 116 8 "0000000".toList
  let header := writeField header 124 12 (Radix.write 8 11 size)
  -- The time of the last change.
  let header := writeField header 136 12 "00000000000".toList
  let header := patch header 156 [kind]
  let header := patch header 257 (encode "ustar\x00".toList)
  let header := patch header 263 (encode "00".toList)
  patch header 148 (encode "        ".toList)

/-- A header with its sum. -/
def header (name : List UInt8) (mode : UInt32) (size : ℕ) (kind : UInt8) : List UInt8 :=
  let header := unsummed name mode size kind
  patch header 148 (encode (Radix.write 8 6 (checksum header) ++ ['\x00', ' ']))

/-- A header, its data, and zeros up to a full block. -/
def member (header data : List UInt8) : List UInt8 :=
  header ++ data ++ List.replicate ((blockLen - data.length % blockLen) % blockLen) 0

/-- The length of a pax record counts its own digits. -/
def searchLength (body : ℕ) : ℕ → ℕ → Option ℕ
  | 0, _ => none
  | rounds + 1, length =>
      let next := body + (Nat.toDigits 10 length).length
      if length = next then some length else searchLength body rounds next

/-- One PAX record: the length of the record, a space, the key, an equals sign, the value and a line
feed. -/
def paxRecord (key value : List Char) : Option (List UInt8) := do
  let body := encode (' ' :: key ++ '=' :: value ++ ['\n'])
  let length ← searchLength body.length (body.length + 1) body.length
  return encode (Nat.toDigits 10 length) ++ body

/-- An entry: behind a pax header, if its name is too long for the field. -/
def writeEntry (entry : Entry) : Option (List UInt8) := do
  let name := encode entry.name
  let file := member (header name entry.mode entry.data.length regular) entry.data
  if nameField < name.length then
    let record ← paxRecord "path".toList entry.name
    let label := encode ("PaxHeaders/".toList ++ entry.name)
    return member (header label 0o644 record.length extended) record ++ file
  else return file

/-- Two blocks of zeros. -/
def endMarker : List UInt8 := List.replicate 1024 0

/-- An archive of some entries. -/
def tar (entries : List Entry) : Option (List UInt8) := do
  let members ← entries.mapM writeEntry
  return members.flatten ++ endMarker

/-! ## Reading -/

inductive HeaderField
  | checksum
  | size
  | mode
  deriving DecidableEq, Repr

inductive ArchiveError
  | notOctal (what : HeaderField)
  | notUstar
  /-- "archive header checksum does not match" -/
  | checksumMismatch
  | truncatedMember
  | notRegular (kind : UInt8)
  /-- "archive has a malformed PAX record" -/
  | malformedPax
  | truncatedArchive
  deriving DecidableEq, Repr

/-- How reading can end without entries. -/
inductive Fault
  | error (why : ArchiveError)
  /-- An index out of range. -/
  | panic
  /-- More rounds than were given. -/
  | unfinished
  deriving DecidableEq, Repr

/-- A text without the zeros and spaces on both sides. -/
def trimField (s : List Char) : List Char :=
  (s.dropWhile fun c => c = '\x00' || c = ' ').rdropWhile fun c => c = '\x00' || c = ' '

/-- The number in a field of octal digits. -/
def octal (field : List UInt8) (what : HeaderField) : Except Fault ℕ :=
  match Radix.parse 8 (2 ^ 64) (trimField (decodeLossy field)) with
  | some n => .ok n
  | none => .error (.error (.notOctal what))

/-- The text in a field, up to the first zero. -/
def fieldText (field : List UInt8) : List Char := decodeLossy (field.takeWhile (· ≠ 0))

def headerName (header : List UInt8) : List Char :=
  let prefixText := fieldText (slice header 345 500)
  let name := fieldText (slice header 0 100)
  if prefixText = [] then name else prefixText ++ '/' :: name

def stripFeed (record : List UInt8) : Option (List UInt8) :=
  if record.getLast? = some 10 then some record.dropLast else none

/-- What a pax record makes of the path. -/
def paxValue (record : List UInt8) (path : Option (List Char)) :
    Except Fault (Option (List Char)) :=
  if encode "path=".toList <+: record then
    match decode (record.drop 5) with
    | some value => .ok (some value)
    | none => .error (.error .malformedPax)
  else .ok path

def paxPath : ℕ → List UInt8 → Option (List Char) → Except Fault (Option (List Char))
  | 0, _, _ => .error .unfinished
  | rounds + 1, records, path =>
      if records = [] then .ok path
      else
        match records.findIdx? (· = 32) with
        | none => .error (.error .malformedPax)
        | some space =>
            match (decode (records.take space)).bind (Text.parseUnsigned (2 ^ 64)) with
            | none => .error (.error .malformedPax)
            | some length =>
                match (slice? records (space + 1) length).bind stripFeed with
                | none => .error (.error .malformedPax)
                | some record => do
                    let path ← paxValue record path
                    match slice? records length records.length with
                    | none => .error .panic
                    | some records => paxPath rounds records path

/-- What a header and its data are, and the octets of both. -/
structure Member where
  header : List UInt8
  data : List UInt8
  total : ℕ

/-- The next member of an archive, with what is behind it. -/
def nextMember (rest : List UInt8) : Except Fault (Option Member) :=
  if rest.length < blockLen then .error (.error .truncatedArchive)
  else
    let header := rest.take blockLen
    if header.all (· = 0) then .ok none
    else if slice header 257 262 ≠ encode "ustar".toList then .error (.error .notUstar)
    else do
      let sum ← octal (slice header 148 156) .checksum
      if sum ≠ checksum header then .error (.error .checksumMismatch)
      else
        let size ← octal (slice header 124 136) .size
        match slice? rest blockLen (blockLen + size) with
        | none => .error (.error .truncatedMember)
        | some data =>
            return some ⟨header, data, blockLen + (size + 511) / blockLen * blockLen⟩

/-- Read members from what is left of an archive, given the long name that is pending and the
entries so far. -/
def readFrom : ℕ → List UInt8 → Option (List Char) → List Entry → Except Fault (List Entry)
  | 0, _, _, _ => .error .unfinished
  | rounds + 1, rest, long, out => do
      match ← nextMember rest with
      | none => return out
      | some found =>
          let rest := rest.drop found.total
          let kind := found.header.getD 156 0
          if kind = regular ∨ kind = 0 then
            let name := long.getD (headerName found.header)
            let mode ← octal (slice found.header 100 108) .mode
            readFrom rounds rest none (out ++ [⟨name, UInt32.ofNat mode, found.data⟩])
          else if kind = extended then
            let path ← paxPath (found.data.length + 1) found.data none
            readFrom rounds rest (path.or long) out
          else if kind = longName then
            readFrom rounds rest (some (fieldText found.data)) out
          -- A global header and a directory are passed over.
          else if kind = 103 ∨ kind = 53 then readFrom rounds rest long out
          else .error (.error (.notRegular kind))

/-- Every regular file in an archive. -/
def readEntries (bytes : List UInt8) : Except Fault (List Entry) :=
  readFrom (bytes.length + 1) bytes none []

end Epistle.Backup
