import Epistle.Lib.Block
import Epistle.Lib.Octets
import Epistle.Lib.Utf8
import Mathlib.Data.List.Destutter

/-!
# The records of a zip archive

The three kinds of records a zip is listed from, read out of its octets without decompressing
anything: the end record, which says where the central directory is; the records of the central
directory, one for each entry; and the local headers, one in front of the data of each entry.
Every read is checked against the end of the octets.
-/

namespace Epistle.Antispam

open Epistle.Lib.Block (slice slice?)

/-! ### Numbers and signatures -/

/-- The number in little-endian octets at a place. -/
def leAt (n : ℕ) (bytes : List UInt8) (pos : ℕ) : Option ℕ :=
  (slice? bytes pos (pos + n)).map Epistle.Lib.Octets.ofLe

/-- A number of two octets. -/
def u16At : List UInt8 → ℕ → Option ℕ := leAt 2

/-- A number of four octets. -/
def u32At : List UInt8 → ℕ → Option ℕ := leAt 4

/-- A number of eight octets. -/
def u64At : List UInt8 → ℕ → Option ℕ := leAt 8

/-- Whether some octets stand at a place. -/
def startsWithAt (sig bytes : List UInt8) (pos : ℕ) : Bool := sig.isPrefixOf (bytes.drop pos)

def centralSig : List UInt8 := [0x50, 0x4b, 1, 2]

def localSig : List UInt8 := [0x50, 0x4b, 3, 4]

def endSig : List UInt8 := [0x50, 0x4b, 5, 6]

def end64Sig : List UInt8 := [0x50, 0x4b, 6, 6]

def locator64Sig : List UInt8 := [0x50, 0x4b, 6, 7]

def descriptorSig : List UInt8 := [0x50, 0x4b, 7, 8]

def elsewhere : ℕ := 0xffffffff

/-! ### Names -/

def maxNameBytes : ℕ := 1024

def nameTailBytes : ℕ := 255

def cp437High : List Char :=
  ("ÇüéâäàåçêëèïîìÄÅÉæÆôöòûùÿÖÜ¢£¥₧ƒáíóúñÑªº¿⌐¬½¼¡«»" ++
    "░▒▓│┤╡╢╖╕╣║╗╝╜╛┐└┴┬├─┼╞╟╚╔╩╦╠═╬╧╨╤╥╙╘╒╓╫╪┘┌█▄▌▐▀" ++
    "αßΓπΣσµτΦΘΩδ∞φε∩≡±≥≤⌠⌡÷≈°∙·√ⁿ²■\u00a0").toList

/-- One octet as code page 437 reads it. -/
def cp437 (b : UInt8) : Char :=
  if b < 0x80 then Char.ofNat b.toNat else cp437High.getD (b.toNat - 0x80) ' '

/-- A name, cut in the middle if it is too long. -/
def boundedName (raw : List UInt8) : List UInt8 × Bool :=
  if raw.length ≤ maxNameBytes then (raw, false)
  else
    (raw.take (maxNameBytes - nameTailBytes) ++ raw.drop (raw.length - nameTailBytes), true)

def extraFieldFrom (wanted : ℕ) : ℕ → List UInt8 → Option (List UInt8)
  | 0, _ => none
  | fuel + 1, extra => do
    let id ← u16At extra 0
    let len ← u16At extra 2
    let body ← slice? extra 4 (4 + len)
    if id = wanted then some body else extraFieldFrom wanted fuel (extra.drop (4 + len))

/-- The data of the extra field with an id. -/
def extraField (extra : List UInt8) (wanted : ℕ) : Option (List UInt8) :=
  extraFieldFrom wanted extra.length extra

/-- The id of the extra field with a name in UTF-8. -/
def unicodePath : ℕ := 0x7075

def hasFlag (flags bit : ℕ) : Bool := flags.testBit bit

def isAscii (raw : List UInt8) : Bool := raw.all (· < 0x80)

/-- The readings of a name: as UTF-8 and, when it does not claim to be UTF-8 and is not ASCII, as
code page 437. -/
def readings (utf8 : Bool) (raw : List UInt8) : List (List Char) :=
  Epistle.Lib.Utf8.decodeLossy raw :: if !utf8 && !isAscii raw then [raw.map cp437] else []

/-- The names an extractor may show: the readings of the name; those of the name up to a NUL that
the cut dropped; and the Unicode Path field. -/
def namesOf (whole : List UInt8) (flags : ℕ) (extra : List UInt8) : List (List Char) × Bool :=
  let utf8 := hasFlag flags 11
  let (raw, cut) := boundedName whole
  let upToNul :=
    if cut && whole.contains 0 && !raw.contains 0 then
      readings utf8 (boundedName (whole.takeWhile (· ≠ 0))).1
    else []
  let path := extraField extra unicodePath
  let pathNames :=
    match path.bind fun body => slice? body 5 body.length with
    | some body => [Epistle.Lib.Utf8.decodeLossy (boundedName body).1]
    | none => []
  ((readings utf8 raw ++ upToNul ++ pathNames).destutter (· ≠ ·),
    cut || (utf8 && (Epistle.Lib.Utf8.decode raw).isNone) || path.isSome)

/-! ### Records -/

/-- An entry's method, CRC and sizes as a central directory records them. -/
structure Described where
  method : ℕ
  crc : ℕ
  compressed : ℕ
  uncompressed : ℕ
deriving DecidableEq, Repr

/-- One record from either directory. -/
structure Entry where
  /-- The header name and its other readings. -/
  names : List (List Char)
  ambiguous : Bool
  encrypted : Bool
  method : ℕ
  /-- Central records: where the local header is, when it can be read. -/
  localOffset : Option ℕ
  /-- Where the next central record, or the data after a local header, starts. -/
  next : ℕ
  /-- Local records: where the compressed data starts and its size, when the header records it. -/
  data : Option (ℕ × ℕ)
  descriptor : Bool
  /-- Central records: the method, CRC and sizes they record. -/
  sizes : Option Described
deriving DecidableEq

/-- Whether an entry is encrypted. -/
def isEncrypted (flags method : ℕ) : Bool := hasFlag flags 0 || hasFlag flags 6 || method = 99

/-- The offset of an entry, with the large one of its extra field. -/
def zip64Offset (zip : List UInt8) (pos : ℕ) (extra : List UInt8) : Option ℕ := do
  let uncompressed ← u32At zip (pos + 24)
  let compressed ← u32At zip (pos + 20)
  let body ← extraField extra 1
  u64At body (8 * [uncompressed, compressed].count elsewhere)

/-- The entry of a directory at a place. -/
def centralEntry (zip : List UInt8) (pos : ℕ) : Option Entry := do
  guard (slice? zip pos (pos + 4) = some centralSig)
  let flags ← u16At zip (pos + 8)
  let method ← u16At zip (pos + 10)
  let nameLen ← u16At zip (pos + 28)
  let extraLen ← u16At zip (pos + 30)
  let commentLen ← u16At zip (pos + 32)
  let rawName ← slice? zip (pos + 46) (pos + 46 + nameLen)
  let extra ← slice? zip (pos + 46 + nameLen) (pos + 46 + nameLen + extraLen)
  let offset ← u32At zip (pos + 42)
  let crc ← u32At zip (pos + 16)
  let compressed ← u32At zip (pos + 20)
  let uncompressed ← u32At zip (pos + 24)
  some
    { names := (namesOf rawName flags extra).1
      ambiguous := (namesOf rawName flags extra).2
      encrypted := isEncrypted flags method
      method := method
      localOffset := if offset = elsewhere then zip64Offset zip pos extra else some offset
      next := pos + 46 + nameLen + extraLen + commentLen
      data := none
      descriptor := false
      sizes := some ⟨method, crc, compressed, uncompressed⟩ }

/-- The local header at a place. -/
def localEntry (zip : List UInt8) (pos : ℕ) : Option Entry := do
  guard (slice? zip pos (pos + 4) = some localSig)
  let flags ← u16At zip (pos + 6)
  let method ← u16At zip (pos + 8)
  let compressed ← u32At zip (pos + 18)
  let nameLen ← u16At zip (pos + 26)
  let extraLen ← u16At zip (pos + 28)
  let rawName ← slice? zip (pos + 30) (pos + 30 + nameLen)
  let extra ← slice? zip (pos + 30 + nameLen) (pos + 30 + nameLen + extraLen)
  some
    { names := (namesOf rawName flags extra).1
      ambiguous := (namesOf rawName flags extra).2
      encrypted := isEncrypted flags method
      method := method
      localOffset := none
      next := pos + 30 + nameLen + extraLen
      data :=
        if !hasFlag flags 3 && compressed != elsewhere then
          some (pos + 30 + nameLen + extraLen, compressed)
        else none
      descriptor := hasFlag flags 3
      sizes := none }

/-- Where the next record starts after a local entry whose sizes are in a data descriptor, read from
the central record for the same offset. -/
def descriptorEnd (zip : List UInt8) (pos : ℕ) (l : Entry) (described : ℕ → Option Described) :
    Option ℕ := do
  let central ← described pos
  guard (l.descriptor ∧ central.method = l.method)
  let stop := l.next + central.compressed
  let data ← slice? zip l.next stop
  guard (data.tails.all fun window => !localSig.isPrefixOf window)
  let signed := startsWithAt descriptorSig zip stop
  guard (¬ (central.method = 0 ∧ (central.compressed ≠ 0 ∨ ¬ signed)))
  let fields := if signed then stop + 4 else stop
  let crc ← u32At zip fields
  let compressed ← u32At zip (fields + 4)
  let uncompressed ← u32At zip (fields + 8)
  guard ((⟨central.method, crc, compressed, uncompressed⟩ : Described) = central)
  some (fields + 12)

/-! What a record that is read says about the octets. -/

lemma guard_eq_some_iff {p : Prop} [Decidable p] {u : Unit} : guard p = some u ↔ p := by
  by_cases h : p <;> simp [guard, h]

lemma namesOf_ne_nil (whole : List UInt8) (flags : ℕ) (extra : List UInt8) :
    (namesOf whole flags extra).1 ≠ [] := by
  unfold namesOf readings
  dsimp only
  rw [Ne, List.destutter_eq_nil]
  simp

variable {zip : List UInt8} {pos : ℕ} {e l : Entry}

lemma centralEntry_eq_some (h : centralEntry zip pos = some e) :
    slice? zip pos (pos + 4) = some centralSig ∧ e.names ≠ [] ∧
      ∃ s : Described, e.sizes = some s ∧ s.method = e.method := by
  simp only [centralEntry, Option.bind_eq_bind, Option.bind_eq_some_iff, guard_eq_some_iff,
    Option.some.injEq] at h
  obtain ⟨_, hsig, flags, -, method, -, nameLen, -, extraLen, -, commentLen, -, rawName, -,
    extra, -, offset, -, crc, -, compressed, -, uncompressed, -, rfl⟩ := h
  exact ⟨hsig, namesOf_ne_nil _ _ _, _, rfl, rfl⟩

lemma localEntry_eq_some (h : localEntry zip pos = some l) :
    slice? zip pos (pos + 4) = some localSig ∧ l.names ≠ [] ∧ pos < l.next ∧
      (∀ start size, l.data = some (start, size) →
        start = l.next ∧ u32At zip (pos + 18) = some size ∧ l.descriptor = false) := by
  simp only [localEntry, Option.bind_eq_bind, Option.bind_eq_some_iff, guard_eq_some_iff,
    Option.some.injEq] at h
  obtain ⟨_, hsig, flags, -, method, -, compressed, hcomp, nameLen, -, extraLen, -, rawName, -,
    extra, -, rfl⟩ := h
  refine ⟨hsig, namesOf_ne_nil _ _ _, ?_, ?_⟩
  · dsimp only
    omega
  · intro start size hdata
    dsimp only at hdata ⊢
    split_ifs at hdata with hflag
    cases hdata
    refine ⟨rfl, hcomp, ?_⟩
    exact Bool.not_eq_true' _ ▸ (Bool.and_eq_true_iff.1 hflag).1

/-- A data descriptor at a position that repeats the CRC and sizes of a record, and ends at another.
-/
def HasDescriptor (zip : List UInt8) (stop : ℕ) (s : Described) (next : ℕ) : Prop :=
  ∃ fields, fields = (if startsWithAt descriptorSig zip stop then stop + 4 else stop) ∧
    u32At zip fields = some s.crc ∧ u32At zip (fields + 4) = some s.compressed ∧
    u32At zip (fields + 8) = some s.uncompressed ∧ next = fields + 12

lemma HasDescriptor.lt {stop next : ℕ} {s : Described} (h : HasDescriptor zip stop s next) :
    stop < next := by
  obtain ⟨fields, hf, -, -, -, rfl⟩ := h
  split_ifs at hf <;> omega

lemma descriptorEnd_eq_some {described : ℕ → Option Described} {next : ℕ}
    (h : descriptorEnd zip pos l described = some next) :
    ∃ s, described pos = some s ∧ l.descriptor = true ∧ s.method = l.method ∧
      HasDescriptor zip (l.next + s.compressed) s next := by
  simp only [descriptorEnd, Option.bind_eq_bind, Option.bind_eq_some_iff, guard_eq_some_iff,
    Option.some.injEq] at h
  obtain ⟨s, hs, _, ⟨hdesc, hmethod⟩, data, -, _, -, _, -, crc, hcrc, compressed, hcomp,
    uncompressed, hunc, _, heq, rfl⟩ := h
  refine ⟨s, hs, hdesc, hmethod, _, rfl, ?_, ?_, ?_, rfl⟩
  · rw [hcrc, ← heq]
  · rw [hcomp, ← heq]
  · rw [hunc, ← heq]

/-! ### The central directory -/

def eocdLen : ℕ := 22

def maxComment : ℕ := 0xffff

def maxEndRecords : ℕ := 4

/-- Where a central directory starts, how many entries it declares and how far data before the
archive shifted the offsets. -/
structure Directory where
  start : ℕ
  entries : ℕ
  shift : ℕ
deriving DecidableEq, Repr

/-- The places of the records that may end the archive. -/
def endRecords (zip : List UInt8) : List ℕ :=
  if zip.length < eocdLen then []
  else
    let lowest := zip.length - (eocdLen + maxComment)
    (((List.range' lowest (zip.length - eocdLen + 1 - lowest)).reverse).filter
      (startsWithAt endSig zip)).take (maxEndRecords + 1)

/-- The directory that an end record names. -/
def directoryEnding (stop entries size offset : ℕ) : Option Directory := do
  guard (size ≤ stop)
  guard (offset ≤ stop - size)
  some ⟨stop - size, entries, stop - size - offset⟩

def directoryFrom (zip : List UInt8) (eocd : ℕ) : Option Directory := do
  let entries ← u16At zip (eocd + 10)
  let size ← u32At zip (eocd + 12)
  let offset ← u32At zip (eocd + 16)
  if entries = 0xffff ∨ size = elsewhere ∨ offset = elsewhere then
    guard (20 ≤ eocd)
    guard (startsWithAt locator64Sig zip (eocd - 20))
    let record ← u64At zip (eocd - 20 + 8)
    guard (startsWithAt end64Sig zip record)
    let entries ← u64At zip (record + 32)
    let size ← u64At zip (record + 40)
    let offset ← u64At zip (record + 48)
    directoryEnding record entries size offset
  else directoryEnding eocd entries size offset

end Epistle.Antispam
