import Epistle.Imap.Session
import Epistle.Lib.Fields

/-!
# The mailbox index

The file that saves an open mailbox from reading the sidecars of every message (`imap/index`): a
header, a stamp with the generation of the mailbox, and one line for each message. Anything that
does not parse makes the whole file absent.

The flags of a message are one field of its line, joined by commas. A keyword may have a comma in it
(`imap/keyword`), and is then read back as several flags.

* `Index.load_write_iff`: when the index is absent or exact.
-/

namespace Epistle.Imap

open Lib Lib.Text Lib.Fallible List

/-! ## Messages -/

/-- A point in time: the seconds since 1970, and the nanoseconds in the second. -/
structure Timestamp where
  secs : ℤ
  fits : secs < 2 ^ 64
  nanos : Fin 1000000000
  deriving DecidableEq

/-- The start of 1970. -/
def Timestamp.unixEpoch : Timestamp := ⟨0, by decide, 0⟩

def Timestamp.sinceEpoch (time : Timestamp) : Timestamp :=
  if 0 ≤ time.secs then time else unixEpoch

structure MessageRef (ι : Type) where
  uid : UInt32
  id : ι
  size : UInt64
  flags : List Flag
  internalDate : Timestamp
  /-- Minutes east of UTC. -/
  internalZone : Int16
  modseq : UInt64
  deriving DecidableEq

structure UuidText (ι : Type) where
  toText : ι → List Char
  parseStr : List Char → Option ι
  parseStr_toText : ∀ id, parseStr (toText id) = some id
  /-- Hexadecimal digits and hyphens. -/
  plain : ∀ id, ∀ c ∈ toText id, c.isAlphanum ∨ c = '-'

def Flag.asStr : Flag → List Char
  | .seen => "\\Seen".toList
  | .answered => "\\Answered".toList
  | .flagged => "\\Flagged".toList
  | .deleted => "\\Deleted".toList
  | .draft => "\\Draft".toList
  | .keyword k => k.name

namespace Index

/-- The word the file starts with. -/
def magic : List Char := "EPISTLE-MAILBOX-INDEX".toList

/-- The version of the index. -/
def version : ℕ := 2

/-- The highest mod-sequence of a mailbox, and how many messages it has. -/
abbrev Generation := UInt64 × ℕ

/-! ## Writing -/

/-- A flag in the index: a system flag in lower case and without its backslash, a keyword behind a
mark. -/
def flagToken (flag : Flag) : List Char :=
  if flag.isKeyword then "k:".toList ++ flag.asStr else toLower (flag.asStr.drop 1)

def flagField (flags : List Flag) : List Char := [','].intercalate (flags.map flagToken)

def writeTime (time : Timestamp) : List Char :=
  let since := time.sinceEpoch
  Nat.toDigits 10 since.secs.toNat ++ '.' :: Nat.toDigits 10 since.nanos.val

def timeField {ι : Type} (message : MessageRef ι) : List Char :=
  writeTime message.internalDate ++
    if message.internalZone ≠ 0 then '@' :: showInt message.internalZone.toInt else []

section Format

variable {ι : Type} (uuid : UuidText ι)

/-- The line of a message. -/
def record (message : MessageRef ι) : List Char :=
  [' '].intercalate [uuid.toText message.id, Nat.toDigits 10 message.uid.toNat,
    Nat.toDigits 10 message.size.toNat, timeField message, Nat.toDigits 10 message.modseq.toNat,
    flagField message.flags]

/-- The line with the stamp. -/
def stamp (generation : Generation) : List Char :=
  [' '].intercalate ["gen".toList, Nat.toDigits 10 generation.1.toNat,
    Nat.toDigits 10 generation.2]

/-- The text of an index. -/
def write (generation : Generation) (messages : List (MessageRef ι)) : List Char :=
  endLines ((magic ++ ' ' :: Nat.toDigits 10 version) :: stamp generation ::
    messages.map (record uuid))

/-! ## Reading -/

def parseToken (token : List Char) : Option Flag :=
  match stripPrefix "k:".toList token with
  | some name => (Flag.parse name).filter (·.isKeyword)
  | none => (Flag.parse ('\\' :: token)).filter (!·.isKeyword)

def parseFlags (field : List Char) : Option (List Flag) :=
  if field = [] then some [] else (field.splitOn ',').mapM parseToken

def parseTime (field : List Char) : Option Timestamp := do
  let (secs, nanos) ← splitOnce '.' field
  let secs ← parseUnsigned (2 ^ 64) secs
  let nanos ← parseUnsigned (2 ^ 32) nanos
  if h : secs < 2 ^ 64 ∧ nanos < 1000000000 then
    return ⟨secs, by exact_mod_cast h.1, nanos, h.2⟩
  else none

def parseTimeField (field : List Char) : Option (Timestamp × Int16) :=
  match splitOnce '@' field with
  | some (time, zone) => do
      let zone ← (parseSigned (2 ^ 15) zone).filter (· ≠ 0)
      return (← parseTime time, Int16.ofInt zone)
  | none => do return (← parseTime field, 0)

/-- Read the line of a message. -/
def parseRecord (line : List Char) : Option (MessageRef ι) :=
  match line.splitOn ' ' with
  | [id, uid, size, time, modseq, flags] => do
      let id ← uuid.parseStr id
      let uid ← parseUnsigned (2 ^ 32) uid
      let size ← parseUnsigned (2 ^ 64) size
      let (internalDate, internalZone) ← parseTimeField time
      let modseq ← parseUnsigned (2 ^ 64) modseq
      let flags ← parseFlags flags
      return { uid := UInt32.ofNat uid, id, size := UInt64.ofNat size, flags, internalDate,
               internalZone, modseq := UInt64.ofNat modseq }
  -- Too few fields, or one too many.
  | _ => none

def parseStamp (line : List Char) : Option Generation :=
  match line.splitOn ' ' with
  | word :: modseq :: count :: _ => do
      guard (word = "gen".toList)
      let modseq ← parseUnsigned (2 ^ 64) modseq
      let count ← parseUnsigned (2 ^ 64) count
      return (UInt64.ofNat modseq, count)
  | _ => none

def isHeader (line : List Char) : Bool :=
  match splitOnce ' ' line with
  | some (word, number) => word = magic ∧ parseUnsigned (2 ^ 32) number = some version
  | none => false

/-- The messages of an index, if its stamp is right and all of it can be read. -/
def load (text : List Char) (generation : Generation) : Option (List (MessageRef ι)) :=
  match lines text with
  | header :: line :: records => do
      guard (isHeader header)
      guard (parseStamp line = some generation)
      let messages ← records.mapM (parseRecord uuid)
      -- A file with a record less is truncated.
      guard (messages.length = generation.2)
      return messages
  | _ => none

end Format

/-! ## Flags -/

lemma flagToken_keyword (k : Keyword) : flagToken (.keyword k) = ['k', ':'] ++ k.name := rfl

lemma keywordChar_of_mem_flagToken {flag : Flag} {c : Char} (h : c ∈ flagToken flag) :
    keywordChar c := by
  cases flag with
  | keyword k =>
    rw [flagToken_keyword, mem_append] at h
    obtain h | h := h
    · have hmark : ∀ c ∈ ['k', ':'], keywordChar c := by decide
      exact hmark c h
    · exact List.all_eq_true.1 k.valid.2.2 c h
  | _ =>
    revert c
    decide

lemma mem_asStr_iff {flag : Flag} : ',' ∈ flag.asStr ↔ ',' ∈ flagToken flag := by
  cases flag with
  | keyword k =>
    rw [flagToken_keyword, mem_append]
    exact ⟨.inr, fun h => h.resolve_left (by decide)⟩
  | _ => decide

lemma backslash_mem {name token : List Char} (h : eqIgnoreAsciiCase name token)
    (htoken : token.head? = some '\\') : '\\' ∈ name := by
  obtain ⟨rest, rfl⟩ := List.head?_eq_some_iff.1 htoken
  obtain - | ⟨c, name⟩ := name
  · simp [eqIgnoreAsciiCase] at h
  · obtain ⟨hc, -⟩ : c.toUpper = ('\\').toUpper ∧ _ := by
      simpa only [eqIgnoreAsciiCase, map_cons, beq_iff_eq, List.cons.injEq] using h
    -- No letter is a backslash in upper case.
    have hnat := congrArg Char.toNat hc
    rw [toNat_toUpper, show ('\\').toUpper.toNat = 92 by decide] at hnat
    have hc : c.toNat = ('\\').toNat := by
      change c.toNat = 92
      split_ifs at hnat <;> omega
    exact mem_cons.2 (.inl (Char.toNat_inj.1 hc).symm)

lemma parse_name (k : Keyword) : Flag.parse k.name = some (.keyword k) := by
  have hname : '\\' ∉ k.name := fun h =>
    absurd (List.all_eq_true.1 k.valid.2.2 _ h) (by decide)
  have hne : ∀ token : List Char, token.head? = some '\\' → ¬ eqIgnoreAsciiCase k.name token :=
    fun token htoken h => hname (backslash_mem h htoken)
  rw [Flag.parse, if_neg (hne _ (by decide)), if_neg (hne _ (by decide)),
    if_neg (hne _ (by decide)), if_neg (hne _ (by decide)), if_neg (hne _ (by decide)),
    dif_pos k.valid]

lemma parseToken_flagToken (flag : Flag) : parseToken (flagToken flag) = some flag := by
  cases flag with
  | keyword k =>
    have hmark : stripPrefix "k:".toList (flagToken (.keyword k)) = some k.name :=
      stripPrefix_append ['k', ':'] k.name
    rw [parseToken, hmark]
    simp [parse_name, Flag.isKeyword]
  | _ => decide

lemma flagToken_ne_nil (flag : Flag) : flagToken flag ≠ [] := by
  cases flag <;> simp [flagToken_keyword] <;> decide

lemma flagField_ne_nil (flag : Flag) (flags : List Flag) : flagField (flag :: flags) ≠ [] := by
  cases flags with
  | nil => simpa [flagField] using flagToken_ne_nil flag
  | cons flag' flags =>
    rw [flagField, map_cons, map_cons, intercalate_cons_cons]
    simp

lemma parseFlags_flagField (flags : List Flag) :
    parseFlags (flagField flags) =
      (flags.flatMap fun flag => (flagToken flag).splitOn ',').mapM parseToken := by
  obtain - | ⟨flag, flags⟩ := flags
  · rfl
  · rw [parseFlags, if_neg (flagField_ne_nil flag flags), flagField,
      splitOn_intercalate_flatMap (by simp), flatMap_map]

lemma isSome_parseFlags_flagField {flags : List Flag} :
    (parseFlags (flagField flags)).isSome ↔
      ∀ flag ∈ flags, (parseFlags (flagToken flag)).isSome := by
  rw [parseFlags_flagField, isSome_mapM, forall_mem_flatMap]
  simp only [parseFlags, flagToken_ne_nil, if_false, isSome_mapM]

lemma parseFlags_flagField_eq_iff {flags : List Flag} :
    parseFlags (flagField flags) = some flags ↔ ∀ flag ∈ flags, ',' ∉ flag.asStr := by
  rw [parseFlags_flagField]
  constructor
  · intro h flag hflag hcomma
    -- One flag for each part of a token, and more than one part of this one.
    have hlength : (flags.flatMap fun flag => (flagToken flag).splitOn ',').length =
        flags.length := (forall₂_of_mapM h).length_eq
    have hmore : flags.length <
        (flags.flatMap fun flag => (flagToken flag).splitOn ',').length :=
      length_lt_length_flatMap (fun flag => splitOn_ne_nil ',' (flagToken flag)) hflag
        (one_lt_length_splitOn (mem_asStr_iff.1 hcomma))
    omega
  · intro h
    have hparts : (flags.flatMap fun flag => (flagToken flag).splitOn ',') =
        flags.map flagToken := by
      rw [map_eq_flatMap]
      exact flatMap_congr fun flag hflag =>
        splitOn_eq_singleton (mem_asStr_iff.not.1 (h flag hflag))
    rw [hparts, mapM_map]
    exact mapM_eq_self.2 fun flag _ => parseToken_flagToken flag

/-! ## Records -/

section Records

variable {ι : Type} {uuid : UuidText ι} {message : MessageRef ι} {generation : Generation}
  {messages : List (MessageRef ι)}

lemma parseTime_writeTime (time : Timestamp) :
    parseTime (writeTime time) = some time.sinceEpoch := by
  have hpos : 0 ≤ time.sinceEpoch.secs := by
    unfold Timestamp.sinceEpoch
    split_ifs with h
    · exact h
    · exact Int.le_refl 0
  generalize hsince : time.sinceEpoch = since at hpos
  obtain ⟨secs, hfits, nanos⟩ := since
  obtain ⟨secs, rfl⟩ := Int.eq_ofNat_of_zero_le hpos
  have hfits' : secs < 2 ^ 64 := by exact_mod_cast hfits
  have hnanos : nanos.val < 2 ^ 32 := nanos.isLt.trans (by decide)
  have hsplit : splitOnce '.' (writeTime time) =
      some (Nat.toDigits 10 secs, Nat.toDigits 10 nanos.val) := by
    refine splitOnce_eq_some.2 ⟨?_, not_mem_toDigits (by decide) _⟩
    simp [writeTime, hsince]
  simp [-Nat.reducePow, parseTime, hsplit, parseUnsigned_toDigits hfits',
    parseUnsigned_toDigits hnanos, hfits']

lemma parseTimeField_timeField (message : MessageRef ι) :
    parseTimeField (timeField message) =
      some (message.internalDate.sinceEpoch, message.internalZone) := by
  have hat : '@' ∉ writeTime message.internalDate := by
    simp [writeTime, not_mem_toDigits]
  by_cases hzone : message.internalZone = 0
  · have hnone : splitOnce '@' (timeField message) = none := by
      rw [splitOnce_eq_none, timeField, if_neg (not_not.2 hzone), append_nil]
      exact hat
    have hfield : timeField message = writeTime message.internalDate := by
      rw [timeField, if_neg (not_not.2 hzone), append_nil]
    rw [parseTimeField, hnone, hfield]
    simp [parseTime_writeTime, hzone]
  · have hsplit : splitOnce '@' (timeField message) =
        some (writeTime message.internalDate, showInt message.internalZone.toInt) := by
      rw [splitOnce_eq_some, timeField, if_pos hzone]
      exact ⟨rfl, hat⟩
    have hparse : parseSigned (2 ^ 15) (showInt message.internalZone.toInt) =
        some message.internalZone.toInt :=
      parseSigned_showInt message.internalZone.le_toInt message.internalZone.toInt_lt
    have hne : message.internalZone.toInt ≠ 0 := fun h =>
      hzone (Int16.toInt_inj.1 (h.trans Int16.toInt_zero.symm))
    simp [-Nat.reducePow, parseTimeField, hsplit, hparse, Option.filter_some, parseTime_writeTime,
      hne]

variable {c : Char}

lemma not_mem_uuid (hc : c.isAlphanum = false) (hhyphen : c ≠ '-') (id : ι) :
    c ∉ uuid.toText id := by
  intro h
  obtain h | h := uuid.plain id c h
  · simp [hc] at h
  · exact hhyphen h

lemma not_mem_timeField (hdigit : c.isDigit = false) (hmark : c ∉ ['.', '@', '-']) :
    c ∉ timeField message := by
  simp only [mem_cons, not_mem_nil, or_false, not_or] at hmark
  obtain ⟨hdot, hat, hminus⟩ := hmark
  unfold timeField writeTime
  split_ifs <;> simp [not_mem_toDigits hdigit, not_mem_showInt hdigit hminus, hdot, hat]

lemma not_mem_flagField (hc : keywordChar c = false) (hcomma : c ≠ ',') (flags : List Flag) :
    c ∉ flagField flags := by
  intro h
  obtain h | ⟨token, htoken, h⟩ := Lines.mem_intercalate h
  · exact hcomma (by simpa using h)
  · obtain ⟨flag, -, rfl⟩ := List.mem_map.1 htoken
    simp [keywordChar_of_mem_flagToken h] at hc

lemma parseRecord_record (message : MessageRef ι) :
    parseRecord uuid (record uuid message) =
      (parseFlags (flagField message.flags)).map fun flags =>
        { message with flags, internalDate := message.internalDate.sinceEpoch } := by
  have hfields : (record uuid message).splitOn ' ' = _ :=
    splitOn_intercalate ' ' (by
      simp only [forall_mem_cons, not_mem_nil, false_implies, implies_true, and_true]
      exact ⟨not_mem_uuid (by decide) (by decide) _, not_mem_toDigits (by decide) _,
        not_mem_toDigits (by decide) _, not_mem_timeField (by decide) (by decide),
        not_mem_toDigits (by decide) _, not_mem_flagField (by decide) (by decide) _⟩)
      (cons_ne_nil _ _)
  simp only [parseRecord, hfields, uuid.parseStr_toText, parseTimeField_timeField,
    parseUnsigned_toDigits message.uid.toNat_lt, parseUnsigned_toDigits message.size.toNat_lt,
    parseUnsigned_toDigits message.modseq.toNat_lt]
  cases parseFlags (flagField message.flags) <;> simp

lemma parseStamp_stamp (generation : Generation) :
    parseStamp (stamp generation) = if generation.2 < 2 ^ 64 then some generation else none := by
  have hfields : (stamp generation).splitOn ' ' = _ :=
    splitOn_intercalate ' ' (by
      simp only [forall_mem_cons, not_mem_nil, false_implies, implies_true, and_true]
      exact ⟨by decide, not_mem_toDigits (by decide) _, not_mem_toDigits (by decide) _⟩)
      (cons_ne_nil _ _)
  simp only [parseStamp, hfields, parseUnsigned_toDigits generation.1.toNat_lt,
    parseUnsigned_digits (digits_toDigits generation.2), Option.filter_some]
  by_cases hfits : generation.2 < 2 ^ 64 <;> simp [-Nat.reducePow, hfits]

lemma not_mem_record (hc : c ∈ ['\n', '\r']) : c ∉ record uuid message := by
  have hends : ∀ c ∈ ['\n', '\r'], c.isAlphanum = false ∧ c.isDigit = false ∧
      keywordChar c = false ∧ c ∉ ['.', '@', '-'] ∧ c ≠ '-' ∧ c ≠ ',' ∧ c ∉ [' '] := by decide
  obtain ⟨halnum, hdigit, hkeyword, hmark, hhyphen, hcomma, hspace⟩ := hends c hc
  intro h
  obtain h | ⟨field, hfield, h⟩ := Lines.mem_intercalate h
  · exact hspace h
  · simp only [mem_cons, not_mem_nil, or_false] at hfield
    obtain rfl | rfl | rfl | rfl | rfl | rfl := hfield
    · exact not_mem_uuid halnum hhyphen _ h
    · exact not_mem_toDigits hdigit _ h
    · exact not_mem_toDigits hdigit _ h
    · exact not_mem_timeField hdigit hmark h
    · exact not_mem_toDigits hdigit _ h
    · exact not_mem_flagField hkeyword hcomma _ h

lemma not_mem_stamp (hc : c ∈ ['\n', '\r']) : c ∉ stamp generation := by
  have hends : ∀ c ∈ ['\n', '\r'], c.isDigit = false ∧ c ∉ "gen".toList ∧ c ∉ [' '] := by decide
  obtain ⟨hdigit, hword, hspace⟩ := hends c hc
  intro h
  obtain h | ⟨field, hfield, h⟩ := Lines.mem_intercalate h
  · exact hspace h
  · simp only [mem_cons, not_mem_nil, or_false] at hfield
    obtain rfl | rfl | rfl := hfield
    · exact hword h
    · exact not_mem_toDigits hdigit _ h
    · exact not_mem_toDigits hdigit _ h

lemma lines_write :
    lines (write uuid generation messages) =
      (magic ++ ' ' :: Nat.toDigits 10 version) :: stamp generation ::
        messages.map (record uuid) := by
  refine lines_endLines ?_
  simp only [forall_mem_cons, forall_mem_map]
  exact ⟨by decide, ⟨not_mem_stamp (by simp), not_mem_stamp (by simp)⟩,
    fun message _ => ⟨not_mem_record (by simp), not_mem_record (by simp)⟩⟩

def reread (message : MessageRef ι) : Option (MessageRef ι) :=
  (parseFlags (flagField message.flags)).map fun flags =>
    { message with flags, internalDate := message.internalDate.sinceEpoch }

lemma reread_eq_self (hdate : 0 ≤ message.internalDate.secs) :
    reread message = some message ↔ ∀ flag ∈ message.flags, ',' ∉ flag.asStr := by
  have hsince : message.internalDate.sinceEpoch = message.internalDate := if_pos hdate
  rw [← parseFlags_flagField_eq_iff, reread, Option.map_eq_some_iff, hsince]
  constructor
  · rintro ⟨flags, hflags, heq⟩
    rw [hflags, ← congrArg MessageRef.flags heq]
  · intro h
    exact ⟨message.flags, h, rfl⟩

lemma load_write (asked : Generation) :
    load uuid (write uuid generation messages) asked =
      if generation = asked ∧ generation.2 < 2 ^ 64 then
        (messages.mapM reread).filter (·.length = generation.2) else none := by
  have hheader : isHeader (magic ++ ' ' :: Nat.toDigits 10 version) := by decide
  have hrecords : (messages.map (record uuid)).mapM (parseRecord uuid) =
      messages.mapM reread := by
    rw [mapM_map]
    exact congrArg (messages.mapM ·) (funext fun message => parseRecord_record message)
  simp only [load, lines_write, hheader, parseStamp_stamp, hrecords]
  by_cases hstamp : generation = asked ∧ generation.2 < 2 ^ 64
  · obtain ⟨rfl, hfits⟩ := hstamp
    simp only [hfits, and_self, if_true]
    cases messages.mapM reread with
    | none => rfl
    | some read =>
      by_cases hcount : read.length = generation.2 <;> simp [hcount, Option.filter_some]
  · have hother : (if generation.2 < 2 ^ 64 then some generation else none) ≠ some asked := by
      split_ifs with hfits
      · exact fun h => hstamp ⟨Option.some.inj h, hfits⟩
      · exact fun h => nomatch h
    simp only [if_neg hstamp, guard, hother, if_true, if_false]
    rfl

/-- An index of messages with dates from 1970 on that is loaded for the generation it was written
for is absent, or exactly the messages that were written, if and only if no keyword of a message has
a comma in it, unless the file is refused for another reason: the stamp has another count or one
that is too large, or a part of a keyword is no flag. -/
theorem load_write_iff (uuid : UuidText ι) (generation : Generation)
    (messages : List (MessageRef ι))
    (hdates : ∀ message ∈ messages, 0 ≤ message.internalDate.secs) :
    load uuid (write uuid generation messages) generation = none ∨
        load uuid (write uuid generation messages) generation = some messages ↔
      (messages.length = generation.2 ∧ generation.2 < 2 ^ 64 →
        (∀ message ∈ messages, ∀ flag ∈ message.flags, (parseFlags (flagToken flag)).isSome) →
        ∀ message ∈ messages, ∀ flag ∈ message.flags, ',' ∉ flag.asStr) := by
  have hlength : ∀ read, messages.mapM reread = some read → read.length = messages.length :=
    fun read hread => (forall₂_of_mapM hread).length_eq.symm
  by_cases hcount : messages.length = generation.2 ∧ generation.2 < 2 ^ 64
  · have hload : load uuid (write uuid generation messages) generation =
        messages.mapM reread := by
      rw [load_write, if_pos ⟨rfl, hcount.2⟩]
      cases hread : messages.mapM reread with
      | none => rfl
      | some read => simp [Option.filter_some, hlength read hread, hcount.1]
    have hself : (∀ message ∈ messages, reread message = some message) ↔
        ∀ message ∈ messages, ∀ flag ∈ message.flags, ',' ∉ flag.asStr :=
      forall₂_congr fun message hmessage => reread_eq_self (hdates message hmessage)
    rw [hload, mapM_none_or_self, hself]
    simp only [reread, Option.isSome_map, isSome_parseFlags_flagField, hcount, and_self,
      true_implies]
  · have hload : load uuid (write uuid generation messages) generation = none := by
      rw [load_write]
      split_ifs with hfits
      · refine Option.filter_eq_none_iff.2 fun read hread => ?_
        simpa [hlength read hread] using fun heq => hcount ⟨heq, hfits.2⟩
      · rfl
    simp [-Nat.reducePow, hload, hcount]

end Records

def oneUuid : UuidText Unit where
  toText _ := "01890a5d-ac96-774b-bcce-b302099a8057".toList
  parseStr s := if s = "01890a5d-ac96-774b-bcce-b302099a8057".toList then some () else none
  parseStr_toText _ := if_pos rfl
  plain _ := by decide +kernel

def commaMessage : MessageRef Unit where
  uid := 7
  id := ()
  size := 1024
  flags := [.keyword ⟨"x,deleted".toList, by decide⟩]
  internalDate := ⟨1700000000, by decide, 500⟩
  internalZone := -90
  modseq := 3

def junkMessage : MessageRef Unit :=
  { commaMessage with flags := [.seen, .keyword ⟨"$Junk".toList, by decide⟩] }

/-- A message that is seen and has a keyword without a comma. -/
theorem load_write_iff_junk :
    load oneUuid (write oneUuid (3, 1) [junkMessage]) (3, 1) = none ∨
      load oneUuid (write oneUuid (3, 1) [junkMessage]) (3, 1) = some [junkMessage] :=
  (load_write_iff oneUuid (3, 1) [junkMessage] (by decide)).2 fun _ _ => by decide

/-- A message that was never deleted comes out of its index as one that was. -/
theorem comma_keyword_is_loaded_as_deleted :
    load oneUuid (write oneUuid (3, 1) [commaMessage]) (3, 1) =
      some [{ commaMessage with flags := [.keyword ⟨"x".toList, by decide⟩, .deleted] }] ∧
    ¬ (load oneUuid (write oneUuid (3, 1) [commaMessage]) (3, 1) = none ∨
      load oneUuid (write oneUuid (3, 1) [commaMessage]) (3, 1) = some [commaMessage]) := by
  decide +kernel

end Index

end Epistle.Imap
