import Epistle.Imap.Index
import Epistle.Lib.Table

/-!
# A mailbox directory

The messages of a mailbox are files, each with sidecars for its UID, flags, zone and mod-sequence;
beside them are the counters that UIDs and mod-sequences come from, the log of expunged UIDs and the
index. A session works on a snapshot of the messages (`imap/snapshot`), which it takes from the
index if that looks fresh, and from the files otherwise (`imap/scan`). Mail arrives by delivery
(`storage/delivery`) and APPEND (`imap/mailbox`), and goes by EXPUNGE, by `removeUids` and by a POP3
session (`pop3/backend`).

Every operation here runs to its end; `Directory.scanStopped` is the one that does not.
-/

namespace Epistle.Imap

open Lib Lib.Text

/-- A message file: the size of its text, and when it was last modified. -/
structure Eml where
  size : UInt64
  modified : Timestamp
  deriving DecidableEq

/-- The directory of a mailbox: its messages, sidecars and counters. -/
structure Directory (ι : Type) [LinearOrder ι] where
  emls : Table ι Eml
  uids : ι → Option UInt32
  flags : ι → Option (List Flag)
  zones : ι → Option Int16
  modseqs : ι → Option UInt64
  uidCounter : Option UInt32
  modseqCounter : Option UInt64
  /-- Expunged UIDs, each with the mod-sequence it went at. -/
  vanished : List (UInt32 × UInt64)
  index : Option (List Char)

/-- What a session knows of a mailbox. -/
structure Snapshot (ι : Type) where
  messages : List (MessageRef ι)
  uidNext : UInt32
  highestModseq : UInt64
  deriving DecidableEq

/-- The largest offset of a time zone, in minutes. -/
def maxZone : ℕ := 24 * 60 - 1

/-- The most flags of a message. -/
def maxFlags : ℕ := 32

/-! ## Flags -/

/-- A flag as it is compared, without regard to case. -/
def flagKey : Flag → List Char
  | .seen => "seen".toList
  | .answered => "answered".toList
  | .flagged => "flagged".toList
  | .deleted => "deleted".toList
  | .draft => "draft".toList
  | .keyword k => toLower k.name

def containsKeywordAware (set : List Flag) (flag : Flag) : Bool :=
  set.any fun existing => flagKey existing = flagKey flag

/-- Whether two lists have the same flags. -/
def flagsEqual (current next : List Flag) : Bool :=
  current.all (containsKeywordAware next) && next.all (containsKeywordAware current)

open Function

namespace Directory

variable {ι : Type} [LinearOrder ι]

/-- A mailbox nothing ever happened to. -/
def empty : Directory ι where
  emls := .empty
  uids _ := none
  flags _ := none
  zones _ := none
  modseqs _ := none
  uidCounter := none
  modseqCounter := none
  vanished := []
  index := none

def ids (dir : Directory ι) : List ι := dir.emls.keys

/-! ## Sidecars -/

/-- The last uid that was given out. -/
def readUidCounter (dir : Directory ι) : UInt32 := dir.uidCounter.getD 0

/-- The flags of a message. -/
def readFlags (dir : Directory ι) (id : ι) : List Flag := (dir.flags id).getD []

def readZone (dir : Directory ι) (id : ι) : Int16 :=
  ((dir.zones id).filter fun zone => zone.toInt.natAbs ≤ maxZone).getD 0

/-- The mod-sequence of a message. -/
def readModseq (dir : Directory ι) (id : ι) : UInt64 := (dir.modseqs id).getD 1

/-- The mod-sequence of the mailbox. -/
def readModseqCounter (dir : Directory ι) : UInt64 := dir.modseqCounter.getD 1

/-- Advance the mod-sequence. -/
def nextCounter (dir : Directory ι) : UInt64 × Directory ι :=
  let next := dir.readModseqCounter + 1
  (next, { dir with modseqCounter := some next })

/-- Write the flags of a message. -/
def writeFlags (dir : Directory ι) (id : ι) (flags : List Flag) : Directory ι :=
  { dir with flags := update dir.flags id (some flags) }

/-! ## The log of expunged messages -/

/-- Log uids that vanished, at a new mod-sequence. -/
def recordAdvancing (dir : Directory ι) (uids : List UInt32) : Directory ι :=
  if uids = [] then dir
  else
    let (modseq, dir) := dir.nextCounter
    { dir with vanished := dir.vanished ++ uids.map (·, modseq) }

/-! ## Scanning -/

/-- A scan on its way. -/
structure Scan (ι : Type) [LinearOrder ι] where
  dir : Directory ι
  counter : UInt32
  messages : List (MessageRef ι)

/-- The uid of a message, which it is given if it has none. -/
def assignOrRead (dir : Directory ι) (id : ι) (counter : UInt32) :
    UInt32 × UInt32 × Directory ι :=
  match dir.uids id with
  | some uid => (uid, counter, dir)
  | none =>
      (counter + 1, counter + 1,
        { dir with uids := update dir.uids id (some (counter + 1)) })

/-- Look at the next message. -/
def Scan.next (s : Scan ι) (id : ι) : Scan ι :=
  let (uid, counter, dir) := s.dir.assignOrRead id s.counter
  { dir, counter, messages := s.messages ++
      [{ uid, id, size := ((dir.emls.get id).map (·.size)).getD 0, flags := dir.readFlags id,
         internalDate := ((dir.emls.get id).map (·.modified)).getD .unixEpoch,
         internalZone := dir.readZone id, modseq := dir.readModseq id }] }

def scanning (dir : Directory ι) (ids : List ι) : Scan ι :=
  ids.foldl Scan.next ⟨dir, dir.readUidCounter, []⟩

/-- All messages of the mailbox, with a uid for each. -/
def scanMailbox (dir : Directory ι) : List (MessageRef ι) × Directory ι :=
  let s := dir.scanning dir.ids
  (s.messages,
    if dir.readUidCounter < s.counter then { s.dir with uidCounter := some s.counter } else s.dir)

/-- What a scan leaves that is stopped after some messages. -/
def scanStopped (dir : Directory ι) (messages : ℕ) : Directory ι :=
  (dir.scanning (dir.ids.take messages)).dir

/-- The stamp of an index. -/
def currentGeneration (dir : Directory ι) : Index.Generation :=
  (max dir.readModseqCounter 1, dir.emls.size)

/-! ## Messages come and go -/

/-- Deliver a message. -/
def deliverToAccount (dir : Directory ι) (id : ι) (eml : Eml) (tokens : List (List Char)) :
    Directory ι :=
  let flags := (tokens.take maxFlags).filterMap Flag.parse
  let dir := { dir with emls := dir.emls.set id eml }
  if flags = [] then dir else dir.writeFlags id flags

/-- Append a message with its date and flags. -/
def appendDated (dir : Directory ι) (id : ι) (eml : Eml) (zone : Option Int16)
    (flags : List Flag) : Directory ι :=
  let zones := match zone with
    | some zone => if zone = 0 then dir.zones else update dir.zones id (some zone)
    | none => dir.zones
  let dir := { dir with emls := dir.emls.set id eml, zones }
  if flags = [] then dir else dir.writeFlags id flags

/-- Remove the files of a message. -/
def removeFiles (dir : Directory ι) (id : ι) : Directory ι :=
  { dir with
    emls := dir.emls.erase id, flags := update dir.flags id none,
    uids := update dir.uids id none, zones := update dir.zones id none }

/-- Remove a message over POP3, which leaves its sidecars. -/
def pop3Remove (dir : Directory ι) (ids : List ι) : Directory ι :=
  { dir with emls := ids.foldl Table.erase dir.emls }

end Directory

/-! ## Snapshots -/

namespace Snapshot

variable {ι : Type} [LinearOrder ι]

/-- Open a mailbox: from its index if the stamp is right, else by a scan. -/
def openAt (uuid : UuidText ι) (dir : Directory ι) : Snapshot ι × Directory ι :=
  let generation := dir.currentGeneration
  match dir.index.bind (Index.load uuid · generation) with
  | some loaded =>
      ({ messages := loaded, uidNext := dir.readUidCounter + 1, highestModseq := generation.1 },
        dir)
  | none =>
      let (scanned, dir) := dir.scanMailbox
      ({ messages := scanned, uidNext := dir.readUidCounter + 1,
         highestModseq :=
           max (max dir.readModseqCounter (((scanned.map (·.modseq)).max?).getD 1)) 1 },
        { dir with index := some (Index.write uuid generation scanned) })

/-- Store the flags of a message. -/
def storeFlags (snapshot : Snapshot ι) (dir : Directory ι) (sequence : ℕ) (flags : List Flag) :
    Option (Snapshot ι × Directory ι) :=
  if sequence = 0 then none
  else
    match snapshot.messages[sequence - 1]? with
    | none => none
    | some message =>
        if flagsEqual message.flags flags then some (snapshot, dir)
        else
          let (modseq, dir) := (dir.writeFlags message.id flags).nextCounter
          some ({ snapshot with
              messages := snapshot.messages.set (sequence - 1) { message with flags, modseq },
              highestModseq := max snapshot.highestModseq modseq },
            { dir with modseqs := update dir.modseqs message.id (some modseq) })

/-- Read the flags of a message again. -/
def reloadFlags (snapshot : Snapshot ι) (dir : Directory ι) (sequence : ℕ) : Option (Snapshot ι) :=
  if sequence = 0 then none
  else
    match snapshot.messages[sequence - 1]? with
    | none => none
    | some message =>
        if (dir.emls.get message.id).isNone then none
        else some { snapshot with
          messages := snapshot.messages.set (sequence - 1)
            { message with
              flags := dir.readFlags message.id, modseq := dir.readModseq message.id } }

/-- Messages on their way out of a snapshot. -/
structure Taking (ι : Type) [LinearOrder ι] where
  dir : Directory ι
  kept : List (MessageRef ι)
  /-- The sequence number each message had when it went, and its UID. -/
  taken : List (ℕ × UInt32)

def Taking.next (doomed : MessageRef ι → Bool) (s : Taking ι) (message : MessageRef ι) :
    Taking ι :=
  if doomed message then
    { s with
      dir := s.dir.removeFiles message.id, taken := s.taken ++ [(s.kept.length + 1, message.uid)] }
  else { s with kept := s.kept ++ [message] }

/-- Take messages out of a snapshot and remove their files. -/
def takeWhere (snapshot : Snapshot ι) (dir : Directory ι) (doomed : MessageRef ι → Bool) :
    Taking ι :=
  snapshot.messages.foldl (Taking.next doomed) ⟨dir, [], []⟩

/-- Expunge deleted messages. -/
def expungeWhere (snapshot : Snapshot ι) (dir : Directory ι) (keep : UInt32 → Bool) :
    List ℕ × Snapshot ι × Directory ι :=
  let s := snapshot.takeWhere dir fun message => Flag.deleted ∈ message.flags ∧ keep message.uid
  (s.taken.map (·.1), { snapshot with messages := s.kept },
    s.dir.recordAdvancing (s.taken.map (·.2)))

/-- Remove messages by their uids. -/
def removeUids (snapshot : Snapshot ι) (dir : Directory ι) (uids : List UInt32) :
    List ℕ × Snapshot ι × Directory ι :=
  let s := snapshot.takeWhere dir fun message => message.uid ∈ uids
  (s.taken.map (·.1), { snapshot with messages := s.kept },
    if s.taken = [] then s.dir else s.dir.recordAdvancing uids)

end Snapshot

/-! ## Sessions -/

/-- A mailbox, the snapshots of its sessions, and the ids that were given out. -/
structure World (ι : Type) [LinearOrder ι] where
  dir : Directory ι
  sessions : List (Snapshot ι)
  issued : List ι

/-- What happens to a mailbox. -/
inductive Op (ι : Type)
  | deliver (id : ι) (eml : Eml) (tokens : List (List Char))
  | append (id : ι) (eml : Eml) (zone : Option Int16) (flags : List Flag)
  | openAt
  | store (session sequence : ℕ) (flags : List Flag)
  | reload (session sequence : ℕ)
  | expunge (session : ℕ) (keep : UInt32 → Bool)
  | removeUids (session : ℕ) (uids : List UInt32)
  | pop3Remove (ids : List ι)

namespace World

variable {ι : Type} [LinearOrder ι]

def empty : World ι := ⟨.empty, [], []⟩

def update (w : World ι) (session : ℕ)
    (f : Snapshot ι → Option (Snapshot ι × Directory ι)) : World ι :=
  match w.sessions[session]? with
  | none => w
  | some snapshot =>
      match f snapshot with
      | none => w
      | some (snapshot, dir) => { w with dir, sessions := w.sessions.set session snapshot }

def step (uuid : UuidText ι) (w : World ι) : Op ι → World ι
  | .deliver id eml tokens =>
      { w with dir := w.dir.deliverToAccount id eml tokens, issued := id :: w.issued }
  | .append id eml zone flags =>
      { w with dir := w.dir.appendDated id eml zone flags, issued := id :: w.issued }
  | .openAt =>
      let (snapshot, dir) := Snapshot.openAt uuid w.dir
      { w with dir, sessions := w.sessions ++ [snapshot] }
  | .store session sequence flags =>
      w.update session fun snapshot => snapshot.storeFlags w.dir sequence flags
  | .reload session sequence =>
      w.update session fun snapshot =>
        (snapshot.reloadFlags w.dir sequence).map fun snapshot => (snapshot, w.dir)
  | .expunge session keep =>
      w.update session fun snapshot => some (snapshot.expungeWhere w.dir keep).2
  | .removeUids session uids =>
      w.update session fun snapshot => some (snapshot.removeUids w.dir uids).2
  | .pop3Remove ids => { w with dir := w.dir.pop3Remove ids }

/-- Some operations, one after the other. -/
def run (uuid : UuidText ι) (w : World ι) (ops : List (Op ι)) : World ι :=
  ops.foldl (step uuid) w

end World

end Epistle.Imap
