import Epistle.Imap.Session
import Epistle.Lib.Crash
import Epistle.Migrate.Dedupe

/-!
# Copying a folder: the data

The source folder, the settings of a run, what a run keeps on the disk and what it reports
(`migrate/imap/mod.rs`, `state/mod.rs`, `parse`).
-/

namespace Epistle.Migrate

open Imap Lib

/-- The largest uid. -/
def maxUid : ℕ := 2 ^ 32 - 1

/-- The uid behind another, as far as there is one. -/
def nextUid (uid : ℕ) : ℕ := min (uid + 1) maxUid

variable {a b : ℕ}

lemma nextUid_mono (h : a ≤ b) : nextUid a ≤ nextUid b :=
  min_le_min_right maxUid (Nat.succ_le_succ h)

lemma le_of_lt_nextUid (h : a < nextUid b) : a ≤ b :=
  Nat.le_of_lt_succ (Nat.lt_of_lt_of_le h (min_le_left ..))

lemma nextUid_pos (uid : ℕ) : 0 < nextUid uid := lt_min (Nat.succ_pos uid) (by decide)

lemma eq_maxUid_of_nextUid_le (hle : a ≤ b) (hnext : nextUid b ≤ a) (hmax : a ≤ maxUid) :
    a = maxUid := by
  rcases min_le_iff.1 hnext with h | h
  · exact absurd (Nat.le_trans h hle) (Nat.not_succ_le_self b)
  · exact Nat.le_antisymm hmax h

/-- A message of the source. -/
structure Message where
  uid : ℕ
  size : ℕ
  flags : List (List Char)
  internalDate : Option InternalDate
  body : List UInt8
  deriving DecidableEq, Repr

/-- What a copy keeps of a message. -/
def Message.content (m : Message) : List UInt8 × Option InternalDate := (m.body, m.internalDate)

/-- A source folder. A UIDVALIDITY of zero stands for none. -/
structure Source where
  uidValidity : ℕ
  messages : List Message
  /-- The order a server lists or fetches messages in. -/
  order : List Message → List Message
  sorted : messages.Pairwise (·.uid < ·.uid)
  uid_range : ∀ m ∈ messages, 0 < m.uid ∧ m.uid ≤ maxUid
  uidValidity_lt : uidValidity < 2 ^ 32
  order_perm : ∀ l, (order l).Perm l

/-- How the copy runs. -/
structure Settings where
  dryRun : Bool
  /-- The largest literal a response may have. -/
  literal : ℕ
  batchMessages : ℕ
  batchBytes : ℕ
  batch_pos : 0 < batchMessages

/-- The account the folder is copied to, at the start of a run. -/
structure Target where
  quota : Option ℕ
  usage : ℕ
  maxMessageSize : ℕ
  deriving DecidableEq, Repr

/-- What the source says of the folder when it is opened, besides its UIDVALIDITY. -/
structure Examined where
  «exists» : ℕ
  uidNext : ℕ
  uidNext_le : uidNext ≤ maxUid
  deriving DecidableEq, Repr

/-- How far the copy of a folder went. -/
structure FolderState where
  uidValidity : ℕ
  lastUid : ℕ
  inProgress : Bool
  copied : ℕ
  deriving DecidableEq, Repr

/-- A message in the local mailbox. -/
structure Stored where
  body : List UInt8
  internalDate : Option InternalDate
  flags : List Flag
  deriving DecidableEq

/-- What is compared of a stored message. -/
def Stored.content (m : Stored) : List UInt8 × Option InternalDate := (m.body, m.internalDate)

/-- What a copy changes: the mailbox, the state of the folder and the ledger. -/
structure Disk where
  mailbox : List Stored
  state : Option FolderState
  ledger : Option (List UInt8)
  deriving DecidableEq

/-- The disk before the first copy. -/
def Disk.empty : Disk := ⟨[], none, none⟩

/-- Why a ledger is not read. -/
inductive LedgerError
  | io
  | headerIncomplete
  | noMarker
  | checksum
  | order
  | tooLarge
  | outOfOrder
  | rewritten
  deriving DecidableEq, Repr

/-- Why a run stops. -/
inductive MigrateError
  /-- Talking to the server failed. -/
  | client
  | quota (limit usage needed : ℕ)
  | storage
  /-- Reading or writing the progress files failed. -/
  | state (error : LedgerError)
  /-- The model ran out of rounds: no answer of the code. -/
  | rounds
  deriving DecidableEq, Repr

/-- What a copy tells of a folder. -/
structure FolderReport where
  messages : ℕ
  plannedBytes : ℕ
  copied : ℕ
  bytes : ℕ
  deleted : ℕ
  duplicates : ℕ
  confirmed : ℕ
  tooLarge : ℕ
  vanished : ℕ
  restarted : Bool
  deriving DecidableEq, Repr

/-- A program that may fail, and may be stopped at any step. -/
abbrev Run (α : Type) : Type := Prog Disk MigrateError α

end Epistle.Migrate
