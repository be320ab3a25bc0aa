import Epistle.Lib.Table
import Epistle.Lib.Word
import Epistle.Evidence.Record
import Mathlib.Data.String.Basic

/-!
# The evidence quota

How much evidence one account, and the whole server, may add in a day (`evidence/quota`). There is
one book, in memory: it is rebuilt from the day's records at first use. An acceptance reserves its
own record and an outcome for each recipient, or is refused; what it reserved is given back if
nothing was written.

The counts are 64-bit words, as natural numbers: what is counted wraps around, what is compared with
a limit saturates, and a subtraction that saturates is the one of natural numbers. The clock, the
log, and whether a book that could not be rebuilt is due to be tried again are inputs of a call.
-/

namespace Epistle.Evidence.Quota

open Lib

/-- The account a record is counted to when its message cannot be traced. -/
def unattributed : String := "unattributed"

/-- How many shares of an account fit the day at least. -/
def minShares : ℕ := 4

/-- For how many days a message's outcomes are remembered. -/
def owedDays : ℤ := 14

/-- The most messages whose outcomes are remembered while every account is admitted. -/
def maxOwed : ℕ := 65536

/-- The most messages of one account whose outcomes are remembered. -/
def maxOwedPerAccount : ℕ := 8192

/-- Once the memory is full, an account below this many entries is still admitted. -/
def minOwedGuaranteed : ℕ := 64

/-- Past this many messages nobody is admitted. -/
def maxOwedCeiling : ℕ := maxOwed + maxOwed / 8

/-- The most messages of the last days whose account is remembered at start. -/
def maxNamed : ℕ := 1000000

/-- The queue id of a message. -/
abbrev Uuid : Type := ℕ

/-- What a day may take. -/
structure Limits where
  accountRecords : ℕ
  accountKeptBytes : ℕ
  /-- Records of every kind the whole log may take. -/
  dayRecords : ℕ
  deriving DecidableEq, Repr

/-- The limits with the share cut so that enough of them fit the day. -/
def Limits.fitted (limits : Limits) : Limits :=
  { limits with accountRecords := min limits.accountRecords (limits.dayRecords / minShares) }

/-- What an account holds of a day. -/
structure Held where
  records : ℕ
  bytes : ℕ
  deriving DecidableEq, Repr

/-- An account that holds nothing. -/
def Held.none : Held := ⟨0, 0⟩

/-- Prepaid outcomes of a message. -/
structure Owed where
  left : ℕ
  day : ℤ
  account : String
  deriving DecidableEq, Repr

/-- The counts of a day. -/
structure State where
  day : ℤ
  /-- Records counted today, all accounts. -/
  total : ℕ
  /-- What is set aside against the day's limit. -/
  within : ℕ
  accounts : Table String Held
  /-- Outcomes still to come of acceptances that paid for them. -/
  owed : Table Uuid Owed
  /-- How many entries of `owed` each account has. -/
  owedPer : Table String ℕ
  deriving DecidableEq

/-- The counts at the start of a day. -/
def State.start (day : ℤ) : State := ⟨day, 0, 0, .empty, .empty, .empty⟩

/-- Exactly what one acceptance added. -/
structure Reservation where
  id : Uuid
  account : String
  records : ℕ
  kept : ℕ
  within : ℕ
  day : ℤ
  deriving DecidableEq, Repr

namespace State

/-! ## The memory of prepaid outcomes -/

/-- An account has one entry less. -/
def uncount (s : State) (account : String) : State :=
  match s.owedPer.get account with
  | none => s
  | some count =>
      { s with
        owedPer := if count - 1 = 0 then s.owedPer.erase account
          else s.owedPer.set account (count - 1) }

/-- Forget what is owed for a message. -/
def untrack (s : State) (id : Uuid) : State :=
  match s.owed.get id with
  | none => s
  | some owed => { s with owed := s.owed.erase id }.uncount owed.account

/-- Remember what is owed for a message, in place of what was. -/
def track (s : State) (id : Uuid) (owed : Owed) : State :=
  let replaced : State := { s with owed := s.owed.set id owed }
  let counted := match s.owed.get id with
    | none => replaced
    | some old => replaced.uncount old.account
  { counted with
    owedPer := counted.owedPer.set owed.account ((counted.owedPer.get owed.account).getD 0 + 1) }

/-- Whether an account may have one more message whose prepaid outcomes are remembered. -/
def hasRoomFor (s : State) (account : String) : Bool :=
  let mine := (s.owedPer.get account).getD 0
  if maxOwedPerAccount ≤ mine then false
  else
    let held := s.owed.size
    if held < maxOwed then true
    else
      let fair := max (held / max s.owedPer.size 1) minOwedGuaranteed
      held < maxOwedCeiling && mine < fair

/-! ## The counts of a day -/

/-- Start the counts again on a later day, and forget what is long owed. -/
def roll (s : State) (today : ℤ) : State :=
  if s.day < today then
    let old := (s.owed.entries.filter fun x => owedDays < today - x.2.day).map Prod.fst
    old.foldl untrack { s with day := today, total := 0, within := 0, accounts := .empty }
  else s

/-- What an account holds. -/
def held (s : State) (account : String) : Held := (s.accounts.get account).getD .none

/-- Count records to an account: the part up to its share, and up to what the day's limit still has,
is set aside. -/
def add (s : State) (limits : Limits) (account : String) (records kept : ℕ) : State × ℕ :=
  let held := s.held account
  let aside :=
    min (min records (limits.accountRecords - held.records)) (limits.dayRecords - s.within)
  ({ s with
      accounts := s.accounts.set account
        ⟨wrappingAdd 64 held.records records, wrappingAdd 64 held.bytes kept⟩
      total := wrappingAdd 64 s.total records
      within := wrappingAdd 64 s.within aside }, aside)

/-- Count a fact: not at all if its acceptance paid for it, else once. -/
def settle (s : State) (limits : Limits) (account : Option String) (id : Uuid) (ends : Bool) :
    State :=
  match s.owed.get id with
  | some owed =>
      if 0 < owed.left then
        let paid : State := { s with owed := s.owed.set id { owed with left := owed.left - 1 } }
        if ends || owed.left - 1 = 0 then paid.untrack id else paid
      else
        let s := if ends then s.untrack id else s
        (s.add limits (account.getD unattributed) 1 0).1
  | none => (s.add limits (account.getD unattributed) 1 0).1

end State

/-! ## Rebuilding the counts -/

/-- A line of the log, as far as it is counted. -/
inductive LogLine
  | broken
  | accepted (spoolId : Uuid) (account : String) (recipients kept : ℕ)
  | outcome (spoolId : Uuid)
  | abandoned (spoolId : Uuid)
  | other
  deriving DecidableEq, Repr

/-- The log as a rebuild finds it. -/
structure DayLog where
  /-- The files of the last days, as far as they can be read. -/
  before : List (List LogLine)
  /-- The file of the day, if there is one, or why it cannot be read. -/
  today : Except String (Option (List LogLine))

/-- Learn the account of a message, while there is room. -/
def name (names : Table Uuid String) (id : Uuid) (account : String) : Table Uuid String :=
  if names.size < maxNamed then names.set id account else names

/-- The accounts of the messages of the last days. -/
def acceptedBefore (log : DayLog) : Table Uuid String :=
  log.before.flatten.foldl (fun names line =>
    match line with
    | .accepted id account _ _ => name names id account
    | _ => names) .empty

/-- Count a line of the log. -/
def readLine (limits : Limits) (today : ℤ) : State × Table Uuid String → LogLine →
    State × Table Uuid String
  | (s, names), .broken => ((s.add limits unattributed 1 0).1, names)
  | (s, names), .accepted id account recipients kept =>
      -- An acceptance the memory has no room for is counted for its own record only.
      let paid := 0 < recipients && s.hasRoomFor account
      let s := (s.add limits account (wrappingAdd 64 1 (if paid then recipients else 0)) kept).1
      (if paid then s.track id ⟨recipients, today, account⟩ else s, name names id account)
  | (s, names), .outcome id => (s.settle limits (names.get id) id false, names)
  | (s, names), .abandoned id => (s.settle limits (names.get id) id true, names)
  | (s, names), .other => ((s.add limits unattributed 1 0).1, names)

/-- The counts of the records of a day. -/
def readDay (limits : Limits) (log : DayLog) (today : ℤ) : Except String State := do
  match ← log.today with
  | none => return .start today
  | some lines =>
      if maxRecordsPerDay < lines.length then
        .error "more records in a day than any day may hold"
      else return (lines.foldl (readLine limits today) (.start today, acceptedBefore log)).1

/-! ## The book -/

/-- The counts, and whether they can be relied on. -/
structure Book where
  state : State
  /-- Whether it was rebuilt from the log yet. -/
  loaded : Bool
  /-- Why it could not be rebuilt, while it cannot. -/
  unavailable : Option String

/-- A book that was not used yet. -/
def Book.start : Book := ⟨.start 0, false, none⟩

namespace Book

/-- Read the counts from the log, and keep what is remembered of earlier days. -/
def rebuild (book : Book) (limits : Limits) (log : DayLog) (today : ℤ) : Book :=
  match readDay limits log today with
  | .ok s =>
      { book with
        state := book.state.owed.entries.foldl (fun s x =>
          if (s.owed.get x.1).isNone && s.hasRoomFor x.2.account then s.track x.1 x.2 else s) s
        unavailable := none }
  | .error why => { book with unavailable := some why }

/-- Rebuild a book that was not used yet. -/
def ensure (book : Book) (limits : Limits) (log : DayLog) (today : ℤ) : Book :=
  if book.loaded then book else { book with loaded := true }.rebuild limits log today

/-- What a refused acceptance is told. -/
def «over» (what : String) : String := what ++ " for today: retry later"

/-- Reserve the record of an acceptance and its outcomes, or say which limit it would pass. -/
def reserve (book : Book) (limits : Limits) (log : DayLog) (due : Bool) (account : String)
    (id : Uuid)
    (recipients kept : ℕ) (today : ℤ) : Except String Reservation × Book :=
  let book := book.ensure limits log today
  let book := if book.unavailable.isSome && due then book.rebuild limits log today else book
  if book.unavailable.isSome then (.error («over» "the evidence quota cannot be read"), book)
  else
    let s := book.state.roll today
    let refuse (what : String) : Except String Reservation × Book :=
      (.error («over» what), { book with state := s })
    let records := wrappingAdd 64 1 recipients
    let held := s.held account
    if 0 < recipients && !s.hasRoomFor account then
      refuse "too many messages of this account (or of all) wait for their outcomes"
    else if limits.accountRecords < saturatingAdd 64 held.records records then
      refuse "this account has added as many records as it may"
    else if limits.accountKeptBytes < saturatingAdd 64 held.bytes kept then
      refuse "this account has kept as many bytes as it may"
    else if limits.dayRecords <
        saturatingAdd 64 s.within (min records (limits.accountRecords - held.records)) then
      refuse "the evidence log is full"
    else
      let (added, within) := s.add limits account records kept
      let added := if 0 < recipients then added.track id ⟨recipients, s.day, account⟩ else added
      (.ok ⟨id, account, records, kept, within, s.day⟩, { book with state := added })

/-- Give back what was reserved. -/
def release (book : Book) (held : Reservation) : Book :=
  let s := book.state.untrack held.id
  if s.day ≠ held.day then { book with state := s }
  else
    let accounts := match s.accounts.get held.account with
      | none => s.accounts
      | some entry =>
          let entry : Held := ⟨entry.records - held.records, entry.bytes - held.kept⟩
          if entry = .none then s.accounts.erase held.account
          else s.accounts.set held.account entry
    { book with
      state := { s with
        total := s.total - held.records
        within := s.within - held.within
        accounts } }

/-- Count a fact that was written. -/
def settled (book : Book) (limits : Limits) (log : DayLog) (account : Option String) (id : Uuid)
    (ends : Bool) (today : ℤ) : Book :=
  let book := book.ensure limits log today
  { book with state := (book.state.roll today).settle limits account id ends }

/-- An outcome of a message was written. -/
def fact (book : Book) (limits : Limits) (log : DayLog) (account : Option String) (id : Uuid)
    (today : ℤ) : Book :=
  book.settled limits log account id false today

/-- A message was abandoned. -/
def ended (book : Book) (limits : Limits) (log : DayLog) (account : Option String) (id : Uuid)
    (today : ℤ) : Book :=
  book.settled limits log account id true today

end Book

end Epistle.Evidence.Quota
