import Epistle.Smtp.MemoryBudget
import Epistle.Smtp.Reply

/-!
# Session values

The value types of `smtp/session/types.rs` and `smtp/command.rs`, the session of
`smtp/session/mod.rs`, and what a session asks of its surroundings.

The surroundings (`Env`) are everything a call consults outside the session and the memory
budget: the directory, the rate limiters, the spool, the mailbox quotas, the header and
recipient checks, the SASL exchange. They may answer differently at every call. The usage of an
account is read from disk each time it is asked for, so within one call `Env.usage` also takes
the number of the reading.
-/

namespace Epistle.Smtp

open Lib

inductive Notify
  | never
  | on (success failure delay : Bool)
  deriving DecidableEq, Repr

/-- A parsed client command, with the arguments the session reads. -/
inductive Command
  | helo (domain : String)
  | ehlo (domain : String)
  | mailFrom (reversePath : String) (size : Option ℕ) (requireTls : Bool)
  | rcptTo (forwardPath : String) (notify : Option Notify)
  | data
  | bdat (size : ℕ) (last : Bool)
  | rset
  | noop
  | quit
  | vrfy
  | startTls
  | auth (mechanism : String) (initial : Option String)
  deriving DecidableEq, Repr

/-- Why a command is not understood. -/
inductive ParseError
  | lineTooLong
  | invalidCharacters
  | unknownCommand
  | invalidArguments
  | unsupportedParameter
  deriving DecidableEq, Repr

/-- A message accepted by the session, ready for delivery. -/
structure AcceptedMessage where
  reversePath : String
  recipients : List String
  data : List UInt8
  requireTls : Bool
  noDsn : List String
  deriving DecidableEq, Repr

/-- What the network layer must do after a step. -/
inductive Action
  /-- Send the reply and keep reading commands. -/
  | continue (reply : Reply)
  /-- Send the reply and read data lines. -/
  | collectData (reply : Reply)
  | collectChunk (size : ℕ) (last : Bool)
  | discardChunk (size : ℕ) (reply : Reply)
  | deliver (reply : Reply) (message : AcceptedMessage)
  | upgradeTls (reply : Reply)
  /-- Send the challenge and read one response line. -/
  | collectAuthResponse (reply : Reply)
  | close (reply : Reply)
  deriving DecidableEq, Repr

/-- The fields of `State::ReceivingData`. -/
structure Transfer where
  reversePath : String
  recipients : List String
  noDsn : List String
  /-- Octets received, kept or not. -/
  size : ℕ
  body : List UInt8
  requireTls : Bool
  chunking : Bool
  /-- The framing of the BDAT octets so far. -/
  lineCheck : LineCheck
  /-- What the body holds of the memory budget. -/
  reserved : Reservation
  /-- A reservation for this body was refused. -/
  budgetExhausted : Bool
  deriving DecidableEq, Repr

def Transfer.message (t : Transfer) : AcceptedMessage :=
  ⟨t.reversePath, t.recipients, t.body, t.requireTls, t.noDsn⟩

/-- Where the session is in the dialogue. -/
inductive State
  | connected
  | greeted
  | receivingRecipients (reversePath : String) (requireTls : Bool)
  | receivingData (transfer : Transfer)
  deriving DecidableEq, Repr

/-- What a state has reserved. -/
def State.reserved : State → Reservation
  | .receivingData t => t.reserved
  | _ => .none

/-- The counts of commands without progress (`junk.rs`). -/
structure JunkCount where
  /-- `0` turns both counts off. -/
  limit : ℕ
  junk : ℕ
  refused : ℕ
  deriving DecidableEq, Repr

def JunkCount.count (self : JunkCount) (junk refused : Bool) : Bool × JunkCount :=
  if self.limit = 0 then (false, self)
  else if junk then
    let next := { self with junk := saturatingAdd 32 self.junk 1 }
    (decide (next.junk > next.limit ∨ next.refused > next.limit), next)
  else if refused then
    let next := { self with refused := saturatingAdd 32 self.refused 1 }
    (decide (next.junk > next.limit ∨ next.refused > next.limit), next)
  else (false, self)

/-- The session state machine's data. -/
structure Session where
  hostname : String
  maxMessageSize : ℕ
  maxRecipients : ℕ
  state : State
  tlsAvailable : Bool
  tlsActive : Bool
  authenticated : Option String
  heloDomain : Option String
  esmtp : Bool
  peerIp : Option IpAddr
  quota : Bool
  quotaReports : List AcceptedMessage
  /-- Units of the submission limits charged for the message last handed over. -/
  pendingCharge : Option ℕ
  /-- The shared memory budget is wired in. -/
  memoryBudget : Bool
  chunkReservation : Reservation
  /-- The claim of the body accepted last. -/
  deliveryReservation : Reservation
  junk : JunkCount
  deriving DecidableEq, Repr

/-- A session that was just opened. -/
def Session.new (hostname : String) : Session where
  hostname := hostname
  maxMessageSize := 25 * 1024 * 1024
  maxRecipients := 100
  state := .connected
  tlsAvailable := false
  tlsActive := false
  authenticated := none
  heloDomain := none
  esmtp := false
  peerIp := none
  quota := false
  quotaReports := []
  pendingCharge := none
  memoryBudget := false
  chunkReservation := .none
  deliveryReservation := .none
  junk := ⟨100, 0, 0⟩

/-- How a local address resolves. -/
inductive Resolution
  | notLocal
  | unknownUser
  | account (name : String)
  | alias (targets : List String)
  deriving DecidableEq, Repr

/-- The outcome of one round of a SASL exchange. -/
inductive SaslOutcome
  | reply (reply : Reply) (account : Option String)
  | challenge (reply : Reply)
  | close (reply : Reply)

/-- What the session's surroundings answer during one call. -/
structure Env where
  /-- `Address::parse` and the text of the address it accepts. -/
  parseAddress : String → Option String
  ownsAddress : String → String → Bool
  resolve : String → Resolution
  authCapability : String
  hasRoom : String → Bool
  checkInbound : String → Option IpAddr → Option Reply
  spoolHasRoom : ℕ → Bool
  quotaLimit : String → Option ℕ
  /-- The octets an account stores, at each reading of this call. -/
  usage : ℕ → String → ℕ
  /-- `author::check` for a logged-in account. -/
  authorCheck : String → List UInt8 → Option Reply
  capCheck : String → List String → Option Reply
  /-- Whether the submission limits take this many units. -/
  charge : String → ℕ → Bool
  /-- The failure report to a reverse path for some recipients. -/
  bounce : String → String → List String → List UInt8 → Option AcceptedMessage
  sasl : SaslOutcome

def Env.permissive : Env where
  parseAddress := some
  ownsAddress _ _ := true
  resolve := .account
  authCapability := "AUTH PLAIN"
  hasRoom _ := true
  checkInbound _ _ := none
  spoolHasRoom _ := true
  quotaLimit _ := none
  usage _ _ := 0
  authorCheck _ _ := none
  capCheck _ _ := none
  charge _ _ := true
  bounce _ _ _ _ := none
  sasl := .challenge (.single 334 "")

/-- A session, and the memory budget it shares. -/
structure Context where
  session : Session
  memory : MemoryBudget

end Epistle.Smtp
