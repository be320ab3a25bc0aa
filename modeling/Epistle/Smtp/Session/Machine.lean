import Epistle.Smtp.Session.Types

/-!
# The session state machine

The transitions of `smtp/session/mod.rs`, `bdat.rs`, `finalise.rs`, `auth_dispatch.rs` and
`junk.rs`. Each takes the session with the budget it shares (`Context`) and returns what the
network layer must do with the next context. Assigning a Rust field drops its old value, so the
setters here give the old reservation back to the budget.
-/

namespace Epistle.Smtp

open Lib

namespace Context

/-- Give a reservation back. -/
def release (self : Context) (r : Reservation) : Context :=
  { self with memory := r.drop self.memory }

def setState (self : Context) (state : State) : Context :=
  { session := { self.session with state }
    memory := self.session.state.reserved.drop self.memory }

def takeState (self : Context) : Context := { self with session.state := .greeted }

def putTransfer (self : Context) (t : Transfer) : Context :=
  { self with session.state := .receivingData t }

def dropChunk (self : Context) : Context :=
  { session := { self.session with chunkReservation := .none }
    memory := self.session.chunkReservation.drop self.memory }

def takeChunkReservation (self : Context) : Context :=
  { self with session.chunkReservation := .none }

/-- Forget the transaction. -/
def reset (self : Context) : Context :=
  let self := self.dropChunk
  match self.session.state with
  | .connected => self
  | _ => self.setState .greeted

end Context

/-! ## The end of the data -/

namespace Session

/-- Whether `size` more octets put `account` over its quota, by the `i`-th reading of its
usage. -/
def wouldOverflow (env : Env) (i : ℕ) (account : String) (size : ℕ) : Bool :=
  match env.quotaLimit account with
  | none => false
  | some limit => decide (saturatingAdd 64 (env.usage i account) size > limit)

def overQuota (env : Env) (size i : ℕ) (recipient : String) : Bool :=
  match env.parseAddress recipient with
  | none => false
  | some address =>
      match env.resolve address with
      | .account name => wouldOverflow env i name size
      | _ => false

def overflowing (env : Env) (recipients : List String) (size : ℕ) : List String :=
  (recipients.zipIdx.filter fun (recipient, i) => overQuota env size i recipient).map Prod.fst

/-- Leave out the recipients whose mailbox is full. -/
def excludeOverQuota (self : Session) (env : Env) (message : AcceptedMessage)
    (full : List String) : Option (AcceptedMessage × Session) :=
  if full = [] then some (message, self)
  else if full.length = message.recipients.length then none
  else
    let message := { message with recipients := message.recipients.filter (· ∉ full) }
    let notify := full.filter (· ∉ message.noDsn)
    let report := if notify = [] then none
      else env.bounce self.hostname message.reversePath notify message.data
    some (message, { self with quotaReports := self.quotaReports ++ report.toList })

def splitOverQuota (self : Session) (env : Env) (message : AcceptedMessage) (size : ℕ) :
    Option (AcceptedMessage × Session) :=
  if self.quota then
    self.excludeOverQuota env message (overflowing env message.recipients size)
  else some (message, self)

/-- The checks of a whole message. -/
def checkMessage (self : Session) (env : Env) (message : AcceptedMessage) (runningSize : ℕ)
    (budgetExhausted : Bool) : Except Reply (Option ℕ) := do
  if budgetExhausted then throw .budgetRefusal
  if runningSize > self.maxMessageSize then throw .tooLarge
  match self.authenticated with
  | none => return none
  | some account =>
    if let some reply := env.authorCheck account message.data then throw reply
    if let some reply := env.capCheck account message.recipients then throw reply
    let units := min message.recipients.length (wordMax 32)
    if env.charge account units then return some units else throw .rateLimited

end Session

namespace Context

/-- The shared tail of the data paths. -/
def innerFinalise (self : Context) (env : Env) (message : AcceptedMessage) (runningSize : ℕ)
    (budgetExhausted : Bool) (reserved : Reservation) : Action × Context :=
  match self.session.checkMessage env message runningSize budgetExhausted with
  | .error reply => (.continue reply, self.release reserved)
  | .ok charge =>
      match self.session.splitOverQuota env message runningSize with
      | none => (.continue (.single 552 "5.2.2 mailbox full"), self.release reserved)
      | some (message, session) =>
          (.deliver .ok message,
            { session := { session with pendingCharge := charge, deliveryReservation := reserved }
              memory := self.session.deliveryReservation.drop self.memory })

/-- The message is complete: it is handed on, or refused. -/
def finalise (self : Context) (env : Env) (message : AcceptedMessage) (runningSize : ℕ) :
    Action × Context :=
  match self.session.state with
  | .receivingData t =>
      self.takeState.innerFinalise env message runningSize t.budgetExhausted t.reserved
  | _ => self.takeState.innerFinalise env message runningSize false .none

def finaliseFromState (self : Context) (env : Env) : Action × Context :=
  match self.session.state with
  | .receivingData t =>
      self.takeState.innerFinalise env t.message t.size t.budgetExhausted t.reserved
  | _ => (.continue .badSequence, self.takeState)

/-! ## Message data -/

/-- A line of the message without the dot that was put in front. -/
def unstuff : List UInt8 → List UInt8
  | [] => []
  | byte :: line => if byte = dot then line else byte :: line

def takeLine (self : Context) (t : Transfer) (content : List UInt8) : Context :=
  let delta := content.length + 2
  let t := { t with size := t.size + delta }
  if t.size > self.session.maxMessageSize then
    -- Counted for the final 552, but not kept.
    self.putTransfer t
  else if self.session.memoryBudget then
    match t.reserved.tryGrow self.memory self.session.peerIp delta with
    | .error _ => self.putTransfer { t with budgetExhausted := true }
    | .ok (reserved, memory) =>
        { self with memory }.putTransfer { t with reserved, body := t.body ++ content ++ crlf }
  else self.putTransfer { t with body := t.body ++ content ++ crlf }

/-- A line of the message. -/
def dataLine (self : Context) (env : Env) (line : List UInt8) : Option Action × Context :=
  if line = [dot] then
    let (action, next) := self.finaliseFromState env
    (some action, next)
  else
    match self.session.state with
    | .receivingData t => (none, self.takeLine t (unstuff line))
    | _ => (some (.continue .badSequence), self.reset)

/-- A chunk is announced. -/
def bdat (self : Context) (size : ℕ) (last : Bool) : Action × Context :=
  if size > self.session.maxMessageSize then (.close .tooLarge, self.reset)
  else
    match self.session.state with
    | .receivingData _ => (.collectChunk size last, self.dropChunk)
    | _ => (.discardChunk size .badSequence, self.reset)

/-- Reserve the memory for a chunk. -/
def reserveChunk (self : Context) (bytes : ℕ) : Bool × Context :=
  if self.session.memoryBudget then
    match self.session.chunkReservation.tryGrow self.memory self.session.peerIp bytes with
    | .error _ => (false, self)
    | .ok (chunkReservation, memory) =>
        (true, { session := { self.session with chunkReservation }, memory })
  else (true, self)

/-- Refuse a chunk for want of memory. -/
def refuseChunk (self : Context) : Action × Context :=
  (.continue .budgetRefusal, self.reset)

def chunkFraming (check : LineCheck) (data : List UInt8) (last : Bool) :
    Except LineError LineCheck := do
  let check ← check.feed data maxLineLength
  if last then check.finish maxLineLength
  return check

/-- Take a whole chunk whose octets are charged to `chunk`, a reservation already out of the
session. -/
def takeChunk (self : Context) (env : Env) (data : List UInt8) (last : Bool)
    (chunk : Reservation) : Action × Context :=
  match self.session.state with
  | .receivingData t =>
      match chunkFraming t.lineCheck data last with
      | .error e => (.close (lineErrorReply e), (self.reset).release chunk)
      | .ok lineCheck =>
          let t := { t with chunking := true, lineCheck, size := t.size + data.length }
          if t.size > self.session.maxMessageSize then
            ((.continue .tooLarge), ((self.putTransfer t).reset).release chunk)
          else
            let t := { t with body := t.body ++ data, reserved := t.reserved.absorb chunk }
            let self := self.putTransfer t
            if last then self.finalise env t.message t.size
            else (.continue (.single 250 "2.0.0 chunk received"), self)
  | _ => (.continue .badSequence, (self.reset).release chunk)

def receiving (self : Context) : Bool :=
  match self.session.state with
  | .receivingData _ => true
  | _ => false

/-- Charge the octets of a chunk of `length` that the network layer did not charge while
reading it. -/
def chargeRest (self : Context) (length : ℕ) : Bool × Context :=
  let uncharged := length - self.session.chunkReservation.bytes
  if uncharged > 0 ∧ self.receiving then self.reserveChunk uncharged else (true, self)

/-- A chunk is there. -/
def bdatChunk (self : Context) (env : Env) (data : List UInt8) (last : Bool) :
    Action × Context :=
  let (room, self) := self.chargeRest data.length
  if room then
    self.takeChunkReservation.takeChunk env data last self.session.chunkReservation
  else self.refuseChunk

/-! ## Commands -/

/-- A client says who it is. -/
def greet (self : Context) (env : Env) (domain : String) (esmtp : Bool) : Action × Context :=
  let self := self.setState .greeted
  let s : Session := { self.session with heloDomain := some domain, esmtp }
  if esmtp then
    let lines := [s.hostname, "PIPELINING", "ENHANCEDSTATUSCODES", "8BITMIME", "SMTPUTF8",
        "CHUNKING", "DSN", "SIZE " ++ toString s.maxMessageSize,
        "LIMITS RCPTMAX=" ++ toString s.maxRecipients] ++
      (if s.tlsAvailable then ["STARTTLS"] else []) ++
      (if s.tlsActive ∧ s.authenticated.isNone then [env.authCapability] else []) ++
      (if s.tlsActive then ["REQUIRETLS"] else [])
    (.continue ⟨250, lines⟩, { self with session := s })
  else (.continue (.single 250 s.hostname), { self with session := s })

/-- The connection is to be encrypted. -/
def startTls (self : Context) : Action × Context :=
  if !self.session.tlsAvailable then (.continue (.single 454 "4.7.0 TLS not available"), self)
  else
    match self.session.state with
    | .greeted => (.upgradeTls (.single 220 "ready to start TLS"), self)
    | _ => (.continue .badSequence, self)

/-- Whether a sender is allowed. -/
def checkSender (self : Session) (env : Env) (reversePath : String) : Option Reply :=
  match self.authenticated, env.parseAddress reversePath with
  | some account, some address =>
      if env.ownsAddress account address then none
      else some (.single 553 "5.7.1 sender address not owned by authenticated user")
  | some _, none => some (.single 553 "5.1.7 invalid reverse-path")
  | none, none =>
      -- The null reverse path of a bounce is legal.
      if reversePath = "" then none else some (.single 553 "5.1.7 invalid reverse-path")
  | none, some _ => none

def checkMail (self : Session) (env : Env) (reversePath : String) (size : Option ℕ)
    (requireTls : Bool) : Option Reply :=
  if requireTls ∧ !self.tlsActive then
    some (.single 530 "5.7.4 REQUIRETLS requires the session to use TLS")
  else
    match checkSender self env reversePath with
    | some reply => some reply
    | none =>
        let limited := match self.authenticated with
          | some account => if env.hasRoom account then none else some .rateLimited
          | none => env.checkInbound reversePath self.peerIp
        match limited with
        | some reply => some reply
        | none =>
            if size.any (· > self.maxMessageSize) then some .tooLarge
            else if !env.spoolHasRoom self.maxMessageSize then
              some (.single 452 "4.3.1 insufficient system storage; retry later")
            else none

/-- A transaction begins. -/
def mailFrom (self : Context) (env : Env) (reversePath : String) (size : Option ℕ)
    (requireTls : Bool) : Action × Context :=
  match self.session.state with
  | .greeted =>
      match checkMail self.session env reversePath size requireTls with
      | some reply => (.continue reply, self)
      | none => (.continue .ok, self.setState (.receivingRecipients reversePath requireTls))
  | _ => (.continue .badSequence, self)

/-- Whether a recipient is taken. -/
def checkRecipient (self : Session) (env : Env) (forwardPath : String) : Except Reply String :=
  match env.parseAddress forwardPath with
  | none => .error (.single 553 "5.1.3 invalid recipient address")
  | some address =>
      match env.resolve address with
      | .notLocal =>
          if self.authenticated.isNone then .error (.single 550 "5.7.1 relaying denied")
          else .ok address
      | .unknownUser => .error (.single 550 "5.1.1 no such user")
      | .account name =>
          if self.quota ∧ (env.quotaLimit name).any (env.usage 0 name ≥ ·) then
            .error (.single 452 "4.2.2 mailbox full")
          else .ok address
      | .alias _ => .ok address

def suppressesDsn : Option Notify → Bool
  | some .never => true
  | some (.on _ failure _) => !failure
  | none => false

def recipientsOpen : State → Bool
  | .receivingRecipients .. => true
  | .receivingData t => t.body.isEmpty && !t.chunking
  | _ => false

/-- A recipient. -/
def rcptTo (self : Context) (env : Env) (forwardPath : String) (notify : Option Notify) :
    Action × Context :=
  if !recipientsOpen self.session.state then (.continue .badSequence, self)
  else
    match checkRecipient self.session env forwardPath with
    | .error reply => (.continue reply, self)
    | .ok address =>
        let silent := if suppressesDsn notify then [address] else []
        match self.session.state with
        | .receivingRecipients reversePath requireTls =>
            (.continue .ok, self.setState (.receivingData
              { reversePath, recipients := [address], noDsn := silent, size := 0, body := []
                requireTls, chunking := false, lineCheck := .stored, reserved := .none
                budgetExhausted := false }))
        | .receivingData t =>
            if t.recipients.length ≥ self.session.maxRecipients then
              (.continue (.single 452 "4.5.3 too many recipients"), self)
            else
              (.continue .ok, self.putTransfer
                { t with recipients := t.recipients ++ [address], noDsn := t.noDsn ++ silent })
        | _ => (.continue .badSequence, self)

/-- The message begins. -/
def data (self : Context) : Action × Context :=
  match self.session.state with
  | .receivingData t =>
      if t.body.isEmpty ∧ !t.chunking then (.collectData .startMailInput, self)
      else (.continue .badSequence, self)
  | _ => (.continue .badSequence, self)

/-- A round of an authentication. -/
def saslRound (self : Context) : SaslOutcome → Action × Context
  | .reply reply none => (.continue reply, self)
  | .reply reply (some account) =>
      (.continue reply, { self with session.authenticated := some account })
  | .challenge reply => (.collectAuthResponse reply, self)
  | .close reply => (.close reply, self)

/-- An authentication begins. -/
def auth (self : Context) (env : Env) : Action × Context :=
  if !self.session.tlsActive then
    (.continue (.single 538 "5.7.11 encryption required for auth"), self)
  else if self.session.authenticated.isSome then (.continue .badSequence, self)
  else
    match self.session.state with
    | .greeted => self.saslRound env.sasl
    | _ => (.continue .badSequence, self)

/-- What a command does. -/
def apply (self : Context) (env : Env) : Command → Action × Context
  | .helo domain => self.greet env domain false
  | .ehlo domain => self.greet env domain true
  | .mailFrom reversePath size requireTls => self.mailFrom env reversePath size requireTls
  | .rcptTo forwardPath notify => self.rcptTo env forwardPath notify
  | .data => self.data
  | .bdat size last => self.bdat size last
  | .rset => (.continue .ok, self.reset)
  | .noop => (.continue .ok, self)
  | .quit => (.close .closing, self)
  | .vrfy => (.continue .vrfyNotDisclosed, self)
  | .startTls => self.startTls
  | .auth _ _ => self.auth env

def parseErrorReply : ParseError → Reply
  | .unknownCommand => .syntaxError
  | .lineTooLong => .single 500 "5.5.2 line too long"
  | .invalidCharacters => .syntaxError
  | .invalidArguments => .invalidArguments
  | .unsupportedParameter => .single 555 "5.5.4 parameter not implemented"

/-- What a command does, or what is told of one that is not understood. -/
def dispatch (self : Context) (env : Env) :
    Except ParseError Command → Action × Context
  | .ok command => self.apply env command
  | .error e => (.continue (parseErrorReply e), self)

/-! ## Commands without progress -/

/-- Whether a command does nothing for the client. -/
def isJunk (state : State) : Except ParseError Command → Bool
  | .ok .noop | .ok .rset | .ok .vrfy => true
  | .ok (.helo _) | .ok (.ehlo _) => state != .connected
  | .ok (.bdat size last) => size == 0 && !last
  | .error .unknownCommand => true
  | _ => false

def refuses : Action → Bool
  | .continue reply => decide (reply.code ≥ 400)
  | .discardChunk _ reply => decide (reply.code ≥ 400)
  | _ => false

/-- Count a command that does nothing, and close after too many. -/
def countJunk (junk : Bool) : Action × Context → Action × Context
  | (action, self) =>
      let («over», count) := self.session.junk.count junk (refuses action)
      let self := { self with session.junk := count }
      if «over» then
        (.close (.single 421 "4.7.0 too many commands without progress, closing connection"),
          self.reset)
      else (action, self)

/-- A command line. -/
def commandLine (self : Context) (env : Env) (parsed : Except ParseError Command) :
    Action × Context :=
  countJunk (isJunk self.session.state parsed) (self.dispatch env parsed)

def unreadableCommand (self : Context) : Action × Context :=
  countJunk false (.continue .syntaxError, self)

def authResponse (self : Context) (env : Env) (line : String) : Action × Context :=
  if line = "*" then (.continue (.single 501 "5.7.0 authentication cancelled"), self)
  else self.saslRound env.sasl

/-- A line of an authentication. -/
def authLine (self : Context) (env : Env) (line : String) : Action × Context :=
  countJunk true (self.authResponse env line)

/-! ## Calls of the network layer -/

/-- The connection is encrypted: what was said before is forgotten. -/
def tlsStarted (self : Context) : Context :=
  let self := self.setState .connected
  { self with session := { self.session with
      tlsAvailable := false, tlsActive := true, heloDomain := none, esmtp := false } }

/-- A message was delivered: the refusals are counted anew. -/
def messageDelivered (self : Context) : Context :=
  { self with session.junk.refused := 0 }

def takeDeliveryReservation (self : Context) : Reservation × Context :=
  (self.session.deliveryReservation, { self with session.deliveryReservation := .none })

/-- The connection is gone. -/
def dropSession (self : Context) : MemoryBudget :=
  self.session.deliveryReservation.drop
    (self.session.chunkReservation.drop (self.session.state.reserved.drop self.memory))

end Context

end Epistle.Smtp
