import Epistle.Queue.Claims

/-!
# The scheduler of the outbound queue

A pass over the queue turns each due entry into jobs, one for each recipient domain, starts the
jobs a slot is free for, and takes each conversation as it ends. Several passes run on one worker.
They share its claims and its spool, and each lock of the claims and each look at the spool is a
point where another pass may move. A pass is therefore modelled with a program counter that stops
at these points, and `Pass.step` is what it does up to the next one.

What a pass reads from elsewhere (which recipients are due, which destination is on hold, whether
a warm-up cap is closed, what a remote answers) is an argument of the step.
-/

namespace Epistle.Queue

open Function

variable {Id : Type} [DecidableEq Id]

/-! ### Entries of the spool -/

/-- What became of a recipient. -/
inductive RecipientStatus where
  | pending
  /-- A remote server accepted the message. -/
  | delivered
  | failed
deriving DecidableEq, Repr

/-- The receiver group a warm-up cap is counted for. -/
inductive Group where
  | gmail
  | outlook
  | yahoo
  | icloud
  | other
deriving DecidableEq, Repr

def Group.parse (label : String) : Option Group :=
  if label = "gmail" then some .gmail
  else if label = "outlook" then some .outlook
  else if label = "yahoo" then some .yahoo
  else if label = "icloud" then some .icloud
  else if label = "other" then some .other
  else none

/-- How far the delivery to a recipient is. -/
structure RecipientState where
  /-- Pending, delivered or failed. -/
  status : RecipientStatus
  /-- The label of the warm-up group whose cap the recipient waits for. -/
  warmup : Option String

/-- What the spool knows of one queue entry. -/
structure Envelope where
  /-- The account that submitted the message. -/
  account : Option String
  /-- When an operator put the entry on hold. -/
  held : Option ℕ
  recipientStates : String → Option RecipientState

/-- The state of a recipient, pending if there is none. -/
def Envelope.recipientState (e : Envelope) (recipient : String) : RecipientState :=
  (e.recipientStates recipient).getD ⟨.pending, none⟩

/-- Whether a recipient waits for its delivery. -/
def Envelope.isPending (e : Envelope) (recipient : String) : Bool :=
  (e.recipientState recipient).status = .pending

/-- The key the sender of an entry is counted under: its account, or one share for all mail the
server sends on its own. -/
def Sender.of (e : Envelope) : String :=
  match e.account.filter (· ≠ "") with
  | some account => "account:" ++ account
  | none => "system"

/-- The warm-up group that all the recipients wait for, if they do. -/
def waitingGroup (e : Envelope) (recipients : List String) : Option Group :=
  match recipients.map fun r => (e.recipientState r).warmup.bind Group.parse with
  | some first :: rest => if rest.all (· = some first) then some first else none
  | _ => none

/-! ### Waiting jobs -/

/-- The recipients of one entry in one domain, waiting for a slot. -/
structure Job (Id : Type) where
  id : Id
  /-- The destination, by its normalised name. -/
  domain : String
  sender : String
  recipients : List String
  group : Option Group

/-- The jobs of a sender, by their domains and in order. -/
structure SenderJobs (Id : Type) where
  byDomain : String → Option (List (Job Id))
  /-- Domains with waiting jobs, in turn. -/
  order : List String

/-- Put one element at an end of a queue. -/
def pushAt {α : Type} (front : Bool) (x : α) (xs : List α) : List α :=
  if front then x :: xs else xs ++ [x]

def SenderJobs.default : SenderJobs Id := ⟨fun _ => none, []⟩

/-- Add a job, at the front or at the back of its domain. -/
def SenderJobs.push (jobs : SenderJobs Id) (job : Job Id) (front : Bool) : SenderJobs Id where
  byDomain :=
    update jobs.byDomain job.domain
      (some (pushAt front job ((jobs.byDomain job.domain).getD [])))
  order :=
    if ((jobs.byDomain job.domain).getD []).isEmpty then pushAt front job.domain jobs.order
    else jobs.order

/-- The jobs that wait, by their senders and with the turns of these. -/
structure Waiting (Id : Type) where
  senders : String → Option (SenderJobs Id)
  turn : List String

namespace Waiting

def default : Waiting Id := ⟨fun _ => none, []⟩

/-- Whether nobody waits. -/
def isEmpty (w : Waiting Id) : Bool := w.turn.isEmpty

/-- Add a job, at the front or at the back. -/
def push (w : Waiting Id) (job : Job Id) (front : Bool) : Waiting Id where
  senders :=
    update w.senders job.sender
      (some (((w.senders job.sender).getD .default).push job front))
  turn := if (w.senders job.sender).isSome then w.turn else pushAt front job.sender w.turn

def pushBack (w : Waiting Id) (job : Job Id) : Waiting Id := w.push job false

def pushFront (w : Waiting Id) (job : Job Id) : Waiting Id := w.push job true

/-- The sender whose turn it is, with its jobs. -/
def nextSender (w : Waiting Id) : Option ((String × SenderJobs Id) × Waiting Id) :=
  match w.turn with
  | [] => none
  | sender :: turn =>
    some ((sender, (w.senders sender).getD .default),
      ⟨update w.senders sender none, turn⟩)

/-- A sender waits again, with the jobs it has left. -/
def putBack (w : Waiting Id) (sender : String) (jobs : SenderJobs Id) (last : Bool) : Waiting Id :=
  if jobs.order.isEmpty then w
  else ⟨update w.senders sender (some jobs), pushAt (!last) sender w.turn⟩

end Waiting

/-! ### Conversations -/

/-- Why a delivery failed. -/
inductive DeliveryError where
  | transient (reason : String)
  /-- The remote refused for good. -/
  | permanent (reason : String)
deriving DecidableEq, Repr

/-- What one conversation decided for the recipients it carried. -/
structure Conversation where
  /-- One answer per recipient. -/
  results : List (String × Except DeliveryError Unit)

namespace Conversation

/-- Whether a conversation delivered to somebody. -/
def delivered (c : Conversation) : Bool := c.results.any fun x => x.2.isOk

/-- The recipients a reply about too many recipients left for another transaction, when the
remote took others in this one. -/
def retryNow (tooManyRecipients : String → Bool) (c : Conversation) : List String :=
  if c.delivered then
    (c.results.filter fun x =>
      match x.2 with
      | .error (.transient reason) => tooManyRecipients reason
      | _ => false).map Prod.fst
  else []

def all (recipients : List String) (error : DeliveryError) : Conversation :=
  ⟨recipients.map fun r => (r, .error error)⟩

end Conversation

/-- A conversation under way. -/
structure Running (Id : Type) where
  job : Job Id
  claim : Claim Id
  entry : Envelope
  recipients : List String
  claim_id : claim.id = job.id
  claimed : recipients.Sublist claim.recipients
  not_held : entry.held = none
  pending : ∀ r ∈ recipients, entry.isPending r = true

def Running.pairs (r : Running Id) : List (Id × String) := Epistle.Lib.pairs r.job.id r.recipients

/-! ### The schedule of one pass -/

/-- Jobs still to start, and the conversations running, of one pass. -/
structure Schedule (Id : Type) where
  waiting : Waiting Id
  /-- Jobs not yet ended per entry, and whether any delivered. -/
  rounds : Id → Option (ℕ × Bool)
  running : List (Running Id)
  delivered : ℕ
  /-- Waiting jobs looked at when filling slots. -/
  examined : ℕ

namespace Schedule

def default : Schedule Id := ⟨.default, fun _ => none, [], 0, 0⟩

/-- Count a message that was delivered. -/
def settle (s : Schedule Id) (delivered : Bool) : Schedule Id :=
  if delivered then { s with delivered := s.delivered + 1 } else s

/-- A job of a message ended. -/
def jobEnded (s : Schedule Id) (id : Id) (delivered : Bool) : Schedule Id :=
  match s.rounds id with
  | none => s
  | some (left, any) =>
    if left - 1 = 0 then
      { s with rounds := update s.rounds id none }.settle (any || delivered)
    else
      { s with rounds := update s.rounds id (some (left - 1, any || delivered)) }

/-- What one look at an entry reads while it is queued. -/
structure Look where
  dueNow : List String
  holds : String → Bool
  /-- Whether a conversation holds any recipient of the entry. -/
  holdsAny : Bool
  /-- The recipients left without the suppressed ones; none when the spool cannot be written. -/
  skipSuppressed : List String → Option (List String)
  /-- Whether a recipient is an address. -/
  parses : String → Bool
  ofRecipient : String → String
  onHold : String → Bool
  refuseUnparseable : List String → Bool

def addTo (destination recipient : String) :
    List (String × List String) → List (String × List String)
  | [] => [(destination, [recipient])]
  | (d, rs) :: rest =>
    if d = destination then (d, rs ++ [recipient]) :: rest
    else (d, rs) :: addTo destination recipient rest

/-- The recipients that are due by their destinations, and those that do not parse. -/
def sortDue (look : Look) (due : List String) : List (String × List String) × List String :=
  due.foldl
    (fun acc recipient =>
      if !look.parses recipient then (acc.1, acc.2 ++ [recipient])
      -- A destination on hold is not contacted, and its recipients wait.
      else if look.onHold (look.ofRecipient recipient) then acc
      else (addTo (look.ofRecipient recipient) recipient acc.1, acc.2))
    ([], [])

/-- Queue the due recipients of one entry, one job per destination, leaving out those whose
destination is on hold. -/
def queueEntry (s : Schedule Id) (id : Id) (e : Envelope) (look : Look) : Schedule Id :=
  let due := look.dueNow.filter fun r => !look.holds r
  -- Another pass has this entry in hand and will settle it.
  if due.isEmpty && look.holdsAny then s
  else
    match look.skipSuppressed due with
    | none => s
    | some left =>
      let (byDestination, unparseable) := sortDue look left
      if !unparseable.isEmpty && !look.refuseUnparseable unparseable then s
      else
        let changed := left.length != due.length || !unparseable.isEmpty
        -- Everything due waits for a destination on hold.
        if byDestination.isEmpty && !changed && !due.isEmpty then s
        else if byDestination.isEmpty then s.settle false
        else
          { s with
            rounds := update s.rounds id (some (byDestination.length, false))
            waiting := byDestination.foldl
              (fun w x => w.pushBack ⟨id, x.1, Sender.of e, x.2, waitingGroup e x.2⟩) s.waiting }

end Schedule

/-! ### A pass and its steps -/

/-- The turn of one sender while slots are filled. -/
structure Turn (Id : Type) where
  /-- The senders set aside so far. -/
  aside : List (String × SenderJobs Id)
  sender : String
  jobs : SenderJobs Id
  atCap : List String

namespace Turn

/-- Put the rest of a domain's jobs back, where the outcome wants it: last after a start, first
when no slot is free, apart when the domain is at its cap. -/
def putRest (t : Turn Id) (domain : String) (rest : List (Job Id)) (outcome : Option Bool) :
    Turn Id :=
  if rest.isEmpty then t
  else
    let byDomain := update t.jobs.byDomain domain (some rest)
    match outcome with
    | some started => { t with jobs := ⟨byDomain, pushAt (!started) domain t.jobs.order⟩ }
    | none => { t with jobs := ⟨byDomain, t.jobs.order⟩, atCap := t.atCap ++ [domain] }

def jobsAfter (t : Turn Id) : SenderJobs Id := ⟨t.jobs.byDomain, t.atCap ++ t.jobs.order⟩

end Turn

/-- A job with its claim. -/
structure Claimed (Id : Type) where
  job : Job Id
  claim : Claim Id
  claim_id : claim.id = job.id

/-- Claim the recipients of a job. -/
def Job.claim (job : Job Id) (limits : Limits) (s : ClaimState Id) :
    Except Full (ClaimState Id × Claimed Id) :=
  match h : s.take limits job.id job.domain job.sender job.recipients with
  | .error full => .error full
  | .ok (s', c) =>
    .ok (s', ⟨job, c, by
      obtain ⟨-, -, -, rfl, -⟩ := ClaimState.take_eq_ok h
      rfl⟩)

/-- Where a pass stands. -/
inductive Pc (Id : Type) where
  | idle
  | filling (aside : List (String × SenderJobs Id))
  | turning (t : Turn Id)
  | trying (t : Turn Id) (domain : String) (rest : List (Job Id))
  | claimed (t : Turn Id) (domain : String) (rest : List (Job Id)) (k : Claimed Id)
  | dropping (t : Turn Id) (domain : String) (rest : List (Job Id)) (k : Claimed Id)
  /-- A conversation has ended, and its claim is not dropped yet. -/
  | completing (r : Running Id) (c : Conversation)

/-- A pass over the queue, with what it is at. -/
structure Pass (Id : Type) where
  schedule : Schedule Id
  pc : Pc Id

/-- What a pass does next, with what it reads from elsewhere. -/
inductive Action (Id : Type) where
  /-- Queue an entry loaded by the scan. -/
  | queueEntry (id : Id) (e : Envelope) (look : Schedule.Look)
  | fill
  | next
  | pick (onHold : String → Bool)
  | take (jobCapped : Bool)
  | load
  /-- Drop the claim of a job with nothing left to send. -/
  | release
  | done (index : ℕ) (answer : Option Conversation)
  /-- Drop the claim of the conversation that has ended, and go on. -/
  | complete (tooManyRecipients : String → Bool)
  | cancel (index : ℕ)
  /-- The pass itself is dropped or panics where it stands. -/
  | unwind

/-- What is told of a conversation that panicked. -/
def panicked (r : Running Id) : Conversation :=
  .all r.recipients (.transient "internal error during delivery")

/-- A list with its last element in place of one. -/
def swapRemove {α : Type} (xs : List α) (index : ℕ) : List α :=
  match xs.getLast? with
  | none => []
  | some last => (xs.set index last).dropLast

namespace Pass

/-- The turn of a sender ends. -/
def endTurn (p : Pass Id) (t : Turn Id) (started : Bool) : Pass Id :=
  if started then
    { schedule :=
        { p.schedule with waiting := p.schedule.waiting.putBack t.sender t.jobsAfter true }
      pc := .filling t.aside }
  else { p with pc := .filling (t.aside ++ [(t.sender, t.jobsAfter)]) }

/-- A job is left, and the next one is looked at. -/
def leave (p : Pass Id) (t : Turn Id) (domain : String) (rest : List (Job Id))
    (outcome : Option Bool) : Pass Id :=
  let t := t.putRest domain rest outcome
  match outcome with
  | none => { p with pc := .turning t }
  | some started => p.endTurn t started

/-- The pass starts no more for now. -/
def endFill (p : Pass Id) (aside : List (String × SenderJobs Id)) : Pass Id where
  schedule :=
    { p.schedule with
      waiting := aside.reverse.foldl (fun w x => w.putBack x.1 x.2 false) p.schedule.waiting }
  pc := .idle

/-- Count a job looked at. -/
def examine (p : Pass Id) : Pass Id :=
  { p with schedule := { p.schedule with examined := p.schedule.examined + 1 } }

def jobEnded (p : Pass Id) (id : Id) (delivered : Bool) : Pass Id :=
  { p with schedule := p.schedule.jobEnded id delivered }

def goto (p : Pass Id) (pc : Pc Id) : Pass Id := { p with pc := pc }

/-- A conversation starts. -/
def run (p : Pass Id) (r : Running Id) : Pass Id :=
  { p with schedule := { p.schedule with running := p.schedule.running ++ [r] } }

def next (p : Pass Id) (aside : List (String × SenderJobs Id)) (hasRoom : Bool) : Pass Id :=
  if hasRoom then
    match p.schedule.waiting.nextSender with
    | none => p.endFill aside
    | some ((sender, jobs), waiting) =>
      ⟨{ p.schedule with waiting := waiting }, .turning ⟨aside, sender, jobs, []⟩⟩
  else p.endFill aside

/-- Before a sender's next domain: the jobs of a destination put on hold since they were queued
end without a conversation. -/
def pick (p : Pass Id) (t : Turn Id) (onHold : String → Bool) : Pass Id :=
  match t.jobs.order with
  | [] => p.endTurn t false
  | domain :: order =>
    let waiting := (t.jobs.byDomain domain).getD []
    let t := { t with jobs := ⟨update t.jobs.byDomain domain none, order⟩ }
    if onHold domain then
      waiting.foldl (fun p job => p.examine.jobEnded job.id false) (p.goto (.turning t))
    else p.goto (.trying t domain waiting)

/-- Claim the first job of a domain that can be. -/
def take (p : Pass Id) (limits : Limits) (claims : ClaimState Id) (t : Turn Id) (domain : String)
    (jobCapped : Bool) : List (Job Id) → ClaimState Id × Pass Id
  | [] => (claims, p.leave t domain [] none)
  | job :: rest =>
    let p := p.examine
    if jobCapped then (claims, (p.jobEnded job.id false).goto (.trying t domain rest))
    else
      match job.claim limits claims with
      | .ok (claims', k) => (claims', p.goto (.claimed t domain rest k))
      | .error .domain => (claims, p.leave t domain (job :: rest) none)
      | .error _ => (claims, p.leave t domain (job :: rest) (some false))

/-- Read the message of a claimed job. -/
def load (p : Pass Id) (spool : Id → Option Envelope) (t : Turn Id) (domain : String)
    (rest : List (Job Id)) (k : Claimed Id) : Pass Id :=
  match spool k.job.id with
  | none => p.goto (.dropping t domain rest k)
  | some e =>
    if h : e.held = none then
      if (k.claim.recipients.filter e.isPending).isEmpty then p.goto (.dropping t domain rest k)
      else
        (p.run
          { job := k.job
            claim := k.claim
            entry := e
            recipients := k.claim.recipients.filter e.isPending
            claim_id := k.claim_id
            claimed := List.filter_sublist
            not_held := h
            pending := fun _ hr => (List.mem_filter.1 hr).2 }).leave t domain rest (some true)
    else p.goto (.dropping t domain rest k)

/-- What is left to do once the outcome of a conversation is recorded and its claim dropped: the
recipients left for another transaction wait in front, and the job has ended. -/
def complete (p : Pass Id) (tooManyRecipients : String → Bool) (r : Running Id)
    (c : Conversation) : Pass Id :=
  let s := p.schedule
  let retryNow := c.retryNow tooManyRecipients
  let s :=
    if retryNow.isEmpty then s
    else
      match s.rounds r.job.id with
      | none => s
      | some (left, any) =>
        { s with
          rounds := update s.rounds r.job.id (some (left + 1, any))
          waiting := s.waiting.pushFront { r.job with recipients := retryNow, group := none } }
  ⟨s.jobEnded r.job.id c.delivered, .idle⟩

/-- One action of a pass. -/
def step (limits : Limits) (spool : Id → Option Envelope) (claims : ClaimState Id) (p : Pass Id) :
    Action Id → ClaimState Id × Pass Id
  | .queueEntry id e look =>
    match p.pc with
    | .idle => (claims, { p with schedule := p.schedule.queueEntry id e look })
    | _ => (claims, p)
  | .fill =>
    match p.pc with
    | .idle => (claims, if p.schedule.waiting.isEmpty then p else p.goto (.filling []))
    | _ => (claims, p)
  | .next =>
    match p.pc with
    | .filling aside => (claims, p.next aside (claims.hasRoom limits))
    | _ => (claims, p)
  | .pick onHold =>
    match p.pc with
    | .turning t => (claims, p.pick t onHold)
    | _ => (claims, p)
  | .take jobCapped =>
    match p.pc with
    | .trying t domain rest => p.take limits claims t domain jobCapped rest
    | _ => (claims, p)
  | .load =>
    match p.pc with
    | .claimed t domain rest k => (claims, p.load spool t domain rest k)
    | _ => (claims, p)
  | .release =>
    match p.pc with
    | .dropping t domain rest k =>
      (claims.drop k.claim, (p.jobEnded k.job.id false).goto (.trying t domain rest))
    | _ => (claims, p)
  | .done index answer =>
    match p.pc, p.schedule.running[index]? with
    | .idle, some r =>
      (claims, ⟨{ p.schedule with running := swapRemove p.schedule.running index },
        .completing r (answer.getD (panicked r))⟩)
    | _, _ => (claims, p)
  | .complete tooManyRecipients =>
    match p.pc with
    | .completing r c => (claims.drop r.claim, p.complete tooManyRecipients r c)
    | _ => (claims, p)
  | .cancel index =>
    match p.schedule.running[index]? with
    | some r =>
      (claims.drop r.claim,
        { p with schedule := { p.schedule with running := p.schedule.running.eraseIdx index } })
    | none => (claims, p)
  | .unwind =>
    match p.pc with
    | .claimed _ _ _ k => (claims.drop k.claim, p.goto .idle)
    | .dropping _ _ _ k => (claims.drop k.claim, p.goto .idle)
    | .completing r _ => (claims.drop r.claim, p.goto .idle)
    | _ => (claims, p.goto .idle)

end Pass

end Epistle.Queue
