import Epistle.Imap.StoreFlags
import Epistle.Migrate.Ledger
import Mathlib.Data.List.Destutter
import Mathlib.Data.List.Sort

/-!
# Copying one folder

One remote folder is copied into one local mailbox, a batch at a time (`migrate/imap/copy.rs`).
A batch is fetched whole; the state is marked; the messages are stored in UID order; what the batch
confirmed goes to the ledger; then the last UID handled is recorded. A run that finds the mark, or
a source without UIDVALIDITY, replays the folder from the first UID against the messages it finds
in the mailbox.

The steps at which a run can be stopped or can fail are the steps of `Prog`. Fetching and listing
fail without effect. A message whose file is in place but not yet its flags is in the mailbox
without them.
-/

namespace Epistle.Migrate

open Imap Lib Lib.Text

/-! ## The source -/

/-- A message as a listing shows it. -/
structure Listed where
  uid : ℕ
  size : ℕ
  deriving DecidableEq, Repr

namespace Source

/-- The messages of a range, as the source lists them. -/
def listUids (src : Source) («from» : ℕ) (upto : Option ℕ) : List Listed :=
  (((src.order (src.messages.filter fun m => «from» ≤ m.uid ∧ upto.all (m.uid ≤ ·))).map
    fun m => ⟨m.uid, m.size⟩).insertionSort fun a b => a.uid ≤ b.uid).destutter (·.uid ≠ ·.uid)

/-- The messages asked for, by their uids. -/
def fetch (src : Source) (wanted : List Listed) : List Message :=
  ((src.order (src.messages.filter fun m => wanted.any (·.uid = m.uid))).insertionSort
    fun a b => a.uid ≤ b.uid).destutter (·.uid ≠ ·.uid)

end Source

/-! ## Flags -/

/-- The flags of a message, if all of them are flags. -/
def parseFlags : List (List Char) → Option (List Flag)
  | [] => some []
  | raw :: rest =>
      match Flag.parse raw with
      -- A message waiting to be expunged is not carried over.
      | some .deleted => none
      | some flag => (parseFlags rest).map (flag :: ·)
      | none => parseFlags rest

/-- The flags, with so many keywords at most. -/
def limitKeywords : ℕ → List Flag → List Flag
  | _, [] => []
  | room, flag :: flags =>
      if flag.isKeyword then
        match room with
        | 0 => limitKeywords 0 flags
        | room + 1 => flag :: limitKeywords room flags
      else flag :: limitKeywords room flags

/-! ## A run -/

/-- What a run holds in memory. -/
structure Copy where
  target : Target
  index : Option Table
  ledger : Ledger
  state : FolderState
  report : FolderReport

open Prog

/-- Save the state of a folder. -/
def save (state : FolderState) : Run Unit :=
  replace (fun d => { d with state := some state }) (.state .io)

/-- A step that does nothing on the disk, and may fail. -/
def mayFail (error : MigrateError) : Run Unit := read (fun _ => ()) error

/-- Append a message to the mailbox. -/
def append (message : Stored) : Run Unit :=
  step (fun d => ((), { d with mailbox := d.mailbox ++ [message] }))
    (fun n d => match n with
      | 0 => d
      | 1 => { d with mailbox := d.mailbox ++ [{ message with flags := [] }] }
      | _ => { d with mailbox := d.mailbox ++ [message] })
    .storage

/-- Claim a message of the mailbox with a fingerprint, if there is one left. -/
def claim (index : Option Table) (fingerprint : Digest) : Run (Bool × Option Table) :=
  match index with
  | none => pure (false, none)
  | some table => do
      mayFail .storage
      let (claimed, table) := table.claimHash fingerprint
      return (claimed, some table)

section Program

variable (sha256 : List UInt8 → Digest)

/-- Store a message, unless the mailbox has it. -/
def store (c : Copy) (m : Message) : Run (Option Digest × Copy) :=
  match parseFlags m.flags with
  | none => pure (none, { c with report := { c.report with deleted := c.report.deleted + 1 } })
  | some flags => do
      let finger := fingerprint sha256 (key sha256 m.body)
      let (claimed, index) ← claim c.index finger
      let c := { c with index := index }
      if claimed then
        return (some finger,
          { c with report := { c.report with duplicates := c.report.duplicates + 1 } })
      let size := m.body.length
      if let some limit := c.target.quota then
        if c.target.usage + size > limit then
          fail (.quota limit c.target.usage size)
      append ⟨m.body, m.internalDate, limitKeywords maxKeywordsPerMessage (dedupFlags [] flags)⟩
      return (some finger, { c with
        target := { c.target with usage := c.target.usage + size }
        report := { c.report with copied := c.report.copied + 1, bytes := c.report.bytes + size } })

/-- Confirm what was stored, and fail. -/
def giveUp (dedupe : Bool) (c : Copy) (settled : List Record) (error : MigrateError) :
    Run (List Record × Copy) := do
  let _ ← (c.ledger.confirm sha256 settled).attempt
  save { c.state with
    inProgress := dedupe || error = .storage, copied := c.state.copied + c.report.copied }
  fail error

/-- Store a message of a batch. -/
def storeNext (dedupe : Bool) (acc : List Record × Copy) (m : Message) :
    Run (List Record × Copy) := do
  let (settled, c) := acc
  match ← (store sha256 c m).attempt with
  | .error error => giveUp sha256 dedupe c settled error
  | .ok (finger, c) =>
      return (settled ++ (finger.map (⟨m.uid, ·⟩)).toList,
        { c with state := { c.state with lastUid := m.uid } })

/-- Fetch and store the messages of a batch, and confirm them. -/
def batch (src : Source) (settings : Settings) (dedupe : Bool) (c : Copy) (items : List Listed) :
    Run Copy := do
  let wanted := items.filter (·.size ≤ settings.literal)
  let fetched ← (if wanted = [] then pure [] else read (fun _ => src.fetch wanted) .client :
    Run (List Message))
  let state := { c.state with inProgress := true }
  save state
  let c := { c with
    state := state
    report := { c.report with
      tooLarge := c.report.tooLarge + (items.length - wanted.length)
      vanished := c.report.vanished + (wanted.length - fetched.length) } }
  let (settled, c) ← fetched.foldlM (storeNext sha256 dedupe) ([], c)
  let ledger ← c.ledger.confirm sha256 settled
  let state := { c.state with
    lastUid := max c.state.lastUid ((items.getLast?.map Listed.uid).getD 0)
    -- Replay stays active across checkpoints.
    inProgress := dedupe }
  save state
  return { c with ledger := ledger, state := state }

/-- The first messages that fit one batch. -/
def takeBatch (settings : Settings) : ℕ → ℕ → List Listed → List Listed
  | _, _, [] => []
  | n, bytes, item :: rest =>
      if n < settings.batchMessages ∧ (n = 0 ∨ bytes + item.size ≤ settings.batchBytes) then
        item :: takeBatch settings (n + 1) (bytes + item.size) rest
      else []

/-- The batches of a window. -/
def batches (settings : Settings) : ℕ → List Listed → List (List Listed)
  | 0, _ => []
  | _ + 1, [] => []
  | fuel + 1, listed =>
      let next := takeBatch settings 0 0 listed
      next :: batches settings fuel (listed.drop next.length)

/-- Keep a message back if the ledger does not confirm it. -/
def confirmed (acc : List Listed × Copy) (item : Listed) : Run (List Listed × Copy) := do
  let (pending, c) := acc
  mayFail (.state .io)
  let (finger, ledger) := c.ledger.fingerprint item.uid
  let c := { c with ledger := ledger }
  match finger with
  | none => return (pending ++ [item], c)
  | some finger =>
      let (_, index) ← claim c.index finger
      return (pending, { c with
        index := index, report := { c.report with confirmed := c.report.confirmed + 1 } })

/-- The fingerprints of the messages in the mailbox. -/
def scan (maxMessageSize : ℕ) : Run Table := do
  let mailbox ← read Disk.mailbox .storage
  if mailbox.any (maxMessageSize < ·.body.length) then
    fail .storage
  return mailbox.foldl (fun t m => t.add (fingerprint sha256 (key sha256 m.body)))
    (.new mailbox.length)

/-- Make the mailbox, and read its fingerprints if messages may be in it. -/
def prepareMailbox (dedupe : Bool) (c : Copy) : Run Copy := do
  mayFail .storage
  if dedupe then
    let table ← scan sha256 c.target.maxMessageSize
    return { c with index := some table }
  else return c

/-- Copy the messages of a window. -/
def window (src : Source) (settings : Settings) (dedupe initialized : Bool) (c : Copy)
    (listed : List Listed) (upto : Option ℕ) : Run Copy := do
  let c ← (if initialized then pure c else prepareMailbox sha256 dedupe c : Run Copy)
  let (pending, c) ← listed.foldlM confirmed ([], c)
  let c ← (batches settings pending.length pending).foldlM (batch sha256 src settings dedupe) c
  let state := { c.state with lastUid := max c.state.lastUid (upto.getD 0) }
  save state
  return { c with state := state }

/-- The last uid of a window. -/
def windowEnd (examined : Examined) («from» width : ℕ) (tail : Bool) : Option ℕ :=
  if examined.uidNext = 0 ∨ tail then none
  else some (min (min («from» + (width - 1)) maxUid) (examined.uidNext - 1))

/-- The most windows of a folder. -/
def windowLimit (examined : Examined) : ℕ := 32 * (examined.exists + 1)

/-- Where the copy of a folder stands. -/
structure Place where
  «from» : ℕ
  width : ℕ
  windows : ℕ
  tail : Bool
  initialized : Bool
  deriving DecidableEq, Repr

/-- List the messages of a window. -/
def list (src : Source) (examined : Examined) (p : Place) (upto : Option ℕ) :
    Run (List Listed × ℕ) :=
  if (examined.exists = 0 ∧ examined.uidNext ≠ 0) ∨ upto.any (p.from > ·) then pure ([], p.windows)
  else if p.windows ≥ windowLimit examined then fail .client
  else do
    let listed ← read (fun _ => src.listUids p.from upto) .client
    return (listed, p.windows + 1)

/-- Count the messages that were listed. -/
def count (examined : Examined) (c : Copy) (listed : List Listed) : Run Copy :=
  let messages := c.report.messages + listed.length
  let allowance := if examined.uidNext = 0 then 16 else 0
  if messages > examined.exists + allowance then fail .client
  else pure { c with report := { c.report with
    messages := messages
    plannedBytes := listed.foldl (fun total item => total + item.size) c.report.plannedBytes } }

/-- Where the loop goes on, if it does. -/
def Place.next (examined : Examined) (p : Place) (upto : Option ℕ) (empty : Bool) (windows : ℕ) :
    Option Place :=
  -- Widen empty gaps.
  let width := if empty then min (p.width * 2) maxUid else 10000
  match upto with
  | some last =>
      if examined.exists = 0 then none
      else if last < examined.uidNext - 1 then some ⟨last + 1, width, windows, p.tail, true⟩
      -- UIDNEXT is a hint from the source, so its remaining UIDs are inspected too.
      else some ⟨max p.from examined.uidNext, width, windows, true, true⟩
  | none => none

/-- Copy one window after the other. -/
def loop (src : Source) (settings : Settings) (examined : Examined) (dedupe : Bool) :
    ℕ → Place → Copy → Run Copy
  | 0, _, _ => fail .rounds
  | fuel + 1, p, c => do
      let upto := windowEnd examined p.from p.width p.tail
      let (listed, windows) ← list src examined p upto
      let c ← count examined c listed
      let c ← (if settings.dryRun then pure c
        else window sha256 src settings dedupe p.initialized c listed upto : Run Copy)
      match p.next examined upto listed.isEmpty windows with
      | some p => loop src settings examined dedupe fuel p c
      | none => return c

/-- Where to start, and whether an earlier copy was cut short. -/
def startOf (uidValidity : ℕ) : Option FolderState → ℕ × Bool
  | some state =>
      if uidValidity ≠ 0 ∧ state.uidValidity = uidValidity then
        if state.inProgress then (1, true) else (nextUid state.lastUid, false)
      else (1, true)
  -- A server without UIDVALIDITY gives no stable UIDs to resume from.
  | none => (1, uidValidity = 0)

/-- Whether a run starts over because of another UIDVALIDITY. -/
def restarts (uidValidity : ℕ) : Option FolderState → Bool
  | some state => ¬(uidValidity ≠ 0 ∧ state.uidValidity = uidValidity)
  | none => false

/-- Copy a folder. -/
def folder (src : Source) (settings : Settings) (examined : Examined) (target : Target) :
    Run FolderReport := do
  let saved ← read Disk.state (.state .io)
  let ledger ← openLedger sha256 src.uidValidity (!settings.dryRun)
  let («from», dedupe) := startOf src.uidValidity saved
  let state : FolderState :=
    ⟨src.uidValidity, «from» - 1, dedupe, (saved.map FolderState.copied).getD 0⟩
  let report : FolderReport := ⟨0, 0, 0, 0, 0, 0, 0, 0, 0, restarts src.uidValidity saved⟩
  let c ← loop sha256 src settings examined dedupe (windowLimit examined + 2)
    ⟨«from», 10000, 0, false, false⟩ ⟨target, none, ledger, state, report⟩
  if settings.dryRun then return c.report
  save { c.state with copied := c.state.copied + c.report.copied, inProgress := false }
  return c.report

end Program

end Epistle.Migrate
