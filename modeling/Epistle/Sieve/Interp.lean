import Epistle.Sieve.Env
import Mathlib.Data.Finset.Insert

/-!
# The Sieve interpreter

A script run against a message decides where the message goes. `run` executes commands one after
another; every command first counts a step, and an action that expands text checks the budget
again before it does anything. `evaluate` applies the implicit keep, and the rule for a run that
was abandoned: what it had decided locally stays, what it had asked to send is dropped, and with
something dropped the message is kept and no discard stands.

`moments` lists the states a run goes through: before each command, once a command has read what
it needs and not acted yet, after each action, and after each test of a conditional.
-/

namespace Epistle.Sieve

open Epistle.Lib.Text (eqIgnoreAsciiCase splitWhitespace)

/-! ### Outcome -/

/-- The most forwards one run of a script may ask for. -/
def maxRedirects : ℕ := 4

/-- The most different folders one run of a script files a message into. -/
def maxFileinto : ℕ := 8

def maxFlags : ℕ := 32

def maxFlagBytes : ℕ := 64

/-- A reply that a vacation asks for. -/
structure VacationRequest where
  reason : String
  subject : Option String
  sender : Option String
  /-- At most one reply per sender per this many days. -/
  days : ℕ
deriving DecidableEq, Repr

/-- The external effects an aborted run had asked for and did not get. -/
structure Dropped where
  redirects : ℕ
  reject : Bool
  vacation : Bool
deriving DecidableEq, Repr

def Dropped.any (d : Dropped) : Bool := 0 < d.redirects || d.reject || d.vacation

/-- The delivery decision a script produces. -/
structure Outcome where
  /-- Deliver to the inbox. -/
  keep : Bool
  /-- Mailboxes to file into. -/
  fileinto : List String
  fileintoCreates : Finset String
  redirects : List String
  discarded : Bool
  flags : List String
  reject : Option String
  /-- An autoresponse to send in addition to normal delivery. -/
  vacation : Option VacationRequest
  /-- The run spent more than it may and was abandoned. -/
  aborted : Bool
  /-- A test looked at less than the whole message. -/
  inspectionTruncated : Bool
  patternOverCaps : Bool
  /-- What an aborted run had decided to send and the server dropped. -/
  dropped : Dropped
  /-- How many different `redirect` addresses came after the limit. -/
  redirectsOverLimit : ℕ
  fileintoOverLimit : ℕ

def Outcome.default : Outcome where
  keep := false
  fileinto := []
  fileintoCreates := ∅
  redirects := []
  discarded := false
  flags := []
  reject := none
  vacation := none
  aborted := false
  inspectionTruncated := false
  patternOverCaps := false
  dropped := ⟨0, false, false⟩
  redirectsOverLimit := 0
  fileintoOverLimit := 0

/-- Which actions cancelled the implicit keep: a decision about where the message goes, or an
effect outward. -/
structure Cancel where
  /-- A `discard` or `fileinto`. -/
  «local» : Bool
  /-- A `redirect` or `reject`. -/
  external : Bool
deriving DecidableEq, Repr

/-- A run on its way. -/
structure Run where
  /-- What is decided so far. -/
  outcome : Outcome
  /-- What cancelled the implicit keep so far. -/
  cancel : Cancel
  env : Env

def Run.default : Run := ⟨.default, ⟨false, false⟩, .default⟩

/-! ### Actions -/

def vacationArgs : List Argument → VacationRequest × Option String →
    VacationRequest × Option String
  | [], acc => acc
  | .tag "days" :: .number n :: rest, (r, reason) =>
    vacationArgs rest ({ r with days := n }, reason)
  | .tag "days" :: _ :: rest, acc => vacationArgs rest acc
  | .tag "subject" :: .str s :: rest, (r, reason) =>
    vacationArgs rest ({ r with subject := some s }, reason)
  | .tag "subject" :: _ :: rest, acc => vacationArgs rest acc
  | .tag "from" :: .str s :: rest, (r, reason) =>
    vacationArgs rest ({ r with sender := some s }, reason)
  | .tag "from" :: _ :: rest, acc => vacationArgs rest acc
  | .tag "handle" :: _ :: rest, acc => vacationArgs rest acc
  | .tag "addresses" :: _ :: rest, acc => vacationArgs rest acc
  | .str s :: rest, (r, _) => vacationArgs rest (r, some s)
  | _ :: rest, acc => vacationArgs rest acc

/-- The reply that the arguments of a vacation ask for. -/
def parseVacation (args : List Argument) : Option VacationRequest :=
  let (request, reason) := vacationArgs args (⟨"", none, none, 7⟩, none)
  reason.map fun reason => { request with reason := reason }

def hasIgnoringCase (l : List String) (s : String) : Bool :=
  l.any fun t => eqIgnoreAsciiCase t.toList s.toList

/-- Add flags, each once. -/
def addFlags : List String → List String → List String
  | flags, [] => flags
  | flags, token :: tokens =>
    if maxFlags ≤ flags.length then flags
    else if octets token ≤ maxFlagBytes && !hasIgnoringCase flags token then
      addFlags (flags ++ [token]) tokens
    else addFlags flags tokens

def flagList (args : List Argument) : List String :=
  (strings args).flatMap fun s => (splitWhitespace s.toList).map String.ofList

def flagCost (tokens : List String) : ℕ := (tokens.map fun t => octets t + 8).sum

namespace Outcome

/-- Add a folder, within the limit. -/
def addFileinto (o : Outcome) (folder : String) (create : Bool) : Outcome :=
  let o :=
    if o.fileinto.contains folder then o
    else if o.fileinto.length < maxFileinto then { o with fileinto := o.fileinto ++ [folder] }
    else { o with fileintoOverLimit := o.fileintoOverLimit + 1 }
  if create && o.fileinto.contains folder then
    { o with fileintoCreates := insert folder o.fileintoCreates }
  else o

/-- Add an address, within the limit. -/
def addRedirect (o : Outcome) (target : String) : Outcome :=
  if hasIgnoringCase o.redirects target then o
  else if o.redirects.length < maxRedirects then { o with redirects := o.redirects ++ [target] }
  else { o with redirectsOverLimit := o.redirectsOverLimit + 1 }

end Outcome

namespace Run

def keeping (r : Run) : Run := { r with outcome := { r.outcome with keep := true } }

def expanding (r : Run) (text : String) (next : String → Run → Run) : Bool × Run :=
  let (text, env) := r.env.expand text
  let r := { r with env := env }
  if env.exhausted then (true, r) else (false, next text r)

end Run

/-- `discard`. After a key over the caps made a test false, which `not` or `else` can turn into
the branch that loses mail, the message is kept instead. -/
def discardAction (r : Run) : Run :=
  if r.env.patternOverCaps then r.keeping
  else
    { r with
      outcome := { r.outcome with discarded := true }
      cancel := { r.cancel with «local» := true } }

/-- A reject. -/
def rejectAction (args : List Argument) (r : Run) : Bool × Run :=
  if r.env.patternOverCaps then (false, r.keeping)
  else
    match firstStr args with
    | none => (false, r)
    | some reason =>
      r.expanding reason fun reason r =>
        { r with
          outcome := { r.outcome with reject := some reason }
          cancel := { r.cancel with external := true } }

/-- A variable is set. -/
def setAction (args : List Argument) (r : Run) : Bool × Run :=
  match strings args with
  | name :: value :: _ => r.expanding value fun value r => { r with env := r.env.set name value }
  | _ => (false, r)

/-- A message goes into a folder. -/
def fileintoAction (args : List Argument) (r : Run) : Bool × Run :=
  match firstStr args with
  | none => (false, r)
  | some target =>
    r.expanding target fun folder r =>
      { r with
        outcome := r.outcome.addFileinto folder (hasTag args "create")
        cancel := if hasTag args "copy" then r.cancel else { r.cancel with «local» := true } }

/-- `redirect`. The action counts as done past the limit too, so the implicit keep is cancelled
either way. -/
def redirectAction (args : List Argument) (r : Run) : Bool × Run :=
  match firstStr args with
  | none => (false, r)
  | some target =>
    r.expanding target fun target r =>
      { r with
        outcome := r.outcome.addRedirect target
        cancel := if hasTag args "copy" then r.cancel else { r.cancel with external := true } }

def flagAction (change : List String → List String → List String) (args : List Argument)
    (r : Run) : Bool × Run :=
  let tokens := flagList args
  let env := r.env.charge (flagCost tokens)
  let r := { r with env := env }
  if env.exhausted then (true, r)
  else (false, { r with outcome := { r.outcome with flags := change r.outcome.flags tokens } })

def removeFlags (flags tokens : List String) : List String :=
  flags.filter fun flag => !hasIgnoringCase tokens flag

/-- One action. -/
def runAction (name : String) (args : List Argument) (r : Run) : Bool × Run :=
  if name = "keep" then (false, r.keeping)
  else if name = "discard" then (false, discardAction r)
  else if name = "reject" ∨ name = "ereject" then rejectAction args r
  else if name = "set" then setAction args r
  else if name = "vacation" then
    (false, { r with outcome := { r.outcome with vacation := parseVacation args } })
  else if name = "fileinto" then fileintoAction args r
  else if name = "redirect" then redirectAction args r
  else if name = "stop" then (true, r)
  else if name = "setflag" then flagAction (fun _ tokens => addFlags [] tokens) args r
  else if name = "addflag" then flagAction addFlags args r
  else if name = "removeflag" then flagAction removeFlags args r
  -- `require` and any unsupported action.
  else (false, r)

/-! ### Commands -/

mutual

/-- Commands one after the other. -/
def run (message : Message) : List Command → Run → Bool × Run
  | [], r => (false, r)
  | c :: cs, r =>
    let r := { r with env := r.env.step }
    if r.env.exhausted then (true, r)
    else
      let (stopped, r) := runCommand message c r
      if stopped then (true, r) else run message cs r

/-- One command. -/
def runCommand (message : Message) : Command → Run → Bool × Run
  | .action name args, r => runAction name args r
  | .cond branches otherwise, r =>
    let (taken, stopped, r) := runBranches message branches r
    if taken then (stopped, r) else runOtherwise message otherwise r

/-- The first branch whose test is true. -/
def runBranches (message : Message) : List (Test × List Command) → Run → Bool × Bool × Run
  | [], r => (false, false, r)
  | b :: bs, r => runBranch message b r (runBranches message bs)

def runBranch (message : Message) :
    Test × List Command → Run → (Run → Bool × Bool × Run) → Bool × Bool × Run
  | (test, body), r, others =>
    let (holds, env) := evalTest message test r.env
    let r := { r with env := env }
    if holds then (true, run message body r) else others r

def runOtherwise (message : Message) : Option (List Command) → Run → Bool × Run
  | none, r => (false, r)
  | some body, r => run message body r

end

mutual

/-- The states that a run goes through. -/
def moments (message : Message) : List Command → Run → List Run
  | [], _ => []
  | c :: cs, r =>
    let r := { r with env := r.env.step }
    r :: if r.env.exhausted then []
      else
        let (stopped, r') := runCommand message c r
        commandMoments message c r ++ if stopped then [] else moments message cs r'

def commandMoments (message : Message) : Command → Run → List Run
  | .action name args, r =>
    let r' := (runAction name args r).2
    [{ r with env := r'.env }, r']
  | .cond branches otherwise, r =>
    let (taken, _, r') := runBranches message branches r
    branchesMoments message branches r ++
      if taken then [] else otherwiseMoments message otherwise r'

def branchesMoments (message : Message) : List (Test × List Command) → Run → List Run
  | [], _ => []
  | b :: bs, r => branchMoments message b r (branchesMoments message bs)

def branchMoments (message : Message) :
    Test × List Command → Run → (Run → List Run) → List Run
  | (test, body), r, others =>
    let (holds, env) := evalTest message test r.env
    let r := { r with env := env }
    r :: if holds then moments message body r else others r

def otherwiseMoments (message : Message) : Option (List Command) → Run → List Run
  | none, _ => []
  | some body, r => moments message body r

end

/-- The outcome of a script. -/
def evaluate (script : List Command) (message : Message) : Outcome :=
  let r := (run message script .default).2
  let outcome :=
    { r.outcome with
      aborted := r.env.exhausted
      inspectionTruncated := r.env.truncated
      patternOverCaps := r.env.patternOverCaps }
  let outcome :=
    if outcome.aborted then
      { outcome with
        dropped := ⟨outcome.redirects.length, outcome.reject.isSome, outcome.vacation.isSome⟩ }
    else outcome
  if outcome.aborted && outcome.dropped.any then
    { outcome with
      redirects := []
      reject := none
      vacation := none
      discarded := false
      keep := true }
  -- Implicit keep applies unless an action cancelled it.
  else if !(r.cancel.local || r.cancel.external) then { outcome with keep := true }
  else outcome

end Epistle.Sieve
