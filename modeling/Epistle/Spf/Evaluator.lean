import Mathlib.Data.BitVec
import Epistle.Spf.Record

/-!
# The SPF evaluator

`check_host` (`spf/evaluator`): the record of a domain is fetched, its directives are tried in
order, and `include` and `redirect` descend into the records of other domains. The counts of terms
and of empty answers are shared by the whole evaluation: an `include` gets a copy of its caller's,
and hands its own back when the caller goes on.

The name server may answer anything: what it says may depend on every question it was asked before.
Beside the counts the model keeps a trace of the terms that were charged and of the questions that
were asked, which nothing in the evaluation reads.
-/

namespace Epistle.Spf

open Lib Lib.Text

/-- The outcome of a check. -/
inductive SpfOutcome
  | none
  | neutral
  | pass
  | fail
  | softFail
  | tempError
  | permError
  deriving DecidableEq, Repr

/-- An address of either version. -/
inductive IpAddr
  | v4 (bits : BitVec 32)
  | v6 (bits : BitVec 128)
  deriving DecidableEq, Repr

/-! ## Macros -/

def octets (count : ℕ) (bits : ℕ) : List ℕ :=
  (List.range count).map fun i => bits / 256 ^ (count - 1 - i) % 256

def ipToMacroStr : IpAddr → List Char
  | .v4 bits => List.intercalate ['.'] ((octets 4 bits.toNat).map (Nat.toDigits 10))
  | .v6 bits =>
      let nibbles := (octets 16 bits.toNat).flatMap fun b => [b / 16, b % 16]
      List.intercalate ['.'] (nibbles.map (Nat.toDigits 16))

/-- How a macro's value is taken apart. -/
structure Transformers where
  count : Option ℕ
  reverse : Bool
  delimiters : List Char

def macroCount (number : List Char) : Except SpfOutcome (Option ℕ) :=
  if number = [] then .ok none
  else match parseUnsigned (2 ^ 64) number with
    | some count => .ok (some count)
    | none => .error .permError

def parseMacroTransformers (s : List Char) : Except SpfOutcome Transformers := do
  let count ← macroCount (s.takeWhile Char.isDigit)
  let rest := s.dropWhile Char.isDigit
  let reverse := rest.head? = some 'r' ∨ rest.head? = some 'R'
  let delimiters := if reverse then rest.tail else rest
  if delimiters = [] then return ⟨count, reverse, ['.']⟩
  else if ∀ d ∈ delimiters, d ∈ ".+-,/_=".toList then return ⟨count, reverse, delimiters⟩
  else throw .permError

section Macro

variable (ip : IpAddr) (domain sender helo : List Char)

def macroValue (letter : Char) : Except SpfOutcome (List Char) :=
  match letter.toLower with
  | 's' => .ok sender
  | 'l' => .ok (((splitOnce '@' sender).map Prod.fst).getD sender)
  | 'o' => .ok (((rsplitOnce '@' sender).map Prod.snd).getD sender)
  | 'd' => .ok domain
  | 'i' => .ok (ipToMacroStr ip)
  | 'v' => .ok (match ip with
      | .v4 _ => "in-addr".toList
      | .v6 _ => "ip6".toList)
  | 'h' => .ok helo
  | _ => .error .permError

def expandMacroInner : List Char → Except SpfOutcome (List Char)
  | [] => .error .permError
  | letter :: rest => do
      let transformers ← parseMacroTransformers rest
      let raw ← macroValue ip domain sender helo letter
      let parts := raw.splitOnP (· ∈ transformers.delimiters)
      let parts := if transformers.reverse then parts.reverse else parts
      let parts := match transformers.count with
        | some n => parts.drop (parts.length - n)
        | none => parts
      return List.intercalate ['.'] parts

/-- The text from the next percent sign on. -/
def expandMacroFrom (rest : List Char) : Except SpfOutcome (List Char) :=
  match _h : splitOnce '%' rest with
  | none => .ok rest
  | some (before, after) =>
      match _hafter : after with
      | '%' :: rest => do return before ++ '%' :: (← expandMacroFrom rest)
      | '_' :: rest => do return before ++ ' ' :: (← expandMacroFrom rest)
      | '-' :: rest => do return before ++ "%20".toList ++ (← expandMacroFrom rest)
      | '\x7b' :: inside =>
          match _hclose : splitOnce '\x7d' inside with
          | some (inner, rest) => do
              let value ← expandMacroInner ip domain sender helo inner
              return before ++ value ++ (← expandMacroFrom rest)
          | none => .error .permError
      | _ => .error .permError
  termination_by rest.length
  decreasing_by
    all_goals
      obtain ⟨rfl, -⟩ := splitOnce_eq_some.1 _h
      first
      | (simp only [List.length_append, List.length_cons]; omega)
      | (obtain ⟨rfl, -⟩ := splitOnce_eq_some.1 _hclose
         simp only [List.length_append, List.length_cons]; omega)

/-- A text with its macros in place. -/
def expandMacro (spec : List Char) : Except SpfOutcome (List Char) :=
  if '%' ∉ spec then .ok spec else expandMacroFrom ip domain sender helo spec

end Macro

/-! ## Matching addresses -/

def mask (width length : ℕ) : BitVec width :=
  if length = 0 then 0 else BitVec.allOnes width <<< (width - length)

/-- Whether an address is in a network. -/
def inNetwork {width : ℕ} (ip network : BitVec width) (length : ℕ) : Bool :=
  ip &&& mask width length = network &&& mask width length

def addressMatches (ip candidate : IpAddr) (length4 : Fin 33) (length6 : Fin 129) : Bool :=
  match ip, candidate with
  | .v4 ip, .v4 candidate => inNetwork ip candidate length4
  | .v6 ip, .v6 candidate => inNetwork ip candidate length6
  | _, _ => false

/-! ## The evaluation -/

/-- A question to the name server. -/
inductive Query
  | txt (name : List Char)
  | mx (name : List Char)
  | addresses (name : List Char)
  deriving DecidableEq, Repr

def Query.name : Query → List Char
  | .txt name => name
  | .mx name => name
  | .addresses name => name

/-- Why a lookup failed. -/
inductive DnsFailure
  | temporary
  deriving DecidableEq, Repr

/-- The name server. An answer may depend on all the questions before. -/
structure Dns where
  txt : List Query → List Char → Except DnsFailure (List (List Char))
  mx : List Query → List Char → Except DnsFailure (List (List Char))
  addresses : List Query → List Char → Except DnsFailure (List IpAddr)

/-- The counts an evaluation is charged to. -/
structure Budget where
  /-- Terms that may still be charged. -/
  remaining : ℕ
  /-- Empty answers so far. -/
  voids : ℕ
  deriving DecidableEq, Repr

/-- What an evaluation goes through. -/
inductive Event
  | term
  /-- A question is asked. -/
  | lookup (query : Query) (void : Bool)
  deriving DecidableEq, Repr

def Event.query? : Event → Option Query
  | .term => none
  | .lookup query _ => some query

/-- The counts at hand, and all that happened. -/
structure State where
  budget : Budget
  trace : List Event
  deriving DecidableEq, Repr

/-- The questions so far. -/
def State.asked (s : State) : List Query := s.trace.filterMap Event.query?

/-- A check that counts what it asks. -/
abbrev Eval := ExceptT SpfOutcome (StateM State)

/-- The most terms an evaluation may be charged. -/
def maxDnsMechanisms : ℕ := 10

/-- The most empty answers that are tolerated. -/
def maxVoidLookups : ℕ := 2

/-- How deep `include` and `redirect` may nest. -/
def maxDepth : ℕ := 10

/-- What an evaluation is about. -/
structure Context where
  addresses : AddressParser
  dns : Dns
  ip : IpAddr
  sender : List Char
  helo : List Char

/-- Charge a term. -/
def consume : Eval Unit := do
  let s ← get
  if s.budget.remaining = 0 then throw .permError
  else set { s with
    budget.remaining := s.budget.remaining - 1
    trace := s.trace ++ [.term] : State }

/-- Count a lookup without an answer. -/
def countVoid : Eval Unit := do
  let s ← get
  set { s with budget.voids := s.budget.voids + 1 : State }
  if maxVoidLookups < s.budget.voids + 1 then throw .permError

/-- Ask a question, and count an empty answer. -/
def lookup {α : Type} (query : Query) (answer : List Query → Except DnsFailure (List α)) :
    Eval (List α) := do
  let s ← get
  match answer s.asked with
  | .ok found =>
      set { s with trace := s.trace ++ [.lookup query found.isEmpty] : State }
      if found.isEmpty then countVoid
      return found
  | .error .temporary =>
      set { s with trace := s.trace ++ [.lookup query false] : State }
      throw .tempError

section Evaluate

variable (ctx : Context)

def Context.expand (domain spec : List Char) : Except SpfOutcome (List Char) :=
  expandMacro ctx.ip domain ctx.sender ctx.helo spec

def isRecord (text : List Char) : Bool := text = version || version ++ [' '] <+: text

/-- The record of a domain, if it has one. -/
def fetchRecord (domain : List Char) : Eval (Option Record) := do
  let texts ← lookup (.txt domain) (ctx.dns.txt · domain)
  match texts.filter isRecord with
  | [] => return none
  | [text] =>
      match parse ctx.addresses text with
      | .ok record => return some record
      | .error _ => throw .permError
  | _ => throw .permError

def anyExchanger (length4 : Fin 33) (length6 : Fin 129) : List (List Char) → Eval Bool
  | [] => return false
  | exchanger :: rest => do
      let addresses ← lookup (.addresses exchanger) (ctx.dns.addresses · exchanger)
      if addresses.any (addressMatches ctx.ip · length4 length6) then return true
      else anyExchanger length4 length6 rest

variable (nested : List Char → StateM State SpfOutcome) (domain : List Char)

/-- Whether a mechanism matches. -/
def evalMechanism : Mechanism → Eval Bool
  | .all => return true
  | .ip4 network length => return match ctx.ip with
      | .v4 ip => inNetwork ip network length
      | .v6 _ => false
  | .ip6 network length => return match ctx.ip with
      | .v6 ip => inNetwork ip network length
      | .v4 _ => false
  | .a target length4 length6 => do
      consume
      let name ← ctx.expand domain (target.getD domain)
      let addresses ← lookup (.addresses name) (ctx.dns.addresses · name)
      return addresses.any (addressMatches ctx.ip · length4 length6)
  | .mx target length4 length6 => do
      consume
      let name ← ctx.expand domain (target.getD domain)
      let exchangers ← lookup (.mx name) (ctx.dns.mx · name)
      anyExchanger ctx length4 length6 (exchangers.take 10)
  | .include spec => do
      consume
      let included ← ctx.expand domain spec
      let s ← get
      match ← (nested included : StateM State SpfOutcome) with
      | .pass => return true
      | .fail | .softFail | .neutral => return false
      -- On the other exits the counts of the included record are not handed back.
      | .none => do
          modify fun s' => { s' with budget := s.budget }
          throw .permError
      | .tempError => do
          modify fun s' => { s' with budget := s.budget }
          throw .tempError
      | .permError => do
          modify fun s' => { s' with budget := s.budget }
          throw .permError
  | .exists spec => do
      consume
      let addresses ← lookup (.addresses spec) (ctx.dns.addresses · spec)
      return !addresses.isEmpty
  | .ptr _ => do
      consume
      return false

/-- The outcome of a directive that matches. -/
def Qualifier.outcome : Qualifier → SpfOutcome
  | .pass => .pass
  | .fail => .fail
  | .softFail => .softFail
  | .neutral => .neutral

/-- The outcome of the first directive that matches. -/
def evalDirectives : List (Qualifier × Mechanism) → Eval (Option SpfOutcome)
  | [] => return none
  | (qualifier, mechanism) :: rest => do
      if ← evalMechanism ctx nested domain mechanism then return some qualifier.outcome
      else evalDirectives rest

/-- The outcome of the domain that a record redirects to. -/
def evalRedirect (spec : List Char) : Eval SpfOutcome := do
  consume
  let target ← ctx.expand domain spec
  let outcome ← (nested target : StateM State SpfOutcome)
  return if outcome = .none then .permError else outcome

/-- The outcome of a record. -/
def evalRecord (record : Record) : Eval SpfOutcome := do
  match ← evalDirectives ctx nested domain record.directives with
  | some outcome => return outcome
  | none =>
      match record.redirect with
      | some spec => evalRedirect ctx nested domain spec
      | none => return .neutral

end Evaluate

def Eval.finish (x : Eval SpfOutcome) : StateM State SpfOutcome := do
  match ← x.run with
  | .ok outcome => return outcome
  | .error outcome => return outcome

/-- The outcome of a domain, with so many nested records left. -/
def checkHostInner (ctx : Context) : ℕ → List Char → StateM State SpfOutcome
  | 0, _ => return .permError
  | levels + 1, domain => Eval.finish do
      match ← fetchRecord ctx domain with
      | none => return .none
      | some record => evalRecord ctx (checkHostInner ctx levels) domain record

def State.start : State := ⟨⟨maxDnsMechanisms, 0⟩, []⟩

/-- The outcome of a sender. -/
def checkHost (ctx : Context) (domain : List Char) : SpfOutcome × State :=
  (checkHostInner ctx maxDepth domain).run .start

end Epistle.Spf
