import Epistle.Imap.Literal
import Epistle.Lib.Crlf

/-!
# The IMAP session on literal-bearing commands

The part of `imap/session` that decides what the network layer reads behind a command line:
`Session.commandLine` with `appendBegin` and `replaceBegin`, and the two ends of a collected
literal, `literalDone` and `literalBadTrailer`. What a session does for the other commands, for
SASL and for IDLE, and what the store answers, comes from the environment.
-/

namespace Epistle.Imap

open Lib Lib.Text

/-! ## Flags -/

/-- The most keywords of a message. -/
def maxKeywordsPerMessage : ℕ := 32

/-- The longest keyword. -/
def maxKeywordBytes : ℕ := 64

def keywordChar (c : Char) : Bool :=
  0x20 < c.toNat && c.toNat < 0x7F && !"()\x7b%*\"]\\".toList.contains c

/-- A user keyword: a nonempty atom of at most 64 octets. -/
structure Keyword where
  name : List Char
  valid : name ≠ [] ∧ name.length ≤ maxKeywordBytes ∧ name.all keywordChar
  deriving DecidableEq

/-- A system flag or a keyword. -/
inductive Flag
  | seen
  | answered
  | flagged
  | deleted
  | draft
  | keyword (keyword : Keyword)
  deriving DecidableEq

/-- Read a flag. -/
def Flag.parse (token : List Char) : Option Flag :=
  if eqIgnoreAsciiCase token "\\seen".toList then some .seen
  else if eqIgnoreAsciiCase token "\\answered".toList then some .answered
  else if eqIgnoreAsciiCase token "\\flagged".toList then some .flagged
  else if eqIgnoreAsciiCase token "\\deleted".toList then some .deleted
  else if eqIgnoreAsciiCase token "\\draft".toList then some .draft
  else if h : token ≠ [] ∧ token.length ≤ maxKeywordBytes ∧ token.all keywordChar then
    some (.keyword ⟨token, h⟩)
  else none

def Flag.isKeyword : Flag → Bool
  | .keyword _ => true
  | _ => false

def countKeywords (flags : List Flag) : Option ℕ :=
  let count := (flags.filter Flag.isKeyword).length
  if count > maxKeywordsPerMessage then none else some count

/-! ## Session state -/

def closeParen : UInt8 := 41

/-- What the network layer does after a step of the session. -/
structure Output where
  bytes : List Char
  close : Bool := false
  /-- Size of a literal to read and hand to the session. -/
  collectLiteral : Option ℕ := none
  literalTrailer : List UInt8 := crlf
  /-- Octets of a rejected literal that are on the wire, to be read and dropped. -/
  discardLiteral : Option ℕ := none
  idle : Bool := false
  upgradeTls : Bool := false
  compress : Bool := false
  collectAuth : Bool := false
  deriving DecidableEq, Repr

/-- Response lines and nothing to read. -/
def Output.text (bytes : List Char) : Output := { bytes }

/-- What a step without a literal answers. -/
structure Reply where
  bytes : List Char
  close : Bool := false
  idle : Bool := false
  upgradeTls : Bool := false
  compress : Bool := false
  collectAuth : Bool := false

/-- What a reply sends. -/
def Reply.output (r : Reply) : Output :=
  { bytes := r.bytes, close := r.close, idle := r.idle, upgradeTls := r.upgradeTls,
    compress := r.compress, collectAuth := r.collectAuth }

/-- How far a client has come. -/
inductive State
  | notAuthenticated
  | authenticated (account : List Char)
  /-- A mailbox is open; `uids` are its messages in sequence order. -/
  | selected (account mailbox : List Char) (uids : List ℕ) (readOnly : Bool)
  deriving DecidableEq

/-- A command that waits for its literal. -/
structure PendingLiteral where
  tag : List Char
  mailbox : List Char
  flags : List Flag
  date : Option InternalDate
  replace : Option (List Char × ℕ)
  binary : Bool
  deriving DecidableEq

/-- What a session knows. -/
structure Session where
  state : State
  utf8Accept : Bool
  imap4rev2 : Bool
  effectiveQuota : Option ℕ
  appendLimit : ℕ
  pendingAppend : Option PendingLiteral
  deriving DecidableEq

/-- What storing a literal tells the client: the untagged lines before it, the response code, the
EXPUNGE line of a replaced message; and the state of the session behind it. -/
structure Stored where
  prelude : List Char
  expunge : List Char
  code : List Char
  state : State

/-- The world at one step of a session. -/
structure Env where
  parseDate : List Char → Option InternalDate
  mailboxExists : List Char → List Char → Bool
  accountUsage : List Char → ℕ
  encodeName : List Char → List Char
  encodeBinaryParts : List UInt8 → Option (List UInt8)
  append : List Char → PendingLiteral → List UInt8 → Option Stored
  /-- The commands that carry no literal. -/
  other : Session → List Char → List Char → List Char → Except ParseError (Reply × Session)
  authResponse : Session → List Char → Reply × Session
  idleDone : Session → Reply × Session
  tlsStarted : Session → Session

namespace Session

def account (self : Session) : Option (List Char) :=
  match self.state with
  | .notAuthenticated => none
  | .authenticated account | .selected account _ _ _ => some account

def utf8Names (self : Session) : Bool := self.utf8Accept || self.imap4rev2

def sentLiteral (line : List Char) : Option ℕ :=
  ((literalAnnouncementInLine line).filter (!·.synchronizing)).map (·.size)

def rejectLiteral (tag : List Char) (synchronizing : Bool) (size : ℕ) (response : List Char) :
    Output :=
  { bytes := tag ++ ' ' :: response, discardLiteral := if synchronizing then none else some size }

def collect (size : ℕ) (synchronizing : Bool) : Output :=
  { bytes := if synchronizing then "+ ready for literal data\r\n".toList else []
    collectLiteral := some size }

variable (env : Env)

/-- The checks APPEND and REPLACE share, from the target mailbox on: the flags, or the response
that refuses the command. -/
def checkTarget (self : Session) (account mailbox : List Char) (flagTokens : List (List Char))
    (size : ℕ) : Except (List Char) (List Flag) :=
  if !env.mailboxExists account mailbox then
    .error "NO [TRYCREATE] no such mailbox\r\n".toList
  else if self.effectiveQuota.any (env.accountUsage account + size > ·) then
    .error "NO [OVERQUOTA] storage quota exceeded\r\n".toList
  else
    match flagTokens.mapM Flag.parse with
    | none => .error "BAD unsupported flag\r\n".toList
    | some flags =>
        if countKeywords flags = none then
          .error "BAD too many keywords (max \x7b\x7d)\r\n".toList
        else .ok flags

/-- An `APPEND` command whose literal is announced. -/
def appendBegin (self : Session) (tag mailbox : List Char) (flagTokens : List (List Char))
    (date : Option InternalDate) (size : ℕ) (synchronizing utf8 binary : Bool) :
    Output × Session :=
  -- A rejected `UTF8 (~{n+})` also drains the `)` behind the literal.
  let wireSize := size + utf8.toNat
  match self.account with
  | none => (rejectLiteral tag synchronizing wireSize "NO not authenticated\r\n".toList, self)
  | some account =>
      if utf8 && !self.utf8Accept then
        (rejectLiteral tag synchronizing wireSize
          "BAD UTF8 APPEND requires ENABLE UTF8=ACCEPT\r\n".toList, self)
      else
        match self.checkTarget env account mailbox flagTokens size with
        | .error response => (rejectLiteral tag synchronizing wireSize response, self)
        | .ok flags =>
            ({ collect size synchronizing with
                literalTrailer := if utf8 then closeParen :: crlf else crlf },
              { self with pendingAppend := some ⟨tag, mailbox, flags, date, none, binary⟩ })

def replaceTarget (uids : List ℕ) (sequence : ℕ) (uid : Bool) : Option ℕ :=
  let total := min uids.length (2 ^ 32 - 1)
  let target :=
    if uid then (uids.take total).find? (· = sequence)
    else if 1 ≤ sequence ∧ sequence ≤ total then uids[sequence - 1]? else none
  target.filter (· ≠ 0)

/-- A `REPLACE` command whose literal is announced. -/
def replaceBegin (self : Session) (tag : List Char) (sequence : ℕ) (mailbox : List Char)
    (flagTokens : List (List Char)) (date : Option InternalDate) (size : ℕ)
    (uid synchronizing : Bool) : Output × Session :=
  match self.state with
  | .selected account selected uids readOnly =>
      if readOnly then
        (rejectLiteral tag synchronizing size "NO mailbox is read-only\r\n".toList, self)
      else
        match replaceTarget uids sequence uid with
        | none => (rejectLiteral tag synchronizing size "NO no such message\r\n".toList, self)
        | some target =>
            match self.checkTarget env account mailbox flagTokens size with
            | .error response => (rejectLiteral tag synchronizing size response, self)
            | .ok flags =>
                (collect size synchronizing,
                  { self with
                    pendingAppend := some ⟨tag, mailbox, flags, date, some (selected, target),
                      false⟩ })
  | _ => (rejectLiteral tag synchronizing size "NO no mailbox selected\r\n".toList, self)

/-- What a client is told of a command that does not parse. -/
def refuse (line : List Char) : ParseError → Output
  | .malformed => .text "* BAD malformed command\r\n".toList
  | .unknown tag => .text (tag ++ " BAD unknown command\r\n".toList)
  | .badArguments tag =>
      { bytes := tag ++ " BAD invalid arguments\r\n".toList, discardLiteral := sentLiteral line }
  | .tooBig tag =>
      { bytes := tag ++ " NO [TOOBIG] message exceeds APPENDLIMIT\r\n".toList
        discardLiteral := sentLiteral line }

/-- A command line. -/
def commandLine (self : Session) (line : List Char) : Output × Session :=
  let stored (name : List Char) := if self.utf8Names then env.encodeName name else name
  match parseLine env.parseDate line self.appendLimit with
  | .error e => (refuse line e, self)
  | .ok (tag, .append mailbox flags date size synchronizing utf8 binary) =>
      self.appendBegin env tag (stored mailbox) flags date size synchronizing utf8 binary
  | .ok (tag, .replace sequence mailbox flags date size uid synchronizing) =>
      self.replaceBegin env tag sequence (stored mailbox) flags date size uid synchronizing
  | .ok (tag, .other verb args) =>
      match env.other self tag verb args with
      | .error e => (refuse line e, self)
      | .ok (reply, next) => (reply.output, next)

def verb (pending : PendingLiteral) : List Char :=
  if pending.replace.isSome then Verb.replace else Verb.append

/-- The literal of a command is there. -/
def literalDone (self : Session) (data : List UInt8) : Output × Session :=
  match self.pendingAppend with
  | none => (.text "* BAD unexpected literal\r\n".toList, self)
  | some pending =>
      let self := { self with pendingAppend := none }
      let data := if pending.binary then (env.encodeBinaryParts data).getD data else data
      match self.account with
      | none => (.text (pending.tag ++ " NO not authenticated\r\n".toList), self)
      | some account =>
          match env.append account pending data with
          | none =>
              (.text (pending.tag ++ " NO ".toList ++ verb pending ++ " failed\r\n".toList), self)
          | some stored =>
              (.text (stored.prelude ++ stored.expunge ++ pending.tag ++ " OK ".toList ++
                  stored.code ++ verb pending ++ " completed\r\n".toList),
                { self with state := stored.state })

/-- Something stands behind a literal that should not. -/
def literalBadTrailer (self : Session) : Output × Session :=
  match self.pendingAppend with
  | none => (.text "* BAD unexpected literal\r\n".toList, self)
  | some pending =>
      (.text (pending.tag ++ " BAD ".toList ++ verb pending ++
          " literal must be followed by CRLF\r\n".toList),
        { self with pendingAppend := none })

/-! ## What is read behind a literal-bearing line -/

/-- The output makes the network layer take the `n` octets behind the line, as a literal or as
octets to drop. -/
def Takes (output : Output) (n : ℕ) : Prop :=
  output.close = false ∧
    ((∃ k, n ≤ k ∧ output.discardLiteral = some k) ∨
      (output.discardLiteral = none ∧ output.collectLiteral = some n))

variable {n : ℕ}

lemma takes_rejectLiteral (tag response : List Char) {size : ℕ} (h : n ≤ size) :
    Takes (rejectLiteral tag false size response) n :=
  ⟨rfl, .inl ⟨size, h, rfl⟩⟩

lemma takes_collect (n : ℕ) : Takes (collect n false) n := ⟨rfl, .inr ⟨rfl, rfl⟩⟩

variable {env}

lemma appendBegin_takes (self : Session) (tag mailbox : List Char)
    (flagTokens : List (List Char)) (date : Option InternalDate) (n : ℕ) (utf8 binary : Bool) :
    Takes (self.appendBegin env tag mailbox flagTokens date n false utf8 binary).1 n := by
  have hsize : n ≤ n + utf8.toNat := Nat.le_add_right ..
  unfold appendBegin
  cases self.account with
  | none => exact takes_rejectLiteral _ _ hsize
  | some account =>
    by_cases hu : (utf8 && !self.utf8Accept) = true
    · simp only [hu, if_true]
      exact takes_rejectLiteral _ _ hsize
    · simp only [hu]
      cases self.checkTarget env account mailbox flagTokens n with
      | error response => exact takes_rejectLiteral _ _ hsize
      | ok flags => exact ⟨rfl, .inr ⟨rfl, rfl⟩⟩

lemma replaceBegin_takes (self : Session) (tag : List Char) (sequence : ℕ)
    (mailbox : List Char) (flagTokens : List (List Char)) (date : Option InternalDate) (n : ℕ)
    (uid : Bool) :
    Takes (self.replaceBegin env tag sequence mailbox flagTokens date n uid false).1 n := by
  unfold replaceBegin
  cases self.state with
  | notAuthenticated | authenticated account => exact takes_rejectLiteral _ _ (le_refl n)
  | selected account selected uids readOnly =>
    dsimp only
    split_ifs
    · exact takes_rejectLiteral _ _ (le_refl n)
    · cases replaceTarget uids sequence uid with
      | none => exact takes_rejectLiteral _ _ (le_refl n)
      | some target =>
        cases self.checkTarget env account mailbox flagTokens n with
        | error response => exact takes_rejectLiteral _ _ (le_refl n)
        | ok flags => exact takes_collect n

lemma takes_refuse {line tag : List Char} (hsent : sentLiteral line = some n) {e : ParseError}
    (he : e = .badArguments tag ∨ e = .tooBig tag) : Takes (refuse line e) n := by
  rcases he with rfl | rfl <;> exact ⟨rfl, .inl ⟨n, le_refl n, hsent⟩⟩

lemma commandLine_takes (self : Session) {line : List Char} (hc : carriesLiteral line)
    (h : announced line = some n) (hn : n < usizeBound) :
    Takes (self.commandLine env line).1 n := by
  obtain ⟨tag, args, hargs, hscan, hparse⟩ := carriesLiteral_cases env.parseDate hc h
  have hsent : sentLiteral line = some n := by
    rw [sentLiteral, hscan, literalAnnouncement_announced hargs hn]
    rfl
  unfold commandLine
  rcases hparse with hparse | ⟨uid, hparse⟩
  · rw [hparse]
    cases happend : parseAppend env.parseDate tag args self.appendLimit with
    | error e => exact takes_refuse hsent (parseAppend_rescanned e happend)
    | ok command =>
      obtain ⟨mailbox, flags, date, utf8, binary, rfl⟩ := parseAppend_announced hargs happend
      exact appendBegin_takes ..
  · rw [hparse]
    cases hreplace : parseReplace env.parseDate tag args uid self.appendLimit with
    | error e => exact takes_refuse hsent (parseReplace_rescanned uid e hreplace)
    | ok command =>
      obtain ⟨sequence, mailbox, flags, date, rfl⟩ := parseReplace_announced hargs hreplace
      exact replaceBegin_takes ..

end Session

end Epistle.Imap
