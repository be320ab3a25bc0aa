import Epistle.Imap.Session
import Epistle.Smtp.Line.Framing

/-!
# The IMAP command loop

The connection loop of `imap/server`: command lines, lines of a SASL exchange and of IDLE,
collected literals with their trailers (`take_exact`), drained literals and the lines dropped
behind them (`discard.rs`) are read from one stream through one line decoder. A connection is a
state that takes events: octets arrive, the loop goes on without new octets, the peer or a
deadline ends it. Octets may arrive at any time; the loop reads only when it waits for them, so
its runs are among these.

`log` and `received` record what the loop made of the stream and the stream itself. STARTTLS
drops what is buffered and starts another stream, and with it both records.
-/

namespace Epistle.Imap

open Lib Lib.Text Smtp

/-- Consecutive refused commands that end a connection. -/
def maxErrorStreak : ℕ := 20

/-- A part of the stream, by what the loop made of it. -/
inductive Item
  | commandLine (line : List UInt8)
  /-- A line dropped behind a drained literal. -/
  | tailLine (line : List UInt8)
  | saslLine (line : List UInt8)
  | idleLine (line : List UInt8)
  | literal (octets : List UInt8)
  | trailer (octets : List UInt8)
  | drained (octets : List UInt8)
  deriving DecidableEq, Repr

namespace Item

def octets : Item → List UInt8
  | commandLine line | tailLine line | saslLine line | idleLine line => line ++ crlf
  | literal octets | trailer octets | drained octets => octets

/-- Whether an item of the log is a line. -/
def isLine : Item → Bool
  | commandLine _ | tailLine _ | saslLine _ | idleLine _ => true
  | literal _ | trailer _ | drained _ => false

def announced : Item → Option ℕ
  | commandLine line | tailLine line => announcedOctets line
  | _ => none

def payload : Item → ℕ
  | literal octets | drained octets => octets.length
  | _ => 0

end Item

def octets (log : List Item) : List UInt8 := log.flatMap Item.octets

/-- What a connection reads next. -/
inductive Phase
  | command
  | literal (size : ℕ) (trailer taken : List UInt8)
  | trailer (literal expected taken : List UInt8)
  | drain (remaining : ℕ) (gone : List UInt8)
  | auth
  | idle
  | closed
  deriving DecidableEq

/-- The octets in hand, taken off the decoder and not yet part of the log. -/
def Phase.held : Phase → List UInt8
  | literal _ _ taken | trailer _ _ taken => taken
  | drain _ gone => gone
  | _ => []

/-- A connection. -/
structure Conn where
  decoder : LineDecoder
  session : Session
  phase : Phase
  rejectedTail : Bool
  /-- Consecutive refused commands. -/
  errorStreak : ℕ
  /-- What was sent to the client. -/
  written : List Char
  log : List Item
  received : List UInt8

/-- What arrives at a connection. -/
inductive Event
  | read (piece : List UInt8)
  | advance (env : Env)
  /-- The peer is gone, a deadline passed, or the server shuts down. -/
  | hangUp

def isBadResponse (bytes : List Char) : Bool := bytes.tails.any (" BAD ".toList.isPrefixOf ·)

def oversizedSentLiteral (line : List Char) (appendLimit : ℕ) : Bool :=
  (literalAnnouncementInLine line).any fun literal =>
    literal.size > appendLimit && !literal.synchronizing

namespace Conn

/-- A connection that was just made. -/
def start (session : Session) : Conn :=
  ⟨.withLimit maxCommandLine, session, .command, false, 0, [], [], []⟩

/-- Send some octets. -/
def write (c : Conn) (bytes : List Char) : Conn := { c with written := c.written ++ bytes }

def record (c : Conn) (item : Item) : Conn := { c with log := c.log ++ [item] }

/-- Close the connection. -/
def close (c : Conn) : Conn := { c with phase := .closed }

/-- Read over a literal that is refused. -/
def beginDrain (c : Conn) (size : ℕ) : Conn :=
  let (dropped, decoder) := c.decoder.discardBuffered size
  { c with decoder, phase := .drain (size - dropped) (c.decoder.buffer.take dropped) }

/-- Read a literal. -/
def beginLiteral (c : Conn) (size : ℕ) (trailer : List UInt8) : Conn :=
  let (taken, decoder) := c.decoder.takeBuffered size
  { c with decoder, phase := .literal size trailer taken }

/-- Read the rest of the line behind a literal. -/
def beginTrailer (c : Conn) (literal expected : List UInt8) : Conn :=
  let (taken, decoder) := c.decoder.takeBuffered expected.length
  { c with decoder, phase := .trailer literal expected taken }

def startCompress (c : Conn) : Conn :=
  let (dropped, decoder) := c.decoder.discardBuffered (usizeBound - 1)
  if dropped > 0 then c.close else { c with decoder, phase := .command }

def startTls (c : Conn) (env : Env) : Conn :=
  { c with
    decoder := .withLimit maxCommandLine, session := env.tlsStarted c.session
    phase := .command, log := [], received := [] }

/-- Go where a reply leads. -/
def follow (c : Conn) (env : Env) (output : Output) : Conn :=
  let c := c.write output.bytes
  if output.close then c.close
  else
    match output.discardLiteral, output.collectLiteral with
    | some size, _ => c.beginDrain size
    | none, some size => c.beginLiteral size output.literalTrailer
    | none, none =>
        if output.collectAuth then { c with phase := .auth }
        else if output.compress then c.startCompress
        else if output.upgradeTls then c.startTls env
        else if output.idle then { c with phase := .idle }
        else { c with phase := .command }

/-- Count a bad command, and close after too many. -/
def strike (c : Conn) (next : Conn → Conn) : Conn :=
  let c := { c with errorStreak := c.errorStreak + 1 }
  if c.errorStreak ≥ maxErrorStreak then (c.write "* BYE too many errors\r\n".toList).close
  else next c

/-- The rest of a line behind a literal. -/
def tailLine (c : Conn) (appendLimit : ℕ) (line : List UInt8) : Conn :=
  let c := c.record (.tailLine line)
  match literalAnnouncementInTail (Utf8.decodeLossy line) with
  | none => { c with rejectedTail := false }
  | some literal =>
      if literal.size > appendLimit then (c.write "* BYE literal too large\r\n".toList).close
      else if literal.synchronizing then { c with rejectedTail := false }
      else c.beginDrain literal.size

/-- A command line. -/
def commandLine (c : Conn) (env : Env) (appendLimit : ℕ) (line : List UInt8) : Conn :=
  let c := c.record (.commandLine line)
  match Utf8.decode line with
  | none => (c.write "* BAD non-ASCII command\r\n".toList).strike id
  | some text =>
      if oversizedSentLiteral text appendLimit then
        (c.write "* BYE literal too large\r\n".toList).close
      else
        let (output, session) := c.session.commandLine env text
        let c := { c with session }
        if isBadResponse output.bytes then c.strike (·.follow env output)
        else { c with errorStreak := 0 }.follow env output

/-- Hand the next line on, or say why it cannot be read. -/
def nextLine (c : Conn) (failed : LineError → List Char) (handle : Conn → List UInt8 → Conn) :
    Conn :=
  match c.decoder.nextLine with
  | (.error e, decoder) => ({ c with decoder }.write (failed e)).close
  | (.ok none, decoder) => { c with decoder }
  | (.ok (some line), decoder) => handle { c with decoder } line

def brokenLine : LineError → List Char
  | .tooLong => "* BYE line too long\r\n".toList
  | .bareControlCharacter | .nulByte => "* BYE protocol error\r\n".toList

/-- Go on as far as no new octets are needed. -/
def advance (c : Conn) (env : Env) (appendLimit : ℕ) : Conn :=
  match c.phase with
  | .command =>
      c.nextLine brokenLine fun c line =>
        if c.rejectedTail then c.tailLine appendLimit line
        else c.commandLine env appendLimit line
  | .literal size trailer taken =>
      if taken.length < size then c else (c.record (.literal taken)).beginTrailer taken trailer
  | .trailer literal expected taken =>
      if taken.length < expected.length then c
      else if taken = expected then
        let (output, session) := c.session.literalDone env literal
        ({ c with session }.record (.trailer taken)).follow env output
      else
        -- The octets go back into the decoder, for the next line.
        let (output, session) := c.session.literalBadTrailer
        { c with session, decoder := c.decoder.feed taken }.follow env output
  | .drain remaining gone =>
      if 0 < remaining then c
      else { c.record (.drained gone) with rejectedTail := true, phase := .command }
  | .auth =>
      c.nextLine (fun _ => []) fun c line =>
        let (reply, session) := env.authResponse c.session ((Utf8.decode line).getD [])
        ({ c with session }.record (.saslLine line)).follow env reply.output
  | .idle =>
      c.nextLine (fun _ => []) fun c line =>
        let c := c.record (.idleLine line)
        if eqIgnoreAsciiCase (line.map Utf8.ascii) "DONE".toList then
          let (reply, session) := env.idleDone c.session
          { c with session }.follow env reply.output
        else c
  | .closed => c

/-- Octets arrive: the ones a literal, a trailer or a drain still needs go there, the rest to the
decoder. -/
def read (c : Conn) (piece : List UInt8) : Conn :=
  let c := if c.phase = .closed then c else { c with received := c.received ++ piece }
  match c.phase with
  | .literal size trailer taken =>
      let needed := size - taken.length
      { c with
        decoder := c.decoder.feed (piece.drop needed)
        phase := .literal size trailer (taken ++ piece.take needed) }
  | .trailer literal expected taken =>
      let needed := expected.length - taken.length
      { c with
        decoder := c.decoder.feed (piece.drop needed)
        phase := .trailer literal expected (taken ++ piece.take needed) }
  | .drain remaining gone =>
      let consumed := min remaining piece.length
      { c with
        decoder := c.decoder.feed (piece.drop consumed)
        phase := .drain (remaining - consumed) (gone ++ piece.take consumed) }
  | .command | .auth | .idle => { c with decoder := c.decoder.feed piece }
  | .closed => c

/-- What an event does to a connection. -/
def step (appendLimit : ℕ) (c : Conn) : Event → Conn
  | .read piece => c.read piece
  | .advance env => c.advance env appendLimit
  | .hangUp => c.close

/-- Events one after the other. -/
def run (appendLimit : ℕ) (c : Conn) (events : List Event) : Conn :=
  events.foldl (step appendLimit) c

end Conn

end Epistle.Imap
