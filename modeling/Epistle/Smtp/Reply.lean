import Epistle.Smtp.Line

/-!
# Server replies

`smtp/reply/mod.rs` and the replies to framing errors of `smtp/trace/mod.rs`.
-/

namespace Epistle.Smtp

/-- A three-digit code and one or more text lines. -/
structure Reply where
  code : ℕ
  lines : List String
  deriving DecidableEq, Repr

namespace Reply

def single (code : ℕ) (text : String) : Reply := ⟨code, [text]⟩

def ok : Reply := single 250 "2.0.0 ok"
def closing : Reply := single 221 "2.0.0 closing connection"
def syntaxError : Reply := single 500 "5.5.2 syntax error"
def invalidArguments : Reply := single 501 "5.5.4 invalid arguments"
def badSequence : Reply := single 503 "5.5.1 bad sequence of commands"
def vrfyNotDisclosed : Reply := single 252 "2.1.5 cannot verify, send some mail and find out"
def startMailInput : Reply := single 354 "start mail input, end with <CRLF>.<CRLF>"

def tooLarge : Reply := single 552 "5.3.4 message exceeds maximum size"

def budgetRefusal : Reply := single 452 "4.3.1 insufficient system resources; try again later"

def rateLimited : Reply := single 450 "4.7.1 sending rate limit exceeded; retry later"

lemma badSequence_ne_ok : badSequence ≠ ok := by decide

end Reply

/-- What a client is told of a bad line. -/
def lineErrorReply : LineError → Reply
  | .bareControlCharacter =>
      .single 554 "5.5.2 bare CR or LF is not allowed, closing connection"
  | .tooLong => .single 500 "5.5.2 line too long, closing connection"
  | .nulByte => .single 554 "5.5.2 NUL byte received, closing connection"

end Epistle.Smtp
