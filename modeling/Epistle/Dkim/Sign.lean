import Epistle.Dkim.Message
import Epistle.Dkim.Signature

/-!
# DKIM signing

The fields a signer puts in front of a message (`dkim/sign`, RFC 6376 section 5). The signer splits
the message on its own, walks its fields from the bottom up and writes the signature field folded
(`dkim/sign/wire`). What a key does is a parameter of the signer; what each signature covers is kept
beside the field that carries it (`Signed`).
-/

namespace Epistle.Dkim

open Lib Lib.Text Lib.Lines Util.HeaderBlock

/-- The fields that are signed where a message has them. -/
def signedHeaders : List (List Char) :=
  ["from", "to", "cc", "subject", "date", "message-id", "reply-to", "sender", "mime-version",
    "content-type", "content-transfer-encoding", "references", "in-reply-to", "list-id",
    "list-unsubscribe", "list-unsubscribe-post", "list-help", "list-post", "list-owner",
    "list-archive", "feedback-id", "disposition-notification-to", "return-receipt-to",
    "auto-submitted", "organization", "x-epistle"].map String.toList

/-- The fields that are listed once more, so that none can be added. -/
def oversignedHeaders : List (List Char) :=
  ["from", "to", "cc", "subject", "reply-to", "date", "message-id", "list-unsubscribe",
    "list-unsubscribe-post", "content-type", "disposition-notification-to", "return-receipt-to",
    "auto-submitted"].map String.toList

/-! ## Splitting the message -/

/-- The texts of the fields of a header block from a line on, given that of the field being
read. -/
def fieldTexts (current : Option (List Char)) : List (List Char) → List (List Char)
  | [] => current.toList
  | line :: rest =>
      -- A continuation line with no field above it is passed over.
      if continues (content line) then fieldTexts (current.map (· ++ line)) rest
      else current.toList ++ fieldTexts (if content line = [] then none else some line) rest

def headerPair (text : List Char) : Option (List Char × List Char) := do
  let (name, value) ← splitOnce ':' (chomp '\r' '\n' text)
  return (trimEnd name, value)

/-- The header fields and the body that are signed. -/
def splitMessage (raw : List UInt8) : Option (List (List Char × List Char) × List UInt8) := do
  let (rawBlock, body) := splitAtBlankLine raw
  let block ← Utf8.decode rawBlock
  let headers ← (fieldTexts none (splitInclusive '\n' block)).mapM headerPair
  return (headers, body)

/-- Whether a name can stand in a list of names. -/
def isSafeHeaderName (name : List Char) : Bool :=
  name ≠ [] && name.all fun c => 33 ≤ c.toNat && c.toNat ≤ 126 && c ≠ ':' && c ≠ ';'

def unsafeResentName (rawLine : List UInt8) : Option (List Char) := do
  if rawLine.head?.all fun byte => byte = 32 || byte = 9 then none
  else
    let line ← Utf8.decode rawLine
    let (rawName, _) ← splitOnce ':' line
    let trimmed := toLower (trimEnd rawName)
    if !isSafeHeaderName rawName && "resent-".toList.isPrefixOf trimmed then some trimmed else none

/-- The names of resent fields that cannot be listed. -/
def collectUnsafeResentNames (raw : List UInt8) : List (List Char) :=
  ((splitAtBlankLine raw).1.splitOnP fun byte => byte = cr || byte = lf).filterMap unsafeResentName

/-! ## The signature field -/

namespace Wire

def len (s : List Char) : ℕ := (s.map Char.utf8Size).sum

/-- A value that is being written, and the column it has reached. -/
structure Value where
  text : List Char
  column : ℕ

def fieldName : List Char := "DKIM-Signature:".toList

def Value.push (value : Value) (token : List Char) (space : Bool) : Option Value :=
  let value : Value :=
    if 78 < value.column + space.toNat + len token then ⟨value.text ++ ['\r', '\n', '\t'], 1⟩
    else if space then ⟨value.text ++ [' '], value.column + 1⟩
    else value
  if 998 < value.column + len token then none
  else some ⟨value.text ++ token, value.column + len token⟩

def Value.pushAll (value : Value) (tokens : List (List Char)) (space : Bool) : Option Value :=
  tokens.foldlM (fun value token => value.push token space) value

def nameTokens : List (List Char) → List (List Char)
  | [] => []
  | [name] => [name ++ [';']]
  | name :: rest => (name ++ [':']) :: nameTokens rest

/-- The field with an empty signature. -/
def unsigned (algorithm selector domain names bodyHash : List Char) : Option (List Char) := do
  let tags := ["v=1;".toList, "a=".toList ++ algorithm ++ [';'], "c=relaxed/relaxed;".toList,
    "d=".toList ++ domain ++ [';'], "s=".toList ++ selector ++ [';'], "h=".toList]
  let value ← Value.pushAll ⟨[], len fieldName⟩ tags true
  let value ← value.pushAll (nameTokens (names.splitOn ':')) false
  let value ← value.push ("bh=".toList ++ bodyHash ++ [';']) true
  let value ← value.push "b=".toList true
  return value.text

def lastLine : List Char → Option (List Char)
  | [] => none
  | c :: s =>
      match lastLine s with
      | some line => some line
      | none => if ['\r', '\n'] <+: c :: s then some (s.drop 1) else none

/-- A signature in pieces that fit a line. -/
def chunks (n : ℕ) : ℕ → List Char → List (List Char)
  | _, [] => []
  | 0, _ => []
  | fuel + 1, s => s.take n :: chunks n fuel (s.drop n)

/-- The field with its signature, folded. -/
def finish (value signature : List Char) : Option (List Char) := do
  let column := match lastLine value with
    | some line => len line
    | none => len fieldName + len value
  let value ← Value.pushAll ⟨value, column⟩ (chunks 64 signature.length signature) false
  return fieldName ++ value.text ++ ['\r', '\n']

end Wire

structure RsaSigner where
  selector : List Char
  key : List UInt8 → Option (List UInt8)

/-- The keys of a domain. -/
structure Signer where
  selector : List Char
  key : List UInt8 → List UInt8
  rsa : Option RsaSigner

structure Signed where
  field : List Char
  input : List Char
  deriving DecidableEq, Repr

/-- The field that one key adds. -/
def oneSignature (algorithm selector domain names bodyHash headerInput : List Char)
    (sign : List UInt8 → Option (List UInt8)) : Option Signed := do
  let value ← Wire.unsigned algorithm selector domain names bodyHash
  let dkimLine := Canon.relaxed.header "DKIM-Signature".toList value
  let input := headerInput ++ dkimLine.dropLast.dropLast
  let signature ← sign (Utf8.encode input)
  let field ← Wire.finish value (Base64.encode signature)
  return { field, input }

/-- What is signed of a message: the names listed, the body in its canonical form and the text
of the headers. -/
structure Covered where
  names : List (List Char)
  canonicalBody : List UInt8
  headerInput : List Char

lemma lawfulBEq_text : LawfulBEq (List Char) := inferInstance

attribute [local instance] lawfulBEq_text

/-- Whether a field is signed. -/
def isCovered (unsafeResent : List (List Char)) (name : List Char) : Bool :=
  name ∈ signedHeaders ||
    ("resent-".toList.isPrefixOf name && isSafeHeaderName name && name ∉ unsafeResent)

/-- What is signed of a message, if it has one `From` field. -/
def cover (raw : List UInt8) : Option Covered := do
  let (headers, body) ← splitMessage raw
  -- The single From field that the send-as check and DMARC use.
  if headers.countP (fun (name, _) => eqIgnoreAsciiCase name "from".toList) ≠ 1 then none
  else
    let unsafeResent := collectUnsafeResentNames raw
    let covered := headers.reverse.filter fun (name, _) => isCovered unsafeResent (toLower name)
    return {
      -- Absent instances contribute no bytes, but prevent later additions.
      names := covered.map (fun (name, _) => toLower name) ++ oversignedHeaders
      canonicalBody := Canon.relaxed.body body
      headerInput := covered.flatMap fun (name, value) => Canon.relaxed.header name value }

/-- The fields of all keys of a domain. -/
def Signer.signatures (sha256 : List UInt8 → List UInt8) (signer : Signer) (domain : List Char)
    (raw : List UInt8) : Option (List Signed) := do
  let covered ← cover raw
  let names := [':'].intercalate covered.names
  let bodyHash := Base64.encode (sha256 covered.canonicalBody)
  let first ← oneSignature "ed25519-sha256".toList signer.selector domain names bodyHash
    covered.headerInput fun input =>
      some (signer.key (Algorithm.ed25519Sha256.signedBytes sha256 input))
  -- An RSA signature that cannot be made is left out.
  let second := do
    let rsa ← signer.rsa
    oneSignature "rsa-sha256".toList rsa.selector domain names bodyHash covered.headerInput rsa.key
  return first :: second.toList

/-- A message with the fields of all keys in front. -/
def Signer.sign (sha256 : List UInt8 → List UInt8) (signer : Signer) (domain : List Char)
    (raw : List UInt8) : Option (List Char) :=
  (signer.signatures sha256 domain raw).map fun all => all.flatMap Signed.field

end Epistle.Dkim
