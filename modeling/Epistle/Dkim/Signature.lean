import Epistle.Dkim.Canon
import Epistle.Lib.Base64

/-!
# DKIM-Signature fields

The tag list of a `DKIM-Signature` field (`dkim/signature`, RFC 6376 section 3.5). A tag that is
given twice makes the whole list invalid.
-/

namespace Epistle.Dkim

open Lib Lib.Text

/-- The signature schemes. -/
inductive Algorithm
  | rsaSha256
  | ed25519Sha256
  deriving DecidableEq, Repr

/-- What is signed: the text, or its digest. -/
def Algorithm.signedBytes (algorithm : Algorithm) (sha256 : List UInt8 → List UInt8)
    (input : List UInt8) : List UInt8 :=
  match algorithm with
  | .rsaSha256 => input
  | .ed25519Sha256 => sha256 input

/-- A parsed DKIM-Signature header. -/
structure Signature where
  algorithm : Algorithm
  domain : List Char
  selector : List Char
  signedHeaders : List (List Char)
  bodyHash : List UInt8
  signature : List UInt8
  headerCanon : Canon
  bodyCanon : Canon
  bodyLength : Option ℕ
  expiration : Option ℕ
  identity : Option (List Char)
  deriving DecidableEq, Repr

/-- Why a signature header could not be used. -/
structure SignatureError where
  why : List Char
  deriving DecidableEq, Repr

/-- The most tags of a signature field. -/
def maxTags : ℕ := 64

/-- The most names a signature may list. -/
def maxSignedHeaderNames : ℕ := 256

/-- What the tags of a field have set so far. -/
structure Tags where
  version : Option (List Char) := none
  algorithm : Option Algorithm := none
  domain : Option (List Char) := none
  selector : Option (List Char) := none
  signedHeaders : Option (List (List Char)) := none
  bodyHash : Option (List UInt8) := none
  signature : Option (List UInt8) := none
  headerCanon : Canon := .simple
  bodyCanon : Canon := .simple
  bodyLength : Option ℕ := none
  expiration : Option ℕ := none
  identity : Option (List Char) := none
  seen : List (List Char) := []

def parseCanon (text : List Char) : Except SignatureError Canon :=
  if text = "simple".toList then .ok .simple
  else if text = "relaxed".toList then .ok .relaxed
  else .error ⟨"unknown canonicalization ".toList ++ text⟩

def decodeBase64 (text tag : List Char) : Except SignatureError (List UInt8) :=
  match Base64.decode text with
  | some octets => .ok octets
  | none => .error ⟨"invalid base64 in ".toList ++ tag ++ "= tag".toList⟩

/-- The names of a list. -/
def parseNames (value : List Char) : Except SignatureError (List (List Char)) :=
  let names := value.splitOn ':'
  if maxSignedHeaderNames < names.length then
    .error ⟨"h= lists more than 256 header names".toList⟩
  else .ok (names.map toLower)

def parseAlgorithm (value : List Char) : Except SignatureError Algorithm :=
  if value = "rsa-sha256".toList then .ok .rsaSha256
  else if value = "ed25519-sha256".toList then .ok .ed25519Sha256
  else .error ⟨"unsupported algorithm ".toList ++ value⟩

def parseNumber (tag value : List Char) : Except SignatureError ℕ :=
  match parseUnsigned (2 ^ 64) value with
  | some n => .ok n
  | none => .error ⟨"invalid ".toList ++ tag ++ "= tag".toList⟩

def parseCanons (value : List Char) : Except SignatureError (Canon × Canon) := do
  let (header, body) := (splitOnce '/' value).getD (value, "simple".toList)
  let headerCanon ← parseCanon header
  let bodyCanon ← parseCanon body
  return (headerCanon, bodyCanon)

/-- Read the identity of a signature. -/
def parseIdentity (value : List Char) : Except SignatureError (List Char) :=
  match rsplitOnce '@' value with
  | none => .error ⟨"invalid i= tag".toList⟩
  | some (_, domain) => if domain = [] then .error ⟨"invalid i= tag".toList⟩ else .ok value

/-- The tags a verifier knows. -/
inductive TagName
  | v | a | d | s | h | bh | b | c | l | x | i
  | unknown
  deriving DecidableEq, Repr

def TagName.ofText : List Char → TagName
  | ['v'] => .v
  | ['a'] => .a
  | ['d'] => .d
  | ['s'] => .s
  | ['h'] => .h
  | ['b', 'h'] => .bh
  | ['b'] => .b
  | ['c'] => .c
  | ['l'] => .l
  | ['x'] => .x
  | ['i'] => .i
  | _ => .unknown

/-- Set what a tag says. -/
def Tags.set (tags : Tags) (value : List Char) : TagName → Except SignatureError Tags
  | .v => .ok { tags with version := some value }
  | .a => do
      let algorithm ← parseAlgorithm value
      return { tags with algorithm := some algorithm }
  | .d => .ok { tags with domain := some (toLower value) }
  | .s => .ok { tags with selector := some (toLower value) }
  | .h => do
      let names ← parseNames value
      return { tags with signedHeaders := some names }
  | .bh => do
      let octets ← decodeBase64 value ['b', 'h']
      return { tags with bodyHash := some octets }
  | .b => do
      let octets ← decodeBase64 value ['b']
      return { tags with signature := some octets }
  | .c => do
      let canons ← parseCanons value
      return { tags with headerCanon := canons.1, bodyCanon := canons.2 }
  | .l => do
      let length ← parseNumber ['l'] value
      return { tags with bodyLength := some length }
  | .x => do
      let expiration ← parseNumber ['x'] value
      return { tags with expiration := some expiration }
  | .i => do
      let identity ← parseIdentity value
      return { tags with identity := some identity }
  | .unknown => .ok tags

/-- Read one tag. -/
def Tags.read (tags : Tags) (tag : List Char) : Except SignatureError Tags :=
  let tag := trim tag
  if tag = [] then .ok tags
  else
    match splitOnce '=' tag with
    | none => .error ⟨"malformed tag \"".toList ++ tag ++ ['"']⟩
    | some (name, value) =>
        let name := trim name
        if name ∈ tags.seen then .error ⟨"repeated tag \"".toList ++ name ++ ['"']⟩
        else if maxTags ≤ tags.seen.length then .error ⟨"too many tags".toList⟩
        else Tags.set { tags with seen := tags.seen ++ [name] } (compact value) (.ofText name)

/-- A tag that must be there. -/
def required {α : Type} (why : List Char) : Option α → Except SignatureError α
  | some a => .ok a
  | none => .error ⟨why⟩

/-- A signature, if all the tags it needs were there. -/
def Tags.finish (tags : Tags) : Except SignatureError Signature := do
  if tags.version ≠ some ['1'] then .error ⟨"v= must be 1".toList⟩
  else
    let signedHeaders ← required "missing h= tag".toList tags.signedHeaders
    -- The From header must be signed.
    if "from".toList ∉ signedHeaders then .error ⟨"h= does not cover From".toList⟩
    else
      let algorithm ← required "missing a= tag".toList tags.algorithm
      let domain ← required "missing d= tag".toList tags.domain
      let selector ← required "missing s= tag".toList tags.selector
      let bodyHash ← required "missing bh= tag".toList tags.bodyHash
      let signature ← required "missing b= tag".toList tags.signature
      return { algorithm, domain, selector, signedHeaders, bodyHash, signature,
               headerCanon := tags.headerCanon, bodyCanon := tags.bodyCanon,
               bodyLength := tags.bodyLength, expiration := tags.expiration,
               identity := tags.identity }

/-- Read the value of a signature field. -/
def Signature.parse (value : List Char) : Except SignatureError Signature := do
  let tags ← (value.splitOn ';').foldlM Tags.read {}
  tags.finish

end Epistle.Dkim
