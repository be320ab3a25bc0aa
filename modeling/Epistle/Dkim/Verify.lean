import Epistle.Dkim.Message
import Epistle.Dkim.Signature

/-!
# DKIM verification

Verification of the signatures of a message (`dkim/verify`, RFC 6376 section 6). What a signature
covers is put together by `prepare`, without the network; the key is then fetched and the signature
checked. The DNS answer, the key record and the digest are parameters (`Env`).
-/

namespace Epistle.Dkim

open Lib Lib.Text

/-- What became of a signature. -/
inductive DkimOutcome
  | pass
  | fail
  | permError
  | tempError
  | none
  deriving DecidableEq, Repr

/-- The outcome of a signature, and the domain it is of. -/
structure DkimResult where
  outcome : DkimOutcome
  domain : Option (List Char)
  deriving DecidableEq, Repr

/-- The most signatures of a message that are looked at. -/
def maxSignatures : ℕ := 10

/-- A usable key record: which identities it accepts, and what it verifies. -/
structure Key where
  acceptsIdentity : Option (List Char) → List Char → Bool
  verify : List UInt8 → List UInt8 → Bool

/-- What a verification takes from outside. -/
structure Env where
  sha256 : List UInt8 → List UInt8
  /-- The time, in UNIX seconds. -/
  now : ℕ
  txt : List Char → Option (List (List Char))
  /-- The record among them that fits the algorithm. -/
  select : List (List Char) → Algorithm → Option Key

/-- The positions of the headers, by lowercased name, in the order the headers appear. -/
structure HeaderIndex where
  positions : List Char → Option (List ℕ)

def HeaderIndex.push (index : HeaderIndex) (name : List Char) (position : ℕ) : HeaderIndex where
  positions n :=
    if n = name then some ((index.positions name).getD [] ++ [position]) else index.positions n

/-- The fields of a message by their names, the lowest last. -/
def HeaderIndex.build (message : Message) : HeaderIndex :=
  message.headers.zipIdx.foldl (fun index (header, position) =>
    index.push (toLower header.name) position) ⟨fun _ => none⟩

/-- A tag, without its value if it is the signature's. -/
def stripTag (tag : List Char) : List Char :=
  let trimmed := trimStart tag
  if ['b', '='] <+: trimmed ∨ ['b', ' ', '='] <+: trimmed then
    tag.take (tag.length - trimmed.length) ++ ['b', '=']
  else tag

/-- The value of a field, without its signature. -/
def stripBTag (value : List Char) : List Char :=
  [';'].intercalate ((value.splitOn ';').map stripTag)

def dropCrlf (line : List Char) : List Char :=
  if ['\r', '\n'] <:+ line then line.dropLast.dropLast else line

/-- A field as it enters the digest. -/
def Header.hashLine (canon : Canon) (header : Header) (value : List Char) : List Char :=
  canon.header
    (match canon with
      | .simple => header.rawName
      | .relaxed => header.name) value

/-- The signed headers so far: how many of each name are taken, and their text. -/
structure Taking where
  taken : List Char → ℕ
  input : List Char

def Taking.take (message : Message) (index : HeaderIndex) (canon : Canon) (st : Taking)
    (name : List Char) : Taking :=
  match index.positions name with
  | none => st
  | some positions =>
      if positions.length ≤ st.taken name then st
      else
        match positions[positions.length - 1 - st.taken name]? >>= (message.headers[·]?) with
        -- An indexed position is one of the message.
        | none => st
        | some header =>
            { taken := Function.update st.taken name (st.taken name + 1)
              input := st.input ++ header.hashLine canon header.value }

/-- The bytes a signature covers: the listed headers from the bottom up, then the DKIM-Signature
itself with `b=` emptied and without its CRLF. -/
def hashInput (message : Message) (index : HeaderIndex) (signature : Signature)
    (dkimHeader : Header) : List Char :=
  let canon := signature.headerCanon
  (signature.signedHeaders.foldl (Taking.take message index canon) ⟨fun _ => 0, []⟩).input ++
    dropCrlf (dkimHeader.hashLine canon (stripBTag dkimHeader.value))

/-- What is known of a signature before its key is fetched. -/
structure Prepared where
  signature : Signature
  canonicalBody : List UInt8
  hashInput : List Char

/-- A signature that is good so far, with the text that was signed. -/
def prepare (env : Env) (message : Message) (index : HeaderIndex)
    (signatureIndex : Fin message.headers.length) (signatureValue : List Char) :
    Except DkimResult Prepared :=
  match Signature.parse signatureValue with
  | .error _ => .error ⟨.permError, none⟩
  | .ok signature =>
      let domain := some signature.domain
      -- Every From instance must be covered.
      if ((index.positions "from".toList).any fun positions =>
          signature.signedHeaders.count "from".toList < positions.length) then
        .error ⟨.permError, domain⟩
      else if signature.expiration.any (· < env.now) then .error ⟨.fail, domain⟩
      else
        let canonicalBody := signature.bodyCanon.body message.body
        if signature.bodyLength.any (canonicalBody.length < ·) then .error ⟨.permError, domain⟩
        else if signature.bodyLength.any (· < canonicalBody.length) then .error ⟨.fail, domain⟩
        else if env.sha256 canonicalBody ≠ signature.bodyHash then .error ⟨.fail, domain⟩
        else
          .ok { signature, canonicalBody,
                hashInput :=
                  hashInput message index signature (message.headers.get signatureIndex) }

/-- The outcome of one signature. -/
def verifyOne (env : Env) (message : Message) (index : HeaderIndex)
    (signatureIndex : Fin message.headers.length) (signatureValue : List Char) : DkimResult :=
  match prepare env message index signatureIndex signatureValue with
  | .error result => result
  | .ok { signature, hashInput, .. } =>
      let domain := some signature.domain
      match env.txt (signature.selector ++ "._domainkey.".toList ++ signature.domain) with
      | none => ⟨.tempError, domain⟩
      | some texts =>
          match env.select texts signature.algorithm with
          | none => ⟨.permError, domain⟩
          | some key =>
              if key.acceptsIdentity signature.identity signature.domain then
                let signed := signature.algorithm.signedBytes env.sha256 (Utf8.encode hashInput)
                ⟨if key.verify signed signature.signature then .pass else .fail, domain⟩
              else ⟨.permError, domain⟩

/-- The outcomes of all signatures of a message. -/
def verifyMessage (env : Env) (raw : List UInt8) : List DkimResult :=
  match Message.split raw with
  | none => [⟨.permError, none⟩]
  | some message =>
      let signatures := (List.finRange message.headers.length).filter fun i =>
        eqIgnoreAsciiCase (message.headers.get i).name "DKIM-Signature".toList
      if signatures = [] then [⟨.none, none⟩]
      else if maxSignatures < signatures.length then [⟨.permError, none⟩]
      else
        let index := HeaderIndex.build message
        signatures.map fun i => verifyOne env message index i (message.headers.get i).value

end Epistle.Dkim
