import Epistle.Lib.Octets

/-!
# Messages at rest

`storage/crypto`: a message is sealed or written as it is, and read back by the magic in front.
Octets that are written as they are may begin with the magic themselves.

* `MessageCrypto.decode_encode_iff`: what is written is read back under every later configuration
  exactly if it is sealed or does not begin with the magic.
-/

namespace Epistle.Storage

open List

/-- An AEAD that opens what it sealed. Its tag has 16 octets. -/
structure Aead (Key : Type) where
  sealIn : Key → List UInt8 → List UInt8 → List UInt8 → Option (List UInt8)
  openIn : Key → List UInt8 → List UInt8 → List UInt8 → Option (List UInt8)
  openIn_sealIn : ∀ {key nonce aad plain buffer}, sealIn key nonce aad plain = some buffer →
    openIn key nonce aad buffer = some plain
  length_openIn : ∀ {key nonce aad buffer plain}, openIn key nonce aad buffer = some plain →
    buffer.length = plain.length + 16

/-- `EPENC1` and a NUL. -/
def magic : List UInt8 := [0x45, 0x50, 0x45, 0x4e, 0x43, 0x31, 0]

/-- The length of a nonce. -/
def nonceLen : ℕ := 12

/-- By how much a sealed file is longer than its message. -/
def overhead : ℕ := magic.length + nonceLen + 16

/-- Why a stored file is not read. -/
inductive DecodeError
  | noKey | truncatedNonce | authentication

/-- The configuration: a key, if there is one, and whether new files are sealed. -/
structure MessageCrypto (Key : Type) where
  key : Option Key
  enabled : Bool

variable {Key : Type} (aead : Aead Key)

namespace MessageCrypto

/-- `nonce` is what the generator gives. -/
def encode (self : MessageCrypto Key) (nonce : List UInt8) (plaintext : List UInt8) :
    Option (List UInt8) :=
  match self.key.filter fun _ => self.enabled with
  | none => some plaintext
  | some key => (aead.sealIn key nonce [] plaintext).map (magic ++ nonce ++ ·)

/-- The message of a stored file: one without the magic is stored as it is. -/
def decode (self : MessageCrypto Key) (stored : List UInt8) : Except DecodeError (List UInt8) :=
  if ¬ magic <+: stored then .ok stored
  else match self.key with
    | none => .error .noKey
    | some key =>
      let rest := stored.drop magic.length
      if rest.length < nonceLen then .error .truncatedNonce
      else match aead.openIn key (rest.take nonceLen) [] (rest.drop nonceLen) with
        | none => .error .authentication
        | some plaintext => .ok plaintext

/-- The length of the plaintext of a file with these octets. -/
def storedPlaintextLen (self : MessageCrypto Key) (stored : List UInt8) : ℕ :=
  if self.key.isNone then stored.length
  else if stored.length < overhead ∨ ¬ magic <+: stored then stored.length
  else stored.length - overhead

/-- A later configuration has the key of an earlier one. -/
def Kept (self later : MessageCrypto Key) : Prop := ∀ key ∈ self.key, later.key = some key

/-- Writes are sealed. -/
def seals (self : MessageCrypto Key) : Bool := self.enabled && self.key.isSome

variable {aead} {self later : MessageCrypto Key} {nonce plaintext stored : List UInt8}

/-- A sealed message is opened with its key. -/
lemma decode_sealed (h : self.seals = true) (hlater : self.Kept later)
    (hnonce : nonce.length = nonceLen) (hstored : self.encode aead nonce plaintext = some stored) :
    later.decode aead stored = .ok plaintext ∧
      later.storedPlaintextLen stored = plaintext.length := by
  obtain ⟨henabled, hkey⟩ := Bool.and_eq_true_iff.1 h
  obtain ⟨key, hkey⟩ := Option.isSome_iff_exists.1 hkey
  have hkey' := hlater key hkey
  simp only [encode, hkey, henabled, Option.filter_some, if_true] at hstored
  obtain ⟨buffer, hseal, rfl⟩ := Option.map_eq_some_iff.1 hstored
  have hopen := aead.openIn_sealIn hseal
  have hlength := aead.length_openIn hopen
  constructor
  · simp [decode, hkey', ← hnonce, hopen]
  · have hlong : (magic ++ nonce ++ buffer).length = plaintext.length + overhead := by
      simp only [length_append, hnonce, hlength, overhead]
      omega
    rw [storedPlaintextLen, hkey', hlong]
    simp

/-- What begins with the magic is not read back as it is. -/
lemma decode_ne_self (h : magic <+: plaintext) : later.decode aead plaintext ≠ .ok plaintext := by
  rw [decode, if_neg (not_not.2 h)]
  cases later.key with
  | none => nofun
  | some key =>
    dsimp only
    split_ifs with hshort
    · nofun
    cases hopen : aead.openIn key ((plaintext.drop magic.length).take nonceLen) []
      ((plaintext.drop magic.length).drop nonceLen) with
    | none => nofun
    | some plain =>
      -- The opened text is shorter than what it was opened from.
      intro heq
      cases heq
      have hlength := aead.length_openIn hopen
      simp only [length_drop] at hlength
      omega

/-- A message that `encode` wrote is read back under its configuration and every later one, with
its length, exactly if it is sealed or does not begin with the magic. -/
theorem decode_encode_iff (aead : Aead Key) (self : MessageCrypto Key)
    (configurations : List (MessageCrypto Key)) (nonce plaintext stored : List UInt8)
    (hkept : (self :: configurations).Pairwise Kept) (hnonce : nonce.length = nonceLen)
    (hstored : self.encode aead nonce plaintext = some stored) :
    (∀ later ∈ self :: configurations, later.decode aead stored = .ok plaintext ∧
      later.storedPlaintextLen stored = plaintext.length) ↔
    self.seals = true ∨ ¬ magic <+: plaintext := by
  have hlater : ∀ later ∈ self :: configurations, self.Kept later :=
    forall_mem_cons.2 ⟨fun _ h => h, (pairwise_cons.1 hkept).1⟩
  by_cases hseals : self.seals = true
  · exact iff_of_true (fun later h => decode_sealed hseals (hlater later h) hnonce hstored)
      (.inl hseals)
  -- The octets are written as they are.
  have hself : stored = plaintext := by
    cases hkey : self.key <;> cases henabled : self.enabled <;>
      simp_all [encode, seals, Option.filter]
  subst hself
  constructor
  · exact fun h => .inr fun hmagic => decode_ne_self hmagic (h self mem_cons_self).1
  · rintro (h | h) later -
    · exact absurd h hseals
    · simp [decode, storedPlaintextLen, h]

/-- An AEAD that adds a tag and nothing else. -/
def tagged : Aead Unit where
  sealIn _ _ _ plain := some (plain ++ replicate 16 0)
  openIn _ _ _ buffer :=
    if buffer.length < 16 then none else some (buffer.take (buffer.length - 16))
  openIn_sealIn h := by
    obtain rfl := Option.some.inj h
    simp
  length_openIn h := by
    split_ifs at h
    obtain rfl := Option.some.inj h
    rw [length_take]
    omega

/-- A message that begins with the magic is sealed, and read back after encryption is turned
off. -/
theorem decode_encode_iff_sealed :
    let on : MessageCrypto Unit := ⟨some (), true⟩
    let off : MessageCrypto Unit := ⟨some (), false⟩
    let stored := magic ++ replicate 12 7 ++ (magic ++ [1] ++ replicate 16 0)
    on.Kept off ∧ on.encode tagged (replicate 12 7) (magic ++ [1]) = some stored ∧
      off.decode tagged stored = .ok (magic ++ [1]) ∧ off.storedPlaintextLen stored = 8 := by
  intro on off stored
  have hkept : on.Kept off := fun _ h => h
  have hstored : on.encode tagged (replicate 12 7) (magic ++ [1]) = some stored := rfl
  obtain ⟨hdecode, hlength⟩ := (decode_encode_iff tagged on [off] (replicate 12 7) (magic ++ [1])
    stored (by simpa using hkept) rfl hstored).2 (.inl rfl) off (by simp)
  exact ⟨hkept, hstored, hdecode, hlength⟩

/-- A message that is the magic, written and read without a key. -/
theorem decode_encode_magic :
    let off : MessageCrypto Unit := ⟨none, false⟩
    off.encode tagged (replicate 12 0) magic = some magic ∧
      off.decode tagged magic = .error .noKey := by
  constructor <;> rfl

end MessageCrypto

end Epistle.Storage
