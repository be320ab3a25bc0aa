import Epistle.Evidence.Der

/-!
# The certificates of a timestamp token

The loop of `evidence/tsa/token` over a set of certificates, of which eight may be given.

* `certificates_iff`: which sets are read, and as what.
-/

namespace Epistle.Evidence.Token

open Der List

/-- Why a token is refused. -/
inductive TokenError
  | der (e : DerError)
  | unexpected (tag : UInt8)
  | tooManyCertificates

/-- The next element, which must have this tag, and what is behind it. -/
def expect (tag : UInt8) (rest : List UInt8) : Except TokenError (Tlv × List UInt8) := do
  let (tlv, rest) ← (readTlv rest).mapError .der
  if tlv.tag = tag then return (tlv, rest) else throw (.unexpected tlv.tag)

def sequenceTag : UInt8 := 0x30

/-- The most certificates of a token. -/
def maxCertificates : ℕ := 8

/-- The loop, with the room that is left. -/
def takeCertificates : ℕ → List UInt8 → Except TokenError (List (List UInt8))
  | _, [] => .ok []
  | 0, _ :: _ => .error .tooManyCertificates
  | room + 1, items => do
    let (tlv, rest) ← expect sequenceTag items
    return tlv.raw :: (← takeCertificates room rest)

/-- The certificates that a token carries. -/
def certificates : List UInt8 → Except TokenError (List (List UInt8)) :=
  takeCertificates maxCertificates

lemma expect_iff {tag : UInt8} {items after : List UInt8} {e : Tlv} :
    expect tag items = .ok (e, after) ↔ readTlv items = .ok (e, after) ∧ e.tag = tag := by
  unfold expect
  cases readTlv items with
  | error err => simp [Except.mapError, bind, Except.bind]
  | ok p =>
    obtain ⟨e', after'⟩ := p
    simp only [Except.mapError, bind, Except.bind, Except.ok.injEq]
    split_ifs
    · simp only [pure, Except.pure]
      grind
    · grind

lemma takeCertificates_iff (room : ℕ) (items : List UInt8) (raws : List (List UInt8)) :
    takeCertificates room items = .ok raws ↔
      raws.length ≤ room ∧ items = raws.flatten ∧
        ∀ raw ∈ raws, ∃ content, content.length < 2 ^ 32 ∧ raw = encode sequenceTag content := by
  constructor
  · intro h
    fun_induction takeCertificates room items generalizing raws with
    | case1 => cases h; simp
    | case2 => cases h
    | case3 room items _ ih =>
      cases hnext : expect sequenceTag items with
      | error => simp [hnext, bind, Except.bind] at h
      | ok p =>
        obtain ⟨e, rest⟩ := p
        simp only [hnext, bind, Except.bind] at h
        cases hrest : takeCertificates room rest with
        | error => simp [hrest] at h
        | ok later =>
          simp only [hrest] at h
          cases h
          obtain ⟨hread, htag⟩ := expect_iff.1 hnext
          obtain ⟨hlength, hraw, rfl⟩ := spec_of_readTlv hread
          obtain ⟨hroom, rfl, hlater⟩ := ih _ _ hrest
          exact ⟨Nat.succ_le_succ hroom, rfl,
            forall_mem_cons.2 ⟨⟨e.value, hlength, htag ▸ hraw⟩, hlater⟩⟩
  · rintro ⟨hroom, rfl, hraws⟩
    induction raws generalizing room with
    | nil => cases room <;> rfl
    | cons raw raws ih =>
      obtain ⟨⟨content, hlength, rfl⟩, hlater⟩ := forall_mem_cons.1 hraws
      obtain _ | room := room
      · cases hroom
      have hexpect : expect sequenceTag (encode sequenceTag content ++ raws.flatten) =
          .ok (⟨sequenceTag, content, encode sequenceTag content⟩, raws.flatten) :=
        expect_iff.2 ⟨readTlv_encode (by decide) hlength _, rfl⟩
      have hrest := ih room (Nat.le_of_succ_le_succ hroom) hlater
      change takeCertificates (room + 1) (sequenceTag :: _) = _
      rw [takeCertificates]
      · change (expect sequenceTag (encode sequenceTag content ++ raws.flatten) >>= _) = _
        simp [hexpect, hrest, bind, Except.bind, pure, Except.pure]
      · exact nofun

/-- The certificates are read exactly from at most eight sequences one behind the other, and each
is given as it stands there. -/
theorem certificates_iff (items : List UInt8) (raws : List (List UInt8)) :
    certificates items = .ok raws ↔
      raws.length ≤ 8 ∧ items = raws.flatten ∧
        ∀ raw ∈ raws, ∃ content, content.length < 2 ^ 32 ∧ raw = encode sequenceTag content :=
  takeCertificates_iff maxCertificates items raws

end Epistle.Evidence.Token
