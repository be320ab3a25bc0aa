import Epistle.Lib.Octets
import Epistle.Lib.Utf8

/-!
# Reserved names of an inbound message

`inbound_headers` compares the name of a field with the names the server keeps for itself, and reads
over the octets that some reader behind it may fold out of a name. The comparison walks both names
once and never goes back: a blank where the reserved name has a dash is taken for the dash, and a
dash that follows after all is then read over.

* `nameMatches_reserved`: every obfuscation of a reserved name is recognised, and nothing that has
  other letters.
-/

namespace Epistle.Smtp.InboundHeaders

open Lib.Octets List
open Lib.Utf8 (octetsOf)

/-! ## The comparison -/

def dash : UInt8 := 45

/-- Octets a reader may fold out of a name. -/
def isObfuscationByte (byte : UInt8) : Bool :=
  byte = 32 || byte = 9 || byte = 0x0c || byte = 0x0b || byte = 0x1f || byte = 0x7f

def align (lastFoldWasDash : Bool) : List UInt8 → List UInt8 → List UInt8 × List UInt8
  | nc :: name, rc :: reserved =>
      if lower nc = lower rc then align false name reserved
      else if rc = dash ∧ isObfuscationByte nc then align true name reserved
      -- the dash itself, behind a blank that was taken for it
      else if lastFoldWasDash ∧ nc = dash then align false name (rc :: reserved)
      else if isObfuscationByte nc then align lastFoldWasDash name (rc :: reserved)
      else (nc :: name, rc :: reserved)
  | name, reserved => (name, reserved)

/-- Whether a name is a reserved one, apart from obfuscation octets. -/
def nameMatches (name reserved : List UInt8) : Bool :=
  let (name, reserved) := align false name reserved
  reserved.isEmpty && name.all isObfuscationByte

def nameStartsWith (name lead : List UInt8) : Bool := (align false name lead).2.isEmpty

/-- The field whose value decides whether it is removed. -/
def authenticationResults : List UInt8 := octetsOf "Authentication-Results"

/-- The fields that are removed from a message. -/
def removedNames : List (List UInt8) :=
  ["Received-SPF", "Delivered-To", "Return-Path", "Epistle-Class", "X-Epistle"].map octetsOf

/-- The fields that only this server may set. -/
def reservedNames : List (List UInt8) := authenticationResults :: removedNames

/-! ## Obfuscation -/

/-- A name with the case of its letters changed and obfuscation octets put in anywhere. -/
inductive Obfuscates : List UInt8 → List UInt8 → Prop
  | nil : Obfuscates [] []
  | letter {n r : UInt8} {name reserved : List UInt8} (hcase : lower n = lower r)
      (rest : Obfuscates reserved name) : Obfuscates (r :: reserved) (n :: name)
  | insert {b : UInt8} {name reserved : List UInt8} (hbyte : isObfuscationByte b)
      (rest : Obfuscates reserved name) : Obfuscates reserved (b :: name)

/-- A name of letters and single dashes, none of them at its end. -/
def Separated : List UInt8 → Prop
  | [] => True
  | r :: reserved =>
      isObfuscationByte r = false ∧ (r = dash → reserved ≠ [] ∧ reserved.head? ≠ some dash) ∧
        Separated reserved

instance decidableSeparated : (reserved : List UInt8) → Decidable (Separated reserved)
  | [] => .isTrue trivial
  | _ :: reserved =>
      have := decidableSeparated reserved
      inferInstanceAs (Decidable (_ ∧ _ ∧ _))

lemma separated_of_mem_reservedNames : ∀ reserved ∈ reservedNames, Separated reserved := by
  decide

variable {b n r : UInt8} {name reserved : List UInt8}

lemma lower_eq_dash : lower b = dash ↔ b = dash := by
  have hdash : dash.toNat = 45 := rfl
  rw [← UInt8.toNat_inj, ← UInt8.toNat_inj, toNat_lower]
  split_ifs <;> omega

lemma not_isObfuscationByte_of_letter (hlow : 65 ≤ b.toNat) (hhigh : b.toNat ≤ 122) :
    isObfuscationByte b = false := by
  by_contra h
  simp only [isObfuscationByte, Bool.or_eq_true, decide_eq_true_iff, Bool.not_eq_false] at h
  rcases h with ((((rfl | rfl) | rfl) | rfl) | rfl) | rfl <;> revert hlow hhigh <;> decide

lemma isObfuscationByte_lower (b : UInt8) : isObfuscationByte (lower b) = isObfuscationByte b := by
  have hnat := toNat_lower b
  split_ifs at hnat with hletter
  · rw [not_isObfuscationByte_of_letter (b := lower b) (by omega) (by omega),
      not_isObfuscationByte_of_letter hletter.1 (by omega)]
  · rw [UInt8.toNat_inj.1 hnat]

lemma isObfuscationByte_congr (h : lower n = lower r) :
    isObfuscationByte n = isObfuscationByte r := by
  rw [← isObfuscationByte_lower n, h, isObfuscationByte_lower]

lemma dash_congr (h : lower n = lower r) : n = dash ↔ r = dash := by
  rw [← lower_eq_dash, h, lower_eq_dash]

lemma ne_dash_of_isObfuscationByte (h : isObfuscationByte b) : b ≠ dash := by
  rintro rfl
  exact absurd h (by decide)

def Reached (p : List UInt8 × List UInt8) : Prop := p.2 = [] ∧ ∀ b ∈ p.1, isObfuscationByte b

lemma Obfuscates.all_of_nil (h : Obfuscates [] name) : ∀ b ∈ name, isObfuscationByte b := by
  induction name with
  | nil => exact nofun
  | cons n name ih =>
    cases h with
    | insert hbyte rest => exact forall_mem_cons.2 ⟨hbyte, ih rest⟩

lemma align_of_obfuscates (name : List UInt8) :
    (∀ last reserved, Separated reserved → Obfuscates reserved name →
      Reached (align last name reserved)) ∧
    ∀ reserved, Separated (dash :: reserved) → Obfuscates (dash :: reserved) name →
      Reached (align true name reserved) := by
  induction name with
  | nil =>
    constructor
    · intro last reserved _ h
      cases h
      exact ⟨rfl, nofun⟩
    · intro reserved _ h
      cases h
  | cons n name ih =>
    constructor
    · intro last reserved hsep h
      cases reserved with
      | nil => exact ⟨rfl, h.all_of_nil⟩
      | cons r reserved =>
        cases h with
        | letter hcase rest =>
          rw [align, if_pos hcase]
          exact ih.1 false reserved hsep.2.2 rest
        | insert hbyte rest =>
          have hcase : lower n ≠ lower r := fun heq => by
            rw [isObfuscationByte_congr heq, hsep.1] at hbyte
            cases hbyte
          rw [align, if_neg hcase]
          by_cases hdash : r = dash
          · subst hdash
            rw [if_pos ⟨rfl, hbyte⟩]
            exact ih.2 reserved hsep rest
          · rw [if_neg (fun h => hdash h.1), if_neg fun h => ne_dash_of_isObfuscationByte hbyte h.2,
              if_pos hbyte]
            exact ih.1 last _ hsep rest
    · intro reserved hsep h
      obtain ⟨hne, hhead⟩ := hsep.2.1 rfl
      obtain ⟨r, reserved, rfl⟩ := exists_cons_of_ne_nil hne
      have hr : r ≠ dash := fun heq => hhead (congrArg some heq)
      cases h with
      | letter hcase rest =>
        -- the dash comes after all
        obtain rfl : n = dash := (dash_congr hcase).2 rfl
        have hcase' : lower dash ≠ lower r := fun heq => hr ((dash_congr heq).1 rfl)
        rw [align, if_neg hcase', if_neg (fun h => hr h.1), if_pos ⟨rfl, rfl⟩]
        exact ih.1 false _ hsep.2.2 rest
      | insert hbyte rest =>
        have hcase : lower n ≠ lower r := fun heq => by
          rw [isObfuscationByte_congr heq, hsep.2.2.1] at hbyte
          cases hbyte
        rw [align, if_neg hcase, if_neg (fun h => hr h.1),
          if_neg fun h => ne_dash_of_isObfuscationByte hbyte h.2, if_pos hbyte]
        exact ih.2 _ hsep rest

/-! ## Nothing else matches -/

def bare (name : List UInt8) : List UInt8 :=
  (name.filter fun b => !isObfuscationByte b && b ≠ dash).map lower

lemma bare_cons_of_obfuscation (h : isObfuscationByte b) (name : List UInt8) :
    bare (b :: name) = bare name := by
  simp [bare, h]

lemma bare_dash_cons (name : List UInt8) : bare (dash :: name) = bare name := by
  simp [bare]

lemma bare_eq_nil (h : ∀ b ∈ name, isObfuscationByte b) : bare name = [] := by
  rw [bare, map_eq_nil_iff, filter_eq_nil_iff]
  intro b hb
  simp [h b hb]

lemma exists_bare_cons (h : lower n = lower r) (name reserved : List UInt8) :
    ∃ p, bare (n :: name) = p ++ bare name ∧ bare (r :: reserved) = p ++ bare reserved := by
  have hobf := isObfuscationByte_congr h
  have hdash := dash_congr h
  refine ⟨bare [n], ?_, ?_⟩
  · rw [bare, bare, bare, ← map_append, ← filter_append, singleton_append]
  · unfold bare
    by_cases hr : r = dash
    · simp [hr, hdash.2 hr]
    · cases hobf' : isObfuscationByte r <;> simp [hr, hdash.not.2 hr, hobf, hobf', h]

lemma exists_bare_align (last : Bool) (name reserved : List UInt8) :
    ∃ p, bare name = p ++ bare (align last name reserved).1 ∧
      bare reserved = p ++ bare (align last name reserved).2 := by
  induction name generalizing last reserved with
  | nil => exact ⟨[], by simp [align]⟩
  | cons nc name ih =>
    cases reserved with
    | nil => exact ⟨[], by simp [align]⟩
    | cons rc reserved =>
      rw [align]
      split_ifs with hcase hfold hlate hbyte
      · obtain ⟨p, hname, hreserved⟩ := exists_bare_cons hcase name reserved
        obtain ⟨q, hname', hreserved'⟩ := ih false reserved
        exact ⟨p ++ q, by rw [hname, append_assoc, ← hname'],
          by rw [hreserved, append_assoc, ← hreserved']⟩
      · rw [bare_cons_of_obfuscation hfold.2, hfold.1, bare_dash_cons]
        exact ih true reserved
      · rw [hlate.2, bare_dash_cons]
        exact ih false (rc :: reserved)
      · rw [bare_cons_of_obfuscation hbyte]
        exact ih last (rc :: reserved)
      · exact ⟨[], rfl, rfl⟩

lemma nameMatches_iff : nameMatches name reserved ↔ Reached (align false name reserved) := by
  simp [nameMatches, Reached]

lemma bare_eq_of_nameMatches (h : nameMatches name reserved) : bare name = bare reserved := by
  obtain ⟨hend, hrest⟩ := nameMatches_iff.1 h
  obtain ⟨p, hname, hreserved⟩ := exists_bare_align false name reserved
  rw [hname, hreserved, hend, bare_eq_nil hrest]
  rfl

lemma bare_eq_filter_dash (h : Separated reserved) :
    bare reserved = (reserved.filter (· ≠ dash)).map lower := by
  induction reserved with
  | nil => rfl
  | cons r reserved ih =>
    by_cases hr : r = dash
    · rw [hr, bare_dash_cons, ih h.2.2, filter_cons_of_neg (by simp)]
    · rw [filter_cons_of_pos (by simpa using hr), map_cons, ← ih h.2.2, bare, bare,
        filter_cons_of_pos (by simpa using ⟨h.1, hr⟩), map_cons]

/-- **Obfuscated names are recognised.** However the letters of a reserved name are cased and
whatever obfuscation octets are put in, the name matches; a name that is left with other letters
once obfuscation octets and dashes are deleted does not. -/
theorem nameMatches_reserved {reserved : List UInt8} (h : reserved ∈ reservedNames)
    (name : List UInt8) :
    (Obfuscates reserved name → nameMatches name reserved = true) ∧
    (eqIgnoreCase (name.filter fun b => !isObfuscationByte b && b ≠ dash)
      (reserved.filter (· ≠ dash)) = false → nameMatches name reserved = false) := by
  have hsep := separated_of_mem_reservedNames reserved h
  constructor
  · exact fun hname => nameMatches_iff.2 ((align_of_obfuscates name).1 false reserved hsep hname)
  · intro hne
    by_contra hmatch
    have hbare := bare_eq_of_nameMatches (Bool.of_not_eq_false hmatch)
    rw [bare_eq_filter_dash hsep, bare] at hbare
    exact of_decide_eq_false hne hbare

/-- Blanks before, after and instead of the dash, and another name. -/
theorem nameMatches_reserved_deliveredTo :
    octetsOf "Delivered-To" ∈ reservedNames ∧
      nameMatches (octetsOf "deLivered \t-To ") (octetsOf "Delivered-To") = true ∧
      nameMatches (octetsOf "Delivered-From") (octetsOf "Delivered-To") = false := by
  have hmem : octetsOf "Delivered-To" ∈ reservedNames := by decide
  refine ⟨hmem, (nameMatches_reserved hmem _).1 ?_, (nameMatches_reserved hmem _).2 (by decide)⟩
  repeat first
    | exact .nil
    | refine .letter (by decide) ?_
    | refine .insert (by decide) ?_

end Epistle.Smtp.InboundHeaders
