import Epistle.Lib.Text
import Epistle.Lib.Fallible

/-!
# SPF records

The parser of `v=spf1` records (`spf/record`). A record is a list of terms. A term is a modifier, of
which only `redirect` is acted on, or a directive: a mechanism with a qualifier.

The parser takes every term with an equals sign in it for a modifier, while an equals sign is also a
delimiter of macros in the domain of a mechanism. What the parser keeps is therefore stated against
the names a modifier can have.

* `parse_keeps_every_term_iff`: no term is lost exactly if every equals sign stands behind a
  modifier's name.
-/

namespace Epistle.Spf

open Lib Lib.Text List

/-! ## The parser -/

/-- What a match of a mechanism means. -/
inductive Qualifier
  | pass
  | fail
  | softFail
  | neutral
  deriving DecidableEq, Repr

/-- A mechanism, with prefix lengths where it has them. -/
inductive Mechanism
  | all
  | ip4 (network : BitVec 32) (length : Fin 33)
  | ip6 (network : BitVec 128) (length : Fin 129)
  | a (domain : Option (List Char)) (length4 : Fin 33) (length6 : Fin 129)
  | mx (domain : Option (List Char)) (length4 : Fin 33) (length6 : Fin 129)
  | include (domain : List Char)
  | exists (domain : List Char)
  | ptr (domain : Option (List Char))
  deriving DecidableEq, Repr

/-- A record: its directives and its redirect. -/
structure Record where
  directives : List (Qualifier × Mechanism)
  redirect : Option (List Char)
  deriving DecidableEq, Repr

def Record.default : Record := ⟨[], none⟩

/-- Why a record failed to parse. -/
structure RecordError where
  text : String
  deriving DecidableEq, Repr

/-- How the standard library reads addresses. -/
structure AddressParser where
  ipv4 : List Char → Option (BitVec 32)
  ipv6 : List Char → Option (BitVec 128)

def isAsciiWhitespace (c : Char) : Bool :=
  c = ' ' || c = '\t' || c = '\n' || c = '\x0c' || c = '\r'

/-- The terms of a text. -/
def splitAsciiWhitespace (text : List Char) : List (List Char) :=
  (text.splitOnP isAsciiWhitespace).filter (· ≠ [])

/-- The parts before and behind the first `//`. -/
def splitOnceSlashes : List Char → Option (List Char × List Char)
  | [] => none
  | '/' :: '/' :: s => some ([], s)
  | c :: s => (splitOnceSlashes s).map fun (a, b) => (c :: a, b)

/-- The length of a network. -/
def parsePrefixLength (text : List Char) (max : ℕ) : Except RecordError (Fin (max + 1)) :=
  match parseUnsigned 256 text with
  | none => .error ⟨"invalid prefix \"" ++ String.ofList text ++ "\""⟩
  | some length =>
      if h : length ≤ max then .ok ⟨length, Nat.lt_succ_of_le h⟩
      else .error ⟨"prefix /" ++ toString length ++ " exceeds /" ++ toString max⟩

def splitCidr (value : List Char) (max : ℕ) : Except RecordError (List Char × Fin (max + 1)) :=
  match splitOnce '/' value with
  | some (addr, length) => do return (addr, ← parsePrefixLength length max)
  | none => .ok (value, Fin.last max)

/-- The lengths of the networks of both versions. -/
def parseCidrs (cidr : List Char) : Except RecordError (Fin 33 × Fin 129) := do
  let (four, six) := match stripFirst '/' cidr with
    | some rest => ([], some rest)
    | none =>
        match splitOnceSlashes cidr with
        | some (four, six) => (four, some six)
        | none => (cidr, none)
  let length4 ← if four ≠ [] then parsePrefixLength four 32 else pure (Fin.last 32)
  let length6 ← match six with
    | some six => parsePrefixLength six 128
    | none => pure (Fin.last 128)
  return (length4, length6)

def parseDomainSpec (tail : List Char) :
    Except RecordError (Option (List Char) × Fin 33 × Fin 129) := do
  let domainPart := tail.takeWhile (· ≠ '/')
  let cidrPart := tail.dropWhile (· ≠ '/')
  let domain := (stripFirst ':' domainPart).filter (· ≠ [])
  if domainPart ≠ [] ∧ domain = none then
    throw ⟨"malformed domain spec \"" ++ String.ofList tail ++ "\""⟩
  let lengths ← match cidrPart with
    | [] => pure (Fin.last 32, Fin.last 128)
    | _ :: cidr => parseCidrs cidr
  return (domain, lengths)

section Parse

variable (addresses : AddressParser)

/-- Read a mechanism. -/
def parseMechanism (body : List Char) : Except RecordError Mechanism :=
  let lower := toLower body
  if lower = "all".toList then .ok .all
  else if let some value := stripPrefix "ip4:".toList lower then do
    let (addr, length) ← splitCidr value 32
    match addresses.ipv4 addr with
    | some network => return .ip4 network length
    | none => throw ⟨"invalid ip4 address " ++ String.ofList addr⟩
  else if let some value := stripPrefix "ip6:".toList lower then do
    let (addr, length) ← splitCidr value 128
    match addresses.ipv6 addr with
    | some network => return .ip6 network length
    | none => throw ⟨"invalid ip6 address " ++ String.ofList addr⟩
  else if let some value := stripPrefix "include:".toList lower then
    if value = [] then .error ⟨"include without domain"⟩ else .ok (.include value)
  else if lower = "a".toList ∨ "a:".toList <+: lower ∨ "a/".toList <+: lower then do
    let (domain, length4, length6) ← parseDomainSpec (lower.drop 1)
    return .a domain length4 length6
  else if lower = "mx".toList ∨ "mx:".toList <+: lower ∨ "mx/".toList <+: lower then do
    let (domain, length4, length6) ← parseDomainSpec (lower.drop 2)
    return .mx domain length4 length6
  else if let some value := stripPrefix "exists:".toList lower then
    if value = [] then .error ⟨"exists without domain"⟩ else .ok (.exists value)
  else if lower = "ptr".toList ∨ "ptr:".toList <+: lower then
    .ok (.ptr ((stripPrefix "ptr:".toList lower).filter (· ≠ [])))
  else .error ⟨"unsupported mechanism \"" ++ String.ofList body ++ "\""⟩

/-- The qualifier in front of a mechanism. -/
def splitQualifier : List Char → Qualifier × List Char
  | '+' :: body => (.pass, body)
  | '-' :: body => (.fail, body)
  | '~' :: body => (.softFail, body)
  | '?' :: body => (.neutral, body)
  | term => (.pass, term)

/-- Read a directive. -/
def parseDirective (term : List Char) : Except RecordError (Qualifier × Mechanism) := do
  let (qualifier, body) := splitQualifier term
  return (qualifier, ← parseMechanism addresses body)

/-- Read a term into a record. -/
def parseTerm (record : Record) (term : List Char) : Except RecordError Record :=
  match splitOnce '=' term with
  | some (name, value) =>
      if eqIgnoreAsciiCase name "redirect".toList then
        if record.redirect.isSome then .error ⟨"duplicate redirect modifier"⟩
        else .ok { record with redirect := some (toLower value) }
      else .ok record
  | none => do
      let directive ← parseDirective addresses term
      return { record with directives := record.directives ++ [directive] }

def version : List Char := "v=spf1".toList

/-- Read a record. -/
def parse (text : List Char) : Except RecordError Record :=
  match splitAsciiWhitespace text with
  | [] => .error ⟨"missing v=spf1 version tag"⟩
  | first :: terms =>
      if first = version then terms.foldlM (parseTerm addresses) .default
      else .error ⟨"missing v=spf1 version tag"⟩

end Parse

/-! ## What the parser keeps -/

def isNameChar (c : Char) : Bool := c.isAlpha || c.isDigit || c = '-' || c = '_' || c = '.'

def isModifierName : List Char → Bool
  | [] => false
  | c :: name => c.isAlpha && name.all isNameChar

def isModifier (term : List Char) : Bool :=
  match splitOnce '=' term with
  | some (name, _) => isModifierName name
  | none => false

def termsOf (text : List Char) : List (List Char) := (splitAsciiWhitespace text).tail

lemma isModifier_iff {term : List Char} :
    isModifier term ↔ ∃ name value, term = name ++ '=' :: value ∧ isModifierName name := by
  unfold isModifier
  constructor
  · intro h
    split at h
    · rename_i name value hsplit
      exact ⟨name, value, (splitOnce_eq_some.1 hsplit).1, h⟩
    · cases h
  · rintro ⟨name, value, rfl, hname⟩
    -- a name has no equals sign, so the term is split behind it
    have hplain : '=' ∉ name := by
      intro hmem
      cases name with
      | nil => cases hmem
      | cons c name =>
        obtain ⟨hc, hrest⟩ := Bool.and_eq_true_iff.1 hname
        obtain rfl | hmem := mem_cons.1 hmem
        · exact absurd hc (by decide)
        · exact absurd (List.all_eq_true.1 hrest _ hmem) (by decide)
    rw [splitOnce_eq_some.2 ⟨rfl, hplain⟩]
    exact hname

lemma mem_of_isModifier {term : List Char} (h : isModifier term) : '=' ∈ term := by
  obtain ⟨name, value, rfl, -⟩ := isModifier_iff.1 h
  simp

section Keeps

variable (addresses : AddressParser)

def Directed (terms : List (List Char)) (directives : List (Qualifier × Mechanism)) : Prop :=
  List.Forall₂ (fun term directive => parseDirective addresses term = .ok directive) terms
    directives

def Record.Keeps (record : Record) (terms : List (List Char)) : Prop :=
  Directed addresses (terms.filter (!isModifier ·)) record.directives

variable {addresses}

variable {record : Record}

lemma directives_of_parseTerm {record' : Record} {term : List Char}
    (h : parseTerm addresses record term = .ok record') :
    ∃ directives, record'.directives = record.directives ++ directives ∧
      Directed addresses ([term].filter ('=' ∉ ·)) directives := by
  unfold parseTerm at h
  split at h
  · rename_i name value hsplit
    have hmem : '=' ∈ term := by
      rw [(splitOnce_eq_some.1 hsplit).1]
      simp
    have hfilter : [term].filter ('=' ∉ ·) = [] := by simp [hmem]
    rw [hfilter]
    refine ⟨[], ?_, .nil⟩
    split_ifs at h <;> cases h <;> simp
  · rename_i hsplit
    have hmem : '=' ∉ term := splitOnce_eq_none.1 hsplit
    have hfilter : [term].filter ('=' ∉ ·) = [term] := by simp [hmem]
    obtain ⟨directive, hdirective, heq⟩ := Fallible.bind_eq_ok.1 h
    cases heq
    rw [hfilter]
    exact ⟨[directive], rfl, .cons hdirective .nil⟩

lemma directives_of_foldlM {record' : Record} {terms : List (List Char)}
    (h : terms.foldlM (parseTerm addresses) record = .ok record') :
    ∃ directives, record'.directives = record.directives ++ directives ∧
      Directed addresses (terms.filter ('=' ∉ ·)) directives := by
  induction terms generalizing record with
  | nil =>
    cases h
    exact ⟨[], (append_nil _).symm, .nil⟩
  | cons term terms ih =>
    obtain ⟨middle, hfirst, hrest⟩ := Fallible.foldlM_cons_eq_ok h
    obtain ⟨ds, hds, hdirected⟩ := directives_of_parseTerm hfirst
    obtain ⟨ds', hds', hdirected'⟩ := ih hrest
    refine ⟨ds ++ ds', by rw [hds', hds, append_assoc], ?_⟩
    have hsplit : (term :: terms).filter ('=' ∉ ·) =
        [term].filter ('=' ∉ ·) ++ terms.filter ('=' ∉ ·) :=
      filter_append [term] terms
    rw [hsplit]
    exact rel_append hdirected hdirected'

lemma directives_of_parse {text : List Char} (h : parse addresses text = .ok record) :
    Directed addresses ((termsOf text).filter ('=' ∉ ·)) record.directives := by
  unfold parse at h
  unfold termsOf
  split at h
  · cases h
  · rename_i first terms hterms
    rw [hterms, tail_cons]
    split_ifs at h
    obtain ⟨directives, heq, hdirected⟩ := directives_of_foldlM h
    rw [heq]
    exact hdirected

lemma Record.keeps_iff {text : List Char} (h : parse addresses text = .ok record) :
    record.Keeps addresses (termsOf text) ↔ ∀ term ∈ termsOf text, '=' ∈ term →
      isModifier term := by
  have hdirected := directives_of_parse h
  constructor
  · intro hkeeps term hterm hmem
    -- as many terms have no equals sign as are no modifiers, so they are the same ones
    have hsub :
      ((termsOf text).filter ('=' ∉ ·)).Sublist ((termsOf text).filter (!isModifier ·)) := by
      refine monotone_filter_right _ fun term' hplain => ?_
      have hplain : '=' ∉ term' := by simpa using hplain
      simpa using mt mem_of_isModifier hplain
    have hlength := hdirected.length_eq.trans hkeeps.length_eq.symm
    have heq := hsub.eq_of_length hlength
    by_contra hno
    have hin : term ∈ (termsOf text).filter (!isModifier ·) := by
      simpa [hterm] using hno
    rw [← heq] at hin
    simp [hmem] at hin
  · intro hall
    have heq : (termsOf text).filter (!isModifier ·) = (termsOf text).filter ('=' ∉ ·) := by
      refine filter_congr fun term hterm => ?_
      by_cases hmem : '=' ∈ term
      · simp [hmem, hall term hterm hmem]
      · simpa [hmem] using mt mem_of_isModifier hmem
    rw [Keeps, heq]
    exact hdirected

end Keeps

/-- The parser keeps every term of a text exactly if it fails, or every term with an equals sign is
a modifier. -/
theorem parse_keeps_every_term_iff (addresses : AddressParser) (text : List Char) :
    (∀ record, parse addresses text = .ok record → record.Keeps addresses (termsOf text)) ↔
      (∀ record, parse addresses text ≠ .ok record) ∨
        ∀ term ∈ termsOf text, '=' ∈ term → isModifier term := by
  constructor
  · intro hkeeps
    by_cases hok : ∃ record, parse addresses text = .ok record
    · obtain ⟨record, hrecord⟩ := hok
      exact .inr ((Record.keeps_iff hrecord).1 (hkeeps record hrecord))
    · exact .inl (not_exists.1 hok)
  · rintro (hfails | hall) record hrecord
    · exact absurd hrecord (hfails record)
    · exact (Record.keeps_iff hrecord).2 hall

/-- A mechanism whose macro has an equals sign for a delimiter is dropped: everyone passes. -/
theorem parse_drops_mechanism :
    let addresses : AddressParser := ⟨fun _ => none, fun _ => none⟩
    let text := "v=spf1 -exists:%\x7bl1r=\x7d.example.com +all".toList
    parse addresses text = .ok ⟨[(.pass, .all)], none⟩ ∧
      ¬ (⟨[(.pass, .all)], none⟩ : Record).Keeps addresses (termsOf text) := by
  intro addresses text
  have hrecord : parse addresses text = .ok ⟨[(.pass, .all)], none⟩ := by decide +kernel
  refine ⟨hrecord, fun hkeeps => ?_⟩
  have hlength := hkeeps.length_eq
  exact absurd hlength (by decide +kernel)

end Epistle.Spf
