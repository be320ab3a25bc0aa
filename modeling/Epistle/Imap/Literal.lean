import Epistle.Lib.Fallible
import Epistle.Lib.Text
import Epistle.Lib.Utf8

/-!
# Literal-bearing command lines

The parser of APPEND and REPLACE (`imap/command/literal.rs`), the part of `imap/command/parse.rs`
that reaches it, and the second scan of a line (`literalAnnouncementInLine`) that tells the
network layer how many octets a rejected command has already sent.

What a line announces to its sender is `announced`: the number in a `{n+}` that the line ends in.
The results compare it with the two scans of the source.
-/

namespace Epistle.Imap

open Lib Lib.Fallible Lib.Text List Option

/-! ## Announcements -/

/-- The octet count a literal-bearing command ends in. -/
structure LiteralAnnouncement where
  size : ℕ
  /-- `{n}`, whose octets wait for a continuation response; otherwise `{n+}`. -/
  synchronizing : Bool
  deriving DecidableEq, Repr

/-- Sizes are below this. -/
def usizeBound : ℕ := 2 ^ 64

/-- The verbs a literal may follow. -/
def Verb.append : List Char := "APPEND".toList
@[inherit_doc Verb.append] def Verb.replace : List Char := "REPLACE".toList
@[inherit_doc Verb.append] def Verb.uid : List Char := "UID".toList

/-- The literal that is announced at the end of some arguments. -/
def literalAnnouncement (args : List Char) : Option LiteralAnnouncement := do
  let inner ← stripSuffix '}' (trim args)
  let (_, digits) ← rsplitOnce '{' inner
  match stripSuffix '+' digits with
  | some rest => (parseUnsigned usizeBound rest).map (⟨·, false⟩)
  | none => (parseUnsigned usizeBound digits).map (⟨·, true⟩)

def literalAnnouncementInTail (line : List Char) : Option LiteralAnnouncement :=
  literalAnnouncement line

def skipUid (command : List Char) : List Char :=
  match splitOnce ' ' command with
  | some (verb, rest) => if eqIgnoreAsciiCase verb Verb.uid then rest else command
  | none => command

/-- The literal that a command line announces. -/
def literalAnnouncementInLine (line : List Char) : Option LiteralAnnouncement := do
  let (_, command) ← splitOnce ' ' line
  let (verb, args) ← splitOnce ' ' (skipUid command)
  if !eqIgnoreAsciiCase verb Verb.append && !eqIgnoreAsciiCase verb Verb.replace then none
  else literalAnnouncement args

def announced (line : List Char) : Option ℕ := do
  let inner ← stripSuffix '}' line
  let inner ← stripSuffix '+' inner
  let (_, size) ← rsplitOnce '{' inner
  digits size

/-! ## The parser -/

/-- Why a command line is refused. -/
inductive ParseError
  | malformed
  | unknown (tag : List Char)
  | badArguments (tag : List Char)
  | tooBig (tag : List Char)
  deriving DecidableEq, Repr

/-- The INTERNALDATE a client gives a message: the instant and its zone. -/
structure InternalDate where
  seconds : ℤ
  zone : ℤ
  deriving DecidableEq, Repr

/-- A parsed command; the ones that carry no literal are left as they came. -/
inductive Command
  | append (mailbox : List Char) (flags : List (List Char)) (date : Option InternalDate)
      (size : ℕ) (synchronizing utf8 binary : Bool)
  | replace (sequence : ℕ) (mailbox : List Char) (flags : List (List Char))
      (date : Option InternalDate) (size : ℕ) (uid synchronizing : Bool)
  | other (verb args : List Char)
  deriving DecidableEq, Repr

/-- The longest command line. -/
def maxCommandLine : ℕ := 32 * 1024

def tagChar (c : Char) : Bool := c.isAlphanum || ".-_+".toList.contains c

/-- A tag, a verb and its arguments. -/
def splitLine (line : List Char) : Except ParseError (List Char × List Char × List Char) :=
  if (line.map Char.utf8Size).sum > maxCommandLine ∨
      line.any (fun c => c.toNat < 0x20 || c.toNat == 0x7F) then
    .error .malformed
  else
    match splitOnce ' ' line with
    | none => .error .malformed
    | some (tag, rest) =>
        if tag = [] ∨ tag.length > 32 ∨ !tag.all tagChar then .error .malformed
        else .ok (tag, (splitOnce ' ' rest).getD (rest, []))

/-- A quoted string, and what is behind it. -/
def parseQuoted (value : List Char) : List Char → Option (List Char × List Char)
  | [] => none
  | '\\' :: [] => none
  | '\\' :: c :: rest => parseQuoted (value ++ [c]) rest
  | '"' :: rest => some (value, rest)
  | c :: rest => parseQuoted (value ++ [c]) rest

/-- An atom or a quoted string, and what is behind it. -/
def parseAstring (input : List Char) : Option (List Char × List Char) :=
  let input := trimStart input
  match stripFirst '"' input with
  | some rest => parseQuoted [] rest
  | none =>
      let (word, rest) := input.span (· ≠ ' ')
      if word = [] then none else some (word, rest)

def splitDateTime (parseDate : List Char → Option InternalDate) (text : List Char) :
    Option (Option InternalDate × List Char) :=
  match stripFirst '"' text with
  | none => some (none, text)
  | some quoted => do
      let (value, rest) ← splitOnce '"' quoted
      let time ← parseDate value
      return (some time, trimStart rest)

def splitFlags (rest : List Char) : Option (List (List Char) × List Char) :=
  match stripFirst '(' rest with
  | none => some ([], rest)
  | some group => do
      let (inside, rest) ← splitOnce ')' group
      return (splitWhitespace inside, trim rest)

def literal8 (tail : List Char) : Bool :=
  match rsplitOnce '{' tail with
  | none => false
  | some (head, _) => head.getLast? = some '~'

/-- Whether an APPEND tail ends in the data item `UTF8 (~{n})`, whose literal is followed by a
closing parenthesis. -/
def utf8DataItem (tail : List Char) : Bool :=
  match (do
    let (head, _) ← rsplitOnce '{' tail
    let head ← stripSuffix '~' head
    stripSuffix '(' (trimEnd head)) with
  | none => false
  | some head =>
      let head := trimEnd head
      let before := head.take (head.length - 4)
      eqIgnoreAsciiCase (head.drop (head.length - 4)) "UTF8".toList &&
        (before.getLast? = none || before.getLast? = some ' ' || before.getLast? = some ')')

section Parse

variable (parseDate : List Char → Option InternalDate)

def orBad {α : Type} (tag : List Char) : Option α → Except ParseError α
  | some a => .ok a
  | none => .error (.badArguments tag)

def parseFlagsAndLiteral (tag rest : List Char) (appendLimit : ℕ) :
    Except ParseError (List (List Char) × Option InternalDate × LiteralAnnouncement) := do
  let (flags, literalText) ← orBad tag (splitFlags rest)
  let (date, literalText) ← orBad tag (splitDateTime parseDate literalText)
  let literal ← orBad tag (literalAnnouncement literalText)
  if literal.size = 0 then .error (.badArguments tag)
  else if literal.size > appendLimit then .error (.tooBig tag)
  else .ok (flags, date, literal)

/-- The arguments of `APPEND`. -/
def parseAppend (tag args : List Char) (appendLimit : ℕ) : Except ParseError Command := do
  let (mailbox, rest) ← orBad tag ((parseAstring args).filter (·.1 ≠ []))
  let rest := trim rest
  let (flags, date, literal) ← parseFlagsAndLiteral parseDate tag rest appendLimit
  let utf8 := utf8DataItem rest
  return .append mailbox flags date literal.size literal.synchronizing utf8
    (!utf8 && literal8 rest)

/-- The arguments of `REPLACE`. -/
def parseReplace (tag args : List Char) (uid : Bool) (appendLimit : ℕ) :
    Except ParseError Command := do
  let (seqToken, rest) ← orBad tag (splitOnce ' ' (trim args))
  let sequence ← orBad tag ((parseUnsigned (2 ^ 32) seqToken).filter (· ≠ 0))
  let (mailbox, rest) ← orBad tag ((parseAstring (trim rest)).filter (·.1 ≠ []))
  let (flags, date, literal) ← parseFlagsAndLiteral parseDate tag (trim rest) appendLimit
  return .replace sequence mailbox flags date literal.size uid literal.synchronizing

/-- A command, as far as literals go. -/
def parseLine (line : List Char) (appendLimit : ℕ) :
    Except ParseError (List Char × Command) := do
  let (tag, verb, args) ← splitLine line
  if verb.map Char.toUpper = Verb.append then
    return (tag, ← parseAppend parseDate tag args appendLimit)
  else if verb.map Char.toUpper = Verb.replace then
    return (tag, ← parseReplace parseDate tag args false appendLimit)
  else if verb.map Char.toUpper = Verb.uid then
    let (sub, subArgs) ← orBad tag (splitOnce ' ' args)
    if eqIgnoreAsciiCase sub Verb.replace then
      return (tag, ← parseReplace parseDate tag subArgs true appendLimit)
    else return (tag, .other verb args)
  else return (tag, .other verb args)

end Parse

/-! ## What a line announces -/

variable {n : ℕ} {line : List UInt8}

lemma announced_eq_some {s : List Char} :
    announced s = some n ↔ ∃ p ds, s = p ++ '{' :: (ds ++ ['+', '}']) ∧ digits ds = some n := by
  simp only [announced, bind_eq_bind, bind_eq_some_iff, stripSuffix_eq_some,
    Prod.exists, rsplitOnce_eq_some]
  constructor
  · rintro ⟨_, rfl, _, rfl, p, ds, ⟨rfl, -⟩, hds⟩
    exact ⟨p, ds, by simp, hds⟩
  · rintro ⟨p, ds, rfl, hds⟩
    refine ⟨p ++ '{' :: (ds ++ ['+']), by simp, p ++ '{' :: ds, by simp, p, ds, ⟨rfl, ?_⟩, hds⟩
    intro hmem
    exact absurd ((digits_eq_some hds).2 _ hmem) (by decide)

section Announced

variable {s x : List Char} {n : ℕ}

lemma getLast?_brace (p ds : List Char) :
    (p ++ '{' :: (ds ++ ['+', '}'])).getLast? = some '}' := by
  rw [show p ++ '{' :: (ds ++ ['+', '}']) = (p ++ '{' :: (ds ++ ['+'])) ++ ['}'] by simp,
    List.getLast?_concat]

lemma announced_getLast? (h : announced s = some n) : s.getLast? = some '}' := by
  obtain ⟨p, ds, rfl, -⟩ := announced_eq_some.1 h
  exact getLast?_brace p ds

lemma brace_notMem {ds : List Char} (h : digits ds = some n) : '{' ∉ ds ++ ['+', '}'] := by
  intro hmem
  rcases mem_append.1 hmem with hmem | hmem
  · exact absurd ((digits_eq_some h).2 _ hmem) (by decide)
  · simp at hmem

lemma announced_behind_space (h : announced s = some n) (hx : ' ' :: x <:+ s) :
    announced x = some n := by
  obtain ⟨p, ds, rfl, hds⟩ := announced_eq_some.1 h
  have hsuffix : '{' :: (ds ++ ['+', '}']) <:+ p ++ '{' :: (ds ++ ['+', '}']) :=
    suffix_append ..
  rcases suffix_or_suffix_of_suffix hsuffix hx with hin | hin
  · -- The brace is not the space, so it lies in `x`.
    obtain ⟨y, hy⟩ := (suffix_cons_iff.1 hin).resolve_left (by simp)
    exact announced_eq_some.2 ⟨y, ds, hy.symm, hds⟩
  · -- A digit is no space.
    have hmem : ' ' ∈ '{' :: (ds ++ ['+', '}']) := hin.subset (mem_cons_self ..)
    have : ' ' ∈ ds := by simpa using hmem
    exact absurd ((digits_eq_some hds).2 _ this) (by decide)

lemma literalAnnouncement_suffix (h : announced s = some n) (hx : x <:+ s)
    {literal : LiteralAnnouncement} (hl : literalAnnouncement x = some literal) :
    literal = ⟨n, false⟩ := by
  obtain ⟨p, ds, rfl, hds⟩ := announced_eq_some.1 h
  obtain ⟨q, hq⟩ := trim_suffix (announced_getLast? h) (by decide) hx
  simp only [literalAnnouncement, bind_eq_bind, bind_eq_some_iff, Prod.exists,
    stripSuffix_eq_some, rsplitOnce_eq_some] at hl
  obtain ⟨_, htrim, pre, inner, ⟨rfl, hinner⟩, hl⟩ := hl
  -- Both look behind the last brace of the line.
  have hline : rsplitOnce '{' (p ++ '{' :: (ds ++ ['+', '}'])) = some (p, ds ++ ['+', '}']) :=
    rsplitOnce_append p (brace_notMem hds)
  have hscan : rsplitOnce '{' (p ++ '{' :: (ds ++ ['+', '}'])) =
      some (q ++ pre, inner ++ ['}']) := by
    refine rsplitOnce_eq_some.2 ⟨?_, by simpa using hinner⟩
    rw [← hq, htrim]
    simp
  have heq : inner = ds ++ ['+'] := by
    have := (Prod.mk.injEq ..).mp (some.inj (hline.symm.trans hscan)) |>.2
    rw [show ds ++ ['+', '}'] = (ds ++ ['+']) ++ ['}'] by simp] at this
    exact (append_cancel_right this).symm
  rw [heq, stripSuffix_append] at hl
  simp only [map_eq_some_iff, parseUnsigned_digits hds] at hl
  obtain ⟨m, hm, rfl⟩ := hl
  rw [filter_eq_some_iff] at hm
  rw [some.inj hm.1]

lemma literalAnnouncement_announced (h : announced s = some n) (hn : n < usizeBound) :
    literalAnnouncement s = some ⟨n, false⟩ := by
  obtain ⟨p, ds, rfl, hds⟩ := announced_eq_some.1 h
  obtain ⟨p', hp'⟩ := trimStart_append_cons p (ds ++ ['+', '}'])
    (show isWhitespace '{' = false by decide)
  have htrim : trim (p ++ '{' :: (ds ++ ['+', '}'])) = (p' ++ '{' :: (ds ++ ['+'])) ++ ['}'] := by
    rw [trim, hp', trimEnd_eq_self (getLast?_brace p' ds) (by decide)]
    simp
  have hbrace : '{' ∉ ds ++ ['+'] := by simpa using brace_notMem hds
  simp only [literalAnnouncement, htrim, stripSuffix_append, bind_eq_bind,
    bind_some, rsplitOnce_append p' hbrace, parseUnsigned_digits hds]
  simp [Option.filter, hn]

end Announced

/-! ## The parser and the second scan agree with the line -/

open Except

section Agree

variable {parseDate : List Char → Option InternalDate} {s x tag : List Char} {n limit : ℕ}

lemma orBad_eq_ok {α : Type} {o : Option α} {a : α} : orBad tag o = .ok a ↔ o = some a := by
  cases o <;> simp [orBad]

variable {word rest : List Char}

lemma parseQuoted_suffix {value input : List Char}
    (h : parseQuoted value input = some (word, rest)) : rest <:+ input := by
  fun_induction parseQuoted value input with
  | case1 => simp at h
  | case2 => simp at h
  | case3 value c input ih => exact ((ih h).trans (suffix_cons ..)).trans (suffix_cons ..)
  | case4 value input =>
    obtain ⟨-, rfl⟩ : value = word ∧ input = rest := by simpa using h
    exact suffix_cons ..
  | case5 value c input _ _ _ ih => exact (ih h).trans (suffix_cons ..)

lemma parseAstring_suffix {input : List Char} (h : parseAstring input = some (word, rest)) :
    rest <:+ input := by
  refine List.IsSuffix.trans ?_ (trimStart_suffix input)
  unfold parseAstring at h
  dsimp only at h
  cases hq : stripFirst '"' (trimStart input) with
  | some quoted =>
    rw [hq] at h
    rw [stripFirst_eq_some.1 hq]
    exact (parseQuoted_suffix h).trans (List.suffix_cons ..)
  | none =>
    rw [hq] at h
    simp only [List.span_eq_takeWhile_dropWhile, Option.ite_none_left_eq_some, some.injEq,
      Prod.mk.injEq] at h
    rw [← h.2.2]
    exact List.dropWhile_suffix _

lemma splitOnce_suffix {c : Char} {a b : List Char} (h : splitOnce c s = some (a, b)) :
    c :: b <:+ s :=
  ⟨a, (splitOnce_eq_some.1 h).1.symm⟩

lemma trim_announced (h : announced s = some n) (hx : x <:+ s) : trim x <:+ s :=
  trim_suffix (announced_getLast? h) (by decide) hx

lemma splitFlags_suffix (h : announced s = some n) (hx : x <:+ s) {flags : List (List Char)}
    (hf : splitFlags x = some (flags, rest)) : rest <:+ s := by
  unfold splitFlags at hf
  cases hg : stripFirst '(' x with
  | none =>
    obtain ⟨-, rfl⟩ : flags = [] ∧ rest = x := by simpa [hg, eq_comm] using hf
    exact hx
  | some group =>
    simp only [hg, Option.bind_eq_bind, Option.bind_eq_some_iff, Prod.exists, Option.pure_def,
      some.injEq, Prod.mk.injEq] at hf
    obtain ⟨_, after, hsplit, -, rfl⟩ := hf
    have hgroup : group <:+ x := by
      rw [stripFirst_eq_some.1 hg]
      exact List.suffix_cons ..
    exact trim_announced h
      (((List.suffix_cons ..).trans (splitOnce_suffix hsplit)).trans (hgroup.trans hx))

lemma splitDateTime_suffix (hx : x <:+ s) {date : Option InternalDate}
    (hd : splitDateTime parseDate x = some (date, rest)) : rest <:+ s := by
  unfold splitDateTime at hd
  cases hq : stripFirst '"' x with
  | none =>
    obtain ⟨-, rfl⟩ : date = none ∧ rest = x := by simpa [hq, eq_comm] using hd
    exact hx
  | some quoted =>
    simp only [hq, bind_eq_bind, bind_eq_some_iff, Prod.exists, Option.pure_def,
      some.injEq, Prod.mk.injEq] at hd
    obtain ⟨_, after, hsplit, _, -, -, rfl⟩ := hd
    have hquoted : quoted <:+ x := by
      rw [stripFirst_eq_some.1 hq]
      exact suffix_cons ..
    exact ((trimStart_suffix after).trans ((suffix_cons ..).trans (splitOnce_suffix hsplit))).trans
      (hquoted.trans hx)

lemma parseFlagsAndLiteral_announced (h : announced s = some n) (hx : x <:+ s)
    {flags : List (List Char)} {date : Option InternalDate} {literal : LiteralAnnouncement}
    (hp : parseFlagsAndLiteral parseDate tag x limit = .ok (flags, date, literal)) :
    literal = ⟨n, false⟩ := by
  simp only [parseFlagsAndLiteral, bind_eq_ok, orBad_eq_ok, Prod.exists] at hp
  obtain ⟨_, text, hflags, _, text', hdate, literal', hl, hp⟩ := hp
  split_ifs at hp
  obtain rfl : literal' = literal := by simpa using (Prod.mk.inj (Prod.mk.inj (ok.inj hp)).2).2
  exact literalAnnouncement_suffix h
    (splitDateTime_suffix (splitFlags_suffix h hx hflags) hdate) hl

lemma parseAppend_announced (h : announced s = some n) {command : Command}
    (hp : parseAppend parseDate tag s limit = .ok command) :
    ∃ mailbox flags date utf8 binary,
      command = .append mailbox flags date n false utf8 binary := by
  simp only [parseAppend, bind_eq_ok, orBad_eq_ok, Prod.exists, filter_eq_some_iff] at hp
  obtain ⟨mailbox, rest, ⟨hword, -⟩, flags, date, literal, hl, hp⟩ := hp
  obtain rfl := parseFlagsAndLiteral_announced h
    (trim_announced h (parseAstring_suffix hword)) hl
  exact ⟨mailbox, flags, date, _, _, (ok.inj hp).symm⟩

lemma parseReplace_announced (h : announced s = some n) {uid : Bool} {command : Command}
    (hp : parseReplace parseDate tag s uid limit = .ok command) :
    ∃ sequence mailbox flags date, command = .replace sequence mailbox flags date n uid false := by
  simp only [parseReplace, bind_eq_ok, orBad_eq_ok, Prod.exists, filter_eq_some_iff] at hp
  obtain ⟨_, rest, hsplit, sequence, -, mailbox, rest', ⟨hword, -⟩, flags, date, literal, hl, hp⟩ :=
    hp
  have hrest : rest <:+ s :=
    ((suffix_cons ..).trans (splitOnce_suffix hsplit)).trans
      (trim_announced h (suffix_refl s))
  obtain rfl := parseFlagsAndLiteral_announced h
    (trim_announced h ((parseAstring_suffix hword).trans (trim_announced h hrest))) hl
  exact ⟨sequence, mailbox, flags, date, (ok.inj hp).symm⟩

def Rescanned {α : Type} (tag : List Char) (r : Except ParseError α) : Prop :=
  ∀ e, r = .error e → e = .badArguments tag ∨ e = .tooBig tag

lemma Rescanned.bind {α β : Type} {a : Except ParseError α} {f : α → Except ParseError β}
    (ha : Rescanned tag a) (hf : ∀ v, Rescanned tag (f v)) : Rescanned tag (a >>= f) := by
  intro e he
  cases a with
  | error e' => exact ha e (congrArg error (error.inj he))
  | ok v => exact hf v e he

lemma Rescanned.pure {α : Type} (v : α) : Rescanned tag (.ok v) := by
  intro e he
  cases he

lemma rescanned_orBad {α : Type} (o : Option α) : Rescanned tag (orBad tag o) := by
  intro e he
  cases o with
  | none => exact .inl (error.inj he).symm
  | some v => cases he

lemma parseFlagsAndLiteral_rescanned :
    Rescanned tag (parseFlagsAndLiteral parseDate tag x limit) := by
  refine (rescanned_orBad _).bind fun _ => (rescanned_orBad _).bind fun _ =>
    (rescanned_orBad _).bind fun literal => ?_
  split_ifs
  · exact fun e he => .inl (error.inj he).symm
  · exact fun e he => .inr (error.inj he).symm
  · exact .pure _

lemma parseAppend_rescanned : Rescanned tag (parseAppend parseDate tag x limit) :=
  (rescanned_orBad _).bind fun _ => parseFlagsAndLiteral_rescanned.bind fun _ => .pure _

lemma parseReplace_rescanned (uid : Bool) :
    Rescanned tag (parseReplace parseDate tag x uid limit) :=
  (rescanned_orBad _).bind fun _ => (rescanned_orBad _).bind fun _ =>
    (rescanned_orBad _).bind fun _ => parseFlagsAndLiteral_rescanned.bind fun _ => .pure _

def carriesLiteral (line : List Char) : Bool :=
  match splitLine line with
  | .error _ => false
  | .ok (_, verb, args) =>
      verb.map Char.toUpper = Verb.append || verb.map Char.toUpper = Verb.replace ||
        (verb.map Char.toUpper = Verb.uid &&
          match splitOnce ' ' args with
          | some (sub, _) => eqIgnoreAsciiCase sub Verb.replace
          | none => false)

lemma splitOnce_of_verb (h : announced s = some n) {verb args word : List Char}
    (hs : (splitOnce ' ' s).getD (s, []) = (verb, args)) (hv : verb.map Char.toUpper = word)
    (hw : '}' ∉ word) : splitOnce ' ' s = some (verb, args) := by
  cases hsplit : splitOnce ' ' s with
  | some r => simpa [hsplit] using hs
  | none =>
    obtain ⟨rfl, -⟩ : s = verb ∧ [] = args := by simpa [hsplit] using hs
    have hmem : '}' ∈ s := mem_of_getLast? (announced_getLast? h)
    exact absurd (hv ▸ List.mem_map.2 ⟨'}', hmem, by decide⟩) hw

lemma splitLine_eq_ok {verb args : List Char} (h : splitLine s = .ok (tag, verb, args)) :
    ∃ rest, splitOnce ' ' s = some (tag, rest) ∧
      (splitOnce ' ' rest).getD (rest, []) = (verb, args) := by
  unfold splitLine at h
  split_ifs at h
  cases hsplit : splitOnce ' ' s with
  | none => simp [hsplit] at h
  | some r =>
    obtain ⟨t, rest⟩ := r
    simp only [hsplit] at h
    split_ifs at h
    obtain ⟨rfl, hrest⟩ := Prod.mk.inj (ok.inj h)
    exact ⟨rest, rfl, hrest⟩

lemma skipUid_of_ne {command verb args : List Char}
    (hs : splitOnce ' ' command = some (verb, args)) (hv : verb.map Char.toUpper = word)
    (hw : word ≠ Verb.uid) : skipUid command = command := by
  have : eqIgnoreAsciiCase verb Verb.uid = false := by
    rw [eqIgnoreAsciiCase, hv, show Verb.uid.map Char.toUpper = Verb.uid by decide]
    simpa using hw
  simp [skipUid, hs, this]

lemma carriesLiteral_cases (parseDate : List Char → Option InternalDate)
    (hc : carriesLiteral s) (h : announced s = some n) :
    ∃ tag args, announced args = some n ∧
      literalAnnouncementInLine s = literalAnnouncement args ∧
      ((∀ limit, parseLine parseDate s limit =
          (do return (tag, ← parseAppend parseDate tag args limit))) ∨
        ∃ uid, ∀ limit, parseLine parseDate s limit =
          (do return (tag, ← parseReplace parseDate tag args uid limit))) := by
  unfold carriesLiteral at hc
  cases hline : splitLine s with
  | error e => simp [hline] at hc
  | ok r =>
    obtain ⟨tag, verb, args⟩ := r
    obtain ⟨rest, htag, hverb⟩ := splitLine_eq_ok hline
    have hrest : announced rest = some n := announced_behind_space h (splitOnce_suffix htag)
    simp only [hline, Bool.or_eq_true, decide_eq_true_eq, Bool.and_eq_true] at hc
    rcases hc with (happend | hreplace) | ⟨huid, hsub⟩
    · have hsplit := splitOnce_of_verb hrest hverb happend (by decide)
      refine ⟨tag, args, announced_behind_space hrest (splitOnce_suffix hsplit), ?_,
        .inl fun limit => ?_⟩
      · have hskip := skipUid_of_ne hsplit happend (by decide)
        have hword : eqIgnoreAsciiCase verb Verb.append = true := by
          rw [eqIgnoreAsciiCase, happend]
          decide
        simp [literalAnnouncementInLine, htag, hskip, hsplit, hword]
      · simp only [parseLine, hline, ok_bind, happend, if_true]
    · have hsplit := splitOnce_of_verb hrest hverb hreplace (by decide)
      refine ⟨tag, args, announced_behind_space hrest (splitOnce_suffix hsplit), ?_,
        .inr ⟨false, fun limit => ?_⟩⟩
      · have hskip := skipUid_of_ne hsplit hreplace (by decide)
        have hword : eqIgnoreAsciiCase verb Verb.replace = true := by
          rw [eqIgnoreAsciiCase, hreplace]
          decide
        simp [literalAnnouncementInLine, htag, hskip, hsplit, hword]
      · simp only [parseLine, hline, ok_bind, hreplace, if_true,
          show Verb.replace ≠ Verb.append by decide, if_false]
    · -- Behind UID the same holds of the sub-command.
      have hsplit := splitOnce_of_verb hrest hverb huid (by decide)
      cases hinner : splitOnce ' ' args with
      | none => simp [hinner] at hsub
      | some r =>
        obtain ⟨sub, subArgs⟩ := r
        simp only [hinner] at hsub
        have hargs := announced_behind_space hrest (splitOnce_suffix hsplit)
        refine ⟨tag, subArgs, announced_behind_space hargs (splitOnce_suffix hinner), ?_,
          .inr ⟨true, fun limit => ?_⟩⟩
        · have hskip : skipUid rest = args := by
            have hword : eqIgnoreAsciiCase verb Verb.uid = true := by
              rw [eqIgnoreAsciiCase, huid]
              decide
            simp [skipUid, hsplit, hword]
          simp [literalAnnouncementInLine, htag, hskip, hinner, hsub]
        · simp only [parseLine, hline, ok_bind, huid, if_true, hinner, hsub, orBad,
            show Verb.uid ≠ Verb.append by decide, show Verb.uid ≠ Verb.replace by decide, if_false]

end Agree

/-! ## From octets to text -/

def announcedOctets (line : List UInt8) : Option ℕ := announced (line.map Utf8.ascii)

lemma announcedOctets_ascii (h : announcedOctets line = some n) :
    ∃ p q ds, line = p ++ q ∧ q ≠ [] ∧ (∀ b ∈ q, b < 0x80) ∧
      q.map Utf8.ascii = '{' :: (ds ++ ['+', '}']) ∧ digits ds = some n := by
  obtain ⟨_, ds, hline, hds⟩ := announced_eq_some.1 h
  obtain ⟨p, q, rfl, rfl, hq⟩ := map_eq_append_iff.1 hline
  refine ⟨p, q, ds, rfl, by rintro rfl; simp at hq, fun b hb => ?_, hq, hds⟩
  have hc : Utf8.ascii b ∈ '{' :: (ds ++ ['+', '}']) := hq ▸ mem_map_of_mem hb
  have hlt : (Utf8.ascii b).toNat < 0x80 := by
    simp only [mem_cons, mem_append, not_mem_nil, or_false] at hc
    rcases hc with hc | hc | hc | hc
    · rw [hc]; decide
    · have hdigit := (digits_eq_some hds).2 _ hc
      simp only [Char.isDigit, Bool.and_eq_true, decide_eq_true_eq] at hdigit
      exact Nat.lt_of_le_of_lt (UInt32.le_iff_toNat_le.1 hdigit.2) (by decide)
    · rw [hc]; decide
    · rw [hc]; decide
  rw [Utf8.toNat_ascii] at hlt
  exact UInt8.lt_iff_toNat_lt.2 hlt

lemma announced_decode {text : List Char} (h : announcedOctets line = some n)
    (hd : Utf8.decode line = some text) : announced text = some n := by
  obtain ⟨p, q, ds, rfl, hne, hascii, hq, hds⟩ := announcedOctets_ascii h
  obtain ⟨t, rfl⟩ := Utf8.decodeFrom_append_ascii hascii hne hd
  exact announced_eq_some.2 ⟨t, ds, by rw [hq], hds⟩

lemma announced_decodeLossy (h : announcedOctets line = some n) :
    announced (Utf8.decodeLossy line) = some n := by
  obtain ⟨p, q, ds, rfl, hne, hascii, hq, hds⟩ := announcedOctets_ascii h
  obtain ⟨t, ht⟩ := Utf8.decodeLossyFrom_append_ascii none p hascii hne
  exact announced_eq_some.2 ⟨t, ds, ht.trans (by rw [hq]), hds⟩

end Epistle.Imap
