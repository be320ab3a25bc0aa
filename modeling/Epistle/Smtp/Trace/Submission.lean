import Epistle.Lib.Compact
import Epistle.Smtp.Trace.Field

/-!
# Stamping a submitted message

A submitted message without a `Message-ID` or a `Date` field gets one. Whether it has one is decided
by a scanner that takes the octets before the first colon of a line for the name of a field. Every
other reader of `smtp/trace` folds white space and leading colons out of a name, so a message whose
field is spelled `Message-ID :` gets a second one.

* `ensureSubmissionHeaders_iff`: the message ends up with the right number of fields exactly if the
  two agree on it.
-/

namespace Epistle.Smtp.Trace

open Lib Lib.Compact Lib.Lines Lib.Octets Util.HeaderBlock List

/-! ## The values of a field -/

def appendToLast (values : List (List Char)) (text : List Char) : List (List Char) :=
  match values.getLast? with
  | some value => values.dropLast ++ [value ++ text]
  | none => values

open Utf8

def collectValues (name : List UInt8) (values : List (List Char)) (collecting : Bool) :
    List (List UInt8) → List (List Char)
  | [] => values
  | line :: rest =>
      if isContinuation line then
        let values :=
          if collecting then appendToLast values (' ' :: Text.trim (decodeLossy line))
          else values
        collectValues name values collecting rest
      else
        match splitField line with
        | some (field, value) =>
            if sameName field name then
              collectValues name (values ++ [Text.trim (decodeLossy value)]) true rest
            else collectValues name values false rest
        | none => collectValues name values false rest

/-- The values of the fields of a name. -/
def headerValues (data name : List UInt8) : List (List Char) :=
  (collectValues name [] false (splitInclusive lf (data.take (headerBlockEnd data)))).map Text.trim

/-! ## The scanner -/

/-- Without a carriage return at the end. -/
def stripCr (line : List UInt8) : List UInt8 := stripLast cr line

def scanLines (hasMessageId hasDate : Bool) : List (List UInt8) → Bool × Bool
  | [] => (hasMessageId, hasDate)
  | line :: rest =>
      if line = [] then (hasMessageId, hasDate)
      else if isContinuation line then scanLines hasMessageId hasDate rest
      else if colon ∈ line then
        let name := line.takeWhile (· ≠ colon)
        let isMessageId := eqIgnoreCase name (octetsOf "message-id")
        let hasMessageId := hasMessageId || isMessageId
        let hasDate := hasDate || !isMessageId && eqIgnoreCase name (octetsOf "date")
        if hasMessageId && hasDate then (hasMessageId, hasDate)
        else scanLines hasMessageId hasDate rest
      else scanLines hasMessageId hasDate rest

/-- Whether a message has an id and a date. -/
def scanSubmissionHeaders (headers : List UInt8) : Bool × Bool :=
  scanLines false false ((headers.splitOnP (· = lf)).map stripCr)

/-! ## The stamp -/

def lineEnding (raw : List UInt8) : List UInt8 :=
  match raw.findIdx? (· = lf) with
  | some i => if 0 < i ∧ raw[i - 1]? = some cr then [cr, lf] else [lf]
  | none => [cr, lf]

/-- What a stamp is made of: a fresh identifier, the domain of the sender and the time, each on one
line. -/
structure Stamp where
  uuid : List Char
  domain : List Char
  date : List Char
  uuid_line : '\n' ∉ uuid
  domain_line : '\n' ∉ domain
  date_line : '\n' ∉ date

/-- The id that a message is given. -/
def Stamp.messageId (stamp : Stamp) : List Char :=
  '<' :: stamp.uuid ++ '@' :: stamp.domain ++ ['>']

/-- The lines that are missing. -/
def buildPrependedHeaders (stamp : Stamp) (hasMessageId hasDate : Bool) (ending : List UInt8) :
    List UInt8 :=
  (if hasMessageId then []
    else octetsOf "Message-ID: " ++ encode stamp.messageId ++ ending) ++
  (if hasDate then [] else octetsOf "Date: " ++ encode stamp.date ++ ending)

/-- Put the lines that are missing in front of a message, inside its buffer. -/
def ensureSubmissionHeadersInPlace (stamp : Stamp) (data : List UInt8) : Option (List UInt8) :=
  let (hasMessageId, hasDate) := scanSubmissionHeaders (data.take (headerBlockEnd data))
  if hasMessageId && hasDate then some data
  else
    let prepended := buildPrependedHeaders stamp hasMessageId hasDate (lineEnding data)
    let grown := data ++ List.replicate prepended.length 0
    (copyWithin grown 0 data.length prepended.length).map (overwrite · 0 prepended)

/-! ## The lines of a header block -/

def blockLines (data : List UInt8) : List (List UInt8) :=
  (splitInclusive lf data).takeWhile (unterminated · ≠ [])

lemma fst_blockOfLines (lines : List (List UInt8)) :
    (blockOfLines lines).1 = (lines.takeWhile (unterminated · ≠ [])).flatten := by
  induction lines with
  | nil => rfl
  | cons line lines ih =>
    by_cases h : unterminated line = []
    · simp [blockOfLines, h]
    · simp [blockOfLines, h, ih]

lemma splitInclusive_header (data : List UInt8) :
    splitInclusive lf (data.take (headerBlockEnd data)) = blockLines data := by
  rw [take_headerBlockEnd, splitAtBlankLine, fst_blockOfLines]
  exact splitInclusive_flatten_of_sublist (takeWhile_sublist _)

variable {line name wanted : List UInt8}

lemma blockLines_line {b : UInt8} (hlf : lf ∉ line) (hb : b ∈ line) (hcr : b ≠ cr)
    (data : List UInt8) : blockLines (line ++ lf :: data) = (line ++ [lf]) :: blockLines data := by
  have hne : unterminated (line ++ [lf]) ≠ [] :=
    unterminated_ne_nil (mem_append_left _ hb) hcr fun heq => hlf (heq ▸ hb)
  rw [blockLines, splitInclusive_line hlf, takeWhile_cons_of_pos (by simpa using hne)]
  rfl

/-! ## What the two readers count -/

def isField (name line : List UInt8) : Bool :=
  !isContinuation line && (splitField line).any (sameName ·.1 name)

def isNamed (wanted line : List UInt8) : Bool :=
  !isContinuation line && decide (colon ∈ line) && eqIgnoreCase (line.takeWhile (· ≠ colon)) wanted

lemma length_appendToLast (values : List (List Char)) (text : List Char) :
    (appendToLast values text).length = values.length := by
  unfold appendToLast
  cases hlast : values.getLast? with
  | none => rfl
  | some value =>
    have hpos : 0 < values.length := length_pos_of_mem (mem_of_getLast? hlast)
    simp only [length_append, length_dropLast, length_singleton]
    omega

lemma length_collectValues (name : List UInt8) (values : List (List Char)) (collecting : Bool)
    (lines : List (List UInt8)) :
    (collectValues name values collecting lines).length =
      values.length + lines.countP (isField name) := by
  induction lines generalizing values collecting with
  | nil => rfl
  | cons line lines ih =>
    rw [collectValues, countP_cons]
    cases hcont : isContinuation line with
    | true =>
      have hfield : isField name line = false := by simp [isField, hcont]
      rw [if_pos rfl, hfield, if_neg Bool.false_ne_true]
      dsimp only
      rw [ih]
      cases collecting with
      | true => exact congrArg (· + lines.countP (isField name)) (length_appendToLast values _)
      | false => rfl
    | false =>
      rw [if_neg Bool.false_ne_true, isField, hcont]
      cases splitField line with
      | none => exact ih values false
      | some split =>
        cases hsame : sameName split.1 name with
        | true => simp [hsame, ih, add_assoc, add_comm 1]
        | false => simp [hsame, ih]

lemma length_headerValues (data name : List UInt8) :
    (headerValues data name).length = (blockLines data).countP (isField name) := by
  rw [headerValues, length_map, length_collectValues, splitInclusive_header]
  exact zero_add _

lemma splitOnP_eq (headers : List UInt8) :
    ∃ rest, (rest = [] ∨ rest = [[]]) ∧ (headers.splitOnP (· = lf)).map stripCr =
      (splitInclusive lf headers).map unterminated ++ rest := by
  have hplain : ∀ {l : List UInt8}, lf ∉ l → ∀ b ∈ l, decide (b = lf) = false :=
    fun hl b hb => decide_eq_false fun heq => hl (heq ▸ hb)
  induction headers using line_induction lf with
  | nil => exact ⟨[[]], .inr rfl, rfl⟩
  | plain l hl hne =>
    refine ⟨[], .inl rfl, ?_⟩
    have hlast : stripLast lf l = l := if_neg fun hlast => hl (mem_of_getLast? hlast)
    rw [splitOnP_eq_singleton (hplain hl), splitInclusive_plain hl hne, append_nil,
      map_singleton, map_singleton, unterminated, hlast, stripCr]
  | line l s hl ih =>
    obtain ⟨rest, hrest, heq⟩ := ih
    refine ⟨rest, hrest, ?_⟩
    rw [splitOnP_append_cons_of_forall_mem (hplain hl) lf (by simp), splitInclusive_line hl,
      map_cons, map_cons, heq, unterminated, stripLast_append]
    rfl

lemma eqIgnoreCase_date_of_messageId (name : List UInt8) :
    eqIgnoreCase name (octetsOf "message-id") = true → eqIgnoreCase name (octetsOf "date") = false := by
  simp only [eqIgnoreCase, decide_eq_true_iff, decide_eq_false_iff_not]
  intro h
  rw [h]
  decide

lemma scanLines_eq {lines rest : List (List UInt8)} (hlines : ∀ line ∈ lines, line ≠ [])
    (hrest : rest = [] ∨ rest = [[]]) (hasMessageId hasDate : Bool) :
    scanLines hasMessageId hasDate (lines ++ rest) =
      (hasMessageId || lines.any (isNamed (octetsOf "message-id")),
        hasDate || lines.any (isNamed (octetsOf "date"))) := by
  induction lines generalizing hasMessageId hasDate with
  | nil => obtain rfl | rfl := hrest <;> simp [scanLines]
  | cons line lines ih =>
    obtain ⟨hline, hlines⟩ := forall_mem_cons.1 hlines
    have ih := ih hlines
    rw [cons_append, scanLines, if_neg hline, any_cons, any_cons]
    cases hcont : isContinuation line with
    | true => simp [ih, isNamed, hcont]
    | false =>
      by_cases hcolon : colon ∈ line
      · rw [if_neg Bool.false_ne_true, if_pos hcolon]
        dsimp only
        simp only [isNamed, hcont, hcolon, decide_true, Bool.not_false, Bool.true_and]
        have hone := eqIgnoreCase_date_of_messageId (line.takeWhile (· ≠ colon))
        revert hone
        cases eqIgnoreCase (line.takeWhile (· ≠ colon)) (octetsOf "message-id") <;>
          cases eqIgnoreCase (line.takeWhile (· ≠ colon)) (octetsOf "date") <;>
          cases hasMessageId <;> cases hasDate <;> simp [ih]
      · simp [ih, isNamed, hcont, hcolon]

lemma takeWhile_append_of_mem {l : List UInt8} (h : colon ∈ l) (rest : List UInt8) :
    (l ++ rest).takeWhile (· ≠ colon) = l.takeWhile (· ≠ colon) := by
  have hlen : (l.takeWhile (· ≠ colon)).length ≠ l.length := by
    intro heq
    rw [← (List.takeWhile_prefix _).eq_of_length heq] at h
    have hne := mem_takeWhile_imp h
    simp at hne
  rw [takeWhile_append, if_neg hlen]

lemma isNamed_unterminated (wanted : List UInt8) (h : unterminated line ≠ []) :
    isNamed wanted (unterminated line) = isNamed wanted line := by
  have hcolon : colon ∈ line → colon ∈ unterminated line :=
    fun hmem => mem_stripLast (mem_stripLast hmem (by decide)) (by decide)
  obtain ⟨rest, hrest⟩ : unterminated line <+: line :=
    (stripLast_isPrefix cr _).trans (stripLast_isPrefix lf line)
  generalize unterminated line = text at *
  subst hrest
  have hcont : isContinuation (text ++ rest) = isContinuation text := by
    rw [isContinuation, isContinuation, List.head?_append_of_ne_nil _ h]
  rw [isNamed, isNamed, hcont]
  by_cases hmem : colon ∈ text
  · rw [takeWhile_append_of_mem hmem, decide_eq_true hmem,
      decide_eq_true (mem_append_left rest hmem)]
  · rw [decide_eq_false hmem, decide_eq_false (mt hcolon hmem), Bool.and_false]
    rfl

lemma scanSubmissionHeaders_eq (data : List UInt8) :
    scanSubmissionHeaders (data.take (headerBlockEnd data)) =
      ((blockLines data).any (isNamed (octetsOf "message-id")),
        (blockLines data).any (isNamed (octetsOf "date"))) := by
  obtain ⟨rest, hrest, heq⟩ := splitOnP_eq (data.take (headerBlockEnd data))
  have hne : ∀ line ∈ blockLines data, unterminated line ≠ [] := by
    intro line hline
    have := mem_takeWhile_imp hline
    simpa using this
  have hany : ∀ wanted, ((blockLines data).map unterminated).any (isNamed wanted) =
      (blockLines data).any (isNamed wanted) := by
    intro wanted
    rw [any_map, Bool.eq_iff_iff, any_eq_true, any_eq_true]
    exact exists_congr fun line => and_congr_right fun hline => by
      rw [Function.comp, isNamed_unterminated wanted (hne line hline)]
  rw [scanSubmissionHeaders, heq, splitInclusive_header,
    scanLines_eq (by simpa using hne) hrest, hany, hany]
  rfl

/-! ## Names without white space -/

def Plain (name : List UInt8) : Prop :=
  name ≠ [] ∧ ∀ b ∈ name, 33 ≤ b.toNat ∧ b.toNat < 127 ∧ b ≠ colon

instance (name : List UInt8) : Decidable (Plain name) := inferInstanceAs (Decidable (_ ∧ _))

lemma Plain.isAsciiWhitespace (h : Plain name) {b : UInt8} (hb : b ∈ name) :
    isAsciiWhitespace b = false := by
  have hlow := (h.2 b hb).1
  by_contra hws
  simp only [Octets.isAsciiWhitespace, Bool.not_eq_false, Bool.or_eq_true,
    decide_eq_true_iff] at hws
  obtain (((rfl | rfl) | rfl) | rfl) | rfl := hws <;> exact absurd hlow (by decide)

lemma Plain.trimAsciiEnd (h : Plain name) : trimAsciiEnd name = name := by
  rw [Trace.trimAsciiEnd, reverse_eq_iff, dropWhile_eq_self_iff]
  intro hpos
  rw [h.isAsciiWhitespace (mem_reverse.1 (getElem_mem _))]
  exact Bool.false_ne_true

lemma Plain.foldTrailingSpace (h : Plain name) : foldTrailingSpace name = name := by
  have hascii : ∀ b ∈ name, b < 0x80 := fun b hb =>
    UInt8.lt_iff_toNat_lt.2 (lt_of_lt_of_le (h.2 b hb).2.1 (by decide))
  have hdecode : Utf8.decode name = some (name.map Utf8.ascii) := Utf8.decodeFrom_none_ascii hascii
  have htrim : Text.trimEnd (name.map Utf8.ascii) = name.map Utf8.ascii := by
    refine Text.trimEnd_eq_self (c := Utf8.ascii (name.getLast h.1)) ?_ ?_
    · rw [List.getLast?_map, List.getLast?_eq_some_getLast h.1]
      rfl
    · have hb := h.2 _ (getLast_mem h.1)
      simp only [Text.isWhitespace, toNat_ascii]
      grind
  rw [Trace.foldTrailingSpace, hdecode]
  dsimp only
  rw [htrim, encode_of_ascii]
  · rw [map_map]
    conv_rhs => rw [← map_id name]
    exact map_congr_left fun b _ => by simp
  · intro c hc
    obtain ⟨b, hb, rfl⟩ := List.mem_map.1 hc
    rw [toNat_ascii]
    exact lt_of_lt_of_le (h.2 b hb).2.1 (by decide)

lemma takeWhile_line (h : colon ∉ name) (rest : List UInt8) :
    (name ++ colon :: rest).takeWhile (· ≠ colon) = name := by
  have hname : ∀ b ∈ name, decide (b ≠ colon) = true :=
    fun b hb => decide_eq_true fun heq => h (heq ▸ hb)
  rw [takeWhile_append_of_pos hname]
  simp

lemma splitField_plain (h : Plain name) (rest : List UInt8) :
    splitField (name ++ colon :: rest) = some (name, rest) := by
  have hstart : nameStart (name ++ colon :: rest) = 0 := by
    obtain ⟨b, name, rfl⟩ := exists_cons_of_ne_nil h.1
    have hb : b ∈ b :: name := mem_cons_self
    simp [nameStart, (h.2 b hb).2.2, h.isAsciiWhitespace hb]
  have hname : ∀ b ∈ name, decide (b ≠ colon) = true := fun b hb => decide_eq_true (h.2 b hb).2.2
  have htake := takeWhile_line (fun hmem => (h.2 _ hmem).2.2 rfl) rest
  have hdrop : (name ++ colon :: rest).dropWhile (· ≠ colon) = colon :: rest := by
    rw [dropWhile_append_of_pos hname]
    simp
  rw [splitField, hstart, splitFieldFrom, drop_zero, if_pos (by simp), htake, hdrop,
    h.trimAsciiEnd, h.foldTrailingSpace]
  rfl

lemma isContinuation_plain (h : Plain name) (rest : List UInt8) :
    isContinuation (name ++ rest) = false := by
  obtain ⟨b, name, rfl⟩ := exists_cons_of_ne_nil h.1
  have hws := h.isAsciiWhitespace (b := b) mem_cons_self
  simp only [isAsciiWhitespace, Bool.or_eq_false_iff, decide_eq_false_iff_not] at hws
  simp [isContinuation, hws.1.1.1.1, hws.1.1.1.2]

lemma isField_plain (h : Plain name) (wanted rest : List UInt8) :
    isField wanted (name ++ colon :: rest) = sameName name wanted := by
  rw [isField, isContinuation_plain h, splitField_plain h]
  rfl

lemma isNamed_plain (h : Plain name) (wanted rest : List UInt8) :
    isNamed wanted (name ++ colon :: rest) = eqIgnoreCase name wanted := by
  rw [isNamed, isContinuation_plain h, takeWhile_line fun hmem => (h.2 _ hmem).2.2 rfl]
  simp

lemma Plain.of_eqIgnoreCase (h : Plain wanted) (heq : eqIgnoreCase name wanted) : Plain name := by
  have heq : name.map lower = wanted.map lower := of_decide_eq_true heq
  refine ⟨fun hnil => h.1 (map_eq_nil_iff.1 (by rw [← heq, hnil]; rfl)), fun b hb => ?_⟩
  obtain ⟨w, hw, hlower⟩ : ∃ w ∈ wanted, lower w = lower b :=
    List.mem_map.1 (heq ▸ mem_map_of_mem hb)
  have hplain := h.2 w hw
  have hnat := congrArg UInt8.toNat hlower
  have hcolon : colon.toNat = 58 := rfl
  have hne : w.toNat ≠ 58 := fun h => hplain.2.2 (UInt8.toNat_inj.1 h)
  rw [toNat_lower, toNat_lower] at hnat
  split_ifs at hnat <;> exact ⟨by omega, by omega, fun h => by rw [h] at hnat; omega⟩

lemma Plain.filter (h : Plain name) :
    name.filter (!Octets.isAsciiWhitespace ·) = name :=
  filter_eq_self.2 fun b hb => by rw [h.isAsciiWhitespace hb]; rfl

lemma isField_of_isNamed (hname : Plain name) (hcase : wanted.map lower = name.map lower)
    (h : isNamed wanted line) : isField name line := by
  rw [isNamed, Bool.and_eq_true, Bool.and_eq_true, decide_eq_true_iff] at h
  obtain ⟨⟨-, hcolon⟩, heq⟩ := h
  obtain ⟨field, rest, rfl, hfield⟩ := eq_append_cons_of_mem hcolon
  rw [takeWhile_line hfield] at heq
  have heq : eqIgnoreCase field name := by
    rw [eqIgnoreCase, of_decide_eq_true heq, hcase, decide_eq_true rfl]
  have hplain := hname.of_eqIgnoreCase heq
  rw [isField_plain hplain, sameName, hplain.filter, hname.filter]
  exact heq

/-! ## What is put in front -/

lemma lineEnding_cases (raw : List UInt8) : lineEnding raw = [cr, lf] ∨ lineEnding raw = [lf] := by
  unfold lineEnding
  split
  · split_ifs
    · exact .inl rfl
    · exact .inr rfl
  · exact .inl rfl

def stampLine (name : String) (text : List Char) (ending : List UInt8) : List UInt8 :=
  octetsOf name ++ colon :: 32 :: encode text ++ ending

lemma buildPrependedHeaders_eq (stamp : Stamp) (hasMessageId hasDate : Bool)
    (ending : List UInt8) :
    buildPrependedHeaders stamp hasMessageId hasDate ending =
      (if hasMessageId then []
        else stampLine "Message-ID" stamp.messageId ending) ++
      (if hasDate then [] else stampLine "Date" stamp.date ending) := by
  cases hasMessageId <;> cases hasDate <;> rfl

lemma blockLines_stampLine {name : String} {text : List Char} {ending : List UInt8}
    (hname : Plain (octetsOf name)) (htext : '\n' ∉ text)
    (hending : ending = [cr, lf] ∨ ending = [lf]) (data : List UInt8) :
    blockLines (stampLine name text ending ++ data) =
      stampLine name text ending :: blockLines data := by
  have hlf : lf ∉ octetsOf name ++ colon :: 32 :: encode text := by
    intro hmem
    obtain hmem | hmem := mem_append.1 hmem
    · exact absurd (hname.2 _ hmem).1 (by decide)
    · obtain hmem | hmem := mem_cons.1 hmem
      · exact absurd hmem (by decide)
      · obtain hmem | hmem := mem_cons.1 hmem
        · exact absurd hmem (by decide)
        · exact htext (ascii_mem_encode hmem (by decide))
  have hcolon : colon ∈ octetsOf name ++ colon :: 32 :: encode text := by simp
  obtain rfl | rfl := hending
  · have hline : stampLine name text [cr, lf] =
        (octetsOf name ++ colon :: 32 :: encode text ++ [cr]) ++ [lf] := by simp [stampLine]
    have hlf : lf ∉ octetsOf name ++ colon :: 32 :: encode text ++ [cr] := by
      rw [mem_append, not_or]
      exact ⟨hlf, by decide⟩
    rw [hline, append_assoc, singleton_append,
      blockLines_line hlf (mem_append_left _ hcolon) (by decide)]
  · rw [stampLine, append_assoc, singleton_append, blockLines_line hlf hcolon (by decide)]

lemma stampLine_eq (name : String) (text : List Char) (ending : List UInt8) :
    stampLine name text ending = octetsOf name ++ colon :: (32 :: encode text ++ ending) := by
  rw [stampLine, append_assoc]
  rfl

lemma isField_stampLine {name : String} (h : Plain (octetsOf name)) (wanted : List UInt8)
    (text : List Char) (ending : List UInt8) :
    isField wanted (stampLine name text ending) = sameName (octetsOf name) wanted := by
  rw [stampLine_eq, isField_plain h]

lemma isNamed_stampLine {name : String} (h : Plain (octetsOf name)) (wanted : List UInt8)
    (text : List Char) (ending : List UInt8) :
    isNamed wanted (stampLine name text ending) = eqIgnoreCase (octetsOf name) wanted := by
  rw [stampLine_eq, isNamed_plain h]

lemma ensureSubmissionHeadersInPlace_eq (stamp : Stamp) (data : List UInt8) :
    ensureSubmissionHeadersInPlace stamp data =
      let found := scanSubmissionHeaders (data.take (headerBlockEnd data))
      some (buildPrependedHeaders stamp found.1 found.2 (lineEnding data) ++ data) := by
  unfold ensureSubmissionHeadersInPlace
  obtain ⟨hasMessageId, hasDate⟩ := scanSubmissionHeaders (data.take (headerBlockEnd data))
  dsimp only
  split_ifs with h
  · rw [Bool.and_eq_true] at h
    rw [h.1, h.2]
    rfl
  · generalize buildPrependedHeaders stamp hasMessageId hasDate (lineEnding data) = lines
    have hslice : slice (data ++ List.replicate lines.length 0) 0 data.length = data := by
      simp [slice]
    have hfits : 0 + data.length ≤ (data ++ List.replicate lines.length 0).length ∧
        lines.length + data.length ≤ (data ++ List.replicate lines.length 0).length := by
      rw [length_append, length_replicate]
      omega
    rw [copyWithin, if_pos hfits, hslice, Option.map_some]
    simp [overwrite, add_comm]

def addedLines (stamp : Stamp) (hasMessageId hasDate : Bool) (ending : List UInt8) :
    List (List UInt8) :=
  (if hasMessageId then []
    else [stampLine "Message-ID" stamp.messageId ending]) ++
  (if hasDate then [] else [stampLine "Date" stamp.date ending])

lemma plain_messageId : Plain (octetsOf "Message-ID") := by decide

lemma plain_date : Plain (octetsOf "Date") := by decide

lemma blockLines_prepended (stamp : Stamp) (hasMessageId hasDate : Bool) {ending : List UInt8}
    (hending : ending = [cr, lf] ∨ ending = [lf]) (data : List UInt8) :
    blockLines (buildPrependedHeaders stamp hasMessageId hasDate ending ++ data) =
      addedLines stamp hasMessageId hasDate ending ++ blockLines data := by
  have hid : '\n' ∉ stamp.messageId := by
    simp [Stamp.messageId, stamp.uuid_line, stamp.domain_line]
  rw [buildPrependedHeaders_eq, addedLines, append_assoc, append_assoc]
  have hdate : blockLines ((if hasDate then [] else stampLine "Date" stamp.date ending) ++ data) =
      (if hasDate then [] else [stampLine "Date" stamp.date ending]) ++ blockLines data := by
    cases hasDate with
    | true => rfl
    | false => exact blockLines_stampLine plain_date stamp.date_line hending data
  cases hasMessageId with
  | true => exact hdate
  | false =>
    rw [if_neg Bool.false_ne_true, if_neg Bool.false_ne_true,
      blockLines_stampLine plain_messageId hid hending, hdate, singleton_append]

lemma countP_addedLines (stamp : Stamp) (hasMessageId hasDate : Bool) (ending : List UInt8) :
    (addedLines stamp hasMessageId hasDate ending).countP (isField (octetsOf "Message-ID")) =
        (if hasMessageId then 0 else 1) ∧
      (addedLines stamp hasMessageId hasDate ending).countP (isField (octetsOf "Date")) =
        (if hasDate then 0 else 1) := by
  have hid := fun name text => isField_stampLine plain_messageId name text ending
  have hdate := fun name text => isField_stampLine plain_date name text ending
  have hsame : sameName (octetsOf "Message-ID") (octetsOf "Message-ID") = true ∧
      sameName (octetsOf "Message-ID") (octetsOf "Date") = false ∧
      sameName (octetsOf "Date") (octetsOf "Message-ID") = false ∧
      sameName (octetsOf "Date") (octetsOf "Date") = true := by decide
  unfold addedLines
  cases hasMessageId <;> cases hasDate <;> simp [hid, hdate, hsame]

lemma any_addedLines (stamp : Stamp) (hasMessageId hasDate : Bool) (ending : List UInt8) :
    (addedLines stamp hasMessageId hasDate ending).any (isNamed (octetsOf "message-id")) =
        !hasMessageId ∧
      (addedLines stamp hasMessageId hasDate ending).any (isNamed (octetsOf "date")) = !hasDate := by
  have hid := fun name text => isNamed_stampLine plain_messageId name text ending
  have hdate := fun name text => isNamed_stampLine plain_date name text ending
  have hsame : eqIgnoreCase (octetsOf "Message-ID") (octetsOf "message-id") = true ∧
      eqIgnoreCase (octetsOf "Message-ID") (octetsOf "date") = false ∧
      eqIgnoreCase (octetsOf "Date") (octetsOf "message-id") = false ∧
      eqIgnoreCase (octetsOf "Date") (octetsOf "date") = true := by decide
  unfold addedLines
  cases hasMessageId <;> cases hasDate <;> simp [hid, hdate, hsame]

lemma one_le_headerValues (data : List UInt8) (hname : Plain name)
    (hcase : wanted.map lower = name.map lower)
    (hany : (blockLines data).any (isNamed wanted) = true) :
    1 ≤ (headerValues data name).length := by
  obtain ⟨line, hline, hnamed⟩ := List.any_eq_true.1 hany
  rw [length_headerValues]
  exact countP_pos_iff.2 ⟨line, hline, isField_of_isNamed hname hcase hnamed⟩

lemma ensureSubmissionHeadersInPlace_stamped (stamp again : Stamp) (data : List UInt8) :
    let out := buildPrependedHeaders stamp ((blockLines data).any (isNamed (octetsOf "message-id")))
      ((blockLines data).any (isNamed (octetsOf "date"))) (lineEnding data) ++ data
    ensureSubmissionHeadersInPlace again out = some out := by
  intro out
  have hlines := blockLines_prepended stamp ((blockLines data).any (isNamed (octetsOf "message-id")))
    ((blockLines data).any (isNamed (octetsOf "date"))) (lineEnding_cases data) data
  have hany := any_addedLines stamp ((blockLines data).any (isNamed (octetsOf "message-id")))
    ((blockLines data).any (isNamed (octetsOf "date"))) (lineEnding data)
  -- What the scanner did not find was added.
  have hboth : ∀ found : Bool, (!found || found) = true := by decide
  rw [ensureSubmissionHeadersInPlace_eq, scanSubmissionHeaders_eq, hlines, any_append,
    any_append, hany.1, hany.2, hboth, hboth]
  rfl

lemma max_one_eq_iff {found : Bool} {k : ℕ} (h : found = true → 1 ≤ k) :
    (if found then 0 else 1) + k = max 1 k ↔ (1 ≤ k → found = true) := by
  cases found with
  | true => simp [h rfl]
  | false =>
    rw [if_neg Bool.false_ne_true]
    constructor
    · intro heq hk
      omega
    · intro hk
      have : ¬ 1 ≤ k := fun h => Bool.false_ne_true (hk h)
      omega

/-- **A message can get a second field.** The original bytes always follow what is added, and adding
again adds nothing. There is one field of each name where there was none, and as many as there were
otherwise, exactly if the scanner finds every field that `headerValues` finds. -/
theorem ensureSubmissionHeaders_iff (stamp again : Stamp) (data : List UInt8) :
    (∃ out, ensureSubmissionHeadersInPlace stamp data = some out ∧
      (headerValues out (octetsOf "Message-ID")).length =
        max 1 (headerValues data (octetsOf "Message-ID")).length ∧
      (headerValues out (octetsOf "Date")).length =
        max 1 (headerValues data (octetsOf "Date")).length ∧
      data <:+ out ∧ ensureSubmissionHeadersInPlace again out = some out) ↔
    (1 ≤ (headerValues data (octetsOf "Message-ID")).length →
      (blockLines data).any (isNamed (octetsOf "message-id")) = true) ∧
    (1 ≤ (headerValues data (octetsOf "Date")).length →
      (blockLines data).any (isNamed (octetsOf "date")) = true) := by
  have hfirst := ensureSubmissionHeadersInPlace_eq stamp data
  rw [scanSubmissionHeaders_eq] at hfirst
  dsimp only at hfirst
  have hid := one_le_headerValues data plain_messageId
    (show (octetsOf "message-id").map lower = _ by decide)
  have hdate := one_le_headerValues data plain_date
    (show (octetsOf "date").map lower = _ by decide)
  have hstamped := ensureSubmissionHeadersInPlace_stamped stamp again data
  have hlines := fun hasMessageId hasDate =>
    blockLines_prepended stamp hasMessageId hasDate (lineEnding_cases data) data
  generalize (blockLines data).any (isNamed (octetsOf "message-id")) = hasMessageId at *
  generalize (blockLines data).any (isNamed (octetsOf "date")) = hasDate at *
  have hcount : ∀ name, (headerValues
      (buildPrependedHeaders stamp hasMessageId hasDate (lineEnding data) ++ data) name).length =
      (addedLines stamp hasMessageId hasDate (lineEnding data)).countP (isField name) +
        (headerValues data name).length := by
    intro name
    rw [length_headerValues, length_headerValues, hlines, countP_append]
  have hadded := countP_addedLines stamp hasMessageId hasDate (lineEnding data)
  constructor
  · rintro ⟨out, hout, hk, hd, -⟩
    obtain rfl := Option.some.inj (hfirst.symm.trans hout)
    rw [hcount, hadded.1, max_one_eq_iff hid] at hk
    rw [hcount, hadded.2, max_one_eq_iff hdate] at hd
    exact ⟨hk, hd⟩
  · rintro ⟨hk, hd⟩
    refine ⟨_, hfirst, ?_, ?_, suffix_append _ _, hstamped⟩
    · rw [hcount, hadded.1, max_one_eq_iff hid]
      exact hk
    · rw [hcount, hadded.2, max_one_eq_iff hdate]
      exact hd

/-- A blank behind the name of its field gives a message two identifiers. -/
theorem ensureSubmissionHeaders_adds_second :
    let data := octetsOf "Message-ID : <a@b>\r\nDate: now\r\n\r\n"
    let stamp : Stamp := ⟨['1'], ['c'], ['n'], by decide, by decide, by decide⟩
    (headerValues data (octetsOf "Message-ID")).length = 1 ∧
      ((ensureSubmissionHeadersInPlace stamp data).map
        fun out => (headerValues out (octetsOf "Message-ID")).length) = some 2 := by
  decide +kernel

end Epistle.Smtp.Trace
