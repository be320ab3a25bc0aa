import Epistle.Dkim.Message

/-!
# The From fields of a message

The From fields that the DMARC author check and the send-as check read (`dmarc/author`), against
those that the DKIM verifier counts.
-/

namespace Epistle.Dmarc

open Lib Lib.Text Lib.Lines Util.HeaderBlock List Option

/-- A space or a tab. -/
def isBlank (c : Char) : Bool := c = ' ' || c = '\t'

/-- Whether a field is a `From` field. -/
def isFrom (name : List Char) : Bool := eqIgnoreAsciiCase name "from".toList

/-- A line that begins a `From` field. -/
def fromLine (line : List Char) : Option (List Char) := do
  let (name, value) ← splitOnce ':' line
  if isFrom (name.rdropWhile isBlank) then some value else none

/-- The values of the From fields from a line on, given the value being read. -/
def scanFrom (current : Option (List Char)) : List (List Char) → List (List Char)
  | [] => current.toList
  | line :: rest =>
      let line := content line
      if continues line then scanFrom (current.map (· ++ line)) rest
      else current.toList ++ scanFrom (fromLine line) rest

/-- The unfolded values of every From field in the header block of `raw`, or `none` when the block
is not UTF-8. -/
def fromFields (raw : List UInt8) : Option (List (List Char)) := do
  let block ← Utf8.decode (splitAtBlankLine raw).1
  return scanFrom none (splitInclusive '\n' block)

/-! ## Which fields are read -/

/-- A field that `fromFields` reads, by what stands before its colon. -/
def readAsFrom (header : Dkim.Header) : Bool := isFrom (header.rawName.rdropWhile isBlank)

variable {name : List Char} {header : Dkim.Header}

lemma isFrom_iff : isFrom name ↔ name.map Char.toUpper = ['F', 'R', 'O', 'M'] := by
  simp [isFrom, eqIgnoreAsciiCase]

lemma not_isFrom_of_lineFeed (h : '\n' ∈ name) : isFrom (name.rdropWhile isBlank) = false := by
  have hmem : '\n' ∈ name.rdropWhile isBlank := by
    rw [← rdropWhile_append_rtakeWhile (p := isBlank) (l := name), mem_append] at h
    refine h.resolve_right fun htake => ?_
    exact absurd (mem_rtakeWhile_imp htake) (by decide)
  refine Bool.eq_false_iff.2 fun heq => ?_
  have hup : ('\n').toUpper ∈ ['F', 'R', 'O', 'M'] :=
    isFrom_iff.1 heq ▸ List.mem_map_of_mem hmem
  revert hup
  decide

lemma before_colon_unique {a b x y : List Char} (ha : ':' ∉ a) (hb : ':' ∉ b)
    (h : a ++ ':' :: x = b ++ ':' :: y) : a = b := by
  have hsplit : some (a, x) = some (b, y) :=
    (splitOnce_eq_some.2 ⟨rfl, ha⟩).symm.trans (splitOnce_eq_some.2 ⟨h, hb⟩)
  exact congrArg Prod.fst (some.inj hsplit)

lemma isSome_fromLine {first more : List Char} (hmore : more ≠ [] → '\n' ∈ first)
    (hparse : Dkim.parseHeader (first ++ more) = some header) :
    (fromLine (content first)).isSome = readAsFrom header := by
  obtain ⟨hchomp, hname⟩ := Dkim.parseHeader_eq_some.1 hparse
  obtain ⟨tail, htail⟩ : chomp '\r' '\n' (first ++ more) <+: first ++ more := chomp_prefix ..
  have hwhole : first ++ more = header.rawName ++ ':' :: (header.value ++ tail) := by
    rw [← htail, hchomp]
    simp
  by_cases hcolon : ':' ∈ content first
  · -- The colon is on the first line, so it is the colon of the field.
    obtain ⟨name, value, hcontent, hname'⟩ := eq_append_cons_of_mem hcolon
    obtain ⟨rest, hrest⟩ : content first <+: first := chomp_prefix ..
    have hsame : name = header.rawName := by
      refine before_colon_unique hname' hname (x := value ++ rest ++ more) (Eq.trans ?_ hwhole)
      rw [← hrest, hcontent]
      simp
    rw [fromLine, splitOnce_eq_some.2 ⟨hcontent, hname'⟩, hsame]
    by_cases hfrom : isFrom (header.rawName.rdropWhile isBlank)
    · simp [hfrom, readAsFrom]
    · simp [hfrom, readAsFrom]
  · -- The name goes over the end of the line.
    have hfirst : ':' ∉ first := fun h => hcolon (mem_chomp h (by decide) (by decide))
    have hpre : first <+: header.rawName := by
      obtain ⟨b, hb, -⟩ | ⟨b, hb, hb'⟩ := append_eq_append_iff.1 hwhole
      · exact ⟨b, hb.symm⟩
      · cases b with
        | nil => exact ⟨[], by simpa using hb⟩
        | cons c b =>
          obtain ⟨rfl, -⟩ := List.cons.inj hb'
          exact absurd (hb ▸ by simp) hfirst
    have hne : more ≠ [] := by
      rintro rfl
      exact hfirst (by rw [← append_nil first, hwhole]; simp)
    rw [fromLine, splitOnce_eq_none.2 hcolon]
    exact (not_isFrom_of_lineFeed (hpre.subset (hmore hne))).symm

/-- The field the verifier is reading, against the value `fromFields` is reading, with `s` of the
block to come. -/
def Reading (s : List Char) : Option (List Char) → Option (List Char) → Prop
  | none, value => value = none
  | some raw, value =>
      ∃ first more, raw = first ++ more ∧ (more ≠ [] ∨ s ≠ [] → '\n' ∈ first) ∧
        value.isSome = (fromLine (content first)).isSome

lemma Reading.finish {s : List Char} {current value : Option (List Char)}
    {done : List Dkim.Header} (h : Reading s current value)
    (hdone : Dkim.finishHeader current = some done) :
    value.toList.length = done.countP readAsFrom := by
  cases current with
  | none =>
    obtain rfl : [] = done := by simpa [Dkim.finishHeader] using hdone
    obtain rfl : value = none := h
    rfl
  | some raw =>
    obtain ⟨first, more, rfl, hfeed, hsome⟩ := h
    obtain ⟨header, hparse, rfl⟩ : ∃ header, Dkim.parseHeader (first ++ more) = some header ∧
        [header] = done := by
      simpa [Dkim.finishHeader] using hdone
    rw [isSome_fromLine (fun hne => hfeed (.inl hne)) hparse] at hsome
    cases value <;> simp_all

lemma length_scanFrom_line {line s : List Char} {current value : Option (List Char)}
    {headers : List Dkim.Header} (hfeed : s ≠ [] → '\n' ∈ line) (hblock : line ++ s ≠ [])
    (hread : Reading (line ++ s) current value)
    (ih : ∀ {current value headers}, Reading s current value →
      Dkim.scanHeaders current (splitInclusive '\n' s) = some headers →
      (scanFrom value (splitInclusive '\n' s)).length = headers.countP readAsFrom)
    (h : Dkim.scanHeaders current (line :: splitInclusive '\n' s) = some headers) :
    (scanFrom value (line :: splitInclusive '\n' s)).length = headers.countP readAsFrom := by
  unfold Dkim.scanHeaders at h
  unfold scanFrom
  by_cases hcont : continues (content line)
  · -- A continuation line goes to the field that is being read, of which there must be one.
    rw [if_pos hcont] at h
    dsimp only
    rw [if_pos hcont]
    cases current with
    | none => simp at h
    | some raw =>
      refine ih ?_ h
      obtain ⟨first, more, rfl, hfirst, hsome⟩ := hread
      refine ⟨first, more ++ line, by simp, fun _ => hfirst (.inr hblock), ?_⟩
      simpa using hsome
  · rw [if_neg hcont] at h
    dsimp only
    rw [if_neg hcont]
    simp only [bind_eq_bind, bind_eq_some_iff] at h
    obtain ⟨done, hdone, more, hmore, heq⟩ := h
    obtain rfl : done ++ more = headers := by simpa using heq
    rw [length_append, countP_append, hread.finish hdone]
    refine congrArg _ (ih ?_ hmore)
    split_ifs with hempty
    · simp [Reading, hempty, fromLine, splitOnce]
    · exact ⟨line, [], by simp, by simpa using hfeed, rfl⟩

lemma length_scanFrom (s : List Char) : ∀ {current value : Option (List Char)}
    {headers : List Dkim.Header}, Reading s current value →
    Dkim.scanHeaders current (splitInclusive '\n' s) = some headers →
    (scanFrom value (splitInclusive '\n' s)).length = headers.countP readAsFrom := by
  induction s using line_induction '\n' with
  | nil =>
    intro current value headers hread h
    exact hread.finish h
  | plain l hl hne =>
    intro current value headers hread h
    rw [splitInclusive_plain hl hne] at h ⊢
    refine length_scanFrom_line (s := []) (fun h => absurd rfl h) (by simpa using hne)
      (by simpa using hread) ?_ h
    intro current value headers hread h
    exact hread.finish h
  | line l s hl ih =>
    intro current value headers hread h
    rw [splitInclusive_line hl] at h ⊢
    exact length_scanFrom_line (by simp) (by simp) (by simpa using hread) ih h

/-! ## Against the DKIM verifier -/

def namedFrom (header : Dkim.Header) : Bool := isFrom header.name

lemma trimEnd_of_isFrom (h : isFrom name) : trimEnd name = name := by
  have hlast : name.getLast?.map Char.toUpper = some 'M' := by
    rw [← List.getLast?_map, isFrom_iff.1 h]
    rfl
  obtain ⟨d, hd, hupper⟩ := map_eq_some_iff.1 hlast
  refine trimEnd_eq_self hd (Bool.eq_false_iff.2 fun hspace => ?_)
  have hcode : d.toUpper.toNat = 77 := by rw [hupper]; rfl
  rw [toNat_toUpper] at hcode
  simp only [isWhitespace, Bool.or_eq_true, Bool.and_eq_true, decide_eq_true_eq, beq_iff_eq]
    at hspace
  split_ifs at hcode <;> omega

lemma isWhitespace_of_isBlank {c : Char} (h : isBlank c) : isWhitespace c := by
  obtain rfl | rfl : c = ' ' ∨ c = '\t' := by simpa [isBlank] using h
  · decide
  · decide

lemma name_eq_of_readAsFrom (h : readAsFrom header) :
    header.name = header.rawName.rdropWhile isBlank := by
  rw [header.name_eq]
  conv_lhs => rw [← rdropWhile_append_rtakeWhile (p := isBlank) (l := header.rawName)]
  rw [trimEnd_append fun c hc => isWhitespace_of_isBlank (mem_rtakeWhile_imp hc)]
  exact trimEnd_of_isFrom h

lemma namedFrom_of_readAsFrom (h : readAsFrom header) : namedFrom header := by
  rw [namedFrom, name_eq_of_readAsFrom h]
  exact h

lemma readAsFrom_iff (h : namedFrom header) :
    readAsFrom header ↔ ∀ c ∈ header.padding, isBlank c := by
  constructor
  · intro hread c hc
    have hsplit : header.name ++ header.padding =
        header.name ++ header.rawName.rtakeWhile isBlank := by
      rw [header.name_append_padding, name_eq_of_readAsFrom hread,
        rdropWhile_append_rtakeWhile]
    rw [append_cancel_left hsplit] at hc
    exact mem_rtakeWhile_imp hc
  · intro hblank
    have hname : header.name.rdropWhile isBlank = header.name := by
      refine rdropWhile_eq_self_iff.2 fun hne hlast => ?_
      have hself := trimEnd_of_isFrom h
      exact rdropWhile_eq_self_iff.1 hself hne (isWhitespace_of_isBlank hlast)
    rw [readAsFrom, ← header.name_append_padding, List.rdropWhile, reverse_append,
      dropWhile_append_of_pos (by simpa using hblank), ← List.rdropWhile, hname]
    exact h

lemma countP_eq_countP_iff {α : Type*} {p q : α → Bool} {l : List α}
    (h : ∀ a, p a → q a) : l.countP p = l.countP q ↔ ∀ a ∈ l, q a → p a := by
  have hpart : l.countP p = (l.filter q).countP p := by
    rw [countP_filter]
    refine countP_congr fun a _ => ?_
    simpa using h a
  rw [hpart, countP_eq_length_filter (p := q), countP_eq_length]
  simp [mem_filter]

/-- The DMARC author check and the DKIM verifier count the same From fields if nothing but spaces
and tabs stands between the name of a From field and its colon, and only then. -/
theorem from_count_agrees_iff {raw : List UInt8} {message : Dkim.Message}
    (h : Dkim.Message.split raw = some message) :
    (fromFields raw).map List.length = some (message.headers.countP namedFrom) ↔
      ∀ header ∈ message.headers, namedFrom header → ∀ c ∈ header.padding, isBlank c := by
  obtain ⟨-, ⟨block, hblock, hscan⟩, -⟩ := Dkim.Message.split_eq_some h
  have hlength : (fromFields raw).map List.length = some (message.headers.countP readAsFrom) := by
    simp [fromFields, hblock, @length_scanFrom block none none _ rfl hscan]
  rw [hlength, some.injEq, countP_eq_countP_iff fun _ => namedFrom_of_readAsFrom]
  exact forall₃_congr fun header _ hnamed => readAsFrom_iff hnamed

/-- A From field with a vertical tab before its colon, in front of another. -/
def hiddenFrom : List UInt8 := "From\x0b: boss@a\r\nFrom: me@b\r\n\r\n".toUTF8.toList

/-- The verifier counts both fields, the author check reads one. -/
theorem hidden_from_is_missed :
    (Dkim.Message.split hiddenFrom).map (fun m => m.headers.countP namedFrom) = some 2 ∧
      fromFields hiddenFrom = some [" me@b".toList] := by
  decide +kernel

/-- The two counts of a message with a folded From field and a blank before the colon. -/
theorem from_count_agrees_obsolete :
    ∃ message, Dkim.Message.split "From : a@b,\r\n c@d\r\nto: e@f\n\n".toUTF8.toList =
      some message ∧
      ((fromFields "From : a@b,\r\n c@d\r\nto: e@f\n\n".toUTF8.toList).map List.length =
          some (message.headers.countP namedFrom) ↔
        ∀ header ∈ message.headers, namedFrom header → ∀ c ∈ header.padding, isBlank c) := by
  obtain ⟨message, h⟩ := isSome_iff_exists.1 (show (Dkim.Message.split
    "From : a@b,\r\n c@d\r\nto: e@f\n\n".toUTF8.toList).isSome by decide +kernel)
  exact ⟨message, h, from_count_agrees_iff h⟩

end Epistle.Dmarc
