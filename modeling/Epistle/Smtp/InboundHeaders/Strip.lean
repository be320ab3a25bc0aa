import Epistle.Lib.Compact
import Epistle.Lib.Groups
import Epistle.Smtp.InboundHeaders.Names
import Epistle.Smtp.Trace.Field

/-!
# Removing the authority a sender claims

`inbound_headers::strip` takes the fields out of an inbound message that only the server itself may
write. It goes through the header block once, field by field, and moves what it keeps down inside
the buffer.

* `strip_removes_fields`: exactly the fields to be removed are, and none is left.
-/

namespace Epistle.Smtp.InboundHeaders

open Lib Lib.Compact Lib.Lines Lib.Octets Trace List Option
open Utf8 (octetsOf)

/-! ## Which fields are removed -/

def isAsciiControl (byte : UInt8) : Bool := byte < 32 || byte = 127

def token (byte : UInt8) : Bool :=
  (33 ≤ byte && byte ≤ 126) && !(octetsOf "()<>@,;:\\\"/[]?=").contains byte

/-- Skip white space and nested comments. -/
def cfws (depth : ℕ) : List UInt8 → Option (List UInt8)
  | [] => if depth = 0 then some [] else none
  | byte :: tail =>
      if byte = 32 ∨ byte = 9 then cfws depth tail
      else if byte = cr then
        match tail with
        | feed :: rest => if feed = lf ∧ isContinuation rest then cfws depth rest else none
        | [] => none
      else if byte = 40 then cfws (depth + 1) tail
      else if byte = 41 ∧ 0 < depth then cfws (depth - 1) tail
      else if byte = 92 ∧ 0 < depth then
        match tail with
        | escaped :: tail => if isAsciiControl escaped ∧ escaped ≠ 9 then none else cfws depth tail
        | [] => none
      else if 0 < depth ∧ (¬ isAsciiControl byte ∨ byte = 9) then cfws depth tail
      else if depth = 0 then some (byte :: tail)
      else none

def quoted : List UInt8 → Option (List UInt8 × List UInt8)
  | [] => none
  | byte :: rest =>
      if byte = 34 then some ([], rest)
      else if byte = 92 then
        match rest with
        | escaped :: tail =>
            if isAsciiControl escaped ∧ escaped ≠ 9 then none
            else (quoted tail).map fun (id, rest) => (escaped :: id, rest)
        | [] => none
      else if byte = cr then
        match rest with
        | feed :: rest => if feed = lf ∧ isContinuation rest then quoted rest else none
        | [] => none
      else if isAsciiControl byte ∧ byte ≠ 9 then none
      else (quoted rest).map fun (id, rest) => (byte :: id, rest)

def isDigit (byte : UInt8) : Bool := 48 ≤ byte && byte ≤ 57

/-- The service that an `Authentication-Results` field names. -/
def authservId (value : List UInt8) : Option (List Char) := do
  let rest ← cfws 0 (trimAsciiEnd value)
  let (id, rest) ←
    if rest.head? = some 34 then quoted rest.tail
    else some (rest.takeWhile token, rest.dropWhile token)
  if id = [] then none
  let before := rest.length
  let rest ← cfws 0 rest
  let rest ←
    if (rest.head?.map isDigit).getD false then
      if before = rest.length then none else cfws 0 (rest.dropWhile isDigit)
    else some rest
  if rest.head? = some 59 then Utf8.decode id else none

/-- Without full stops at the end. -/
def trimDots (name : List Char) : List Char := name.rdropWhile (· = '.')

def remove (field : List UInt8) (hostname : List Char) (skipLeader : Bool) : Bool :=
  let offset := if skipLeader then nameStart field else 0
  match splitFieldFrom field offset with
  | none => false
  | some (name, value) =>
      if nameMatches name authenticationResults then
        match authservId value with
        | none => true
        | some id => Text.eqIgnoreAsciiCase (trimDots id) (trimDots hostname)
      else
        removedNames.any (nameMatches name ·) ||
          ["X-Spam-", "X-Epistle-"].any (nameStartsWith name <| octetsOf ·)

/-! ## The pass over the buffer -/

/-- Where a line ends. -/
def lineEnd (data : List UInt8) (start : ℕ) : ℕ :=
  match (data.drop start).findIdx? (· = lf) with
  | some i => start + i + 1
  | none => data.length

lemma lt_lineEnd {data : List UInt8} {start : ℕ} (h : start < data.length) :
    start < lineEnd data start := by
  unfold lineEnd
  split
  · omega
  · exact h

/-- Where a field ends, with the lines that continue it. -/
def fieldEnd (data : List UInt8) (read : ℕ) : ℕ :=
  if _h : read < data.length ∧ isContinuation (data.drop read) then fieldEnd data
    (lineEnd data read)
  else read
termination_by data.length - read
decreasing_by
  have := lt_lineEnd _h.1
  omega

lemma le_fieldEnd (data : List UInt8) (read : ℕ) : read ≤ fieldEnd data read := by
  fun_induction fieldEnd data read with
  | case1 read h ih => exact le_trans (le_of_lt (lt_lineEnd h.1)) ih
  | case2 read h => exact le_refl _

def isEmptyLine (line : List UInt8) : Bool := line = [cr, lf] || line = [lf]

/-- Move the fields that are kept to the front. -/
def compactFields (hostname : List Char) (skipLeader : Bool) (data : List UInt8) (read write : ℕ) :
    Option (List UInt8 × ℕ × ℕ) :=
  if hread : read < data.length then
    if isEmptyLine (slice data read (lineEnd data read - read)) then some (data, read, write)
    else
      let next := fieldEnd data (lineEnd data read)
      have _hnext : read < next := lt_of_lt_of_le (lt_lineEnd hread) (le_fieldEnd data _)
      if remove (slice data read (next - read)) hostname skipLeader then
        compactFields hostname skipLeader data next write
      else
        match _hcopy : copyWithin data read (next - read) write with
        | none => none
        | some data' => compactFields hostname skipLeader data' next (write + (next - read))
  else some (data, read, write)
termination_by data.length - read
decreasing_by
  · omega
  · have := length_copyWithin _hcopy
    omega

/-- A message without the fields that are removed. -/
def stripWith (data : List UInt8) (hostname : List Char) (skipLeader : Bool) :
    Option (List UInt8) := do
  let (data, read, write) ← compactFields hostname skipLeader data 0 0
  let tail := data.length - read
  let data ← copyWithin data read tail write
  return data.take (write + tail)

/-- Remove the fields that claim authority from a message. -/
def strip (data : List UInt8) (hostname : List Char) : Option (List UInt8) :=
  stripWith data hostname true

/-! ## Fields -/

def headerLines (data : List UInt8) : List (List UInt8) :=
  (splitInclusive lf data).takeWhile (!isEmptyLine ·)

def bodyLines (data : List UInt8) : List (List UInt8) :=
  (splitInclusive lf data).dropWhile (!isEmptyLine ·)

def fields (data : List UInt8) : List (List UInt8) :=
  (groups isContinuation (headerLines data)).map List.flatten

def body (data : List UInt8) : List UInt8 := (bodyLines data).flatten

lemma flatten_fields (data : List UInt8) : (fields data).flatten = (headerLines data).flatten := by
  rw [fields, ← flatten_flatten, flatten_groups]

lemma fields_append_body (data : List UInt8) : (fields data).flatten ++ body data = data := by
  rw [flatten_fields, body, headerLines, bodyLines, ← flatten_append,
    takeWhile_append_dropWhile, flatten_splitInclusive]

lemma not_isEmptyLine_of_isContinuation {line : List UInt8} (h : isContinuation line) :
    isEmptyLine line = false := by
  by_contra hempty
  simp only [isEmptyLine, Bool.or_eq_true, decide_eq_true_iff, Bool.not_eq_false] at hempty
  obtain rfl | rfl := hempty <;> exact absurd h (by decide)

lemma fields_of_line {rest line : List UInt8} {lines : List (List UInt8)}
    (hlines : splitInclusive lf rest = line :: lines) (hline : isEmptyLine line = false) :
    let field := line ++ (lines.takeWhile isContinuation).flatten
    let others := (lines.dropWhile isContinuation).flatten
    rest = field ++ others ∧ fields rest = field :: fields others ∧ body rest = body others := by
  intro field others
  have hsplit : line :: lines =
      (line :: lines.takeWhile isContinuation) ++ lines.dropWhile isContinuation := by
    rw [cons_append, takeWhile_append_dropWhile]
  have hothers : splitInclusive lf others = lines.dropWhile isContinuation := by
    apply splitInclusive_flatten_of_sublist (s := rest)
    rw [hlines]
    exact (dropWhile_sublist _).trans (sublist_cons_self line lines)
  have hheader : ∀ l ∈ lines.takeWhile isContinuation, (!isEmptyLine l) = true := fun l hl => by
    rw [not_isEmptyLine_of_isContinuation (mem_takeWhile_imp hl)]
    rfl
  have hall : ∀ l ∈ line :: lines.takeWhile isContinuation, (!isEmptyLine l) = true :=
    forall_mem_cons.2 ⟨by rw [hline]; rfl, hheader⟩
  have htake : headerLines rest =
      (line :: lines.takeWhile isContinuation) ++ headerLines others := by
    rw [headerLines, hlines, hsplit, takeWhile_append_of_pos hall, headerLines, hothers]
  refine ⟨?_, ?_, ?_⟩
  · rw [eq_flatten_of_splitInclusive hlines, hsplit, flatten_append]
    rfl
  · -- the lines after the field do not start with a continuation, so the group ends with it
    have hnext : (lines.takeWhile isContinuation ++ headerLines others).takeWhile isContinuation =
          lines.takeWhile isContinuation ∧
        (lines.takeWhile isContinuation ++ headerLines others).dropWhile isContinuation =
          headerLines others := by
      have hcont : ∀ l ∈ lines.takeWhile isContinuation, isContinuation l = true :=
        fun l hl => mem_takeWhile_imp hl
      rw [takeWhile_append_of_pos hcont, dropWhile_append_of_pos hcont, headerLines,
        hothers]
      have hhead := List.head?_dropWhile_not isContinuation lines
      cases hdrop : lines.dropWhile isContinuation with
      | nil => simp
      | cons l ls =>
        rw [hdrop] at hhead
        have hl : isContinuation l = false := hhead
        cases hempty : isEmptyLine l <;> simp [hl, hempty]
    rw [fields, htake, cons_append, groups_cons, hnext.1, hnext.2]
    rfl
  · rw [body, bodyLines, hlines, hsplit, dropWhile_append_of_pos hall, body, bodyLines, hothers]

/-! ## What the pass does -/

section Pass

variable {data orig out line : List UInt8} {lines : List (List UInt8)} {read start : ℕ}

lemma lineEnd_eq (hlines : splitInclusive lf (data.drop start) = line :: lines) :
    lineEnd data start = start + line.length := by
  unfold lineEnd
  generalize hrest : data.drop start = rest at hlines ⊢
  induction rest using line_induction lf with
  | nil => cases hlines
  | plain l hl hne =>
    rw [splitInclusive_plain hl hne] at hlines
    obtain ⟨rfl, -⟩ := List.cons.inj hlines
    have hnone : l.findIdx? (· = lf) = none :=
      List.findIdx?_eq_none_iff.2 fun b hb => decide_eq_false fun heq => hl (heq ▸ hb)
    have hlen := congrArg List.length hrest
    have hpos := length_pos_iff.2 hne
    rw [length_drop] at hlen
    rw [hnone]
    dsimp only
    omega
  | line l s hl _ =>
    rw [splitInclusive_line hl] at hlines
    obtain ⟨rfl, -⟩ := List.cons.inj hlines
    have hsome : (l ++ lf :: s).findIdx? (· = lf) = some l.length := by
      have hnone : l.findIdx? (· = lf) = none :=
        List.findIdx?_eq_none_iff.2 fun b hb => decide_eq_false fun heq => hl (heq ▸ hb)
      rw [List.findIdx?_append, hnone]
      simp [List.findIdx?_cons]
    rw [hsome, length_append]
    rfl

lemma drop_lineEnd (hlines : splitInclusive lf (data.drop start) = line :: lines) :
    data.drop (lineEnd data start) = lines.flatten ∧
      splitInclusive lf (data.drop (lineEnd data start)) = lines := by
  have hflat : data.drop start = line ++ lines.flatten := eq_flatten_of_splitInclusive hlines
  have hdrop : data.drop (lineEnd data start) = lines.flatten := by
    rw [lineEnd_eq hlines, ← drop_drop, hflat, drop_left]
  refine ⟨hdrop, ?_⟩
  rw [hdrop]
  apply splitInclusive_flatten_of_sublist (s := data.drop start)
  rw [hlines]
  exact sublist_cons_self line lines

lemma fieldEnd_eq (hlines : splitInclusive lf (data.drop read) = lines) :
    fieldEnd data read = read + (lines.takeWhile isContinuation).flatten.length := by
  induction lines generalizing read with
  | nil =>
    have hend : data.drop read = [] := eq_flatten_of_splitInclusive hlines
    rw [fieldEnd, dif_neg fun h => absurd h.2 (by rw [hend]; decide)]
    rfl
  | cons line lines ih =>
    have hflat : data.drop read = line ++ lines.flatten := eq_flatten_of_splitInclusive hlines
    have hne : line ≠ [] := by
      have hmem : line ∈ splitInclusive lf (data.drop read) := hlines ▸ mem_cons_self
      exact ne_nil_of_mem_splitInclusive hmem
    have hcont : isContinuation (data.drop read) = isContinuation line := by
      rw [isContinuation, isContinuation, hflat, List.head?_append_of_ne_nil _ hne]
    cases hline : isContinuation line with
    | false =>
      have hstop : ¬ (read < data.length ∧ isContinuation (data.drop read)) := by
        rintro ⟨-, hblank⟩
        rw [hcont, hline] at hblank
        cases hblank
      rw [fieldEnd, dif_neg hstop, takeWhile_cons_of_neg (by simp [hline])]
      rfl
    | true =>
      have hread : read < data.length := by
        have hlen := congrArg List.length hflat
        have hpos := length_pos_iff.2 hne
        rw [length_drop, length_append] at hlen
        omega
      rw [fieldEnd, dif_pos ⟨hread, hcont.trans hline⟩, ih (drop_lineEnd hlines).2,
        lineEnd_eq hlines,
        takeWhile_cons_of_pos hline, flatten_cons, length_append, add_assoc]

lemma slice_left {front rest : List UInt8} (h : data.drop start = front ++ rest) :
    slice data start front.length = front := by
  rw [slice, h, take_left]

variable (hostname : List Char) (skipLeader : Bool)

def keptFields (data : List UInt8) : List (List UInt8) :=
  (fields data).filter (!remove · hostname skipLeader)

lemma compactFields_of_field {field rest : List UInt8} {write : ℕ} (hread : read < data.length)
    (hline : isEmptyLine (slice data read (lineEnd data read - read)) = false)
    (hfield : data.drop read = field ++ rest)
    (hnext : fieldEnd data (lineEnd data read) = read + field.length) :
    compactFields hostname skipLeader data read write =
      if remove field hostname skipLeader then
        compactFields hostname skipLeader data (read + field.length) write
      else
        (copyWithin data read field.length write).bind fun data' =>
          compactFields hostname skipLeader data' (read + field.length) (write + field.length) := by
  have hlen : fieldEnd data (lineEnd data read) - read = field.length := by omega
  have hslice : slice data read (fieldEnd data (lineEnd data read) - read) = field := by
    rw [hlen, slice_left hfield]
  rw [← hnext, ← hlen, compactFields, dif_pos hread, hline, if_neg Bool.false_ne_true]
  dsimp only
  rw [hslice]
  split
  · rfl
  · split
    · rename_i hcopy
      rw [hcopy]
      rfl
    · rename_i hcopy
      rw [hcopy]
      rfl

lemma fields_of_empty_line (hlines : splitInclusive lf data = line :: lines)
    (hline : isEmptyLine line) : fields data = [] ∧ body data = data := by
  have hheader : headerLines data = [] := by
    rw [headerLines, hlines, takeWhile_cons_of_neg (by simp [hline])]
  have hfields : fields data = [] := by
    rw [fields, hheader]
    rfl
  have hwhole := fields_append_body data
  rw [hfields] at hwhole
  exact ⟨hfields, hwhole⟩

lemma compactFields_spec (h : Compacted orig out read data) :
    ∃ data' read', let out' := out ++ (keptFields hostname skipLeader (orig.drop read)).flatten
      compactFields hostname skipLeader data read out.length = some (data', read', out'.length) ∧
      Compacted orig out' read' data' ∧ orig.drop read' = body (orig.drop read) := by
  induction hn : orig.length - read using Nat.strongRecOn generalizing read data out with
  | ind n ih =>
  cases hlines : splitInclusive lf (data.drop read) with
  | nil =>
    -- The message ends without an empty line.
    have hend : data.drop read = [] := eq_flatten_of_splitInclusive hlines
    have hstop : ¬ read < data.length := Nat.not_lt.2 (drop_eq_nil_iff.1 hend)
    rw [compactFields, dif_neg hstop, ← h.behind, hend]
    exact ⟨data, read, by simp [keptFields, fields, headerLines, groups], by
      simpa [keptFields, fields, headerLines, groups] using h, by rw [← h.behind, hend]; rfl⟩
  | cons line lines =>
    have hread : read < data.length := by
      by_contra hge
      rw [drop_eq_nil_iff.2 (Nat.not_lt.1 hge)] at hlines
      cases hlines
    have hflat : data.drop read = line ++ lines.flatten := eq_flatten_of_splitInclusive hlines
    have hlines' : splitInclusive lf (orig.drop read) = line :: lines := h.behind ▸ hlines
    have hslice : slice data read (lineEnd data read - read) = line := by
      rw [lineEnd_eq hlines, Nat.add_sub_cancel_left, slice_left hflat]
    cases hline : isEmptyLine line with
    | true =>
      -- The body starts here.
      obtain ⟨hfields, hbody⟩ := fields_of_empty_line hlines' hline
      rw [compactFields, dif_pos hread, hslice, if_pos hline, keptFields, hfields, hbody]
      exact ⟨data, read, by simp, by simpa using h, rfl⟩
    | false =>
      obtain ⟨hfield, hfields, hbody⟩ := fields_of_line hlines' hline
      have hnext : fieldEnd data (lineEnd data read) =
          read + (line ++ (lines.takeWhile isContinuation).flatten).length := by
        rw [fieldEnd_eq (drop_lineEnd hlines).2, lineEnd_eq hlines, length_append, add_assoc]
      have hpos : 0 < (line ++ (lines.takeWhile isContinuation).flatten).length := by
        have := lt_lineEnd hread
        have := le_fieldEnd data (lineEnd data read)
        omega
      rw [compactFields_of_field hostname skipLeader hread (hslice.symm ▸ hline)
        (h.behind.trans hfield) hnext, keptFields, hfields, hbody]
      generalize line ++ (lines.takeWhile isContinuation).flatten = field at *
      generalize (lines.dropWhile isContinuation).flatten = others at *
      have hbound : read + field.length ≤ orig.length := by
        have hlen := congrArg List.length hfield
        rw [length_drop, length_append] at hlen
        have := h.bound
        omega
      have hdrop : orig.drop (read + field.length) = others := by
        rw [← drop_drop, hfield, drop_left]
      -- A field that goes is passed over; one that stays moves up behind those kept so far.
      cases hremove : remove field hostname skipLeader with
      | true =>
        obtain ⟨data', read', hrest⟩ :=
          ih _ (by omega) (h.skip (Nat.le_add_right read field.length) hbound) rfl
        rw [if_pos rfl, filter_cons_of_neg (by simp [hremove])]
        exact ⟨data', read', by rwa [hdrop] at hrest⟩
      | false =>
        obtain ⟨copied, hcopy, hmoved⟩ := h.copy hbound
        obtain ⟨data', read', hrest⟩ := ih _ (by omega) hmoved rfl
        have hslice : slice orig read field.length = field := slice_left hfield
        rw [if_neg Bool.false_ne_true, hcopy, filter_cons_of_pos (by simp [hremove]),
          flatten_cons, ← append_assoc]
        rw [hdrop, hslice, length_append] at hrest
        exact ⟨data', read', hrest⟩

lemma stripWith_eq (data : List UInt8) :
    stripWith data hostname skipLeader =
      some ((keptFields hostname skipLeader data).flatten ++ body data) := by
  obtain ⟨data', read', hpass, hmoved, hrest⟩ :=
    compactFields_spec hostname skipLeader (Compacted.start data)
  rw [drop_zero] at hpass hmoved hrest
  rw [nil_append] at hpass hmoved
  have hbound : read' + (data.length - read') ≤ data.length := by
    have := hmoved.bound
    omega
  have htail : slice data read' (data.length - read') = body data := by
    rw [slice, ← length_drop, take_length, hrest]
  obtain ⟨data'', hcopy, hdone⟩ := hmoved.copy hbound
  have hfront := hdone.front
  rw [length_append, length_slice hbound, htail] at hfront
  unfold stripWith
  rw [show compactFields hostname skipLeader data 0 0 = _ from hpass, bind_eq_bind,
    bind_some]
  dsimp only
  rw [hmoved.length, hcopy, bind_eq_bind, bind_some, hfront]
  rfl

/-! ## What is left -/

lemma fields_keep (data : List UInt8) :
    let out := (keptFields hostname skipLeader data).flatten ++ body data
    fields out = keptFields hostname skipLeader data ∧ body out = body data := by
  intro out
  let kept := (groups isContinuation (headerLines data)).filter
    fun group => !remove group.flatten hostname skipLeader
  have hkept : keptFields hostname skipLeader data = kept.map List.flatten := by
    rw [keptFields, fields, List.filter_map]
    rfl
  have hgroups : kept.Sublist (groups isContinuation (headerLines data)) := filter_sublist
  have hflat : kept.flatten.Sublist (headerLines data) := by
    have hsub := hgroups.flatten
    rwa [flatten_groups] at hsub
  -- Whole lines were taken out, so the others are lines as before.
  have hlines : splitInclusive lf out = kept.flatten ++ bodyLines data := by
    have hout : out = (kept.flatten ++ bodyLines data).flatten := by
      rw [flatten_append, flatten_flatten, ← hkept]
      rfl
    rw [hout]
    apply splitInclusive_flatten_of_sublist (s := data)
    have hsub := hflat.append_right (bodyLines data)
    rwa [headerLines, bodyLines, takeWhile_append_dropWhile] at hsub
  have hheader : ∀ line ∈ kept.flatten, (!isEmptyLine line) = true := by
    intro line hline
    have hblock := mem_takeWhile_imp (hflat.subset hline)
    exact hblock
  -- The body still starts at its empty line.
  have hbody : (bodyLines data).takeWhile (!isEmptyLine ·) = [] ∧
      (bodyLines data).dropWhile (!isEmptyLine ·) = bodyLines data := by
    have hhead := List.head?_dropWhile_not (!isEmptyLine ·) (splitInclusive lf data)
    unfold bodyLines
    cases hdrop : (splitInclusive lf data).dropWhile (!isEmptyLine ·) with
    | nil => exact ⟨rfl, rfl⟩
    | cons line lines =>
      rw [hdrop] at hhead
      have hline : isEmptyLine line = true := by simpa using hhead
      simp [hline]
  constructor
  · rw [fields, headerLines, hlines, takeWhile_append_of_pos hheader, hbody.1, append_nil,
      groups_flatten_of_sublist hgroups, hkept]
  · rw [body, bodyLines, hlines, dropWhile_append_of_pos hheader, hbody.2, body]

end Pass

/-- **Exactly the fields to be removed are removed.** The others are left in order and byte for
byte, and so is everything from the first empty line on. None that would be removed is left, so a
second pass changes nothing. -/
theorem strip_removes_fields (data : List UInt8) (hostname : List Char) :
    (fields data).flatten ++ body data = data ∧
      ∃ out, strip data hostname = some out ∧
        out = ((fields data).filter (!remove · hostname true)).flatten ++ body data ∧
        fields out = (fields data).filter (!remove · hostname true) ∧ body out = body data ∧
        (∀ field ∈ fields out, remove field hostname true = false) ∧
        strip out hostname = some out := by
  obtain ⟨hfields, hbody⟩ := fields_keep hostname true data
  have hnone : ∀ field ∈ keptFields hostname true data, (!remove field hostname true) = true :=
    fun field hfield => (mem_filter.1 hfield).2
  refine ⟨fields_append_body data, _, stripWith_eq hostname true data, rfl, hfields, hbody, ?_, ?_⟩
  · intro field hfield
    rw [hfields] at hfield
    simpa using hnone field hfield
  · rw [strip, stripWith_eq, hbody, keptFields, hfields, filter_eq_self.2 hnone]

end Epistle.Smtp.InboundHeaders
