import Epistle.Dkim.Sign
import Mathlib.Data.List.Chain

/-!
# Header fields in front of a message

How the signer and the verifier split a message into fields. The verifier accepts no more than the
signer and reads the same fields (`mapM_fieldTexts`).
-/

namespace Epistle.Dkim

open Lib Lib.Text Lib.Lines Util.HeaderBlock List Option

/-! ## Splitting -/

lemma headerPair_eq (text : List Char) :
    headerPair text = (parseHeader text).map fun header => (header.name, header.value) := by
  cases h : splitOnce ':' (chomp '\r' '\n' text) <;> simp [headerPair, parseHeader, h]

lemma mapM_fieldTexts {current : Option (List Char)} {lines : List (List Char)}
    {headers : List Header} (h : scanHeaders current lines = some headers) :
    (fieldTexts current lines).mapM parseHeader = some headers := by
  have finish : ∀ {current done}, finishHeader current = some done →
      current.toList.mapM parseHeader = some done := by
    intro current done hdone
    cases current with
    | none => simpa [finishHeader] using hdone
    | some raw =>
      obtain ⟨header, hparse, rfl⟩ : ∃ header, parseHeader raw = some header ∧
          [header] = done := by
        simpa [finishHeader] using hdone
      simp [hparse]
  induction lines generalizing current headers with
  | nil => exact finish h
  | cons line rest ih =>
    unfold scanHeaders at h
    unfold fieldTexts
    by_cases hcont : continues (content line)
    · rw [if_pos hcont] at h ⊢
      cases current with
      | none => cases h
      | some raw => exact ih h
    · rw [if_neg hcont] at h ⊢
      simp only [bind_eq_bind, bind_eq_some_iff] at h
      obtain ⟨done, hdone, more, hmore, heq⟩ := h
      rw [mapM_append, finish hdone, ih hmore]
      exact heq

lemma head?_content {line : List Char} {c : Char} (h : line.head? = some c) (hcr : c ≠ '\r')
    (hlf : c ≠ '\n') : (content line).head? = some c := by
  have hmem : c ∈ content line := mem_chomp (mem_of_head? h) hcr hlf
  obtain ⟨tail, htail⟩ : content line <+: line := chomp_prefix ..
  cases hcontent : content line with
  | nil => simp [hcontent] at hmem
  | cons d rest =>
    rw [hcontent] at htail
    rw [← htail] at h
    simpa using h

lemma continues_content {line : List Char} (h : continues line) : continues (content line) := by
  obtain h | h : line.head? = some ' ' ∨ line.head? = some '\t' := by simpa [continues] using h
  · simp [continues, head?_content h (by decide) (by decide)]
  · simp [continues, head?_content h (by decide) (by decide)]

lemma scanHeaders_conts {raw : List Char} {conts rest : List (List Char)}
    (hconts : ∀ line ∈ conts, continues (content line))
    (hrest : ∀ line ∈ rest.head?, continues (content line) = false) :
    scanHeaders (some raw) (conts ++ rest) = do
      let header ← parseHeader (raw ++ conts.flatten)
      let more ← scanHeaders none rest
      return header :: more := by
  induction conts generalizing raw with
  | nil =>
    cases rest with
    | nil => cases h : parseHeader raw <;> simp [scanHeaders, finishHeader, h]
    | cons line rest =>
      have hline : continues (content line) = false := hrest line (by simp)
      cases h : parseHeader raw <;> simp [scanHeaders, finishHeader, h, hline]
  | cons line conts ih =>
    obtain ⟨hline, hconts⟩ := forall_mem_cons.1 hconts
    simp [scanHeaders, hline, ih hconts]

lemma scanHeaders_field {first : List Char} {conts rest : List (List Char)}
    (hfirst : continues (content first) = false) (hne : content first ≠ [])
    (hconts : ∀ line ∈ conts, continues (content line))
    (hrest : ∀ line ∈ rest.head?, continues (content line) = false) :
    scanHeaders none (first :: conts ++ rest) = do
      let header ← parseHeader (first :: conts).flatten
      let more ← scanHeaders none rest
      return header :: more := by
  rw [flatten_cons, ← scanHeaders_conts hconts hrest, cons_append]
  simp only [scanHeaders, hfirst, hne, finishHeader]
  cases h : scanHeaders (some first) (conts ++ rest) <;> simp [h]

variable {text s : List Char} {fields : List (List Char)}

lemma continues_head_line (h : continues text = false) :
    ∀ line ∈ (splitInclusive '\n' text).head?, continues (content line) = false := by
  intro line hline
  cases hlines : splitInclusive '\n' text with
  | nil => simp [hlines] at hline
  | cons first rest =>
    obtain rfl : first = line := by simpa [hlines] using hline
    obtain ⟨tail, htail⟩ : content first <+: first := chomp_prefix ..
    have hflat : (splitInclusive '\n' text).flatten = text := flatten_splitInclusive text
    cases hcontent : content first with
    | nil => rfl
    | cons c more =>
      have hhead : text.head? = some c := by
        rw [← hflat, hlines, flatten_cons, ← htail, hcontent]
        rfl
      simpa [continues, hhead] using h

/-! ## Folding -/

def FoldNext (c d : Char) : Prop := c = '\n' → d = ' ' ∨ d = '\t'

lemma isChain_of_no_feed (h : '\n' ∉ s) : List.IsChain FoldNext s := by
  induction s with
  | nil => exact .nil
  | cons c s ih =>
    obtain ⟨hc, hs⟩ := not_or.1 (mt mem_cons.2 h)
    cases s with
    | nil => exact .singleton c
    | cons d s => exact .cons_cons (fun hfeed => absurd hfeed.symm hc) (ih hs)

lemma IsChain.append {t : List Char} (hs : List.IsChain FoldNext s)
    (hlast : s.getLast? ≠ some '\n') (ht : List.IsChain FoldNext t) :
    List.IsChain FoldNext (s ++ t) := by
  refine isChain_append.2 ⟨hs, ht, fun x hx y _ hfeed => ?_⟩
  exact absurd (hfeed ▸ hx) hlast

lemma continues_of_mem_tail_lines (h : List.IsChain FoldNext s) :
    ∀ line ∈ (splitInclusive '\n' s).tail, continues line := by
  induction s using line_induction '\n' with
  | nil => simp
  | plain l hl hne => simp [splitInclusive_plain hl hne]
  | line l s hl ih =>
    rw [splitInclusive_line hl, tail_cons]
    rw [append_cons] at h
    obtain ⟨-, hs, hnext⟩ := isChain_append.1 h
    intro line hline
    cases hlines : splitInclusive '\n' s with
    | nil => simp [hlines] at hline
    | cons first rest =>
      rw [hlines, mem_cons] at hline
      obtain rfl | hline := hline
      · have hne : line ≠ [] := ne_nil_of_mem_splitInclusive (hlines ▸ mem_cons_self ..)
        obtain ⟨d, line, rfl⟩ := exists_cons_of_ne_nil hne
        have hflat : (splitInclusive '\n' s).flatten = s := flatten_splitInclusive s
        have hs : s = d :: (line ++ rest.flatten) := by
          rw [← hflat, hlines]
          simp
        simpa [continues] using hnext '\n' (by simp) d (by simp [hs]) rfl
      · exact ih hs line (by simpa [hlines] using hline)

/-! ## Fields in front of a message -/

/-- A character a field may start with: one octet, and neither a blank nor part of a line end. -/
structure IsFieldStart (c : Char) : Prop where
  ascii : c.toNat < 128
  space : c ≠ ' '
  tab : c ≠ '\t'
  cr : c ≠ '\r'
  lf : c ≠ '\n'

/-- A field: a line that starts one, and lines that continue it. -/
structure IsField (text : List Char) : Prop where
  head : ∃ c, text.head? = some c ∧ IsFieldStart c
  folded : List.IsChain FoldNext text
  ends : ∃ front, text = front ++ ['\n']

lemma IsField.lines (h : IsField text) :
    ∃ first conts, splitInclusive '\n' text = first :: conts ∧
      (∃ c, first.head? = some c ∧ IsFieldStart c) ∧ ∀ line ∈ conts, continues line := by
  have hflat : (splitInclusive '\n' text).flatten = text := flatten_splitInclusive text
  obtain ⟨c, hc, hstart⟩ := h.head
  cases hlines : splitInclusive '\n' text with
  | nil =>
    rw [← hflat, hlines] at hc
    cases hc
  | cons first conts =>
    refine ⟨first, conts, rfl, ⟨c, ?_, hstart⟩, ?_⟩
    · have hne : first ≠ [] := ne_nil_of_mem_splitInclusive (hlines ▸ mem_cons_self ..)
      obtain ⟨d, rest, rfl⟩ := exists_cons_of_ne_nil hne
      rw [← hflat, hlines] at hc
      simpa using hc
    · simpa [hlines] using continues_of_mem_tail_lines h.folded

lemma IsField.splitInclusive_append (h : IsField text) (rest : List Char) :
    splitInclusive '\n' (text ++ rest) = splitInclusive '\n' text ++ splitInclusive '\n' rest := by
  obtain ⟨front, rfl⟩ := h.ends
  exact Lines.splitInclusive_append front rest

lemma IsField.not_continues (h : IsField text) (rest : List Char) :
    continues (text ++ rest) = false := by
  obtain ⟨c, hc, hstart⟩ := h.head
  simp [continues, List.head?_append, hc, hstart.space, hstart.tab]

lemma scanHeaders_fields (hfields : ∀ field ∈ fields, IsField field) {block : List Char}
    (hblock : continues block = false) :
    scanHeaders none (splitInclusive '\n' (fields.flatten ++ block)) = do
      let headers ← fields.mapM parseHeader
      let more ← scanHeaders none (splitInclusive '\n' block)
      return headers ++ more := by
  induction fields with
  | nil => cases h : scanHeaders none (splitInclusive '\n' block) <;> simp [h]
  | cons field fields ih =>
    obtain ⟨hfield, hrest⟩ := forall_mem_cons.1 hfields
    obtain ⟨first, conts, hlines, ⟨c, hfirst, hstart⟩, hconts⟩ := hfield.lines
    have hhead : (content first).head? = some c := head?_content hfirst hstart.cr hstart.lf
    have hflat : (first :: conts).flatten = field := by
      rw [← hlines]
      exact flatten_splitInclusive field
    have hfirst' : continues (content first) = false := by
      simp [continues, hhead, hstart.space, hstart.tab]
    -- What follows starts with a field, or is the block.
    have hnext : continues (fields.flatten ++ block) = false := by
      cases fields with
      | nil => exact hblock
      | cons next fields =>
        rw [flatten_cons, append_assoc]
        exact (hrest next (mem_cons_self ..)).not_continues _
    rw [flatten_cons, append_assoc, hfield.splitInclusive_append, hlines,
      scanHeaders_field hfirst' (by intro h; simp [h] at hhead)
        (fun line hline => continues_content (hconts line hline)) (continues_head_line hnext),
          hflat,
      ih hrest, mapM_cons]
    cases parseHeader field <;> cases fields.mapM parseHeader <;>
      cases scanHeaders none (splitInclusive '\n' block) <;> simp

open Utf8

lemma IsField.unterminated_ne_nil (h : IsField text) :
    ∀ line ∈ splitInclusive lf (encode text), unterminated line ≠ [] := by
  rw [splitInclusive_encode]
  intro line hline
  obtain ⟨line, htext, rfl⟩ := List.mem_map.1 hline
  -- The first character of a line is one octet, which no terminator has.
  obtain ⟨c, hc, hascii, hcr, hlf⟩ :
      ∃ c, line.head? = some c ∧ c.toNat < 128 ∧ c ≠ '\r' ∧ c ≠ '\n' := by
    obtain ⟨first, conts, hlines, ⟨c, hfirst, hstart⟩, hconts⟩ := h.lines
    rw [hlines] at htext
    obtain rfl | htext := mem_cons.1 htext
    · exact ⟨c, hfirst, hstart.ascii, hstart.cr, hstart.lf⟩
    · obtain h | h : line.head? = some ' ' ∨ line.head? = some '\t' := by
        simpa [continues] using hconts line htext
      · exact ⟨' ', h, by decide, by decide, by decide⟩
      · exact ⟨'\t', h, by decide, by decide, by decide⟩
  have hne : ∀ {d : Char}, d.toNat < 128 → c ≠ d → UInt8.ofNat c.toNat ≠ UInt8.ofNat d.toNat := by
    intro d hd hcd heq
    have := congrArg UInt8.toNat heq
    rw [toNat_octet (by omega), toNat_octet (by omega)] at this
    exact hcd (Char.toNat_inj.1 this)
  exact Util.HeaderBlock.unterminated_ne_nil (mem_encode_of_ascii (mem_of_head? hc) hascii)
    (hne (d := '\r') (by decide) hcr) (hne (d := '\n') (by decide) hlf)

lemma splitAtBlankLine_fields (hfields : ∀ field ∈ fields, IsField field) (raw : List UInt8) :
    splitAtBlankLine (encode fields.flatten ++ raw) =
      (encode fields.flatten ++ (splitAtBlankLine raw).1, (splitAtBlankLine raw).2) := by
  induction fields with
  | nil => rfl
  | cons field fields ih =>
    obtain ⟨hfield, hrest⟩ := forall_mem_cons.1 hfields
    obtain ⟨front, hfront⟩ := hfield.ends
    have hencode : encode field = encode front ++ [lf] := by
      rw [hfront, encode_append]
      rfl
    rw [flatten_cons, encode_append, append_assoc, hencode,
      splitAtBlankLine_append (hencode ▸ hfield.unterminated_ne_nil), ih hrest]
    simp

lemma split_fields (hfields : ∀ field ∈ fields, IsField field) {raw : List UInt8}
    {block : List Char} {message : Message}
    (hdecode : decode (splitAtBlankLine raw).1 = some block)
    (hblock : continues block = false)
    (hsplit : Message.split (encode fields.flatten ++ raw) = some message) :
    ∃ front headers, fields.mapM parseHeader = some front ∧
      scanHeaders none (splitInclusive '\n' block) = some headers ∧
      message = { headers := front ++ headers, body := (splitAtBlankLine raw).2 } := by
  obtain ⟨-, ⟨whole, hwhole, hscan⟩, hbody⟩ := Message.split_eq_some hsplit
  rw [splitAtBlankLine_fields hfields] at hwhole hbody
  rw [decode_encode_append, hdecode, map_some, some.injEq] at hwhole
  rw [← hwhole, scanHeaders_fields hfields hblock] at hscan
  simp only [bind_eq_bind, bind_eq_some_iff] at hscan
  obtain ⟨front, hfront, headers, hheaders, heq⟩ := hscan
  refine ⟨front, headers, hfront, hheaders, ?_⟩
  obtain ⟨messageHeaders, messageBody⟩ := message
  simp only [Option.pure_def, some.injEq] at heq hbody
  rw [heq, hbody]

end Epistle.Dkim
