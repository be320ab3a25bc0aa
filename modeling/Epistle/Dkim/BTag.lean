import Epistle.Dkim.Field

/-!
# Emptying the signature

Two readers of a tag list find the signature in it. The parser (`dkim/signature`) takes the name of
a tag to be what stands before the equals sign, without the white space around it. `stripBTag`
(`dkim/verify`) knows `b=` and `b =` and writes both as `b=`. White space of another kind in front
of the equals sign leaves the signature in its place, and a space is lost.

* `Signature.stripBTag_iff`: when that tag is emptied, and nothing else.
-/

namespace Epistle.Dkim

open Lib Lib.Text Lib.Fallible List Option

/-! ## Trimming a tag -/

lemma trimStart_append_eq (s r : List Char) {c : Char} (hc : isWhitespace c = false) :
    trimStart (s ++ c :: r) = trimStart s ++ c :: r := by
  induction s with
  | nil => simp [trimStart, hc]
  | cons d s ih =>
    by_cases hd : isWhitespace d
    · simpa [trimStart, hd] using ih
    · simp [trimStart, hd]

lemma exists_of_trim (s : List Char) :
    ∃ p q, (∀ c ∈ p, isWhitespace c) ∧ (∀ c ∈ q, isWhitespace c) ∧ s = p ++ trim s ++ q := by
  refine ⟨s.takeWhile isWhitespace, (trimStart s).rtakeWhile isWhitespace,
    fun c hc => mem_takeWhile_imp hc, fun c hc => mem_rtakeWhile_imp hc, ?_⟩
  have hend : trimStart s = trim s ++ (trimStart s).rtakeWhile isWhitespace :=
    (rdropWhile_append_rtakeWhile).symm
  rw [append_assoc, ← hend]
  exact (takeWhile_append_dropWhile).symm

lemma trim_trimStart (s : List Char) : trim (trimStart s) = trim s := by
  rw [trim, trim, trimStart, trimStart, dropWhile_idempotent]

variable {front value tag : List Char} {tags tags' : Tags}

lemma splitOnce_trim (h : '=' ∉ front) :
    splitOnce '=' (trim (front ++ '=' :: value)) = some (trimStart front, trimEnd value) := by
  rw [splitOnce_eq_some, trim, trimStart_append_eq _ _ (by decide),
    trimEnd_append_cons _ _ (by decide)]
  exact ⟨rfl, fun hmem => h ((trimStart_suffix front).subset hmem)⟩

/-! ## The tag that is read -/

def tagName (tag : List Char) : Option (List Char) :=
  (splitOnce '=' (trim tag)).map fun (name, _) => trim name

lemma tagName_append (h : '=' ∉ front) : tagName (front ++ '=' :: value) = some (trim front) := by
  rw [tagName, splitOnce_trim h]
  exact congrArg some (trim_trimStart front)

lemma tagName_eq_none (h : '=' ∉ tag) : tagName tag = none := by
  have htrim : '=' ∉ trim tag := by
    obtain ⟨p, q, -, -, htag⟩ := exists_of_trim tag
    intro hmem
    refine h (htag ▸ ?_)
    simp [hmem]
  rw [tagName, splitOnce_eq_none.2 htrim, map_none]

/-- A tag list of which one tag is named `b`, and is what the signature was read from. -/
structure Signature.Reads (octets : List UInt8) (tags : List (List Char))
    (before : List (List Char)) (front value : List Char) (after : List (List Char)) : Prop where
  tags_eq : tags = before ++ (front ++ '=' :: value) :: after
  no_equals : '=' ∉ front
  name_eq : trim front = ['b']
  decode_eq : Base64.decode (compact value) = some octets
  others : ∀ tag ∈ before ++ after, tagName tag ≠ some ['b']

lemma Tags.read_eq_ok (h : tags.read tag = .ok tags') :
    (tagName tag = none ∧ tags' = tags) ∨
    ∃ front value, tag = front ++ '=' :: value ∧ '=' ∉ front ∧ trim front ∉ tags.seen ∧
      Tags.set { tags with seen := tags.seen ++ [trim front] } (compact value)
        (.ofText (trim front)) = .ok tags' := by
  unfold Tags.read at h
  dsimp only at h
  by_cases hempty : trim tag = []
  · rw [if_pos hempty] at h
    refine .inl ⟨?_, (Except.ok.inj h).symm⟩
    rw [tagName, hempty]
    rfl
  rw [if_neg hempty] at h
  cases hsplit : splitOnce '=' tag with
  | none =>
    -- Without an equals sign the list is refused.
    have hname := tagName_eq_none (splitOnce_eq_none.1 hsplit)
    rw [tagName, map_eq_none_iff] at hname
    rw [hname] at h
    cases h
  | some parts =>
    obtain ⟨front, value⟩ := parts
    obtain ⟨rfl, hfront⟩ := splitOnce_eq_some.1 hsplit
    rw [splitOnce_trim hfront] at h
    dsimp only at h
    rw [trim_trimStart] at h
    split_ifs at h with hseen hmany
    rw [compact_trimEnd] at h
    exact .inr ⟨front, value, rfl, hfront, hseen, h⟩

lemma Tags.set_signature {name : TagName} (h : tags.set value name = .ok tags') :
    (name ≠ .b → tags'.signature = tags.signature) ∧
      (name = .b → ∃ octets, Base64.decode value = some octets ∧
        tags'.signature = some octets) := by
  -- A value that does not parse sets nothing.
  cases name
  case b =>
    obtain ⟨octets, hoctets, rfl⟩ := bind_pure_eq_ok h
    refine ⟨fun hne => absurd rfl hne, fun _ => ⟨octets, ?_, rfl⟩⟩
    unfold decodeBase64 at hoctets
    split at hoctets
    · rename_i decoded hdecoded
      rw [hdecoded, Except.ok.inj hoctets]
    · cases hoctets
  case v | d | s | unknown =>
    obtain rfl := Except.ok.inj h
    exact ⟨fun _ => rfl, fun hb => nomatch hb⟩
  all_goals
    obtain ⟨a, -, rfl⟩ := bind_pure_eq_ok h
    exact ⟨fun _ => rfl, fun hb => nomatch hb⟩

lemma TagName.ofText_eq_b {name : List Char} : TagName.ofText name = .b ↔ name = ['b'] := by
  constructor
  · intro h
    unfold TagName.ofText at h
    split at h <;> first | rfl | cases h
  · rintro rfl
    rfl

lemma Signature.Reads.cons {octets : List UInt8} {list before after : List (List Char)}
    {front value tag : List Char} (h : Reads octets list before front value after)
    (htag : tagName tag ≠ some ['b']) :
    Reads octets (tag :: list) (tag :: before) front value after where
  tags_eq := by rw [h.tags_eq, cons_append]
  no_equals := h.no_equals
  name_eq := h.name_eq
  decode_eq := h.decode_eq
  others := forall_mem_cons.2 ⟨htag, h.others⟩

/-- Where the signature of `tags'` comes from, once `list` is read behind `tags`: no tag is named
`b`, or one is and that is new. -/
def SignatureFrom (list : List (List Char)) (tags tags' : Tags) : Prop :=
  ((∀ tag ∈ list, tagName tag ≠ some ['b']) ∧ tags'.signature = tags.signature) ∨
  ['b'] ∉ tags.seen ∧ ∃ octets before front value after,
    tags'.signature = some octets ∧ Signature.Reads octets list before front value after

lemma SignatureFrom.cons {list : List (List Char)} {tag : List Char} {tags middle tags' : Tags}
    (h : SignatureFrom list middle tags') (htag : tagName tag ≠ some ['b'])
    (hsignature : middle.signature = tags.signature) (hseen : tags.seen ⊆ middle.seen) :
    SignatureFrom (tag :: list) tags tags' := by
  obtain ⟨hnone, heq⟩ | ⟨hb, octets, before, front, value, after, heq, hreads⟩ := h
  · exact .inl ⟨forall_mem_cons.2 ⟨htag, hnone⟩, heq.trans hsignature⟩
  · exact .inr ⟨fun hmem => hb (hseen hmem), octets, _, front, value, after, heq, hreads.cons htag⟩

lemma signatureFrom_foldlM {list : List (List Char)}
    (h : list.foldlM Tags.read tags = .ok tags') : SignatureFrom list tags tags' := by
  induction list generalizing tags with
  | nil =>
    obtain rfl : tags = tags' := by simpa [pure, Except.pure] using h
    exact .inl ⟨by simp, rfl⟩
  | cons tag list ih =>
    obtain ⟨middle, hread, hrest⟩ := foldlM_cons_eq_ok h
    obtain ⟨hname, rfl⟩ | ⟨front, value, rfl, hfront, hseen, hset⟩ := Tags.read_eq_ok hread
    · exact (ih hrest).cons (by simp [hname]) rfl fun _ hmem => hmem
    · have hmiddle : middle.seen = tags.seen ++ [trim front] := (Tags.set_frame hset).1
      obtain ⟨hkeep, hset⟩ := Tags.set_signature hset
      by_cases hb : trim front = ['b']
      · obtain ⟨octets, hdecode, hoctets⟩ := hset (TagName.ofText_eq_b.2 hb)
        -- The name has been seen, so the rest has no such tag.
        obtain ⟨hnone, heq⟩ | ⟨hb', -⟩ := ih hrest
        · refine .inr ⟨hb ▸ hseen, octets, [], front, value, list, heq.trans hoctets, ?_⟩
          exact ⟨rfl, hfront, hb, hdecode, by simpa using hnone⟩
        · exact absurd (by simp [hmiddle, hb]) hb'
      · refine (ih hrest).cons ?_ (hkeep (TagName.ofText_eq_b.not.2 hb)) ?_
        · rw [tagName_append hfront]
          exact fun heq => hb (some.inj heq)
        · rw [hmiddle]
          exact subset_append_left _ _

open Signature

lemma Signature.exists_reads {signature : Signature} (h : parse value = .ok signature) :
    ∃ before front text after,
      Reads signature.signature (value.splitOn ';') before front text after := by
  obtain ⟨tags, htags, hfinish⟩ := bind_eq_ok.1 h
  have hsignature := (Tags.finish_eq_ok hfinish).signature
  obtain ⟨-, hnone⟩ | ⟨-, octets, before, front, text, after, heq, hreads⟩ :=
    signatureFrom_foldlM htags
  · rw [hsignature] at hnone
    cases hnone
  · obtain rfl : octets = signature.signature := some.inj (heq.symm.trans hsignature)
    exact ⟨before, front, text, after, hreads⟩

/-! ## What becomes of a tag -/

lemma stripTag_named {p q : List Char} (hp : ∀ c ∈ p, isWhitespace c) (hq : '=' ∉ q) :
    stripTag (p ++ 'b' :: q ++ '=' :: value) =
      if q = [] ∨ q = [' '] then p ++ ['b', '='] else p ++ 'b' :: q ++ '=' :: value := by
  have htrim : trimStart (p ++ 'b' :: q ++ '=' :: value) = 'b' :: (q ++ '=' :: value) := by
    rw [append_assoc, cons_append, trimStart_append hp (by decide)]
  have htake : (p ++ 'b' :: q ++ '=' :: value).take ((p ++ 'b' :: q ++ '=' :: value).length -
      ('b' :: (q ++ '=' :: value)).length) = p := by
    rw [append_assoc, length_append, cons_append, Nat.add_sub_cancel]
    exact take_left
  have hpre : (['b', '='] <+: 'b' :: (q ++ '=' :: value) ∨
      ['b', ' ', '='] <+: 'b' :: (q ++ '=' :: value)) ↔ q = [] ∨ q = [' '] := by
    match q with
    | [] => simp [cons_prefix_cons]
    | [c] =>
      have hc : '=' ≠ c := by simpa using hq
      simp [cons_prefix_cons, hc, eq_comm]
    | c :: d :: q =>
      have hc : '=' ≠ c ∧ '=' ≠ d := by
        simp only [mem_cons, not_or] at hq
        exact ⟨hq.1, hq.2.1⟩
      simp [cons_prefix_cons, hc]
  simp only [stripTag, htrim, hpre, htake]

lemma stripTag_other (h : tagName tag ≠ some ['b']) : stripTag tag = tag := by
  have hws : ∀ c ∈ tag.takeWhile isWhitespace, isWhitespace c := fun c hc =>
    mem_takeWhile_imp hc
  have hsplit : tag = tag.takeWhile isWhitespace ++ trimStart tag :=
    (takeWhile_append_dropWhile).symm
  have hname : ∀ (front : List Char) {value : List Char}, '=' ∉ front →
    trimEnd ('b' :: front) = ['b'] →
      trimStart tag ≠ 'b' :: front ++ '=' :: value := by
    intro front value hfront htrim hstart
    rw [hsplit, hstart, ← append_assoc] at h
    have hequals : '=' ∉ tag.takeWhile isWhitespace ++ 'b' :: front := by
      intro hmem
      obtain hmem | hmem := mem_append.1 hmem
      · exact absurd (hws _ hmem) (by decide)
      · simp [hfront] at hmem
    refine h ?_
    rw [tagName_append hequals, trim, trimStart_append hws (by decide), htrim]
  unfold stripTag
  refine if_neg ?_
  rintro (⟨rest, hrest⟩ | ⟨rest, hrest⟩)
  · exact hname [] (by simp) (by decide) hrest.symm
  · exact hname [' '] (by decide) (by decide) hrest.symm

/-! ## The whole list -/

lemma exists_intercalate (before after : List (List Char)) :
    ∃ p q, ∀ tag : List Char, [';'].intercalate (before ++ tag :: after) = p ++ (tag ++ q) := by
  induction before with
  | nil =>
    by_cases hafter : after = []
    · exact ⟨[], [], fun tag => by simp [hafter]⟩
    · refine ⟨[], [';'] ++ [';'].intercalate after, fun tag => ?_⟩
      rw [nil_append, intercalate_cons_of_ne_nil hafter]
      simp
  | cons other before ih =>
    obtain ⟨p, q, h⟩ := ih
    refine ⟨other ++ [';'] ++ p, q, fun tag => ?_⟩
    rw [cons_append, intercalate_cons_of_ne_nil (by simp), h]
    simp

lemma Signature.Reads.stripBTag_eq {octets : List UInt8} {text : List Char}
    {before after : List (List Char)}
    (h : Reads octets (value.splitOn ';') before front text after) :
    stripBTag value =
      [';'].intercalate (before ++ stripTag (front ++ '=' :: text) :: after) := by
  have hother : ∀ tags : List (List Char), (∀ tag ∈ tags, tag ∈ before ++ after) →
      tags.map stripTag = tags := by
    intro tags htags
    refine (map_congr_left fun tag htag => ?_).trans (List.map_id tags)
    exact stripTag_other (h.others tag (htags tag htag))
  rw [stripBTag, h.tags_eq, map_append, map_cons,
    hother before fun tag htag => mem_append_left _ htag,
    hother after fun tag htag => mem_append_right _ htag]

lemma ends_of_whitespace {p q : List Char} (hq : ∀ c ∈ q, isWhitespace c) (hnil : q ≠ [])
    (hspace : q ≠ [' ']) :
    (p ++ 'b' :: q).getLast? ≠ some 'b' ∧ ¬ ['b', ' '] <:+ p ++ 'b' :: q := by
  obtain ⟨q, c, rfl⟩ := (eq_nil_or_concat' q).resolve_left hnil
  constructor
  · intro hlast
    rw [← cons_append, ← append_assoc, List.getLast?_concat] at hlast
    obtain rfl := some.inj hlast
    exact absurd (hq 'b' (by simp)) (by decide)
  · intro hsuffix
    rw [← reverse_prefix] at hsuffix
    obtain rfl | ⟨q, d, rfl⟩ := eq_nil_or_concat' q
    · obtain rfl : ' ' = c := by simpa [cons_prefix_cons] using hsuffix
      exact hspace rfl
    · obtain ⟨-, rfl⟩ : ' ' = c ∧ 'b' = d := by simpa [cons_prefix_cons] using hsuffix
      exact absurd (hq 'b' (by simp)) (by decide)

/-- In a list that is accepted, one tag is what the signature was read from. That tag is emptied up
to its equals sign, and the rest is kept, if and only if nothing is between the name and the equals
sign, or there was nothing to empty and the name is not followed by one space. -/
theorem Signature.stripBTag_iff {value : List Char} {signature : Signature}
    (h : parse value = .ok signature) :
    ∃ before front text after,
      Reads signature.signature (value.splitOn ';') before front text after ∧
      (stripBTag value = [';'].intercalate (before ++ (front ++ ['=']) :: after) ↔
        front.getLast? = some 'b' ∨ text = [] ∧ ¬ ['b', ' '] <:+ front) := by
  obtain ⟨before, front, text, after, hreads⟩ := exists_reads h
  refine ⟨before, front, text, after, hreads, ?_⟩
  obtain ⟨p, q, hp, hq, hfront⟩ := exists_of_trim front
  rw [hreads.name_eq, append_assoc, singleton_append] at hfront
  have hequals : '=' ∉ q := fun hmem => absurd (hq _ hmem) (by decide)
  obtain ⟨start, rest, haround⟩ := exists_intercalate before after
  rw [hreads.stripBTag_eq, haround, haround, append_right_inj, append_left_inj, hfront,
    stripTag_named hp hequals]
  by_cases hnil : q = []
  · subst hnil
    simp
  by_cases hspace : q = [' ']
  · subst hspace
    simp
  obtain ⟨hlast, hsuffix⟩ := @ends_of_whitespace p q hq hnil hspace
  rw [if_neg (not_or.2 ⟨hnil, hspace⟩), append_right_inj]
  simp only [hlast, hsuffix, false_or, not_false_eq_true, and_true, List.cons.injEq, true_and]

/-- An ordinary signature, with its value in the last tag. -/
theorem Signature.stripBTag_iff_plain :
    ∃ signature,
      parse "v=1; a=rsa-sha256; d=example.org; s=sel; h=from; bh=AAAA; b=AAAA".toList =
        .ok signature ∧
      ∃ before front text after,
        Reads signature.signature
          ("v=1; a=rsa-sha256; d=example.org; s=sel; h=from; bh=AAAA; b=AAAA".toList.splitOn ';')
          before front text after ∧
        (stripBTag "v=1; a=rsa-sha256; d=example.org; s=sel; h=from; bh=AAAA; b=AAAA".toList =
            [';'].intercalate (before ++ (front ++ ['=']) :: after) ↔
          front.getLast? = some 'b' ∨ text = [] ∧ ¬ ['b', ' '] <:+ front) :=
  ⟨_, rfl, stripBTag_iff rfl⟩

/-- A tab in front of the equals sign: the signature is read, and is not emptied. -/
theorem Signature.tab_keeps_signature :
    ∃ signature before front text after,
      parse
        "v=1; a=rsa-sha256; d=example.org; s=sel; h=from; bh=AAAA; b\t=AAAA".toList =
          .ok signature ∧
      Reads signature.signature
        ("v=1; a=rsa-sha256; d=example.org; s=sel; h=from; bh=AAAA; b\t=AAAA".toList.splitOn ';')
        before front text after ∧
      stripBTag "v=1; a=rsa-sha256; d=example.org; s=sel; h=from; bh=AAAA; b\t=AAAA".toList =
        "v=1; a=rsa-sha256; d=example.org; s=sel; h=from; bh=AAAA; b\t=AAAA".toList ∧
      [';'].intercalate (before ++ (front ++ ['=']) :: after) =
        "v=1; a=rsa-sha256; d=example.org; s=sel; h=from; bh=AAAA; b\t=".toList := by
  refine ⟨_, ["v=1".toList, " a=rsa-sha256".toList, " d=example.org".toList, " s=sel".toList,
    " h=from".toList, " bh=AAAA".toList], " b\t".toList, "AAAA".toList, [], rfl, ?_, ?_, ?_⟩
  · constructor <;> decide +kernel
  · decide +kernel
  · decide +kernel

end Epistle.Dkim
