import Epistle.Dkim.BTag
import Epistle.Lib.Fields

/-!
# The signature of an ARC set

`arc/signature` and `arc/ams`: the parser takes the name of a tag in any case and with white space
around it, and the first tag of a name counts. `strip_b` empties every tag that begins with `b=`,
and those only.

* `stripB_iff`: when it empties the tag that the parser read, and nothing else.
-/

namespace Epistle.Arc

open Lib Lib.Text List Dkim

def pushTag (tags : List (List Char × List Char)) (tag : List Char) :
    Except (List Char) (List (List Char × List Char)) :=
  if trim tag = [] then .ok tags
  else match splitOnce '=' (trim tag) with
    | none => .error (trim tag)
    | some (name, raw) => .ok (tags ++ [(toLower (trim name), compact raw)])

/-- Names and values in the order of the tags, or the tag that is malformed. -/
def parseTags (value : List Char) : Except (List Char) (List (List Char × List Char)) :=
  (value.splitOn ';').foldlM pushTag []

def getTag (tags : List (List Char × List Char)) (key : List Char) : Option (List Char) :=
  (tags.find? (·.1 = key)).map (·.2)

/-- A tag, without its value if it is the signature's. -/
def stripTag (tag : List Char) : List Char :=
  if ['b', '='] <+: trimStart tag then tag.takeWhile isWhitespace ++ ['b', '='] else tag

/-- The value of a field without its signature. -/
def stripB (value : List Char) : List Char :=
  [';'].intercalate ((value.splitOn ';').map stripTag)

/-! ## The tag that is read -/

/-- What the parser takes from a tag. -/
def readTag (tag : List Char) : Option (List Char × List Char) :=
  (splitOnce '=' (trim tag)).map fun (name, raw) => (toLower (trim name), compact raw)

/-- What stands behind the equals sign. -/
def valueOf (tag : List Char) : List Char := (tag.dropWhile (· ≠ '=')).drop 1

/-- A tag with nothing in it. -/
def emptyTag (tag : List Char) : List Char := tag.takeWhile (· ≠ '=') ++ ['=']

variable {tag front value : List Char}

lemma readTag_append (h : '=' ∉ front) :
    readTag (front ++ '=' :: value) = some (toLower (trim front), compact value) := by
  rw [readTag, splitOnce_trim h]
  simp only [Option.map_some, trim_trimStart, compact_trimEnd]

lemma foldlM_pushTag {tags : List (List Char × List Char)} (segments : List (List Char)) :
    ∀ before, segments.foldlM pushTag before = .ok tags →
      tags = before ++ segments.filterMap readTag := by
  induction segments with
  | nil =>
    intro before h
    simpa using (Except.ok.inj h).symm
  | cons tag segments ih =>
    intro before h
    rw [foldlM_cons, pushTag] at h
    by_cases hempty : trim tag = []
    · rw [if_pos hempty] at h
      rw [filterMap_cons_none (by rw [readTag, hempty]; rfl)]
      exact ih before h
    · rw [if_neg hempty] at h
      cases hsplit : splitOnce '=' (trim tag) with
      | none =>
        rw [hsplit] at h
        cases h
      | some parts =>
        rw [hsplit] at h
        rw [filterMap_cons_some (by rw [readTag, hsplit]; rfl)]
        simpa using ih _ h

lemma takeWhile_equals (h : '=' ∉ front) : (front ++ '=' :: value).takeWhile (· ≠ '=') = front := by
  rw [takeWhile_append_of_pos (by simpa using fun c hc => ne_of_mem_of_not_mem hc h)]
  simp

lemma valueOf_append (h : '=' ∉ front) : valueOf (front ++ '=' :: value) = value := by
  rw [valueOf, dropWhile_append_of_pos (by simpa using fun c hc => ne_of_mem_of_not_mem hc h)]
  simp

lemma exists_of_isPrefix (h : ['b', '='] <+: trimStart tag) : ∃ value,
    tag = tag.takeWhile isWhitespace ++ ['b'] ++ '=' :: value ∧
      '=' ∉ tag.takeWhile isWhitespace ++ ['b'] := by
  obtain ⟨value, hvalue⟩ := h
  refine ⟨value, ?_, ?_⟩
  · nth_rewrite 1 [← takeWhile_append_dropWhile (p := isWhitespace) (l := tag)]
    rw [← trimStart, ← hvalue]
    simp
  · simp only [mem_append, mem_singleton, not_or]
    exact ⟨fun h => absurd (mem_takeWhile_imp h) (by decide), by decide⟩

/-- A tag that is emptied is one that the parser takes for `b`. -/
lemma readTag_of_isPrefix (h : ['b', '='] <+: trimStart tag) :
    ∃ signature, readTag tag = some (['b'], signature) := by
  obtain ⟨value, heq, hfront⟩ := exists_of_isPrefix h
  have htrim : trim (tag.takeWhile isWhitespace ++ ['b']) = ['b'] := by
    rw [trim, trimStart_append (fun c hc => mem_takeWhile_imp hc) (by decide)]
    rfl
  refine ⟨compact value, ?_⟩
  rw [heq, readTag_append hfront, htrim]
  rfl

/-! ## Emptying it -/

lemma stripTag_of_isPrefix (h : ['b', '='] <+: trimStart tag) : stripTag tag = emptyTag tag := by
  obtain ⟨value, heq, hfront⟩ := exists_of_isPrefix h
  rw [stripTag, if_pos h, emptyTag]
  nth_rewrite 2 [heq]
  rw [takeWhile_equals hfront]
  simp

lemma emptyTag_eq_self {name signature : List Char} (h : readTag tag = some (name, signature)) :
    emptyTag tag = tag ↔ valueOf tag = [] := by
  cases hsplit : splitOnce '=' tag with
  | none =>
    have hnone := tagName_eq_none (splitOnce_eq_none.1 hsplit)
    rw [tagName, Option.map_eq_none_iff] at hnone
    simp [readTag, hnone] at h
  | some parts =>
    obtain ⟨rfl, hfront⟩ := splitOnce_eq_some.1 hsplit
    rw [emptyTag, takeWhile_equals hfront, valueOf_append hfront]
    simp [eq_comm]

lemma stripTag_eq_emptyTag {name signature : List Char}
    (h : readTag tag = some (name, signature)) :
    stripTag tag = emptyTag tag ↔ ['b', '='] <+: trimStart tag ∨ valueOf tag = [] := by
  by_cases hb : ['b', '='] <+: trimStart tag
  · exact iff_of_true (stripTag_of_isPrefix hb) (.inl hb)
  · rw [stripTag, if_neg hb, or_iff_right hb, eq_comm, emptyTag_eq_self h]

lemma stripTag_eq_self :
    stripTag tag = tag ↔ (['b', '='] <+: trimStart tag → valueOf tag = []) := by
  by_cases hb : ['b', '='] <+: trimStart tag
  · obtain ⟨signature, hread⟩ := readTag_of_isPrefix hb
    rw [stripTag_of_isPrefix hb, emptyTag_eq_self hread]
    exact ⟨fun h _ => h, fun h => h hb⟩
  · simp [stripTag, hb]

lemma semicolon_notMem_stripTag (h : ';' ∉ tag) : ';' ∉ stripTag tag := by
  unfold stripTag
  split_ifs
  · simp only [mem_append, not_or]
    exact ⟨fun hmem => h (takeWhile_subset _ hmem), by decide⟩
  · exact h

lemma semicolon_notMem_emptyTag (h : ';' ∉ tag) : ';' ∉ emptyTag tag := by
  simp only [emptyTag, mem_append, not_or]
  exact ⟨fun hmem => h (takeWhile_subset _ hmem), by decide⟩

/-- The list is what is wanted if each of its tags is. -/
lemma stripB_eq_iff {before after : List (List Char)}
    (h : value.splitOn ';' = before ++ tag :: after) :
    stripB value = [';'].intercalate (before ++ emptyTag tag :: after) ↔
      before.map stripTag = before ∧ stripTag tag = emptyTag tag ∧
        after.map stripTag = after := by
  have hnone : ∀ t ∈ before ++ tag :: after, ';' ∉ t := fun t ht =>
    not_mem_of_mem_splitOn (h ▸ ht)
  have hstripped : ∀ t ∈ (before ++ tag :: after).map stripTag, ';' ∉ t := by
    refine forall_mem_map.2 fun t ht => ?_
    exact semicolon_notMem_stripTag (hnone t ht)
  have hwanted : ∀ t ∈ before ++ emptyTag tag :: after, ';' ∉ t := by
    intro t ht
    obtain ht | rfl | ht : t ∈ before ∨ t = emptyTag tag ∨ t ∈ after := by simpa using ht
    · exact hnone t (by simp [ht])
    · exact semicolon_notMem_emptyTag (hnone tag (by simp))
    · exact hnone t (by simp [ht])
  rw [stripB, h]
  constructor
  · intro heq
    -- Splitting takes both apart again.
    have hsegments := congrArg (splitOn ';') heq
    rw [splitOn_intercalate ';' hstripped (by simp), splitOn_intercalate ';' hwanted (by simp),
      map_append, map_cons] at hsegments
    obtain ⟨hbefore, hrest⟩ := append_inj hsegments (by simp)
    exact ⟨hbefore, cons.inj hrest⟩
  · rintro ⟨hbefore, htag, hafter⟩
    rw [map_append, map_cons, hbefore, htag, hafter]

/-- In a list that is accepted and has a signature, the first tag that is taken for `b` is what it
was read from. That tag is emptied up to its equals sign, and every other is kept, if and only if it
is written `b=` or had no value, and no later one that is written so has a value. -/
theorem stripB_iff {value signature : List Char} {tags : List (List Char × List Char)}
    (h : parseTags value = .ok tags) (hsignature : getTag tags ['b'] = some signature) :
    ∃ before tag after, value.splitOn ';' = before ++ tag :: after ∧
      (∀ earlier ∈ before, ∀ read ∈ readTag earlier, read.1 ≠ ['b']) ∧
      readTag tag = some (['b'], signature) ∧
      (stripB value = [';'].intercalate (before ++ emptyTag tag :: after) ↔
        (['b', '='] <+: trimStart tag ∨ valueOf tag = []) ∧
          ∀ later ∈ after, ['b', '='] <+: trimStart later → valueOf later = []) := by
  obtain rfl := foldlM_pushTag _ _ h
  rw [nil_append] at hsignature
  obtain ⟨⟨name, text⟩, hfind, rfl⟩ := Option.map_eq_some_iff.1 hsignature
  rw [find?_filterMap, Option.bind_eq_some_iff] at hfind
  obtain ⟨tag, hfind, hread⟩ := hfind
  obtain ⟨hname, before, after, hsplit, hearlier⟩ := find?_eq_some_iff_append.1 hfind
  obtain rfl : name = ['b'] := by simpa [hread] using hname
  have hbefore : ∀ earlier ∈ before, ∀ read ∈ readTag earlier, read.1 ≠ ['b'] := by
    intro earlier hmem read hearlierRead heq
    have hnot := hearlier earlier hmem
    rw [hearlierRead] at hnot
    simp [heq] at hnot
  refine ⟨before, tag, after, hsplit, hbefore, hread, ?_⟩
  -- No tag in front of it is one that is emptied.
  have hkept : before.map stripTag = before := by
    refine (map_congr_left fun earlier hmem => ?_).trans (map_id before)
    refine stripTag_eq_self.2 fun hb => ?_
    obtain ⟨text, hearlierRead⟩ := readTag_of_isPrefix hb
    exact absurd rfl (hbefore earlier hmem _ hearlierRead)
  rw [stripB_eq_iff hsplit, and_iff_right hkept, stripTag_eq_emptyTag hread]
  refine and_congr_right fun _ => ?_
  rw [show after.map stripTag = after ↔ ∀ later ∈ after, stripTag later = later by
    nth_rewrite 2 [← map_id after]
    exact map_inj_left]
  exact forall₂_congr fun later _ => stripTag_eq_self

/-- An ordinary seal, whose value is the second of three tags. -/
theorem stripB_iff_plain :
    ∃ before tag after,
      "i=1; b=AAAA; cv=none".toList.splitOn ';' = before ++ tag :: after ∧
      (∀ earlier ∈ before, ∀ read ∈ readTag earlier, read.1 ≠ ['b']) ∧
      readTag tag = some (['b'], "AAAA".toList) ∧
      (stripB "i=1; b=AAAA; cv=none".toList =
          [';'].intercalate (before ++ emptyTag tag :: after) ↔
        (['b', '='] <+: trimStart tag ∨ valueOf tag = []) ∧
          ∀ later ∈ after, ['b', '='] <+: trimStart later → valueOf later = []) :=
  stripB_iff
    (show parseTags _ = .ok [(['i'], ['1']), (['b'], "AAAA".toList), ("cv".toList, "none".toList)]
      from rfl)
    rfl

/-- A capital letter: the signature is read, and is hashed with the rest. -/
theorem capital_keeps_signature :
    parseTags "i=1; a=rsa-sha256; cv=none; d=a; s=b; B=AAAA".toList =
        .ok [(['i'], ['1']), (['a'], "rsa-sha256".toList), ("cv".toList, "none".toList),
          (['d'], ['a']), (['s'], ['b']), (['b'], "AAAA".toList)] ∧
      stripB "i=1; a=rsa-sha256; cv=none; d=a; s=b; B=AAAA".toList =
        "i=1; a=rsa-sha256; cv=none; d=a; s=b; B=AAAA".toList ∧
      -- A second one drops out of what is hashed.
      parseTags "b=AAAA; b=BBBB".toList =
        .ok [(['b'], "AAAA".toList), (['b'], "BBBB".toList)] ∧
      stripB "b=AAAA; b=BBBB".toList = "b=; b=".toList := by
  exact ⟨rfl, rfl, rfl, rfl⟩

end Epistle.Arc
