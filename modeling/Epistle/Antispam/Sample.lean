import Mathlib.Algebra.Order.Ring.Int
import Mathlib.Data.Finset.Card
import Mathlib.Data.List.Sort

/-!
# Cutting a message down to its tokens of smallest tag

`antispam/bayes`: a message with too many tokens is cut down to those whose keyed hash is smallest.
One scan keeps the best seen so far, with the worst of them in front.

* `sampleTokensWithout_spec`: what is left depends on the set of tokens alone.
-/

namespace Epistle.Antispam.Bayes

open List

/-! ## The smallest of a set -/

section Smallest

variable {α : Type} [LinearOrder α] {cap : ℕ} {all kept kept' : Finset α} {x worst : α}

/-- `kept` are the `cap` smallest of `all`, or all of them. -/
structure Smallest (cap : ℕ) (all kept : Finset α) : Prop where
  subset : kept ⊆ all
  card_eq : kept.card = min cap all.card
  lt : ∀ x ∈ kept, ∀ y ∈ all, y ∉ kept → x < y

lemma Smallest.unique (h : Smallest cap all kept) (h' : Smallest cap all kept') : kept = kept' := by
  have hcard : kept.card = kept'.card := h.card_eq.trans h'.card_eq.symm
  by_contra hne
  -- Each has an element that the other lacks, and each of the two is the smaller.
  obtain ⟨x, hx, hx'⟩ := Finset.not_subset.1 fun hsub =>
    hne (Finset.eq_of_subset_of_card_le hsub hcard.ge)
  obtain ⟨y, hy', hy⟩ := Finset.not_subset.1 fun hsub =>
    hne (Finset.eq_of_subset_of_card_le hsub hcard.le).symm
  exact lt_asymm (h.lt x hx y (h'.subset hy') hy) (h'.lt y hy' x (h.subset hx) hx')

lemma Smallest.eq_of_card_lt (h : Smallest cap all kept) (hroom : kept.card < cap) : kept = all :=
  Finset.eq_of_subset_of_card_le h.subset (by have := h.card_eq; omega)

lemma Smallest.insert_of_card_lt (h : Smallest cap all kept) (hroom : kept.card < cap) :
    Smallest cap (insert x all) (insert x kept) := by
  obtain rfl := h.eq_of_card_lt hroom
  have hcard := Finset.card_insert_le x kept
  exact ⟨Finset.Subset.refl _, by omega, fun _ _ y hy hnot => absurd hy hnot⟩

lemma Smallest.insert_of_lt (h : Smallest cap all kept) (hfull : cap ≤ kept.card)
    (hx : x ∉ kept) (hworst : worst ∈ kept) (hmax : ∀ y ∈ kept, y ≤ worst) (hlt : x < worst) :
    Smallest cap (insert x all) (insert x (kept.erase worst)) := by
  have hcard := h.card_eq
  refine ⟨?_, ?_, ?_⟩
  · exact Finset.insert_subset_insert x ((Finset.erase_subset _ _).trans h.subset)
  · rw [Finset.card_insert_of_notMem fun hmem => hx (Finset.mem_of_mem_erase hmem),
      Finset.card_erase_of_mem hworst]
    have hpos := Finset.card_pos.2 ⟨worst, hworst⟩
    have hle := Finset.card_le_card (Finset.subset_insert x all)
    omega
  · intro a ha y hy hynot
    rw [Finset.mem_insert, not_or] at hynot
    have hyall : y ∈ all := (Finset.mem_insert.1 hy).resolve_left hynot.1
    have haworst : a < worst := by
      obtain rfl | ha := Finset.mem_insert.1 ha
      · exact hlt
      · exact (hmax a (Finset.mem_of_mem_erase ha)).lt_of_ne (Finset.ne_of_mem_erase ha)
    -- What is left out is the one that had to go, or was left out before.
    by_cases hykept : y ∈ kept
    · obtain rfl : y = worst := by
        by_contra hne
        exact hynot.2 (Finset.mem_erase.2 ⟨hne, hykept⟩)
      exact haworst
    · exact haworst.trans (h.lt worst hworst y hyall hykept)

lemma Smallest.insert_of_le (h : Smallest cap all kept) (hfull : cap ≤ kept.card)
    (hx : x ∉ kept) (hmax : ∀ y ∈ kept, y ≤ x) : Smallest cap (insert x all) kept := by
  have hcard := h.card_eq
  have hle := Finset.card_le_card (Finset.subset_insert x all)
  refine ⟨h.subset.trans (Finset.subset_insert x all), by omega, fun a ha y hy hynot => ?_⟩
  obtain rfl | hy := Finset.mem_insert.1 hy
  · exact (hmax a ha).lt_of_ne (ne_of_mem_of_not_mem ha hx)
  · exact h.lt a ha y hy hynot

end Smallest

/-! ## The scan -/

variable {Tag : Type} [LinearOrder Tag]

/-- Into the heap: the worst is in front. -/
def push (entry : Tag × List Char) (kept : List (Tag × List Char)) : List (Tag × List Char) :=
  kept.orderedInsert (fun a b => b.1 ≤ a.1) entry

structure Scan (Tag : Type) where
  kept : List (Tag × List Char)
  tags : Finset Tag

section Source

-- The tables of the character set.
variable (isAlphanumeric : Char → Bool) (toLowercase : List Char → List Char)
variable (cap : ℕ) (tagOf : List Char → Tag) (exclude : Finset (List Char))

/-- Take one token into the sample. -/
def look (scan : Scan Tag) (raw : List Char) : Scan Tag :=
  let size := (raw.map Char.utf8Size).sum
  if ¬ (2 ≤ size ∧ size ≤ 30) then scan
  else
    let token := toLowercase raw
    if token ∈ exclude then scan
    else
      let tag := tagOf token
      if tag ∈ scan.tags then scan
      else if scan.kept.length < cap then ⟨push (tag, token) scan.kept, insert tag scan.tags⟩
      else match scan.kept with
        | [] => scan
        | (worst, _) :: kept =>
          if tag < worst then ⟨push (tag, token) kept, insert tag (scan.tags.erase worst)⟩
          else scan

/-- Take the tokens of a text into the sample, in order. -/
def scan (raws : List (List Char)) : Scan Tag :=
  raws.foldl (look toLowercase cap tagOf exclude) ⟨[], ∅⟩

/-- The sample of a text, less some tokens. -/
def sampleTokensWithout (text : List Char) : List (List Char) :=
  if cap = 0 then []
  else
    (scan toLowercase cap tagOf exclude (text.splitOnP (!isAlphanumeric ·))).kept.reverse.map (·.2)

/-- The sample of a text. -/
def sampleTokens (text : List Char) : List (List Char) :=
  sampleTokensWithout isAlphanumeric toLowercase cap tagOf ∅ text

/-- The tokens of some pieces of a text. -/
def tokensOf (raws : List (List Char)) : Finset (List Char) :=
  ((raws.filter fun raw =>
    2 ≤ (raw.map Char.utf8Size).sum ∧ (raw.map Char.utf8Size).sum ≤ 30).map toLowercase).toFinset

def tokens (text : List Char) : Finset (List Char) :=
  tokensOf toLowercase (text.splitOnP (!isAlphanumeric ·))

end Source

variable {isAlphanumeric : Char → Bool} {toLowercase : List Char → List Char} {cap : ℕ}
variable {tagOf : List Char → Tag} {exclude found : Finset (List Char)} {state : Scan Tag}
variable {entry : Tag × List Char} {kept : List (Tag × List Char)}

lemma mem_push {e : Tag × List Char} : e ∈ push entry kept ↔ e = entry ∨ e ∈ kept :=
  mem_orderedInsert _

lemma pairwise_push (h : kept.Pairwise fun a b => b.1 < a.1) (hne : ∀ e ∈ kept, e.1 ≠ entry.1) :
    (push entry kept).Pairwise fun a b => b.1 < a.1 := by
  induction kept with
  | nil => simp [push]
  | cons first kept ih =>
    obtain ⟨hfirst, hkept⟩ := pairwise_cons.1 h
    rw [push, orderedInsert_cons]
    split_ifs with hle
    · have hlt : first.1 < entry.1 := hle.lt_of_ne (hne first (by simp))
      refine pairwise_cons.2 ⟨fun e he => ?_, h⟩
      obtain rfl | he := mem_cons.1 he
      · exact hlt
      · exact (hfirst e he).trans hlt
    · refine pairwise_cons.2 ⟨fun e he => ?_, ih hkept fun e he => hne e (mem_cons_of_mem _ he)⟩
      obtain rfl | he := mem_push.1 he
      · exact not_le.1 hle
      · exact hfirst e he

/-- What a scan knows of the tokens `found` so far, without those to be left out. -/
structure Scan.Valid (cap : ℕ) (tagOf : List Char → Tag) (found : Finset (List Char))
    (state : Scan Tag) : Prop where
  pairwise : state.kept.Pairwise fun a b => b.1 < a.1
  tags_eq : state.tags = (state.kept.map Prod.fst).toFinset
  entry : ∀ e ∈ state.kept, e.1 = tagOf e.2 ∧ e.2 ∈ found
  smallest : Smallest cap (found.image tagOf) state.tags

namespace Scan.Valid

lemma mem_tags (h : state.Valid cap tagOf found) {tag : Tag} :
    tag ∈ state.tags ↔ ∃ e ∈ state.kept, e.1 = tag := by
  simp [h.tags_eq]

lemma card_tags (h : state.Valid cap tagOf found) : state.tags.card = state.kept.length := by
  rw [h.tags_eq, toFinset_card_of_nodup, length_map]
  exact pairwise_map.2 (h.pairwise.imp fun hlt => hlt.ne')

lemma length_le (h : state.Valid cap tagOf found) : state.kept.length ≤ cap := by
  rw [← h.card_tags, h.smallest.card_eq]
  exact min_le_left _ _

/-- A token goes in, and some others stay. -/
lemma push_of_subset (h : state.Valid cap tagOf found) {token : List Char}
    {rest : List (Tag × List Char)} (hrest : rest <+ state.kept) (hnew : tagOf token ∉ state.tags)
    (hsmallest : Smallest cap (insert (tagOf token) (found.image tagOf))
      (insert (tagOf token) (rest.map Prod.fst).toFinset)) :
    Scan.Valid cap tagOf (insert token found)
      ⟨push (tagOf token, token) rest, insert (tagOf token) (rest.map Prod.fst).toFinset⟩ where
  pairwise := pairwise_push (h.pairwise.sublist hrest) fun e he heq =>
    hnew (h.mem_tags.2 ⟨e, hrest.subset he, heq⟩)
  tags_eq := by
    ext tag
    simp only [Finset.mem_insert, List.mem_toFinset, List.mem_map, mem_push]
    grind
  entry := by
    intro e he
    obtain rfl | he := mem_push.1 he
    · exact ⟨rfl, Finset.mem_insert_self _ _⟩
    · obtain ⟨htag, hmem⟩ := h.entry e (hrest.subset he)
      exact ⟨htag, Finset.mem_insert_of_mem hmem⟩
  smallest := by rwa [Finset.image_insert]

lemma keep (h : state.Valid cap tagOf found) {token : List Char}
    (hsmallest : Smallest cap (insert (tagOf token) (found.image tagOf)) state.tags) :
    state.Valid cap tagOf (insert token found) where
  pairwise := h.pairwise
  tags_eq := h.tags_eq
  entry e he := ⟨(h.entry e he).1, Finset.mem_insert_of_mem (h.entry e he).2⟩
  smallest := by rwa [Finset.image_insert]

/-- One piece of the text, by the case that the source tells apart. -/
lemma look (hcap : 1 ≤ cap) (h : state.Valid cap tagOf found) (raw : List Char) :
    (look toLowercase cap tagOf exclude state raw).Valid cap tagOf
      (found ∪ (tokensOf toLowercase [raw] \ exclude)) := by
  unfold Bayes.look
  by_cases hsize : 2 ≤ (raw.map Char.utf8Size).sum ∧ (raw.map Char.utf8Size).sum ≤ 30
  swap
  · simpa [tokensOf, hsize] using h
  have htokens : tokensOf toLowercase [raw] = {toLowercase raw} := by simp [tokensOf, hsize]
  rw [if_neg (not_not.2 hsize), htokens]
  dsimp only
  by_cases hexclude : toLowercase raw ∈ exclude
  · rw [if_pos hexclude, Finset.sdiff_eq_empty_iff_subset.2 (by simpa using hexclude),
      Finset.union_empty]
    exact h
  rw [if_neg hexclude, Finset.sdiff_eq_self_of_disjoint (by simpa using hexclude),
    Finset.union_comm, ← Finset.insert_eq]
  by_cases hseen : tagOf (toLowercase raw) ∈ state.tags
  · rw [if_pos hseen]
    refine h.keep ?_
    rw [Finset.insert_eq_of_mem (h.smallest.subset hseen)]
    exact h.smallest
  rw [if_neg hseen]
  by_cases hroom : state.kept.length < cap
  · rw [if_pos hroom, h.tags_eq]
    refine h.push_of_subset (Sublist.refl _) hseen ?_
    rw [← h.tags_eq]
    exact h.smallest.insert_of_card_lt (h.card_tags ▸ hroom)
  rw [if_neg hroom]
  have hfull : cap ≤ state.tags.card := h.card_tags ▸ not_lt.1 hroom
  cases hkept : state.kept with
  | nil =>
    rw [hkept] at hroom
    exact absurd hcap hroom
  | cons first rest =>
    obtain ⟨worst, token⟩ := first
    dsimp only
    have hmax : ∀ tag ∈ state.tags, tag ≤ worst := by
      have hpairwise := h.pairwise
      rw [hkept, pairwise_cons] at hpairwise
      intro tag htag
      obtain ⟨e, he, rfl⟩ := h.mem_tags.1 htag
      rw [hkept, mem_cons] at he
      obtain rfl | he := he
      · exact le_rfl
      · exact (hpairwise.1 e he).le
    by_cases hlt : tagOf (toLowercase raw) < worst
    · have herase : state.tags.erase worst = (rest.map Prod.fst).toFinset := by
        have hpairwise := h.pairwise
        rw [hkept, pairwise_cons] at hpairwise
        rw [h.tags_eq, hkept, map_cons, toFinset_cons, Finset.erase_insert]
        simpa using fun token hmem => lt_irrefl _ (hpairwise.1 (worst, token) hmem)
      rw [if_pos hlt, herase]
      refine h.push_of_subset (hkept ▸ sublist_cons_self _ _) hseen ?_
      rw [← herase]
      exact h.smallest.insert_of_lt hfull hseen
        (h.mem_tags.2 ⟨(worst, token), by simp [hkept], rfl⟩) hmax hlt
    · rw [if_neg hlt]
      refine h.keep (h.smallest.insert_of_le hfull hseen fun tag htag => ?_)
      exact (hmax tag htag).trans (not_lt.1 hlt)

end Scan.Valid

lemma tokensOf_concat (raws : List (List Char)) (raw : List Char) :
    tokensOf toLowercase (raws ++ [raw]) =
      tokensOf toLowercase raws ∪ tokensOf toLowercase [raw] := by
  simp only [tokensOf, filter_append, map_append, toFinset_append]

variable (isAlphanumeric toLowercase tagOf exclude)

/-- A whole scan, by what one piece preserves. -/
lemma valid_scan (hcap : 1 ≤ cap) (raws : List (List Char)) :
    (scan toLowercase cap tagOf exclude raws).Valid cap tagOf
      (tokensOf toLowercase raws \ exclude) := by
  induction raws using reverseRecOn with
  | nil =>
    refine ⟨Pairwise.nil, rfl, by simp [scan], ⟨Finset.empty_subset _, ?_, ?_⟩⟩
    · simp [tokensOf, scan]
    · simp [scan]
  | append_singleton raws raw ih =>
    rw [scan, foldl_concat, tokensOf_concat, Finset.union_sdiff_distrib]
    exact ih.look hcap raw

variable {isAlphanumeric toLowercase tagOf exclude}

lemma pairwise_sample (hcap : 1 ≤ cap) (text : List Char) :
    (sampleTokensWithout isAlphanumeric toLowercase cap tagOf exclude text).Pairwise
      (tagOf · < tagOf ·) := by
  have h := valid_scan toLowercase tagOf exclude hcap (text.splitOnP (!isAlphanumeric ·))
  rw [sampleTokensWithout, if_neg (by omega), pairwise_map, pairwise_reverse]
  refine h.pairwise.imp_of_mem fun {a b} ha hb hlt => ?_
  rwa [← (h.entry a ha).1, ← (h.entry b hb).1]

lemma mem_sample (hcap : 1 ≤ cap) {text : List Char}
    (hinj : Set.InjOn tagOf (tokens isAlphanumeric toLowercase text \ exclude : Finset _))
    (token : List Char) :
    token ∈ sampleTokensWithout isAlphanumeric toLowercase cap tagOf exclude text ↔
      token ∈ tokens isAlphanumeric toLowercase text \ exclude ∧
        tagOf token ∈
          (scan toLowercase cap tagOf exclude (text.splitOnP (!isAlphanumeric ·))).tags := by
  have h := valid_scan toLowercase tagOf exclude hcap (text.splitOnP (!isAlphanumeric ·))
  rw [sampleTokensWithout, if_neg (by omega), mem_map, h.mem_tags]
  constructor
  · rintro ⟨e, he, rfl⟩
    have hentry := h.entry e (mem_reverse.1 he)
    exact ⟨hentry.2, e, mem_reverse.1 he, hentry.1⟩
  · rintro ⟨htoken, e, he, heq⟩
    have hentry := h.entry e he
    exact ⟨e, mem_reverse.2 he, hinj hentry.2 htoken (hentry.1.symm.trans heq)⟩

/-- Two texts with the same tokens, but for those left out, have the same sample. -/
lemma sample_eq_of_tokens_eq (hcap : 1 ≤ cap) {text text' : List Char}
    {exclude' : Finset (List Char)}
    (hinj : Set.InjOn tagOf (tokens isAlphanumeric toLowercase text \ exclude : Finset _))
    (heq : tokens isAlphanumeric toLowercase text' \ exclude' =
      tokens isAlphanumeric toLowercase text \ exclude) :
    sampleTokensWithout isAlphanumeric toLowercase cap tagOf exclude' text' =
      sampleTokensWithout isAlphanumeric toLowercase cap tagOf exclude text := by
  have h := valid_scan toLowercase tagOf exclude hcap (text.splitOnP (!isAlphanumeric ·))
  have h' := valid_scan toLowercase tagOf exclude' hcap (text'.splitOnP (!isAlphanumeric ·))
  have htags := h'.smallest
  rw [← tokens, heq] at htags
  refine (pairwise_sample hcap text').eq_of_mem_iff (pairwise_sample hcap text) fun token => ?_
  rw [mem_sample hcap (heq ▸ hinj), mem_sample hcap hinj, heq, htags.unique h.smallest]

variable (isAlphanumeric toLowercase tagOf exclude)

/-- The sample is made of the tokens of smallest tag, smallest first. The set of tokens decides it,
whatever their order and number in the text, and no more than `cap` are held at any time. -/
theorem sampleTokensWithout_spec (hcap : 1 ≤ cap) (text : List Char)
    (hinj : Set.InjOn tagOf (tokens isAlphanumeric toLowercase text)) :
    let rest := tokens isAlphanumeric toLowercase text \ exclude
    let sample := sampleTokensWithout isAlphanumeric toLowercase cap tagOf exclude text
    sample.Pairwise (tagOf · < tagOf ·) ∧
      (∀ token ∈ sample, token ∈ rest) ∧
      sample.length = min cap rest.card ∧
      (∀ token ∈ sample, ∀ other ∈ rest, other ∉ sample → tagOf token < tagOf other) ∧
      (∀ text' exclude', tokens isAlphanumeric toLowercase text' \ exclude' = rest →
        sampleTokensWithout isAlphanumeric toLowercase cap tagOf exclude' text' = sample) ∧
      (exclude = ∅ → sampleTokens isAlphanumeric toLowercase cap tagOf text = sample) ∧
      ∀ n,
        let state := scan toLowercase cap tagOf exclude
          ((text.splitOnP (!isAlphanumeric ·)).take n)
        state.kept.length ≤ cap ∧ state.tags.card ≤ cap := by
  intro rest sample
  have hrest : Set.InjOn tagOf (rest : Finset (List Char)) :=
    hinj.mono (Finset.coe_subset.2 Finset.sdiff_subset)
  have h := valid_scan toLowercase tagOf exclude hcap (text.splitOnP (!isAlphanumeric ·))
  have hmem := mem_sample hcap hrest
  refine ⟨pairwise_sample hcap text,
    fun token htoken => ((hmem token).1 htoken).1, ?_, ?_, ?_, ?_, ?_⟩
  · rw [← Finset.card_image_of_injOn hrest]
    change (sampleTokensWithout _ _ _ _ _ _).length = _
    rw [sampleTokensWithout, if_neg (by omega), length_map, length_reverse, ← h.card_tags]
    exact h.smallest.card_eq
  · intro token htoken other hother hnot
    refine h.smallest.lt _ ((hmem token).1 htoken).2 _ (Finset.mem_image_of_mem tagOf hother) ?_
    exact fun htag => hnot ((hmem other).2 ⟨hother, htag⟩)
  · intro text' exclude' heq
    exact sample_eq_of_tokens_eq hcap hrest heq
  · rintro rfl
    rfl
  · intro n state
    have hstate := valid_scan toLowercase tagOf exclude hcap
      ((text.splitOnP (!isAlphanumeric ·)).take n)
    exact ⟨hstate.length_le, hstate.card_tags ▸ hstate.length_le⟩

/-- Two tokens, and room for one. -/
theorem sampleTokensWithout_spec_two :
    (sampleTokensWithout Char.isAlphanum id 1 List.length ∅ "abc de".toList).length =
      min 1 (tokens Char.isAlphanum id "abc de".toList \ ∅).card :=
  (sampleTokensWithout_spec Char.isAlphanum id List.length ∅ le_rfl "abc de".toList (by
    rw [show tokens Char.isAlphanum id "abc de".toList = {"abc".toList, "de".toList} from rfl]
    simp [Set.InjOn])).2.2.1

end Epistle.Antispam.Bayes
