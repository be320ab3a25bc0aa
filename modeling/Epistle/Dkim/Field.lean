import Epistle.Dkim.Split
import Epistle.Dkim.Verify
import Epistle.Lib.Fallible

/-!
# The signature field on the wire

What the signer writes, against what the verifier reads of it. A written value is its tokens with
white space between them; the verifier finds the tags again, and emptying `b=` gives back the value
that was canonicalized before the signature was known.
-/

namespace Epistle.Dkim

open Lib Lib.Fallible Lib.Text Lib.Lines List Option

/-! ## Spacing -/

/-- What may stand between two tokens. -/
def IsGap (gap : List Char) : Prop := gap = [] ∨ gap = [' '] ∨ gap = ['\r', '\n', '\t']

inductive Spaced : List (List Char) → List Char → Prop
  | nil : Spaced [] []
  | cons {gap token text : List Char} {tokens : List (List Char)} :
      IsGap gap → Spaced tokens text → Spaced (token :: tokens) (gap ++ token ++ text)

variable {gap algorithm selector domain bodyHash signature s : List Char}
  {tokens names : List (List Char)}

lemma IsGap.whitespace (h : IsGap gap) : ∀ c ∈ gap, isWhitespace c := by
  obtain rfl | rfl | rfl := h <;> decide

lemma compact_gap (h : IsGap gap) : compact gap = [] := by
  simpa [compact] using h.whitespace

lemma Spaced.compact {text : List Char} (h : Spaced tokens text) :
    compact text = tokens.flatMap compact := by
  induction h with
  | nil => rfl
  | cons hgap _ ih => simp [compact_gap hgap, ih]

lemma push_text {value value' : Wire.Value} {token : List Char} {space : Bool}
    (h : value.push token space = some value') :
    ∃ gap, IsGap gap ∧ value'.text = value.text ++ gap ++ token := by
  unfold Wire.Value.push at h
  dsimp only at h
  split_ifs at h with hlong _ hspace _ _
  · cases h
    exact ⟨_, .inr (.inr rfl), rfl⟩
  · cases h
    exact ⟨_, .inr (.inl rfl), rfl⟩
  · cases h
    exact ⟨_, .inl rfl, by simp⟩

lemma pushAll_text {value value' : Wire.Value} {space : Bool}
    (h : value.pushAll tokens space = some value') :
    ∃ text, Spaced tokens text ∧ value'.text = value.text ++ text := by
  induction tokens generalizing value with
  | nil =>
    obtain rfl : value = value' := by simpa [Wire.Value.pushAll] using h
    exact ⟨[], .nil, by simp⟩
  | cons token tokens ih =>
    simp only [Wire.Value.pushAll, foldlM_cons, bind_eq_bind,
      bind_eq_some_iff] at h
    obtain ⟨middle, hpush, hrest⟩ := h
    obtain ⟨gap, hgap, hmiddle⟩ := push_text hpush
    obtain ⟨text, hspaced, htext⟩ := ih hrest
    exact ⟨_, .cons hgap hspaced, by simp [htext, hmiddle]⟩

lemma Spaced.append {tokens' : List (List Char)} {text text' : List Char}
    (h : Spaced tokens text) (h' : Spaced tokens' text') :
    Spaced (tokens ++ tokens') (text ++ text') := by
  induction h with
  | nil => exact h'
  | cons hgap _ ih =>
    rw [cons_append, append_assoc]
    exact .cons hgap ih

lemma Spaced.of_append {tokens' : List (List Char)} {text : List Char}
    (h : Spaced (tokens ++ tokens') text) :
    ∃ t t', Spaced tokens t ∧ Spaced tokens' t' ∧ text = t ++ t' := by
  induction tokens generalizing text with
  | nil => exact ⟨[], text, .nil, h, rfl⟩
  | cons token tokens ih =>
    rw [cons_append] at h
    cases h with
    | cons hgap hrest =>
      obtain ⟨t, t', ht, ht', rfl⟩ := ih hrest
      exact ⟨_, t', .cons hgap ht, ht', by simp⟩

lemma IsGap.spaced (h : IsGap gap) (token : List Char) : Spaced [token] (gap ++ token) := by
  simpa using Spaced.cons h .nil

def valueTokens (algorithm selector domain bodyHash : List Char) (names : List (List Char)) :
    List (List Char) :=
  ["v=1;".toList, "a=".toList ++ algorithm ++ [';'], "c=relaxed/relaxed;".toList,
    "d=".toList ++ domain ++ [';'], "s=".toList ++ selector ++ [';'], "h=".toList] ++
  Wire.nameTokens names ++ ["bh=".toList ++ bodyHash ++ [';']] ++ ["b=".toList]

lemma unsigned_spaced {names value : List Char}
    (h : Wire.unsigned algorithm selector domain names bodyHash = some value) :
    Spaced (valueTokens algorithm selector domain bodyHash (names.splitOn ':')) value := by
  simp only [Wire.unsigned, bind_eq_bind, bind_eq_some_iff, Option.pure_def,
    some.injEq] at h
  obtain ⟨v₁, htags, v₂, hlist, v₃, hhash, v₄, hsig, rfl⟩ := h
  obtain ⟨t₁, hspaced, hv₁⟩ := pushAll_text htags
  obtain ⟨t₂, hspacedNames, hv₂⟩ := pushAll_text hlist
  obtain ⟨g₆, hg₆, hv₃⟩ := push_text hhash
  obtain ⟨g₇, hg₇, hv₄⟩ := push_text hsig
  rw [hv₄, hv₃, hv₂, hv₁, append_assoc _ g₇, append_assoc _ g₆]
  exact ((hspaced.append hspacedNames).append (hg₆.spaced _)).append (hg₇.spaced _)

/-! ## The layout of a value -/

/-- A name list can be written as it is: the names have no colon, no semicolon and no white space,
and there is one. -/
structure Listable (names : List (List Char)) : Prop where
  ne_nil : names ≠ []
  plain : ∀ name ∈ names, ∀ c ∈ name, c ≠ ':' ∧ c ≠ ';' ∧ isWhitespace c = false

lemma Listable.splitOn (h : Listable names) :
    ([':'].intercalate names).splitOn ':' = names :=
  splitOn_intercalate ':' (fun name hname hc => (h.plain name hname ':' hc).1 rfl) h.ne_nil

lemma spaced_nameTokens {text : List Char} (h : Listable names)
    (hspaced : Spaced (Wire.nameTokens names) text) :
    ∃ list, text = list ++ [';'] ∧ compact list = [':'].intercalate names ∧ ';' ∉ list := by
  obtain ⟨hne, hplain⟩ := h
  induction names generalizing text with
  | nil => exact absurd rfl hne
  | cons name rest ih =>
    obtain ⟨hname, hrest⟩ := forall_mem_cons.1 hplain
    have hcompact : compact name = name := by
      refine filter_eq_self.2 fun c hc => ?_
      simp [(hname c hc).2.2]
    have hsemi : ∀ {gap : List Char}, IsGap gap → ';' ∉ gap ++ name := by
      intro gap hgap hmem
      obtain hmem | hmem := mem_append.1 hmem
      · exact absurd (hgap.whitespace _ hmem) (by decide)
      · exact (hname _ hmem).2.1 rfl
    cases rest with
    | nil =>
      cases hspaced with
      | cons hgap hnil =>
        cases hnil
        exact ⟨_, by simp, by simp [compact_gap hgap, hcompact, List.intercalate], hsemi hgap⟩
    | cons next rest =>
      cases hspaced with
      | @cons gap _ text' _ hgap hspaced' =>
        obtain ⟨list, rfl, hlist, hlistSemi⟩ := ih hspaced' (cons_ne_nil _ _) hrest
        refine ⟨gap ++ name ++ ':' :: list, by simp, ?_, ?_⟩
        · have hcolon : compact (':' :: list) = ':' :: compact list :=
            filter_cons_of_pos (by decide)
          simp [compact_gap hgap, hcompact, hcolon, hlist, intercalate_cons_cons]
        · intro hmem
          obtain hmem | hmem := mem_append.1 hmem
          · exact hsemi hgap hmem
          · exact hlistSemi (by simpa using hmem)

/-- A tag of a signature field, as it is written. -/
structure Tag where
  gap : List Char
  name : List Char
  body : List Char
  isGap : IsGap gap
  ne_nil : name ≠ []
  plain : ∀ c ∈ name, c ≠ '=' ∧ isWhitespace c = false

/-- The text of a tag. -/
def Tag.text (tag : Tag) : List Char := tag.gap ++ tag.name ++ '=' :: tag.body

/-- How the value of a signature field is spaced, for a list of names. -/
structure Layout (names : List (List Char)) where
  gap : ℕ → List Char
  isGap : ∀ i, IsGap (gap i)
  list : List Char
  compact_list : compact list = [':'].intercalate names
  semicolon_list : ';' ∉ list

/-- The tags of a field in the order they are written. -/
def Layout.tags {names : List (List Char)} (layout : Layout names)
    (algorithm selector domain bodyHash signature : List Char) : List Tag :=
  let tag (i : ℕ) (name body : List Char) (hne : name ≠ [])
      (hplain : ∀ c ∈ name, c ≠ '=' ∧ isWhitespace c = false) : Tag :=
    ⟨layout.gap i, name, body, layout.isGap i, hne, hplain⟩
  [tag 0 ['v'] ['1'] (by decide) (by decide), tag 1 ['a'] algorithm (by decide) (by decide),
    tag 2 ['c'] "relaxed/relaxed".toList (by decide) (by decide),
    tag 3 ['d'] domain (by decide) (by decide), tag 4 ['s'] selector (by decide) (by decide),
    tag 5 ['h'] layout.list (by decide) (by decide),
    tag 6 ['b', 'h'] bodyHash (by decide) (by decide),
      tag 7 ['b'] signature (by decide) (by decide)]

/-- The value of a signature field. -/
def Layout.value {names : List (List Char)} (layout : Layout names)
    (algorithm selector domain bodyHash signature : List Char) : List Char :=
  [';'].intercalate ((layout.tags algorithm selector domain bodyHash signature).map Tag.text)

lemma Layout.splitOn_value (layout : Layout names)
    (hsemi : ∀ tag ∈ layout.tags algorithm selector domain bodyHash signature, ';' ∉ tag.text) :
    (layout.value algorithm selector domain bodyHash signature).splitOn ';' =
      (layout.tags algorithm selector domain bodyHash signature).map Tag.text := by
  refine splitOn_intercalate ';' ?_ (by simp [Layout.tags])
  intro text htext
  obtain ⟨tag, htag, rfl⟩ := List.mem_map.1 htext
  exact hsemi tag htag

lemma unsigned_layout {value : List Char} (hnames : Listable names)
    (h : Wire.unsigned algorithm selector domain ([':'].intercalate names) bodyHash = some value) :
    ∃ layout : Layout names, value = layout.value algorithm selector domain bodyHash [] := by
  have hall := unsigned_spaced h
  rw [hnames.splitOn, valueTokens] at hall
  obtain ⟨u, t₄, hfront, hsig, rfl⟩ := hall.of_append
  obtain ⟨w, t₃, htagsNames, hhash, rfl⟩ := hfront.of_append
  obtain ⟨t₁, t₂, hspaced, hspacedNames, rfl⟩ := htagsNames.of_append
  obtain ⟨list, rfl, hcompact, hsemi⟩ := spaced_nameTokens hnames hspacedNames
  obtain _ | ⟨hg₆, _ | _⟩ := hhash
  obtain _ | ⟨hg₇, _ | _⟩ := hsig
  -- The gaps of the first six tokens.
  obtain _ | ⟨hg₀, _ | ⟨hg₁, _ | ⟨hg₂, _ | ⟨hg₃, _ | ⟨hg₄, _ | ⟨hg₅, _ | _⟩⟩⟩⟩⟩⟩ := hspaced
  rename_i g₆ g₇ g₀ g₁ g₂ g₃ g₄ g₅
  refine ⟨⟨fun i => [g₀, g₁, g₂, g₃, g₄, g₅, g₆, g₇].getD i [], ?_, list, hcompact, hsemi⟩, ?_⟩
  · intro i
    match i with
    | 0 => exact hg₀
    | 1 => exact hg₁
    | 2 => exact hg₂
    | 3 => exact hg₃
    | 4 => exact hg₄
    | 5 => exact hg₅
    | 6 => exact hg₆
    | 7 => exact hg₇
    | _ + 8 => exact .inl rfl
  · simp [Layout.value, Layout.tags, Tag.text, List.intercalate]

/-! ## Reading the tags back -/

lemma compact_eq_self (h : ∀ c ∈ s, isWhitespace c = false) : compact s = s :=
  filter_eq_self.2 fun c hc => by simp [h c hc]

lemma compact_trimEnd (s : List Char) : compact (trimEnd s) = compact s := by
  have hrest : compact (s.rtakeWhile isWhitespace) = [] := by
    refine filter_eq_nil_iff.2 fun c hc => ?_
    simp [mem_rtakeWhile_imp hc]
  conv_rhs => rw [← rdropWhile_append_rtakeWhile (p := isWhitespace) (l := s)]
  rw [compact_append, hrest, append_nil]
  rfl

lemma trim_eq_self (h : ∀ c ∈ s, isWhitespace c = false) : trim s = s := by
  cases s with
  | nil => rfl
  | cons d s =>
    have hstart : trimStart (d :: s) = d :: s := by simp [trimStart, h d (mem_cons_self ..)]
    rw [trim, hstart]
    refine rdropWhile_eq_self_iff.2 fun hne => ?_
    simp [h _ (getLast_mem hne)]

lemma Tags.read_tag {tags : Tags} {name body : List Char} (hgap : IsGap gap) (hne : name ≠ [])
    (hname : ∀ c ∈ name, c ≠ '=' ∧ isWhitespace c = false) (hseen : name ∉ tags.seen)
    (hlen : tags.seen.length < maxTags) :
    tags.read (gap ++ name ++ '=' :: body) =
      Tags.set { tags with seen := tags.seen ++ [name] } (compact body) (.ofText name) := by
  have htrim : trim (gap ++ name ++ '=' :: body) = name ++ '=' :: trimEnd body := by
    obtain ⟨d, rest, rfl⟩ := exists_cons_of_ne_nil hne
    rw [trim, append_assoc, cons_append,
      trimStart_append hgap.whitespace (hname d (mem_cons_self ..)).2, ← cons_append,
      trimEnd_append_cons _ _ (by decide)]
  have hsplit : splitOnce '=' (name ++ '=' :: trimEnd body) = some (name, trimEnd body) :=
    splitOnce_eq_some.2 ⟨rfl, fun h => (hname _ h).1 rfl⟩
  unfold Tags.read
  dsimp only
  rw [htrim, if_neg (by simp), hsplit]
  dsimp only
  rw [trim_eq_self fun c hc => (hname c hc).2, if_neg hseen, if_neg (Nat.not_le.2 hlen),
    compact_trimEnd]

lemma Tags.set_frame {tags tags' : Tags} {value : List Char} {name : TagName}
    (h : tags.set value name = .ok tags') :
    tags'.seen = tags.seen ∧ (name ≠ .h → tags'.signedHeaders = tags.signedHeaders) ∧
      (name ≠ .c → tags'.headerCanon = tags.headerCanon) := by
  -- A value that does not parse sets nothing.
  cases name
  case v | d | s | unknown =>
    obtain rfl := Except.ok.inj h
    exact ⟨rfl, fun _ => rfl, fun _ => rfl⟩
  case h =>
    obtain ⟨a, -, rfl⟩ := bind_pure_eq_ok h
    exact ⟨rfl, fun hne => absurd rfl hne, fun _ => rfl⟩
  case c =>
    obtain ⟨a, -, rfl⟩ := bind_pure_eq_ok h
    exact ⟨rfl, fun _ => rfl, fun hne => absurd rfl hne⟩
  all_goals
    obtain ⟨a, -, rfl⟩ := bind_pure_eq_ok h
    exact ⟨rfl, fun _ => rfl, fun _ => rfl⟩

lemma required_eq_ok {α : Type} {why : List Char} {o : Option α} {a : α}
    (h : required why o = .ok a) : o = some a := by
  cases o with
  | none => cases h
  | some b => exact congrArg some (Except.ok.inj h)

structure Tags.Finished (tags : Tags) (result : Signature) : Prop where
  signedHeaders : tags.signedHeaders = some result.signedHeaders
  domain : tags.domain = some result.domain
  selector : tags.selector = some result.selector
  signature : tags.signature = some result.signature
  headerCanon : tags.headerCanon = result.headerCanon

lemma Tags.finish_eq_ok {tags : Tags} {signature : Signature}
    (h : tags.finish = .ok signature) : tags.Finished signature := by
  unfold Tags.finish at h
  split at h
  · cases h
  · obtain ⟨names, hnames, h⟩ := bind_eq_ok.1 h
    split at h
    · cases h
    · simp only [bind_eq_ok] at h
      obtain ⟨_, -, _, hdomain, _, hselector, _, -, _, hoctets, h⟩ := h
      obtain rfl := Except.ok.inj h
      exact ⟨required_eq_ok hnames, required_eq_ok hdomain, required_eq_ok hselector,
        required_eq_ok hoctets, rfl⟩

def Tags.take (tags : Tags) (tag : Tag) : Except SignatureError Tags :=
  Tags.set { tags with seen := tags.seen ++ [tag.name] } (compact tag.body) (.ofText tag.name)

lemma foldlM_read (list : List Tag) (tags : Tags)
    (hnodup : (tags.seen ++ list.map Tag.name).Nodup)
    (hlen : tags.seen.length + list.length ≤ maxTags) :
    (list.map Tag.text).foldlM Tags.read tags = list.foldlM Tags.take tags := by
  induction list generalizing tags with
  | nil => rfl
  | cons tag list ih =>
    have hseen : tag.name ∉ tags.seen := fun hmem =>
      (nodup_append.1 hnodup).2.2 _ hmem _ (by simp) rfl
    have hread : tags.read tag.text = tags.take tag :=
      Tags.read_tag tag.isGap tag.ne_nil tag.plain hseen (by simp at hlen; omega)
    rw [map_cons, foldlM_cons, foldlM_cons, hread]
    cases htake : tags.take tag with
    | error e => rfl
    | ok tags' =>
      have hseen' : tags'.seen = tags.seen ++ [tag.name] := (Tags.set_frame htake).1
      refine ih tags' ?_ ?_
      · simpa [hseen'] using hnodup
      · simp only [hseen', length_append, length_cons, length_nil] at hlen ⊢
        omega

def Algorithm.text : Algorithm → List Char
  | .rsaSha256 => "rsa-sha256".toList
  | .ed25519Sha256 => "ed25519-sha256".toList

lemma parseAlgorithm_text (algorithm : Algorithm) :
    parseAlgorithm algorithm.text = .ok algorithm := by
  cases algorithm <;> rfl

lemma compact_algorithm (algorithm : Algorithm) : compact algorithm.text = algorithm.text := by
  cases algorithm <;> decide

open Base64

lemma decodeBase64_encode (octets : List UInt8) (tag : List Char) :
    decodeBase64 (encode octets) tag = .ok octets := by
  rw [decodeBase64, decode_encode]

lemma foldlM_take_layout (layout : Layout names) (hnames : Listable names)
    (hlower : names.map toLower = names) (hcount : names.length ≤ maxSignedHeaderNames)
    {algorithm : Algorithm} {bodyHash octets : List UInt8}
    (hsignature : compact signature = encode octets) :
    (layout.tags algorithm.text selector domain (encode bodyHash) signature).foldlM
      Tags.take {} =
      .ok { version := some ['1'], algorithm := some algorithm,
            domain := some (toLower (compact domain)),
            selector := some (toLower (compact selector)), signedHeaders := some names,
            bodyHash := some bodyHash, signature := some octets, headerCanon := .relaxed,
            bodyCanon := .relaxed,
            seen := [['v'], ['a'], ['c'], ['d'], ['s'], ['h'], ['b', 'h'], ['b']] } := by
  have hhash : compact (encode bodyHash) = encode bodyHash :=
    compact_eq_self (forall_mem_encode (by decide) (by decide) bodyHash)
  have hlist : parseNames (compact layout.list) = .ok names := by
    rw [layout.compact_list, parseNames, hnames.splitOn]
    simp [Nat.not_lt.2 hcount, hlower]
  have ha : ∀ tags : Tags, tags.set (compact algorithm.text) .a =
      .ok { tags with algorithm := some algorithm } := by
    intro tags
    rw [compact_algorithm, Tags.set, parseAlgorithm_text]
    rfl
  have hh : ∀ tags : Tags, tags.set (compact layout.list) .h =
      .ok { tags with signedHeaders := some names } := by
    intro tags
    rw [Tags.set, hlist]
    rfl
  have hbh : ∀ tags : Tags, tags.set (compact (encode bodyHash)) .bh =
      .ok { tags with bodyHash := some bodyHash } := by
    intro tags
    rw [hhash, Tags.set, decodeBase64_encode]
    rfl
  have hb : ∀ tags : Tags, tags.set (compact signature) .b =
      .ok { tags with signature := some octets } := by
    intro tags
    rw [hsignature, Tags.set, decodeBase64_encode]
    rfl
  -- The other tags set what they say.
  change ((Tags.set _ (compact algorithm.text) .a >>= fun _ => _) : Except _ _) = _
  rw [ha]
  change ((Tags.set _ (compact layout.list) .h >>= fun _ => _) : Except _ _) = _
  rw [hh]
  change ((Tags.set _ (compact (encode bodyHash)) .bh >>= fun _ => _) : Except _ _) = _
  rw [hbh]
  change ((Tags.set _ (compact signature) .b >>= fun _ => _) : Except _ _) = _
  rw [hb]
  rfl

lemma parse_signed (layout : Layout names) (hnames : Listable names)
    (hlower : names.map toLower = names) (hcount : names.length ≤ maxSignedHeaderNames)
    (hfrom : "from".toList ∈ names) {algorithm : Algorithm} {bodyHash octets : List UInt8}
    (hsignature : compact signature = encode octets)
    (hsemi : ∀ tag ∈ layout.tags algorithm.text selector domain (encode bodyHash) signature,
      ';' ∉ tag.text) :
    Signature.parse (layout.value algorithm.text selector domain (encode bodyHash)
      signature) =
      .ok { algorithm, domain := toLower (compact domain), selector := toLower (compact selector),
            signedHeaders := names, bodyHash, signature := octets, headerCanon := .relaxed,
            bodyCanon := .relaxed, bodyLength := none, expiration := none, identity := none } := by
  have hnodup : (({} : Tags).seen ++ (layout.tags algorithm.text selector domain
      (encode bodyHash) signature).map Tag.name).Nodup := by
    change List.Nodup [['v'], ['a'], ['c'], ['d'], ['s'], ['h'], ['b', 'h'], ['b']]
    decide
  have hlen : ({} : Tags).seen.length + (layout.tags algorithm.text selector domain
      (encode bodyHash) signature).length ≤ maxTags := by
    change 0 + 8 ≤ 64
    omega
  rw [Signature.parse, layout.splitOn_value hsemi, foldlM_read _ _ hnodup hlen,
    foldlM_take_layout layout hnames hlower hcount hsignature]
  simp only [ok_bind, Tags.finish, required, ne_eq, not_true_eq_false, if_false, hfrom]
  rfl

/-! ## Emptying the signature -/

lemma stripTag_text (tag : Tag) :
    stripTag tag.text = if tag.name = ['b'] then tag.gap ++ ['b', '='] else tag.text := by
  obtain ⟨gap, name, body, hgap, hne, hplain⟩ := tag
  obtain ⟨d, rest, rfl⟩ := exists_cons_of_ne_nil hne
  obtain ⟨hd, hrest⟩ := forall_mem_cons.1 hplain
  have htrim : trimStart (gap ++ d :: rest ++ '=' :: body) = d :: (rest ++ '=' :: body) := by
    rw [append_assoc, cons_append, trimStart_append hgap.whitespace hd.2]
  have htake : (gap ++ d :: rest ++ '=' :: body).take ((gap ++ d :: rest ++ '=' :: body).length -
      (d :: (rest ++ '=' :: body)).length) = gap := by
    rw [append_assoc, length_append, cons_append, Nat.add_sub_cancel]
    exact take_left
  have hb : (['b', '='] <+: d :: (rest ++ '=' :: body) ∨
      ['b', ' ', '='] <+: d :: (rest ++ '=' :: body)) ↔ d :: rest = ['b'] := by
    cases rest with
    | nil => simp [cons_prefix_cons, eq_comm]
    | cons e rest =>
      -- The name goes on, and neither an equals sign nor a space is part of it.
      obtain ⟨he, -⟩ := forall_mem_cons.1 hrest
      have hspace : ' ' ≠ e := by
        rintro rfl
        exact absurd he.2 (by decide)
      simp [cons_prefix_cons, Ne.symm he.1, hspace]
  simp only [stripTag, Tag.text, htrim, hb, htake]

lemma stripBTag_signed (layout : Layout names)
    (hsemi : ∀ tag ∈ layout.tags algorithm selector domain bodyHash signature, ';' ∉ tag.text) :
    stripBTag (layout.value algorithm selector domain bodyHash signature) =
      layout.value algorithm selector domain bodyHash [] := by
  rw [stripBTag, layout.splitOn_value hsemi, List.map_map, Layout.value]
  refine congrArg _ ?_
  simp only [Layout.tags, map_cons, map_nil, Function.comp_apply, stripTag_text]
  simp [Tag.text]

lemma flatten_chunks {n : ℕ} (hn : 0 < n) {fuel : ℕ} (h : s.length ≤ fuel) :
    (Wire.chunks n fuel s).flatten = s := by
  induction fuel generalizing s with
  | zero =>
    obtain rfl := eq_nil_of_length_eq_zero (Nat.le_zero.1 h)
    rfl
  | succ fuel ih =>
    cases s with
    | nil => rfl
    | cons c s =>
      have hle : ((c :: s).drop n).length ≤ fuel := by
        simp only [length_drop, length_cons] at h ⊢
        omega
      rw [Wire.chunks, flatten_cons, ih hle, take_append_drop]
      exact cons_ne_nil c s

lemma finish_text {value field : List Char} (h : Wire.finish value signature = some field) :
    ∃ tail, Spaced (Wire.chunks 64 signature.length signature) tail ∧
      field = Wire.fieldName ++ value ++ tail ++ ['\r', '\n'] := by
  simp only [Wire.finish, bind_eq_bind, bind_eq_some_iff, Option.pure_def,
    some.injEq] at h
  obtain ⟨value', hpush, rfl⟩ := h
  obtain ⟨tail, hspaced, htail⟩ := pushAll_text hpush
  exact ⟨tail, hspaced, by simp [htail]⟩

/-! ## Folding -/

lemma Spaced.folded {tokens : List (List Char)} {text : List Char} (h : Spaced tokens text)
    (htokens : ∀ token ∈ tokens, '\n' ∉ token) :
    List.IsChain FoldNext text ∧ text.getLast? ≠ some '\n' := by
  have last : ∀ {s t : List Char}, s.getLast? ≠ some '\n' → t.getLast? ≠ some '\n' →
      (s ++ t).getLast? ≠ some '\n' := by
    intro s t hs ht
    rw [List.getLast?_append]
    cases htl : t.getLast? with
    | none => simpa using hs
    | some c => simpa [htl] using ht
  induction h with
  | nil => exact ⟨.nil, by simp⟩
  | @cons gap token text tokens hgap _ ih =>
    obtain ⟨htoken, hrest⟩ := forall_mem_cons.1 htokens
    obtain ⟨hchain, hlast⟩ := ih hrest
    have htokenLast : token.getLast? ≠ some '\n' := fun h => htoken (mem_of_getLast? h)
    have hgapChain : List.IsChain FoldNext gap ∧ gap.getLast? ≠ some '\n' := by
      obtain rfl | rfl | rfl := hgap
      · exact ⟨.nil, by simp⟩
      · exact ⟨.singleton _, by simp⟩
      · exact ⟨by simp [FoldNext], by simp⟩
    exact ⟨IsChain.append (IsChain.append hgapChain.1 hgapChain.2 (isChain_of_no_feed htoken))
      (last hgapChain.2 htokenLast) hchain, last (last hgapChain.2 htokenLast) hlast⟩

end Epistle.Dkim
