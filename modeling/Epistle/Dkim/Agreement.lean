import Epistle.Dkim.Field
import Epistle.Dkim.Selection

/-!
# Signer and verifier agree

The fields a signer puts in front of a message lead the verifier to the bytes that were signed. The
signer and the verifier split a message on their own; they see the same fields and the same body, in
front of which the signature fields are fields of their own (`split_fields`).

* `Signer.verifier_rebuilds_input`: for every signature field of a signed message, the verifier
  builds the canonical body and the hash input of the signer.
-/

namespace Epistle.Dkim

open Lib Lib.Fallible Lib.Text Lib.Lines Lib.Instances Util.HeaderBlock List Option

/-! ## What is covered -/

variable {headers : List Header} {raw : List UInt8} {covered : Covered} {names : List (List Char)}
  {selector domain headerInput : List Char} {sign : List UInt8 → Option (List UInt8)}
  {signed : Signed}

lemma mapM_headerPair {texts : List (List Char)} (h : texts.mapM parseHeader = some headers) :
    texts.mapM headerPair = some (headers.map fun header => (header.name, header.value)) := by
  induction texts generalizing headers with
  | nil =>
    obtain rfl : [] = headers := by simpa using h
    rfl
  | cons text texts ih =>
    simp only [mapM_cons, bind_eq_bind, bind_eq_some_iff] at h
    obtain ⟨header, hparse, rest, hrest, heq⟩ := h
    obtain rfl : header :: rest = headers := by simpa using heq
    simp [headerPair_eq, hparse, ih hrest]

def coveredHeaders (raw : List UInt8) (headers : List Header) : List Header :=
  headers.reverse.filter fun header => isCovered (collectUnsafeResentNames raw) header.key

open Header

open Utf8

lemma cover_of_scan {block : List Char} (hcover : cover raw = some covered)
    (hdecode : decode (splitAtBlankLine raw).1 = some block)
    (hscan : scanHeaders none (splitInclusive '\n' block) = some headers) :
    covered.names = (coveredHeaders raw headers).map key ++ oversignedHeaders ∧
      covered.canonicalBody = Canon.relaxed.body (splitAtBlankLine raw).2 ∧
      covered.headerInput = (coveredHeaders raw headers).flatMap
        (fun header => header.hashLine .relaxed header.value) ∧
      (headers.map fun header => header.key).count "from".toList = 1 := by
  have hpairs := mapM_headerPair (mapM_fieldTexts hscan)
  simp only [cover, splitMessage, hdecode, bind_eq_bind, bind_some, hpairs,
    Option.pure_def] at hcover
  split_ifs at hcover with hfrom
  obtain rfl := some.inj hcover
  refine ⟨?_, rfl, ?_, ?_⟩
  · simp [coveredHeaders, List.filter_map, ← map_reverse, Function.comp_def, key]
  · simp [coveredHeaders, List.filter_map, ← map_reverse, Function.comp_def, key,
      flatMap_map, hashLine]
  · rw [not_not, countP_map] at hfrom
    rw [List.count, countP_map, ← hfrom]
    refine countP_congr fun header _ => ?_
    have hlower : toLower "from".toList = "from".toList := by decide
    simp only [Function.comp_apply, eqIgnoreAsciiCase_iff, hlower, beq_iff_eq, key]

lemma isCovered_plain {unsafeResent : List (List Char)} {name : List Char}
    (h : isCovered unsafeResent name) :
    ∀ c ∈ name, c ≠ ':' ∧ c ≠ ';' ∧ isWhitespace c = false := by
  have hknown : ∀ name ∈ signedHeaders, ∀ c ∈ name,
      c ≠ ':' ∧ c ≠ ';' ∧ isWhitespace c = false := by
    decide +kernel
  simp only [isCovered, Bool.or_eq_true, Bool.and_eq_true, decide_eq_true_eq] at h
  obtain h | ⟨⟨-, hsafe⟩, -⟩ := h
  · exact hknown name h
  · intro c hc
    simp only [isSafeHeaderName, Bool.and_eq_true, List.all_eq_true, decide_eq_true_eq] at hsafe
    obtain ⟨⟨⟨hlow, hhigh⟩, hcolon⟩, hsemi⟩ := hsafe.2 c hc
    refine ⟨by simpa using hcolon, by simpa using hsemi, ?_⟩
    simp only [isWhitespace, Bool.or_eq_false_iff, Bool.and_eq_false_iff, decide_eq_false_iff_not,
      beq_eq_false_iff_ne]
    omega

lemma toLower_toLower (s : List Char) : toLower (toLower s) = toLower s := by
  have hchar : ∀ c : Char, c.toLower.toLower = c.toLower := by
    intro c
    rw [← Char.toNat_inj, toNat_toLower, toNat_toLower]
    split_ifs <;> omega
  simp [toLower, hchar]

lemma names_of_cover (h : cover raw = some covered) :
    Listable covered.names ∧ covered.names.map toLower = covered.names ∧
      "from".toList ∈ covered.names := by
  have hover : ∀ name ∈ oversignedHeaders, name ∈ signedHeaders := by decide +kernel
  have hoverLower : oversignedHeaders.map toLower = oversignedHeaders := by decide +kernel
  obtain ⟨keys, hnames, hkeys⟩ : ∃ keys, covered.names = keys ++ oversignedHeaders ∧
      ∀ key ∈ keys, isCovered (collectUnsafeResentNames raw) key ∧ toLower key = key := by
    simp only [cover, bind_eq_bind, bind_eq_some_iff] at h
    obtain ⟨⟨headers, body⟩, -, h⟩ := h
    split_ifs at h with hfrom
    obtain rfl := some.inj h
    refine ⟨_, rfl, fun key hkey => ?_⟩
    obtain ⟨pair, hpair, rfl⟩ := List.mem_map.1 hkey
    exact ⟨(mem_filter.1 hpair).2, toLower_toLower _⟩
  rw [hnames]
  refine ⟨⟨by simp [oversignedHeaders], ?_⟩, ?_, ?_⟩
  · intro name hname
    obtain hname | hname := mem_append.1 hname
    · exact isCovered_plain (hkeys name hname).1
    · exact @isCovered_plain [] name (by simp [isCovered, hover name hname])
  · rw [map_append, hoverLower, map_congr_left fun key hkey => (hkeys key hkey).2,
      List.map_id']
  · exact mem_append_right _ (by decide +kernel)

/-! ## One signature -/

/-- A domain or a selector that can stand in a tag: no semicolon, no line feed. -/
structure TagSafe (text : List Char) : Prop where
  semicolon : ';' ∉ text
  feed : '\n' ∉ text

open Base64

lemma tagSafe_base64 (octets : List UInt8) : TagSafe (encode octets) where
  semicolon h := absurd (forall_mem_encode (P := (· ≠ ';')) (by decide) (by decide) octets _ h)
    (by simp)
  feed h := absurd (forall_mem_encode (P := (· ≠ '\n')) (by decide) (by decide) octets _ h)
    (by simp)

lemma tagSafe_algorithm (algorithm : Algorithm) : TagSafe algorithm.text := by
  cases algorithm <;> exact ⟨by decide, by decide⟩

lemma Layout.value_append (layout : Layout names)
    (algorithm selector domain bodyHash tail : List Char) :
    layout.value algorithm selector domain bodyHash [] ++ tail =
      layout.value algorithm selector domain bodyHash tail := by
  simp [Layout.value, Layout.tags, Tag.text, List.intercalate]

lemma Layout.no_semicolon (layout : Layout names) {algorithm bodyHash signature : List Char}
    (halgorithm : ';' ∉ algorithm) (hselector : ';' ∉ selector) (hdomain : ';' ∉ domain)
    (hhash : ';' ∉ bodyHash) (hsignature : ';' ∉ signature) :
    ∀ tag ∈ layout.tags algorithm selector domain bodyHash signature, ';' ∉ tag.text := by
  have hgap : ∀ i, ';' ∉ layout.gap i := fun i h =>
    absurd ((layout.isGap i).whitespace _ h) (by decide)
  simp [Layout.tags, Tag.text, hgap, halgorithm, hselector, hdomain, hhash, hsignature,
    layout.semicolon_list]

lemma no_feed_valueTokens {algorithm bodyHash : List Char} (hnames : Listable names)
    (halgorithm : '\n' ∉ algorithm) (hselector : '\n' ∉ selector) (hdomain : '\n' ∉ domain)
    (hhash : '\n' ∉ bodyHash) :
    ∀ token ∈ valueTokens algorithm selector domain bodyHash names, '\n' ∉ token := by
  have hlist : ∀ {names : List (List Char)}, (∀ name ∈ names, '\n' ∉ name) →
      ∀ token ∈ Wire.nameTokens names, '\n' ∉ token := by
    intro names h
    induction names using Wire.nameTokens.induct with
    | case1 => simp [Wire.nameTokens]
    | case2 name => simpa [Wire.nameTokens] using h
    | case3 name rest _ ih =>
      obtain ⟨hname, hrest⟩ := forall_mem_cons.1 h
      simpa [Wire.nameTokens, hname] using ih hrest
  have hplain := hlist fun name hname hfeed =>
    absurd (hnames.plain name hname _ hfeed).2.2 (by decide)
  simp only [valueTokens, mem_append, mem_cons, not_mem_nil, or_false]
  rintro token ((((rfl | rfl | rfl | rfl | rfl | rfl) | htoken) | rfl) | rfl)
  case inl.inl.inr => exact hplain token htoken
  all_goals simp [halgorithm, hselector, hdomain, hhash]

lemma oneSignature_eq_some {algorithm names bodyHash : List Char}
    (h : oneSignature algorithm selector domain names bodyHash headerInput sign = some signed) :
    ∃ value octets, Wire.unsigned algorithm selector domain names bodyHash = some value ∧
      sign (encode signed.input) = some octets ∧
      Wire.finish value (encode octets) = some signed.field ∧
      signed.input = headerInput ++
        (Canon.relaxed.header "DKIM-Signature".toList value).dropLast.dropLast := by
  simp only [oneSignature, bind_eq_bind, bind_eq_some_iff, Option.pure_def,
    some.injEq] at h
  obtain ⟨value, hvalue, octets, hoctets, field, hfield, rfl⟩ := h
  exact ⟨value, octets, hvalue, hoctets, hfield, rfl⟩

lemma oneSignature_spec {algorithm : Algorithm} {bodyHash : List UInt8}
    (hnames : Listable names)
    (h : oneSignature algorithm.text selector domain ([':'].intercalate names)
      (encode bodyHash) headerInput sign = some signed) :
    ∃ (layout : Layout names) (tail : List Char) (octets : List UInt8),
      sign (encode signed.input) = some octets ∧
      compact tail = encode octets ∧ ';' ∉ tail ∧
      signed.field = "DKIM-Signature".toList ++ ':' :: layout.value algorithm.text selector domain
        (encode bodyHash) tail ++ ['\r', '\n'] ∧
      signed.input = headerInput ++ (Canon.relaxed.header "DKIM-Signature".toList
        (layout.value algorithm.text selector domain (encode bodyHash)
          [])).dropLast.dropLast := by
  obtain ⟨value, octets, hvalue, hoctets, hfinish, hinput⟩ := oneSignature_eq_some h
  obtain ⟨layout, rfl⟩ := unsigned_layout hnames hvalue
  obtain ⟨tail, hspaced, hfield⟩ := finish_text hfinish
  have hflat := flatten_chunks (n := 64) (by decide) (le_refl (encode octets).length)
  have hcompact : compact tail = encode octets := by
    have hwhite := forall_mem_encode (P := (isWhitespace · = false)) (by decide) (by decide)
      octets
    calc compact tail
        = (Wire.chunks 64 (encode octets).length (encode octets)).flatMap compact :=
          hspaced.compact
      _ = compact (Wire.chunks 64 (encode octets).length (encode octets)).flatten :=
          (filter_flatten ..).symm
      _ = encode octets := by rw [hflat, compact_eq_self hwhite]
  have hsemi : ';' ∉ tail := fun h => by
    have hmem : ';' ∈ compact tail := mem_filter.2 ⟨h, by decide⟩
    exact (tagSafe_base64 octets).semicolon (hcompact ▸ hmem)
  refine ⟨layout, tail, octets, hoctets, hcompact, hsemi, ?_, hinput⟩
  rw [hfield, append_assoc Wire.fieldName, layout.value_append]
  rfl

lemma isField_oneSignature {algorithm : Algorithm} {bodyHash : List UInt8}
    (hnames : Listable names) (hselector : '\n' ∉ selector) (hdomain : '\n' ∉ domain)
    (h : oneSignature algorithm.text selector domain ([':'].intercalate names)
      (encode bodyHash) headerInput sign = some signed) : IsField signed.field := by
  obtain ⟨value, octets, hvalue, -, hfinish, -⟩ := oneSignature_eq_some h
  obtain ⟨tail, hspaced, hfield⟩ := finish_text hfinish
  rw [hfield]
  have hspacedValue := unsigned_spaced hvalue
  rw [hnames.splitOn] at hspacedValue
  have hflat := flatten_chunks (n := 64) (by decide) (le_refl (encode octets).length)
  -- Folds are all the line feeds there are.
  have hfolded :=
    (((IsGap.spaced (.inl rfl) Wire.fieldName).append hspacedValue).append hspaced).folded ?_
  · refine ⟨⟨'D', rfl, ?_⟩, ?_, ⟨_, append_cons ..⟩⟩
    · constructor <;> decide
    · exact IsChain.append hfolded.1 hfolded.2 (by simp [FoldNext])
  · intro token htoken
    obtain (htoken | htoken) | htoken := mem_append.1 htoken |>.imp_left mem_append.1
    · obtain rfl := mem_singleton.1 htoken
      decide
    · exact no_feed_valueTokens hnames (tagSafe_algorithm algorithm).feed hselector hdomain
        (tagSafe_base64 bodyHash).feed token htoken
    · intro hfeed
      have hmem := mem_flatten.2 ⟨token, htoken, hfeed⟩
      exact (tagSafe_base64 octets).feed (hflat ▸ hmem)

/-! ## All signatures -/

def Signer.keyOf (sha256 : List UInt8 → List UInt8) (signer : Signer) :
    Algorithm → Option (List Char × (List UInt8 → Option (List UInt8)))
  | .ed25519Sha256 => some (signer.selector, fun input =>
      some (signer.key (Algorithm.ed25519Sha256.signedBytes sha256 input)))
  | .rsaSha256 => signer.rsa.map fun rsa => (rsa.selector, rsa.key)

lemma Signer.selector_of_keyOf {sha256 : List UInt8 → List UInt8} {signer : Signer}
    {P : List Char → Prop} {algorithm : Algorithm} (hselector : P signer.selector)
    (hrsa : ∀ rsa ∈ signer.rsa, P rsa.selector)
    (h : signer.keyOf sha256 algorithm = some (selector, sign)) : P selector := by
  cases algorithm with
  | ed25519Sha256 =>
    obtain ⟨rfl, -⟩ := Prod.mk.inj (some.inj h)
    exact hselector
  | rsaSha256 =>
    obtain ⟨rsa, hmem, heq⟩ := map_eq_some_iff.1 h
    obtain ⟨rfl, -⟩ := Prod.mk.inj heq
    exact hrsa rsa hmem

lemma Signer.signatures_spec {sha256 : List UInt8 → List UInt8} {signer : Signer}
    {all : List Signed} (hsign : signer.signatures sha256 domain raw = some all)
    (hcover : cover raw = some covered) :
    ∀ signed ∈ all, ∃ (algorithm : Algorithm) (selector : List Char)
      (sign : List UInt8 → Option (List UInt8)),
      signer.keyOf sha256 algorithm = some (selector, sign) ∧
      oneSignature algorithm.text selector domain ([':'].intercalate covered.names)
        (encode (sha256 covered.canonicalBody)) covered.headerInput sign = some signed := by
  simp only [Signer.signatures, hcover, bind_eq_bind, bind_some,
    bind_eq_some_iff, Option.pure_def, some.injEq] at hsign
  obtain ⟨first, hfirst, rfl⟩ := hsign
  intro signed hsigned
  obtain rfl | hsecond := mem_cons.1 hsigned
  · exact ⟨.ed25519Sha256, signer.selector, _, rfl, hfirst⟩
  · obtain ⟨rsa, hrsa, hone⟩ := bind_eq_some_iff.1 (mem_toList.1 hsecond)
    exact ⟨.rsaSha256, rsa.selector, _, map_eq_some_iff.2 ⟨rsa, hrsa, rfl⟩, hone⟩

lemma parseHeader_field {value : List Char} {header : Header}
    (h : parseHeader ("DKIM-Signature".toList ++ ':' :: value ++ ['\r', '\n']) = some header) :
    header.name = "DKIM-Signature".toList ∧ header.value = value := by
  have hchomp : chomp '\r' '\n' ("DKIM-Signature".toList ++ ':' :: value ++ ['\r', '\n']) =
      "DKIM-Signature".toList ++ ':' :: value := by
    rw [append_cons _ '\r', chomp_append, stripLast_append]
  have hsplit : splitOnce ':' ("DKIM-Signature".toList ++ ':' :: value) =
      some ("DKIM-Signature".toList, value) := splitOnce_eq_some.2 ⟨rfl, by decide⟩
  rw [parseHeader, hchomp, hsplit] at h
  obtain rfl := some.inj h
  have htrim : trimEnd "DKIM-Signature".toList = "DKIM-Signature".toList := by decide
  exact ⟨htrim, rfl⟩

lemma dropCrlf_header (name value : List Char) :
    dropCrlf (Canon.relaxed.header name value) =
      (Canon.relaxed.header name value).dropLast.dropLast :=
  if_pos ⟨toLower name ++ ':' :: collapse value, rfl⟩

lemma isCovered_eq_false {unsafeResent : List (List Char)} {name : List Char}
    (hknown : name ∉ signedHeaders) (hresent : "resent-".toList.isPrefixOf name = false) :
    isCovered unsafeResent name = false := by
  rw [isCovered, hresent, decide_eq_false hknown]
  rfl

lemma coveredHeaders_append (raw : List UInt8) {front : List Header}
    (hfront : ∀ header ∈ front, header.name = "DKIM-Signature".toList) :
    coveredHeaders raw (front ++ headers) = coveredHeaders raw headers := by
  have hnil : coveredHeaders raw front = [] := by
    refine filter_eq_nil_iff.2 fun header hheader => ?_
    rw [key, hfront header (mem_reverse.1 hheader)]
    have hname : toLower "DKIM-Signature".toList ∉ signedHeaders := by decide +kernel
    have hresent : "resent-".toList.isPrefixOf (toLower "DKIM-Signature".toList) = false := by
      decide
    rw [isCovered_eq_false hname hresent]
    exact Bool.false_ne_true
  rw [coveredHeaders, reverse_append, filter_append, ← coveredHeaders, ← coveredHeaders,
    hnil, append_nil]

open HeaderIndex

lemma from_covered {message : Message} {signature : Signature}
    (hfrom : "from".toList ∈ signature.signedHeaders)
    (hcount : (message.headers.reverse.filter (key · = "from".toList)).length = 1) :
    (((build message).positions "from".toList).any fun positions =>
      signature.signedHeaders.count "from".toList < positions.length) = false := by
  have hlen := length_positions message "from".toList
  have hpos := count_pos_iff.2 hfrom
  cases hpositions : (build message).positions "from".toList with
  | none => rfl
  | some positions =>
    rw [hpositions, getD_some, hcount] at hlen
    simp only [any_some, decide_eq_false_iff_not]
    omega

lemma pick_coveredHeaders (raw : List UInt8) (headers : List Header) :
    pick key headers.reverse (fun _ => 0)
      ((coveredHeaders raw headers).map key ++ oversignedHeaders) =
      coveredHeaders raw headers := by
  have hover : ∀ name ∈ oversignedHeaders, name ∈ signedHeaders := by decide +kernel
  refine pick_covered (p := isCovered (collectUnsafeResentNames raw)) fun name hname => ?_
  simp [isCovered, hover name hname]

lemma count_from_append {front : List Header}
    (hfront : ∀ header ∈ front, header.name = "DKIM-Signature".toList)
    (hfrom : (headers.map fun header => header.key).count "from".toList = 1) :
    ((front ++ headers).reverse.filter (key · = "from".toList)).length = 1 := by
  have hnil : front.filter (key · = "from".toList) = [] := by
    refine filter_eq_nil_iff.2 fun header hheader => ?_
    rw [key, hfront header hheader]
    decide
  rw [filter_reverse, length_reverse, filter_append, hnil, nil_append,
    ← countP_eq_length_filter, ← hfrom, List.count, countP_map]
  refine countP_congr fun header _ => ?_
  simp

lemma prepare_eq_ok {env : Env} {message : Message} {signature : Signature}
    {i : Fin message.headers.length} {value : List Char}
    (hparse : Signature.parse value = .ok signature)
    (hfrom : (((build message).positions "from".toList).any fun positions =>
      signature.signedHeaders.count "from".toList < positions.length) = false)
    (hexpiration : signature.expiration = none) (hlength : signature.bodyLength = none)
    (hhash : env.sha256 (signature.bodyCanon.body message.body) = signature.bodyHash) :
    prepare env message (build message) i value =
      .ok { signature
            canonicalBody := signature.bodyCanon.body message.body
            hashInput := hashInput message (build message) signature
              (message.headers.get i) } := by
  simp only [prepare, hparse, hfrom, hexpiration, hlength, hhash, any_none,
    Bool.false_eq_true, if_false, ne_eq, not_true_eq_false]

/-- For each signature field of a signed message, the verifier builds the canonical body and the
hash input of the signer: whichever algorithms sign, and however the message is folded, spaced and
ended. -/
theorem Signer.verifier_rebuilds_input {env : Env} {signer : Signer} {domain fields : List Char}
    {raw : List UInt8} {all : List Signed} {covered : Covered} {message : Message}
    (hdomain : TagSafe domain) (hselector : TagSafe signer.selector)
    (hrsa : ∀ rsa ∈ signer.rsa, TagSafe rsa.selector)
    (hcont : ∀ block, decode (splitAtBlankLine raw).1 = some block → continues block = false)
    (hsign : signer.sign env.sha256 domain raw = some fields)
    (hall : signer.signatures env.sha256 domain raw = some all) (hcover : cover raw = some covered)
    (hcount : covered.names.length ≤ maxSignedHeaderNames)
    (hsplit : Message.split (encode fields ++ raw) = some message) {k : ℕ}
    (hk : k < all.length) :
    ∃ (hk' : k < message.headers.length) (prepared : Prepared),
      prepare env message (build message) ⟨k, hk'⟩ message.headers[k].value =
        .ok prepared ∧
      prepared.canonicalBody = covered.canonicalBody ∧ prepared.hashInput = all[k].input := by
  have hone : ∀ signed ∈ all, ∃ (algorithm : Algorithm) (selector : List Char)
      (sign : List UInt8 → Option (List UInt8)), TagSafe selector ∧
      oneSignature algorithm.text selector domain ([':'].intercalate covered.names)
        (encode (env.sha256 covered.canonicalBody)) covered.headerInput sign =
          some signed := by
    intro signed hsigned
    obtain ⟨algorithm, selector, sign, hkey, hone⟩ :=
      signer.signatures_spec hall hcover signed hsigned
    exact ⟨algorithm, selector, sign, Signer.selector_of_keyOf hselector hrsa hkey, hone⟩
  obtain ⟨block, hblock⟩ : ∃ block, decode (splitAtBlankLine raw).1 = some block := by
    cases hdecode : decode (splitAtBlankLine raw).1 with
    | none => simp [cover, splitMessage, hdecode] at hcover
    | some block => exact ⟨block, rfl⟩
  obtain rfl : (all.map Signed.field).flatten = fields := by
    simpa [Signer.sign, hall, List.flatMap] using hsign
  obtain ⟨hlistable, hlower, hmem⟩ := names_of_cover hcover
  -- The message as both sides split it.
  have hfields : ∀ field ∈ all.map Signed.field, IsField field := by
    intro field hfield
    obtain ⟨signed, hsigned, rfl⟩ := List.mem_map.1 hfield
    obtain ⟨algorithm, selector, sign, hsafe, hone⟩ := hone signed hsigned
    exact isField_oneSignature hlistable hsafe.feed hdomain.feed hone
  obtain ⟨front, headers, hfront, hscan, rfl⟩ :=
    split_fields hfields hblock (hcont block hblock) hsplit
  obtain ⟨hnames, hbody, hinput, hfrom⟩ := cover_of_scan hcover hblock hscan
  obtain ⟨hlength, hparsed⟩ := forall₂_iff_get.1 (forall₂_of_mapM hfront)
  rw [length_map] at hlength
  have hname : ∀ header ∈ front, header.name = "DKIM-Signature".toList := by
    intro header hheader
    obtain ⟨i, hi, rfl⟩ := getElem_of_mem hheader
    have hi' : i < all.length := by omega
    obtain ⟨algorithm, selector, sign, hsafe, hone⟩ := hone all[i] (getElem_mem hi')
    obtain ⟨layout, tail, octets, -, -, -, hfield, -⟩ := oneSignature_spec hlistable hone
    have hparse := hparsed i (by simpa using hi') hi
    rw [get_eq_getElem, getElem_map, hfield] at hparse
    exact (parseHeader_field hparse).1
  -- The one signature in question.
  have hk' : k < front.length := by omega
  obtain ⟨algorithm, selector, sign, hsafe, hone⟩ := hone all[k] (getElem_mem hk)
  obtain ⟨layout, tail, octets, -, hcompact, htail, hfield, hsigned⟩ :=
    oneSignature_spec hlistable hone
  have hvalue : front[k].value = layout.value algorithm.text selector domain
      (encode (env.sha256 covered.canonicalBody)) tail := by
    have hparse := hparsed k (by simpa using hk) hk'
    rw [get_eq_getElem, getElem_map, hfield] at hparse
    exact (parseHeader_field hparse).2
  have hsemi := layout.no_semicolon (tagSafe_algorithm algorithm).semicolon hsafe.semicolon
    hdomain.semicolon (tagSafe_base64 (env.sha256 covered.canonicalBody)).semicolon htail
  have hparse := parse_signed layout hlistable hlower hcount hmem hcompact hsemi
  have hat : k < (front ++ headers).length := by
    rw [length_append]
    omega
  have hget : (front ++ headers).get ⟨k, hat⟩ = front[k] := getElem_append_left hk'
  have hparse' : Signature.parse ((front ++ headers).get ⟨k, hat⟩).value = .ok _ :=
    hget ▸ hvalue ▸ hparse
  have hprepare := @prepare_eq_ok env ⟨front ++ headers, (splitAtBlankLine raw).2⟩ _ ⟨k, hat⟩ _
    hparse' (from_covered hmem (count_from_append hname hfrom)) rfl rfl
    (congrArg env.sha256 hbody.symm)
  refine ⟨hat, _, hprepare, hbody.symm, ?_⟩
  have hline : front[k].hashLine .relaxed (stripBTag front[k].value) =
      Canon.relaxed.header "DKIM-Signature".toList (layout.value algorithm.text selector domain
        (encode (env.sha256 covered.canonicalBody)) []) := by
    rw [hvalue, stripBTag_signed layout hsemi, hashLine, hname _ (getElem_mem hk')]
  have hpick := pick_coveredHeaders raw (front ++ headers)
  rw [coveredHeaders_append raw hname, ← hnames] at hpick
  rw [hashInput_eq, hget, hline, dropCrlf_header, hpick, hsigned, hinput]

/-- Without a network, and with a digest that is empty. -/
def plainEnv : Env := ⟨fun _ => [], 0, fun _ => none, fun _ _ => none⟩

def dualSigner : Signer := ⟨"e".toList, fun _ => [1, 2, 3], some ⟨"r".toList, fun _ => some [4]⟩⟩

def foldedMessage : List UInt8 := "From  :\r\n me@a\nTo: you@b\r\n\r\nhi\n".toUTF8.toList

/-- Both signatures of a message with two of them. -/
theorem verifier_rebuilds_input_dual :
    ∃ fields all covered message,
      dualSigner.sign plainEnv.sha256 "a".toList foldedMessage = some fields ∧
      dualSigner.signatures plainEnv.sha256 "a".toList foldedMessage = some all ∧
      cover foldedMessage = some covered ∧ all.length = 2 ∧
      Message.split (encode fields ++ foldedMessage) = some message ∧
      ∀ k (hk : k < all.length), ∃ (hk' : k < message.headers.length) (prepared : Prepared),
        prepare plainEnv message (build message) ⟨k, hk'⟩ message.headers[k].value =
          .ok prepared ∧
        prepared.canonicalBody = covered.canonicalBody ∧ prepared.hashInput = all[k].input := by
  have run : (do
      let fields ← dualSigner.sign plainEnv.sha256 "a".toList foldedMessage
      let all ← dualSigner.signatures plainEnv.sha256 "a".toList foldedMessage
      let covered ← cover foldedMessage
      let message ← Message.split (encode fields ++ foldedMessage)
      let block ← decode (splitAtBlankLine foldedMessage).1
      return (all.length, decide (covered.names.length ≤ maxSignedHeaderNames), continues block,
        message.body)) = some (2, true, false, [104, 105, 10]) := by
    decide +kernel
  simp only [bind_eq_bind, bind_eq_some_iff, Option.pure_def, some.injEq,
    Prod.mk.injEq, decide_eq_true_eq] at run
  obtain ⟨fields, hfields, all, hall, covered, hcover, message, hmessage, block, hblock,
    htwo, hcount,
    hcont, -⟩ := run
  have hsafe : TagSafe "a".toList ∧ TagSafe "e".toList ∧ TagSafe "r".toList :=
    ⟨⟨by decide, by decide⟩, ⟨by decide, by decide⟩, ⟨by decide, by decide⟩⟩
  refine ⟨fields, all, covered, message, hfields, hall, hcover, htwo, hmessage, fun k hk => ?_⟩
  refine Signer.verifier_rebuilds_input hsafe.1 hsafe.2.1 ?_ ?_ hfields hall hcover hcount
    hmessage hk
  · rintro rsa hrsa
    obtain rfl := some.inj hrsa
    exact hsafe.2.2
  · intro block' hblock'
    obtain rfl := some.inj (hblock.symm.trans hblock')
    exact hcont


/-- A selector that ends its tag. -/
def semicolonSigner : Signer := ⟨"a;b".toList, fun _ => [], none⟩

def shortMessage : List UInt8 := "From: me@a\r\n\r\n".toUTF8.toList

/-- A signature under a selector with a semicolon is refused before anything is hashed. -/
theorem semicolon_selector_refused :
    ∃ fields message, semicolonSigner.sign plainEnv.sha256 "a".toList shortMessage = some fields ∧
      (cover shortMessage).any (·.names.length ≤ maxSignedHeaderNames) ∧
      (decode (splitAtBlankLine shortMessage).1).any (!continues ·) ∧
      Message.split (encode fields ++ shortMessage) = some message ∧
      ∃ h : 0 < message.headers.length, (message.headers.get ⟨0, h⟩).name =
          "DKIM-Signature".toList ∧
        prepare plainEnv message (build message) ⟨0, h⟩
          (message.headers.get ⟨0, h⟩).value = .error ⟨.permError, none⟩ := by
  -- The run as one computation, which is then taken apart.
  have run : (do
      let fields ← semicolonSigner.sign plainEnv.sha256 "a".toList shortMessage
      let message ← Message.split (encode fields ++ shortMessage)
      if h : 0 < message.headers.length then
        match prepare plainEnv message (build message) ⟨0, h⟩
          (message.headers.get ⟨0, h⟩).value with
        | .error result => some ((message.headers.get ⟨0, h⟩).name, result)
        | .ok _ => none
      else none) = some ("DKIM-Signature".toList, ⟨.permError, none⟩) := by
    decide +kernel
  simp only [bind_eq_bind, bind_eq_some_iff] at run
  obtain ⟨fields, hfields, message, hmessage, run⟩ := run
  split_ifs at run with h
  refine ⟨fields, message, hfields, by decide +kernel, by decide +kernel, hmessage, h, ?_⟩
  cases hprepare : prepare plainEnv message (build message) ⟨0, h⟩
      (message.headers.get ⟨0, h⟩).value with
  | ok prepared =>
    rw [hprepare] at run
    cases run
  | error result =>
    rw [hprepare] at run
    obtain ⟨hname, rfl⟩ := Prod.mk.inj (some.inj run)
    exact ⟨hname, rfl⟩

end Epistle.Dkim
