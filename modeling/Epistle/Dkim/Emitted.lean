import Epistle.Dkim.Agreement
import Epistle.Dkim.BTag
import Epistle.Lib.Fields

/-!
# What the signer emits

The writer of a signature field (`dkim/sign/wire`) counts columns and folds where a token would pass
column 78. It refuses a line of more than 998 octets, and it has no limit on the number of names
that it lists. The parser (`dkim/signature`) refuses a list of more than 256 names.

* `Signer.readable_iff`: when the fields of a message can be read.
-/

namespace Epistle.Dkim

open Lib Lib.Text Lib.Lines Lib.Fallible Util.HeaderBlock List Option

/-! ## Columns -/

namespace Wire

@[simp] lemma len_nil : len [] = 0 := rfl

@[simp] lemma len_append (s t : List Char) : len (s ++ t) = len s + len t := by
  simp [len]

@[simp] lemma len_cons (c : Char) (s : List Char) : len (c :: s) = c.utf8Size + len s := by
  simp [len]

/-- The longest line of a message. -/
def maxLine : ℕ := 998

def Fits (text : List Char) : Prop :=
  ∀ line ∈ splitInclusive '\n' text, len (content line) ≤ maxLine

/-- A value whose column is that of its last line, with all lines within the limit. -/
inductive Value.Sound : Value → Prop
  | first {text : List Char} : '\n' ∉ text → len (fieldName ++ text) ≤ maxLine →
      Sound ⟨text, len (fieldName ++ text)⟩
  | folded {text line : List Char} : Fits (fieldName ++ text ++ ['\r', '\n']) → '\n' ∉ line →
      len line ≤ maxLine → Sound ⟨text ++ '\r' :: '\n' :: line, len line⟩

lemma fits_line {line : List Char} (h : '\n' ∉ line) (hlen : len line ≤ maxLine) :
    Fits (line ++ ['\r', '\n']) := by
  intro l hl
  have hfeed : '\n' ∉ line ++ ['\r'] := by simp [h]
  rw [append_cons, splitInclusive_line hfeed, splitInclusive_nil, mem_singleton] at hl
  rw [hl, content, chomp_append, stripLast_append]
  exact hlen

variable {s : List Char} {value : Value}

lemma Fits.append {t : List Char} (hs : Fits (s ++ ['\r', '\n'])) (ht : Fits t) :
    Fits (s ++ ['\r', '\n'] ++ t) := by
  intro line hline
  rw [append_cons, splitInclusive_append] at hline
  obtain hline | hline := mem_append.1 hline
  · exact hs line (by rwa [append_cons])
  · exact ht line hline

lemma Value.Sound.fits (h : value.Sound) : Fits (fieldName ++ value.text ++ ['\r', '\n']) := by
  cases h with
  | first hfeed hlen =>
    refine fits_line ?_ hlen
    intro hmem
    obtain hmem | hmem := mem_append.1 hmem
    · exact absurd hmem (by decide)
    · exact hfeed hmem
  | @folded text line hfits hfeed hlen =>
    have hparts : fieldName ++ (text ++ '\r' :: '\n' :: line) ++ ['\r', '\n'] =
        fieldName ++ text ++ ['\r', '\n'] ++ (line ++ ['\r', '\n']) := by simp
    rw [hparts]
    exact hfits.append (fits_line hfeed hlen)

lemma Value.Sound.extend (h : value.Sound) (hs : '\n' ∉ s)
    (hlen : value.column + len s ≤ maxLine) :
    Value.Sound ⟨value.text ++ s, value.column + len s⟩ := by
  cases h with
  | @first text hfeed _ =>
    have hfirst := @Value.Sound.first (text ++ s) (by simp [hfeed, hs])
    rw [← append_assoc, len_append (fieldName ++ text)] at hfirst
    exact hfirst hlen
  | @folded text line hfits hfeed _ =>
    have hfolded := @Value.Sound.folded text (line ++ s) hfits (by simp [hfeed, hs])
    rw [len_append] at hfolded
    simpa using hfolded hlen

lemma Value.Sound.push {value' : Value} {token : List Char} {space : Bool} (h : value.Sound)
    (htoken : '\n' ∉ token) (hpush : value.push token space = some value') : value'.Sound := by
  unfold Value.push at hpush
  dsimp only at hpush
  split_ifs at hpush with hlong hwide hspace hwide hwide
  · -- The line is ended, and the token is on a new one.
    obtain rfl := some.inj hpush
    have hfolded := @Value.Sound.folded value.text ('\t' :: token) h.fits (by simp [htoken])
    rw [len_cons, show '\t'.utf8Size = 1 from rfl] at hfolded
    simpa using hfolded (Nat.not_lt.1 hwide)
  · obtain rfl := some.inj hpush
    have hextend := h.extend (s := ' ' :: token) (by simp [htoken])
    rw [len_cons, show ' '.utf8Size = 1 from rfl, ← Nat.add_assoc] at hextend
    simpa using hextend (Nat.not_lt.1 hwide)
  · obtain rfl := some.inj hpush
    exact h.extend htoken (Nat.not_lt.1 hwide)

lemma Value.Sound.pushAll {value' : Value} {tokens : List (List Char)} {space : Bool}
    (h : value.Sound) (htokens : ∀ token ∈ tokens, '\n' ∉ token)
    (hpush : value.pushAll tokens space = some value') : value'.Sound := by
  induction tokens generalizing value with
  | nil =>
    obtain rfl : value = value' := by simpa [Value.pushAll] using hpush
    exact h
  | cons token tokens ih =>
    obtain ⟨htoken, hrest⟩ := forall_mem_cons.1 htokens
    simp only [Value.pushAll, foldlM_cons, bind_eq_bind,
      bind_eq_some_iff] at hpush
    obtain ⟨middle, hmiddle, hpush⟩ := hpush
    exact ih (h.push htoken hmiddle) hrest hpush

/-! ## The last line -/

lemma lastLine_eq_none (h : '\n' ∉ s) : lastLine s = none := by
  induction s with
  | nil => rfl
  | cons c s ih =>
    obtain ⟨-, hs⟩ := not_or.1 (mt mem_cons.2 h)
    rw [lastLine, ih hs]
    refine if_neg fun hpre => h (hpre.subset ?_)
    simp

lemma lastLine_append {line : List Char} (h : '\n' ∉ line) (s : List Char) :
    lastLine (s ++ '\r' :: '\n' :: line) = some line := by
  induction s with
  | nil =>
    have hfeed : lastLine ('\n' :: line) = none := by
      rw [lastLine, lastLine_eq_none h]
      exact if_neg (by simp [cons_prefix_cons])
    rw [nil_append, lastLine, hfeed]
    exact if_pos (by simp [cons_prefix_cons])
  | cons c s ih => rw [cons_append, lastLine, ih]

lemma Value.Sound.finish_eq (h : value.Sound) (signature : List Char) :
    finish value.text signature =
      (value.pushAll (chunks 64 signature.length signature) false).map fun value =>
        fieldName ++ value.text ++ ['\r', '\n'] := by
  cases h with
  | first hfeed _ =>
    simp only [finish, lastLine_eq_none hfeed, len_append, map_eq_bind, bind_eq_bind,
      Option.pure_def, Function.comp_def]
  | folded _ hfeed _ =>
    simp only [finish, lastLine_append hfeed, map_eq_bind, bind_eq_bind,
      Option.pure_def, Function.comp_def]

lemma unsigned_sound {algorithm selector domain bodyHash value : List Char}
    {names : List (List Char)} (hnames : Listable names)
    (htokens : ∀ token ∈ valueTokens algorithm selector domain bodyHash names, '\n' ∉ token)
    (h : unsigned algorithm selector domain ([':'].intercalate names) bodyHash = some value) :
    ∃ v : Value, v.Sound ∧ v.text = value := by
  simp only [unsigned, hnames.splitOn, bind_eq_bind, bind_eq_some_iff,
    Option.pure_def, some.injEq] at h
  obtain ⟨v₁, htags, v₂, hlist, v₃, hhash, v₄, hsig, rfl⟩ := h
  simp only [valueTokens, forall_mem_append] at htokens
  obtain ⟨⟨⟨htagTokens, hnameTokens⟩, hhashToken⟩, hsigToken⟩ := htokens
  have hstart : Value.Sound ⟨[], len fieldName⟩ := @Value.Sound.first [] (by simp) (by decide)
  have hsound := (hstart.pushAll htagTokens htags).pushAll hnameTokens hlist
  exact ⟨v₄, (hsound.push (hhashToken _ (by simp)) hhash).push (hsigToken _ (by simp)) hsig, rfl⟩

lemma finish_fits {signature field : List Char} (hsound : value.Sound)
    (hsignature : '\n' ∉ signature) (h : finish value.text signature = some field) :
    Fits field := by
  rw [hsound.finish_eq, map_eq_some_iff] at h
  obtain ⟨value', hpush, rfl⟩ := h
  refine (hsound.pushAll ?_ hpush).fits
  intro chunk hchunk hfeed
  have hmem := mem_flatten.2 ⟨chunk, hchunk, hfeed⟩
  rw [flatten_chunks (by decide) le_rfl] at hmem
  exact hsignature hmem

end Wire

/-! ## What the parser accepts -/

/-- A text that a tag gives back: lower case, without white space and semicolons. -/
structure Carried (text : List Char) : Prop where
  semicolon : ';' ∉ text
  lower : toLower (compact text) = text

lemma isWhitespace_toLower (c : Char) : isWhitespace c.toLower = isWhitespace c := by
  by_cases h : 65 ≤ c.toNat ∧ c.toNat ≤ 90
  · -- Neither letter is white space.
    have hfalse : ∀ d : Char, 65 ≤ d.toNat → d.toNat ≤ 122 → isWhitespace d = false := by
      intro d hlow hhigh
      simp only [isWhitespace, Bool.or_eq_false_iff, Bool.and_eq_false_iff, beq_eq_false_iff_ne,
        decide_eq_false_iff_not]
      omega
    rw [hfalse c h.1 (by omega), hfalse c.toLower] <;> rw [toNat_toLower, if_pos h] <;> omega
  · have heq : c.toLower = c := by rw [← Char.toNat_inj, toNat_toLower, if_neg h]
    rw [heq]

lemma compact_toLower (s : List Char) : compact (toLower s) = toLower (compact s) := by
  rw [compact, toLower, List.filter_map]
  refine congrArg (List.map _) (filter_congr fun c _ => ?_)
  rw [Function.comp_apply, isWhitespace_toLower]

lemma carried_toLower {s : List Char} (h : ';' ∉ s) : Carried (toLower (compact s)) where
  semicolon hmem := by
    obtain ⟨c, hc, heq⟩ := List.mem_map.1 hmem
    have hnat := congrArg Char.toNat heq
    rw [toNat_toLower] at hnat
    have hsemi : c.toNat = ';'.toNat := by
      split_ifs at hnat with hupper
      · simp at hnat
        omega
      · exact hnat
    rw [Char.toNat_inj] at hsemi
    exact h (hsemi ▸ (mem_filter.1 hc).1)
  lower := by
    rw [compact_toLower, toLower_toLower, compact, compact, List.filter_filter]
    simp

/-- The limits of what has been read of a tag list. -/
structure Tags.Within (tags : Tags) : Prop where
  domain : ∀ domain ∈ tags.domain, Carried domain
  selector : ∀ selector ∈ tags.selector, Carried selector
  names : ∀ names ∈ tags.signedHeaders, names.length ≤ maxSignedHeaderNames

variable {value : List Char} {names : List (List Char)}

lemma length_parseNames (h : parseNames value = .ok names) :
    names.length ≤ maxSignedHeaderNames := by
  unfold parseNames at h
  dsimp only at h
  split_ifs at h with hmany
  obtain rfl := Except.ok.inj h
  rw [length_map]
  exact Nat.not_lt.1 hmany

lemma Tags.Within.set {tags tags' : Tags} {name : TagName} (h : tags.Within)
    (hvalue : ';' ∉ value) (hset : tags.set (compact value) name = .ok tags') : tags'.Within := by
  cases name
  case v | unknown =>
    obtain rfl := Except.ok.inj hset
    exact ⟨h.domain, h.selector, h.names⟩
  case d =>
    obtain rfl := Except.ok.inj hset
    refine ⟨fun domain hdomain => ?_, h.selector, h.names⟩
    obtain rfl := some.inj hdomain
    exact carried_toLower hvalue
  case s =>
    obtain rfl := Except.ok.inj hset
    refine ⟨h.domain, fun selector hselector => ?_, h.names⟩
    obtain rfl := some.inj hselector
    exact carried_toLower hvalue
  case h =>
    obtain ⟨names, hnames, rfl⟩ := bind_pure_eq_ok hset
    refine ⟨h.domain, h.selector, fun names' hnames' => ?_⟩
    obtain rfl := some.inj hnames'
    exact length_parseNames hnames
  all_goals
    obtain ⟨_, -, rfl⟩ := bind_pure_eq_ok hset
    exact ⟨h.domain, h.selector, h.names⟩

lemma Tags.Within.foldlM {list : List (List Char)} {tags tags' : Tags} (h : tags.Within)
    (hlist : ∀ tag ∈ list, ';' ∉ tag) (hread : list.foldlM Tags.read tags = .ok tags') :
    tags'.Within := by
  induction list generalizing tags with
  | nil =>
    obtain rfl : tags = tags' := by simpa [pure, Except.pure] using hread
    exact h
  | cons tag list ih =>
    obtain ⟨htag, hrest⟩ := forall_mem_cons.1 hlist
    obtain ⟨middle, hmiddle, hread⟩ := foldlM_cons_eq_ok hread
    refine ih ?_ hrest hread
    obtain ⟨-, rfl⟩ | ⟨front, value, rfl, -, -, hset⟩ := Tags.read_eq_ok hmiddle
    · exact h
    · have hseen : Tags.Within { tags with seen := tags.seen ++ [trim front] } :=
        ⟨h.domain, h.selector, h.names⟩
      exact hseen.set (fun hmem => htag (by simp [hmem])) hset

lemma Signature.parse_within {signature : Signature} (h : Signature.parse value = .ok signature) :
    Carried signature.domain ∧ Carried signature.selector ∧
      signature.signedHeaders.length ≤ maxSignedHeaderNames := by
  obtain ⟨tags, htags, hfinish⟩ := bind_eq_ok.1 h
  have hempty : Tags.Within {} := ⟨by simp, by simp, by simp⟩
  have hwithin := hempty.foldlM (fun tag htag => not_mem_of_mem_splitOn htag) htags
  have hfinished := Tags.finish_eq_ok hfinish
  exact ⟨hwithin.domain _ hfinished.domain, hwithin.selector _ hfinished.selector,
    hwithin.names _ hfinished.signedHeaders⟩

/-! ## Reading what was written -/

/-- A signature field is parsed as what went into it, and its lines are within the limit. -/
structure Signed.Readable (signed : Signed) (algorithm : Algorithm) (domain selector : List Char)
    (names : List (List Char)) (bodyHash octets : List UInt8) : Prop where
  fits : Wire.Fits signed.field
  parsed : ∃ value signature, signed.field = Wire.fieldName ++ value ++ ['\r', '\n'] ∧
    Signature.parse value = .ok signature ∧ signature.algorithm = algorithm ∧
    signature.domain = domain ∧ signature.selector = selector ∧
    signature.signedHeaders = names ∧ signature.bodyHash = bodyHash ∧
    signature.signature = octets

lemma Carried.whitespace {text : List Char} (h : Carried text) :
    ∀ c ∈ text, isWhitespace c = false := by
  intro c hc
  rw [← h.lower, ← compact_toLower] at hc
  simpa using (mem_filter.1 hc).2

lemma Carried.feed {text : List Char} (h : Carried text) : '\n' ∉ text := fun hmem =>
  absurd (h.whitespace _ hmem) (by decide)

lemma fits_oneSignature {algorithm : Algorithm} {selector domain headerInput : List Char}
    {bodyHash : List UInt8} {sign : List UInt8 → Option (List UInt8)} {signed : Signed}
    (hnames : Listable names) (hselector : '\n' ∉ selector) (hdomain : '\n' ∉ domain)
    (h : oneSignature algorithm.text selector domain ([':'].intercalate names)
      (Base64.encode bodyHash) headerInput sign = some signed) : Wire.Fits signed.field := by
  obtain ⟨value, octets, hvalue, -, hfield, -⟩ := oneSignature_eq_some h
  have htokens := no_feed_valueTokens hnames (tagSafe_algorithm algorithm).feed hselector hdomain
    (tagSafe_base64 bodyHash).feed
  obtain ⟨v, hsound, rfl⟩ := Wire.unsigned_sound hnames htokens hvalue
  exact Wire.finish_fits hsound (tagSafe_base64 octets).feed hfield

lemma readable_oneSignature_iff {algorithm : Algorithm}
    {selector domain headerInput : List Char} {bodyHash : List UInt8}
    {sign : List UInt8 → Option (List UInt8)} {signed : Signed} (hnames : Listable names)
    (hlower : names.map toLower = names) (hfrom : "from".toList ∈ names)
    (h : oneSignature algorithm.text selector domain ([':'].intercalate names)
      (Base64.encode bodyHash) headerInput sign = some signed) :
    ∃ octets, sign (Utf8.encode signed.input) = some octets ∧
      (signed.Readable algorithm domain selector names bodyHash octets ↔
        names.length ≤ maxSignedHeaderNames ∧ Carried domain ∧ Carried selector) := by
  obtain ⟨layout, tail, octets, hoctets, hcompact, htail, hfield, -⟩ := oneSignature_spec hnames h
  refine ⟨octets, hoctets, ?_, ?_⟩
  · rintro ⟨-, value, signature, -, hparse, -, rfl, rfl, rfl, -⟩
    obtain ⟨hdomain, hselector, hcount⟩ := Signature.parse_within hparse
    exact ⟨hcount, hdomain, hselector⟩
  · rintro ⟨hcount, hdomain, hselector⟩
    have hsemi := layout.no_semicolon (tagSafe_algorithm algorithm).semicolon hselector.semicolon
      hdomain.semicolon (tagSafe_base64 bodyHash).semicolon htail
    have hparse := parse_signed layout hnames hlower hcount hfrom hcompact hsemi
    exact ⟨fits_oneSignature hnames hselector.feed hdomain.feed h, _, _, hfield, hparse, rfl,
      hdomain.lower, hselector.lower, rfl, rfl, rfl⟩

/-- Every signature field of a message, whatever its header, is read back as it went in and keeps
the limit of a line, if and only if it lists no more names than the parser allows and its domain and
its selector are texts that a tag carries. -/
theorem Signer.readable_iff {sha256 : List UInt8 → List UInt8} {signer : Signer}
    {domain fields : List Char} {raw : List UInt8}
    (h : signer.sign sha256 domain raw = some fields) :
    ∃ covered all, cover raw = some covered ∧ signer.signatures sha256 domain raw = some all ∧
      fields = all.flatMap Signed.field ∧
      ∀ signed ∈ all, ∃ algorithm selector sign octets,
        signer.keyOf sha256 algorithm = some (selector, sign) ∧
        sign (Utf8.encode signed.input) = some octets ∧
        (signed.Readable algorithm domain selector covered.names (sha256 covered.canonicalBody)
            octets ↔
          covered.names.length ≤ maxSignedHeaderNames ∧ Carried domain ∧ Carried selector) := by
  obtain ⟨all, hall, rfl⟩ := map_eq_some_iff.1 h
  obtain ⟨covered, hcover, -⟩ := bind_eq_some_iff.1 hall
  obtain ⟨hlistable, hlower, hfrom⟩ := names_of_cover hcover
  refine ⟨covered, all, hcover, hall, rfl, fun signed hsigned => ?_⟩
  obtain ⟨algorithm, selector, sign, hkey, hone⟩ :=
    signer.signatures_spec hall hcover signed hsigned
  obtain ⟨octets, hoctets, hiff⟩ := readable_oneSignature_iff hlistable hlower hfrom hone
  exact ⟨algorithm, selector, sign, octets, hkey, hoctets, hiff⟩

/-- A signer with both kinds of key, on a message with a folded field. -/
theorem Signer.readable_iff_dual :
    ∃ fields, dualSigner.sign plainEnv.sha256 "a".toList foldedMessage = some fields ∧
      ∃ covered all, cover foldedMessage = some covered ∧
        dualSigner.signatures plainEnv.sha256 "a".toList foldedMessage = some all ∧
        fields = all.flatMap Signed.field ∧
        ∀ signed ∈ all, ∃ algorithm selector sign octets,
          dualSigner.keyOf plainEnv.sha256 algorithm = some (selector, sign) ∧
          sign (Utf8.encode signed.input) = some octets ∧
          (signed.Readable algorithm "a".toList selector covered.names
              (plainEnv.sha256 covered.canonicalBody) octets ↔
            covered.names.length ≤ maxSignedHeaderNames ∧ Carried "a".toList ∧
              Carried selector) := by
  have hsome : (dualSigner.sign plainEnv.sha256 "a".toList foldedMessage).isSome := by
    decide +kernel
  obtain ⟨fields, h⟩ := isSome_iff_exists.1 hsome
  exact ⟨fields, h, Signer.readable_iff h⟩

def singleSigner : Signer := ⟨"e".toList, fun _ => [1, 2, 3], none⟩

def crowdedMessage : List UInt8 :=
  "From: me@a\n".toUTF8.toList ++ (List.replicate 243 "Cc:\n".toUTF8.toList).flatten ++ [10]

/-- A message with 244 fields is signed with a field that the parser refuses. -/
theorem crowded_message_refused :
    ∃ value, singleSigner.sign plainEnv.sha256 "a".toList crowdedMessage =
        some (Wire.fieldName ++ value ++ ['\r', '\n']) ∧
      Signature.parse value = .error ⟨"h= lists more than 256 header names".toList⟩ := by
  -- The run as one computation, which is then taken apart.
  have run : (singleSigner.sign plainEnv.sha256 "a".toList crowdedMessage).any (fun fields =>
      let value := (fields.drop Wire.fieldName.length).dropLast.dropLast
      fields = Wire.fieldName ++ value ++ ['\r', '\n'] ∧
        Signature.parse value = .error ⟨"h= lists more than 256 header names".toList⟩) = true := by
    decide +kernel
  obtain ⟨fields, hfields, hvalue⟩ := (Option.any_eq_true _ _).1 run
  obtain ⟨hvalue, hparse⟩ := of_decide_eq_true hvalue
  exact ⟨_, hfields.trans (congrArg some hvalue), hparse⟩

end Epistle.Dkim
