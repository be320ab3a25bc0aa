import Epistle.Lib.LossyText
import Epistle.Lib.Octets
import Epistle.Lib.Radix
import Epistle.Lib.Text

/-!
# The forms of a TXT value

`dns/txt`: a value is kept as its logical text, or as quoted strings of at most 255 octets with
escapes in decimal or octal. `txt_logical` takes any of them, and so takes a logical text that looks
quoted for a quoted one.

* `txtEncode_spec`: when a value is read back as it was published.
-/

namespace Epistle.Dns.Txt

open Lib Lib.Text List

/-- The forms in which a provider keeps a value. -/
inductive TxtForm
  | logical | presentation | presentationOctal
  deriving DecidableEq

/-- The radix of the escapes of a form. -/
def TxtForm.radix : TxtForm → ℕ
  | .presentationOctal => 8
  | .logical | .presentation => 10

def toDigit (radix : ℕ) (b : UInt8) : Option ℕ :=
  if 0x30 ≤ b.toNat ∧ b.toNat < 0x30 + radix then some (b.toNat - 0x30) else none

/-- The octet of a numeric escape. -/
def number (radix : ℕ) (digits : List UInt8) : Option UInt8 := do
  let n ← digits.foldlM (fun acc d => (toDigit radix d).map (acc * radix + ·)) 0
  if n < 256 then some (UInt8.ofNat n) else none

/-- From inside a string, or from behind one. -/
def unquoteFrom (radix : ℕ) : Bool → List UInt8 → Option (List UInt8)
  | inside, [] => if inside then none else some []
  | false, b :: rest =>
    if Octets.isAsciiWhitespace b then unquoteFrom radix false rest
    else if b = 0x22 then unquoteFrom radix true rest
    else none
  | true, b :: rest =>
    if b = 0x22 then unquoteFrom radix false rest
    else if b = 0x5C then
      match rest with
      | [] => none
      | next :: more =>
        if (toDigit 10 next).isSome then
          match more with
          | second :: third :: more => do
            let octet ← number radix [next, second, third]
            (unquoteFrom radix true more).map (octet :: ·)
          | _ => none
        else (unquoteFrom radix true more).map (next :: ·)
    else (unquoteFrom radix true rest).map (b :: ·)

/-- The first octet is not skipped. -/
def unquote (radix : ℕ) (input : List UInt8) : Option (List UInt8) :=
  if input.head?.any Octets.isAsciiWhitespace then none else unquoteFrom radix false input

/-- The text of a value, which is unquoted if it looks quoted. -/
def txtDecode (value : List Char) (form : TxtForm) : List Char :=
  let trimmed := trim value
  if trimmed.head? ≠ some '"' then trimmed
  else match unquote form.radix (Utf8.encode trimmed) with
    | some bytes => Utf8.decodeLossy bytes
    | none => trimmed

/-- The text of a value, with decimal escapes. -/
def txtLogical (value : List Char) : List Char := txtDecode value .presentation

def octetLen (s : List Char) : ℕ := (Utf8.encode s).length

/-- Whole characters of at most so many octets, and the rest. -/
def cut : ℕ → List Char → List Char × List Char
  | _, [] => ([], [])
  | room, c :: s =>
    if c.utf8Size ≤ room then
      let rest := cut (room - c.utf8Size) s
      (c :: rest.1, rest.2)
    else ([], c :: s)

lemma cut_append (room : ℕ) (s : List Char) : (cut room s).1 ++ (cut room s).2 = s := by
  induction s generalizing room with
  | nil => rfl
  | cons c s ih =>
    unfold cut
    split_ifs
    · exact congrArg (c :: ·) (ih _)
    · rfl

/-- There is room for any one character. -/
lemma cut_ne_nil {s : List Char} (h : s ≠ []) : (cut 255 s).1 ≠ [] := by
  obtain ⟨c, s, rfl⟩ := exists_cons_of_ne_nil h
  rw [cut, if_pos (c.utf8Size_le_four.trans (by decide))]
  exact cons_ne_nil _ _

/-- A text in pieces of at most 255 octets, none within a character. -/
def pieces (s : List Char) : List (List Char) :=
  if s = [] then [] else (cut 255 s).1 :: pieces (cut 255 s).2
termination_by s.length
decreasing_by
  rename_i h
  have happend := congrArg length (cut_append 255 s)
  have hpos := length_pos_of_ne_nil (cut_ne_nil h)
  rw [length_append] at happend
  omega

/-- The strings that a record is published with. -/
def txtCharacterStrings (value : List Char) : List (List Char) :=
  if octetLen (txtLogical value) ≤ 255 then [txtLogical value] else pieces (txtLogical value)

/-- An octet in a quoted string. -/
def escape (radix : ℕ) (b : UInt8) : List Char :=
  if b = 0x22 ∨ b = 0x5C then ['\\', Utf8.ascii b]
  else if 0x20 ≤ b ∧ b ≤ 0x7E then [Utf8.ascii b]
  else '\\' :: Radix.write radix 3 b.toNat

/-- A quoted string. -/
def quote (radix : ℕ) (piece : List Char) : List Char :=
  '"' :: ((Utf8.encode piece).flatMap (escape radix) ++ ['"'])

/-- The quoted strings of a value. -/
def presentation (value : List Char) (radix : ℕ) : List Char :=
  [' '].intercalate ((txtCharacterStrings value).map (quote radix))

/-- A value in a form. -/
def txtEncode (value : List Char) : TxtForm → List Char
  | .logical => txtLogical value
  | .presentation => presentation value 10
  | .presentationOctal => presentation value 8

/-- Whether two values stand for the same text. -/
def sameTxtValue (a b : List Char) : Bool := txtLogical a = txtLogical b

/-! ## Character-strings -/

lemma octetLen_append (s t : List Char) : octetLen (s ++ t) = octetLen s + octetLen t := by
  rw [octetLen, Utf8.encode_append, length_append, octetLen, octetLen]

lemma octetLen_cut (room : ℕ) (s : List Char) : octetLen (cut room s).1 ≤ room := by
  induction s generalizing room with
  | nil => exact Nat.zero_le _
  | cons c s ih =>
    unfold cut
    split_ifs with h
    · have hc : octetLen [c] = c.utf8Size := by simp [octetLen, Utf8.encode]
      have hrest := ih (room - c.utf8Size)
      dsimp only
      rw [← singleton_append, octetLen_append, hc]
      omega
    · exact Nat.zero_le _

lemma pieces_spec (s : List Char) :
    (pieces s).flatten = s ∧ ∀ piece ∈ pieces s, octetLen piece ≤ 255 ∧ piece ≠ [] := by
  fun_induction pieces s with
  | case1 => simp
  | case2 s h ih =>
    refine ⟨?_, fun piece hpiece => ?_⟩
    · rw [flatten_cons, ih.1, cut_append]
    · obtain rfl | hpiece := mem_cons.1 hpiece
      · exact ⟨octetLen_cut 255 s, cut_ne_nil h⟩
      · exact ih.2 piece hpiece

lemma txtCharacterStrings_spec (value : List Char) :
    (txtCharacterStrings value).flatten = txtLogical value ∧
      ∀ piece ∈ txtCharacterStrings value,
        octetLen piece ≤ 255 ∧ (txtLogical value ≠ [] → piece ≠ []) := by
  unfold txtCharacterStrings
  split_ifs with h
  · simp [h]
  · obtain ⟨hflatten, hpieces⟩ := pieces_spec (txtLogical value)
    exact ⟨hflatten, fun piece hpiece => ⟨(hpieces piece hpiece).1, fun _ =>
      (hpieces piece hpiece).2⟩⟩

lemma txtCharacterStrings_ne_nil (value : List Char) : txtCharacterStrings value ≠ [] := by
  unfold txtCharacterStrings
  split_ifs with h
  · exact cons_ne_nil _ _
  · intro hnil
    have hflatten := (pieces_spec (txtLogical value)).1
    rw [hnil] at hflatten
    rw [← hflatten] at h
    exact h (Nat.zero_le _)

/-! ## Reading what was written -/

/-- What an octet is written as, octet for octet. -/
def Escaped (radix : ℕ) (b : UInt8) : List UInt8 → Bool
  | [a] => a = b ∧ b ≠ 0x22 ∧ b ≠ 0x5C
  | [mark, a] => mark = 0x5C ∧ a = b ∧ toDigit 10 b = none
  | [mark, x, y, z] =>
    mark = 0x5C ∧ (toDigit 10 x).isSome ∧ number radix [x, y, z] = some b
  | _ => false

lemma escaped_escape (form : TxtForm) (b : UInt8) :
    Escaped form.radix b (Utf8.encode (escape form.radix b)) := by
  have h : ∀ n < 256, ∀ radix ∈ [8, 10],
      Escaped radix (UInt8.ofNat n) (Utf8.encode (escape radix (UInt8.ofNat n))) := by
    decide +kernel
  have hb := h b.toNat b.toNat_lt form.radix (by cases form <;> decide)
  rwa [UInt8.ofNat_toNat] at hb

lemma encode_quote : Utf8.encode ['"'] = [0x22] := rfl

lemma encode_space : Utf8.encode [' '] = [0x20] := rfl

variable {form : TxtForm} {radix : ℕ} {b : UInt8} {rest : List UInt8}

lemma unquoteFrom_open : unquoteFrom radix false (0x22 :: rest) = unquoteFrom radix true rest := rfl

lemma unquoteFrom_space : unquoteFrom radix false (0x20 :: rest) = unquoteFrom radix false rest :=
  rfl

/-- The octet in front decides, whatever stands behind it. -/
lemma unquoteFrom_inside :
    unquoteFrom radix true (0x22 :: rest) = unquoteFrom radix false rest ∧
      (b ≠ 0x22 → b ≠ 0x5C →
        unquoteFrom radix true (b :: rest) = (unquoteFrom radix true rest).map (b :: ·)) ∧
      (toDigit 10 b = none →
        unquoteFrom radix true (0x5C :: b :: rest) =
          (unquoteFrom radix true rest).map (b :: ·)) ∧
      ∀ y z, (toDigit 10 b).isSome →
        unquoteFrom radix true (0x5C :: b :: y :: z :: rest) =
          (number radix [b, y, z]).bind fun octet =>
            (unquoteFrom radix true rest).map (octet :: ·) := by
  refine ⟨?_, fun hquote hmark => ?_, fun h => ?_, fun y z h => ?_⟩ <;>
    rw [unquoteFrom.eq_def] <;> dsimp only
  · rfl
  · rw [if_neg hquote, if_neg hmark]
  · rw [if_neg (by decide), if_pos rfl, h]
    rfl
  · rw [if_neg (by decide), if_pos rfl, if_pos h]
    rfl

lemma unquoteFrom_escape :
    unquoteFrom form.radix true (Utf8.encode (escape form.radix b) ++ rest) =
      (unquoteFrom form.radix true rest).map (b :: ·) := by
  have h := escaped_escape form b
  generalize Utf8.encode (escape form.radix b) = written at h ⊢
  unfold Escaped at h
  split at h
  · obtain ⟨rfl, hquote, hmark⟩ := of_decide_eq_true h
    exact unquoteFrom_inside.2.1 hquote hmark
  · obtain ⟨rfl, rfl, hdigit⟩ := of_decide_eq_true h
    exact unquoteFrom_inside.2.2.1 hdigit
  · obtain ⟨rfl, hdigit, hnumber⟩ := of_decide_eq_true h
    exact (unquoteFrom_inside.2.2.2 _ _ hdigit).trans (by rw [hnumber]; rfl)
  · cases h

lemma unquoteFrom_escapes (octets : List UInt8) :
    unquoteFrom form.radix true
        (Utf8.encode (octets.flatMap (escape form.radix)) ++ 0x22 :: rest) =
      (unquoteFrom form.radix false rest).map (octets ++ ·) := by
  induction octets with
  | nil => simpa [Utf8.encode] using @unquoteFrom_inside form.radix 0 rest |>.1
  | cons b octets ih =>
    rw [flatMap_cons, Utf8.encode_append, append_assoc, unquoteFrom_escape, ih, Option.map_map]
    rfl

lemma unquoteFrom_quote (piece : List Char) :
    unquoteFrom form.radix false (Utf8.encode (quote form.radix piece) ++ rest) =
      (unquoteFrom form.radix false rest).map (Utf8.encode piece ++ ·) := by
  rw [quote, ← singleton_append, Utf8.encode_append, Utf8.encode_append, encode_quote,
    append_assoc, append_assoc, singleton_append, singleton_append, ← unquoteFrom_escapes,
    unquoteFrom_open]

lemma unquoteFrom_presentation (strings : List (List Char)) :
    unquoteFrom form.radix false
        (Utf8.encode ([' '].intercalate (strings.map (quote form.radix)))) =
      some (Utf8.encode strings.flatten) := by
  induction strings with
  | nil => rfl
  | cons first strings ih =>
    cases strings with
    | nil =>
      have hnil : unquoteFrom form.radix false [] = some [] := rfl
      simpa [hnil] using @unquoteFrom_quote form [] first
    | cons second strings =>
      rw [map_cons, map_cons, intercalate_cons_cons, ← map_cons, Utf8.encode_append,
        Utf8.encode_append,
        append_assoc, unquoteFrom_quote, encode_space, singleton_append, unquoteFrom_space, ih,
          @flatten_cons _ first, Utf8.encode_append]
      rfl

/-- Quotes on both sides. -/
lemma exists_presentation {strings : List (List Char)} (h : strings ≠ []) :
    ∃ mid, [' '].intercalate (strings.map (quote radix)) = '"' :: (mid ++ ['"']) := by
  induction strings with
  | nil => exact absurd rfl h
  | cons first strings ih =>
    cases strings with
    | nil => exact ⟨(Utf8.encode first).flatMap (escape radix), by simp [quote]⟩
    | cons second strings =>
      obtain ⟨mid, hmid⟩ := ih (cons_ne_nil _ _)
      rw [map_cons] at hmid
      rw [map_cons, map_cons, intercalate_cons_cons, hmid]
      exact ⟨(Utf8.encode first).flatMap (escape radix) ++ '"' :: ' ' :: '"' :: mid,
        by simp [quote]⟩

lemma trim_presentation (value : List Char) :
    trim (presentation value radix) = presentation value radix ∧
      (presentation value radix).head? = some '"' := by
  obtain ⟨mid, hmid⟩ := @exists_presentation radix _ (txtCharacterStrings_ne_nil value)
  rw [presentation, hmid]
  refine ⟨?_, rfl⟩
  rw [trim, trimStart, dropWhile_cons_of_neg (by decide)]
  exact trimEnd_eq_self (c := '"') (by simp [getLast?_cons]) (by decide)

lemma unquote_encode {s : List Char} (h : s.head? = some '"') :
    unquote radix (Utf8.encode s) = unquoteFrom radix false (Utf8.encode s) := by
  obtain ⟨s, rfl⟩ := head?_eq_some_iff.1 h
  rw [unquote, if_neg]
  rw [← singleton_append, Utf8.encode_append, encode_quote,
    singleton_append, head?_cons]
  decide

lemma txtDecode_of_head (form : TxtForm) {s : List Char} (htrim : trim s = s)
    (hhead : s.head? = some '"') :
    txtDecode s form =
      ((unquoteFrom form.radix false (Utf8.encode s)).map Utf8.decodeLossy).getD s := by
  unfold txtDecode
  rw [htrim, if_neg (not_not.2 hhead), unquote_encode hhead]
  cases unquoteFrom form.radix false (Utf8.encode s) <;> rfl

lemma txtDecode_presentation (value : List Char) :
    txtDecode (presentation value form.radix) form = txtLogical value := by
  obtain ⟨htrim, hhead⟩ := @trim_presentation form.radix value
  have hread := @unquoteFrom_presentation form (txtCharacterStrings value)
  rw [← presentation, (txtCharacterStrings_spec value).1] at hread
  rw [txtDecode_of_head form htrim hhead, hread]
  exact Utf8.decodeLossy_encode _

/-! ## Texts that read as themselves -/

/-- A text that no one takes for a quoted one: nothing to trim, and no strings in quotes. -/
def Settled (s : List Char) : Prop :=
  trim s = s ∧ (s.head? = some '"' → unquote 10 (Utf8.encode s) = none)

/-- Quotes and backslashes. -/
def marks (octets : List UInt8) : ℕ := octets.countP fun b => b = 0x22 ∨ b = 0x5C

lemma marks_cons (b : UInt8) (octets : List UInt8) :
    marks (b :: octets) = marks octets + if b = 0x22 ∨ b = 0x5C then 1 else 0 := by
  simp [marks, countP_cons]

lemma marks_cons_le (b : UInt8) (octets : List UInt8) :
    marks octets ≤ marks (b :: octets) ∧ marks (b :: octets) ≤ marks octets + 1 := by
  rw [marks_cons]
  split_ifs <;> omega

/-- A quote or backslash that is read was written with a backslash in front. -/
lemma marks_unquoteFrom (inside : Bool) (input : List UInt8) :
    ∀ octets, unquoteFrom radix inside input = some octets → marks octets ≤ marks input := by
  fun_induction unquoteFrom radix inside input with
  | case1 | case5 | case7 | case9 =>
    intro octets h
    cases h
  | case2 =>
    intro octets h
    cases h
    exact Nat.zero_le _
  | case3 b rest _ ih =>
    exact fun octets h => (ih octets h).trans (marks_cons_le b rest).1
  | case4 rest _ ih | case6 rest ih =>
    exact fun octets h => (ih octets h).trans (marks_cons_le 0x22 rest).1
  | case8 x _ y z more _ ih =>
    intro octets h
    obtain ⟨octet, -, h⟩ := Option.bind_eq_some_iff.1 h
    obtain ⟨octets, hmore, rfl⟩ := Option.map_eq_some_iff.1 h
    have hle := ih octets hmore
    have hread := (marks_cons_le octet octets).2
    have hx := (marks_cons_le x (y :: z :: more)).1
    have hy := (marks_cons_le y (z :: more)).1
    have hz := (marks_cons_le z more).1
    rw [marks_cons 0x5C, if_pos (.inr rfl)]
    omega
  | case10 next more _ _ ih =>
    intro octets h
    obtain ⟨octets, hmore, rfl⟩ := Option.map_eq_some_iff.1 h
    have hle := ih octets hmore
    rw [marks_cons 0x5C, marks_cons, marks_cons]
    omega
  | case11 b rest _ _ ih =>
    intro octets h
    obtain ⟨octets, hrest, rfl⟩ := Option.map_eq_some_iff.1 h
    have hle := ih octets hrest
    rw [marks_cons, marks_cons]
    omega

/-- Text that is decoded has the quotes and backslashes of the string. -/
lemma countP_decodeLossy (octets : List UInt8) :
    (Utf8.decodeLossy octets).countP (fun c => c = '"' ∨ c = '\\') = marks octets := by
  induction hn : octets.length using Nat.strong_induction_on generalizing octets with
  | _ n ih
  by_cases h : ∃ b ∈ octets, b = 0x22 ∨ b = 0x5C
  · -- Up to the first of them there is none, and ASCII stands for itself.
    obtain ⟨b, hb, hmark⟩ := h
    obtain ⟨front, rest, rfl⟩ := append_of_mem hb
    rw [length_append, length_cons] at hn
    have hascii : b < 0x80 ∧ (Utf8.ascii b = '"' ∨ Utf8.ascii b = '\\') := by
      obtain rfl | rfl := hmark <;> decide
    have hfront := ih front.length (by omega) front rfl
    have hrest := ih rest.length (by omega) rest rfl
    rw [Utf8.decodeLossy_append_cons front hascii.1, countP_append, countP_cons, hfront, hrest,
      if_pos (decide_eq_true hascii.2), marks, marks, marks, countP_append, countP_cons,
      if_pos (decide_eq_true hmark)]
  · push Not at h
    have hnone : ∀ b : UInt8, b < 0x80 → b ≠ 0 → (b = 0x22 ∨ b = 0x5C) →
        Utf8.ascii b ∉ Utf8.decodeLossy octets := fun b hb h0 hmark =>
      Utf8.ascii_not_mem_decodeLossy hb h0 fun hmem => by
        obtain rfl | rfl := hmark
        · exact (h _ hmem).1 rfl
        · exact (h _ hmem).2 rfl
    have hmarks : marks octets = 0 := countP_eq_zero.2 (by simpa using h)
    rw [hmarks, countP_eq_zero]
    intro c hc hmark
    obtain rfl | rfl := of_decide_eq_true hmark
    · exact hnone 0x22 (by decide) (by decide) (.inl rfl) hc
    · exact hnone 0x5C (by decide) (by decide) (.inr rfl) hc

/-- Reading a quoted text loses its quotes. -/
lemma marks_lt_of_unquote {s : List Char} {octets : List UInt8} (hhead : s.head? = some '"')
    (h : unquote radix (Utf8.encode s) = some octets) : marks octets < marks (Utf8.encode s) := by
  rw [unquote_encode hhead] at h
  obtain ⟨s, rfl⟩ := head?_eq_some_iff.1 hhead
  rw [← singleton_append, Utf8.encode_append, encode_quote,
    singleton_append] at h ⊢
  rw [unquoteFrom_open] at h
  rw [marks_cons, if_pos (.inl rfl)]
  exact Nat.lt_succ_of_le (marks_unquoteFrom true _ octets h)

lemma txtLogical_eq_self_iff (s : List Char) : txtLogical s = s ↔ Settled s := by
  unfold txtLogical txtDecode Settled
  dsimp only
  by_cases hhead : (trim s).head? = some '"'
  · rw [if_neg (not_not.2 hhead)]
    cases hunquote : unquote TxtForm.presentation.radix (Utf8.encode (trim s)) with
    | none =>
      refine (and_iff_left_of_imp fun (htrim : trim s = s) _ => ?_).symm
      rwa [htrim] at hunquote
    | some octets =>
      refine iff_of_false (fun (heq : Utf8.decodeLossy octets = s) => ?_) fun ⟨htrim, hnone⟩ => ?_
      · -- It would have as many quotes as the text around it.
        have hlt := marks_lt_of_unquote hhead hunquote
        have hsub : trim s <+ s :=
          (IsPrefix.sublist <| rdropWhile_prefix _ _).trans (dropWhile_suffix _).sublist
        rw [← countP_decodeLossy, ← countP_decodeLossy, Utf8.decodeLossy_encode, heq] at hlt
        exact absurd hsub.countP_le (not_le.2 hlt)
      · rw [htrim] at hhead hunquote
        exact nomatch hunquote.symm.trans (hnone hhead)
  · rw [if_pos hhead]
    refine (and_iff_left_of_imp fun htrim h => ?_).symm
    exact absurd (htrim.symm ▸ h) hhead

/-- The character-strings fit, are not empty without need, and give the logical text, which both
quoted forms are read back to. Every form is read back as it was and is then the same value, and the
logical form is stable, if and only if the logical text does not look like something else. -/
theorem txtEncode_spec (value : List Char) :
    (∀ form, (txtDecode (txtEncode value form) form = txtLogical value ∧
        sameTxtValue value (txtDecode (txtEncode value form) form)) ↔
      Settled (txtLogical value)) ∧
    (txtEncode (txtEncode value .logical) .logical = txtEncode value .logical ↔
      Settled (txtLogical value)) ∧
    txtEncode (txtEncode value .presentation) .presentation = txtEncode value .presentation ∧
    (∀ form ≠ .logical, txtDecode (txtEncode value form) form = txtLogical value) ∧
    (txtCharacterStrings value).flatten = txtLogical value ∧
    ∀ piece ∈ txtCharacterStrings value,
      octetLen piece ≤ 255 ∧ (txtLogical value ≠ [] → piece ≠ []) := by
  have hquoted : ∀ form ≠ .logical, txtDecode (txtEncode value form) form = txtLogical value := by
    intro form hform
    cases form with
    | logical => exact absurd rfl hform
    | presentation => exact @txtDecode_presentation .presentation value
    | presentationOctal => exact @txtDecode_presentation .presentationOctal value
  refine ⟨fun form => ?_, txtLogical_eq_self_iff _, ?_, hquoted, txtCharacterStrings_spec value⟩
  · rw [← txtLogical_eq_self_iff, sameTxtValue, decide_eq_true_iff]
    cases form with
    | logical =>
      refine ⟨And.left, fun h => ⟨h, ?_⟩⟩
      change txtLogical value = txtLogical (txtLogical (txtLogical value))
      rw [h, h]
    | presentation =>
      rw [hquoted _ (by decide), and_iff_right rfl, eq_comm]
    | presentationOctal =>
      rw [hquoted _ (by decide), and_iff_right rfl, eq_comm]
  · have hlogical : txtLogical (presentation value 10) = txtLogical value :=
      hquoted .presentation (by decide)
    have hstrings : txtCharacterStrings (presentation value 10) = txtCharacterStrings value := by
      rw [txtCharacterStrings, hlogical, txtCharacterStrings]
    change presentation (presentation value 10) 10 = presentation value 10
    rw [presentation, hstrings, presentation]

/-- A space inside the quotes, and quotes inside quotes, are gone when read back twice. -/
theorem txtEncode_quoted :
    txtLogical "\" a\"".toList = " a".toList ∧
      txtDecode (txtEncode "\" a\"".toList .logical) .logical = ['a'] ∧
      sameTxtValue "\" a\"".toList
        (txtDecode (txtEncode "\" a\"".toList .presentation) .presentation) = false ∧
      txtLogical "\"\\\"a\\\"\"".toList = "\"a\"".toList ∧
      txtEncode (txtEncode "\"\\\"a\\\"\"".toList .logical) .logical = ['a'] := by
  decide +kernel

end Epistle.Dns.Txt
