import Epistle.Lib.Utf8

/-!
# ASCII in text that is decoded with replacements

Whatever stands around it, an ASCII octet is a character of its own in the text a string is decoded
to with replacements, and no other ASCII character is in the text. So the text has the lines of the
string, and starts with an ASCII word exactly if the string does.
-/

namespace Epistle.Lib.Utf8

open Lines List Option

def Pending.Wide (p : Pending) : Prop :=
  2 ≤ p.value ∨ 2 ≤ p.need ∧ (1 ≤ p.value ∨ 0x90 ≤ p.low.toNat)

def IsWide (c : Char) : Prop := c.toNat = 0 ∨ 0x80 ≤ c.toNat

lemma isWide_replacement : IsWide replacement := .inr (by decide)

lemma isWide_ofNat {n : ℕ} (h : 0x80 ≤ n) : IsWide (Char.ofNat n) := by
  by_cases hvalid : n.isValidChar
  · have hn : (Char.ofNat n).toNat = n := by
      rw [Char.ofNat, dif_pos hvalid]
      rfl
    exact .inr (hn.symm ▸ h)
  · have hzero : Char.ofNat n = '\x00' := dif_neg hvalid
    exact .inl (hzero ▸ rfl)

variable {b : UInt8} {p : Pending} {c : Option Char} {s : List UInt8} {w : List Char}

lemma wide_of_first (h : first b = some (some p, c)) : p.Wide ∧ c = none := by
  unfold first at h
  by_cases hascii : b < 0x80
  · rw [if_pos hascii] at h
    cases h
  rw [if_neg hascii] at h
  by_cases hlow : b < 0xC2
  · rw [if_pos hlow] at h
    cases h
  rw [if_neg hlow] at h
  have hlow' : 0xC2 ≤ b.toNat := UInt8.le_iff_toNat_le.1 (UInt8.not_lt.1 hlow)
  by_cases htwo : b < 0xE0
  · rw [if_pos htwo] at h
    cases h
    exact ⟨.inl (by dsimp only; omega), rfl⟩
  rw [if_neg htwo] at h
  have htwo' : 0xE0 ≤ b.toNat := UInt8.le_iff_toNat_le.1 (UInt8.not_lt.1 htwo)
  by_cases hthree : b < 0xF0
  · rw [if_pos hthree] at h
    cases h
    refine ⟨.inr ⟨Nat.le_refl 2, ?_⟩, rfl⟩
    by_cases hfirst : b = 0xE0
    · exact .inr (by dsimp only; rw [if_pos hfirst]; decide)
    · have hne : b.toNat ≠ 0xE0 := fun heq => hfirst (UInt8.toNat_inj.1 heq)
      exact .inl (by dsimp only; omega)
  rw [if_neg hthree] at h
  have hthree' : 0xF0 ≤ b.toNat := UInt8.le_iff_toNat_le.1 (UInt8.not_lt.1 hthree)
  by_cases hfour : b < 0xF5
  · rw [if_pos hfour] at h
    cases h
    refine ⟨.inr ⟨Nat.le_succ 2, ?_⟩, rfl⟩
    by_cases hfirst : b = 0xF0
    · exact .inr (by dsimp only; rw [if_pos hfirst]; decide)
    · have hne : b.toNat ≠ 0xF0 := fun heq => hfirst (UInt8.toNat_inj.1 heq)
      exact .inl (by dsimp only; omega)
  · rw [if_neg hfour] at h
    cases h

lemma first_of_ascii (hb : b < 0x80) : first b = some (none, some (ascii b)) := if_pos hb

lemma eq_none_of_first (hb : ¬ b < 0x80) : first b ≠ some (none, c) := by
  unfold first
  split_ifs <;> simp

lemma wide_of_step (hp : p.Wide) {next : Option Pending} (h : step (some p) b = some (next, c)) :
    (∃ q, next = some q ∧ q.Wide ∧ c = none) ∨ next = none ∧ ∃ d, c = some d ∧ IsWide d := by
  rw [step] at h
  split_ifs at h with hin hlast
  · cases h
    refine .inr ⟨rfl, _, rfl, isWide_ofNat ?_⟩
    obtain hvalue | ⟨hneed, -⟩ := hp
    · omega
    · omega
  · cases h
    refine .inl ⟨_, rfl, .inl ?_, rfl⟩
    have hlow := UInt8.le_iff_toNat_le.1 hin.1
    dsimp only
    obtain hvalue | ⟨-, hvalue | hlow'⟩ := hp <;> omega

lemma decodeLossyFrom_wide (hp : p.Wide) (bs : List UInt8) :
    ∃ c text, decodeLossyFrom (some p) bs = c :: text ∧ IsWide c := by
  induction bs generalizing p with
  | nil => exact ⟨_, [], rfl, isWide_replacement⟩
  | cons b bs ih =>
    rw [decodeLossyFrom, lossyStep]
    cases hstep : step (some p) b with
    | some r =>
      obtain ⟨next, c⟩ := r
      obtain ⟨q, rfl, hq, rfl⟩ | ⟨rfl, d, rfl, hd⟩ := wide_of_step hp hstep
      · exact ih hq
      · exact ⟨d, _, rfl, hd⟩
    | none =>
      dsimp only
      cases first b with
      | some r | none => exact ⟨_, _, rfl, isWide_replacement⟩

lemma decodeLossy_cons_ascii (hb : b < 0x80) (bs : List UInt8) :
    decodeLossy (b :: bs) = ascii b :: decodeLossy bs := by
  have hstep : step none b = some (none, some (ascii b)) := first_of_ascii hb
  rw [decodeLossy, decodeLossyFrom, lossyStep, hstep]
  rfl

lemma decodeLossy_cons_wide (hb : ¬ b < 0x80) (bs : List UInt8) :
    ∃ c text, decodeLossy (b :: bs) = c :: text ∧ IsWide c := by
  have hstep : step none b = first b := rfl
  rw [decodeLossy, decodeLossyFrom, lossyStep, hstep]
  cases hfirst : first b with
  | none => exact ⟨_, _, rfl, isWide_replacement⟩
  | some r =>
    obtain ⟨_ | p, c⟩ := r
    · exact absurd hfirst (eq_none_of_first hb)
    · obtain ⟨hp, rfl⟩ := wide_of_first hfirst
      exact decodeLossyFrom_wide hp bs

lemma decodeLossyFrom_append_cons (st : Option Pending) (p : List UInt8) (hb : b < 0x80)
    (s : List UInt8) :
    decodeLossyFrom st (p ++ b :: s) = decodeLossyFrom st p ++ ascii b :: decodeLossy s := by
  induction p generalizing st with
  | nil =>
    cases st with
    | none => exact decodeLossy_cons_ascii hb s
    | some pending =>
      have hstep : lossyStep (some pending) b = (none, [replacement, ascii b]) := by
        unfold lossyStep
        rw [pending.step_ascii hb]
        dsimp only
        rw [first_of_ascii hb]
        rfl
      rw [nil_append]
      change (lossyStep (some pending) b).2 ++ decodeLossyFrom (lossyStep (some pending) b).1 s = _
      rw [hstep]
      rfl
  | cons a p ih =>
    rw [cons_append, decodeLossyFrom, decodeLossyFrom, ih, append_assoc]

lemma decodeLossy_append_cons (p : List UInt8) (hb : b < 0x80) (s : List UInt8) :
    decodeLossy (p ++ b :: s) = decodeLossy p ++ ascii b :: decodeLossy s :=
  decodeLossyFrom_append_cons none p hb s

lemma not_isWide_ascii (hb : b < 0x80) (hne : b ≠ 0) : ¬ IsWide (ascii b) := by
  have hlt := UInt8.lt_iff_toNat_lt.1 hb
  have hpos : b.toNat ≠ 0 := fun heq => hne (UInt8.toNat_inj.1 heq)
  rintro (hzero | hge)
  · exact hpos ((toNat_ascii b).symm.trans hzero)
  · rw [toNat_ascii] at hge
    have : (0x80 : UInt8).toNat = 0x80 := rfl
    omega

lemma first_spec {a : UInt8} {next : Option Pending} (h : first a = some (next, c)) :
    (∀ q, next = some q → q.Wide) ∧ ∀ d ∈ c.toList, a < 0x80 ∧ d = ascii a := by
  by_cases ha : a < 0x80
  · rw [first_of_ascii ha] at h
    cases h
    exact ⟨nofun, fun d hd => ⟨ha, by simpa using hd⟩⟩
  · cases next with
    | none => exact absurd h (eq_none_of_first ha)
    | some p =>
      obtain ⟨hp, rfl⟩ := wide_of_first h
      refine ⟨fun q hq => ?_, nofun⟩
      obtain rfl := some.inj hq
      exact hp

lemma lossyStep_spec {st : Option Pending} (hst : ∀ p, st = some p → p.Wide) (a : UInt8) :
    (∀ q, (lossyStep st a).1 = some q → q.Wide) ∧
      ∀ d ∈ (lossyStep st a).2, IsWide d ∨ a < 0x80 ∧ d = ascii a := by
  cases st with
  | none =>
    have hstep : step none a = first a := rfl
    unfold lossyStep
    rw [hstep]
    cases hfirst : first a with
    | none => exact ⟨nofun, fun d hd => .inl (by rw [mem_singleton.1 hd]; exact isWide_replacement)⟩
    | some r =>
      obtain ⟨hnext, hchar⟩ := first_spec hfirst
      exact ⟨hnext, fun d hd => .inr (hchar d hd)⟩
  | some p =>
    unfold lossyStep
    cases hstep : step (some p) a with
    | some r =>
      obtain ⟨next, c⟩ := r
      obtain ⟨q, rfl, hq, rfl⟩ | ⟨rfl, e, rfl, he⟩ := wide_of_step (hst p rfl) hstep
      · refine ⟨fun q' hq' => ?_, nofun⟩
        obtain rfl := some.inj hq'
        exact hq
      · exact ⟨nofun, fun d hd => .inl (by rw [mem_singleton.1 hd]; exact he)⟩
    | none =>
      dsimp only
      cases hfirst : first a with
      | none =>
        refine ⟨nofun, fun d hd => .inl ?_⟩
        have hd : d = replacement := by simpa using hd
        rw [hd]
        exact isWide_replacement
      | some r =>
        obtain ⟨hnext, hchar⟩ := first_spec hfirst
        refine ⟨hnext, fun d hd => ?_⟩
        obtain rfl | hd := mem_cons.1 hd
        · exact .inl isWide_replacement
        · exact .inr (hchar d hd)

lemma mem_of_mem_decodeLossyFrom {st : Option Pending} (hst : ∀ p, st = some p → p.Wide)
    {d : Char} (hd : d ∈ decodeLossyFrom st s) : IsWide d ∨ ∃ a ∈ s, a < 0x80 ∧ d = ascii a := by
  induction s generalizing st with
  | nil =>
    cases st with
    | none => cases hd
    | some p => exact .inl (by rw [mem_singleton.1 hd]; exact isWide_replacement)
  | cons a s ih =>
    obtain ⟨hnext, hchars⟩ := lossyStep_spec hst a
    rw [decodeLossyFrom] at hd
    obtain hd | hd := mem_append.1 hd
    · obtain hwide | ⟨ha, rfl⟩ := hchars d hd
      · exact .inl hwide
      · exact .inr ⟨a, mem_cons_self, ha, rfl⟩
    · obtain hwide | ⟨b, hb, hrest⟩ := ih hnext hd
      · exact .inl hwide
      · exact .inr ⟨b, mem_cons_of_mem _ hb, hrest⟩

lemma ascii_injective {a : UInt8} (h : ascii a = ascii b) : a = b := by
  have hnat := congrArg Char.toNat h
  rw [toNat_ascii, toNat_ascii] at hnat
  exact UInt8.toNat_inj.1 hnat

lemma ascii_not_mem_decodeLossy (hb : b < 0x80) (hne : b ≠ 0) (h : b ∉ s) :
    ascii b ∉ decodeLossy s := by
  intro hmem
  obtain hwide | ⟨a, ha, -, heq⟩ := mem_of_mem_decodeLossyFrom (fun p hp => by cases hp) hmem
  · exact not_isWide_ascii hb hne hwide
  · exact h (ascii_injective heq ▸ ha)

lemma splitInclusive_decodeLossy (s : List UInt8) :
    splitInclusive '\n' (decodeLossy s) = (splitInclusive 10 s).map decodeLossy := by
  have hlf : (10 : UInt8) < 0x80 := by decide
  have hmem : ∀ {l : List UInt8}, 10 ∉ l → '\n' ∉ decodeLossy l :=
    fun h => ascii_not_mem_decodeLossy (b := 10) hlf (by decide) h
  induction s using line_induction (10 : UInt8) with
  | nil => rfl
  | plain l hl hne =>
    have hne' : decodeLossy l ≠ [] := by
      obtain ⟨b, l, rfl⟩ := exists_cons_of_ne_nil hne
      by_cases hb : b < 0x80
      · rw [decodeLossy_cons_ascii hb]
        exact cons_ne_nil _ _
      · obtain ⟨c, text, heq, -⟩ := decodeLossy_cons_wide hb l
        rw [heq]
        exact cons_ne_nil _ _
    rw [splitInclusive_plain hl hne, splitInclusive_plain (hmem hl) hne', map_singleton]
  | line l s hl ih =>
    have hline : decodeLossy (l ++ [10]) = decodeLossy l ++ ['\n'] :=
      decodeLossy_append_cons l hlf []
    have hwhole : decodeLossy (l ++ 10 :: s) = decodeLossy l ++ '\n' :: decodeLossy s :=
      decodeLossy_append_cons l hlf s
    rw [splitInclusive_line hl, hwhole, splitInclusive_line (hmem hl), ih, map_cons, hline]

lemma prefix_decodeLossy_iff_prefix_map (hw : ∀ c ∈ w, ¬ IsWide c) :
    w <+: decodeLossy s ↔ w <+: s.map ascii := by
  induction w generalizing s with
  | nil => exact iff_of_true nil_prefix nil_prefix
  | cons c w ih =>
    obtain ⟨hc, hw⟩ := forall_mem_cons.1 hw
    cases s with
    | nil => rfl
    | cons b s =>
      by_cases hb : b < 0x80
      · rw [decodeLossy_cons_ascii hb, map_cons, cons_prefix_cons, cons_prefix_cons,
          ih hw]
      · -- Both texts start with a wide character, which `c` is not.
        obtain ⟨d, text, heq, hd⟩ := decodeLossy_cons_wide hb s
        rw [heq, map_cons, cons_prefix_cons, cons_prefix_cons]
        refine iff_of_false (fun h => hc (h.1 ▸ hd)) fun h => hc (.inr ?_)
        rw [h.1, toNat_ascii]
        exact UInt8.le_iff_toNat_le.1 (UInt8.not_lt.1 hb)

lemma prefix_decodeLossy_iff (hw : ∀ c ∈ w, ¬ IsWide c) :
    w <+: decodeLossy s ↔ ∃ q, q <+: s ∧ q.map ascii = w := by
  rw [prefix_decodeLossy_iff_prefix_map hw, prefix_map_iff]
  simp only [eq_comm]

/-! ## Octets of a text -/

def takeOctets : ℕ → List Char → Option (List Char)
  | 0, _ => some []
  | _ + 1, [] => none
  | n + 1, c :: s =>
      if c.utf8Size ≤ n + 1 then (takeOctets (n + 1 - c.utf8Size) s).map (c :: ·) else none

lemma takeOctets_prefix {n : ℕ} {s : List Char} (h : takeOctets n s = some w) : w <+: s := by
  induction s generalizing n w with
  | nil =>
    cases n with
    | zero =>
      obtain rfl := some.inj h
      exact nil_prefix
    | succ n => cases h
  | cons c s ih =>
    cases n with
    | zero =>
      obtain rfl := some.inj h
      exact nil_prefix
    | succ n =>
      rw [takeOctets] at h
      split_ifs at h
      obtain ⟨v, hv, rfl⟩ := map_eq_some_iff.1 h
      exact cons_prefix_cons.2 ⟨rfl, ih hv⟩

lemma utf8Size_of_ascii {c : Char} (h : c.toNat < 128) : c.utf8Size = 1 :=
  Char.utf8Size_eq_one_iff.2 (UInt32.le_iff_toNat_le.2 (Nat.le_of_lt_succ h))

lemma takeOctets_ascii (h : ∀ c ∈ w, c.toNat < 128) (rest : List Char) :
    takeOctets w.length (w ++ rest) = some w := by
  induction w with
  | nil => cases rest <;> rfl
  | cons c w ih =>
    obtain ⟨hc, hw⟩ := forall_mem_cons.1 h
    rw [length_cons, cons_append, takeOctets, utf8Size_of_ascii hc, if_pos (by omega),
      Nat.add_sub_cancel, ih hw]
    rfl

end Epistle.Lib.Utf8
