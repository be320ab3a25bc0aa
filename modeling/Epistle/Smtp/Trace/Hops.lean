import Epistle.Lib.LossyText
import Epistle.Smtp.Trace.Field

/-!
# Counting hops

`received_hop_count` counts the `Received:` fields of a message, to refuse one that goes round in
circles. It decodes the header block with replacements, and compares the first nine octets of every
line that starts a field. Taking nine octets of a text is an error where no character ends there, so
a line with a character across its ninth octet stops the server's task.

* `receivedHopCount_eq_iff`: the count is right exactly if no line has a character across its ninth
  octet.
-/

namespace Epistle.Smtp.Trace

open Lib Lib.Lines Lib.Text Lib.Octets List Option

/-! ## The count -/

/-- Where the first `CRLFCRLF` is. -/
def findBlank : List UInt8 → Option ℕ
  | [] => none
  | b :: s => if [cr, lf, cr, lf] <+: b :: s then some 0 else (findBlank s).map (· + 1)

def headerEnd (data : List UInt8) : ℕ := ((findBlank data).map (· + 2)).getD data.length

open Utf8

/-- Whether a line begins a `Received` field. -/
def isHop (line : List Char) : Option Bool :=
  if line.head? = some ' ' ∨ line.head? = some '\t' then some false
  else if (encode line).length < 9 then some false
  else (takeOctets 9 line).map (eqIgnoreAsciiCase · "received:".toList)

/-- How many hosts a message came by. -/
def receivedHopCount (data : List UInt8) : Option ℕ := do
  let block := decodeLossy (data.take (headerEnd data))
  let hops ← (splitInclusive '\n' block).mapM isHop
  return hops.count true

/-! ## What is counted -/

def received : List UInt8 := encode "received:".toList

def beginsReceived (line : List UInt8) : Bool := eqIgnoreCase (line.take 9) received

def receivedLines (data : List UInt8) : ℕ :=
  (splitInclusive lf (data.take (headerEnd data))).countP beginsReceived

/-- A line that can be tested: it goes on with a field, or is short, or a character ends at its
ninth octet once it is decoded. -/
def Testable (line : List UInt8) : Prop :=
  isContinuation line ∨ (encode (decodeLossy line)).length < 9 ∨
    (takeOctets 9 (decodeLossy line)).isSome

/-! ## Letters -/

lemma toLower_ascii (b : UInt8) : (ascii b).toLower = ascii (lower b) := by
  rw [← Char.toNat_inj, toNat_toLower, toNat_ascii, toNat_ascii, toNat_lower]

lemma map_ascii_injective {q r : List UInt8} (h : q.map ascii = r.map ascii) : q = r :=
  map_injective_iff.2 (fun _ _ => ascii_injective) h

lemma eqIgnoreAsciiCase_map_ascii (q r : List UInt8) :
    eqIgnoreAsciiCase (q.map ascii) (r.map ascii) ↔ eqIgnoreCase q r := by
  have hmap : ∀ l : List UInt8, Text.toLower (l.map ascii) = (l.map lower).map ascii := by
    intro l
    rw [Text.toLower, List.map_map, List.map_map]
    exact map_congr_left fun b _ => toLower_ascii b
  rw [eqIgnoreAsciiCase_iff, hmap, hmap, eqIgnoreCase, decide_eq_true_iff]
  exact ⟨map_ascii_injective, congrArg _⟩

lemma received_map_ascii : received.map ascii = "received:".toList := by decide

lemma ascii_of_received {w : List Char} (h : eqIgnoreAsciiCase w "received:".toList) :
    w.length = 9 ∧ ∀ c ∈ w, 32 < c.toNat ∧ c.toNat < 128 := by
  have hupper : w.map Char.toUpper = "RECEIVED:".toList := by
    have heq : w.map Char.toUpper = "received:".toList.map Char.toUpper := by
      simpa [eqIgnoreAsciiCase] using h
    exact heq.trans (by decide)
  refine ⟨by simpa using congrArg List.length hupper, fun c hc => ?_⟩
  have hmem : c.toUpper ∈ "RECEIVED:".toList := hupper ▸ List.mem_map_of_mem hc
  have hrange : ∀ d ∈ "RECEIVED:".toList, 32 < d.toNat ∧ d.toNat < 91 := by decide
  have hd := hrange _ hmem
  rw [toNat_toUpper] at hd
  split_ifs at hd <;> omega

lemma not_isWide {w : List Char} (h : ∀ c ∈ w, 32 < c.toNat ∧ c.toNat < 128) :
    ∀ c ∈ w, ¬ Utf8.IsWide c := by
  rintro c hc (hzero | hge)
  · exact absurd (h c hc).1 (by omega)
  · exact absurd (h c hc).2 (by omega)

/-! ## The test of a line -/

def Begins (s : List Char) : Prop := ∃ w, w <+: s ∧ eqIgnoreAsciiCase w "received:".toList

variable {s : List Char}

lemma Begins.head_ne (h : Begins s) {c : Char} (hc : c.toNat ≤ 32) : s.head? ≠ some c := by
  obtain ⟨w, hw, hname⟩ := h
  obtain ⟨hlen, hchars⟩ := ascii_of_received hname
  intro hhead
  obtain ⟨d, w, rfl⟩ := exists_cons_of_length_pos (l := w) (by omega)
  obtain ⟨rest, rfl⟩ := hw
  obtain rfl := some.inj hhead
  exact absurd (hchars d mem_cons_self).1 (by omega)

lemma Begins.length_le (h : Begins s) : 9 ≤ (encode s).length := by
  obtain ⟨w, ⟨rest, rfl⟩, hname⟩ := h
  obtain ⟨hlen, hchars⟩ := ascii_of_received hname
  rw [encode_append, length_append,
    encode_of_ascii fun c hc => (hchars c hc).2, length_map, hlen]
  exact Nat.le_add_right 9 _

lemma begins_iff_takeOctets {v : List Char} (h : takeOctets 9 s = some v) :
    Begins s ↔ eqIgnoreAsciiCase v "received:".toList := by
  constructor
  · rintro ⟨w, ⟨rest, rfl⟩, hname⟩
    obtain ⟨hlen, hchars⟩ := ascii_of_received hname
    have htake := takeOctets_ascii (fun c hc => (hchars c hc).2) rest
    rw [hlen, h] at htake
    rwa [some.inj htake]
  · exact fun hname => ⟨v, takeOctets_prefix h, hname⟩

lemma isHop_eq_some {hop : Bool} (h : isHop s = some hop) : hop = true ↔ Begins s := by
  unfold isHop at h
  split_ifs at h with hblank hshort
  · obtain rfl := some.inj h
    refine ⟨nofun, fun hbegins => ?_⟩
    obtain hspace | htab := hblank
    · exact absurd hspace (hbegins.head_ne (by decide))
    · exact absurd htab (hbegins.head_ne (by decide))
  · obtain rfl := some.inj h
    exact ⟨nofun, fun hbegins => absurd hbegins.length_le (Nat.not_le.2 hshort)⟩
  · obtain ⟨v, hv, rfl⟩ := map_eq_some_iff.1 h
    exact (begins_iff_takeOctets hv).symm

lemma begins_decodeLossy (line : List UInt8) :
    Begins (decodeLossy line) ↔ beginsReceived line := by
  constructor
  · rintro ⟨w, hw, hname⟩
    obtain ⟨hlen, hchars⟩ := ascii_of_received hname
    obtain ⟨q, hq, rfl⟩ := (prefix_decodeLossy_iff (not_isWide hchars)).1 hw
    rw [← received_map_ascii, eqIgnoreAsciiCase_map_ascii] at hname
    rw [length_map] at hlen
    rw [beginsReceived, ← hlen, ← prefix_iff_eq_take.1 hq]
    exact hname
  · intro h
    have hname : eqIgnoreAsciiCase ((line.take 9).map ascii) "received:".toList := by
      rw [← received_map_ascii, eqIgnoreAsciiCase_map_ascii]
      exact h
    obtain ⟨-, hchars⟩ := ascii_of_received hname
    exact ⟨_, (prefix_decodeLossy_iff (not_isWide hchars)).2 ⟨_, take_prefix 9 _, rfl⟩,
      hname⟩

lemma head_decodeLossy {b : UInt8} (hb : b < 0x80) (hne : b ≠ 0) (line : List UInt8) :
    (decodeLossy line).head? = some (ascii b) ↔ line.head? = some b := by
  cases line with
  | nil => simp [decodeLossy, decodeLossyFrom]
  | cons a line =>
    by_cases ha : a < 0x80
    · rw [decodeLossy_cons_ascii ha, List.head?_cons, List.head?_cons, some_inj,
        some_inj]
      exact ⟨ascii_injective, congrArg _⟩
    · obtain ⟨c, text, heq, hc⟩ := decodeLossy_cons_wide ha line
      rw [heq, List.head?_cons, List.head?_cons, some_inj, some_inj]
      constructor
      · rintro rfl
        exact absurd hc (not_isWide_ascii hb hne)
      · rintro rfl
        exact absurd hb ha

lemma blank_decodeLossy_iff (line : List UInt8) :
    ((decodeLossy line).head? = some ' ' ∨ (decodeLossy line).head? = some '\t') ↔
      isContinuation line := by
  have hspace := head_decodeLossy (b := 32) (by decide) (by decide) line
  have htab := head_decodeLossy (b := 9) (by decide) (by decide) line
  rw [isContinuation, Bool.or_eq_true, decide_eq_true_iff, decide_eq_true_iff]
  exact or_congr hspace htab

lemma isSome_isHop_iff (line : List UInt8) :
    (isHop (decodeLossy line)).isSome ↔ Testable line := by
  unfold isHop Testable
  rw [← blank_decodeLossy_iff]
  split_ifs with hblank hshort
  · exact iff_of_true rfl (.inl hblank)
  · exact iff_of_true rfl (.inr (.inl hshort))
  · rw [isSome_map]
    simp only [hblank, hshort, false_or]

lemma isHop_decodeLossy {line : List UInt8} (h : Testable line) :
    isHop (decodeLossy line) = some (beginsReceived line) := by
  obtain ⟨hop, hhop⟩ := isSome_iff_exists.1 ((isSome_isHop_iff line).2 h)
  rw [hhop, some_inj, Bool.eq_iff_iff]
  exact (isHop_eq_some hhop).trans (begins_decodeLossy line)

/-! ## The count is right -/

lemma mapM_isHop {lines : List (List UInt8)} (h : ∀ line ∈ lines, Testable line) :
    (lines.map decodeLossy).mapM isHop = some (lines.map beginsReceived) := by
  induction lines with
  | nil => rfl
  | cons line lines ih =>
    obtain ⟨hline, hlines⟩ := forall_mem_cons.1 h
    rw [map_cons, mapM_cons, isHop_decodeLossy hline, ih hlines]
    rfl

lemma testable_of_mapM {lines : List (List UInt8)} {hops : List Bool}
    (h : (lines.map decodeLossy).mapM isHop = some hops) : ∀ line ∈ lines, Testable line := by
  induction lines generalizing hops with
  | nil => exact nofun
  | cons line lines ih =>
    rw [map_cons, mapM_cons] at h
    obtain ⟨hop, hline, h⟩ := bind_eq_some_iff.1 h
    obtain ⟨rest, hrest, -⟩ := bind_eq_some_iff.1 h
    refine forall_mem_cons.2 ⟨(isSome_isHop_iff line).1 ?_, ih hrest⟩
    rw [hline]
    rfl

/-- **`received_hop_count` panics on some messages.** It counts the lines that begin with
`received:` if, in every line of the header block, a character of the decoded line ends at the
ninth octet, or the line is shorter, or goes on with a field. On any other message it panics. -/
theorem receivedHopCount_eq_iff (data : List UInt8) :
    receivedHopCount data = some (receivedLines data) ↔
      ∀ line ∈ splitInclusive lf (data.take (headerEnd data)), Testable line := by
  have hlines : splitInclusive '\n' (decodeLossy (data.take (headerEnd data))) =
      (splitInclusive lf (data.take (headerEnd data))).map decodeLossy :=
    splitInclusive_decodeLossy _
  unfold receivedHopCount
  dsimp only
  rw [hlines]
  constructor
  · intro h
    obtain ⟨hops, hhops, -⟩ := bind_eq_some_iff.1 h
    exact testable_of_mapM hhops
  · intro h
    rw [mapM_isHop h]
    change some _ = some _
    rw [receivedLines, List.count, countP_map, some_inj]
    exact countP_congr fun line _ => by simp

/-- A subject that starts with `é` stops the count: the letter is octets nine and ten of its line.
-/
theorem receivedHopCount_panics :
    let data := encode "Subject:é\r\n\r\n".toList
    receivedHopCount data = none ∧ receivedLines data = 0 := by
  decide +kernel

end Epistle.Smtp.Trace
