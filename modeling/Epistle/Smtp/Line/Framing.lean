import Epistle.Smtp.Line

/-!
# The line decoder as a framer

`LineDecoder.nextLine` resumes at `scanned` instead of looking at the whole buffer. The index is
sound when the octets before it are plain, every operation of the decoder keeps it sound, and a
sound decoder answers as it would from index zero.

* `Reading.read_any_fragmentation`: the lines returned are those of the longest framed prefix,
  whatever the fragmentation.
-/

namespace Epistle.Smtp

open Lib List

open LineDecoder

namespace LineDecoder

/-- The octets in front of the resume index are plain. -/
structure Sound (d : LineDecoder) : Prop where
  scanned_le : d.scanned ≤ d.buffer.length
  /-- Nothing `nextLine` skips could end or spoil a line. -/
  plain : ∀ b ∈ d.buffer.take d.scanned, Plain b

variable {d : LineDecoder} {p q : List UInt8}

lemma sound_of_scanned_zero (h : d.scanned = 0) : d.Sound :=
  ⟨by simp [h], by simp [h]⟩

lemma Sound.feed (h : d.Sound) (bytes : List UInt8) :
    (d.feed bytes).Sound where
  scanned_le := by
    have := h.scanned_le
    simp only [LineDecoder.feed, length_append]
    omega
  plain := by
    simpa [LineDecoder.feed, take_append_of_le_length h.scanned_le] using h.plain

lemma Sound.scanned_le_plain (h : d.Sound) (hb : d.buffer = p ++ q)
    (hq : ∀ x r, q = x :: r → ¬ Plain x) : d.scanned ≤ p.length := by
  cases q with
  | nil => simpa [hb] using h.scanned_le
  | cons x r =>
    by_contra hlt
    refine hq x r rfl (h.plain x ?_)
    have hpre : p ++ [x] <+: d.buffer.take d.scanned := by
      rw [prefix_take_iff, hb]
      exact ⟨⟨r, by simp⟩, by rw [length_append]; exact Nat.lt_of_not_le hlt⟩
    exact hpre.subset (by simp)

lemma scan_plain (hp : ∀ b ∈ p, Plain b) (max : ℕ) (e : Bool) (line : List UInt8) (i : ℕ)
    (q : List UInt8) :
    scan max (.within e line) i (p ++ q) =
      scan max (.within e (line ++ p)) (i + p.length) q := by
  induction p generalizing line i with
  | nil => simp
  | cons b p ih =>
    obtain ⟨hb, hp⟩ := forall_mem_cons.1 hp
    rw [cons_append, scan, LineCheck.step_within e line hb]
    simp only [ih hp, append_assoc, singleton_append, length_cons]
    congr 1
    omega

lemma scan_buffer (hb : d.buffer = p ++ q) (hp : ∀ b ∈ p, Plain b) (hle : d.scanned ≤ p.length) :
    scan d.maxLine (.resume d.scanned) d.scanned (d.buffer.drop d.scanned) =
      scan d.maxLine (.within false p) p.length q := by
  have hresume : LineCheck.resume d.scanned = .within false (p.take d.scanned) := by
    simp [LineCheck.resume, LineCheck.within, LineCheck.width, hle]
  rw [hb, drop_append_of_le_length hle, hresume,
    scan_plain fun b hb => hp b (mem_of_mem_drop hb), take_append_drop,
    length_drop, Nat.add_sub_cancel' hle]

section nextLine

variable {d : LineDecoder} {p : List UInt8}

lemma nextLine_plain (hb : d.buffer = p) (hp : ∀ b ∈ p, Plain b)
    (hle : d.scanned ≤ p.length) :
    d.nextLine = (if p.length > d.maxLine + 1 then .error .tooLong else .ok none,
      { d with scanned := p.length }) := by
  rw [nextLine, scan_buffer (q := []) (by simpa using hb) hp hle]
  simp only [scan, LineCheck.checkOpen, LineCheck.within, LineCheck.width_false]
  split_ifs <;> simp_all

lemma nextLine_cr (hb : d.buffer = p ++ [cr]) (hp : ∀ b ∈ p, Plain b)
    (hle : d.scanned ≤ p.length) :
    d.nextLine = (if p.length > d.maxLine then .error .tooLong else .ok none,
      { d with scanned := p.length }) := by
  rw [nextLine, scan_buffer hb hp hle]
  simp only [scan, LineCheck.step_within_cr]
  simp only [LineCheck.checkOpen, LineCheck.within, LineCheck.width_false]
  split_ifs <;> simp_all

lemma nextLine_crlf {r : List UInt8} (hb : d.buffer = p ++ cr :: lf :: r)
    (hp : ∀ b ∈ p, Plain b) (hle : d.scanned ≤ p.length) :
    d.nextLine = if p.length > d.maxLine then (.error .tooLong, d)
      else (.ok (some p), { d with buffer := r, scanned := 0 }) := by
  rw [nextLine, scan_buffer hb hp hle]
  simp only [scan, LineCheck.step_within_cr, LineCheck.step_within_cr_lf, LineCheck.width_false]
  split_ifs with h
  · rfl
  · have hdrop : d.buffer.drop (p.length + 1 + 1) = r := by
      rw [hb, add_assoc, drop_length_add_append]
      rfl
    have htake : d.buffer.take p.length = p := by simp [hb]
    simp only [hdrop, Nat.add_sub_cancel, htake]

lemma nextLine_violation {q : List UInt8} (hp : ∀ b ∈ p, Plain b) (hq : Violation q)
    (max : ℕ) :
    ∃ e, ∀ d : LineDecoder, d.maxLine = max → d.buffer = p ++ q → d.scanned ≤ p.length →
      d.nextLine = (.error e, d) := by
  rcases LineCheck.step_violation false p max hq with ⟨x, r, e, rfl, he⟩ | ⟨x, r, e, rfl, he⟩
  · refine ⟨e, fun d hmax hb hle => ?_⟩
    subst hmax
    rw [nextLine, scan_buffer hb hp hle]
    simp [scan, he]
  · refine ⟨e, fun d hmax hb hle => ?_⟩
    subst hmax
    rw [nextLine, scan_buffer hb hp hle]
    simp [scan, LineCheck.step_within_cr, he]

end nextLine

lemma not_plain_of_rest (hq : q = [] ∨ q = [cr] ∨ (∃ r, q = cr :: lf :: r) ∨ Violation q) :
    ∀ x r, q = x :: r → ¬ Plain x := by
  rintro x r rfl hx
  rcases hq with h | h | ⟨r', h⟩ | h
  · cases h
  · exact hx.2.2 (List.cons.inj h).1
  · exact hx.2.2 (List.cons.inj h).1
  · cases h with
    | nul => exact hx.1 rfl
    | lf => exact hx.2.1 rfl
    | cr => exact hx.2.2 rfl

def reset (d : LineDecoder) : LineDecoder := { d with scanned := 0 }

lemma nextLine_eq_reset (h : d.Sound) :
    d.nextLine.1 = d.reset.nextLine.1 ∧ d.nextLine.2.buffer = d.reset.nextLine.2.buffer := by
  obtain ⟨p, q, hb, hp, hq⟩ := exists_plain_prefix d.buffer
  have hle := h.scanned_le_plain hb (not_plain_of_rest hq)
  have hle₀ : d.reset.scanned ≤ p.length := Nat.zero_le _
  have hb₀ : d.reset.buffer = p ++ q := hb
  have hmax : d.reset.maxLine = d.maxLine := rfl
  rcases hq with rfl | rfl | ⟨r, rfl⟩ | hv
  · rw [append_nil] at hb hb₀
    rw [nextLine_plain hb hp hle, nextLine_plain hb₀ hp hle₀]
    exact ⟨rfl, rfl⟩
  · rw [nextLine_cr hb hp hle, nextLine_cr hb₀ hp hle₀]
    exact ⟨rfl, rfl⟩
  · rw [nextLine_crlf hb hp hle, nextLine_crlf hb₀ hp hle₀, hmax]
    split_ifs <;> exact ⟨rfl, rfl⟩
  · obtain ⟨e, he⟩ := nextLine_violation hp hv d.maxLine
    rw [he d rfl hb hle, he d.reset rfl hb₀ hle₀]
    exact ⟨rfl, rfl⟩

lemma nextLine_sound (h : d.Sound) : d.nextLine.2.Sound := by
  obtain ⟨p, q, hb, hp, hq⟩ := exists_plain_prefix d.buffer
  have hle := h.scanned_le_plain hb (not_plain_of_rest hq)
  have hsound : LineDecoder.Sound { d with scanned := p.length } :=
    ⟨by simp [hb], by simpa [hb] using hp⟩
  rcases hq with rfl | rfl | ⟨r, rfl⟩ | hv
  · rw [nextLine_plain (by simpa using hb) hp hle]
    exact hsound
  · rw [nextLine_cr hb hp hle]
    exact hsound
  · rw [nextLine_crlf hb hp hle]
    split_ifs
    · exact h
    · exact sound_of_scanned_zero rfl
  · obtain ⟨e, he⟩ := nextLine_violation hp hv d.maxLine
    rw [he d rfl hb hle]
    exact h

lemma nextLine_buffer (h : d.Sound) :
    (∃ line, d.nextLine.1 = .ok (some line) ∧ d.buffer = line ++ cr :: lf :: d.nextLine.2.buffer) ∨
      ((∀ line, d.nextLine.1 ≠ .ok (some line)) ∧ d.nextLine.2.buffer = d.buffer) := by
  obtain ⟨p, q, hb, hp, hq⟩ := exists_plain_prefix d.buffer
  have hle := h.scanned_le_plain hb (not_plain_of_rest hq)
  rcases hq with rfl | rfl | ⟨r, rfl⟩ | hv
  · rw [nextLine_plain (by simpa using hb) hp hle]
    refine .inr ⟨fun line => ?_, rfl⟩
    dsimp only
    split_ifs <;> simp
  · rw [nextLine_cr hb hp hle]
    refine .inr ⟨fun line => ?_, rfl⟩
    dsimp only
    split_ifs <;> simp
  · rw [nextLine_crlf hb hp hle]
    split_ifs
    · exact .inr ⟨by simp, rfl⟩
    · exact .inl ⟨p, rfl, hb⟩
  · obtain ⟨e, he⟩ := nextLine_violation hp hv d.maxLine
    rw [he d rfl hb hle]
    exact .inr ⟨by simp, rfl⟩

lemma nextLine_maxLine (d : LineDecoder) : d.nextLine.2.maxLine = d.maxLine := by
  unfold nextLine
  split
  · rfl
  · rfl
  · dsimp only
    split <;> rfl

end LineDecoder

/-! ## The framer -/

def toPoll : Except LineError (Option (List UInt8)) → Poll (List UInt8) LineError
  | .error e => .fail e
  | .ok none => .more
  | .ok (some line) => .item line (line.length + 2)

/-- The decoder's answer for the octets buffered so far. -/
def pollLine (max : ℕ) (b : List UInt8) : Poll (List UInt8) LineError :=
  toPoll (nextLine ⟨b, max, 0⟩).1

section pollLine

variable {max : ℕ} {p : List UInt8}

lemma pollLine_plain (hp : ∀ b ∈ p, Plain b) :
    pollLine max p = if p.length > max + 1 then .fail .tooLong else .more := by
  rw [pollLine, nextLine_plain rfl hp (Nat.zero_le _)]
  split_ifs <;> rfl

lemma pollLine_cr (hp : ∀ b ∈ p, Plain b) :
    pollLine max (p ++ [cr]) = if p.length > max then .fail .tooLong else .more := by
  rw [pollLine, nextLine_cr rfl hp (Nat.zero_le _)]
  split_ifs <;> rfl

lemma pollLine_crlf (hp : ∀ b ∈ p, Plain b) (r : List UInt8) :
    pollLine max (p ++ cr :: lf :: r) =
      if p.length > max then .fail .tooLong else .item p (p.length + 2) := by
  rw [pollLine, nextLine_crlf rfl hp (Nat.zero_le _)]
  split_ifs <;> rfl

lemma pollLine_violation {q : List UInt8} (hp : ∀ b ∈ p, Plain b) (hq : Violation q) :
    ∃ e, pollLine max (p ++ q) = .fail e := by
  obtain ⟨e, he⟩ := nextLine_violation hp hq max
  exact ⟨e, by rw [pollLine, he ⟨p ++ q, max, 0⟩ rfl rfl (Nat.zero_le _), toPoll]⟩

lemma pollLine_buffer {d : LineDecoder} (h : d.Sound) :
    pollLine d.maxLine d.buffer = toPoll d.nextLine.1 := by
  rw [(nextLine_eq_reset h).1]
  rfl

lemma pollLine_eq_item {b x : List UInt8} {n : ℕ} :
    pollLine max b = .item x n ↔
      n = x.length + 2 ∧ GoodLine List.length max x ∧ ∃ r, b = x ++ cr :: lf :: r := by
  constructor
  · intro h
    obtain ⟨p, q, rfl, hp, hq⟩ := exists_plain_prefix b
    rcases hq with rfl | rfl | ⟨r, rfl⟩ | hv
    · rw [append_nil, pollLine_plain hp] at h
      split_ifs at h
    · rw [pollLine_cr hp] at h
      split_ifs at h
    · rw [pollLine_crlf hp] at h
      split_ifs at h with hlen
      cases h
      exact ⟨rfl, ⟨hp, Nat.le_of_not_lt hlen⟩, r, rfl⟩
    · obtain ⟨e, he⟩ : ∃ e, pollLine max (p ++ q) = .fail e := pollLine_violation hp hv
      rw [he] at h
      cases h
  · rintro ⟨rfl, ⟨hp, hlen⟩, r, rfl⟩
    rw [pollLine_crlf hp, if_neg (Nat.not_lt.2 hlen)]

lemma pollLine_long (hp : ∀ b ∈ p, Plain b) (hlen : p.length > max + 1) (r : List UInt8) :
    ∃ e, pollLine max (p ++ r) = .fail e := by
  obtain ⟨p', q, rfl, hp', hq⟩ := exists_plain_prefix r
  have hpp : ∀ b ∈ p ++ p', Plain b := by
    intro b hb
    exact (mem_append.1 hb).elim (hp b) (hp' b)
  have hlen' : (p ++ p').length > max + 1 := by
    rw [length_append]
    omega
  rw [← append_assoc]
  rcases hq with rfl | rfl | ⟨r, rfl⟩ | hv
  · exact ⟨_, by rw [append_nil, pollLine_plain hpp, if_pos hlen']⟩
  · exact ⟨_, by rw [pollLine_cr hpp, if_pos (by omega)]⟩
  · exact ⟨_, by rw [pollLine_crlf hpp, if_pos (by omega)]⟩
  · exact pollLine_violation hpp hv

lemma pollLine_long_cr (hp : ∀ b ∈ p, Plain b) (hlen : p.length > max) (r : List UInt8) :
    ∃ e, pollLine max (p ++ cr :: r) = .fail e := by
  cases r with
  | nil => exact ⟨_, by rw [pollLine_cr hp, if_pos hlen]⟩
  | cons x r =>
    by_cases hx : x = lf
    · exact ⟨_, by rw [hx, pollLine_crlf hp, if_pos hlen]⟩
    · exact pollLine_violation hp (.cr hx r)

lemma pollLine_fail_append {b : List UInt8} {e : LineError} (r : List UInt8)
    (h : pollLine max b = .fail e) : ∃ e', pollLine max (b ++ r) = .fail e' := by
  obtain ⟨p, q, rfl, hp, hq⟩ := exists_plain_prefix b
  rw [append_assoc]
  rcases hq with rfl | rfl | ⟨q, rfl⟩ | hv
  · rw [append_nil, pollLine_plain hp] at h
    split_ifs at h with hlen
    exact pollLine_long hp hlen r
  · rw [pollLine_cr hp] at h
    split_ifs at h with hlen
    exact pollLine_long_cr hp hlen r
  · rw [pollLine_crlf hp] at h
    split_ifs at h with hlen
    exact pollLine_long_cr hp hlen (lf :: q ++ r)
  · refine pollLine_violation hp ?_
    cases hv with
    | nul q => exact .nul _
    | lf q => exact .lf _
    | cr hx q => exact .cr hx _

end pollLine

def lineFramer (max : ℕ) : Framer UInt8 (List UInt8) LineError where
  poll := pollLine max
  width_pos h := by
    obtain ⟨rfl, -⟩ := pollLine_eq_item.1 h
    omega
  width_le h := by
    obtain ⟨rfl, -, r, rfl⟩ := pollLine_eq_item.1 h
    simp
  item_append r h := by
    obtain ⟨hn, hx, r', rfl⟩ := pollLine_eq_item.1 h
    exact pollLine_eq_item.2 ⟨hn, hx, r' ++ r, by simp⟩
  fail_append r h := pollLine_fail_append r h

variable {max : ℕ}

lemma completeLines_eq_nil {s p : List UInt8} (h : ∀ x n, pollLine max s ≠ .item x n)
    (hpre : p <+: s) (hp : Framed List.length max p) : completeLines p = [] := by
  cases hlines : completeLines p with
  | nil => rfl
  | cons l ls =>
    obtain ⟨hl, r, rfl⟩ := hp.first_line hlines
    obtain ⟨t, rfl⟩ := hpre
    exact absurd (pollLine_eq_item.2 ⟨rfl, hl, r ++ t, by simp⟩) (h l (l.length + 2))

lemma drain_line {l : List UInt8} (hl : GoodLine List.length max l) (r : List UInt8) :
    (lineFramer max).drain (l ++ cr :: lf :: r) =
      { (lineFramer max).drain r with items := l :: ((lineFramer max).drain r).items } := by
  have hpoll : (lineFramer max).poll (l ++ cr :: lf :: r) = .item l (l.length + 2) :=
    pollLine_eq_item.2 ⟨rfl, hl, r, rfl⟩
  have hdrop : (l ++ cr :: lf :: r).drop (l.length + 2) = r := by
    rw [drop_length_add_append]
    rfl
  rw [Framer.drain_of_item _ hpoll, hdrop]

lemma drain_items (max : ℕ) (s : List UInt8) :
    ∃ p, IsLongestPrefix (Framed List.length max) s p ∧
      ((lineFramer max).drain s).items = completeLines p := by
  induction hn : s.length using Nat.strongRecOn generalizing s with
  | ind n ih =>
    by_cases h : ∃ x k, pollLine max s = .item x k
    · obtain ⟨x, k, h⟩ := h
      obtain ⟨-, hx, r, rfl⟩ := pollLine_eq_item.1 h
      obtain ⟨p, hp, hitems⟩ := ih r.length (by simp [← hn]; omega) r rfl
      refine ⟨_, hp.line hx, ?_⟩
      rw [drain_line hx, completeLines, splitCrlf_line hx.1, hitems, completeLines]
    · simp only [not_exists] at h
      have hnil : Framed List.length max [] :=
        (framed_iff []).2 (by simp [linesOf, completeLines, openLine, splitCrlf, GoodLine])
      obtain ⟨p, hp⟩ := IsLongestPrefix.exists s hnil
      exact ⟨p, hp, by rw [Framer.drain_items_of_not_item (lineFramer max) h,
        completeLines_eq_nil h hp.isPrefix hp.holds]⟩

lemma drain_unlines {ls : List (List UInt8)} (h : ∀ l ∈ ls, GoodLine List.length max l) :
    (lineFramer max).drain (unlines ls) = ⟨ls, none, []⟩ := by
  induction ls with
  | nil =>
    have hmore : pollLine max [] = .more := by
      rw [pollLine_plain (forall_mem_nil _), if_neg (by simp)]
    exact Framer.drain_of_more (lineFramer max) hmore
  | cons l ls ih =>
    obtain ⟨hl, hls⟩ := forall_mem_cons.1 h
    rw [unlines_cons, drain_line hl, ih hls]

lemma drain_unlines_error {ls : List (List UInt8)} (h : ∀ l ∈ ls, (∀ b ∈ l, Plain b) ∨ Broken l)
    (r : List UInt8) (hok : ((lineFramer max).drain (unlines ls ++ r)).error = none) :
    ∀ l ∈ ls, GoodLine List.length max l := by
  induction ls with
  | nil => simp
  | cons l ls ih =>
    obtain ⟨hl, hls⟩ := forall_mem_cons.1 h
    rw [unlines_cons, append_assoc, cons_append, cons_append] at hok
    -- A first line that is not good fails the poll.
    have hgood : GoodLine List.length max l := by
      have hfail : ∀ e, (lineFramer max).poll (l ++ cr :: lf :: (unlines ls ++ r)) ≠ .fail e := by
        intro e he
        rw [Framer.drain_of_fail _ he] at hok
        simp at hok
      rcases hl with hplain | ⟨p, q, rfl, hp, hq⟩
      · refine ⟨hplain, Nat.le_of_not_lt fun hlong => hfail .tooLong ?_⟩
        exact (pollLine_crlf hplain _).trans (if_pos hlong)
      · obtain ⟨e, he⟩ : ∃ e, pollLine max (p ++ (q ++ cr :: lf :: (unlines ls ++ r))) = .fail e :=
          pollLine_violation hp (hq _)
        exact absurd (by rw [append_assoc]; exact he) (hfail e)
    rw [drain_line hgood] at hok
    exact forall_mem_cons.2 ⟨hgood, ih hls hok⟩

/-! ## Reading a stream -/

inductive Request
  | feed (piece : List UInt8)
  | nextLine
  | takeBuffered (max : ℕ)
  | discardBuffered (max : ℕ)

def Request.fed : List Request → List UInt8
  | [] => []
  | .feed piece :: reqs => piece ++ fed reqs
  | _ :: reqs => fed reqs

def Request.ofOp : Op UInt8 → Request
  | .feed piece => .feed piece
  | .poll => .nextLine

/-- A decoder in use, with everything `nextLine` answered and every octet that left the
buffer: the lines with their CRLF, and what was taken or discarded. -/
structure Reading where
  decoder : LineDecoder
  answers : List (Except LineError (Option (List UInt8)))
  /-- The octets that left the buffer. -/
  consumed : List UInt8

def linesBeforeError : List (Except LineError (Option (List UInt8))) → List (List UInt8)
  | [] => []
  | .error _ :: _ => []
  | .ok none :: answers => linesBeforeError answers
  | .ok (some line) :: answers => line :: linesBeforeError answers

namespace Reading

def start (max : ℕ) : Reading := ⟨.withLimit max, [], []⟩

def step (r : Reading) : Request → Reading
  | .feed piece => { r with decoder := r.decoder.feed piece }
  | .nextLine =>
      let (answer, decoder) := r.decoder.nextLine
      { decoder
        answers := r.answers ++ [answer]
        consumed := match answer with
          | .ok (some line) => r.consumed ++ (line ++ crlf)
          | _ => r.consumed }
  | .takeBuffered max =>
      let (taken, decoder) := r.decoder.takeBuffered max
      { r with decoder, consumed := r.consumed ++ taken }
  | .discardBuffered max =>
      let (count, decoder) := r.decoder.discardBuffered max
      { r with decoder, consumed := r.consumed ++ r.decoder.buffer.take count }

/-- A sequence of calls on a new decoder. -/
def read (max : ℕ) (reqs : List Request) : Reading := reqs.foldl step (start max)

def lines (r : Reading) : List (List UInt8) := linesBeforeError r.answers

def Failed (r : Reading) : Prop := ∃ e, .error e ∈ r.answers

def Drained (r : Reading) : Prop := r.Failed ∨ r.decoder.nextLine.1 = .ok none

lemma fed_append (reqs reqs' : List Request) :
    Request.fed (reqs ++ reqs') = Request.fed reqs ++ Request.fed reqs' := by
  induction reqs with
  | nil => rfl
  | cons req reqs ih => cases req <;> simp [Request.fed, ih]

variable {r : Reading} {max : ℕ}

lemma step_conserves (h : r.decoder.Sound) (req : Request) :
    (r.step req).decoder.Sound ∧
      (r.step req).consumed ++ (r.step req).decoder.buffer =
        r.consumed ++ r.decoder.buffer ++ Request.fed [req] := by
  cases req with
  | feed piece => exact ⟨h.feed piece, by simp [step, feed, Request.fed]⟩
  | nextLine =>
    refine ⟨nextLine_sound h, ?_⟩
    rcases nextLine_buffer h with ⟨line, hline, hb⟩ | ⟨hline, hb⟩
    · simp [step, hline, hb, Request.fed]
    · rcases ha : r.decoder.nextLine.1 with e | _ | line
      · simp [step, ha, hb, Request.fed]
      · simp [step, ha, hb, Request.fed]
      · exact absurd ha (hline line)
  | takeBuffered max =>
    exact ⟨sound_of_scanned_zero rfl,
      by simp [step, takeBuffered, Request.fed]⟩
  | discardBuffered max =>
    exact ⟨sound_of_scanned_zero rfl,
      by simp [step, discardBuffered, Request.fed]⟩

lemma read_conserves (max : ℕ) (reqs : List Request) :
    (read max reqs).decoder.Sound ∧
      (read max reqs).consumed ++ (read max reqs).decoder.buffer = Request.fed reqs := by
  induction reqs using List.reverseRecOn with
  | nil => exact ⟨sound_of_scanned_zero rfl, rfl⟩
  | append_singleton reqs req ih =>
    obtain ⟨hsound, hbytes⟩ := step_conserves ih.1 req
    rw [read, foldl_append, foldl_cons, foldl_nil, ← read, fed_append, ← ih.2]
    exact ⟨hsound, hbytes⟩

/-! ### Reading as a schedule of the framer -/

lemma linesBeforeError_of_error {answers : List (Except LineError (Option (List UInt8)))}
    {e : LineError} (h : .error e ∈ answers)
    (more : List (Except LineError (Option (List UInt8)))) :
    linesBeforeError (answers ++ more) = linesBeforeError answers := by
  induction answers with
  | nil => simp at h
  | cons a answers ih =>
    rcases a with e' | _ | line
    · rfl
    · simpa [linesBeforeError] using ih (by simpa using h)
    · simpa [linesBeforeError] using ih (by simpa using h)

lemma linesBeforeError_append {answers : List (Except LineError (Option (List UInt8)))}
    (h : ∀ e, .error e ∉ answers) (more : List (Except LineError (Option (List UInt8)))) :
    linesBeforeError (answers ++ more) = linesBeforeError answers ++ linesBeforeError more := by
  induction answers with
  | nil => rfl
  | cons a answers ih =>
    have ih := ih fun e he => h e (mem_cons_of_mem _ he)
    rcases a with e | _ | line
    · exact absurd (mem_cons_self ..) (h e)
    · simpa [linesBeforeError] using ih
    · simpa [linesBeforeError] using ih

/-- A reading follows a schedule of the framer: same lines, and until the first error the same
octets still buffered. -/
structure Follows (max : ℕ) (r : Reading) (p : Progress UInt8 (List UInt8) LineError) :
    Prop where
  sound : r.decoder.Sound
  maxLine : r.decoder.maxLine = max
  lines : r.lines = p.items
  failed : p.error.isSome ↔ r.Failed
  buffer : p.error = none → r.decoder.buffer = p.rest

lemma follows_start (max : ℕ) : Follows max (start max) Framer.start where
  sound := .mk (le_refl 0) (by simp [start, withLimit])
  maxLine := rfl
  lines := rfl
  failed := by simp [Framer.start, start, Failed]
  buffer _ := rfl

lemma follows_feed {p : Progress UInt8 (List UInt8) LineError} (h : Follows max r p)
    (piece : List UInt8) :
    Follows max (r.step (.feed piece)) ((lineFramer max).step p (.feed piece)) := by
  cases hp : p.error with
  | some e =>
    simp only [Framer.step, hp]
    exact { h with sound := h.sound.feed piece, buffer := fun hnone => by simp [hp] at hnone }
  | none =>
    simp only [Framer.step, hp]
    exact { h with
      sound := h.sound.feed piece
      failed := by simpa [hp, step, Failed] using h.failed
      buffer := fun _ => by simp [step, feed, h.buffer hp] }

lemma follows_nextLine {p : Progress UInt8 (List UInt8) LineError} (h : Follows max r p) :
    Follows max (r.step .nextLine) ((lineFramer max).step p .poll) := by
  have hsound := nextLine_sound h.sound
  have hmax := (nextLine_maxLine r.decoder).trans h.maxLine
  cases hp : p.error with
  | some e =>
    -- The framer has stopped; the decoder may be asked again, but what it answers comes late.
    simp only [Framer.step, hp]
    obtain ⟨e', he'⟩ := h.failed.1 (by simp [hp])
    refine ⟨hsound, hmax, ?_, ?_, fun hnone => by simp [hp] at hnone⟩
    · rw [← h.lines]
      exact linesBeforeError_of_error he' _
    · exact iff_of_true (by simp [hp]) ⟨e', mem_append_left _ he'⟩
  | none =>
    have hclean : ∀ e, .error e ∉ r.answers := by simpa [hp, Failed] using h.failed
    have hlines : ∀ a, linesBeforeError (r.answers ++ [a]) = p.items ++ linesBeforeError [a] := by
      intro a
      rw [linesBeforeError_append hclean, ← h.lines]
      rfl
    have hpoll : (lineFramer max).poll p.rest = toPoll r.decoder.nextLine.1 := by
      rw [← h.buffer hp, ← h.maxLine]
      exact pollLine_buffer h.sound
    have hbuffer := nextLine_buffer h.sound
    simp only [Framer.step, hp, hpoll]
    rcases ha : r.decoder.nextLine.1 with e | _ | line <;> simp only [toPoll]
    · refine ⟨hsound, hmax, ?_, iff_of_true rfl ⟨e, by simp [step, ha]⟩, by simp⟩
      simp [lines, step, ha, hlines, linesBeforeError]
    · refine ⟨hsound, hmax, ?_, ?_, fun _ => ?_⟩
      · simp [lines, step, ha, hlines, linesBeforeError]
      · simp [Failed, step, ha, hp, hclean]
      · simpa [ha, step, h.buffer hp] using hbuffer
    · have hb : p.rest = line ++ cr :: lf :: r.decoder.nextLine.2.buffer := by
        simpa [ha, h.buffer hp] using hbuffer
      refine ⟨hsound, hmax, ?_, ?_, fun _ => ?_⟩
      · simp [lines, step, ha, hlines, linesBeforeError]
      · simp [Failed, step, ha, hclean]
      · simp only [hb, drop_length_add_append]
        rfl

lemma follows_read (max : ℕ) (ops : List (Op UInt8)) :
    Follows max (read max (ops.map .ofOp)) ((lineFramer max).run Framer.start ops) := by
  induction ops using List.reverseRecOn with
  | nil => exact follows_start max
  | append_singleton ops op ih =>
    simp only [read, Framer.run, map_append, map_cons, map_nil, foldl_append,
      foldl_cons, foldl_nil]
    cases op with
    | feed piece => exact follows_feed ih piece
    | poll => exact follows_nextLine ih

lemma drained_read {ops : List (Op UInt8)} (h : (read max (ops.map .ofOp)).Drained) :
    (read max (ops.map .ofOp)).lines = ((lineFramer max).drain (fed ops)).items ∧
      ((read max (ops.map .ofOp)).Failed ↔
        ((lineFramer max).drain (fed ops)).error.isSome) ∧
      (¬ (read max (ops.map .ofOp)).Failed →
        (read max (ops.map .ofOp)).decoder.buffer = ((lineFramer max).drain (fed ops)).rest) := by
  have hf := follows_read max ops
  have hsettled : (lineFramer max).Settled ((lineFramer max).run Framer.start ops) := by
    rcases h with hfail | hmore
    · exact .inl (hf.failed.2 hfail)
    cases hp : ((lineFramer max).run Framer.start ops).error with
    | some e => exact .inl (by simp [hp])
    | none =>
      refine .inr ?_
      rw [← hf.buffer hp]
      have hpoll := pollLine_buffer hf.sound
      rwa [hf.maxLine, hmore] at hpoll
  obtain ⟨hitems, herror, hrest⟩ := (lineFramer max).run_settled ops hsettled
  refine ⟨hf.lines.trans hitems.symm, by rw [herror, hf.failed], fun hok => ?_⟩
  rw [← hf.failed, Bool.not_eq_true, Option.isSome_eq_false_iff, Option.isNone_iff_eq_none] at hok
  rw [hf.buffer hok, hrest hok]

/-- The lines a drained decoder has returned before its first error do not depend on how the
stream was cut and when `nextLine` was called: they are the complete lines of the longest
prefix that has no NUL, no bare CR or LF and no line past the limit. Under any calls, also
those that take or discard buffered octets, every octet leaves the buffer once and in order,
and the resume index changes neither an answer nor the buffer. -/
theorem read_any_fragmentation (max : ℕ) (s : List UInt8) :
    (∀ ops₁ ops₂ : List (Op UInt8), fed ops₁ = s → fed ops₂ = s →
      (read max (ops₁.map .ofOp)).Drained → (read max (ops₂.map .ofOp)).Drained →
      (read max (ops₁.map .ofOp)).lines = (read max (ops₂.map .ofOp)).lines ∧
      ((read max (ops₁.map .ofOp)).Failed ↔ (read max (ops₂.map .ofOp)).Failed) ∧
      ∃ p, IsLongestPrefix (Framed List.length max) s p ∧
        (read max (ops₁.map .ofOp)).lines = completeLines p) ∧
    ∀ reqs : List Request, Request.fed reqs = s →
      (read max reqs).consumed ++ (read max reqs).decoder.buffer = s ∧
      (read max reqs).decoder.nextLine.1 = (read max reqs).decoder.reset.nextLine.1 ∧
      (read max reqs).decoder.nextLine.2.buffer =
        (read max reqs).decoder.reset.nextLine.2.buffer := by
  constructor
  · intro ops₁ ops₂ h₁ h₂ hd₁ hd₂
    obtain ⟨hlines₁, hfail₁, -⟩ := drained_read hd₁
    obtain ⟨hlines₂, hfail₂, -⟩ := drained_read hd₂
    rw [h₁] at hlines₁ hfail₁
    rw [h₂] at hlines₂ hfail₂
    obtain ⟨p, hp, hitems⟩ := drain_items max s
    exact ⟨hlines₁.trans hlines₂.symm, hfail₁.trans hfail₂.symm, p, hp, hlines₁.trans hitems⟩
  · rintro reqs rfl
    obtain ⟨hsound, hbytes⟩ := read_conserves max reqs
    exact ⟨hbytes, nextLine_eq_reset hsound⟩

/-- A read cut between CR and LF, with `nextLine` called in between, gives the line of the
uncut read. -/
theorem read_cut_inside_crlf :
    (read 998 ([.feed [97, 13], .poll, .feed [10], .poll].map .ofOp)).lines = [[97]] ∧
      (read 998 ([.feed [97, 13, 10], .poll].map .ofOp)).lines = [[97]] := by
  have h := (read_any_fragmentation 998 [97, 13, 10]).1
    [.feed [97, 13], .poll, .feed [10], .poll] [.feed [97, 13, 10], .poll]
    rfl rfl (.inr rfl) (.inr rfl)
  exact ⟨rfl, h.1.symm⟩

end Reading

end Epistle.Smtp
