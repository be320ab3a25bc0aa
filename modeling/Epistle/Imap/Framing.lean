import Epistle.Imap.Server
import Mathlib.Data.List.Chain

/-!
# Literals and lines of an IMAP connection

Whether the command loop of `Epistle.Imap.Server` reads the stream in order and keeps the octets of
an announced literal `{n+}` out of its lines. It does along runs whose steps meet `Conn.stepMeets`:
a wrong trailer is put back into an empty decoder, and a line that announces a literal gets as far
as the parsers of APPEND and REPLACE.

* `reads_in_order`: both properties along whole runs.
-/

namespace Epistle.Imap

open Lib Smtp List Option

def InOrder (c : Conn) : Prop := octets c.log <+: c.received

def LiteralsApart (c : Conn) : Prop :=
  ∀ pre a mid b post n, c.log = pre ++ a :: (mid ++ b :: post) → a.announced = some n →
    b.isLine → n ≤ (octets mid).length

def Follows (a b : Item) : Prop := ∀ n, a.announced = some n → n ≤ b.payload

def owed (log : List Item) : ℕ := (log.getLast?.bind Item.announced).getD 0

/-! ## Parts -/

lemma octets_append (l l' : List Item) : octets (l ++ l') = octets l ++ octets l' :=
  flatMap_append

@[simp] lemma octets_singleton (a : Item) : octets [a] = a.octets := by simp [octets]

lemma owed_concat (log : List Item) (a : Item) : owed (log ++ [a]) = a.announced.getD 0 := by
  simp [owed]

lemma Item.payload_le (a : Item) : a.payload ≤ a.octets.length := by
  cases a <;> simp [payload, octets]

lemma Item.payload_of_isLine {a : Item} (h : a.isLine) : a.payload = 0 := by
  cases a <;> simp_all [isLine, payload]

lemma isChain_concat {log : List Item} (h : log.IsChain Follows) {a : Item}
    (ha : owed log ≤ a.payload) : (log ++ [a]).IsChain Follows := by
  refine isChain_append.2 ⟨h, .singleton a, fun x hx y hy => ?_⟩
  obtain rfl : a = y := by simpa using hy
  intro n hn
  have : owed log = n := by simp [owed, mem_def.1 hx, hn]
  omega

lemma literalsApart_of_isChain {c : Conn} (h : c.log.IsChain Follows) : LiteralsApart c := by
  intro pre a mid b post n hlog ha hb
  rw [hlog] at h
  have hchain : (a :: (mid ++ b :: post)).IsChain Follows := h.right_of_append
  cases mid with
  | nil =>
    -- The next part is the line itself, which holds no literal.
    have := hchain.rel n ha
    rw [Item.payload_of_isLine hb] at this
    exact Nat.le_trans this (Nat.zero_le _)
  | cons m mid =>
    calc n ≤ m.payload := hchain.rel n ha
      _ ≤ m.octets.length := m.payload_le
      _ ≤ (octets (m :: mid)).length := by simp [octets]

/-! ## The invariant -/

def Phase.covers : Phase → ℕ
  | literal size _ _ => size
  | drain remaining gone => remaining + gone.length
  | _ => 0

def Phase.Filled (buffer : List UInt8) : Phase → Prop
  | literal size _ taken => taken.length ≤ size ∧ (taken.length < size → buffer = [])
  | trailer _ expected taken =>
      taken.length ≤ expected.length ∧ (taken.length < expected.length → buffer = [])
  | drain remaining _ => 0 < remaining → buffer = []
  | _ => True

/-- Between two phases: the log and the buffer are the stream, and at most `n` octets are
owed. -/
structure Ready (log : List Item) (decoder : LineDecoder) (received : List UInt8) (n : ℕ) :
    Prop where
  chain : log.IsChain Follows
  sound : decoder.Sound
  stream : octets log ++ decoder.buffer = received
  owed_le : owed log ≤ n

open LineDecoder

open Phase

open Conn

namespace Conn

structure Framed (c : Conn) : Prop where
  chain : c.log.IsChain Follows
  sound : c.decoder.Sound
  stream : octets c.log ++ (c.phase.held ++ c.decoder.buffer) = c.received
  filled : c.phase.Filled c.decoder.buffer
  covered : owed c.log ≤ c.phase.covers

structure Good (c : Conn) : Prop where
  chain : c.log.IsChain Follows
  inOrder : InOrder c
  framed : c.phase ≠ .closed → c.Framed

variable {c : Conn} {n : ℕ}

lemma Framed.good (h : c.Framed) : c.Good := ⟨h.chain, ⟨_, h.stream⟩, fun _ => h⟩

lemma Good.close (h : c.Good) : c.close.Good := ⟨h.chain, h.inOrder, fun hne => absurd rfl hne⟩

lemma good_close (h : Ready c.log c.decoder c.received n) : c.close.Good :=
  ⟨h.chain, ⟨_, h.stream⟩, fun hne => absurd rfl hne⟩

lemma good_of_line (h : Ready c.log c.decoder c.received 0)
    (hp : c.phase = .command ∨ c.phase = .auth ∨ c.phase = .idle) : c.Good := by
  have howed : owed c.log = 0 := Nat.le_zero.1 h.owed_le
  refine Framed.good ⟨h.chain, h.sound, ?_, ?_, by simp [howed]⟩
  · rcases hp with hp | hp | hp <;> simpa [hp, held] using h.stream
  · rcases hp with hp | hp | hp <;> simp [hp, Phase.Filled]

lemma Framed.ready (h : c.Framed)
    (hp : c.phase = .command ∨ c.phase = .auth ∨ c.phase = .idle) :
    Ready c.log c.decoder c.received 0 := by
  refine ⟨h.chain, h.sound, ?_, ?_⟩
  · have := h.stream
    rcases hp with hp | hp | hp <;> simpa [hp, held] using this
  · have := h.covered
    rcases hp with hp | hp | hp <;> simpa [hp, covers] using this

variable {size : ℕ} {log : List Item} {received : List UInt8} {env : Env}

lemma framed_beginDrain (h : Ready c.log c.decoder c.received n) (hn : n ≤ size) :
    (c.beginDrain size).Framed where
  chain := h.chain
  sound := sound_of_scanned_zero rfl
  stream := by
    simpa [beginDrain, discardBuffered, held] using h.stream
  filled := by
    intro hlt
    simp only [beginDrain, discardBuffered] at hlt ⊢
    exact drop_eq_nil_of_le (by omega)
  covered := by
    have := h.owed_le
    simp only [beginDrain, discardBuffered, covers, length_take]
    omega

lemma framed_beginLiteral {trailer : List UInt8} (h : Ready c.log c.decoder c.received n)
    (hn : n ≤ size) :
    (c.beginLiteral size trailer).Framed where
  chain := h.chain
  sound := sound_of_scanned_zero rfl
  stream := by
    simpa [beginLiteral, takeBuffered, held] using h.stream
  filled := by
    simp only [beginLiteral, takeBuffered, Phase.Filled, length_take]
    exact ⟨by omega, fun hlt => drop_eq_nil_of_le (by omega)⟩
  covered := le_trans h.owed_le hn

lemma framed_beginTrailer {literal expected : List UInt8}
    (h : Ready c.log c.decoder c.received 0) : (c.beginTrailer literal expected).Framed where
  chain := h.chain
  sound := sound_of_scanned_zero rfl
  stream := by
    simpa [beginTrailer, takeBuffered, held] using h.stream
  filled := by
    simp only [beginTrailer, takeBuffered, Phase.Filled, length_take]
    exact ⟨by omega, fun hlt => drop_eq_nil_of_le (by omega)⟩
  covered := h.owed_le

lemma ready_record {decoder decoder' : LineDecoder} {a : Item} (hchain : log.IsChain Follows)
    (hsound : decoder'.Sound) (hstream : octets log ++ decoder.buffer = received)
    (hbuffer : decoder.buffer = a.octets ++ decoder'.buffer) (howed : owed log ≤ a.payload) :
    Ready (log ++ [a]) decoder' received (a.announced.getD 0) where
  chain := isChain_concat hchain howed
  sound := hsound
  stream := by rw [octets_append, octets_singleton, append_assoc, ← hbuffer, hstream]
  owed_le := le_of_eq (owed_concat log a)

/-! ## Outputs and lines -/

lemma good_follow {output : Output} (h : Ready c.log c.decoder c.received n)
    (hn : n = 0 ∨ Session.Takes output n) : (c.follow env output).Good := by
  unfold follow
  dsimp only
  by_cases hclose : output.close = true
  · rw [if_pos hclose]
    exact good_close (c := c.write output.bytes) h
  rw [if_neg hclose]
  rcases hdiscard : output.discardLiteral with _ | size
  · rcases hcollect : output.collectLiteral with _ | size
    · -- Nothing to read as a literal, so nothing is owed.
      obtain rfl : n = 0 := by
        rcases hn with hn | ⟨-, ⟨_, -, hk⟩ | ⟨-, hk⟩⟩
        · exact hn
        · simp [hdiscard] at hk
        · simp [hcollect] at hk
      dsimp only
      split_ifs
      · exact good_of_line h (.inr (.inl rfl))
      · unfold startCompress
        dsimp only
        split_ifs with hdropped
        · exact good_close (c := c.write output.bytes) h
        · -- The decoder held nothing.
          have hempty : c.decoder.buffer = [] := by
            simp only [write, discardBuffered, usizeBound] at hdropped
            exact eq_nil_of_length_eq_zero (by omega)
          refine good_of_line ⟨h.chain, sound_of_scanned_zero rfl, ?_, h.owed_le⟩
            (.inl rfl)
          simpa [write, discardBuffered, hempty] using h.stream
      · -- Another stream starts.
        exact good_of_line ⟨.nil, sound_of_scanned_zero rfl, rfl, le_refl 0⟩
          (.inl rfl)
      · exact good_of_line h (.inr (.inr rfl))
      · exact good_of_line h (.inl rfl)
    · have hsize : n ≤ size := by
        rcases hn with hn | ⟨-, ⟨_, -, hk⟩ | ⟨-, hk⟩⟩
        · omega
        · simp [hdiscard] at hk
        · simp only [hcollect, some.injEq] at hk
          omega
      exact (framed_beginLiteral (c := c.write output.bytes) h hsize).good
  · have hsize : n ≤ size := by
      rcases hn with hn | ⟨-, ⟨_, hle, hk⟩ | ⟨hk, -⟩⟩
      · omega
      · simp only [hdiscard, some.injEq] at hk
        omega
      · simp [hdiscard] at hk
    exact (framed_beginDrain (c := c.write output.bytes) h hsize).good

lemma good_strike {next : Conn → Conn} (h : Ready c.log c.decoder c.received n)
    (hnext : (next { c with errorStreak := c.errorStreak + 1 }).Good) : (c.strike next).Good := by
  unfold strike
  dsimp only
  split_ifs
  · exact good_close (c := { c with errorStreak := _, written := _ }) h
  · exact hnext

/-- What the guarantee needs of a line that announces a literal: the number fits, and the line is
one that gets to the parsers of APPEND and REPLACE, or the tail of such a one. -/
def carried (tail : Bool) (line : List UInt8) : Bool :=
  (announcedOctets line).all fun n =>
    n = 0 || (n < usizeBound && (tail || (Utf8.decode line).any carriesLiteral))

lemma good_commandLine {limit : ℕ} {line : List UInt8} (hp : c.phase = .command)
    (h : Ready (c.log ++ [.commandLine line]) c.decoder c.received
      ((announcedOctets line).getD 0)) (hline : carried false line) :
    (c.commandLine env limit line).Good := by
  unfold commandLine
  dsimp only
  cases hd : Utf8.decode line with
  | none =>
    have howed : (announcedOctets line).getD 0 = 0 := by
      cases ha : announcedOctets line with
      | none => rfl
      | some n => simpa [carried, ha, hd] using hline
    rw [howed] at h
    exact good_strike (c := (c.record _).write _) h (good_of_line h (.inl hp))
  | some text =>
    have htakes : (announcedOctets line).getD 0 = 0 ∨
        Session.Takes ((c.record (.commandLine line)).session.commandLine env text).1
          ((announcedOctets line).getD 0) := by
      cases ha : announcedOctets line with
      | none => exact .inl rfl
      | some n =>
        simp only [carried, ha, hd, all_some, any_some, Bool.false_or,
          Bool.or_eq_true, Bool.and_eq_true, decide_eq_true_eq] at hline
        refine hline.imp id fun ⟨hn, hc⟩ => ?_
        exact Session.commandLine_takes _ hc (announced_decode ha hd) hn
    dsimp only
    split_ifs
    · exact good_close (c := (c.record _).write _) h
    · exact good_strike (c := { c.record _ with session := _ }) h (good_follow h htakes)
    · exact good_follow h htakes

lemma good_tailLine {limit : ℕ} {line : List UInt8} (hp : c.phase = .command)
    (h : Ready (c.log ++ [.tailLine line]) c.decoder c.received
      ((announcedOctets line).getD 0)) (hline : carried true line) :
    (c.tailLine limit line).Good := by
  -- What is owed is what the lossy text announces.
  have hscan : (announcedOctets line).getD 0 = 0 ∨
      literalAnnouncementInTail (Utf8.decodeLossy line) =
        some ⟨(announcedOctets line).getD 0, false⟩ := by
    cases ha : announcedOctets line with
    | none => exact .inl rfl
    | some n =>
      simp only [carried, ha, all_some, Bool.true_or, Bool.and_true, Bool.or_eq_true,
        decide_eq_true_eq] at hline
      exact hline.imp id fun hn => literalAnnouncement_announced (announced_decodeLossy ha) hn
  unfold tailLine
  dsimp only
  cases hl : literalAnnouncementInTail (Utf8.decodeLossy line) with
  | none =>
    have howed : (announcedOctets line).getD 0 = 0 := hscan.resolve_right (by simp [hl])
    rw [howed] at h
    exact good_of_line h (.inl hp)
  | some literal =>
    dsimp only
    split_ifs with hlarge hsync
    · exact good_close (c := (c.record _).write _) h
    · have howed : (announcedOctets line).getD 0 = 0 := by
        refine hscan.resolve_right fun hr => ?_
        rw [hl, some.injEq] at hr
        simp [hr] at hsync
      rw [howed] at h
      exact good_of_line h (.inl hp)
    · refine Framed.good (framed_beginDrain (c := c.record _) h ?_)
      rcases hscan with hr | hr
      · omega
      · rw [hl, some.injEq] at hr
        rw [hr]

/-! ## Steps and runs -/

/-- What the guarantee needs of a step: of a line that is read, `carried`; of a trailer that is
put back, an empty decoder. -/
def stepMeets (c : Conn) : Event → Bool
  | .advance _ =>
      match c.phase with
      | .command =>
          match c.decoder.nextLine.1 with
          | .ok (some line) => carried c.rejectedTail line
          | _ => true
      | .trailer _ expected taken =>
          taken.length < expected.length || taken = expected || c.decoder.buffer.isEmpty
      | _ => true
  | _ => true

/-- The condition along a run. -/
def Meets (limit : ℕ) (c : Conn) : List Event → Prop
  | [] => True
  | event :: events => c.stepMeets event ∧ (c.step limit event).Meets limit events

instance (limit : ℕ) (c : Conn) (events : List Event) : Decidable (c.Meets limit events) := by
  induction events generalizing c with
  | nil => exact inferInstanceAs (Decidable True)
  | cons event events ih => exact @instDecidableAnd _ _ _ (ih _)

lemma good_nextLine {failed : LineError → List Char} {handle : Conn → List UInt8 → Conn}
    (h : Ready c.log c.decoder c.received 0)
    (hp : c.phase = .command ∨ c.phase = .auth ∨ c.phase = .idle)
    (hhandle : ∀ line decoder, c.decoder.nextLine.1 = .ok (some line) →
      (∀ a : Item, a.octets = line ++ crlf →
        Ready (c.log ++ [a]) decoder c.received (a.announced.getD 0)) →
      (handle { c with decoder } line).Good) :
    (c.nextLine failed handle).Good := by
  have hsound : c.decoder.nextLine.2.Sound := nextLine_sound h.sound
  unfold nextLine
  rcases hnext : c.decoder.nextLine with ⟨_ | _ | line, decoder⟩
  all_goals rw [hnext] at hsound
  all_goals have hbuffer := nextLine_buffer h.sound
  all_goals simp only [hnext, reduceCtorEq, false_and, exists_false, false_or, ne_eq,
    not_false_eq_true, implies_true, true_and, Except.ok.injEq, some.injEq] at hbuffer
  · exact good_close (c := { c with decoder, written := _ })
      ⟨h.chain, hsound, by simpa [hbuffer] using h.stream, h.owed_le⟩
  · exact good_of_line ⟨h.chain, hsound, by simpa [hbuffer] using h.stream, h.owed_le⟩ hp
  · obtain ⟨_, rfl, hbuffer⟩ | ⟨hne, -⟩ := hbuffer
    · refine hhandle line decoder (by rw [hnext]) fun a ha => ?_
      refine ready_record h.chain hsound h.stream ?_ (Nat.le_trans h.owed_le (Nat.zero_le _))
      rw [hbuffer, ha]
      simp [crlf]
    · exact absurd rfl (hne line)

lemma Good.advance (h : c.Good) (limit : ℕ) (hm : c.stepMeets (.advance env)) :
    (c.advance env limit).Good := by
  unfold Conn.advance
  cases hp : c.phase with
  | command =>
    have hf := (h.framed (by simp [hp])).ready (.inl hp)
    refine good_nextLine hf (.inl hp) fun line decoder hline hready => ?_
    have hcarried : carried c.rejectedTail line := by simpa [stepMeets, hp, hline] using hm
    dsimp only
    split_ifs with htail
    · exact good_tailLine hp (hready (.tailLine line) rfl) (htail ▸ hcarried)
    · have hcommand : c.rejectedTail = false := by simpa using htail
      exact good_commandLine hp (hready (.commandLine line) rfl) (hcommand ▸ hcarried)
  | literal size trailer taken =>
    have hf := h.framed (by simp [hp])
    dsimp only
    split_ifs with hlt
    · exact h
    · have hfilled := hf.filled
      have hcovered := hf.covered
      have hstream := hf.stream
      simp only [hp, Phase.Filled, covers, held] at hfilled hcovered hstream
      refine Framed.good (framed_beginTrailer ⟨isChain_concat hf.chain ?_, hf.sound, ?_, ?_⟩)
      · exact le_trans hcovered (Nat.not_lt.1 hlt)
      · simpa [record, octets_append, Item.octets] using hstream
      · simp [record, owed_concat, Item.announced]
  | trailer literal expected taken =>
    have hf := h.framed (by simp [hp])
    have hstream := hf.stream
    have howed : owed c.log ≤ 0 := by simpa [hp, covers] using hf.covered
    simp only [hp, held] at hstream
    dsimp only
    split_ifs with hlt heq
    · exact h
    · refine good_follow (n := 0) ⟨isChain_concat hf.chain (Nat.le_trans howed (Nat.zero_le _)),
        hf.sound, ?_, ?_⟩ (.inl rfl)
      · simpa [record, octets_append, Item.octets] using hstream
      · simp [record, owed_concat, Item.announced]
    · -- The decoder is empty, so the octets come back in their place.
      have hempty : c.decoder.buffer = [] := by simpa [stepMeets, hp, hlt, heq] using hm
      refine good_follow (n := 0) ⟨hf.chain, hf.sound.feed taken, ?_, howed⟩ (.inl rfl)
      simpa [feed, hempty] using hstream
  | drain remaining gone =>
    have hf := h.framed (by simp [hp])
    have hstream := hf.stream
    have hcovered := hf.covered
    simp only [hp, held, covers] at hstream hcovered
    dsimp only
    split_ifs with hlt
    · exact h
    · refine good_of_line ⟨isChain_concat hf.chain ?_, hf.sound, ?_, ?_⟩ (.inl rfl)
      · simp only [Item.payload]
        omega
      · simpa [record, octets_append, Item.octets] using hstream
      · simp [record, owed_concat, Item.announced]
  | auth =>
    have hf := (h.framed (by simp [hp])).ready (.inr (.inl hp))
    refine good_nextLine hf (.inr (.inl hp)) fun line decoder _ hready => ?_
    exact good_follow (hready (.saslLine line) rfl) (.inl rfl)
  | idle =>
    have hf := (h.framed (by simp [hp])).ready (.inr (.inr hp))
    refine good_nextLine hf (.inr (.inr hp)) fun line decoder _ hready => ?_
    dsimp only
    split_ifs
    · exact good_follow (hready (.idleLine line) rfl) (.inl rfl)
    · exact good_of_line (hready (.idleLine line) rfl) (.inr (.inr hp))
  | closed => exact h

lemma ready_feed {decoder : LineDecoder} (h : Ready log decoder received n) (piece : List UInt8) :
    Ready log (decoder.feed piece) (received ++ piece) n where
  chain := h.chain
  sound := h.sound.feed piece
  stream := by rw [← h.stream, feed, append_assoc]
  owed_le := h.owed_le

lemma stream_read {held buffer : List UInt8} {k : ℕ}
    (hstream : octets log ++ (held ++ buffer) = received) (hk : 0 < k → buffer = [])
    (piece : List UInt8) :
    octets log ++ (held ++ piece.take k ++ (buffer ++ piece.drop k)) = received ++ piece := by
  rw [← hstream]
  rcases Nat.eq_zero_or_pos k with rfl | hpos
  · simp
  · simp [hk hpos]

lemma filled_read {taken buffer : List UInt8}
    (h : taken.length ≤ size ∧ (taken.length < size → buffer = [])) (piece : List UInt8) :
    (taken ++ piece.take (size - taken.length)).length ≤ size ∧
      ((taken ++ piece.take (size - taken.length)).length < size →
        buffer ++ piece.drop (size - taken.length) = []) := by
  simp only [length_append, length_take]
  refine ⟨by omega, fun hlt => ?_⟩
  rw [h.2 (by omega), drop_eq_nil_of_le (by omega), append_nil]

lemma Good.read (h : c.Good) (piece : List UInt8) : (c.read piece).Good := by
  unfold Conn.read
  cases hp : c.phase with
  | command | auth | idle =>
    have hf := (h.framed (by simp [hp])).ready (by simp [hp])
    simp only [reduceCtorEq, if_false]
    exact good_of_line (ready_feed hf piece) (by simp)
  | literal | trailer =>
    -- The octets that are missing come off the piece, before the buffer gets the rest.
    obtain ⟨hchain, hsound, hstream, hfilled, hcovered⟩ := h.framed (by simp [hp])
    simp only [hp, held, Phase.Filled, covers] at hstream hfilled hcovered
    simp only [reduceCtorEq, if_false]
    exact Framed.good ⟨hchain, hsound.feed _,
      stream_read hstream (fun hpos => hfilled.2 (by omega)) piece, filled_read hfilled piece,
      hcovered⟩
  | drain remaining gone =>
    obtain ⟨hchain, hsound, hstream, hfilled, hcovered⟩ := h.framed (by simp [hp])
    simp only [hp, held, Phase.Filled, covers] at hstream hfilled hcovered
    simp only [reduceCtorEq, if_false]
    refine Framed.good ⟨hchain, hsound.feed _, ?_, ?_, ?_⟩
    · exact stream_read hstream (fun hpos => hfilled (by omega)) piece
    · intro hlt
      simp only [feed]
      rw [hfilled (by omega), drop_eq_nil_of_le (by omega), append_nil]
    · simp only [covers, length_append, length_take]
      omega
  | closed => simpa [hp] using h

lemma Good.step (h : c.Good) (limit : ℕ) {event : Event} (hm : c.stepMeets event) :
    (c.step limit event).Good := by
  cases event with
  | read piece => exact h.read piece
  | advance env => exact h.advance limit hm
  | hangUp => exact h.close

lemma Good.run (h : c.Good) (limit : ℕ) {events : List Event} (hm : c.Meets limit events) :
    (c.run limit events).Good := by
  induction events generalizing c with
  | nil => exact h
  | cons event events ih => exact ih (h.step limit hm.1) hm.2

lemma good_start (session : Session) : (start session).Good :=
  good_of_line ⟨.nil, sound_of_scanned_zero rfl, rfl, le_refl 0⟩ (.inl rfl)

end Conn

/-- Along every run of the command loop, however the stream is cut, whose steps meet the
condition, what was read is a prefix of the stream, part by part, and no octet of a literal that
a command line or the tail of a rejected command announces is read as part of a line. -/
theorem reads_in_order (session : Session) (limit : ℕ) (events : List Event)
    (hm : (start session).Meets limit events) :
    InOrder ((start session).run limit events) ∧
      LiteralsApart ((start session).run limit events) := by
  have hgood := (good_start session).run limit hm
  exact ⟨hgood.inOrder, literalsApart_of_isChain hgood.chain⟩

/-! ## Runs on fixed streams -/

def asciiOctets (text : String) : List UInt8 := text.toList.map (UInt8.ofNat ·.toNat)

/-- A store in which every mailbox exists and every message is stored, and a session that knows no
command but NOOP and those with a literal. -/
def plainEnv : Env where
  parseDate _ := none
  mailboxExists _ _ := true
  accountUsage _ := 0
  encodeName name := name
  encodeBinaryParts _ := none
  append account _ _ := some ⟨[], [], [], .authenticated account⟩
  other session tag verb _ :=
    if verb = "NOOP".toList then
      .ok ({ bytes := tag ++ " OK NOOP completed\r\n".toList }, session)
    else .error (.unknown tag)
  authResponse session _ := ({ bytes := [] }, session)
  idleDone session := ({ bytes := [] }, session)
  tlsStarted session := session

def loggedIn : Session := ⟨.authenticated "u".toList, false, false, none, 100, none⟩

def arrive (text : String) (steps : ℕ) : List Event :=
  .read (asciiOctets text) :: List.replicate steps (.advance plainEnv)

/-- A wrong trailer in front of buffered octets comes back behind them, and the literal of an
unknown command is read as the next command. -/
theorem trailer_and_literal_misread :
    ¬ InOrder ((start loggedIn).run 100
      (arrive "a APPEND INBOX \x7b1+\x7d\r\nxAB\r\nb NOOP\r\n" 4)) ∧
    ¬ LiteralsApart ((start loggedIn).run 100
      (arrive "a XYZZY \x7b8+\x7d\r\nb NOOP\r\n" 2)) := by
  refine ⟨by unfold InOrder; decide +kernel, fun h => ?_⟩
  exact absurd (h [] (.commandLine (asciiOctets "a XYZZY \x7b8+\x7d")) []
    (.commandLine (asciiOctets "b NOOP")) [] 8 (by decide +kernel) (by decide +kernel) rfl)
    (by decide)

/-- A literal with its trailer, then one with a wrong trailer that is the last to arrive. -/
theorem reads_in_order_append :
    let events := arrive "a APPEND INBOX \x7b1+\x7d\r\nx\r\nb NOOP\r\n" 4 ++
      arrive "c APPEND INBOX \x7b1+\x7d\r\nxAB" 3 ++ arrive "\r\nd NOOP\r\n" 2
    (start loggedIn).Meets 100 events ∧
      InOrder ((start loggedIn).run 100 events) ∧
      LiteralsApart ((start loggedIn).run 100 events) :=
  have hm : (start loggedIn).Meets 100
      (arrive "a APPEND INBOX \x7b1+\x7d\r\nx\r\nb NOOP\r\n" 4 ++
        arrive "c APPEND INBOX \x7b1+\x7d\r\nxAB" 3 ++ arrive "\r\nd NOOP\r\n" 2) := by
    decide +kernel
  ⟨hm, reads_in_order loggedIn 100 _ hm⟩

end Epistle.Imap
