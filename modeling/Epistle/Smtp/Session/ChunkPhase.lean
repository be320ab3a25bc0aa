import Epistle.Smtp.Session.DataPhase

/-!
# BDAT and DATA agree

A BDAT body is checked octet by octet as it is stored, chunk by chunk; a DATA body is checked by
the line decoder, stuffed. The two give one verdict on every body of whole lines, however it is
cut into chunks, and one message.

A chunk may end anywhere in a line, between CR and LF too. `Ready` says where the check stands
in a body all of whose lines are good, so that neither an octet nor the end of a chunk can fail.

* `chunks_agree_with_data`: one verdict and one outcome for both commands.
-/

namespace Epistle.Smtp

open Lib Queue List

/-! ## The check on whole bodies -/

open LineCheck

namespace LineCheck

lemma steps_append (check : LineCheck) (max : ℕ) (s s' : List UInt8) :
    check.steps max (s ++ s') = check.steps max s >>= fun next => next.steps max s' := by
  induction s generalizing check with
  | nil => rfl
  | cons b s ih =>
    rw [cons_append, steps, steps]
    cases check.step b max with
    | error e => rfl
    | ok next => exact ih next.2

lemma steps_plain {l : List UInt8} (hl : ∀ b ∈ l, Plain b) (e : Bool) (p : List UInt8)
    (max : ℕ) : (within e p).steps max l = .ok (within e (p ++ l)) := by
  induction l generalizing p with
  | nil => rw [append_nil]; rfl
  | cons b l ih =>
    obtain ⟨hb, hl⟩ := forall_mem_cons.1 hl
    have hrest := ih hl (p ++ [b])
    rw [append_assoc, singleton_append] at hrest
    rw [steps, step_within e p hb]
    exact hrest

lemma steps_line {l : List UInt8} (hl : ∀ b ∈ l, Plain b) (e : Bool) (max : ℕ)
    (r : List UInt8) :
    (within e []).steps max (l ++ Lib.cr :: lf :: r) =
      if width e l > max then .error .tooLong else (within e []).steps max r := by
  rw [steps_append, steps_plain hl, nil_append]
  show (within e l).steps max (Lib.cr :: lf :: r) = _
  rw [steps, step_within_cr]
  show steps { within e l with cr := true } max (lf :: r) = _
  rw [steps, step_within_cr_lf]
  split_ifs <;> rfl

lemma steps_violation {q : List UInt8} (h : Violation q) (e : Bool) (p : List UInt8) (max : ℕ) :
    ∃ err, (within e p).steps max q = .error err := by
  rcases step_violation e p max h with ⟨x, r, err, rfl, hx⟩ | ⟨x, r, err, rfl, hx⟩
  · exact ⟨err, by rw [steps, hx]; rfl⟩
  · refine ⟨err, ?_⟩
    rw [steps, step_within_cr]
    show steps { within e p with cr := true } max (x :: r) = _
    rw [steps, hx]
    rfl

variable {max : ℕ} {check : LineCheck}

lemma steps_unlines {ls : List (List UInt8)} (h : ∀ l ∈ ls, (∀ b ∈ l, Plain b) ∨ Broken l)
    {e : Bool} {next : LineCheck} (hok : (within e []).steps max (unlines ls) = .ok next) :
    ∀ l ∈ ls, GoodLine (width e) max l := by
  induction ls with
  | nil => simp
  | cons l ls ih =>
    obtain ⟨hl, hls⟩ := forall_mem_cons.1 h
    rw [unlines_cons] at hok
    rcases hl with hplain | ⟨p, q, rfl, hp, hq⟩
    · rw [steps_line hplain] at hok
      split_ifs at hok with hlong
      exact forall_mem_cons.2 ⟨⟨hplain, Nat.le_of_not_lt hlong⟩, ih hls hok⟩
    · -- The check fails inside the line, before its CRLF is complete.
      obtain ⟨err, herr⟩ := steps_violation (hq (lf :: unlines ls)) e p max
      rw [append_assoc, steps_append, steps_plain hp, nil_append] at hok
      cases herr.symm.trans hok

lemma width_le_append (e : Bool) (p q : List UInt8) : width e p ≤ width e (p ++ q) := by
  unfold width
  cases p with
  | nil => simp
  | cons b p => simp

/-- Where the check stands, in a body whose lines are good from there on. -/
inductive Ready (max : ℕ) : LineCheck → List UInt8 → Prop
  /-- Inside a line, or at its start. -/
  | line {p q : List UInt8} {ls : List (List UInt8)} (hl : GoodLine (width true) max (p ++ q))
      (hls : ∀ l ∈ ls, GoodLine (width true) max l) :
      Ready max (within true p) (q ++ Lib.cr :: lf :: unlines ls)
  | ending {p : List UInt8} {ls : List (List UInt8)} (hl : GoodLine (width true) max p)
      (hls : ∀ l ∈ ls, GoodLine (width true) max l) :
      Ready max { within true p with cr := true } (lf :: unlines ls)
  /-- Behind the last line. -/
  | done : Ready max (within true []) []

lemma Ready.start {ls : List (List UInt8)} (h : ∀ l ∈ ls, GoodLine (width true) max l) :
    Ready max (within true []) (unlines ls) := by
  cases ls with
  | nil => exact .done
  | cons l ls =>
    obtain ⟨hl, hls⟩ := forall_mem_cons.1 h
    rw [unlines_cons]
    exact .line hl hls

lemma Ready.step {max : ℕ} {check : LineCheck} {b : UInt8} {rest : List UInt8}
    (h : Ready max check (b :: rest)) :
    ∃ seen next, check.step b max = .ok (seen, next) ∧ Ready max next rest := by
  generalize hs : b :: rest = s at h
  cases h with
  | @line p q ls hl hls =>
    rcases q with _ | ⟨x, q⟩
    · cases hs
      exact ⟨_, _, step_within_cr true p max, .ending (by simpa using hl) hls⟩
    · cases hs
      have hx : Plain b := hl.1 b (by simp)
      refine ⟨_, _, step_within true p hx max, .line (p := p ++ [b]) ?_ hls⟩
      simpa using hl
  | @ending p ls hl hls =>
    cases hs
    have hfits : ¬ width true p > max := hl.2.not_gt
    exact ⟨_, _, (step_within_cr_lf true p max).trans (if_neg hfits), .start hls⟩
  | done => cases hs

lemma Ready.steps (s : List UInt8) {rest : List UInt8} (h : Ready max check (s ++ rest)) :
    ∃ next, check.steps max s = .ok next ∧ Ready max next rest := by
  induction s generalizing check with
  | nil => exact ⟨check, rfl, h⟩
  | cons b s ih =>
    obtain ⟨seen, next, hstep, hready⟩ := h.step
    obtain ⟨last, hsteps, hrest⟩ := ih hready
    exact ⟨last, by rw [steps, hstep]; exact hsteps, hrest⟩

lemma Ready.checkOpen {rest : List UInt8} (h : Ready max check rest) :
    check.checkOpen max = .ok () := by
  refine if_neg (Nat.not_lt_of_le ?_)
  cases h with
  | @line p q ls hl hls =>
    have hle : width true p ≤ max := (width_le_append true p q).trans hl.2
    exact hle.trans (Nat.le_succ max)
  | ending hl hls => exact Nat.succ_le_succ hl.2
  | done => exact Nat.zero_le _

lemma Ready.finish (h : Ready max check []) : check.finish max = .ok () := by
  generalize hs : ([] : List UInt8) = s at h
  cases h with
  | @line p q ls hl hls => cases q <;> cases hs
  | ending hl hls => cases hs
  | done => rfl

end LineCheck

open Context

lemma chunkFraming_ready {check : LineCheck} {data rest : List UInt8} (last : Bool)
    (h : check.Ready maxLineLength (data ++ rest)) (hlast : last = true → rest = []) :
    ∃ next, chunkFraming check data last = .ok next ∧ next.Ready maxLineLength rest := by
  obtain ⟨next, hsteps, hready⟩ := LineCheck.Ready.steps data h
  refine ⟨next, ?_, hready⟩
  have hfeed : check.feed data maxLineLength = .ok next := by
    rw [feed, hsteps]
    show (next.checkOpen maxLineLength >>= fun _ => pure next) = _
    rw [hready.checkOpen]
    rfl
  rw [chunkFraming, hfeed]
  cases last with
  | false => rfl
  | true =>
    rw [hlast rfl] at hready
    show (next.finish maxLineLength >>= fun _ => pure next) = _
    rw [hready.finish]
    rfl

lemma steps_of_chunkFraming {check next : LineCheck} {data : List UInt8} {last : Bool}
    (h : chunkFraming check data last = .ok next) :
    check.steps maxLineLength data = .ok next := by
  unfold chunkFraming feed at h
  cases hsteps : check.steps maxLineLength data with
  | error e => simp [hsteps, bind, Except.bind] at h
  | ok mid =>
    rw [hsteps] at h
    cases hopen : mid.checkOpen maxLineLength with
    | error e => simp [hopen, bind, Except.bind] at h
    | ok u =>
      cases last with
      | false => simpa [hopen, bind, Except.bind, pure, Except.pure] using h
      | true =>
        cases hfinish : mid.finish maxLineLength with
        | error e => simp [hopen, hfinish, bind, Except.bind, pure, Except.pure] at h
        | ok u => simpa [hopen, hfinish, bind, Except.bind, pure, Except.pure] using h

/-! ## The chunks of a transfer -/

/-- What a chunk finds once it has been read: the budget, and what the network layer has charged
for the chunk. -/
structure Arrival where
  memory : MemoryBudget
  charged : Reservation

def Arrival.context (a : Arrival) (s : Session) : Context :=
  ⟨{ s with chunkReservation := a.charged }, a.memory⟩

/-- Hand the chunks of a body to `bdat_chunk`, the last one marked, unless the connection is
closed before. -/
def Session.collectChunks (env : Env) (arrivals : ℕ → Arrival) :
    ℕ → Session → List (List UInt8) → List UInt8 → Action × Session
  | i, s, [], last =>
      let (action, next) := ((arrivals i).context s).bdatChunk env last true
      (action, next.session)
  | i, s, chunk :: chunks, last =>
      match ((arrivals i).context s).bdatChunk env chunk false with
      | (.close reply, next) => (.close reply, next.session)
      | (_, next) => collectChunks env arrivals (i + 1) next.session chunks last

def Transfer.chunked (t : Transfer) (check : LineCheck) : Transfer :=
  { t with chunking := true, lineCheck := check }

namespace Session

variable {env : Env} {arrivals : ℕ → Arrival} {s : Session} {t : Transfer}

lemma HasRoom.chargeRest {c : Context} {n length : ℕ} (h : HasRoom c.session c.memory n)
    (hle : length ≤ n) : (c.chargeRest length).1 = true := by
  unfold Context.chargeRest
  dsimp only
  split_ifs with hrest
  · unfold reserveChunk
    split_ifs with hbudget
    · obtain ⟨r, next, hgrow⟩ := h.tryGrow hbudget
        ((Nat.sub_le length c.session.chunkReservation.bytes).trans hle) c.session.chunkReservation
      rw [hgrow]
    · rfl
  · rfl

lemma bdatChunk_eq_takeChunk (a : Arrival) (s : Session) (env : Env) (data : List UInt8)
    (last : Bool) (hroom : HasRoom s a.memory data.length) :
    ∃ (next : Context) (r : Reservation), next.session = { s with chunkReservation := .none } ∧
      (a.context s).bdatChunk env data last = next.takeChunk env data last r := by
  have hcharge : ((a.context s).chargeRest data.length).1 = true :=
    HasRoom.chargeRest hroom (Nat.le_refl _)
  obtain ⟨r, hr⟩ := (a.context s).chargeRest_session data.length
  refine ⟨((a.context s).chargeRest data.length).2.takeChunkReservation,
    ((a.context s).chargeRest data.length).2.session.chunkReservation, ?_, ?_⟩
  · rw [takeChunkReservation, hr]
    rfl
  · rw [bdatChunk]
    dsimp only
    rw [if_pos hcharge]

variable {c : Context} {body data : List UInt8} {r : Reservation}

lemma takeChunk_error {e : LineError} {last : Bool} (hc : c.session = s.holding t body r)
    (h : chunkFraming t.lineCheck data last = .error e) (chunk : Reservation) :
    (c.takeChunk env data last chunk).1 = .close (lineErrorReply e) := by
  rw [takeChunk, hc]
  dsimp only [holding]
  rw [show (t.hold body r).lineCheck = t.lineCheck from rfl, h]

lemma takeChunk_ok {check : LineCheck} {last : Bool} (hs : c.session.state = .receivingData t)
    (h : chunkFraming t.lineCheck data last = .ok check)
    (hsize : t.size + data.length ≤ c.session.maxMessageSize) (chunk : Reservation) :
    ∃ r', c.takeChunk env data last chunk =
      if last then
        (c.putTransfer { t.chunked check with
          size := t.size + data.length, body := t.body ++ data, reserved := r' }).finalise env
            { t.message with data := t.body ++ data } (t.size + data.length)
      else (.continue (.single 250 "2.0.0 chunk received"), c.putTransfer { t.chunked check with
        size := t.size + data.length, body := t.body ++ data, reserved := r' }) := by
  refine ⟨t.reserved.absorb chunk, ?_⟩
  rw [takeChunk, hs]
  dsimp only
  rw [h]
  dsimp only
  rw [if_neg hsize.not_gt]
  rfl

lemma takeChunk_holding {check : LineCheck} {last : Bool}
    (hc : c.session = s.holding t body r)
    (h : chunkFraming t.lineCheck data last = .ok check)
    (hsize : (body ++ data).length ≤ s.maxMessageSize) (chunk : Reservation) :
    ∃ (next : Context) (r' : Reservation),
      next.session = s.holding (t.chunked check) (body ++ data) r' ∧
      c.takeChunk env data last chunk =
        if last then next.finalise env { t.message with data := body ++ data } (body ++ data).length
        else (.continue (.single 250 "2.0.0 chunk received"), next) := by
  obtain ⟨session, memory⟩ := c
  obtain rfl : session = s.holding t body r := hc
  have hlen : (t.hold body r).size + data.length = (body ++ data).length := by
    simp [Transfer.hold]
  obtain ⟨r', hr'⟩ := takeChunk_ok (t := t.hold body r) (c := ⟨s.holding t body r, memory⟩) rfl h
    (hlen.trans_le hsize) chunk
  rw [hlen] at hr'
  exact ⟨_, r', rfl, hr'⟩

lemma finalise_holding {size : ℕ} {m : AcceptedMessage} (hc : c.session = s.holding t body r)
    (memory : MemoryBudget) :
    (c.finalise env m size).1 =
      ((takeState ⟨s, memory⟩).innerFinalise env m size t.budgetExhausted .none).1 := by
  obtain ⟨session, memory'⟩ := c
  obtain rfl : session = s.holding t body r := hc
  exact innerFinalise_action _ _ env m size t.budgetExhausted .none r rfl rfl rfl

lemma bdatChunk_holding (env : Env) (s : Session) (t : Transfer) (a : Arrival)
    {body data : List UInt8} (r : Reservation) (last : Bool)
    (hsize : (body ++ data).length ≤ s.maxMessageSize) (hroom : HasRoom s a.memory data.length) :
    (∀ e, chunkFraming t.lineCheck data last = .error e →
      ((a.context (s.holding t body r)).bdatChunk env data last).1 = .close (lineErrorReply e)) ∧
    ∀ check, chunkFraming t.lineCheck data last = .ok check →
      ∃ (next : Context) (r' : Reservation),
        next.session =
          { s with chunkReservation := .none }.holding (t.chunked check) (body ++ data) r' ∧
        (a.context (s.holding t body r)).bdatChunk env data last =
          if last then
            next.finalise env { t.message with data := body ++ data } (body ++ data).length
          else (.continue (.single 250 "2.0.0 chunk received"), next) := by
  obtain ⟨c, chunk, hc, htake⟩ := bdatChunk_eq_takeChunk a (s.holding t body r) env data last hroom
  have hc' : c.session = { s with chunkReservation := .none }.holding t body r := hc
  rw [htake]
  exact ⟨fun e he => takeChunk_error hc' he chunk,
    fun check hcheck => takeChunk_holding hc' hcheck hsize chunk⟩

variable {chunks : List (List UInt8)}

lemma collectChunks_cons_holding {chunk last : List UInt8} (env : Env) (s : Session)
    (t : Transfer) (body : List UInt8) (r : Reservation) (i : ℕ)
    (hsize : (body ++ chunk).length ≤ s.maxMessageSize)
    (hroom : HasRoom s (arrivals i).memory chunk.length) :
    (∀ e, chunkFraming t.lineCheck chunk false = .error e →
      (collectChunks env arrivals i (s.holding t body r) (chunk :: chunks) last).1 =
        .close (lineErrorReply e)) ∧
    ∀ check, chunkFraming t.lineCheck chunk false = .ok check →
      ∃ r', collectChunks env arrivals i (s.holding t body r) (chunk :: chunks) last =
        collectChunks env arrivals (i + 1)
          ({ s with chunkReservation := .none }.holding (t.chunked check) (body ++ chunk) r')
          chunks last := by
  obtain ⟨hbad, hgood⟩ := bdatChunk_holding env s t (arrivals i) r false hsize hroom
  rw [collectChunks]
  constructor
  · intro e he
    rcases hbdat : ((arrivals i).context (s.holding t body r)).bdatChunk env chunk false with
      ⟨action, next⟩
    have haction := hbad e he
    rw [hbdat] at haction
    obtain rfl : action = .close (lineErrorReply e) := haction
    rfl
  · intro check hcheck
    obtain ⟨next, r', hnext, hbdat⟩ := hgood check hcheck
    refine ⟨r', ?_⟩
    simp only [hbdat, Bool.false_eq_true, if_false, hnext]

lemma steps_of_collectChunks {last : List UInt8} (s : Session) (t : Transfer)
    (body : List UInt8) (r : Reservation) (i : ℕ)
    (hsize : (body ++ (chunks.flatten ++ last)).length ≤ s.maxMessageSize)
    (hroom : RoomFor s (fun j => (arrivals j).memory) i ((chunks ++ [last]).map length))
    (hok : ∀ e, (collectChunks env arrivals i (s.holding t body r) chunks last).1 ≠
      .close (lineErrorReply e)) :
    ∃ check, t.lineCheck.steps maxLineLength (chunks.flatten ++ last) = .ok check := by
  induction chunks generalizing s t body r i with
  | nil =>
    obtain ⟨hbad, -⟩ := bdatChunk_holding env s t (arrivals i) r true hsize hroom.cons.1
    cases hframe : chunkFraming t.lineCheck last true with
    | error e => exact absurd (hbad e hframe) (hok e)
    | ok check => exact ⟨check, steps_of_chunkFraming hframe⟩
  | cons chunk chunks ih =>
    rw [flatten_cons, append_assoc] at hsize ⊢
    rw [cons_append, map_cons] at hroom
    obtain ⟨hnow, hlater⟩ := hroom.cons
    rw [← append_assoc] at hsize
    have hfirst : (body ++ chunk).length ≤ s.maxMessageSize :=
      (length_append ▸ Nat.le_add_right _ _).trans hsize
    obtain ⟨hbad, hgood⟩ := collectChunks_cons_holding env s t body r i hfirst hnow
    cases hframe : chunkFraming t.lineCheck chunk false with
    | error e => exact absurd (hbad e hframe) (hok e)
    | ok check =>
      obtain ⟨r', hrest⟩ := hgood check hframe
      obtain ⟨final, hfinal⟩ := ih { s with chunkReservation := .none } (t.chunked check)
        (body ++ chunk) r' (i + 1) hsize hlater (hrest ▸ hok)
      refine ⟨final, ?_⟩
      rw [steps_append, steps_of_chunkFraming hframe]
      exact hfinal

lemma collectChunks_ready {last : List UInt8} (env : Env) (s : Session) (t : Transfer)
    (body : List UInt8) (r : Reservation) (i : ℕ)
    (hsize : (body ++ (chunks.flatten ++ last)).length ≤ s.maxMessageSize)
    (hroom : RoomFor s (fun j => (arrivals j).memory) i ((chunks ++ [last]).map length))
    (hready : t.lineCheck.Ready maxLineLength (chunks.flatten ++ last)) (memory : MemoryBudget) :
    (collectChunks env arrivals i (s.holding t body r) chunks last).1 =
      ((takeState ⟨s, memory⟩).innerFinalise env
        { t.message with data := body ++ (chunks.flatten ++ last) }
        (body ++ (chunks.flatten ++ last)).length t.budgetExhausted .none).1 := by
  induction chunks generalizing s t body r i with
  | nil =>
    rw [flatten_nil, nil_append] at hsize hready ⊢
    rw [← append_nil last] at hready
    obtain ⟨check, hframe, -⟩ := chunkFraming_ready true hready fun _ => rfl
    obtain ⟨-, hgood⟩ := bdatChunk_holding env s t (arrivals i) r true hsize hroom.cons.1
    obtain ⟨next, r', hnext, hbdat⟩ := hgood check hframe
    rw [collectChunks, hbdat, if_pos rfl]
    refine (finalise_holding hnext memory).trans ?_
    exact innerFinalise_action _ _ env _ _ _ .none .none rfl rfl rfl
  | cons chunk chunks ih =>
    rw [flatten_cons, append_assoc] at hsize hready ⊢
    rw [← append_assoc] at hsize ⊢
    rw [cons_append, map_cons] at hroom
    obtain ⟨hnow, hlater⟩ := hroom.cons
    have hfirst : (body ++ chunk).length ≤ s.maxMessageSize :=
      (length_append ▸ Nat.le_add_right _ _).trans hsize
    obtain ⟨check, hframe, hready⟩ := chunkFraming_ready false hready (by simp)
    obtain ⟨r', hrest⟩ := (collectChunks_cons_holding env s t body r i hfirst hnow).2 check hframe
    rw [hrest]
    refine (ih { s with chunkReservation := .none } (t.chunked check) (body ++ chunk) r' (i + 1)
      hsize hlater hready).trans ?_
    exact innerFinalise_action _ _ env _ _ _ .none .none rfl rfl rfl

end Session

lemma innerFinalise_ne_close (c : Context) (env : Env) (m : AcceptedMessage) (size : ℕ)
    (exhausted : Bool) (r : Reservation) (reply : Reply) :
    (c.innerFinalise env m size exhausted r).1 ≠ .close reply := by
  unfold innerFinalise
  split
  · simp
  · split <;> simp

open Reading

/-- One verdict and one outcome for a body of whole lines. However it is cut into chunks, BDAT
rejects its framing exactly when the decoder reports an error on its stuffed lines and the
terminator; and otherwise both commands end in the same action, which delivers the body if it
delivers anything, and without a login or quotas does deliver it. -/
theorem chunks_agree_with_data (body : List UInt8) (hbody : body = [] ∨ crlf <:+ body)
    (chunks : List (List UInt8)) (last : List UInt8) (hcut : chunks.flatten ++ last = body)
    (ops : List (Lib.Op UInt8))
    (hfed : fed ops = unlines ((completeLines body).map stuffLine ++ [[dot]]))
    (hdrained : (read maxLineLength (ops.map .ofOp)).Drained)
    (s : Session) (t : Transfer) (hs : s.state = .receivingData t) (ht : t.Fresh)
    (hcheck : t.lineCheck = .stored) (hsize : body.length ≤ s.maxMessageSize)
    (mem : ℕ → MemoryBudget) (hmem : RoomFor s mem 0 ((completeLines body).map (·.length + 2)))
    (arrivals : ℕ → Arrival)
    (harrivals : RoomFor s (fun i => (arrivals i).memory) 0 ((chunks ++ [last]).map length))
    (env : Env) :
    ((∀ e, (s.collectChunks env arrivals 0 chunks last).1 ≠ .close (lineErrorReply e)) ↔
      ¬ (read maxLineLength (ops.map .ofOp)).Failed) ∧
    (¬ (read maxLineLength (ops.map .ofOp)).Failed →
      (∃ next, s.collectData env mem 0 (read maxLineLength (ops.map .ofOp)).lines =
        (some (s.collectChunks env arrivals 0 chunks last).1, next, [])) ∧
      (∀ reply message, (s.collectChunks env arrivals 0 chunks last).1 = .deliver reply message →
        message.data = body) ∧
      (s.authenticated = none → s.quota = false →
        (s.collectChunks env arrivals 0 chunks last).1 =
          .deliver .ok { t.message with data := body })) := by
  have hlines : unlines (completeLines body) = body := by
    have h := unlines_splitCrlf body
    rwa [openLine_eq_nil hbody, append_nil] at h
  have hparts : ∀ l ∈ completeLines body, (∀ b ∈ l, Plain b) ∨ Broken l :=
    fun l hl => plain_or_broken hl
  obtain ⟨hread, hfailed, -⟩ := drained_read hdrained
  rw [hfed] at hread hfailed
  -- Good lines are what both sides ask for.
  have hgood_of_decoder : ¬ (read maxLineLength (ops.map .ofOp)).Failed →
      ∀ l ∈ completeLines body, GoodLine (width true) maxLineLength l := by
    intro hok l hl
    rw [hfailed, Bool.not_eq_true, Option.isSome_eq_false_iff, Option.isNone_iff_eq_none,
      unlines_append] at hok
    have hstuffed : ∀ l ∈ (completeLines body).map stuffLine, (∀ b ∈ l, Plain b) ∨ Broken l := by
      simpa using fun l hl => stuffLine_plain_or_broken (hparts l hl)
    exact goodLine_stuffLine.1 (drain_unlines_error hstuffed _ hok _ (mem_map_of_mem hl))
  have hdrain : (∀ l ∈ completeLines body, GoodLine (width true) maxLineLength l) →
      (lineFramer maxLineLength).drain (unlines ((completeLines body).map stuffLine ++ [[dot]])) =
        ⟨(completeLines body).map stuffLine ++ [[dot]], none, []⟩ := by
    intro hgood
    refine drain_unlines fun l hl => ?_
    rw [mem_append, mem_map, mem_singleton] at hl
    rcases hl with ⟨line, hline, rfl⟩ | rfl
    · exact goodLine_stuffLine.2 (hgood line hline)
    · exact ⟨by simpa using plain_dot, by decide⟩
  have hchunks : (∀ l ∈ completeLines body, GoodLine (width true) maxLineLength l) →
      (s.collectChunks env arrivals 0 chunks last).1 =
        ((takeState ⟨s, mem 0⟩).innerFinalise env { t.message with data := body }
          body.length false .none).1 := by
    intro hgood
    have hready : t.lineCheck.Ready maxLineLength (chunks.flatten ++ last) := by
      rw [hcheck, hcut, ← hlines]
      exact .start hgood
    rw [← hcut] at hsize ⊢
    have h := Session.collectChunks_ready env s t [] t.reserved 0 hsize harrivals hready (mem 0)
    rwa [Session.holding_nil hs ht, nil_append, ht.admitted] at h
  constructor
  · constructor
    · intro hok
      rw [← Session.holding_nil hs ht] at hok
      rw [← hcut] at hsize
      obtain ⟨check, hsteps⟩ := Session.steps_of_collectChunks s t [] t.reserved 0 hsize harrivals
        hok
      rw [hcut, hcheck, ← hlines] at hsteps
      rw [hfailed, hdrain (steps_unlines hparts hsteps)]
      simp
    · intro hok e
      rw [hchunks (hgood_of_decoder hok)]
      exact innerFinalise_ne_close _ _ _ _ _ _ _
  · intro hok
    have hgood := hgood_of_decoder hok
    rw [hdrain hgood] at hread
    rw [hchunks hgood, hread]
    obtain ⟨-, hlast⟩ := Session.collectData_stuffed hs ht (completeLines body)
      (hlines.symm ▸ hsize) hmem
    rw [hlines] at hlast
    refine ⟨hlast, fun reply message h => innerFinalise_data h, ?_⟩
    exact innerFinalise_deliver (takeState ⟨s, mem 0⟩) env _ .none hsize

/-- A line of one dot, cut between CR and LF. -/
theorem chunks_agree_on_dot :
    (openSession.collectChunks .permissive (fun _ => ⟨.withCap 100 (by decide), .none⟩) 0
      [[46, 13]] [10]).1 = .deliver .ok { openTransfer.message with data := [46, 13, 10] } := by
  have hclean : ¬ (read maxLineLength
      ([.feed [46, 46, 13, 10, 46, 13, 10], .poll, .poll].map .ofOp)).Failed := by
    have hanswers : (read maxLineLength
        ([.feed [46, 46, 13, 10, 46, 13, 10], .poll, .poll].map .ofOp)).answers =
          [.ok (some [46, 46]), .ok (some [46])] := by decide
    rw [Reading.Failed, hanswers]
    simp
  exact ((chunks_agree_with_data [46, 13, 10] (.inr ⟨[46], rfl⟩) [[46, 13]] [10] rfl
    [.feed [46, 46, 13, 10, 46, 13, 10], .poll, .poll] rfl (.inr (by decide)) openSession
    openTransfer rfl ⟨rfl, rfl, rfl⟩ rfl (by decide) (fun _ => .withCap 100 (by decide))
    (openSession_roomFor (by decide)) (fun _ => ⟨.withCap 100 (by decide), .none⟩)
    (openSession_roomFor (by decide)) .permissive).2 hclean).2.2 rfl rfl

end Epistle.Smtp
