import Epistle.Smtp.Session.Delivery

/-!
# The books of the shared budget

Any number of sessions draw on one memory budget. A session holds up to three reservations: the
body's, the chunk's and the one of the message last accepted. They move between these places, out to
a running delivery, and back to the budget on many paths.

The books have one hole. A claim of no octets for a client that holds nothing opens a counter at
zero, and no release ever closes it: the network layer makes such a claim for every chunk none of
which is buffered yet.

* `World.run_balanced`, `World.counters_balanced`: over every run the counters are the sums of the
  live reservations, if no client without a counter is charged nothing.
-/

namespace Epistle.Smtp

open Lib List

/-! ## One session -/

lemma perm_third {α : Type*} (a b c : α) (l : List α) :
    (a :: b :: c :: l).Perm (c :: a :: b :: l) :=
  (perm_middle : ([a, b] ++ c :: l).Perm (c :: ([a, b] ++ l)))

lemma perm_fourth {α : Type*} (a b c d : α) (l : List α) :
    (a :: b :: c :: d :: l).Perm (d :: a :: b :: c :: l) :=
  (perm_middle : ([a, b, c] ++ d :: l).Perm (d :: ([a, b, c] ++ l)))

open Accounts

namespace Context

/-- The live reservations are the session's own and `others`, held against the budget `m₀` was;
the session's body and chunk are charged to its peer. -/
structure Held (m₀ : MemoryBudget) (c : Context) (others : List Reservation) : Prop where
  cap_pos : 0 < m₀.cap
  caps : SameCaps m₀ c.memory
  accounts : Accounts c.memory (c.session.state.reserved :: c.session.chunkReservation ::
    c.session.deliveryReservation :: others)
  body_client : c.session.state.reserved.attached = true →
    c.session.state.reserved.client = c.session.peerIp.map clientKey
  chunk_client : c.session.chunkReservation.attached = true →
    c.session.chunkReservation.client = c.session.peerIp.map clientKey

section Held

variable {m₀ : MemoryBudget} {c : Context} {others : List Reservation} {r : Reservation}

lemma Held.memory_cap_pos (h : Held m₀ c others) : 0 < c.memory.cap := by
  rw [h.caps.cap]
  exact h.cap_pos

lemma Held.release (h : Held m₀ c (r :: others)) : Held m₀ (c.release r) others where
  cap_pos := h.cap_pos
  caps := h.caps.trans (drop_caps ..)
  accounts := by
    -- Bring the reservation to the front of the books.
    exact drop (h.accounts.perm (perm_fourth ..))
  body_client := h.body_client
  chunk_client := h.chunk_client

lemma Held.setState {s : State} (h : Held m₀ c others) (hs : s.reserved = .none) :
    Held m₀ (c.setState s) others where
  cap_pos := h.cap_pos
  caps := h.caps.trans (drop_caps ..)
  accounts := by
    rw [Context.setState, hs]
    exact accounts_none_cons.2 h.accounts.drop
  body_client := by simp [Context.setState, hs, Reservation.none]
  chunk_client := h.chunk_client

lemma Held.dropChunk (h : Held m₀ c others) : Held m₀ c.dropChunk others where
  cap_pos := h.cap_pos
  caps := h.caps.trans (drop_caps ..)
  accounts := by
    refine perm (accounts_none_cons.2 ?_) (List.Perm.swap ..)
    exact drop (h.accounts.perm (List.Perm.swap ..))
  body_client := h.body_client
  chunk_client := by simp [Context.dropChunk, Reservation.none]

lemma Held.reset (h : Held m₀ c others) : Held m₀ c.reset others := by
  unfold Context.reset
  dsimp only
  split
  · exact h.dropChunk
  · exact h.dropChunk.setState rfl

lemma Held.takeState (h : Held m₀ c others) :
    Held m₀ c.takeState (c.session.state.reserved :: others) where
  cap_pos := h.cap_pos
  caps := h.caps
  accounts := by
    exact accounts_none_cons.2 (h.accounts.perm (perm_third ..).symm)
  body_client := by simp [Context.takeState, State.reserved, Reservation.none]
  chunk_client := h.chunk_client

lemma Held.takeChunkReservation (h : Held m₀ c others) :
    Held m₀ c.takeChunkReservation (c.session.chunkReservation :: others) where
  cap_pos := h.cap_pos
  caps := h.caps
  accounts := by
    refine perm (accounts_none_cons.2 (h.accounts.perm ?_)) (List.Perm.swap ..)
    exact List.Perm.cons _ (List.Perm.swap ..)
  body_client := h.body_client
  chunk_client := by simp [Context.takeChunkReservation, Reservation.none]

lemma Held.of_same {c' : Context} (h : Held m₀ c others) (hm : c'.memory = c.memory)
    (hbody : c'.session.state.reserved = c.session.state.reserved)
    (hchunk : c'.session.chunkReservation = c.session.chunkReservation)
    (hdelivery : c'.session.deliveryReservation = c.session.deliveryReservation)
    (hpeer : c'.session.peerIp = c.session.peerIp) : Held m₀ c' others where
  cap_pos := h.cap_pos
  caps := by rw [hm]; exact h.caps
  accounts := by rw [hm, hbody, hchunk, hdelivery]; exact h.accounts
  body_client := by rw [hbody, hpeer]; exact h.body_client
  chunk_client := by rw [hchunk, hpeer]; exact h.chunk_client

lemma Held.innerFinalise (h : Held m₀ c (r :: others)) (env : Env) (message : AcceptedMessage)
    (size : ℕ) (exhausted : Bool) :
    Held m₀ (c.innerFinalise env message size exhausted r).2 others := by
  unfold Context.innerFinalise
  cases c.session.checkMessage env message size exhausted with
  | error reply => exact h.release
  | ok charge =>
    rcases hsplit : c.session.splitOverQuota env message size with _ | ⟨m, s⟩
    · exact h.release
    · obtain ⟨⟨reports, rfl⟩, -⟩ := splitOverQuota_some hsplit
      refine ⟨h.cap_pos, h.caps.trans (drop_caps ..), ?_, h.body_client, h.chunk_client⟩
      exact drop (h.accounts.perm (perm_third ..))

lemma Held.finaliseFromState (h : Held m₀ c others) (env : Env) :
    Held m₀ (c.finaliseFromState env).2 others := by
  unfold Context.finaliseFromState
  have htaken := h.takeState
  cases hs : c.session.state with
  | receivingData t =>
    rw [hs] at htaken
    exact htaken.innerFinalise ..
  | _ =>
    refine h.of_same rfl ?_ rfl rfl rfl
    rw [hs]
    rfl

def claimed (c : Context) : Event → Option ℕ
  | .dataLine line => some ((unstuff line).length + 2)
  | .reserveChunk bytes => some bytes
  | .bdatChunk data _ =>
      let uncharged := data.length - c.session.chunkReservation.bytes
      if uncharged > 0 then some uncharged else none
  | _ => none

def CountableCall (c : Context) (event : Event) : Prop :=
  ∀ n, c.claimed event = some n → c.session.memoryBudget = true →
    Countable c.memory (c.session.peerIp.map clientKey) n

lemma Held.takeLine {t : Transfer} (h : Held m₀ c others) (hs : c.session.state = .receivingData t)
    (content : List UInt8)
    (hn : c.session.memoryBudget = true →
      Countable c.memory (c.session.peerIp.map clientKey) (content.length + 2)) :
    Held m₀ (c.takeLine t content) others := by
  have hreserved : c.session.state.reserved = t.reserved := by rw [hs]; rfl
  unfold Context.takeLine
  dsimp only
  split_ifs with hover hbudget
  · exact h.of_same rfl hreserved.symm rfl rfl rfl
  · split
    · exact h.of_same rfl hreserved.symm rfl rfl rfl
    · rename_i reserved memory hgrow
      have haccounts := h.accounts
      have hclient := h.body_client
      rw [hreserved] at haccounts hclient
      obtain ⟨haccounts', hclient', hcaps⟩ :=
        haccounts.grow h.memory_cap_pos hclient (hn hbudget) hgrow
      exact ⟨h.cap_pos, h.caps.trans hcaps, haccounts', fun _ => hclient', h.chunk_client⟩
  · exact h.of_same rfl hreserved.symm rfl rfl rfl

lemma Held.dataLine (h : Held m₀ c others) (env : Env) (line : List UInt8)
    (hn : c.session.memoryBudget = true →
      Countable c.memory (c.session.peerIp.map clientKey) ((unstuff line).length + 2)) :
    Held m₀ (c.dataLine env line).2 others := by
  unfold Context.dataLine
  split_ifs
  · exact h.finaliseFromState env
  · cases hs : c.session.state with
    | receivingData t => exact h.takeLine hs _ hn
    | _ => exact h.reset

lemma Held.reserveChunk (h : Held m₀ c others) {n : ℕ}
    (hn : c.session.memoryBudget = true →
      Countable c.memory (c.session.peerIp.map clientKey) n) :
    Held m₀ (c.reserveChunk n).2 others := by
  unfold Context.reserveChunk
  split_ifs with hbudget
  · split
    · exact h
    · rename_i chunk memory hgrow
      obtain ⟨haccounts, hclient, hcaps⟩ :=
        (h.accounts.perm (List.Perm.swap ..)).grow h.memory_cap_pos h.chunk_client
          (hn hbudget) hgrow
      exact ⟨h.cap_pos, h.caps.trans hcaps, haccounts.perm (List.Perm.swap ..), h.body_client,
        fun _ => hclient⟩
  · exact h

lemma Held.takeChunk (h : Held m₀ c (r :: others)) (env : Env) (data : List UInt8) (last : Bool)
    (hclient : r.attached = true → r.client = c.session.peerIp.map clientKey) :
    Held m₀ (c.takeChunk env data last r).2 others := by
  unfold Context.takeChunk
  cases hs : c.session.state with
  | receivingData t =>
    have hreserved : c.session.state.reserved = t.reserved := by rw [hs]; rfl
    dsimp only
    split
    · exact h.reset.release
    · rename_i check hframe
      have habsorb : Held m₀ (c.putTransfer { t with
          chunking := true, lineCheck := check, size := t.size + data.length
          body := t.body ++ data, reserved := t.reserved.absorb r }) others := by
        have hbody := h.body_client
        have haccounts := h.accounts.perm (List.Perm.cons _ (perm_third ..))
        rw [hreserved] at hbody haccounts
        refine ⟨h.cap_pos, h.caps, haccounts.absorb fun ht hr => ?_, ?_, h.chunk_client⟩
        · exact (hbody ht).trans (hclient hr).symm
        · exact Reservation.absorb_client hbody hclient
      split_ifs
      · have hover : Held m₀ (c.putTransfer
            { t with chunking := true, lineCheck := check, size := t.size + data.length })
            (r :: others) := h.of_same rfl hreserved.symm rfl rfl rfl
        exact hover.reset.release
      · exact habsorb.takeState.innerFinalise ..
      · exact habsorb
  | _ => exact h.reset.release

lemma Held.bdatChunk (h : Held m₀ c others) (env : Env) (data : List UInt8) (last : Bool)
    (hn : CountableCall c (.bdatChunk data last)) :
    Held m₀ (c.bdatChunk env data last).2 others := by
  have hcharged : Held m₀ (c.chargeRest data.length).2 others := by
    unfold Context.chargeRest
    dsimp only
    split_ifs with hmore
    · exact h.reserveChunk (hn _ (if_pos hmore.1))
    · exact h
  unfold Context.bdatChunk
  rcases hcharge : c.chargeRest data.length with ⟨room, c₁⟩
  rw [hcharge] at hcharged
  dsimp only at hcharged ⊢
  split_ifs
  · exact hcharged.takeChunkReservation.takeChunk env data last hcharged.chunk_client
  · exact hcharged.reset

/-! ### Commands -/

lemma Held.greet (h : Held m₀ c others) (env : Env) (domain : String) (esmtp : Bool) :
    Held m₀ (c.greet env domain esmtp).2 others := by
  have hgreeted : Held m₀ (c.setState .greeted) others := h.setState rfl
  unfold Context.greet
  dsimp only
  split_ifs <;> exact hgreeted.of_same rfl rfl rfl rfl rfl

lemma Held.mailFrom (h : Held m₀ c others) (env : Env) (reversePath : String) (size : Option ℕ)
    (requireTls : Bool) : Held m₀ (c.mailFrom env reversePath size requireTls).2 others := by
  rcases mailFrom_cases c env reversePath size requireTls with hm | ⟨-, ⟨reply, hm⟩ | hm⟩ <;>
    rw [hm]
  · exact h
  · exact h
  · exact h.setState rfl

lemma Held.rcptTo (h : Held m₀ c others) (env : Env) (forwardPath : String)
    (notify : Option Notify) : Held m₀ (c.rcptTo env forwardPath notify).2 others := by
  rcases rcptTo_cases c env forwardPath notify with
    ⟨reply, -, hr⟩ | ⟨address, -, ⟨reversePath, requireTls, noDsn, -, hr⟩ | ⟨t, noDsn, hs, hr⟩⟩ <;>
    rw [hr]
  · exact h
  · exact h.setState rfl
  · exact h.of_same rfl (by rw [hs]; rfl) rfl rfl rfl

lemma Held.bdat (h : Held m₀ c others) (size : ℕ) (last : Bool) :
    Held m₀ (c.bdat size last).2 others := by
  unfold Context.bdat
  split_ifs
  · exact h.reset
  · split
    · exact h.dropChunk
    · exact h.reset

lemma Held.saslRound (h : Held m₀ c others) (o : SaslOutcome) :
    Held m₀ (c.saslRound o).2 others := by
  rcases o with ⟨reply, _ | account⟩ | reply | reply <;> exact h.of_same rfl rfl rfl rfl rfl

lemma Held.dispatch (h : Held m₀ c others) (env : Env) (parsed : Except ParseError Command) :
    Held m₀ (c.dispatch env parsed).2 others := by
  rcases parsed with e | command
  · exact h
  cases command with
  | helo domain => exact h.greet env domain false
  | ehlo domain => exact h.greet env domain true
  | mailFrom reversePath size requireTls => exact h.mailFrom env reversePath size requireTls
  | rcptTo forwardPath notify => exact h.rcptTo env forwardPath notify
  | bdat size last => exact h.bdat size last
  | rset => exact h.reset
  | noop | quit | vrfy => exact h
  | data =>
    rw [Context.dispatch, Context.apply, (data_spec c).1]
    exact h
  | startTls =>
    rw [Context.dispatch, Context.apply, (startTls_spec c).1]
    exact h
  | auth mechanism initial =>
    rw [Context.dispatch, Context.apply, Context.auth]
    split_ifs
    · exact h
    · exact h
    · split
      · exact h.saslRound env.sasl
      · exact h

lemma Held.countJunk {a : Action} (h : Held m₀ c others) (junk : Bool) :
    Held m₀ (Context.countJunk junk (a, c)).2 others := by
  have hcounted : ∀ count, Held m₀ { c with session.junk := count } others :=
    fun _ => h.of_same rfl rfl rfl rfl rfl
  rcases countJunk_cases junk a c with ⟨count, hc⟩ | ⟨count, hc⟩ <;> rw [hc]
  · exact hcounted count
  · exact (hcounted count).reset

def handedOut (c : Context) : Event → List Reservation
  | .takeDeliveryReservation => [c.session.deliveryReservation]
  | _ => []

lemma Held.step (h : Held m₀ c others) (env : Env) {event : Event}
    (hn : CountableCall c event) :
    Held m₀ (c.step env event).2 (c.handedOut event ++ others) := by
  cases event with
  | command parsed => exact (h.dispatch env parsed).countJunk _
  | unreadableCommand => exact h.countJunk false
  | authLine line =>
    have hresponse : Held m₀ (c.authResponse env line).2 others := by
      unfold authResponse
      split_ifs
      · exact h
      · exact h.saslRound env.sasl
    exact hresponse.countJunk true
  | dataLine line => exact h.dataLine env line (hn _ rfl)
  | reserveChunk bytes => exact h.reserveChunk (hn _ rfl)
  | refuseChunk => exact h.reset
  | bdatChunk data last => exact h.bdatChunk env data last hn
  | tlsStarted =>
    have hconnected : Held m₀ (c.setState .connected) others := h.setState rfl
    exact hconnected.of_same rfl rfl rfl rfl rfl
  | messageDelivered => exact h.of_same rfl rfl rfl rfl rfl
  | takeDeliveryReservation =>
    refine ⟨h.cap_pos, h.caps, ?_, h.body_client, h.chunk_client⟩
    refine perm (accounts_none_cons.2 h.accounts) ?_
    exact (perm_third ..).symm

lemma Held.dropSession (h : Held m₀ c others) : Accounts c.dropSession others :=
  h.accounts.drop.drop.drop

end Held

end Context

/-! ## All sessions -/

/-- The live sessions and the running deliveries of one server. -/
structure World where
  memory : MemoryBudget
  sessions : List Session
  /-- What the deliveries hold that the connection loops are waiting for. -/
  deliveries : List Reservation

/-- An event of one of the connections. -/
inductive WorldEvent
  | openSession (config : Session)
  | call (i : ℕ) (env : Env) (event : Event)
  | endSession (i : ℕ)
  | endDelivery (i : ℕ)

def Session.reservations (s : Session) : List Reservation :=
  [s.state.reserved, s.chunkReservation, s.deliveryReservation]

open Session

namespace World

/-- A server before its first connection. -/
def start (m : MemoryBudget) : World := ⟨{ m with usage := .empty }, [], []⟩

/-- One event. -/
def step (w : World) : WorldEvent → World
  | .openSession config =>
      let s := { config with
        state := .connected, chunkReservation := .none, deliveryReservation := .none }
      { w with sessions := s :: w.sessions }
  | .call i env event =>
      match w.sessions[i]? with
      | none => w
      | some s =>
          let c : Context := ⟨s, w.memory⟩
          let next := (c.step env event).2
          { memory := next.memory
            sessions := w.sessions.set i next.session
            deliveries := c.handedOut event ++ w.deliveries }
  | .endSession i =>
      match w.sessions[i]? with
      | none => w
      | some s =>
          { w with
            memory := Context.dropSession ⟨s, w.memory⟩
            sessions := w.sessions.eraseIdx i }
  | .endDelivery i =>
      match w.deliveries[i]? with
      | none => w
      | some r => { w with memory := r.drop w.memory, deliveries := w.deliveries.eraseIdx i }

/-- Events one after the other. -/
def run (w : World) (events : List WorldEvent) : World := events.foldl step w

/-- The reservations of all sessions and deliveries. -/
def live (w : World) : List Reservation :=
  w.sessions.flatMap reservations ++ w.deliveries

def CountableStep (w : World) : WorldEvent → Prop
  | .call i _ event => ∀ s, w.sessions[i]? = some s → Context.CountableCall ⟨s, w.memory⟩ event
  | _ => True

def CountableRun (w : World) : List WorldEvent → Prop
  | [] => True
  | e :: events => w.CountableStep e ∧ (w.step e).CountableRun events

/-- The books of all sessions. -/
structure Balanced (m₀ : MemoryBudget) (w : World) : Prop where
  cap_pos : 0 < m₀.cap
  caps : SameCaps m₀ w.memory
  accounts : Accounts w.memory w.live
  clients : ∀ s ∈ w.sessions,
    (s.state.reserved.attached = true → s.state.reserved.client = s.peerIp.map clientKey) ∧
    (s.chunkReservation.attached = true → s.chunkReservation.client = s.peerIp.map clientKey)

variable {w : World} {i : ℕ} {s : Session} {m₀ : MemoryBudget}

lemma live_perm (h : w.sessions[i]? = some s) :
    w.live.Perm (s.reservations ++
      ((w.sessions.eraseIdx i).flatMap reservations ++ w.deliveries)) := by
  obtain ⟨hi, rfl⟩ := List.getElem?_eq_some_iff.1 h
  have hperm := (getElem_cons_eraseIdx_perm hi).symm.flatMap_right reservations
  rw [live, ← append_assoc]
  exact hperm.append_right w.deliveries

lemma Balanced.held (h : Balanced m₀ w) (hs : w.sessions[i]? = some s) :
    Context.Held m₀ ⟨s, w.memory⟩
      ((w.sessions.eraseIdx i).flatMap reservations ++ w.deliveries) := by
  have hmem := mem_of_getElem? hs
  exact ⟨h.cap_pos, h.caps, h.accounts.perm (live_perm hs), (h.clients s hmem).1,
    (h.clients s hmem).2⟩

lemma set_live_perm (hs : w.sessions[i]? = some s) (m : MemoryBudget) (s' : Session)
    (out : List Reservation) :
    (s'.reservations ++ (out ++
      ((w.sessions.eraseIdx i).flatMap reservations ++ w.deliveries))).Perm
    (live ⟨m, w.sessions.set i s', out ++ w.deliveries⟩) := by
  obtain ⟨hi, -⟩ := List.getElem?_eq_some_iff.1 hs
  have hset := (set_perm_cons_eraseIdx hi s').symm.flatMap_right reservations
  calc s'.reservations ++ (out ++
        ((w.sessions.eraseIdx i).flatMap reservations ++ w.deliveries))
    _ |>.Perm (s'.reservations ++ ((w.sessions.eraseIdx i).flatMap reservations ++
        (out ++ w.deliveries))) := (perm_append_comm_assoc ..).append_left _
    _ |>.Perm ((w.sessions.set i s').flatMap reservations ++ (out ++ w.deliveries)) := by
        rw [← append_assoc]
        exact hset.append_right _

lemma step_balanced (h : Balanced m₀ w) {e : WorldEvent} (he : w.CountableStep e) :
    Balanced m₀ (w.step e) := by
  cases e with
  | openSession config =>
    refine ⟨h.cap_pos, h.caps, ?_, fun s hs => ?_⟩
    · exact accounts_none_cons.2 (accounts_none_cons.2 (accounts_none_cons.2 h.accounts))
    · rcases mem_cons.1 hs with rfl | hs
      · simp [State.reserved, Reservation.none]
      · exact h.clients s hs
  | call i env event =>
    unfold step
    dsimp only
    split
    · exact h
    · -- What a call hands over to a delivery leaves the session with it.
      rename_i s hs
      have hheld := (h.held hs).step env (he s hs)
      refine ⟨h.cap_pos, hheld.caps, hheld.accounts.perm (set_live_perm hs _ _ _),
        fun s' hs' => ?_⟩
      rcases mem_or_eq_of_mem_set hs' with hs' | rfl
      · exact h.clients s' hs'
      · exact ⟨hheld.body_client, hheld.chunk_client⟩
  | endSession i =>
    unfold step
    dsimp only
    split
    · exact h
    · rename_i s hs
      have hheld := h.held hs
      have hcaps : SameCaps w.memory (Context.dropSession ⟨s, w.memory⟩) :=
        ((drop_caps ..).trans (drop_caps ..)).trans (drop_caps ..)
      exact ⟨h.cap_pos, h.caps.trans hcaps, hheld.dropSession,
        fun s' hs' => h.clients s' (mem_of_mem_eraseIdx hs')⟩
  | endDelivery i =>
    unfold step
    dsimp only
    split
    · exact h
    · rename_i r hr
      obtain ⟨hi, rfl⟩ := List.getElem?_eq_some_iff.1 hr
      refine ⟨h.cap_pos, h.caps.trans (drop_caps ..), drop (h.accounts.perm ?_),
        h.clients⟩
      refine List.Perm.trans ?_ perm_middle
      exact (getElem_cons_eraseIdx_perm hi).symm.append_left _

lemma run_balanced (h : Balanced m₀ w) {events : List WorldEvent} (he : w.CountableRun events) :
    Balanced m₀ (w.run events) := by
  induction events generalizing w with
  | nil => exact h
  | cons e events ih => exact ih (step_balanced h he.1) he.2

lemma start_balanced {m : MemoryBudget} (h : 0 < m.cap) : Balanced m (start m) :=
  ⟨h, ⟨rfl, rfl⟩, ⟨Tallies.nil, Nat.zero_le _, fun _ => Nat.zero_le _, by simp [start, live]⟩,
    by simp [start]⟩

/-- The octets of all reservations. -/
def heldBytes (w : World) : ℕ := (w.live.map Reservation.bytes).sum

/-- The octets of the reservations of one client. -/
def heldBytesOf (w : World) (client : IpAddr) : ℕ :=
  ((w.live.filter (·.client = some client)).map Reservation.bytes).sum

lemma total_claims (rs : List Reservation) :
    total (rs.map Reservation.claim) = (rs.map Reservation.bytes).sum := by
  simp [total, Function.comp_def]

lemma totalFor_claims (client : IpAddr) (rs : List Reservation) :
    totalFor client (rs.map Reservation.claim) =
      ((rs.filter (·.client = some client)).map Reservation.bytes).sum := by
  rw [totalFor, filter_map, total_claims]
  rfl

/-- In every run that never charges nothing to a client that holds nothing, the counters are the
sums of the live reservations after every step: in total, and for each client, which has no
counter when it holds nothing. Neither the cap nor a client's share is passed, and nothing is
counted any more once every session and delivery has ended. -/
theorem counters_balanced (m : MemoryBudget) (hcap : 0 < m.cap) (events : List WorldEvent)
    (he : (start m).CountableRun events) :
    let w := (start m).run events
    w.memory.usage.used = w.heldBytes ∧
    (∀ client, w.memory.usage.perClient client =
      if w.heldBytesOf client = 0 then none else some (w.heldBytesOf client)) ∧
    w.memory.usage.used ≤ m.cap ∧
    (∀ client held, w.memory.usage.perClient client = some held → held ≤ m.clientShare) ∧
    (w.sessions = [] → w.deliveries = [] → w.memory.usage.used = 0) := by
  intro w
  have hw : Balanced m w := run_balanced (start_balanced hcap) he
  have hused : w.memory.usage.used = w.heldBytes := by
    rw [hw.accounts.tallies.sum_eq, total_claims]
    rfl
  refine ⟨hused, fun client => ?_, ?_, fun client held hheld => ?_, fun hs hd => ?_⟩
  · rw [hw.accounts.tallies.per_eq client, totalFor_claims]
    rfl
  · rw [← hw.caps.cap]
    exact hw.accounts.used_le
  · have hle := hw.accounts.held_le client
    rwa [MemoryBudget.held, hheld, Option.getD_some, hw.caps.clientShare] at hle
  · rw [hused, heldBytes, live, hs, hd]
    rfl

/-- One connection in the middle of its data. -/
def oneLine (peer : IpAddr) : List WorldEvent :=
  let call := WorldEvent.call 0 Env.permissive
  [.openSession { new "mx" with peerIp := some peer, memoryBudget := true },
    call (.command (.ok (.ehlo "client"))),
    call (.command (.ok (.mailFrom "" none false))),
    call (.command (.ok (.rcptTo "a@x" none))),
    call (.dataLine [97])]

/-- A line of one octet and its CRLF are counted while the session holds them. -/
theorem counters_one_line :
    let w := (start (.withCap 1000 (by decide))).run (oneLine (.v4 1))
    w.memory.usage.used = 3 ∧ w.memory.usage.used = w.heldBytes := by
  have hcommand : ∀ (w : World) (parsed : Except ParseError Command),
      w.CountableStep (.call 0 Env.permissive (.command parsed)) :=
    fun _ _ _ _ n hn => by cases hn
  have hline : ∀ w : World, w.memory.cap = 1000 →
      w.CountableStep (.call 0 Env.permissive (.dataLine [97])) := by
    intro w hcap s hs n hn hbudget
    cases hn
    refine ⟨fun _ _ => .inl (by decide), fun hmax => ?_⟩
    rw [hcap] at hmax
    exact absurd hmax (by decide)
  refine ⟨by decide, (counters_balanced (.withCap 1000 (by decide)) (by decide)
    (oneLine (.v4 1)) ?_).1⟩
  exact ⟨trivial, hcommand _ _, hcommand _ _, hcommand _ _, hline _ rfl, trivial⟩

def emptyChunk (peer : IpAddr) : List WorldEvent :=
  let call := WorldEvent.call 0 Env.permissive
  [.openSession { new "mx" with peerIp := some peer, memoryBudget := true },
    call (.command (.ok (.ehlo "client"))),
    call (.command (.ok (.mailFrom "" none false))),
    call (.command (.ok (.rcptTo "a@x" none))),
    call (.command (.ok (.bdat 0 true))),
    call (.reserveChunk 0),
    call (.bdatChunk [] true),
    call .takeDeliveryReservation,
    .endDelivery 0,
    .endSession 0]

/-- A counter at zero outlives the session and the delivery it was opened for. -/
theorem idle_counter_stays :
    let w := (start (.withCap 1000 (by decide))).run (emptyChunk (.v4 1))
    w.sessions = [] ∧ w.deliveries = [] ∧ w.memory.usage.perClient (.v4 1) = some 0 := by
  decide

end World

end Epistle.Smtp
