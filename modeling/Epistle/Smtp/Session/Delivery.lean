import Epistle.Smtp.Session.Machine

/-!
# What a session delivers

Whatever sequence of calls a session gets, a message it hands to delivery holds everything its
transaction received, for the recipients that transaction accepted. What was received is read
off the calls and their replies alone (`Received`), not off the session.

Lines past the size limit or the memory budget are dropped silently, and shorter lines may fit
again later. The session counts dropped octets too, and remembers a refused reservation, so
that `Fits` ties body and counters to what was received whenever a delivery is still possible.

* `deliver_exact`: the message and the recipients of every delivery, and when the recipients
  are not empty.
-/

namespace Epistle.Smtp

open Lib List

/-! ## Calls and what they show -/

/-- One call of the network layer. -/
inductive Event
  | command (parsed : Except ParseError Command)
  | unreadableCommand
  | authLine (line : String)
  | dataLine (line : List UInt8)
  | reserveChunk (bytes : ℕ)
  | refuseChunk
  | bdatChunk (data : List UInt8) (last : Bool)
  | tlsStarted
  | messageDelivered
  | takeDeliveryReservation

def Context.step (c : Context) (env : Env) : Event → Option Action × Context
  | .command parsed => let (a, c) := c.commandLine env parsed; (some a, c)
  | .unreadableCommand => let (a, c) := c.unreadableCommand; (some a, c)
  | .authLine line => let (a, c) := c.authLine env line; (some a, c)
  | .dataLine line => c.dataLine env line
  | .reserveChunk bytes => (none, (c.reserveChunk bytes).2)
  | .refuseChunk => let (a, c) := c.refuseChunk; (some a, c)
  | .bdatChunk data last => let (a, c) := c.bdatChunk env data last; (some a, c)
  | .tlsStarted => (none, c.tlsStarted)
  | .messageDelivered => (none, c.messageDelivered)
  | .takeDeliveryReservation => (none, c.takeDeliveryReservation.2)

/-- What a transaction has received, by the replies: the addresses `RCPT` accepted and the
content since the last accepted `MAIL FROM`. -/
structure Received where
  accepted : List String
  content : List UInt8
  deriving DecidableEq, Repr

def Received.step (g : Received) (env : Env) (action : Option Action) : Event → Received
  | .command (.ok (.mailFrom ..)) => if action = some (.continue .ok) then ⟨[], []⟩ else g
  | .command (.ok (.rcptTo forwardPath _)) =>
      if action = some (.continue .ok) then
        { g with accepted := g.accepted ++ (env.parseAddress forwardPath).toList }
      else g
  | .dataLine line =>
      if line = [dot] then g
      else { g with content := g.content ++ Context.unstuff line ++ crlf }
  | .bdatChunk data _ => { g with content := g.content ++ data }
  | _ => g

/-! ## The invariant -/

def State.Idle (s : State) : Prop := s = .connected ∨ s = .greeted

/-- A transfer agrees with what was received, and its body is complete unless the message can
no longer be delivered. -/
structure Transfer.Fits (t : Transfer) (max : ℕ) (g : Received) : Prop where
  recipients : t.recipients = g.accepted
  accepted_ne : g.accepted ≠ []
  size : t.size = g.content.length
  body : t.size ≤ max → t.budgetExhausted = false → t.body = g.content

def State.Fits (s : State) (max : ℕ) (g : Received) : Prop :=
  match s with
  | .receivingRecipients .. => g = ⟨[], []⟩
  | .receivingData t => t.Fits max g
  | _ => True

lemma State.Idle.fits {s : State} (h : s.Idle) (max : ℕ) (g : Received) : s.Fits max g := by
  rcases h with rfl | rfl <;> trivial

open Session

def fullRecipients (quota : Bool) (env : Env) (recipients : List String) (size : ℕ) :
    List String :=
  if quota then overflowing env recipients size else []

/-- A delivery agrees with what was received: the whole content, and the accepted recipients
that are not over quota, of which there were fewer. -/
structure Received.Delivered (g : Received) (quota : Bool) (env : Env) (m : AcceptedMessage) :
    Prop where
  data : m.data = g.content
  recipients : m.recipients =
    g.accepted.filter (· ∉ fullRecipients quota env g.accepted g.content.length)
  accepted_ne : g.accepted ≠ []
  some_fit : fullRecipients quota env g.accepted g.content.length = [] ∨
    (fullRecipients quota env g.accepted g.content.length).length ≠ g.accepted.length

namespace Context

lemma reset_idle (c : Context) : c.reset.session.state.Idle := by
  unfold reset
  dsimp only
  split
  · exact .inl ‹_›
  · exact .inr rfl

/-- What never changes while a session lives. -/
structure SameLimits (s s' : Session) : Prop where
  maxMessageSize : s'.maxMessageSize = s.maxMessageSize
  quota : s'.quota = s.quota

lemma SameLimits.trans {s₁ s₂ s₃ : Session} (h₁ : SameLimits s₁ s₂) (h₂ : SameLimits s₂ s₃) :
    SameLimits s₁ s₃ :=
  ⟨h₂.1.trans h₁.1, h₂.2.trans h₁.2⟩

lemma reset_sameLimits (c : Context) : SameLimits c.session c.reset.session := by
  unfold reset
  dsimp only
  split <;> exact ⟨rfl, rfl⟩

/-- What a call has to keep: the session still agrees with what was received, and a delivery
agrees with it too. -/
structure Good (s : Session) (env : Env) (g : Received) (result : Option Action × Context) :
    Prop where
  limits : SameLimits s result.2.session
  fits : result.2.session.state.Fits s.maxMessageSize g
  delivered : ∀ reply m, result.1 = some (.deliver reply m) → g.Delivered s.quota env m

variable {s : Session} {env : Env} {g : Received} {c : Context}

lemma Good.of_sameLimits {s' : Session} {result : Option Action × Context}
    (h : Good s' env g result) (hs : SameLimits s s') :
    Good s env g result :=
  ⟨hs.trans h.limits, hs.1 ▸ h.fits, fun reply m hm => hs.2 ▸ h.delivered reply m hm⟩

lemma good_of_idle {a : Option Action} (hidle : c.session.state.Idle)
    (hs : SameLimits s c.session) (ha : ∀ reply m, a ≠ some (.deliver reply m)) :
    Good s env g (a, c) :=
  ⟨hs, hidle.fits _ _, fun reply m h => absurd h (ha reply m)⟩

/-! ## The end of a transfer -/

lemma checkMessage_ok {m : AcceptedMessage} {size : ℕ} {exhausted : Bool} {charge : Option ℕ}
    (h : s.checkMessage env m size exhausted = .ok charge) :
    exhausted = false ∧ size ≤ s.maxMessageSize := by
  unfold checkMessage at h
  cases exhausted with
  | true => cases h
  | false =>
    refine ⟨rfl, Nat.le_of_not_lt fun hsize => ?_⟩
    simp [hsize, bind, Except.bind, throw, throwThe, MonadExceptOf.throw] at h

lemma splitOverQuota_some {s' : Session} {message m : AcceptedMessage} {size : ℕ}
    (h : s.splitOverQuota env message size = some (m, s')) :
    (∃ reports, s' = { s with quotaReports := reports }) ∧ m.data = message.data ∧
      m.recipients =
        message.recipients.filter (· ∉ fullRecipients s.quota env message.recipients size) ∧
      (fullRecipients s.quota env message.recipients size = [] ∨
        (fullRecipients s.quota env message.recipients size).length ≠
          message.recipients.length) := by
  unfold splitOverQuota at h
  unfold fullRecipients
  split_ifs at h ⊢ with hquota
  · unfold excludeOverQuota at h
    split_ifs at h with hnil hlen
    · cases h
      exact ⟨⟨_, rfl⟩, rfl, by simp [hnil], .inl hnil⟩
    · cases h
      exact ⟨⟨_, rfl⟩, rfl, rfl, .inr hlen⟩
  · cases h
    exact ⟨⟨_, rfl⟩, rfl, by simp, .inl rfl⟩

lemma innerFinalise_good (c : Context) {t : Transfer}
    (hfits : t.Fits c.session.maxMessageSize g) (hidle : c.session.state.Idle) (r : Reservation) :
    Good c.session env g
      (some (c.innerFinalise env t.message t.size t.budgetExhausted r).1,
        (c.innerFinalise env t.message t.size t.budgetExhausted r).2) := by
  unfold innerFinalise
  cases hcheck : c.session.checkMessage env t.message t.size t.budgetExhausted with
  | error reply => exact good_of_idle hidle ⟨rfl, rfl⟩ (by simp)
  | ok charge =>
    obtain ⟨hexhausted, hsize⟩ := checkMessage_ok hcheck
    have hbody : t.message.data = g.content := hfits.body hsize hexhausted
    have hrcpt : t.message.recipients = g.accepted := hfits.recipients
    rcases hsplit : c.session.splitOverQuota env t.message t.size with _ | ⟨m, s⟩
    · exact good_of_idle hidle ⟨rfl, rfl⟩ (by simp)
    · obtain ⟨⟨reports, rfl⟩, hdata, hrecipients, hfit⟩ := splitOverQuota_some hsplit
      rw [hrcpt, hfits.size] at hrecipients hfit
      refine ⟨⟨rfl, rfl⟩, hidle.fits _ _, fun reply m' hm => ?_⟩
      · cases hm
        exact ⟨hdata.trans hbody, hrecipients, hfits.accepted_ne, hfit⟩

/-! ## Data lines -/

lemma takeLine_fits {t : Transfer} (content : List UInt8)
    (h : t.Fits c.session.maxMessageSize g) :
    SameLimits c.session (c.takeLine t content).session ∧
      (c.takeLine t content).session.state.Fits c.session.maxMessageSize
        { g with content := g.content ++ content ++ crlf } := by
  have hsize : t.size + (content.length + 2) = (g.content ++ content ++ crlf).length := by
    simp [h.size]
  -- The old body is complete, because the counter was no larger then.
  have hbody : ¬ t.size + (content.length + 2) > c.session.maxMessageSize →
      t.budgetExhausted = false → t.body ++ content ++ crlf = g.content ++ content ++ crlf := by
    intro hfit hex
    rw [h.body (by omega) hex]
  unfold takeLine
  dsimp only
  split_ifs with hover hbudget
  · refine ⟨⟨rfl, rfl⟩, h.recipients, h.accepted_ne, hsize, fun hle => ?_⟩
    exact absurd hle (Nat.not_le_of_lt hover)
  · split
    · exact ⟨⟨rfl, rfl⟩, h.recipients, h.accepted_ne, hsize, fun _ hex => by cases hex⟩
    · exact ⟨⟨rfl, rfl⟩, h.recipients, h.accepted_ne, hsize, fun _ hex => hbody hover hex⟩
  · exact ⟨⟨rfl, rfl⟩, h.recipients, h.accepted_ne, hsize, fun _ hex => hbody hover hex⟩

lemma dataLine_good (line : List UInt8) (h : c.session.state.Fits c.session.maxMessageSize g) :
    Good c.session env (g.step env (c.dataLine env line).1 (.dataLine line))
      (c.dataLine env line) := by
  by_cases hdot : line = [dot]
  · -- The final dot adds no content and ends the transfer.
    have hg : g.step env (c.dataLine env line).1 (.dataLine line) = g := if_pos hdot
    rw [hg, dataLine, if_pos hdot, finaliseFromState]
    cases hs : c.session.state with
    | receivingData t =>
      rw [hs] at h
      exact (innerFinalise_good c.takeState h (.inr rfl) t.reserved).of_sameLimits ⟨rfl, rfl⟩
    | _ => exact good_of_idle (.inr rfl) ⟨rfl, rfl⟩ (by simp)
  · have hg : g.step env (c.dataLine env line).1 (.dataLine line) =
        { g with content := g.content ++ unstuff line ++ crlf } := if_neg hdot
    rw [hg, dataLine, if_neg hdot]
    cases hs : c.session.state with
    | receivingData t =>
      rw [hs] at h
      obtain ⟨hlimits, hfits⟩ := takeLine_fits (unstuff line) h
      exact ⟨hlimits, hfits, by simp⟩
    | _ => exact good_of_idle c.reset_idle c.reset_sameLimits (by simp)

/-! ## Chunks -/

lemma reserveChunk_session (c : Context) (n : ℕ) :
    ∃ r, (c.reserveChunk n).2.session = { c.session with chunkReservation := r } := by
  unfold reserveChunk
  split_ifs
  · split
    · exact ⟨c.session.chunkReservation, rfl⟩
    · exact ⟨_, rfl⟩
  · exact ⟨c.session.chunkReservation, rfl⟩

lemma chargeRest_session (c : Context) (n : ℕ) :
    ∃ r, (c.chargeRest n).2.session = { c.session with chunkReservation := r } := by
  unfold chargeRest
  dsimp only
  split_ifs
  · exact reserveChunk_session c _
  · exact ⟨c.session.chunkReservation, rfl⟩

lemma takeChunk_good (data : List UInt8) (last : Bool) (chunk : Reservation)
    (h : c.session.state.Fits c.session.maxMessageSize g) :
    Good c.session env { g with content := g.content ++ data }
      (some (c.takeChunk env data last chunk).1, (c.takeChunk env data last chunk).2) := by
  have hreset : ∀ r : Reservation, SameLimits c.session (c.reset.release r).session :=
    fun _ => c.reset_sameLimits
  unfold takeChunk
  cases hs : c.session.state with
  | receivingData t =>
    rw [hs] at h
    dsimp only
    split
    · exact good_of_idle c.reset_idle (hreset _) (by simp)
    · rename_i check hframe
      -- The transfer with the chunk in its body.
      set t' : Transfer := { t with
        chunking := true, lineCheck := check, size := t.size + data.length
        body := t.body ++ data, reserved := t.reserved.absorb chunk } with ht'
      have hfits : ¬ t.size + data.length > c.session.maxMessageSize →
          t'.Fits c.session.maxMessageSize { g with content := g.content ++ data } := by
        intro hfit
        refine ⟨h.recipients, h.accepted_ne, by simp [ht', h.size], fun _ hex => ?_⟩
        have hbody := h.body (by omega) hex
        simp [ht', hbody]
      split_ifs with hover hlast
      · have hlimits := reset_sameLimits (c.putTransfer
          { t with chunking := true, lineCheck := check, size := t.size + data.length })
        exact good_of_idle (reset_idle _) ⟨hlimits.1, hlimits.2⟩ (by simp)
      · exact (innerFinalise_good (c.putTransfer t').takeState (hfits hover) (.inr rfl)
          t'.reserved).of_sameLimits ⟨rfl, rfl⟩
      · exact ⟨⟨rfl, rfl⟩, hfits hover, by simp⟩
  | _ => exact good_of_idle c.reset_idle (hreset _) (by simp)

lemma bdatChunk_good (data : List UInt8) (last : Bool)
    (h : c.session.state.Fits c.session.maxMessageSize g) :
    Good c.session env { g with content := g.content ++ data }
      (some (c.bdatChunk env data last).1, (c.bdatChunk env data last).2) := by
  obtain ⟨r, hr⟩ := c.chargeRest_session data.length
  unfold bdatChunk
  rcases hcharge : c.chargeRest data.length with ⟨room, c₁⟩
  rw [hcharge] at hr
  dsimp only at hr ⊢
  have hlimits : SameLimits c.session c₁.session := by
    rw [hr]
    exact ⟨rfl, rfl⟩
  split_ifs
  · have hfits : c₁.takeChunkReservation.session.state.Fits
        c₁.takeChunkReservation.session.maxMessageSize g := by
      simpa [takeChunkReservation, hr] using h
    exact (takeChunk_good data last c₁.session.chunkReservation hfits).of_sameLimits
      ⟨hlimits.1, hlimits.2⟩
  · exact good_of_idle c₁.reset_idle (hlimits.trans c₁.reset_sameLimits) (by simp [refuseChunk])

/-! ## Commands -/

lemma good_of_quiet {c' : Context} {a : Option Action}
    (h : c.session.state.Fits c.session.maxMessageSize g)
    (hstate : c'.session.state = c.session.state) (hs : SameLimits c.session c'.session)
    (ha : ∀ reply m, a ≠ some (.deliver reply m)) : Good c.session env g (a, c') :=
  ⟨hs, hstate ▸ h, fun reply m hm => absurd hm (ha reply m)⟩

lemma greet_good (domain : String) (esmtp : Bool) :
    Good c.session env g (some (c.greet env domain esmtp).1, (c.greet env domain esmtp).2) := by
  unfold greet
  dsimp only
  split_ifs <;> exact good_of_idle (.inr rfl) ⟨rfl, rfl⟩ (by simp)

lemma mailFrom_cases (c : Context) (env : Env) (reversePath : String) (size : Option ℕ)
    (requireTls : Bool) :
    c.mailFrom env reversePath size requireTls = (.continue .badSequence, c) ∨
    c.session.state = .greeted ∧
      ((∃ reply, c.mailFrom env reversePath size requireTls = (.continue reply, c)) ∨
        c.mailFrom env reversePath size requireTls =
          (.continue .ok, c.setState (.receivingRecipients reversePath requireTls))) := by
  unfold mailFrom
  cases hs : c.session.state with
  | greeted =>
    refine .inr ⟨rfl, ?_⟩
    dsimp only
    cases checkMail c.session env reversePath size requireTls with
    | some reply => exact .inl ⟨reply, rfl⟩
    | none => exact .inr rfl
  | _ => exact .inl rfl

lemma mailFrom_good (reversePath : String) (size : Option ℕ) (requireTls : Bool)
    (h : c.session.state.Fits c.session.maxMessageSize g) :
    Good c.session env
      (g.step env (some (c.mailFrom env reversePath size requireTls).1)
        (.command (.ok (.mailFrom reversePath size requireTls))))
      (some (c.mailFrom env reversePath size requireTls).1,
        (c.mailFrom env reversePath size requireTls).2) := by
  rcases mailFrom_cases c env reversePath size requireTls with hm | ⟨hs, ⟨reply, hm⟩ | hm⟩
  · rw [hm, Received.step, if_neg (by simpa using Reply.badSequence_ne_ok)]
    exact good_of_quiet h rfl ⟨rfl, rfl⟩ (by simp)
  · rw [hm]
    exact good_of_idle (.inr hs) ⟨rfl, rfl⟩ (by simp)
  · rw [hm, Received.step, if_pos rfl]
    exact ⟨⟨rfl, rfl⟩, rfl, by simp⟩

lemma checkRecipient_error {forwardPath : String} {reply : Reply}
    (h : checkRecipient s env forwardPath = .error reply) : reply ≠ .ok := by
  unfold checkRecipient at h
  split at h
  · cases h
    decide
  · split at h
    · split_ifs at h
      cases h
      decide
    · cases h
      decide
    · split_ifs at h
      cases h
      decide
    · cases h

lemma checkRecipient_ok {forwardPath address : String}
    (h : checkRecipient s env forwardPath = .ok address) :
    env.parseAddress forwardPath = some address := by
  unfold checkRecipient at h
  split at h
  · cases h
  · rename_i a ha
    rw [ha]
    split at h
    · split_ifs at h
      cases h
      rfl
    · cases h
    · split_ifs at h
      cases h
      rfl
    · cases h
      rfl

lemma rcptTo_cases (c : Context) (env : Env) (forwardPath : String) (notify : Option Notify) :
    (∃ reply, reply ≠ .ok ∧ c.rcptTo env forwardPath notify = (.continue reply, c)) ∨
    ∃ address, env.parseAddress forwardPath = some address ∧
      ((∃ reversePath requireTls noDsn,
          c.session.state = .receivingRecipients reversePath requireTls ∧
          c.rcptTo env forwardPath notify = (.continue .ok, c.setState (.receivingData
            ⟨reversePath, [address], noDsn, 0, [], requireTls, false, .stored, .none, false⟩))) ∨
        ∃ t noDsn, c.session.state = .receivingData t ∧
          c.rcptTo env forwardPath notify = (.continue .ok, c.putTransfer
            { t with recipients := t.recipients ++ [address], noDsn })) := by
  unfold rcptTo
  by_cases hopen : (!recipientsOpen c.session.state) = true
  · rw [if_pos hopen]
    exact .inl ⟨.badSequence, by decide, rfl⟩
  rw [if_neg hopen]
  cases hcheck : checkRecipient c.session env forwardPath with
  | error reply => exact .inl ⟨reply, checkRecipient_error hcheck, rfl⟩
  | ok address =>
    cases hs : c.session.state with
    | receivingRecipients reversePath requireTls =>
      exact .inr ⟨address, checkRecipient_ok hcheck, .inl ⟨reversePath, requireTls, _, rfl, rfl⟩⟩
    | receivingData t =>
      dsimp only
      by_cases hmany : t.recipients.length ≥ c.session.maxRecipients
      · exact .inl ⟨.single 452 "4.5.3 too many recipients", by decide, if_pos hmany⟩
      · rw [if_neg hmany]
        exact .inr ⟨address, checkRecipient_ok hcheck, .inr ⟨t, _, rfl, rfl⟩⟩
    | _ => exact .inl ⟨.badSequence, by decide, rfl⟩

lemma rcptTo_good (forwardPath : String) (notify : Option Notify)
    (h : c.session.state.Fits c.session.maxMessageSize g) :
    Good c.session env
      (g.step env (some (c.rcptTo env forwardPath notify).1)
        (.command (.ok (.rcptTo forwardPath notify))))
      (some (c.rcptTo env forwardPath notify).1, (c.rcptTo env forwardPath notify).2) := by
  rcases rcptTo_cases c env forwardPath notify with
    ⟨reply, hreply, hr⟩ | ⟨address, hparse, ⟨reversePath, requireTls, noDsn, hs, hr⟩ |
      ⟨t, noDsn, hs, hr⟩⟩
  · rw [hr, Received.step, if_neg (by simpa using hreply)]
    exact good_of_quiet h rfl ⟨rfl, rfl⟩ (by simp)
  · rw [hs] at h
    rw [hr, Received.step, if_pos rfl, hparse, show g = ⟨[], []⟩ from h]
    exact ⟨⟨rfl, rfl⟩, ⟨rfl, by simp, rfl, fun _ _ => rfl⟩, by simp⟩
  · rw [hs] at h
    rw [hr, Received.step, if_pos rfl, hparse]
    refine ⟨⟨rfl, rfl⟩, ⟨?_, by simp, h.size, h.body⟩, by simp⟩
    rw [h.recipients]
    rfl

lemma bdat_good (size : ℕ) (last : Bool) (h : c.session.state.Fits c.session.maxMessageSize g) :
    Good c.session env g (some (c.bdat size last).1, (c.bdat size last).2) := by
  unfold bdat
  split_ifs
  · exact good_of_idle c.reset_idle c.reset_sameLimits (by simp)
  · cases hs : c.session.state with
    | receivingData t => exact good_of_quiet h rfl ⟨rfl, rfl⟩ (by simp)
    | _ => exact good_of_idle c.reset_idle c.reset_sameLimits (by simp)

lemma saslRound_good (o : SaslOutcome) (h : c.session.state.Fits c.session.maxMessageSize g) :
    Good c.session env g (some (c.saslRound o).1, (c.saslRound o).2) := by
  rcases o with ⟨reply, _ | account⟩ | reply | reply <;>
    exact good_of_quiet h rfl ⟨rfl, rfl⟩ (by simp [saslRound])

lemma authResponse_good (line : String) (h : c.session.state.Fits c.session.maxMessageSize g) :
    Good c.session env g (some (c.authResponse env line).1, (c.authResponse env line).2) := by
  unfold authResponse
  split_ifs
  · exact good_of_quiet h rfl ⟨rfl, rfl⟩ (by simp)
  · exact saslRound_good env.sasl h

lemma data_spec (c : Context) : c.data.2 = c ∧ ∀ reply m, c.data.1 ≠ .deliver reply m := by
  unfold data
  split
  · split_ifs <;> exact ⟨rfl, by simp⟩
  · exact ⟨rfl, by simp⟩

lemma startTls_spec (c : Context) :
    c.startTls.2 = c ∧ ∀ reply m, c.startTls.1 ≠ .deliver reply m := by
  unfold startTls
  split_ifs
  · exact ⟨rfl, by simp⟩
  · split <;> exact ⟨rfl, by simp⟩

lemma dispatch_good (parsed : Except ParseError Command)
    (h : c.session.state.Fits c.session.maxMessageSize g) :
    Good c.session env (g.step env (some (c.dispatch env parsed).1) (.command parsed))
      (some (c.dispatch env parsed).1, (c.dispatch env parsed).2) := by
  have quiet : ∀ a : Action, (∀ reply m, a ≠ .deliver reply m) →
      Good c.session env g (some a, c) :=
    fun a ha => good_of_quiet h rfl ⟨rfl, rfl⟩ (by simpa using ha)
  rcases parsed with e | command
  · exact quiet _ (by simp [dispatch])
  cases command with
  | helo domain => exact greet_good domain false
  | ehlo domain => exact greet_good domain true
  | mailFrom reversePath size requireTls => exact mailFrom_good reversePath size requireTls h
  | rcptTo forwardPath notify => exact rcptTo_good forwardPath notify h
  | data =>
    rw [dispatch, apply, (data_spec c).1]
    exact quiet _ (data_spec c).2
  | bdat size last => exact bdat_good size last h
  | rset => exact good_of_idle c.reset_idle c.reset_sameLimits (by simp [dispatch, apply])
  | noop | quit | vrfy => exact quiet _ (by simp [dispatch, apply])
  | startTls =>
    rw [dispatch, apply, (startTls_spec c).1]
    exact quiet _ (startTls_spec c).2
  | auth mechanism initial =>
    rw [dispatch, apply, auth]
    split_ifs
    · exact quiet _ (by simp)
    · exact quiet _ (by simp)
    · split
      · exact saslRound_good env.sasl h
      · exact quiet _ (by simp)

lemma countJunk_cases (junk : Bool) (a : Action) (c : Context) :
    (∃ count, countJunk junk (a, c) = (a, { c with session.junk := count })) ∨
    ∃ count, countJunk junk (a, c) =
      (.close (.single 421 "4.7.0 too many commands without progress, closing connection"),
        ({ c with session.junk := count } : Context).reset) := by
  unfold countJunk
  dsimp only
  split_ifs
  · exact .inr ⟨_, rfl⟩
  · exact .inl ⟨_, rfl⟩

lemma countJunk_good {event : Event} {a : Action} (junk : Bool)
    (h : Good s env (g.step env (some a) event) (some a, c)) :
    Good s env (g.step env (some (countJunk junk (a, c)).1) event)
      (some (countJunk junk (a, c)).1, (countJunk junk (a, c)).2) := by
  rcases countJunk_cases junk a c with ⟨count, hc⟩ | ⟨count, hc⟩
  · rw [hc]
    exact ⟨⟨h.limits.1, h.limits.2⟩, h.fits, h.delivered⟩
  · rw [hc]
    have hlimits := reset_sameLimits { c with session.junk := count }
    exact good_of_idle (reset_idle _) (h.limits.trans ⟨hlimits.1, hlimits.2⟩) (by simp)

lemma step_good (event : Event) (h : c.session.state.Fits c.session.maxMessageSize g) :
    Good c.session env (g.step env (c.step env event).1 event) (c.step env event) := by
  cases event with
  | command parsed => exact countJunk_good _ (dispatch_good parsed h)
  | unreadableCommand =>
    exact countJunk_good false (good_of_quiet h rfl ⟨rfl, rfl⟩ (by simp))
  | authLine line => exact countJunk_good true (authResponse_good line h)
  | dataLine line => exact dataLine_good line h
  | reserveChunk bytes =>
    obtain ⟨r, hr⟩ := c.reserveChunk_session bytes
    have hstate : (c.reserveChunk bytes).2.session.state = c.session.state := by rw [hr]
    have hlimits : SameLimits c.session (c.reserveChunk bytes).2.session := by
      rw [hr]
      exact ⟨rfl, rfl⟩
    exact good_of_quiet h hstate hlimits (by simp)
  | refuseChunk => exact good_of_idle c.reset_idle c.reset_sameLimits (by simp)
  | bdatChunk data last => exact bdatChunk_good data last h
  | tlsStarted => exact good_of_idle (.inl rfl) ⟨rfl, rfl⟩ (by simp)
  | messageDelivered | takeDeliveryReservation => exact good_of_quiet h rfl ⟨rfl, rfl⟩ (by simp)

end Context

/-! ## Runs -/

/-- One call of a run. -/
structure Input where
  env : Env
  memory : MemoryBudget
  event : Event

/-- A session with what its replies have shown. -/
structure Observed where
  session : Session
  received : Received

namespace Observed

/-- A session before its first event. -/
def start (s : Session) : Observed := ⟨{ s with state := .connected }, ⟨[], []⟩⟩

/-- One event of a session. -/
def step (o : Observed) (i : Input) : Option Action × Observed :=
  let (action, c) := Context.step ⟨o.session, i.memory⟩ i.env i.event
  (action, ⟨c.session, o.received.step i.env action i.event⟩)

/-- Events one after the other. -/
def run (o : Observed) (inputs : List Input) : Observed := inputs.foldl (fun o i => (o.step i).2) o

/-- The invariant of a run. -/
structure Fits (s : Session) (o : Observed) : Prop where
  limits : Context.SameLimits s o.session
  fits : o.session.state.Fits s.maxMessageSize o.received

lemma step_fits {s : Session} {o : Observed} (h : Fits s o) (i : Input) :
    Fits s (o.step i).2 ∧ ∀ reply m, (o.step i).1 = some (.deliver reply m) →
      (o.step i).2.received.Delivered s.quota i.env m := by
  have hfits : o.session.state.Fits o.session.maxMessageSize o.received := by
    rw [h.limits.1]
    exact h.fits
  have hgood := (Context.step_good i.event hfits : Context.Good _ i.env _
    (Context.step ⟨o.session, i.memory⟩ i.env i.event)).of_sameLimits h.limits
  exact ⟨⟨hgood.limits, hgood.fits⟩, hgood.delivered⟩

lemma run_fits {s : Session} {o : Observed} (h : Fits s o) (inputs : List Input) :
    Fits s (o.run inputs) := by
  induction inputs generalizing o with
  | nil => exact h
  | cons i inputs ih => exact ih (step_fits h i).1

lemma start_fits (s : Session) : Fits s (start s) := ⟨⟨rfl, rfl⟩, trivial⟩

end Observed

/-! ## The recipients of a delivery -/

def SteadyQuota (env : Env) (recipients : List String) (size : ℕ) : Prop :=
  ∀ r i j, (r, i) ∈ recipients.zipIdx → (r, j) ∈ recipients.zipIdx →
    overQuota env size i r = overQuota env size j r

lemma steadyQuota_of_nodup {recipients : List String} (h : recipients.Nodup) (env : Env)
    (size : ℕ) : SteadyQuota env recipients size := by
  intro r i j hi hj
  rw [mk_mem_zipIdx_iff_getElem?] at hi hj
  obtain ⟨hlt, -⟩ := List.getElem?_eq_some_iff.1 hi
  rw [(List.getElem?_inj hlt h).1 (hi.trans hj.symm)]

lemma exists_not_overflowing {env : Env} {recipients : List String} {size : ℕ}
    (hsteady : SteadyQuota env recipients size)
    (hlen : (overflowing env recipients size).length ≠ recipients.length) :
    ∃ r ∈ recipients, r ∉ overflowing env recipients size := by
  -- Some place is not over quota, or the list of the full ones would be as long.
  obtain ⟨⟨r, i⟩, hmem, hfit⟩ : ∃ p ∈ recipients.zipIdx,
      ¬ overQuota env size p.2 p.1 = true := by
    by_contra hall
    push Not at hall
    apply hlen
    rw [overflowing, length_map, filter_eq_self.2 (fun p hp => hall p hp),
      length_zipIdx]
  refine ⟨r, fst_mem_of_mem_zipIdx hmem, fun hfull => hfit ?_⟩
  obtain ⟨⟨r', j⟩, hj, rfl⟩ := List.mem_map.1 hfull
  obtain ⟨hj, hover⟩ := mem_filter.1 hj
  rw [hsteady r' i j hmem hj]
  exact hover

open Observed

/-- Whatever calls a session has had, with whatever room the budget had at each, a message it
delivers holds all the content received since `MAIL FROM`, for the accepted recipients that are
not over quota. There is such a recipient if, at this call, no recipient named twice was judged
over quota by one reading and within it by the other. -/
theorem deliver_exact (s : Session) (inputs : List Input) (i : Input) (reply : Reply)
    (m : AcceptedMessage)
    (h : (((start s).run inputs).step i).1 = some (.deliver reply m)) :
    let g := (((start s).run inputs).step i).2.received
    m.data = g.content ∧
    m.recipients =
      g.accepted.filter (· ∉ fullRecipients s.quota i.env g.accepted g.content.length) ∧
    (SteadyQuota i.env g.accepted g.content.length → m.recipients ≠ []) := by
  intro g
  have hdel : g.Delivered s.quota i.env m :=
    (step_fits (run_fits (start_fits s) inputs) i).2 reply m h
  refine ⟨hdel.data, hdel.recipients, fun hsteady => ?_⟩
  obtain ⟨r, hr, hfit⟩ : ∃ r ∈ g.accepted,
      r ∉ fullRecipients s.quota i.env g.accepted g.content.length := by
    rcases hdel.some_fit with hnil | hlen
    · obtain ⟨r, hr⟩ := exists_mem_of_ne_nil _ hdel.accepted_ne
      exact ⟨r, hr, by simp [hnil]⟩
    · unfold fullRecipients at hlen ⊢
      split_ifs at hlen ⊢
      · exact exists_not_overflowing hsteady hlen
      · obtain ⟨r, hr⟩ := exists_mem_of_ne_nil _ hdel.accepted_ne
        exact ⟨r, hr, by simp⟩
  rw [hdel.recipients]
  exact ne_nil_of_mem (mem_filter.2 ⟨hr, by simpa using hfit⟩)

/-- A mailbox of 100 octets that another session fills between two readings. -/
def fillingEnv : Env :=
  { Env.permissive with
    quotaLimit := fun _ => some 100
    usage := fun i _ => if i = 0 then 0 else 100 }

def transaction (env : Env) (rcpts : List String) (lines : List (List UInt8)) : List Input :=
  let input := Input.mk env (.withCap 0 (by decide))
  [input (.command (.ok (.ehlo "client"))),
    input (.command (.ok (.mailFrom "" none false)))] ++
  rcpts.map (fun rcpt => input (.command (.ok (.rcptTo rcpt none)))) ++
  [input (.command (.ok .data))] ++ lines.map fun line => input (.dataLine line)

/-- One recipient, named twice, whose mailbox fills up between the two readings at the end of
the data: the message goes out to nobody. -/
theorem deliver_to_nobody :
    (((start { new "mx" with quota := true }).run
        (transaction fillingEnv ["a@x", "a@x"] [[]])).step
      ⟨fillingEnv, .withCap 0 (by decide), .dataLine [dot]⟩).1 =
    some (.deliver .ok ⟨"", [], [13, 10], false, []⟩) := by
  decide

/-- With one reading per recipient the same transaction keeps its recipient. -/
theorem deliver_to_single :
    (((start { new "mx" with quota := true }).run
        (transaction fillingEnv ["a@x"] [[]])).step
      ⟨fillingEnv, .withCap 0 (by decide), .dataLine [dot]⟩).1 =
      some (.deliver .ok ⟨"", ["a@x"], [13, 10], false, []⟩) ∧
    ["a@x"] ≠ [] := by
  have h : (((start { new "mx" with quota := true }).run
      (transaction fillingEnv ["a@x"] [[]])).step
      ⟨fillingEnv, .withCap 0 (by decide), .dataLine [dot]⟩).1 =
      some (.deliver .ok ⟨"", ["a@x"], [13, 10], false, []⟩) := by decide
  exact ⟨h, (deliver_exact _ _ _ _ _ h).2.2 (steadyQuota_of_nodup (by decide) _ _)⟩

end Epistle.Smtp
