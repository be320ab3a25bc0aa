import Epistle.Queue.Client
import Epistle.Smtp.Line.Framing
import Epistle.Smtp.Session.Delivery

/-!
# The DATA phase, from wire to message

The network layer decodes lines and gives each to `data_line`, until one of them answers. Other
sessions draw on the memory budget meanwhile, so every line may find another budget.

* `data_round_trip`: what the delivery client writes is received as the message it was given.
-/

namespace Epistle.Smtp

open Lib Queue List

open Context

/-- Hand lines to `data_line` until it answers: the action, the session and the lines not handed
over. -/
def Session.collectData (env : Env) (mem : ℕ → MemoryBudget) :
    ℕ → Session → List (List UInt8) → Option Action × Session × List (List UInt8)
  | _, s, [] => (none, s, [])
  | i, s, line :: rest =>
      match dataLine ⟨s, mem i⟩ env line with
      | (some action, next) => (some action, next.session, rest)
      | (none, next) => collectData env mem (i + 1) next.session rest

/-- The memory budget has room for so many octets. -/
def HasRoom (s : Session) (memory : MemoryBudget) (n : ℕ) : Prop :=
  s.memoryBudget = true →
    ∀ bytes ≤ n, ∃ next, memory.tryReserveFor (s.peerIp.map clientKey) bytes = .ok next

/-- The budget has room for each part of a message when it arrives, from part `i` on. -/
def RoomFor (s : Session) (mem : ℕ → MemoryBudget) (i : ℕ) (sizes : List ℕ) : Prop :=
  ∀ j n, sizes[j]? = some n → HasRoom s (mem (i + j)) n

lemma RoomFor.cons {s : Session} {mem : ℕ → MemoryBudget} {i n : ℕ} {sizes : List ℕ}
    (h : RoomFor s mem i (n :: sizes)) : HasRoom s (mem i) n ∧ RoomFor s mem (i + 1) sizes := by
  refine ⟨h 0 n rfl, fun j k hk => ?_⟩
  rw [Nat.add_assoc, Nat.add_comm 1]
  exact h (j + 1) k hk

/-- A transfer that has received nothing. -/
structure Transfer.Fresh (t : Transfer) : Prop where
  size : t.size = 0
  body : t.body = []
  admitted : t.budgetExhausted = false

def Transfer.hold (t : Transfer) (body : List UInt8) (reserved : Reservation) : Transfer :=
  { t with size := body.length, body, reserved }

def Session.holding (s : Session) (t : Transfer) (body : List UInt8) (reserved : Reservation) :
    Session :=
  { s with state := .receivingData (t.hold body reserved) }

lemma Session.holding_nil {s : Session} {t : Transfer} (hs : s.state = .receivingData t)
    (ht : t.Fresh) : s.holding t [] t.reserved = s := by
  have hhold : t.hold [] t.reserved = t := by
    rw [Transfer.hold, length_nil, ← ht.size, ← ht.body]
  rw [holding, hhold, ← hs]

lemma HasRoom.tryGrow {s : Session} {memory : MemoryBudget} {n bytes : ℕ}
    (h : HasRoom s memory n) (hb : s.memoryBudget = true) (hle : bytes ≤ n) (r : Reservation) :
    ∃ r' next, r.tryGrow memory s.peerIp bytes = .ok (r', next) := by
  obtain ⟨next, hnext⟩ := h hb bytes hle
  refine ⟨{ r.attach (s.peerIp.map clientKey) with bytes := saturatingAdd 64 r.bytes bytes },
    next, ?_⟩
  rw [Reservation.tryGrow, hnext]
  rfl

namespace Session

variable {env : Env} {mem : ℕ → MemoryBudget} {s : Session} {t : Transfer}

lemma takeLine_kept {c : Context} (content : List UInt8)
    (hsize : t.size + (content.length + 2) ≤ c.session.maxMessageSize)
    (hroom : HasRoom c.session c.memory (content.length + 2)) :
    ∃ r, (c.takeLine t content).session = { c.session with
      state := .receivingData { t with
        size := t.size + (content.length + 2), body := t.body ++ content ++ crlf
        reserved := r } } := by
  unfold takeLine
  dsimp only
  split_ifs with hover hbudget
  · exact absurd hsize (Nat.not_le_of_lt hover)
  · obtain ⟨r, next, hgrow⟩ := hroom.tryGrow hbudget (Nat.le_refl _) t.reserved
    exact ⟨r, by rw [hgrow]; rfl⟩
  · exact ⟨t.reserved, rfl⟩

lemma takeLine_holding (t : Transfer) {memory : MemoryBudget} {body : List UInt8}
    (r : Reservation) (content : List UInt8)
    (hsize : (body ++ content ++ crlf).length ≤ s.maxMessageSize)
    (hroom : HasRoom s memory (content.length + 2)) :
    ∃ r', (takeLine ⟨s.holding t body r, memory⟩ (t.hold body r) content).session =
      s.holding t (body ++ content ++ crlf) r' := by
  have hlen : body.length + (content.length + 2) = (body ++ content ++ crlf).length := by simp
  obtain ⟨r', hr'⟩ := takeLine_kept (t := t.hold body r) (c := ⟨s.holding t body r, memory⟩)
    content (hlen.trans_le hsize) hroom
  refine ⟨r', hr'.trans ?_⟩
  simp only [holding, Transfer.hold, hlen]

lemma collectData_lines (env : Env) (mem : ℕ → MemoryBudget) (s : Session) (t : Transfer)
    {lines : List (List UInt8)} (hdot : [dot] ∉ lines) (body : List UInt8) (r : Reservation)
    (i : ℕ)
    (hsize : (body ++ unlines (lines.map unstuff)).length ≤ s.maxMessageSize)
    (hroom : RoomFor s mem i ((lines.map unstuff).map (·.length + 2)))
    (rest : List (List UInt8)) :
    ∃ r', collectData env mem i (s.holding t body r) (lines ++ rest) =
      collectData env mem (i + lines.length)
        (s.holding t (body ++ unlines (lines.map unstuff)) r') rest := by
  induction lines generalizing body r i with
  | nil => exact ⟨r, by simp⟩
  | cons line lines ih =>
    obtain ⟨hline, hlines⟩ := not_or.1 (List.mem_cons.not.1 hdot)
    have hsplit : body ++ unlines ((line :: lines).map unstuff) =
        (body ++ unstuff line ++ crlf) ++ unlines (lines.map unstuff) := by
      simp [crlf]
    rw [hsplit] at hsize ⊢
    rw [map_cons, map_cons] at hroom
    obtain ⟨hnow, hlater⟩ := hroom.cons
    have hfirst : (body ++ unstuff line ++ crlf).length ≤ s.maxMessageSize :=
      (length_append ▸ Nat.le_add_right _ _).trans hsize
    obtain ⟨r₁, htake⟩ := takeLine_holding t r (unstuff line) hfirst hnow
    obtain ⟨r₂, hrest⟩ := ih hlines _ r₁ (i + 1) hsize hlater
    refine ⟨r₂, ?_⟩
    have hanswer : dataLine ⟨s.holding t body r, mem i⟩ env line =
        (none, takeLine ⟨s.holding t body r, mem i⟩ (t.hold body r)
          (unstuff line)) := if_neg (Ne.symm hline)
    rw [cons_append, collectData, hanswer]
    dsimp only
    rw [htake, hrest, length_cons, Nat.add_right_comm, Nat.add_assoc]

end Session

/-! ## The message -/

namespace Context

lemma innerFinalise_action (c c' : Context) (env : Env) (m : AcceptedMessage) (size : ℕ)
    (exhausted : Bool) (r r' : Reservation)
    (hmax : c'.session.maxMessageSize = c.session.maxMessageSize)
    (hauth : c'.session.authenticated = c.session.authenticated)
    (hquota : c'.session.quota = c.session.quota) :
    (c'.innerFinalise env m size exhausted r').1 = (c.innerFinalise env m size exhausted r).1 := by
  have hcheck : c'.session.checkMessage env m size exhausted =
      c.session.checkMessage env m size exhausted := by
    simp only [Session.checkMessage, hmax, hauth]
  have hsplit : (c'.session.splitOverQuota env m size).map Prod.fst =
      (c.session.splitOverQuota env m size).map Prod.fst := by
    simp only [Session.splitOverQuota, Session.excludeOverQuota, hquota]
    split_ifs <;> rfl
  unfold innerFinalise
  rw [hcheck]
  cases c.session.checkMessage env m size exhausted with
  | error reply => rfl
  | ok charge =>
    -- Both sides split alike, up to the session that comes along.
    rcases h : c.session.splitOverQuota env m size with _ | ⟨m₁, s₁⟩ <;>
      rcases h' : c'.session.splitOverQuota env m size with _ | ⟨m₂, s₂⟩ <;>
      simp_all

lemma innerFinalise_data {c : Context} {env : Env} {m m' : AcceptedMessage} {size : ℕ}
    {exhausted : Bool} {r : Reservation} {reply : Reply}
    (h : (c.innerFinalise env m size exhausted r).1 = .deliver reply m') : m'.data = m.data := by
  unfold innerFinalise at h
  split at h
  · cases h
  · split at h
    · cases h
    · rename_i hsplit
      cases h
      exact (splitOverQuota_some hsplit).2.1

lemma innerFinalise_deliver (c : Context) (env : Env) (m : AcceptedMessage) {size : ℕ}
    (r : Reservation) (hsize : size ≤ c.session.maxMessageSize)
    (hauth : c.session.authenticated = none) (hquota : c.session.quota = false) :
    (c.innerFinalise env m size false r).1 = .deliver .ok m := by
  have hcheck : c.session.checkMessage env m size false = .ok none := by
    simp [Session.checkMessage, hauth, Nat.not_lt_of_le hsize]
    rfl
  have hsplit : c.session.splitOverQuota env m size = some (m, c.session) := by
    simp [Session.splitOverQuota, hquota]
  rw [innerFinalise, hcheck]
  dsimp only
  rw [hsplit]

end Context

namespace Session

variable {env : Env} {mem : ℕ → MemoryBudget} {s : Session} {t : Transfer}

lemma unstuff_stuffLine (line : List UInt8) : unstuff (stuffLine line) = line := by
  rcases line with _ | ⟨b, line⟩
  · rfl
  · by_cases hb : b = dot <;> simp [stuffLine, unstuff, hb]

lemma collectData_stuffed (hs : s.state = .receivingData t) (ht : t.Fresh)
    (ls : List (List UInt8)) (hsize : (unlines ls).length ≤ s.maxMessageSize)
    (hroom : RoomFor s mem 0 (ls.map (·.length + 2))) :
    (∃ next, collectData env mem 0 s (ls.map stuffLine) = (none, next, [])) ∧
      ∃ next, collectData env mem 0 s (ls.map stuffLine ++ [[dot]]) =
        (some ((takeState ⟨s, mem 0⟩).innerFinalise env
          { t.message with data := unlines ls } (unlines ls).length false .none).1, next, []) := by
  have hlines : (ls.map stuffLine).map unstuff = ls := by
    rw [map_map]
    exact List.map_id'' unstuff_stuffLine ls
  have hdot : [dot] ∉ ls.map stuffLine := by
    rw [mem_map]
    rintro ⟨line, -, hline⟩
    exact stuffLine_ne_dot line hline
  have hcollect := collectData_lines env mem s t hdot [] t.reserved 0
    (by simpa [hlines] using hsize) (by rwa [hlines])
  rw [holding_nil hs ht, hlines, nil_append] at hcollect
  constructor
  · obtain ⟨r, hr⟩ := hcollect []
    rw [append_nil, collectData] at hr
    exact ⟨_, hr⟩
  · obtain ⟨r, hr⟩ := hcollect [[dot]]
    rw [hr, collectData, dataLine, if_pos rfl]
    refine ⟨_, Prod.ext (congrArg some ?_) rfl⟩
    rw [← ht.admitted]
    exact innerFinalise_action _ _ env _ _ _ .none r rfl rfl rfl

end Session

open Reading

/-- A message of strict lines, within the limit with a leading dot counted twice, arrives as it
was sent. However the octets the delivery client writes are cut, the server decodes them to the
last octet without an error; none of the lines before the last is the terminator, and none is
answered; the last one is, as the end of a transfer that holds the message, closed by a CRLF if
it was not. What is delivered then has these octets, and without a login or quotas it is
delivered. -/
theorem data_round_trip (m : List UInt8) (hm : Framed (LineCheck.width true) maxLineLength m)
    (ops : List (Lib.Op UInt8)) (hfed : fed ops = (sendData m).flatten)
    (hdrained : (read maxLineLength (ops.map .ofOp)).Drained)
    (s : Session) (t : Transfer) (hs : s.state = .receivingData t) (ht : t.Fresh)
    (hsize : (if crlf <:+ m then m else m ++ crlf).length ≤ s.maxMessageSize)
    (mem : ℕ → MemoryBudget)
    (hroom : RoomFor s mem 0 ((bodyLines m).map (·.length + 2))) (env : Env) :
    ¬ (read maxLineLength (ops.map .ofOp)).Failed ∧
    (read maxLineLength (ops.map .ofOp)).decoder.buffer = [] ∧
    (∃ content, (read maxLineLength (ops.map .ofOp)).lines = content ++ [[dot]] ∧
      [dot] ∉ content ∧ ∃ next, s.collectData env mem 0 content = (none, next, [])) ∧
    ∃ action next,
      s.collectData env mem 0 (read maxLineLength (ops.map .ofOp)).lines =
        (some action, next, []) ∧
      (∀ reply message, action = .deliver reply message →
        message.data = if crlf <:+ m then m else m ++ crlf) ∧
      (s.authenticated = none → s.quota = false →
        action = .deliver .ok
          { t.message with data := if crlf <:+ m then m else m ++ crlf }) := by
  have hgood := (framed_iff m).1 hm
  have hbody := unlines_bodyLines hm.toStrict
  rw [← hbody] at hsize ⊢
  -- Every line on the wire is good for the decoder.
  have hwire : ∀ l ∈ (bodyLines m).map stuffLine ++ [[dot]],
      GoodLine List.length maxLineLength l := by
    intro l hl
    rw [mem_append, mem_map, mem_singleton] at hl
    rcases hl with ⟨line, hline, rfl⟩ | rfl
    · refine goodLine_stuffLine.2 (hgood line ?_)
      unfold bodyLines at hline
      split_ifs at hline
      · exact mem_append_left _ hline
      · exact hline
    · exact ⟨by simpa using plain_dot, by decide⟩
  rw [sendData_flatten, dataWire_eq hm.toStrict] at hfed
  obtain ⟨hlines, hfailed, hbuffer⟩ := drained_read hdrained
  rw [hfed, drain_unlines hwire] at hlines hfailed hbuffer
  have hok : ¬ (read maxLineLength (ops.map .ofOp)).Failed := by
    rw [hfailed]
    simp
  obtain ⟨hquiet, next, hlast⟩ := Session.collectData_stuffed hs ht (bodyLines m) hsize hroom
  refine ⟨hok, hbuffer hok, ⟨_, hlines, ?_, hquiet⟩, _, next, by rw [hlines]; exact hlast, ?_, ?_⟩
  · simpa using fun line _ => stuffLine_ne_dot line
  · intro reply message hdeliver
    exact innerFinalise_data hdeliver
  · exact innerFinalise_deliver (takeState ⟨s, mem 0⟩) env _ .none hsize

def openTransfer : Transfer :=
  ⟨"a@example.org", ["b@example.org"], [], 0, [], false, false, .stored, .none, false⟩

def openSession : Session :=
  { Session.new "mx.example.org" with state := .receivingData openTransfer, memoryBudget := true }

lemma openSession_hasRoom : HasRoom openSession (.withCap 100 (by decide)) 3 := by
  intro _ bytes hle
  obtain rfl | rfl | rfl | rfl : bytes = 0 ∨ bytes = 1 ∨ bytes = 2 ∨ bytes = 3 := by omega
  all_goals exact ⟨_, rfl⟩

lemma openSession_roomFor {sizes : List ℕ} (h : ∀ n ∈ sizes, n ≤ 3) :
    RoomFor openSession (fun _ => .withCap 100 (by decide)) 0 sizes :=
  fun _ n hn hb bytes hle => openSession_hasRoom hb bytes (hle.trans (h n (mem_of_getElem? hn)))

/-- A message of a lone dot, in a read cut between CR and LF: the dot comes through, and the line
is closed. -/
theorem data_round_trip_dot :
    ∃ next, openSession.collectData .permissive (fun _ => .withCap 100 (by decide)) 0
        (read maxLineLength
          ([.feed [46, 46, 13], .poll, .feed [10, 46, 13, 10], .poll, .poll].map .ofOp)).lines =
      (some (.deliver .ok { openTransfer.message with data := [46, 13, 10] }), next, []) := by
  have hm : Framed (LineCheck.width true) maxLineLength [46] :=
    (framed_iff _).2 (by simp [linesOf, completeLines, openLine, splitCrlf, GoodLine,
      plain_dot, LineCheck.width, maxLineLength])
  obtain ⟨-, -, -, action, next, hcollect, -, hdeliver⟩ := data_round_trip [46] hm
    [.feed [46, 46, 13], .poll, .feed [10, 46, 13, 10], .poll, .poll] (by decide) (.inr (by decide))
    openSession openTransfer rfl ⟨rfl, rfl, rfl⟩ (by decide) (fun _ => .withCap 100 (by decide))
    (openSession_roomFor (by decide)) .permissive
  exact ⟨next, by rw [hcollect, hdeliver rfl rfl]; rfl⟩

end Epistle.Smtp
