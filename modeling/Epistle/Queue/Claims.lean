import Epistle.Lib.Holdings
import Epistle.Lib.Tally

/-!
# The claims of the outbound queue

A worker runs many conversations side by side. A conversation first takes a claim: a slot, under
the caps on all conversations, on one recipient domain and on one sender, and those recipients of
its queue entry that nobody else holds. The claims of one worker are counted in one state behind
a lock; dropping a claim gives its slot and its recipients back.

The state does not list the claims. `Accounts` says which claims it stands for: its counters are
the numbers of live claims, no counter stands at zero, its recipient sets are what the claims
hold, and no recipient of an entry is held twice.
-/

namespace Epistle.Queue

open List Function

open Epistle.Lib (Holdings Tallies freshOf keyed pairs slot)

/-! ### Limits -/

/-- The caps the scheduler works within. -/
structure Limits where
  total : ℕ
  /-- Conversations at once per recipient domain. -/
  perDomain : ℕ
deriving DecidableEq, Repr

namespace Limits

/-- Conversations running at once, all destinations together. -/
def defaultConcurrency : ℕ := 8

/-- How many conversations with a domain there are, if nothing else is set. -/
def defaultPerDomainConcurrency : ℕ := 2

/-- How many conversations a sender may have. -/
def perSender (limits : Limits) : ℕ := max (limits.total * 3 / 4) 1

/-- Limits, with defaults in place of zero. -/
def new (total perDomain : ℕ) : Limits where
  total := if total = 0 then defaultConcurrency else total
  perDomain := if perDomain = 0 then defaultPerDomainConcurrency else perDomain

end Limits

/-! ### The state behind the lock -/

/-- Which cap kept a conversation from starting. -/
inductive Full where
  /-- Every slot is in use. -/
  | total
  /-- The recipient domain has its share. -/
  | domain
  | sender
deriving DecidableEq, Repr

/-- One more for a key. -/
def countIn (counts : String → Option ℕ) (key : String) : String → Option ℕ :=
  update counts key (some ((counts key).getD 0 + 1))

/-- One less for a key, and none in place of zero. -/
def countOut (counts : String → Option ℕ) (key : String) : String → Option ℕ :=
  match counts key with
  | none => counts
  | some count => update counts key (if count - 1 = 0 then none else some (count - 1))

variable {Id : Type} [DecidableEq Id]

/-- The recipients in conversation and the slots in use, in one worker. -/
structure ClaimState (Id : Type) where
  /-- Claimed recipients, by entry. -/
  recipients : Id → Option (Finset String)
  /-- Conversations running per recipient domain. -/
  domains : String → Option ℕ
  senders : String → Option ℕ
  running : ℕ

/-- Recipients of one entry claimed for one conversation, and its slot. -/
structure Claim (Id : Type) where
  id : Id
  /-- The domain its slot is counted under. -/
  domain : String
  sender : String
  recipients : List String

def Claim.pairs (c : Claim Id) : List (Id × String) := Epistle.Lib.pairs c.id c.recipients

namespace ClaimState

def default : ClaimState Id where
  recipients := fun _ => none
  domains := fun _ => none
  senders := fun _ => none
  running := 0

/-- Whether a recipient of a message is claimed. -/
def holds (s : ClaimState Id) (id : Id) (recipient : String) : Bool :=
  match s.recipients id with
  | none => false
  | some held => decide (recipient ∈ held)

/-- Whether any recipient of a message is claimed. -/
def holdsAny (s : ClaimState Id) (id : Id) : Bool := (s.recipients id).isSome

/-- Whether another conversation may start. -/
def hasRoom (s : ClaimState Id) (limits : Limits) : Bool := s.running < limits.total

/-- Take a slot for a conversation of `sender` with `domain`, and claim those of `recipients` nobody
holds. -/
def take (s : ClaimState Id) (limits : Limits) (id : Id) (domain sender : String)
    (recipients : List String) : Except Full (ClaimState Id × Claim Id) :=
  if limits.total ≤ s.running then
    .error .total
  else if limits.perDomain ≤ (s.domains domain).getD 0 then
    .error .domain
  else if limits.perSender ≤ (s.senders sender).getD 0 then
    .error .sender
  else
    let held := (s.recipients id).getD ∅
    -- Each insertion into the set answers whether the recipient was new to it.
    let free := freshOf held recipients
    .ok ({ recipients := update s.recipients id (keyed (held ∪ free.toFinset))
           domains := countIn s.domains domain
           senders := countIn s.senders sender
           running := s.running + 1 },
         { id, domain, sender, recipients := free })

/-- Give a claim back. -/
def drop (s : ClaimState Id) (c : Claim Id) : ClaimState Id where
  recipients :=
    match s.recipients c.id with
    | none => s.recipients
    | some held => update s.recipients c.id (keyed (held \ c.recipients.toFinset))
  domains := countOut s.domains c.domain
  senders := countOut s.senders c.sender
  running := s.running - 1

lemma take_eq_ok {s s' : ClaimState Id} {limits : Limits} {id : Id} {domain sender : String}
    {recipients : List String} {c : Claim Id}
    (h : s.take limits id domain sender recipients = .ok (s', c)) :
    s.running < limits.total ∧ (s.domains domain).getD 0 < limits.perDomain ∧
      (s.senders sender).getD 0 < limits.perSender ∧
      c = ⟨id, domain, sender, freshOf ((s.recipients id).getD ∅) recipients⟩ ∧
      s' = ⟨update s.recipients id
          (keyed ((s.recipients id).getD ∅ ∪ c.recipients.toFinset)),
        countIn s.domains domain, countIn s.senders sender, s.running + 1⟩ := by
  unfold take at h
  by_cases h1 : limits.total ≤ s.running
  · rw [if_pos h1] at h
    cases h
  rw [if_neg h1] at h
  by_cases h2 : limits.perDomain ≤ (s.domains domain).getD 0
  · rw [if_pos h2] at h
    cases h
  rw [if_neg h2] at h
  by_cases h3 : limits.perSender ≤ (s.senders sender).getD 0
  · rw [if_pos h3] at h
    cases h
  rw [if_neg h3] at h
  cases h
  exact ⟨not_le.1 h1, not_le.1 h2, not_le.1 h3, rfl, rfl⟩

end ClaimState

/-! ### What the state says of the live claims -/

structure Accounts (s : ClaimState Id) (live : List (Claim Id)) : Prop where
  domains : Tallies s.running s.domains (live.map fun c => slot c.domain)
  senders : Tallies s.running s.senders (live.map fun c => slot c.sender)
  recipients : Holdings s.recipients (live.flatMap Claim.pairs)
  /-- No recipient of an entry is held twice. -/
  nodup : (live.flatMap Claim.pairs).Nodup

namespace Accounts

variable {s s' : ClaimState Id} {live live' : List (Claim Id)} {c : Claim Id}

lemma default : Accounts (ClaimState.default : ClaimState Id) [] where
  domains := Tallies.nil
  senders := Tallies.nil
  recipients := Holdings.nil
  nodup := nodup_nil

lemma perm (h : Accounts s live) (hp : live.Perm live') : Accounts s live' where
  domains := h.domains.perm (hp.map _)
  senders := h.senders.perm (hp.map _)
  recipients := h.recipients.perm (hp.flatMap_right _)
  nodup := (hp.flatMap_right _).nodup_iff.1 h.nodup

lemma take {limits : Limits} {id : Id} {domain sender : String} {recipients : List String}
    (h : Accounts s live) (ht : s.take limits id domain sender recipients = .ok (s', c)) :
    Accounts s' (c :: live) := by
  obtain ⟨-, -, -, rfl, rfl⟩ := ClaimState.take_eq_ok ht
  have hheld := h.recipients.getD id
  refine ⟨h.domains.slot_in domain, h.senders.slot_in sender, ?_, ?_⟩
  · rw [flatMap_cons]
    exact h.recipients.add id _
  · rw [flatMap_cons]
    -- The recipients already held are the ones the loop of insertions skips.
    rw [hheld]
    exact Epistle.Lib.nodup_pairs_freshOf h.nodup id recipients

lemma countOut_slot {counts : String → Option ℕ} {n : ℕ} {key : String}
    {cs : List (Epistle.Lib.Claim String)} (h : Tallies n counts (slot key :: cs)) :
    Tallies (n - 1) (countOut counts key) cs := by
  unfold countOut
  rw [h.counter_of_slot]
  exact h.release rfl h.counter_of_slot

lemma drop (h : Accounts s (c :: live)) : Accounts (s.drop c) live := by
  have hpairs := h.recipients
  have hnodup := h.nodup
  rw [flatMap_cons] at hpairs hnodup
  refine ⟨countOut_slot h.domains, countOut_slot h.senders, ?_, (nodup_append.1 hnodup).2.1⟩
  have hrem := hpairs.remove hnodup
  unfold ClaimState.drop
  -- An entry whose set is absent holds nothing, and taking members out changes nothing.
  cases hs : s.recipients c.id with
  | some held =>
    rw [hs, Option.getD_some] at hrem
    exact hrem
  | none =>
    rw [hs, Option.getD_none, Finset.empty_sdiff] at hrem
    have hsame : update s.recipients c.id (keyed ∅) = s.recipients := by
      rw [Function.update_eq_self_iff, hs]
      rfl
    rw [hsame] at hrem
    exact hrem

end Accounts

/-! ### The caps -/

/-- The counters are within the caps. -/
structure ClaimState.Within (limits : Limits) (s : ClaimState Id) : Prop where
  total : s.running ≤ limits.total
  perDomain : ∀ d, (s.domains d).getD 0 ≤ limits.perDomain
  perSender : ∀ a, (s.senders a).getD 0 ≤ limits.perSender

lemma getD_countIn_le {counts : String → Option ℕ} {key : String} {cap : ℕ}
    (h : ∀ k, (counts k).getD 0 ≤ cap) (hkey : (counts key).getD 0 < cap) (k : String) :
    (countIn counts key k).getD 0 ≤ cap := by
  unfold countIn
  by_cases hk : k = key
  · rw [hk, update_self]
    exact hkey
  · rw [update_of_ne hk]
    exact h k

lemma getD_countOut_le (counts : String → Option ℕ) (key k : String) :
    (countOut counts key k).getD 0 ≤ (counts k).getD 0 := by
  unfold countOut
  cases hc : counts key with
  | none => exact le_rfl
  | some count =>
    by_cases hk : k = key
    · rw [hk, hc]
      dsimp only
      rw [update_self]
      split_ifs
      · exact Nat.zero_le _
      · exact Nat.sub_le count 1
    · dsimp only
      rw [update_of_ne hk]

namespace ClaimState.Within

variable {limits : Limits} {s s' : ClaimState Id}

omit [DecidableEq Id] in
lemma default : (ClaimState.default : ClaimState Id).Within limits where
  total := Nat.zero_le _
  perDomain _ := Nat.zero_le _
  perSender _ := Nat.zero_le _

lemma take {id : Id} {domain sender : String} {recipients : List String} {c : Claim Id}
    (h : s.Within limits) (ht : s.take limits id domain sender recipients = .ok (s', c)) :
    s'.Within limits := by
  obtain ⟨htotal, hdomain, hsender, -, rfl⟩ := take_eq_ok ht
  exact ⟨htotal, getD_countIn_le h.perDomain hdomain, getD_countIn_le h.perSender hsender⟩

lemma drop (h : s.Within limits) (c : Claim Id) : (s.drop c).Within limits where
  total := (Nat.sub_le _ _).trans h.total
  perDomain d := (getD_countOut_le s.domains c.domain d).trans (h.perDomain d)
  perSender a := (getD_countOut_le s.senders c.sender a).trans (h.perSender a)

end ClaimState.Within

end Epistle.Queue
