import Epistle.Mtasts.Policy

/-!
# The MTA-STS policy cache

Discovery looks up the TXT record on every call and fetches the policy when the id changed or the
entry is due (`PolicyStore::policy`). A policy that has not reached its `max_age` stays the answer
while a lookup or a fetch fails. The times of an entry are computed while the cache is locked, and
an addition that leaves the range of the clock panics there, which poisons the lock.

* `isolated_when_clock_fits`: while every addition fits, no call panics and a domain is answered as
  if it were alone;
* `kept_until_max_age`: a policy that was fetched is the answer until its `max_age` has passed.
-/

namespace Epistle.Mtasts

open Lib.Text List

/-! ## The clock -/

/-- A second of the clock. -/
def second : ℕ := 10 ^ 9

/-- The end of the clock. -/
def instantEnd : ℕ := 2 ^ 63 * second

/-- A time and some seconds, if the clock goes that far. -/
def addSeconds (t seconds : ℕ) : Option ℕ :=
  if t + seconds * second < instantEnd then some (t + seconds * second) else none

/-! ## The store -/

/-- How long a policy is used before it is fetched again, at most. -/
def maxCache : ℕ := 24 * 3600

def noPolicyCache : ℕ := 600

/-- What is remembered of a domain. -/
structure Cached where
  policy : Option Policy
  txtId : Option (List Char)
  /-- Until then the entry is used as is. -/
  refresh : ℕ
  /-- Until then a policy still applies when a refresh fails. -/
  expires : ℕ
  deriving DecidableEq

/-- The cache behind its lock. -/
structure PolicyStore where
  cache : List Char → Option Cached
  poisoned : Bool

def PolicyStore.new : PolicyStore := ⟨fun _ => none, false⟩

/-- Remember an answer for a domain. -/
def PolicyStore.put (s : PolicyStore) (domain : List Char) (entry : Option Cached) : PolicyStore :=
  { s with cache := Function.update s.cache domain entry }

/-- Why a lookup failed. -/
inductive DnsFailure
  | temporary
  deriving DecidableEq, Repr

/-- A call for a domain, with what the network answers. -/
structure Call where
  domain : List Char
  start : ℕ
  txt : Except DnsFailure (List (List Char))
  document : Except PolicyError (List Char)
  /-- The clock when the network has answered. -/
  stored : ℕ
  start_le : start ≤ stored

def Call.key (c : Call) : List Char := toLower c.domain

/-- How a call ends. -/
inductive Answer
  | panicked
  | returned (result : Except PolicyError (Option Policy))
  deriving DecidableEq

/-- The id of the records there are. -/
def observeId (txt : Except DnsFailure (List (List Char))) :
    Except PolicyError (Option (List Char)) :=
  match txt with
  | .error .temporary => .error (.temporary "TXT lookup failed".toList)
  | .ok records => .ok (records.findSome? parseTxtId)

/-- Remember an answer for some seconds; the call panics if the clock ends. -/
def PolicyStore.remember (s : PolicyStore) (domain : List Char) (policy : Option Policy)
    (txtId : Option (List Char)) (now refresh expires : ℕ) : Option PolicyStore :=
  if s.poisoned then none
  else
    match addSeconds now refresh, addSeconds now expires with
    | some refresh, some expires =>
        some (s.put domain (some ⟨policy, txtId, refresh, expires⟩))
    | _, _ => none

/-- The policy that is still good when a lookup fails. -/
def fallback (cached : Option Cached) (now : ℕ) : Option Policy :=
  (cached.filter (now < ·.expires)).bind Cached.policy

/-- Whether the policy is to be fetched again. -/
def due (cached : Option Cached) (observed : Option (List Char)) (now : ℕ) : Bool :=
  cached.bind Cached.txtId ≠ observed || !cached.any (now < ·.refresh)

def keepOr (fallback : Option Policy) (error : PolicyError) : Except PolicyError (Option Policy) :=
  match fallback with
  | some policy => .ok (some policy)
  | none => .error error

/-- How discovery ends: with an answer, or with an entry that is written and answered. -/
inductive Discovery
  | answer (result : Except PolicyError (Option Policy))
  | remember (policy : Option Policy) (txtId : Option (List Char)) (refresh expires : ℕ)
  deriving DecidableEq

/-- How discovery ends for a call. -/
def discover (cached : Option Cached) (c : Call) : Discovery :=
  let fallback := fallback cached c.start
  match observeId c.txt with
  | .error error => .answer (keepOr fallback error)
  | .ok observed =>
      if !due cached observed c.start then .answer (.ok (cached.bind Cached.policy))
      else
        match observed with
        | some id =>
            match c.document with
            | .error error => .answer (keepOr fallback error)
            | .ok body =>
                match parse body with
                | .error error => .answer (keepOr fallback error)
                | .ok policy =>
                    .remember (some policy) (some id) (min policy.maxAge maxCache) policy.maxAge
        -- The cached policy still applies for the rest of its `max_age`.
        | none =>
            match fallback with
            | some policy => .answer (.ok (some policy))
            | none => .remember none none noPolicyCache noPolicyCache

/-- The policy of a domain. -/
def PolicyStore.policy (s : PolicyStore) (c : Call) : Answer × PolicyStore :=
  if s.poisoned then (.panicked, s)
  else
    match discover (s.cache c.key) c with
    | .answer result => (.returned result, s)
    | .remember policy txtId refresh expires =>
        match s.remember c.key policy txtId c.stored refresh expires with
        | some s => (.returned (.ok policy), s)
        -- The panic comes while the cache is locked.
        | none => (.panicked, { s with poisoned := true })

/-- Calls one after the other. -/
def PolicyStore.run (s : PolicyStore) : List Call → List Answer × PolicyStore
  | [] => ([], s)
  | c :: calls =>
      let (answer, s) := s.policy c
      let (answers, s) := s.run calls
      (answer :: answers, s)

/-! ## Isolation -/

/-- The clock leaves room for the times of an entry: for the time that no policy is remembered if
the record announces none, and for the `max_age` of the document if it announces one. -/
def Call.Fits (c : Call) : Prop :=
  (observeId c.txt = .ok none → c.stored + noPolicyCache * second < instantEnd) ∧
    ∀ id body policy, observeId c.txt = .ok (some id) → c.document = .ok body →
      parse body = .ok policy → c.stored + policy.maxAge * second < instantEnd

variable {cached : Option Cached} {c : Call} {expires : ℕ} {s : PolicyStore} {p : Policy}

lemma discover_remember {policy : Option Policy} {txtId : Option (List Char)} {refresh : ℕ}
    (h : discover cached c = .remember policy txtId refresh expires) :
    (∃ id body p, observeId c.txt = .ok (some id) ∧ due cached (some id) c.start ∧
      c.document = .ok body ∧ parse body = .ok p ∧ policy = some p ∧ txtId = some id ∧
      refresh = min p.maxAge maxCache ∧ expires = p.maxAge) ∨
    (observeId c.txt = .ok none ∧ fallback cached c.start = none ∧ policy = none ∧ txtId = none ∧
      refresh = noPolicyCache ∧ expires = noPolicyCache) := by
  rw [discover] at h
  cases hid : observeId c.txt with
  | error e => simp [hid] at h
  | ok observed =>
    simp only [hid] at h
    split_ifs at h with hdue
    cases observed with
    | none =>
      cases hfall : fallback cached c.start with
      | some p => simp [hfall] at h
      | none =>
        simp only [hfall, Discovery.remember.injEq] at h
        obtain ⟨rfl, rfl, rfl, rfl⟩ := h
        exact .inr ⟨rfl, rfl, rfl, rfl, rfl, rfl⟩
    | some id =>
      cases hdoc : c.document with
      | error e => simp [hdoc] at h
      | ok body =>
        cases hparse : parse body with
        | error e => simp [hdoc, hparse] at h
        | ok p =>
          simp only [hdoc, hparse, Discovery.remember.injEq] at h
          obtain ⟨rfl, rfl, rfl, rfl⟩ := h
          exact .inl ⟨id, body, p, rfl, by simpa using hdue, rfl, hparse, rfl, rfl, rfl, rfl⟩

lemma addSeconds_eq {t seconds : ℕ} (h : t + seconds * second < instantEnd) :
    addSeconds t seconds = some (t + seconds * second) := if_pos h

open PolicyStore

lemma remember_of_fits (hs : s.poisoned = false) (hfit : c.Fits) {policy : Option Policy}
    {txtId : Option (List Char)} {refresh : ℕ}
    (h : discover (s.cache c.key) c = .remember policy txtId refresh expires) :
    s.remember c.key policy txtId c.stored refresh expires =
      some (s.put c.key
        (some ⟨policy, txtId, c.stored + refresh * second, c.stored + expires * second⟩)) := by
  obtain ⟨hle, hexpires⟩ : refresh ≤ expires ∧ c.stored + expires * second < instantEnd := by
    rcases discover_remember h with ⟨id, body, p, hid, -, hdoc, hparse, -, -, rfl, rfl⟩ |
      ⟨hnone, -, -, -, rfl, rfl⟩
    · exact ⟨min_le_left .., hfit.2 id body p hid hdoc hparse⟩
    · exact ⟨le_refl _, hfit.1 hnone⟩
  have hrefresh : c.stored + refresh * second < instantEnd :=
    Nat.lt_of_le_of_lt (Nat.add_le_add_left (Nat.mul_le_mul_right _ hle) _) hexpires
  rw [remember, hs, addSeconds_eq hexpires, addSeconds_eq hrefresh]
  rfl

def entryAfter (cached : Option Cached) (c : Call) : Option Cached :=
  match discover cached c with
  | .answer _ => cached
  | .remember policy txtId refresh expires =>
      some ⟨policy, txtId, c.stored + refresh * second, c.stored + expires * second⟩

def resultOf : Discovery → Except PolicyError (Option Policy)
  | .answer result => result
  | .remember policy _ _ _ => .ok policy

lemma policy_eq (hs : s.poisoned = false) (hfit : c.Fits) :
    s.policy c = (.returned (resultOf (discover (s.cache c.key) c)),
      s.put c.key (entryAfter (s.cache c.key) c)) := by
  rw [policy, if_neg (by simp [hs]), entryAfter]
  cases h : discover (s.cache c.key) c with
  | answer result => simp [resultOf, put]
  | remember policy txtId refresh expires =>
    simp only [remember_of_fits hs hfit h]
    rfl

def answersFor (domain : List Char) (s : PolicyStore) (calls : List Call) : List Answer :=
  ((calls.zip (s.run calls).1).filter (·.1.key = domain)).map Prod.snd

lemma answersFor_eq {domain : List Char} {s' : PolicyStore} {calls : List Call}
    (hs : s.poisoned = false) (hs' : s'.poisoned = false) (hfit : ∀ c ∈ calls, c.Fits)
    (hcache : s.cache domain = s'.cache domain) :
    answersFor domain s calls = (s'.run (calls.filter (·.key = domain))).1 := by
  induction calls generalizing s s' with
  | nil => rfl
  | cons c calls ih =>
    obtain ⟨hc, hfit⟩ := forall_mem_cons.1 hfit
    rw [answersFor, run, policy_eq hs hc]
    by_cases hkey : c.key = domain
    · subst hkey
      rw [filter_cons_of_pos (by simp), run, policy_eq hs' hc, hcache]
      simp only [zip_cons_cons]
      rw [filter_cons_of_pos (by simp), map_cons]
      exact congrArg _ (ih hs hs' hfit (by simp [put]))
    · rw [filter_cons_of_neg (by simpa using hkey)]
      simp only [zip_cons_cons]
      rw [filter_cons_of_neg (by simpa using hkey)]
      refine ih hs hs' hfit ?_
      simpa [put, Function.update_of_ne (Ne.symm hkey)] using hcache

lemma run_returns {calls : List Call} (hs : s.poisoned = false) (hfit : ∀ c ∈ calls, c.Fits) :
    (∀ a ∈ (s.run calls).1, a ≠ .panicked) ∧ (s.run calls).2.poisoned = false := by
  induction calls generalizing s with
  | nil => exact ⟨by simp [run], hs⟩
  | cons c calls ih =>
    obtain ⟨hc, hfit⟩ := forall_mem_cons.1 hfit
    rw [run, policy_eq hs hc]
    obtain ⟨hanswers, hpoisoned⟩ := ih (s := s.put c.key (entryAfter (s.cache c.key) c)) hs hfit
    exact ⟨forall_mem_cons.2 ⟨nofun, hanswers⟩, hpoisoned⟩

/-- While the clock leaves room for every `max_age` that is served, no call panics, the cache stays
usable, and a domain is answered as if there were no other. -/
theorem isolated_when_clock_fits (calls : List Call) (hfit : ∀ c ∈ calls, c.Fits) :
    (∀ a ∈ (new.run calls).1, a ≠ .panicked) ∧
      (new.run calls).2.poisoned = false ∧
      ∀ domain, answersFor domain .new calls =
        (new.run (calls.filter (·.key = domain))).1 :=
  ⟨(run_returns rfl hfit).1, (run_returns rfl hfit).2, fun _ => answersFor_eq rfl rfl hfit rfl⟩

def hugeCall : Call where
  domain := "evil.example".toList
  start := 0
  txt := .ok ["v=STSv1; id=1".toList]
  document := .ok "version: STSv1\nmode: none\nmax_age: 18446744073709551615\n".toList
  stored := second
  start_le := Nat.zero_le _

def goodCall : Call where
  domain := "good.example".toList
  start := 2 * second
  txt := .ok ["v=STSv1; id=7".toList]
  document := .ok "version: STSv1\nmode: enforce\nmx: mx.good.example\nmax_age: 604800\n".toList
  stored := 3 * second
  start_le := by decide

def goodPolicy : Policy := ⟨.enforce, ["mx.good.example".toList], 604800⟩

lemma parse_goodCall : parse
    "version: STSv1\nmode: enforce\nmx: mx.good.example\nmax_age: 604800\n".toList =
      .ok goodPolicy := by
  decide +kernel

/-- One document stops the answers for all domains. -/
theorem huge_max_age_stops_all :
    (new.run [hugeCall, goodCall]).1 = [.panicked, .panicked] ∧
      (new.run [goodCall]).1 = [.returned (.ok (some goodPolicy))] := by
  constructor <;> decide +kernel

lemma goodCall_fits : goodCall.Fits := by
  refine ⟨fun _ => by decide, fun _ body policy _ hbody hparse => ?_⟩
  obtain rfl := Except.ok.inj hbody
  obtain rfl := Except.ok.inj (hparse.symm.trans parse_goodCall)
  decide

/-- A call for a domain without a policy. -/
def otherCall : Call where
  domain := "other.example".toList
  start := 0
  txt := .ok []
  document := .error (.temporary "no connection".toList)
  stored := second
  start_le := Nat.zero_le _

/-- An ordinary policy is answered beside a domain without one. -/
theorem isolated_beside_other :
    (∀ a ∈ (new.run [otherCall, goodCall]).1, a ≠ .panicked) ∧
      answersFor goodCall.key .new [otherCall, goodCall] = [.returned (.ok (some goodPolicy))] ∧
      answersFor otherCall.key .new [otherCall, goodCall] = [.returned (.ok none)] := by
  have hother : otherCall.Fits := ⟨fun _ => by decide, fun _ _ _ _ hbody => absurd hbody nofun⟩
  obtain ⟨hreturned, -, halone⟩ := isolated_when_clock_fits [otherCall, goodCall]
    (forall_mem_cons.2 ⟨hother, forall_mem_singleton.2 goodCall_fits⟩)
  exact ⟨hreturned, (halone _).trans (by decide +kernel), (halone _).trans (by decide +kernel)⟩

/-! ## A policy is kept for its `max_age` -/

def Call.fetched (c : Call) (cached : Option Cached) : Option Policy :=
  match discover cached c with
  | .remember policy _ _ _ => policy
  | .answer _ => none

def fetchedIn (s : PolicyStore) : List Call → List Policy
  | [] => []
  | c :: calls => (c.fetched (s.cache c.key)).toList ++ fetchedIn (s.policy c).2 calls

def freshEntry (id : List Char) (policy : Policy) (now : ℕ) : Cached where
  policy := some policy
  txtId := some id
  refresh := now + min policy.maxAge maxCache * second
  expires := now + policy.maxAge * second

lemma discover_of_fallback (h : fallback cached c.start = some p) :
    (∃ q id, discover cached c = .remember (some q) id (min q.maxAge maxCache) q.maxAge) ∨
      discover cached c = .answer (.ok (some p)) := by
  have hpolicy : cached.bind Cached.policy = some p := by
    obtain ⟨entry, hentry, hp⟩ := Option.bind_eq_some_iff.1 h
    rw [(Option.filter_eq_some_iff.1 hentry).1]
    exact hp
  have hkeep : ∀ error, keepOr (fallback cached c.start) error = .ok (some p) := fun error => by
    rw [h, keepOr]
  rw [discover]
  cases observeId c.txt with
  | error e => exact .inr (congrArg _ (hkeep e))
  | ok observed =>
    dsimp only
    split_ifs with hdue
    · exact .inr (by rw [hpolicy])
    · cases observed with
      | none => exact .inr (by rw [h])
      | some id =>
        cases c.document with
        | error e => exact .inr (congrArg _ (hkeep e))
        | ok body =>
          dsimp only
          cases parse body with
          | error e => exact .inr (congrArg _ (hkeep e))
          | ok q => exact .inl ⟨q, some id, rfl⟩

lemma run_append (s : PolicyStore) (calls later : List Call) :
    (s.run (calls ++ later)).2 = ((s.run calls).2.run later).2 := by
  induction calls generalizing s with
  | nil => rfl
  | cons c calls ih => exact ih (s.policy c).2

lemma run_keeps {later : List Call} {d : List Char} (hs : s.poisoned = false)
    (hdomain : ∀ x ∈ later, x.key = d) (hage : ∀ x ∈ later, x.start < expires)
    (hnone : fetchedIn s later = [])
    (hentry : ∃ entry, s.cache d = some entry ∧ entry.policy = some p ∧ entry.expires = expires) :
    (s.run later).2.cache d = s.cache d := by
  induction later generalizing s with
  | nil => rfl
  | cons x later ih =>
    obtain ⟨rfl, hdomain⟩ := forall_mem_cons.1 hdomain
    obtain ⟨hxage, hage⟩ := forall_mem_cons.1 hage
    obtain ⟨hxnone, hnone⟩ := append_eq_nil_iff.1 hnone
    obtain ⟨entry, hcache, hpolicy, rfl⟩ := hentry
    have hfall : fallback (s.cache x.key) x.start = some p := by
      simp [fallback, hcache, hxage, hpolicy, Option.filter]
    -- The call does not fetch, so it answers from the entry and leaves it.
    have hstep : (s.policy x).2 = s := by
      rcases discover_of_fallback hfall with ⟨q, id, hd⟩ | hd
      · simp [Call.fetched, hd] at hxnone
      · simp [policy, hs, hd]
    change ((s.policy x).2.run later).2.cache x.key = s.cache x.key
    rw [hstep] at hnone ⊢
    exact ih hs hdomain hage hnone ⟨entry, hcache, hpolicy, rfl⟩

lemma entryAfter_of_fetched (h : c.fetched cached = some p) :
    ∃ id, observeId c.txt = .ok (some id) ∧
      entryAfter cached c = some (freshEntry id p c.stored) := by
  rw [Call.fetched] at h
  cases hd : discover cached c with
  | answer result => simp [hd] at h
  | remember policy txtId refresh expires =>
    simp only [hd] at h
    rcases discover_remember hd with ⟨id, body, q, hid, -, -, -, hq, rfl, rfl, rfl⟩ |
      ⟨-, -, hnone, -⟩
    · obtain rfl : q = p := Option.some.inj (hq.symm.trans h)
      subst hq
      exact ⟨id, hid, by rw [entryAfter, hd]; rfl⟩
    · exact absurd (hnone.symm.trans h) nofun

lemma due_iff {observed : Option (List Char)} {now : ℕ} :
    due cached observed now = true ↔ cached.bind Cached.txtId ≠ observed ∨
      ∀ entry, cached = some entry → entry.refresh ≤ now := by
  rw [due, Bool.or_eq_true_iff, decide_eq_true_iff]
  refine or_congr_right ?_
  cases cached <;> simp

lemma fetched_of_due {id body : List Char} {q : Policy} (hid : observeId c.txt = .ok (some id))
    (hdue : due cached (some id) c.start = true) (hbody : c.document = .ok body)
    (hparse : parse body = .ok q) : c.fetched cached = some q := by
  have hd : discover cached c = .remember (some q) (some id) (min q.maxAge maxCache) q.maxAge := by
    simp only [discover, hid, hdue, hbody, hparse]
    rfl
  rw [Call.fetched, hd]

/-- The entry of a policy stays while no call fetches another before its `max_age` has passed. -/
lemma cache_before_max_age {before later : List Call} {c : Call} {d : List Char} {p : Policy}
    (hdomain : ∀ x ∈ before ++ c :: later, x.key = d)
    (hfit : ∀ x ∈ before ++ c :: later, x.Fits)
    (hp : c.fetched ((new.run before).2.cache d) = some p)
    (hsince : fetchedIn (new.run (before ++ [c])).2 later = [])
    (hstart : ∀ x ∈ later, x.start < c.stored + p.maxAge * second) :
    ∃ id, (new.run (before ++ c :: later)).2.cache d = some (freshEntry id p c.stored) := by
  have hpoisoned : ∀ l, (∀ x ∈ l, x ∈ before ++ c :: later) → (new.run l).2.poisoned = false :=
    fun l hl => (run_returns rfl fun x hx => hfit x (hl x hx)).2
  have hkc : c.key = d := hdomain c (by simp)
  -- The call `c` writes its entry.
  obtain ⟨id, -, hentry⟩ := entryAfter_of_fetched (hkc.symm ▸ hp)
  have hcache : (new.run (before ++ [c])).2.cache d = some (freshEntry id p c.stored) := by
    have hrun : (new.run (before ++ [c])).2 =
        (new.run before).2.put c.key (entryAfter ((new.run before).2.cache c.key) c) := by
      rw [run_append]
      exact congrArg Prod.snd (policy_eq (hpoisoned before fun x hx => by simp [hx])
        (hfit c (by simp)))
    rw [hrun, hentry, hkc]
    simp [put]
  -- The calls behind it leave the entry.
  refine ⟨id, ?_⟩
  rw [append_cons, run_append, run_keeps (hpoisoned _ fun x hx => ?_)
    (fun x hx => hdomain x (by simp [hx])) hstart hsince ⟨_, hcache, rfl, rfl⟩, hcache]
  rcases mem_append.1 hx with hx | hx
  · simp [hx]
  · simp [mem_singleton.1 hx]

/-- Calls for one domain, one after the other. A call that starts before the `max_age` of the
policy fetched last has passed answers with that policy or with one that it fetches itself; and a
document that can be read, fetched because the id changed or the entry was due, replaces the
entry. -/
theorem kept_until_max_age (calls : List Call) {e : Call} {d : List Char}
    (hdomain : ∀ x ∈ calls ++ [e], x.key = d) (hfit : ∀ x ∈ calls ++ [e], x.Fits)
    (hclock : (calls ++ [e]).Pairwise fun a b => a.stored ≤ b.start) :
    let s := (new.run calls).2
    (∀ before c later p, calls = before ++ c :: later →
      c.fetched ((new.run before).2.cache d) = some p →
      fetchedIn (new.run (before ++ [c])).2 later = [] →
      e.start < c.stored + p.maxAge * second →
        (s.policy e).1 = .returned (.ok (some ((e.fetched (s.cache d)).getD p)))) ∧
      ∀ id body q, observeId e.txt = .ok (some id) →
        ((s.cache d).bind Cached.txtId ≠ some id ∨
          ∀ entry, s.cache d = some entry → entry.refresh ≤ e.start) →
        e.document = .ok body → parse body = .ok q →
          e.fetched (s.cache d) = some q ∧
            (s.policy e).2.cache d = some (freshEntry id q e.stored) := by
  intro s
  have hpolicy := policy_eq (s := s)
    (run_returns rfl fun x hx => hfit x (mem_append_left _ hx)).2 (hfit e (by simp))
  rw [hdomain e (by simp)] at hpolicy
  constructor
  · intro before c later p hcalls hp hsince hage
    obtain ⟨hfirst, -, hlast⟩ := pairwise_append.1 hclock
    have hstart : ∀ x ∈ later, x.start < c.stored + p.maxAge * second := fun x hx =>
      (x.start_le.trans (hlast x (by simp [hcalls, hx]) e (mem_singleton_self e))).trans_lt hage
    obtain ⟨id, hcache⟩ := cache_before_max_age
      (fun x hx => hdomain x (mem_append_left _ (hcalls ▸ hx)))
      (fun x hx => hfit x (mem_append_left _ (hcalls ▸ hx))) hp hsince hstart
    rw [← hcalls] at hcache
    have hfall : fallback (s.cache d) e.start = some p := by
      simp [fallback, s, hcache, freshEntry, hage, Option.filter]
    rw [hpolicy]
    rcases discover_of_fallback hfall with ⟨q, id, hd⟩ | hd
    · simp [Call.fetched, hd, resultOf]
    · simp [Call.fetched, hd, resultOf]
  · intro id body q hid hdue hbody hparse
    have hfetched := fetched_of_due hid (due_iff.2 hdue) hbody hparse
    obtain ⟨id', hid', hafter⟩ := entryAfter_of_fetched hfetched
    obtain rfl : id = id' := Option.some.inj (Except.ok.inj (hid.symm.trans hid'))
    refine ⟨hfetched, ?_⟩
    rw [hpolicy, hafter]
    simp [put]

def shortCall : Call where
  domain := "good.example".toList
  start := 4 * second
  txt := .ok ["v=STSv1; id=8".toList]
  document := .ok "version: STSv1\nmode: enforce\nmx: mx.good.example\nmax_age: 60\n".toList
  stored := 5 * second
  start_le := by decide

def lateCall : Call where
  domain := "good.example".toList
  start := 100 * second
  txt := .error .temporary
  document := .error (.temporary "no connection".toList)
  stored := 101 * second
  start_le := by decide

/-- Before the `max_age` of a policy has passed, a call ends in an error: a policy fetched since has
run out. -/
theorem shorter_policy_runs_out :
    (new.run [goodCall, shortCall, lateCall]).1 =
      [.returned (.ok (some goodPolicy)), .returned (.ok (some { goodPolicy with maxAge := 60 })),
        .returned (.error (.temporary "TXT lookup failed".toList))] ∧
      lateCall.start < goodCall.stored + goodPolicy.maxAge * second := by
  constructor <;> decide +kernel

lemma parse_shortCall : parse
    "version: STSv1\nmode: enforce\nmx: mx.good.example\nmax_age: 60\n".toList =
      .ok { goodPolicy with maxAge := 60 } := by
  decide +kernel

lemma shortCall_fits : shortCall.Fits := by
  refine ⟨fun _ => by decide, fun _ body policy _ hbody hparse => ?_⟩
  obtain rfl := Except.ok.inj hbody
  obtain rfl := Except.ok.inj (hparse.symm.trans parse_shortCall)
  decide

/-- The policy of `good.example` outlasts a lookup that fails, and a document under a new id
replaces it. -/
theorem kept_until_max_age_late :
    ((new.run [goodCall]).2.policy lateCall).1 = .returned (.ok (some goodPolicy)) ∧
      ((new.run [goodCall]).2.policy shortCall).2.cache goodCall.key =
        some (freshEntry "8".toList { goodPolicy with maxAge := 60 } (5 * second)) := by
  have hlate : lateCall.Fits := ⟨fun _ => by decide, fun _ _ _ _ hbody => absurd hbody nofun⟩
  have hkept := (kept_until_max_age [goodCall] (e := lateCall) (d := goodCall.key)
    (by decide +kernel) (forall_mem_cons.2 ⟨goodCall_fits, forall_mem_singleton.2 hlate⟩)
    (by decide +kernel)).1 [] goodCall [] goodPolicy rfl (by decide +kernel) rfl (by decide +kernel)
  have hreplaced := (kept_until_max_age [goodCall] (e := shortCall) (d := goodCall.key)
    (by decide +kernel) (forall_mem_cons.2 ⟨goodCall_fits, forall_mem_singleton.2 shortCall_fits⟩)
    (by decide +kernel)).2 "8".toList _ _ (by decide +kernel) (.inl (by decide +kernel)) rfl
    parse_shortCall
  exact ⟨hkept.trans (by decide +kernel), hreplaced.2⟩

end Epistle.Mtasts
