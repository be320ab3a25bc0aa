import Epistle.Lib.Tally
import Epistle.Lib.Word
import Mathlib.Data.BitVec

/-!
# The shared byte budget of message transfers

`smtp/memory_budget/mod.rs`: one budget every session draws from, and the reservations that hold
octets against it. A reservation gives its octets back when it is dropped; where the Rust drop
is implicit, the model calls `Reservation.drop`.

The budget is one shared value, so a reservation says only whether it is attached to it.
Counters are `u64`; the addition that the code leaves unchecked wraps.
-/

namespace Epistle.Smtp

open Lib List Function Option

/-- An address of either version. -/
inductive IpAddr
  | v4 (bits : BitVec 32)
  | v6 (bits : BitVec 128)
  deriving DecidableEq, Repr

/-- The address, of version four if it stands for one. -/
def IpAddr.toCanonical : IpAddr → IpAddr
  | .v4 bits => .v4 bits
  | .v6 bits => if bits >>> 32 = 0xffff#128 then .v4 (bits.setWidth 32) else .v6 bits

/-- The address a client is counted under (`smtp/per_ip`): its IPv4 address, or the /64 its IPv6
address belongs to. -/
def clientKey (ip : IpAddr) : IpAddr :=
  match ip.toCanonical with
  | .v6 bits => .v6 (bits &&& ~~~ (BitVec.ofNat 128 (2 ^ 64 - 1)))
  | v4 => v4

/-- The octets that are held, in all and by client. -/
structure Usage where
  used : ℕ
  perClient : IpAddr → Option ℕ

def Usage.empty : Usage := ⟨0, fun _ => none⟩

/-- A shared byte budget for in-flight message transfers. -/
structure MemoryBudget where
  /-- The bound on all that is held; `0` is no bound. -/
  cap : ℕ
  /-- The most one client may hold. -/
  clientShare : ℕ
  usage : Usage
  cap_lt : cap < 2 ^ 64
  clientShare_le : clientShare ≤ cap

namespace MemoryBudget

/-- A budget of which one client may have all. -/
def withCap (cap : ℕ) (h : cap < 2 ^ 64) : MemoryBudget := ⟨cap, cap, .empty, h, le_refl cap⟩

/-- The octets a client holds. -/
def held (self : MemoryBudget) (client : IpAddr) : ℕ := (self.usage.perClient client).getD 0

/-- Reserve octets for a client, if the budget and its share allow it. -/
def tryReserveFor (self : MemoryBudget) (client : Option IpAddr) (bytes : ℕ) :
    Except ℕ MemoryBudget :=
  if self.cap = 0 then .ok self
  else if saturatingAdd 64 self.usage.used bytes > self.cap then .error bytes
  else
    let used := wrappingAdd 64 self.usage.used bytes
    match client with
    | none => .ok { self with usage.used := used }
    | some client =>
        if saturatingAdd 64 (self.held client) bytes > self.clientShare then .error bytes
        else .ok { self with usage := {
          used
          perClient := update self.usage.perClient client
            (some (wrappingAdd 64 (self.held client) bytes)) } }

/-- Give a claim back. -/
def releaseFor (self : MemoryBudget) (client : Option IpAddr) (bytes : ℕ) : MemoryBudget :=
  if self.cap = 0 ∨ bytes = 0 then self
  else
    let used := self.usage.used - bytes
    match client with
    | none => { self with usage.used := used }
    | some client =>
        match self.usage.perClient client with
        | none => { self with usage.used := used }
        | some held => { self with usage := {
            used
            -- A client that holds nothing any more leaves the map.
            perClient := update self.usage.perClient client
              (if held - bytes = 0 then none else some (held - bytes)) } }

end MemoryBudget

/-- Octets held against the budget for one body or one chunk. -/
structure Reservation where
  /-- Whether the budget has been drawn on, so that a drop gives back. -/
  attached : Bool
  client : Option IpAddr
  bytes : ℕ
  deriving DecidableEq, Repr

namespace Reservation

def none : Reservation := ⟨false, .none, 0⟩

def attach (self : Reservation) (client : Option IpAddr) : Reservation :=
  if self.attached then self else { self with attached := true, client }

/-- Make a reservation larger. -/
def tryGrow (self : Reservation) (budget : MemoryBudget) (peer : Option IpAddr) (bytes : ℕ) :
    Except ℕ (Reservation × MemoryBudget) := do
  let client := peer.map clientKey
  let budget ← budget.tryReserveFor client bytes
  return ({ self.attach client with bytes := saturatingAdd 64 self.bytes bytes }, budget)

/-- Put one reservation into another. -/
def absorb (self other : Reservation) : Reservation :=
  let bytes := saturatingAdd 64 self.bytes other.bytes
  if self.attached then { self with bytes } else { other with bytes }

/-- Give a reservation back. -/
def drop (self : Reservation) (budget : MemoryBudget) : MemoryBudget :=
  if self.attached then budget.releaseFor self.client self.bytes else budget

def claim (self : Reservation) : Claim IpAddr := ⟨self.client, self.bytes⟩

@[simp] lemma claim_key (r : Reservation) : r.claim.key = r.client := rfl
@[simp] lemma claim_amount (r : Reservation) : r.claim.amount = r.bytes := rfl
@[simp]
lemma attach_attached (r : Reservation) (client : Option IpAddr) :
    (r.attach client).attached = true := by
  unfold attach
  split_ifs with h
  · exact h
  · rfl

lemma attach_client {r : Reservation} {client : Option IpAddr}
    (h : r.attached = true → r.client = client) : (r.attach client).client = client := by
  unfold attach
  split_ifs with hatt
  · exact h hatt
  · rfl

lemma absorb_client {r o : Reservation} {client : Option IpAddr}
    (hr : r.attached = true → r.client = client) (ho : o.attached = true → o.client = client)
    (h : (r.absorb o).attached = true) : (r.absorb o).client = client := by
  unfold absorb at h ⊢
  dsimp only at h ⊢
  split_ifs at h ⊢ with hatt
  · exact hr hatt
  · exact ho h

@[simp] lemma none_bytes : none.bytes = 0 := rfl

@[simp] lemma drop_none (m : MemoryBudget) : none.drop m = m := rfl

end Reservation

/-! ## Keeping the books -/

/-- The limits of a budget never change. -/
structure SameCaps (m m' : MemoryBudget) : Prop where
  cap : m'.cap = m.cap
  clientShare : m'.clientShare = m.clientShare

lemma SameCaps.trans {m₁ m₂ m₃ : MemoryBudget} (h₁ : SameCaps m₁ m₂) (h₂ : SameCaps m₂ m₃) :
    SameCaps m₁ m₃ :=
  ⟨h₂.1.trans h₁.1, h₂.2.trans h₁.2⟩

open MemoryBudget

lemma releaseFor_caps (m : MemoryBudget) (client : Option IpAddr) (n : ℕ) :
    SameCaps m (m.releaseFor client n) := by
  unfold releaseFor
  split_ifs
  · exact ⟨rfl, rfl⟩
  · cases client with
    | none => exact ⟨rfl, rfl⟩
    | some c => dsimp only; split <;> exact ⟨rfl, rfl⟩

lemma drop_caps (r : Reservation) (m : MemoryBudget) : SameCaps m (r.drop m) := by
  unfold Reservation.drop
  split_ifs
  · exact releaseFor_caps ..
  · exact ⟨rfl, rfl⟩

lemma tryReserveFor_caps {m m' : MemoryBudget} {client : Option IpAddr} {n : ℕ}
    (h : m.tryReserveFor client n = .ok m') : SameCaps m m' := by
  unfold tryReserveFor at h
  split_ifs at h
  · cases h
    exact ⟨rfl, rfl⟩
  · cases client with
    | none =>
      cases h
      exact ⟨rfl, rfl⟩
    | some c =>
      dsimp only at h
      split_ifs at h
      cases h
      exact ⟨rfl, rfl⟩

/-- The counters agree with the live reservations `rs`, no client has a counter at zero, and
neither limit is passed. -/
structure Accounts (m : MemoryBudget) (rs : List Reservation) : Prop where
  tallies : Tallies m.usage.used m.usage.perClient (rs.map Reservation.claim)
  used_le : m.usage.used ≤ m.cap
  held_le : ∀ c, m.held c ≤ m.clientShare
  detached : ∀ r ∈ rs, r.attached = false → r = .none

/-- A claim that leaves no counter at zero, and that even an unlimited word can count. -/
structure Countable (m : MemoryBudget) (client : Option IpAddr) (bytes : ℕ) : Prop where
  not_idle : ∀ c, client = some c → 0 < bytes ∨ 0 < m.held c
  no_wrap : m.cap = wordMax 64 → m.usage.used + bytes ≤ wordMax 64

section Accounts

variable {m : MemoryBudget} {r : Reservation} {rs : List Reservation}

lemma Accounts.perm {rs' : List Reservation} (h : Accounts m rs) (hp : rs.Perm rs') :
    Accounts m rs' where
  tallies := h.tallies.perm (hp.map _)
  used_le := h.used_le
  held_le := h.held_le
  detached r hr := h.detached r (hp.mem_iff.2 hr)

lemma accounts_none_cons : Accounts m (.none :: rs) ↔ Accounts m rs := by
  constructor
  · intro h
    exact ⟨(tallies_cons_zero rfl).1 h.tallies, h.used_le, h.held_le,
      fun r hr => h.detached r (mem_cons_of_mem _ hr)⟩
  · intro h
    refine ⟨(tallies_cons_zero rfl).2 h.tallies, h.used_le, h.held_le, fun r hr hd => ?_⟩
    rcases mem_cons.1 hr with rfl | hr
    · rfl
    · exact h.detached r hr hd

lemma Accounts.bytes_le_used (h : Accounts m (r :: rs)) : r.bytes ≤ m.usage.used := by
  rw [h.tallies.sum_eq, map_cons, total_cons]
  exact Nat.le_add_right ..

lemma Accounts.held_le_used (h : Accounts m rs) (c : IpAddr) : m.held c ≤ m.usage.used := by
  rw [held, h.tallies.getD, h.tallies.sum_eq]
  exact totalFor_le_total c _

lemma Accounts.drop (h : Accounts m (r :: rs)) : Accounts (r.drop m) rs := by
  have hrs : ∀ x ∈ rs, x.attached = false → x = .none :=
    fun x hx => h.detached x (mem_cons_of_mem _ hx)
  -- A reservation that never drew on the budget holds nothing.
  by_cases hatt : r.attached = true
  swap
  · have hr := h.detached r (mem_cons_self ..) (by simpa using hatt)
    rw [hr] at h ⊢
    exact accounts_none_cons.1 h
  rw [Reservation.drop, if_pos hatt]
  have hused := h.bytes_le_used
  have hcap := h.used_le
  unfold MemoryBudget.releaseFor
  split_ifs with h0
  · have hzero : r.claim.amount = 0 := by
      rw [Reservation.claim_amount]
      omega
    exact ⟨(tallies_cons_zero hzero).1 h.tallies, h.used_le, h.held_le, hrs⟩
  cases hclient : r.client with
  | none =>
    exact ⟨h.tallies.release_none hclient, by dsimp only; omega, h.held_le, hrs⟩
  | some c =>
    -- The client holds at least these octets, so it has a counter.
    have hheld := h.tallies.getD c
    rw [map_cons, totalFor_cons, Reservation.claim_key, if_pos hclient,
      Reservation.claim_amount] at hheld
    cases hper : m.usage.perClient c with
    | none =>
      rw [hper, getD_none] at hheld
      omega
    | some held =>
      simp only [hper]
      refine ⟨h.tallies.release hclient hper, by dsimp only; omega, fun c' => ?_, hrs⟩
      have hle := h.held_le c'
      simp only [MemoryBudget.held] at hle ⊢
      by_cases hc : c' = c
      · subst hc
        rw [hper, getD_some] at hle
        rw [update_self]
        split_ifs
        · exact Nat.zero_le _
        · rw [getD_some]
          omega
      · rwa [update_of_ne hc]

lemma tryReserveFor_ok {m' : MemoryBudget} {client : Option IpAddr} {n : ℕ}
    (hcap : 0 < m.cap) (h : Accounts m rs) (hn : Countable m client n)
    (hok : m.tryReserveFor client n = .ok m') :
    m.usage.used + n ≤ m.cap ∧ m'.usage.used = m.usage.used + n ∧
      (client = none → m'.usage.perClient = m.usage.perClient) ∧
      ∀ c, client = some c → m.held c + n ≤ m.clientShare ∧
        m'.usage.perClient = update m.usage.perClient c (some (m.held c + n)) := by
  have hword := le_wordMax.2 m.cap_lt
  have hshare := m.clientShare_le
  unfold tryReserveFor at hok
  rw [if_neg (by omega)] at hok
  split_ifs at hok with hroom
  -- With the largest cap the saturating comparison never refuses, so `no_wrap` is needed there.
  have hused : m.usage.used + n ≤ m.cap := by
    by_cases hmax : m.cap = wordMax 64
    · rw [hmax]
      exact hn.no_wrap hmax
    · exact add_le_of_saturatingAdd_le (by omega) (Nat.le_of_not_lt hroom)
  cases client with
  | none =>
    cases hok
    exact ⟨hused, wrappingAdd_eq (by omega), fun _ => rfl, by simp⟩
  | some c =>
    have hheld := h.held_le_used c
    dsimp only at hok
    split_ifs at hok with hfit
    cases hok
    rw [saturatingAdd_eq (by omega)] at hfit
    have hper : wrappingAdd 64 (m.held c) n = m.held c + n := wrappingAdd_eq (by omega)
    refine ⟨hused, wrappingAdd_eq (by omega), by simp, fun c' hc' => ?_⟩
    cases hc'
    exact ⟨Nat.le_of_not_lt hfit, by simp only [hper]⟩

lemma Accounts.grow {m' : MemoryBudget} {r' : Reservation} {peer : Option IpAddr} {n : ℕ}
    (hcap : 0 < m.cap) (h : Accounts m (r :: rs))
    (hclient : r.attached = true → r.client = peer.map clientKey)
    (hn : Countable m (peer.map clientKey) n) (hok : r.tryGrow m peer n = .ok (r', m')) :
    Accounts m' (r' :: rs) ∧ r'.client = peer.map clientKey ∧ SameCaps m m' := by
  have hword := le_wordMax.2 m.cap_lt
  unfold Reservation.tryGrow at hok
  cases hres : m.tryReserveFor (peer.map clientKey) n with
  | error e => simp [hres, bind, Except.bind] at hok
  | ok m₁ =>
    simp only [hres, bind, Except.bind, pure, Except.pure, Except.ok.injEq, Prod.mk.injEq] at hok
    obtain ⟨rfl, rfl⟩ := hok
    obtain ⟨hused, hsum, hnone, hsome⟩ := tryReserveFor_ok hcap h hn hres
    obtain ⟨hcap₁, hshare₁⟩ := tryReserveFor_caps hres
    have hbytes : saturatingAdd 64 r.bytes n = r.bytes + n := by
      have := h.bytes_le_used
      exact saturatingAdd_eq (by omega)
    have hclient' := Reservation.attach_client hclient
    refine ⟨⟨?_, by omega, ?_, ?_⟩, hclient', hcap₁, hshare₁⟩
    · -- Before its first claim the reservation is empty, so it counts for any client.
      have htallies : Tallies m.usage.used m.usage.perClient
          (⟨peer.map clientKey, r.bytes⟩ :: rs.map Reservation.claim) := by
        by_cases hatt : r.attached = true
        · simpa [Reservation.claim, hclient hatt] using h.tallies
        · have hr := h.detached r (mem_cons_self ..) (by simpa using hatt)
          have h0 : r.bytes = 0 := by rw [hr, Reservation.none_bytes]
          exact (tallies_cons_zero h0).2 ((tallies_cons_zero (by simpa using h0)).1 h.tallies)
      simp only [map_cons, Reservation.claim, hclient', hbytes, hsum]
      cases hkey : peer.map clientKey with
      | none =>
        rw [hkey] at htallies
        rw [hnone hkey]
        exact htallies.charge_none rfl n
      | some c =>
        rw [hkey] at htallies
        rw [(hsome c hkey).2]
        have hidle := hn.not_idle c hkey
        exact htallies.charge rfl (by unfold held at hidle; omega)
    · intro c
      have hle := h.held_le c
      unfold held at hle ⊢
      cases hkey : peer.map clientKey with
      | none => rwa [hnone hkey, hshare₁]
      | some c₀ =>
        obtain ⟨hfit, hper⟩ := hsome c₀ hkey
        rw [hper, hshare₁]
        by_cases hc : c = c₀
        · subst hc
          rw [update_self, getD_some]
          exact hfit
        · rwa [update_of_ne hc]
    · intro x hx hd
      rcases mem_cons.1 hx with rfl | hx
      · simp at hd
      · exact h.detached x (mem_cons_of_mem _ hx) hd

lemma Accounts.absorb {o : Reservation} (h : Accounts m (r :: o :: rs))
    (hclient : r.attached = true → o.attached = true → r.client = o.client) :
    Accounts m (r.absorb o :: rs) := by
  have hr := h.detached r (by simp)
  have ho := h.detached o (by simp)
  have hrs : ∀ x ∈ rs, x.attached = false → x = .none := fun x hx => h.detached x (by simp [hx])
  have hsum : saturatingAdd 64 r.bytes o.bytes = r.bytes + o.bytes := by
    have hword := le_wordMax.2 m.cap_lt
    have htotal := h.tallies.sum_eq
    have hused := h.used_le
    simp only [map_cons, total_cons, Reservation.claim_amount] at htotal
    exact saturatingAdd_eq (by omega)
  have habsorb : r.absorb o = if r.attached then { r with bytes := r.bytes + o.bytes }
      else { o with bytes := r.bytes + o.bytes } := by
    simp only [Reservation.absorb, hsum]
  -- Whichever of the two never drew on the budget is empty and drops out of the sum.
  cases hratt : r.attached with
  | false =>
    have ho' : r.absorb o = o := by
      rw [habsorb, hr hratt]
      simp [Reservation.none]
    rw [ho']
    rw [hr hratt] at h
    exact accounts_none_cons.1 h
  | true =>
    cases hoatt : o.attached with
    | false =>
      have hr' : r.absorb o = r := by
        rw [habsorb, if_pos hratt, ho hoatt, Reservation.none_bytes, add_zero]
      rw [hr']
      rw [ho hoatt] at h
      exact accounts_none_cons.1 (h.perm (List.Perm.swap ..))
    | true =>
      rw [habsorb, if_pos hratt]
      refine ⟨?_, h.used_le, h.held_le, ?_⟩
      · exact h.tallies.merge (hclient hratt hoatt)
      · intro x hx hd
        rcases mem_cons.1 hx with rfl | hx
        · simp [hratt] at hd
        · exact hrs x hx hd

end Accounts

end Epistle.Smtp
