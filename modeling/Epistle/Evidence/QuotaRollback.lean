import Epistle.Evidence.QuotaInvariants

/-!
# A reservation that is given back

What a reservation and its release leave of the book. With nothing in between, the counts are those
of the day the reservation was asked for, exactly. The limits are below the largest word, so that a
sum which saturates passes none of them.

* `reservation_leaves_no_trace`: what a reservation leaves of a book in balance.
* `reservation_keeps_others_out`: while it is held, others may be refused.
-/

namespace Epistle.Evidence.Quota

open Lib List Option

/-! ## Giving back at once -/

open Table

namespace State

/-- No account is listed that holds nothing. -/
def NoneEmpty (s : State) : Prop := ∀ account, s.accounts.get account ≠ some .none

/-- The counts once a reservation is made. -/
def charged (s : State) (limits : Limits) (account : String) (id : Uuid) (recipients kept : ℕ) :
    State :=
  let added := (s.add limits account (wrappingAdd 64 1 recipients) kept).1
  if 0 < recipients then added.track id ⟨recipients, s.day, account⟩ else added

lemma untrack_track {s : State} {id : Uuid} {owed : Owed} (hfresh : s.owed.get id = none)
    (hcount : s.owedPer.get owed.account ≠ some 0) : (s.track id owed).untrack id = s := by
  have htrack : s.track id owed = { s with
      owed := s.owed.set id owed
      owedPer := s.owedPer.set owed.account ((s.owedPer.get owed.account).getD 0 + 1) } := by
    rw [track, hfresh]
  have hget : (s.track id owed).owed.get id = some owed := by
    rw [htrack, get_set, if_pos rfl]
  rw [untrack_of_some hget, htrack]
  have howed : (s.owed.set id owed).erase id = s.owed := by
    refine ext_get fun i => ?_
    rw [get_erase, get_set]
    split_ifs with hi
    · rw [hi, hfresh]
    · rfl
  unfold uncount
  dsimp only
  rw [get_set, if_pos rfl, howed]
  dsimp only
  rw [Nat.add_sub_cancel]
  -- the count of the account goes back to what it was, or goes with the message
  have hper : (if (s.owedPer.get owed.account).getD 0 = 0 then
        (s.owedPer.set owed.account ((s.owedPer.get owed.account).getD 0 + 1)).erase owed.account
      else (s.owedPer.set owed.account ((s.owedPer.get owed.account).getD 0 + 1)).set owed.account
        ((s.owedPer.get owed.account).getD 0)) = s.owedPer := by
    refine ext_get fun b => ?_
    cases hold : s.owedPer.get owed.account with
    | none =>
      rw [getD_none, if_pos rfl, get_erase, get_set]
      split_ifs with hb
      · rw [hb, hold]
      · rfl
    | some count =>
      have hne : count ≠ 0 := fun hzero => hcount (hzero ▸ hold)
      rw [getD_some, if_neg hne, get_set, get_set]
      split_ifs with hb
      · rw [hb, hold]
      · rfl
  rw [hper]

end State

/-- A book that is in use: it was rebuilt. -/
structure Book.Ready (book : Book) : Prop where
  loaded : book.loaded = true
  available : book.unavailable = none

/-- A sum that saturates passes none of the limits. -/
structure Limits.Small (limits : Limits) : Prop where
  records_lt : limits.accountRecords < wordMax 64
  kept_lt : limits.accountKeptBytes < wordMax 64
  day_lt : limits.dayRecords < wordMax 64

/-- The limits have room for what a reservation counts. -/
structure State.Admits (s : State) (limits : Limits) (account : String) (records kept : ℕ) :
    Prop where
  share : (s.held account).records + records ≤ limits.accountRecords
  bytes : (s.held account).bytes + kept ≤ limits.accountKeptBytes
  day : s.within + records ≤ limits.dayRecords

open State

open Book

section Reserve

variable {limits : Limits} {book : Book} {account : String} {id : Uuid} {recipients kept : ℕ}

lemma State.Admits.aside {s : State} {records : ℕ} (h : s.Admits limits account records kept) :
    (s.add limits account records kept).2 = records := by
  obtain ⟨hshare, -, hday⟩ := h
  change min (min records (limits.accountRecords - (s.held account).records))
    (limits.dayRecords - s.within) = records
  omega

lemma Book.reserve_cases (hsmall : limits.Small) (log : DayLog) (due : Bool) (account : String)
    (id : Uuid) (recipients kept : ℕ) (today : ℤ) (hready : book.Ready) :
    (∃ why, book.reserve limits log due account id recipients kept today =
        (.error why, { book with state := book.state.roll today })) ∨
      (book.state.roll today).Admits limits account (wrappingAdd 64 1 recipients) kept ∧
      book.reserve limits log due account id recipients kept today =
        (.ok ⟨id, account, wrappingAdd 64 1 recipients, kept, wrappingAdd 64 1 recipients,
            (book.state.roll today).day⟩,
          { book with
            state := (book.state.roll today).charged limits account id recipients kept }) := by
  have hensure : book.ensure limits log today = book := by rw [ensure, if_pos hready.loaded]
  rw [reserve, hensure, hready.available]
  simp only [isSome_none, Bool.false_and, Bool.false_eq_true, if_false, hready.available]
  generalize book.state.roll today = s
  split_ifs with hroom hshare hbytes hday hrecipients
  · exact .inl ⟨_, rfl⟩
  · exact .inl ⟨_, rfl⟩
  · exact .inl ⟨_, rfl⟩
  · exact .inl ⟨_, rfl⟩
  all_goals
    have hadmits : s.Admits limits account (wrappingAdd 64 1 recipients) kept := by
      have hrecords := add_le_of_saturatingAdd_le hsmall.records_lt (not_lt.1 hshare)
      have hwithin := add_le_of_saturatingAdd_le hsmall.day_lt (not_lt.1 hday)
      exact ⟨hrecords, add_le_of_saturatingAdd_le hsmall.kept_lt (not_lt.1 hbytes), by omega⟩
    refine .inr ⟨hadmits, ?_⟩
    rw [charged, hadmits.aside]
  · rw [if_pos hrecipients]
  · rw [if_neg hrecipients]

lemma State.accounts_withEntry {s : State} (hempty : s.NoneEmpty) (account : String)
    (records kept : ℕ) :
    withEntry (s.accounts.set account
        ⟨(s.held account).records + records, (s.held account).bytes + kept⟩) account
      ⟨(s.held account).records + records - records, (s.held account).bytes + kept - kept⟩ =
      s.accounts := by
  rw [Nat.add_sub_cancel, Nat.add_sub_cancel]
  refine ext_get fun b => ?_
  have hne := hempty account
  unfold withEntry held
  cases hold : s.accounts.get account with
  | none =>
    rw [getD_none, if_pos rfl, get_erase, get_set]
    split_ifs with hb
    · rw [hb, hold]
    · rfl
  | some entry =>
    have hentry : entry ≠ .none := fun heq => hne (heq ▸ hold)
    rw [getD_some, if_neg hentry, get_set, get_set]
    split_ifs with hb
    · rw [hb, hold]
    · rfl

lemma State.release_charged {s : State} (hsmall : limits.Small) (hsound : s.Sound limits)
    (hempty : s.NoneEmpty) (hfresh : s.owed.get id = none)
    (hfits : s.total + (1 + recipients) ≤ wordMax 64)
    (hadmits : s.Admits limits account (1 + recipients) kept) :
    (release { book with state := s.charged limits account id recipients kept }
      ⟨id, account, 1 + recipients, kept, 1 + recipients, s.day⟩).state = s := by
  have hrecords : wrappingAdd 64 1 recipients = 1 + recipients := wrappingAdd_eq (by omega)
  have hbytes : (s.held account).bytes + kept ≤ wordMax 64 := hadmits.bytes.trans hsmall.kept_lt.le
  have hadd := hsound.add_eq account kept hfits
  have haside := hadmits.aside
  set added := (s.add limits account (1 + recipients) kept).1 with hadded
  have hfreshAdded : added.owed.get id = none := hfresh
  have hcharged : State.SameCounts added (s.charged limits account id recipients kept) ∧
      (s.charged limits account id recipients kept).untrack id = added := by
    unfold charged
    rw [hrecords]
    split_ifs with hrecipients
    · refine ⟨track_same .., untrack_track hfreshAdded ?_⟩
      intro hzero
      have hper : s.owedPer.get account = some 0 := hzero
      rw [hsound.owedPer_eq] at hper
      split_ifs at hper with hnone
      exact hnone (some.inj hper)
    · exact ⟨⟨rfl, rfl, rfl, rfl⟩, untrack_of_none hfreshAdded⟩
  obtain ⟨⟨hday, htotal, hwithin, haccounts⟩, huntrack⟩ := hcharged
  -- Nothing wraps around, so what is counted is there to be given back.
  have hentries : added.accounts = s.accounts.set account
      ⟨(s.held account).records + (1 + recipients), (s.held account).bytes + kept⟩ := by
    rw [hadded, hadd, wrappingAdd_eq hbytes]
  have hentry : (s.charged limits account id recipients kept).accounts.get account =
      some ⟨(s.held account).records + (1 + recipients), (s.held account).bytes + kept⟩ := by
    rw [haccounts, hentries]
    exact (get_set ..).trans (if_pos rfl)
  rw [release_state hday hentry]
  dsimp only
  have hback := accounts_withEntry hempty account (1 + recipients) kept
  have hwithin' : added.within = s.within + (1 + recipients) := by
    rw [hadd] at haside
    rw [hadded, hadd]
    exact congrArg (s.within + ·) haside
  have htotal' : added.total = s.total + (1 + recipients) := by rw [hadded, hadd]
  rw [huntrack, htotal, hwithin, haccounts, htotal', hwithin', hentries, Nat.add_sub_cancel,
    Nat.add_sub_cancel]
  exact congrArg (fun accounts => { s with accounts := accounts }) hback

end Reserve

/-! ## Calls for other accounts in between -/

/-- Two books that may differ in one account and one message, which the first does not know. -/
structure State.Beside (account : String) (id : Uuid) (s s' : State) : Prop where
  day : s'.day = s.day
  accounts : ∀ b ≠ account, s'.accounts.get b = s.accounts.get b
  owed : ∀ i ≠ id, s'.owed.get i = s.owed.get i
  unknown : s.owed.get id = none

namespace State.Beside

variable {account : String} {id : Uuid} {s s' : State} {limits : Limits}

variable {b : String} {i : Uuid}

lemma held (h : Beside account id s s') (hb : b ≠ account) : s'.held b = s.held b := by
  rw [State.held, State.held, h.accounts b hb]

lemma uncount (h : Beside account id s s') (b b' : String) :
    Beside account id (s.uncount b) (s'.uncount b') := by
  obtain ⟨⟨hday, -, -, haccounts⟩, howed⟩ := uncount_same s b
  obtain ⟨⟨hday', -, -, haccounts'⟩, howed'⟩ := uncount_same s' b'
  refine ⟨?_, ?_, ?_, ?_⟩
  · rw [hday, hday', h.day]
  · rw [haccounts, haccounts']
    exact h.accounts
  · rw [howed, howed']
    exact h.owed
  · rw [howed]
    exact h.unknown

lemma untrack (h : Beside account id s s') (hi : i ≠ id) :
    Beside account id (s.untrack i) (s'.untrack i) := by
  have hget := h.owed i hi
  cases howed : s.owed.get i with
  | none =>
    rw [howed] at hget
    rw [untrack_of_none howed, untrack_of_none hget]
    exact h
  | some owed =>
    rw [howed] at hget
    rw [untrack_of_some howed, untrack_of_some hget]
    have herased : Beside account id { s with owed := s.owed.erase i }
        { s' with owed := s'.owed.erase i } := by
      refine ⟨h.day, h.accounts, fun i' hi' => ?_, ?_⟩
      · rw [get_erase, get_erase, h.owed i' hi']
      · rw [get_erase, if_neg (Ne.symm hi), h.unknown]
    exact herased.uncount _ _

lemma setOwed (h : Beside account id s s') (hi : i ≠ id) (owed : Owed) :
    Beside account id { s with owed := s.owed.set i owed }
      { s' with owed := s'.owed.set i owed } := by
  refine ⟨h.day, h.accounts, fun i' hi' => ?_, ?_⟩
  · rw [get_set, get_set, h.owed i' hi']
  · rw [get_set, if_neg (Ne.symm hi), h.unknown]

lemma track (h : Beside account id s s') (hi : i ≠ id) (owed : Owed) :
    Beside account id (s.track i owed) (s'.track i owed) := by
  obtain ⟨⟨hday, -, -, haccounts⟩, howed⟩ := replaced_same s i owed
  obtain ⟨⟨hday', -, -, haccounts'⟩, howed'⟩ := replaced_same s' i owed
  obtain ⟨-, -, hset, hunknown⟩ := h.setOwed hi owed
  rw [track_eq, track_eq]
  refine ⟨?_, ?_, ?_, ?_⟩
  · dsimp only
    rw [hday, hday', h.day]
  · dsimp only
    rw [haccounts, haccounts']
    exact h.accounts
  · dsimp only
    rw [howed, howed']
    exact hset
  · dsimp only
    rw [howed]
    exact hunknown

lemma add (h : Beside account id s s') (hb : b ≠ account) (records kept : ℕ) :
    Beside account id (s.add limits b records kept).1 (s'.add limits b records kept).1 := by
  refine ⟨h.day, fun b' hb' => ?_, h.owed, h.unknown⟩
  change (s'.accounts.set b _).get b' = (s.accounts.set b _).get b'
  rw [get_set, get_set, h.held hb, h.accounts b' hb']

lemma settle (h : Beside account id s s') {b : Option String}
    (hb : b.getD unattributed ≠ account) (hi : i ≠ id) (ends : Bool) :
    Beside account id (s.settle limits b i ends) (s'.settle limits b i ends) := by
  have hget := h.owed i hi
  unfold State.settle
  rw [hget]
  cases s.owed.get i with
  | none => exact h.add hb 1 0
  | some owed =>
    dsimp only
    split_ifs with hleft hends hends
    · exact (h.setOwed hi _).untrack hi
    · exact h.setOwed hi _
    · exact (h.untrack hi).add hb 1 0
    · exact h.add hb 1 0

lemma release (h : Beside account id s s') {book book' : Book} (hs : book.state = s)
    (hs' : book'.state = s') {held : Reservation} (hb : held.account ≠ account)
    (hi : held.id ≠ id) :
    Beside account id (book.release held).state (book'.release held).state := by
  subst hs hs'
  have hun := h.untrack hi
  have hget := hun.accounts held.account hb
  unfold release
  dsimp only
  rw [hun.day, hget]
  split_ifs with hday
  · exact hun
  · refine ⟨rfl, fun b hb' => ?_, hun.owed, hun.unknown⟩
    dsimp only
    cases (book.state.untrack held.id).accounts.get held.account with
    | none => exact hun.accounts b hb'
    | some entry =>
      dsimp only
      split_ifs
      · rw [get_erase, get_erase, hun.accounts b hb']
      · rw [get_set, get_set, hun.accounts b hb']

lemma charged (h : Beside account id s s') (hb : b ≠ account) (hi : i ≠ id)
    (recipients kept : ℕ) :
    Beside account id (s.charged limits b i recipients kept)
      (s'.charged limits b i recipients kept) := by
  have hadd : Beside account id (s.add limits b (wrappingAdd 64 1 recipients) kept).1
      (s'.add limits b (wrappingAdd 64 1 recipients) kept).1 := h.add hb _ kept
  unfold State.charged
  dsimp only
  rw [h.day]
  split_ifs
  · exact hadd.track hi _
  · exact hadd

end State.Beside

/-- A call, not of a later day, for other accounts and messages. -/
def Call.Elsewhere (account : String) (id : Uuid) (day : ℤ) : Call → Prop
  | .reserve _ _ b i _ _ today => b ≠ account ∧ i ≠ id ∧ today ≤ day
  | .release held => held.account ≠ account ∧ held.id ≠ id
  | .fact _ b i today => b.getD unattributed ≠ account ∧ i ≠ id ∧ today ≤ day
  | .ended _ b i today => b.getD unattributed ≠ account ∧ i ≠ id ∧ today ≤ day

instance (account : String) (id : Uuid) (day : ℤ) : DecidablePred (Call.Elsewhere account id day)
  | .reserve .. | .release _ | .fact .. | .ended .. => inferInstanceAs (Decidable (_ ∧ _))

/-- Whether a call is granted. -/
def World.grants (limits : Limits) (w : World) : Call → Bool
  | .reserve log due account id recipients kept today =>
      (w.book.reserve limits log due account id recipients kept today).1.isOk
  | _ => true

open World

/-- The answers to calls one after the other. -/
def World.answers (limits : Limits) : World → List Call → List Bool
  | _, [] => []
  | w, call :: calls => w.grants limits call :: answers limits (w.step limits call) calls

/-- Two quotas in use on a day, whose books may differ in one account and one message. -/
structure World.Beside (account : String) (id : Uuid) (day : ℤ) (w w' : World) : Prop where
  state : w.book.state.Beside account id w'.book.state
  day_eq : w.book.state.day = day
  ready : w.book.Ready
  ready' : w'.book.Ready
  outstanding : ∀ r : Reservation, r.account ≠ account →
    w'.outstanding.count r = w.outstanding.count r

variable {s : State} {book : Book} {id : Uuid}

lemma State.roll_of_le {today : ℤ} (h : today ≤ s.day) : s.roll today = s := by
  rw [roll, if_neg (not_lt.2 h)]

lemma State.day_charged (s : State) (limits : Limits) (account : String) (id : Uuid)
    (recipients kept : ℕ) : (s.charged limits account id recipients kept).day = s.day := by
  unfold charged
  dsimp only
  split_ifs
  · exact (track_same ..).day
  · rfl

lemma State.day_settle (s : State) (limits : Limits) (account : Option String) (id : Uuid)
    (ends : Bool) : (s.settle limits account id ends).day = s.day := by
  cases howed : s.owed.get id with
  | none =>
    rw [settle, howed]
    rfl
  | some owed =>
    rw [settle, howed]
    dsimp only
    split_ifs
    · exact (untrack_same ..).day
    · rfl
    · exact (untrack_same ..).day
    · rfl

lemma Book.day_release (book : Book) (held : Reservation) :
    (book.release held).state.day = book.state.day := by
  rw [← (book.state.untrack_same held.id).day, release]
  dsimp only
  split_ifs <;> rfl

lemma Book.Ready.release (h : book.Ready) (held : Reservation) : (book.release held).Ready := by
  rw [Book.release]
  dsimp only
  split_ifs <;> exact ⟨h.loaded, h.available⟩

lemma Book.Ready.settled_state (h : book.Ready) {today : ℤ} (hday : today ≤ book.state.day)
    (limits : Limits) (log : DayLog) (account : Option String) (id : Uuid) (ends : Bool) :
    book.settled limits log account id ends today =
      { book with state := book.state.settle limits account id ends } := by
  rw [settled, ensure, if_pos h.loaded, roll_of_le hday]

namespace World.Beside

variable {account : String} {id : Uuid} {day : ℤ} {w w' : World} {limits : Limits}

lemma day_eq' (h : Beside account id day w w') : w'.book.state.day = day :=
  h.state.day.trans h.day_eq

lemma settled (h : Beside account id day w w') {b : Option String}
    (hb : b.getD unattributed ≠ account) {i : Uuid} (hi : i ≠ id) {today : ℤ} (htoday : today ≤ day)
    (log : DayLog) (ends : Bool) :
    Beside account id day { w with book := w.book.settled limits log b i ends today }
      { w' with book := w'.book.settled limits log b i ends today } := by
  rw [h.ready.settled_state (h.day_eq.symm ▸ htoday),
    h.ready'.settled_state (h.day_eq'.symm ▸ htoday)]
  exact {
    state := h.state.settle hb hi ends
    day_eq := (day_settle ..).trans h.day_eq
    ready := ⟨h.ready.loaded, h.ready.available⟩
    ready' := ⟨h.ready'.loaded, h.ready'.available⟩
    outstanding := h.outstanding }

lemma reserve (hsmall : limits.Small) (h : Beside account id day w w') {b : String}
    (hb : b ≠ account) {i : Uuid}
    (hi : i ≠ id) {today : ℤ} (htoday : today ≤ day) (log : DayLog) (due : Bool)
    (recipients kept : ℕ)
    (hanswer : (w'.book.reserve limits log due b i recipients kept today).1.isOk =
      (w.book.reserve limits log due b i recipients kept today).1.isOk) :
    Beside account id day (w.step limits (.reserve log due b i recipients kept today))
      (w'.step limits (.reserve log due b i recipients kept today)) := by
  have hroll : w.book.state.roll today = w.book.state := roll_of_le (h.day_eq.symm ▸ htoday)
  have hroll' : w'.book.state.roll today = w'.book.state := roll_of_le (h.day_eq'.symm ▸ htoday)
  have hcases := reserve_cases hsmall log due b i recipients kept today h.ready
  have hcases' := reserve_cases hsmall log due b i recipients kept today h.ready'
  rw [hroll] at hcases
  rw [hroll'] at hcases'
  rw [step, step]
  obtain ⟨why, heq⟩ | ⟨-, heq⟩ := hcases <;> obtain ⟨why', heq'⟩ | ⟨-, heq'⟩ := hcases'
  · -- both refuse, and neither book changes
    rw [heq, heq']
    exact h
  · rw [heq, heq'] at hanswer
    cases hanswer
  · rw [heq, heq'] at hanswer
    cases hanswer
  · rw [heq, heq', h.state.day]
    refine ⟨h.state.charged hb hi recipients kept, ?_, ⟨h.ready.loaded, h.ready.available⟩,
      ⟨h.ready'.loaded, h.ready'.available⟩, fun r hr => ?_⟩
    · exact (day_charged ..).trans h.day_eq
    · dsimp only
      rw [count_cons, count_cons, h.outstanding r hr]

lemma release (h : Beside account id day w w') {held : Reservation} (hb : held.account ≠ account)
    (hi : held.id ≠ id) :
    Beside account id day (w.step limits (.release held)) (w'.step limits (.release held)) := by
  have hcount := h.outstanding held hb
  have hmem : held ∈ w'.outstanding ↔ held ∈ w.outstanding := by
    rw [← count_pos_iff, hcount, count_pos_iff]
  rw [step, step]
  by_cases hheld : held ∈ w.outstanding
  · rw [if_pos hheld, if_pos (hmem.2 hheld)]
    refine ⟨h.state.release rfl rfl hb hi, ?_, h.ready.release held, h.ready'.release held,
      fun r hr => ?_⟩
    · exact (day_release ..).trans h.day_eq
    · dsimp only
      rw [count_erase, count_erase, h.outstanding r hr]
  · rw [if_neg hheld, if_neg (mt hmem.1 hheld)]
    exact h

lemma step (hsmall : limits.Small) (h : Beside account id day w w') {call : Call}
    (hcall : call.Elsewhere account id day)
    (hanswer : w'.grants limits call = w.grants limits call) :
    Beside account id day (w.step limits call) (w'.step limits call) := by
  cases call with
  | reserve log due b i recipients kept today =>
    obtain ⟨hb, hi, htoday⟩ := hcall
    exact reserve hsmall h hb hi htoday log due recipients kept hanswer
  | release held =>
    obtain ⟨hb, hi⟩ := hcall
    exact h.release hb hi
  | fact log b i today =>
    obtain ⟨hb, hi, htoday⟩ := hcall
    exact h.settled hb hi htoday log false
  | ended log b i today =>
    obtain ⟨hb, hi, htoday⟩ := hcall
    exact h.settled hb hi htoday log true

lemma run (hsmall : limits.Small) (h : Beside account id day w w') {calls : List Call}
    (hcalls : ∀ call ∈ calls, call.Elsewhere account id day)
    (hanswers : w'.answers limits calls = w.answers limits calls) :
    Beside account id day (calls.foldl (World.step limits) w)
      (calls.foldl (World.step limits) w') := by
  induction calls generalizing w w' with
  | nil => exact h
  | cons call calls ih =>
    obtain ⟨hfirst, hrest⟩ := List.cons.inj hanswers
    exact ih (step hsmall h (hcalls call mem_cons_self) hfirst)
      (fun call' hcall' => hcalls call' (mem_cons_of_mem _ hcall')) hrest

end World.Beside

/-! ## No trace -/

lemma State.get_owed_untrack (s : State) (id i : Uuid) :
    (s.untrack id).owed.get i = if i = id then none else s.owed.get i := by
  cases hold : s.owed.get id with
  | none =>
    rw [untrack_of_none hold]
    split_ifs with hi
    · rw [hi, hold]
    · rfl
  | some owed =>
    rw [untrack_of_some hold, (uncount_same _ _).2]
    exact get_erase ..

lemma State.NoneEmpty.roll (h : s.NoneEmpty) (today : ℤ) : (s.roll today).NoneEmpty := by
  unfold State.roll
  split_ifs
  · rw [NoneEmpty, (foldl_untrack_same ..).accounts]
    exact nofun
  · exact h

lemma State.noneEmpty_of_entries (h : ∀ x ∈ s.accounts.entries, x.2 ≠ .none) : s.NoneEmpty :=
  fun account hentry => h (account, .none) (mem_entries.2 hentry) rfl

lemma State.unknown_roll (h : s.owed.get id = none) (today : ℤ) :
    (s.roll today).owed.get id = none := by
  unfold roll
  split_ifs
  · refine List.foldlRecOn _ _ (motive := fun s : State => s.owed.get id = none) h
      fun s hs i _ => ?_
    rw [get_owed_untrack, hs, ite_self]
  · exact h

lemma State.beside_charged (h : s.owed.get id = none) (limits : Limits) (account : String)
    (recipients kept : ℕ) : s.Beside account id (s.charged limits account id recipients kept) := by
  have hadd : s.Beside account id (s.add limits account (wrappingAdd 64 1 recipients) kept).1 := by
    refine ⟨rfl, fun b hb => ?_, fun _ _ => rfl, h⟩
    change (s.accounts.set account _).get b = _
    rw [get_set, if_neg hb]
  unfold charged
  dsimp only
  split_ifs
  · rw [track_eq]
    obtain ⟨⟨hday, -, -, haccounts⟩, howed⟩ := replaced_same
      (s.add limits account (wrappingAdd 64 1 recipients) kept).1 id ⟨recipients, s.day, account⟩
    refine ⟨hday, ?_, fun i hi => ?_, h⟩
    · dsimp only
      rw [haccounts]
      exact hadd.accounts
    · dsimp only
      rw [howed, get_set, if_neg hi]
      exact hadd.owed i hi
  · exact hadd

lemma State.Beside.given_back {account : String} (h : s.Beside account id book.state)
    {held : Reservation} (haccount : held.account = account) (hid : held.id = id) :
    (∀ b ≠ account, (book.release held).state.accounts.get b = s.accounts.get b) ∧
      (book.release held).state.owed = s.owed := by
  subst haccount hid
  obtain ⟨-, -, -, haccounts⟩ := book.state.untrack_same held.id
  have howed : (book.state.untrack held.id).owed = s.owed := by
    refine ext_get fun i => ?_
    rw [get_owed_untrack]
    split_ifs with hi
    · rw [hi, h.unknown]
    · exact h.owed i hi
  rw [Book.release]
  dsimp only
  split_ifs with hday
  · refine ⟨fun b hb => ?_, howed⟩
    dsimp only
    rw [haccounts]
    exact h.accounts b hb
  · refine ⟨fun b hb => ?_, howed⟩
    dsimp only
    rw [haccounts, ← h.accounts b hb]
    cases book.state.accounts.get held.account with
    | none => rfl
    | some entry =>
      dsimp only
      split_ifs
      · rw [get_erase, if_neg hb]
      · rw [get_set, if_neg hb]

/-- A reservation that is given back at once leaves the counts of the day. After calls for other
accounts and messages that are answered as they would be without it, it leaves those accounts and
what is owed as they are without it. -/
theorem reservation_leaves_no_trace {limits : Limits} {w : World} {id : Uuid} {log : DayLog}
    {due : Bool} {account : String} {recipients kept : ℕ} {today : ℤ} {held : Reservation}
    {book : Book} (hsmall : limits.Small) (hready : w.book.Ready)
    (hsound : w.book.state.Sound limits) (hempty : w.book.state.NoneEmpty)
    (hfresh : w.book.state.owed.get id = none)
    (hfits : (w.book.state.roll today).total + (1 + recipients) ≤ wordMax 64)
    (hok : w.book.reserve limits log due account id recipients kept today = (.ok held, book)) :
    (book.release held).state = w.book.state.roll today ∧
    ∀ calls : List Call,
      (∀ call ∈ calls, call.Elsewhere account id (w.book.state.roll today).day) →
      let rolled : World := ⟨{ w.book with state := w.book.state.roll today }, w.outstanding⟩
      let reserved : World := ⟨book, held :: w.outstanding⟩
      reserved.answers limits calls = rolled.answers limits calls →
      let without := (calls.foldl (step limits) rolled).book.state
      let after := ((calls.foldl (step limits) reserved).book.release held).state
      (∀ b ≠ account, after.accounts.get b = without.accounts.get b) ∧
        after.owed = without.owed := by
  have hunknown := unknown_roll hfresh today
  have hrecords : wrappingAdd 64 1 recipients = 1 + recipients := wrappingAdd_eq (by omega)
  obtain ⟨why, heq⟩ | ⟨hadmits, heq⟩ :=
    reserve_cases hsmall log due account id recipients kept today hready
  · rw [heq] at hok
    cases hok
  · rw [hrecords] at hadmits heq
    rw [heq] at hok
    cases hok
    refine ⟨release_charged hsmall ((kept_sound limits).roll hsound today) (hempty.roll today)
      hunknown hfits hadmits, ?_⟩
    intro calls hcalls rolled reserved hanswers
    have hbeside : rolled.Beside account id (w.book.state.roll today).day reserved := {
      state := beside_charged hunknown limits account recipients kept
      day_eq := rfl
      ready := ⟨hready.loaded, hready.available⟩
      ready' := ⟨hready.loaded, hready.available⟩
      outstanding := fun r hr => count_cons_of_ne fun heq => hr (by rw [← heq]) }
    exact (World.Beside.run hsmall hbeside hcalls hanswers).state.given_back rfl rfl

/-- A message of "a" is given back behind two messages of "b", of which one is given back and one
has an outcome. -/
theorem reservation_leaves_no_trace_behind_others :
    let limits : Limits := ⟨10, 100, 40⟩
    let log : DayLog := ⟨[], .ok none⟩
    let w := run limits [.reserve log false "b" 1 2 50 20000]
    let held : Reservation := ⟨2, "a", 3, 30, 3, 20001⟩
    let reserved := w.book.reserve limits log false "a" 2 2 30 20001
    let calls : List Call := [.reserve log false "b" 3 1 20 20001, .fact log (some "b") 1 20001,
      .release ⟨3, "b", 2, 20, 2, 20001⟩, .reserve log false "b" 4 0 0 20001]
    reserved.1 = .ok held ∧ (reserved.2.release held).state = w.book.state.roll 20001 ∧
      ((calls.foldl (step limits) ⟨reserved.2, held :: w.outstanding⟩).book.release
        held).state.accounts.get "b" = some ⟨1, 0⟩ := by
  intro limits log w held reserved calls
  have hfits : World.Fits limits [.reserve log false "b" 1 2 50 20000] := by
    unfold World.Fits
    decide +kernel
  have hgood := good_run (by decide) hfits
  have hready : w.book.Ready := ⟨by decide +kernel, by decide +kernel⟩
  have hfirst : reserved.1 = .ok held := by decide +kernel
  have hok : reserved = (.ok held, reserved.2) := by
    generalize reserved = r at hfirst ⊢
    exact Prod.ext hfirst rfl
  have hfresh : w.book.state.owed.get 2 = none := by decide +kernel
  obtain ⟨hback, hbehind⟩ := reservation_leaves_no_trace
    ⟨by decide, by decide, by decide⟩ hready hgood.sound (noneEmpty_of_entries (by decide +kernel))
    hfresh (by decide +kernel) hok
  have hothers := (hbehind calls (by decide +kernel) (by decide +kernel)).1 "b" (by decide)
  exact ⟨hfirst, hback, hothers.trans (by decide +kernel)⟩

/-- The day's limit is shared: while the reservation of "a" is held, "e" is refused the last record
of the day, and the refusal stays when the reservation is given back. -/
theorem reservation_keeps_others_out :
    let limits : Limits := ⟨1, 100, 4⟩
    let log : DayLog := ⟨[], .ok none⟩
    let w := run limits.fitted [.reserve log false "b" 1 0 0 20000,
      .reserve log false "c" 2 0 0 20000, .reserve log false "d" 3 0 0 20000]
    let held : Reservation := ⟨4, "a", 1, 0, 1, 20000⟩
    let reserved := w.book.reserve limits.fitted log false "a" 4 0 0 20000
    let call : Call := .reserve log false "e" 5 0 0 20000
    w.book.Ready ∧ w.book.state.Sound limits.fitted ∧ w.book.state.NoneEmpty ∧
      w.book.state.owed.get 4 = none ∧ reserved.1 = .ok held ∧
      call.Elsewhere "a" 4 (w.book.state.roll 20000).day ∧
      ((step limits.fitted ⟨reserved.2, held :: w.outstanding⟩ call).book.release
        held).state.accounts.get "e" = none ∧
      (w.step limits.fitted call).book.state.accounts.get "e" = some ⟨1, 0⟩ := by
  intro limits log w held reserved call
  have hfits : World.Fits limits.fitted [.reserve log false "b" 1 0 0 20000,
      .reserve log false "c" 2 0 0 20000, .reserve log false "d" 3 0 0 20000] := by
    unfold World.Fits
    decide +kernel
  have hgood := good_run (by decide) hfits
  exact ⟨⟨by decide +kernel, by decide +kernel⟩, hgood.sound,
    noneEmpty_of_entries (by decide +kernel),
    by decide +kernel, by decide +kernel, by decide +kernel, by decide +kernel, by decide +kernel⟩

end Epistle.Evidence.Quota
