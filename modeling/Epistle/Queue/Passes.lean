import Epistle.Queue.Scheduler

/-!
# Passes side by side

Any number of passes share the claims of one worker and its spool. A step of the world is a step of
one pass, a new pass, or a change of the spool: the outcome of a conversation, an entry settled, an
operator's edit.

What a step can do to the claims and conversations of a pass is said once, by `Moves`. The
counters, the caps and the recipients held once each follow from it along every run.

* `World.recipients_in_one_conversation` — no recipient is in two conversations, the counters are
  exact and capped, and a conversation starts only with what the spool shows as pending.
-/

namespace Epistle.Queue

open List

open Epistle.Lib (pairs total_slots totalFor_slots)

variable {Id : Type} [DecidableEq Id]

/-! ### What a pass holds -/

def Pc.starting : Pc Id → Option (Claim Id)
  | .claimed _ _ _ k => some k.claim
  | .dropping _ _ _ k => some k.claim
  | _ => none

def Pc.ended : Pc Id → Option (Running Id)
  | .completing r _ => some r
  | _ => none

def Pass.starting (p : Pass Id) : Option (Claim Id) := p.pc.starting

def Pass.conversations (p : Pass Id) : List (Running Id) :=
  p.pc.ended.toList ++ p.schedule.running

def Pass.claims (p : Pass Id) : List (Claim Id) :=
  p.starting.toList ++ p.conversations.map Running.claim

/-! ### The moves -/

/-- What one step does to the claims of the worker and to what a pass holds. -/
inductive Moves (limits : Limits) (spool : Id → Option Envelope) (s : ClaimState Id)
    (p : Pass Id) : ClaimState Id × Pass Id → Prop
  /-- Nothing is taken or dropped. -/
  | stays {p' : Pass Id} (hs : p'.starting = p.starting)
      (hc : p'.conversations.Perm p.conversations) : Moves limits spool s p (s, p')
  | takes {s' : ClaimState Id} {p' : Pass Id} (k : Claimed Id)
      (ht : s.take limits k.job.id k.job.domain k.job.sender k.job.recipients = .ok (s', k.claim))
      (hs : p.starting = none) (hs' : p'.starting = some k.claim)
      (hc : p'.conversations = p.conversations) : Moves limits spool s p (s', p')
  | releases {p' : Pass Id} (c : Claim Id) (hs : p.starting = some c) (hs' : p'.starting = none)
      (hc : p'.conversations = p.conversations) : Moves limits spool s p (s.drop c, p')
  /-- A conversation starts, with the entry as the spool has it. -/
  | starts {p' : Pass Id} (r : Running Id) (hs : p.starting = some r.claim)
      (hs' : p'.starting = none) (hc : p'.conversations.Perm (r :: p.conversations))
      (hspool : spool r.job.id = some r.entry) : Moves limits spool s p (s, p')
  /-- A conversation is over, and its claim dropped. -/
  | ends {p' : Pass Id} (r : Running Id) (hs : p'.starting = p.starting)
      (hc : p.conversations.Perm (r :: p'.conversations)) :
      Moves limits spool s p (s.drop r.claim, p')

open Pass

section Frame

variable (p : Pass Id)

omit [DecidableEq Id] in
@[simp] lemma Pass.starting_mk (sch : Schedule Id) (pc : Pc Id) :
    (mk sch pc).starting = pc.starting := rfl

omit [DecidableEq Id] in
@[simp] lemma Pass.conversations_mk (sch : Schedule Id) (pc : Pc Id) :
    (mk sch pc).conversations = pc.ended.toList ++ sch.running := rfl

omit [DecidableEq Id] in
@[simp] lemma Schedule.running_settle (s : Schedule Id) (d : Bool) :
    (s.settle d).running = s.running := by
  unfold Schedule.settle
  split_ifs <;> rfl

@[simp] lemma Schedule.running_jobEnded (s : Schedule Id) (id : Id) (d : Bool) :
    (s.jobEnded id d).running = s.running := by
  unfold Schedule.jobEnded
  cases s.rounds id with
  | none => rfl
  | some x =>
    dsimp only
    split_ifs
    · rw [running_settle]
    · rfl

@[simp] lemma Schedule.running_queueEntry (s : Schedule Id) (id : Id) (e : Envelope)
    (look : Schedule.Look) : (s.queueEntry id e look).running = s.running := by
  unfold Schedule.queueEntry
  dsimp only
  split_ifs with h1
  · rfl
  cases look.skipSuppressed (look.dueNow.filter fun r => !look.holds r) with
  | none => rfl
  | some left =>
    dsimp only
    split_ifs <;> rfl

omit [DecidableEq Id] in
@[simp] lemma Pass.pc_examine : p.examine.pc = p.pc := rfl

omit [DecidableEq Id] in
@[simp] lemma Pass.running_examine : p.examine.schedule.running = p.schedule.running := rfl

@[simp] lemma Pass.pc_jobEnded (id : Id) (d : Bool) : (p.jobEnded id d).pc = p.pc := rfl

@[simp] lemma Pass.running_jobEnded (id : Id) (d : Bool) :
    (p.jobEnded id d).schedule.running = p.schedule.running :=
  Schedule.running_jobEnded p.schedule id d

/-- A pass that stands where it holds no claim has only the conversations that run. -/
def Pc.Bare (pc : Pc Id) : Prop := pc.starting = none ∧ pc.ended = none

omit [DecidableEq Id] in
lemma Pass.bare_endTurn (t : Turn Id) (b : Bool) :
    (p.endTurn t b).pc.Bare ∧ (p.endTurn t b).schedule.running = p.schedule.running := by
  unfold endTurn
  cases b <;> exact ⟨⟨rfl, rfl⟩, rfl⟩

omit [DecidableEq Id] in
lemma Pass.bare_leave (t : Turn Id) (domain : String) (rest : List (Job Id))
    (outcome : Option Bool) :
    (p.leave t domain rest outcome).pc.Bare ∧
      (p.leave t domain rest outcome).schedule.running = p.schedule.running := by
  unfold leave
  cases outcome with
  | none => exact ⟨⟨rfl, rfl⟩, rfl⟩
  | some started => exact p.bare_endTurn _ started

omit [DecidableEq Id] in
lemma Pass.bare_endFill (aside : List (String × SenderJobs Id)) :
    (p.endFill aside).pc.Bare ∧ (p.endFill aside).schedule.running = p.schedule.running :=
  ⟨⟨rfl, rfl⟩, rfl⟩

omit [DecidableEq Id] in
lemma Pass.bare_next (aside : List (String × SenderJobs Id)) (room : Bool) :
    (p.next aside room).pc.Bare ∧ (p.next aside room).schedule.running = p.schedule.running := by
  unfold next
  cases room with
  | false => exact p.bare_endFill aside
  | true =>
    rw [if_pos rfl]
    cases p.schedule.waiting.nextSender with
    | none => exact p.bare_endFill aside
    | some x => exact ⟨⟨rfl, rfl⟩, rfl⟩

lemma Pass.bare_foldl_jobEnded (jobs : List (Job Id)) :
    (jobs.foldl (fun q job => q.examine.jobEnded job.id false) p).pc = p.pc ∧
      (jobs.foldl (fun q job => q.examine.jobEnded job.id false) p).schedule.running =
        p.schedule.running := by
  induction jobs generalizing p with
  | nil => exact ⟨rfl, rfl⟩
  | cons job jobs ih =>
    obtain ⟨hpc, hrun⟩ := ih (p.examine.jobEnded job.id false)
    rw [foldl_cons]
    exact ⟨hpc, hrun.trans (by simp)⟩

lemma Pass.bare_pick (t : Turn Id) (onHold : String → Bool) :
    (p.pick t onHold).pc.Bare ∧ (p.pick t onHold).schedule.running = p.schedule.running := by
  unfold pick
  cases t.jobs.order with
  | nil => exact p.bare_endTurn t false
  | cons domain order =>
    dsimp only
    split_ifs
    · obtain ⟨hpc, hrun⟩ := bare_foldl_jobEnded (p.goto (.turning
        { t with jobs := ⟨Function.update t.jobs.byDomain domain none, order⟩ }))
        ((t.jobs.byDomain domain).getD [])
      rw [hpc, hrun]
      exact ⟨⟨rfl, rfl⟩, rfl⟩
    · exact ⟨⟨rfl, rfl⟩, rfl⟩

end Frame

/-! ### Every step is a move -/

lemma swapRemove_perm {α : Type} {xs : List α} {i : ℕ} {x : α} (h : xs[i]? = some x) :
    (x :: swapRemove xs i).Perm xs := by
  obtain ⟨hi, rfl⟩ := List.getElem?_eq_some_iff.1 h
  rcases eq_nil_or_concat' xs with rfl | ⟨init, last, rfl⟩
  · exact absurd hi (Nat.not_lt_zero i)
  have hlast : (init ++ [last]).getLast? = some last := List.getLast?_concat
  unfold swapRemove
  rw [hlast]
  dsimp only
  by_cases hlt : i < init.length
  · rw [set_append_left _ _ hlt, dropLast_concat, getElem_append_left hlt]
    calc (init[i] :: init.set i last).Perm (init[i] :: last :: init.eraseIdx i) :=
          (set_perm_cons_eraseIdx hlt last).cons _
      _ |>.Perm (last :: init[i] :: init.eraseIdx i) := List.Perm.swap _ _ _
      _ |>.Perm (last :: init) := (getElem_cons_eraseIdx_perm hlt).cons _
      _ |>.Perm (init ++ [last]) := (perm_append_singleton last init).symm
  · have hi' : i = init.length := by
      rw [length_append, length_singleton] at hi
      omega
    subst hi'
    rw [set_append_right _ _ (le_refl _), Nat.sub_self, getElem_append_right (le_refl _)]
    simpa using (perm_append_singleton last init).symm

section Step

variable {limits : Limits} {spool : Id → Option Envelope} {s : ClaimState Id} {p p' : Pass Id}

lemma Moves.of_bare (h : p.pc.Bare) (h' : p'.pc.Bare)
    (hrun : p'.schedule.running = p.schedule.running) : Moves limits spool s p (s, p') := by
  refine .stays ?_ ?_
  · exact h'.1.trans h.1.symm
  · rw [conversations, conversations, h.2, h'.2, hrun]

lemma Job.claim_eq_ok {job : Job Id} {s' : ClaimState Id} {k : Claimed Id}
    (h : job.claim limits s = .ok (s', k)) :
    k.job = job ∧
      s.take limits job.id job.domain job.sender job.recipients = .ok (s', k.claim) := by
  unfold Job.claim at h
  split at h
  · cases h
  · cases h
    exact ⟨rfl, by assumption⟩

lemma Pass.take_moves {t : Turn Id} {domain : String} {rest : List (Job Id)}
    (hpc : p.pc = .trying t domain rest) (jobCapped : Bool) :
    Moves limits spool s p (p.take limits s t domain jobCapped rest) := by
  have hbare : p.pc.Bare := by
    rw [hpc]
    exact ⟨rfl, rfl⟩
  cases rest with
  | nil =>
    obtain ⟨h, hrun⟩ := p.bare_leave t domain [] none
    exact .of_bare hbare h hrun
  | cons job rest =>
    unfold take
    dsimp only
    by_cases hcap : jobCapped = true
    · rw [if_pos hcap]
      refine .of_bare hbare ⟨rfl, rfl⟩ ?_
      exact (p.examine.running_jobEnded job.id false)
    rw [if_neg hcap]
    -- A cap that is full keeps the job in front of its domain.
    have hkept : ∀ outcome, Moves limits spool s p
        (s, p.examine.leave t domain (job :: rest) outcome) := by
      intro outcome
      obtain ⟨h, hrun⟩ := p.examine.bare_leave t domain (job :: rest) outcome
      exact .of_bare hbare h hrun
    cases hclaim : job.claim limits s with
    | error full =>
      cases full with
      | total | domain | sender => exact hkept _
    | ok x =>
      obtain ⟨s', k⟩ := x
      obtain ⟨rfl, htake⟩ := Job.claim_eq_ok hclaim
      refine .takes k htake hbare.1 rfl ?_
      rw [conversations, conversations, hbare.2]
      rfl

lemma Pass.load_moves {t : Turn Id} {domain : String} {rest : List (Job Id)} {k : Claimed Id}
    (hpc : p.pc = .claimed t domain rest k) :
    Moves limits spool s p (s, p.load spool t domain rest k) := by
  have hstart : p.starting = some k.claim := by
    rw [starting, hpc]
    rfl
  have hconv : p.conversations = p.schedule.running := by
    rw [conversations, hpc]
    rfl
  have hdrop : Moves limits spool s p (s, p.goto (.dropping t domain rest k)) := by
    refine .stays hstart.symm ?_
    rw [hconv]
    rfl
  unfold load
  cases hspool : spool k.job.id with
  | none => exact hdrop
  | some e =>
    dsimp only
    by_cases hheld : e.held = none
    · rw [dif_pos hheld]
      by_cases hempty : (k.claim.recipients.filter e.isPending).isEmpty = true
      · rw [if_pos hempty]
        exact hdrop
      · rw [if_neg hempty]
        set r : Running Id := ⟨k.job, k.claim, e, k.claim.recipients.filter e.isPending, k.claim_id,
          filter_sublist, hheld, fun _ hr => (mem_filter.1 hr).2⟩ with hr
        obtain ⟨h, hrun⟩ := (p.run r).bare_leave t domain rest (some true)
        refine .starts r hstart h.1 ?_ hspool
        rw [conversations, h.2, hrun, hconv]
        exact perm_append_singleton r p.schedule.running
    · rw [dif_neg hheld]
      exact hdrop

lemma Pass.complete_moves {r : Running Id} {c : Conversation} (hpc : p.pc = .completing r c)
    (tooManyRecipients : String → Bool) :
    Moves limits spool s p (s.drop r.claim, p.complete tooManyRecipients r c) := by
  refine .ends r ?_ ?_
  · rw [starting, starting, hpc]
    rfl
  · have hrun : (p.complete tooManyRecipients r c).schedule.running = p.schedule.running := by
      unfold complete
      dsimp only
      rw [Schedule.running_jobEnded]
      split_ifs
      · rfl
      · cases p.schedule.rounds r.job.id <;> rfl
    rw [conversations, conversations, hpc, hrun]
    rfl

lemma Pass.cancel_moves {i : ℕ} {r : Running Id} (hr : p.schedule.running[i]? = some r) :
    Moves limits spool s p (s.drop r.claim,
      { p with schedule := { p.schedule with running := p.schedule.running.eraseIdx i } }) := by
  refine .ends r rfl ?_
  obtain ⟨hi, rfl⟩ := List.getElem?_eq_some_iff.1 hr
  calc p.conversations.Perm
        (p.pc.ended.toList ++ (p.schedule.running[i] :: p.schedule.running.eraseIdx i)) :=
        (getElem_cons_eraseIdx_perm hi).symm.append_left _
    _ |>.Perm _ := perm_middle

lemma Pass.unwind_moves : Moves limits spool s p (step limits spool s p .unwind) := by
  obtain ⟨sch, pc⟩ := p
  cases pc with
  | claimed t domain rest k | dropping t domain rest k => exact .releases k.claim rfl rfl rfl
  | completing r c => exact .ends r rfl (List.Perm.refl _)
  | idle => exact .of_bare ⟨rfl, rfl⟩ ⟨rfl, rfl⟩ rfl
  | filling aside | turning t | trying t domain rest => exact .of_bare ⟨rfl, rfl⟩ ⟨rfl, rfl⟩ rfl

lemma Moves.refl : Moves limits spool s p (s, p) := .stays rfl (List.Perm.refl _)

lemma Pass.step_moves (a : Action Id) :
    Moves limits spool s p (step limits spool s p a) := by
  obtain ⟨sch, pc⟩ := p
  -- Only one point fits most actions; at the others the pass stays as it is.
  cases a with
  | queueEntry id e look =>
    cases pc with
    | idle => exact .of_bare ⟨rfl, rfl⟩ ⟨rfl, rfl⟩ (Schedule.running_queueEntry sch id e look)
    | _ => exact .refl
  | fill =>
    cases pc with
    | idle =>
      unfold step
      dsimp only
      split_ifs
      · exact .refl
      · exact .of_bare ⟨rfl, rfl⟩ ⟨rfl, rfl⟩ rfl
    | _ => exact .refl
  | next =>
    cases pc with
    | filling aside =>
      obtain ⟨h, hrun⟩ := bare_next ⟨sch, .filling aside⟩ aside (s.hasRoom limits)
      exact .of_bare ⟨rfl, rfl⟩ h hrun
    | _ => exact .refl
  | pick onHold =>
    cases pc with
    | turning t =>
      obtain ⟨h, hrun⟩ := bare_pick ⟨sch, .turning t⟩ t onHold
      exact .of_bare ⟨rfl, rfl⟩ h hrun
    | _ => exact .refl
  | take jobCapped =>
    cases pc with
    | trying t domain rest => exact take_moves rfl jobCapped
    | _ => exact .refl
  | load =>
    cases pc with
    | claimed t domain rest k => exact load_moves rfl
    | _ => exact .refl
  | release =>
    cases pc with
    | dropping t domain rest k =>
      refine .releases k.claim rfl rfl ?_
      exact Schedule.running_jobEnded sch k.job.id false
    | _ => exact .refl
  | done index answer =>
    cases pc with
    | idle =>
      unfold step
      dsimp only
      cases hr : sch.running[index]? with
      | none => exact .refl
      | some r => exact .stays rfl (swapRemove_perm hr)
    | _ => exact .refl
  | complete tooManyRecipients =>
    cases pc with
    | completing r c => exact complete_moves rfl tooManyRecipients
    | _ => exact .refl
  | cancel index =>
    unfold step
    dsimp only
    cases hr : sch.running[index]? with
    | none => exact .refl
    | some r => exact cancel_moves (p := ⟨sch, pc⟩) hr
  | unwind => exact unwind_moves

end Step

/-! ### The worker -/

/-- One worker: its claims, its spool and its passes. -/
structure World (Id : Type) where
  /-- The claims, behind their lock. -/
  claims : ClaimState Id
  spool : Id → Option Envelope
  passes : List (Pass Id)

inductive Op (Id : Type) where
  | spawn
  /-- An entry is written or removed: an outcome recorded, an entry settled, an operator's edit. -/
  | edit (id : Id) (e : Option Envelope)
  | act (index : ℕ) (a : Action Id)

namespace World

def new (spool : Id → Option Envelope) : World Id := ⟨.default, spool, []⟩

def live (w : World Id) : List (Claim Id) := w.passes.flatMap Pass.claims

def conversations (w : World Id) : List (Running Id) := w.passes.flatMap Pass.conversations

def step (limits : Limits) (w : World Id) : Op Id → World Id
  | .spawn => { w with passes := w.passes ++ [⟨.default, .idle⟩] }
  | .edit id e => { w with spool := Function.update w.spool id e }
  | .act index a =>
    match w.passes[index]? with
    | none => w
    | some p =>
      { w with
        claims := (p.step limits w.spool w.claims a).1
        passes := w.passes.set index (p.step limits w.spool w.claims a).2 }

def run (limits : Limits) (spool : Id → Option Envelope) (ops : List (Op Id)) : World Id :=
  ops.foldl (step limits) (new spool)

omit [DecidableEq Id] in
lemma flatMap_set_perm {α : Type} (f : Pass Id → List α) {passes : List (Pass Id)} {i : ℕ}
    {p : Pass Id} (h : passes[i]? = some p) :
    ∃ others : List α, (passes.flatMap f).Perm (f p ++ others) ∧
      ∀ p', ((passes.set i p').flatMap f).Perm (f p' ++ others) := by
  obtain ⟨hi, rfl⟩ := List.getElem?_eq_some_iff.1 h
  refine ⟨(passes.eraseIdx i).flatMap f, ?_, ?_⟩
  · exact (getElem_cons_eraseIdx_perm hi).symm.flatMap_right f
  · intro p'
    exact (set_perm_cons_eraseIdx hi p').flatMap_right f

/-- The claims of the worker account for what its passes hold, within the caps. -/
structure Sound (limits : Limits) (w : World Id) : Prop where
  accounts : Accounts w.claims w.live
  within : w.claims.Within limits

end World

lemma Moves.keeps {limits : Limits} {spool : Id → Option Envelope} {s : ClaimState Id}
    {p : Pass Id} {x : ClaimState Id × Pass Id} (h : Moves limits spool s p x)
    {others : List (Claim Id)} (ha : Accounts s (p.claims ++ others)) (hw : s.Within limits) :
    Accounts x.1 (x.2.claims ++ others) ∧ x.1.Within limits := by
  cases h with
  | stays hs hc =>
    refine ⟨ha.perm (List.Perm.append_right _ ?_), hw⟩
    rw [claims, claims, hs]
    exact (hc.symm.map _).append_left _
  | takes k ht hs hs' hc =>
    refine ⟨?_, hw.take ht⟩
    rw [claims, hs', hc]
    rw [claims, hs] at ha
    exact ha.take ht
  | releases c hs hs' hc =>
    refine ⟨?_, hw.drop c⟩
    rw [claims, hs', hc]
    rw [claims, hs] at ha
    exact ha.drop
  | starts r hs hs' hc hspool =>
    -- The claim in the pass's hand becomes the claim of its new conversation.
    refine ⟨ha.perm (List.Perm.append_right _ ?_), hw⟩
    rw [claims, claims, hs, hs']
    exact (hc.map _).symm
  | @ends p' r hs hc =>
    refine ⟨?_, hw.drop r.claim⟩
    have hperm : (p.claims ++ others).Perm (r.claim :: (p'.claims ++ others)) := by
      rw [claims, claims, hs, ← cons_append]
      exact (((hc.map _).append_left _).trans perm_middle).append_right _
    exact (ha.perm hperm).drop

lemma Moves.conversations {limits : Limits} {spool : Id → Option Envelope} {s : ClaimState Id}
    {p : Pass Id} {x : ClaimState Id × Pass Id} (h : Moves limits spool s p x) :
    x.2.conversations.Subperm p.conversations ∨
      ∃ r : Running Id, x.2.conversations.Perm (r :: p.conversations) ∧
        spool r.job.id = some r.entry := by
  cases h with
  | stays hs hc => exact .inl hc.subperm
  | takes k ht hs hs' hc | releases c hs hs' hc => exact .inl (hc ▸ List.Subperm.refl _)
  | starts r hs hs' hc hspool => exact .inr ⟨r, hc, hspool⟩
  | ends r hs hc => exact .inl ((sublist_cons_self _ _).subperm.trans hc.symm.subperm)

open World

namespace World

variable {limits : Limits} {w : World Id}

lemma Sound.new (spool : Id → Option Envelope) : (new spool).Sound limits :=
  ⟨Accounts.default, ClaimState.Within.default⟩

lemma Sound.step (h : w.Sound limits) (op : Op Id) : (w.step limits op).Sound limits := by
  cases op with
  | spawn =>
    refine ⟨?_, h.within⟩
    have hlive : (w.step limits .spawn).live = w.live := by
      simp [World.step, World.live, Pass.claims, Pc.starting, Pc.ended, Schedule.default]
    rw [hlive]
    exact h.accounts
  | edit id e => exact ⟨h.accounts, h.within⟩
  | act index a =>
    unfold World.step
    dsimp only
    cases hp : w.passes[index]? with
    | none => exact h
    | some p =>
      obtain ⟨others, hbefore, hafter⟩ := flatMap_set_perm Pass.claims hp
      have hmoves := @Pass.step_moves Id _ limits w.spool w.claims p a
      obtain ⟨ha, hw⟩ := hmoves.keeps (h.accounts.perm hbefore) h.within
      exact ⟨ha.perm (hafter _).symm, hw⟩

lemma Sound.run (spool : Id → Option Envelope) (ops : List (Op Id)) :
    (run limits spool ops).Sound limits := by
  induction ops using List.reverseRecOn with
  | nil => exact Sound.new spool
  | append_singleton ops op ih =>
    unfold World.run
    rw [foldl_append]
    exact ih.step op

omit [DecidableEq Id] in
lemma conversations_sublist (p : Pass Id) :
    (p.conversations.flatMap Running.pairs).Sublist (p.claims.flatMap Claim.pairs) := by
  have hmap : ∀ rs : List (Running Id),
      (rs.flatMap Running.pairs).Sublist ((rs.map Running.claim).flatMap Claim.pairs) := by
    intro rs
    induction rs with
    | nil => exact List.Sublist.refl _
    | cons r rs ih =>
      rw [flatMap_cons, map_cons, flatMap_cons]
      refine List.Sublist.append ?_ ih
      unfold Running.pairs Claim.pairs pairs
      rw [r.claim_id]
      exact r.claimed.map _
  unfold Pass.claims
  rw [flatMap_append]
  exact (hmap _).trans (sublist_append_right _ _)

lemma Sound.nodup (h : w.Sound limits) : (w.conversations.flatMap Running.pairs).Nodup := by
  refine List.Nodup.sublist ?_ h.accounts.nodup
  unfold conversations live
  induction w.passes with
  | nil => exact List.Sublist.refl _
  | cons p ps ih =>
    rw [flatMap_cons, flatMap_cons, flatMap_append, flatMap_append]
    exact (conversations_sublist p).append ih

lemma step_conversations (w : World Id) (op : Op Id) :
    (w.step limits op).conversations.Subperm w.conversations ∨
      ∃ r : Running Id, (w.step limits op).conversations.Perm (r :: w.conversations) ∧
        w.spool r.job.id = some r.entry := by
  cases op with
  | spawn =>
    refine .inl (List.Perm.subperm (List.Perm.of_eq ?_))
    simp [step, conversations, Pass.conversations, Pc.ended, Schedule.default]
  | edit id e => exact .inl (List.Subperm.refl _)
  | act index a =>
    unfold step
    dsimp only
    cases hp : w.passes[index]? with
    | none => exact .inl (List.Subperm.refl _)
    | some p =>
      obtain ⟨others, hbefore, hafter⟩ := flatMap_set_perm Pass.conversations hp
      have hmoves := @Pass.step_moves Id _ limits w.spool w.claims p a
      rcases hmoves.conversations with hsub | ⟨r, hperm, hspool⟩
      · refine .inl ?_
        exact (hafter _).subperm.trans
          (((subperm_append_right others).2 hsub).trans hbefore.symm.subperm)
      · refine .inr ⟨r, ?_, hspool⟩
        exact (hafter _).trans ((hperm.append_right others).trans (hbefore.symm.cons r))

/-! ### Every run -/

/-- What holds of the claims and conversations of a worker at every moment. -/
structure Exact (limits : Limits) (w : World Id) : Prop where
  /-- Each recipient of a queue entry is in at most one conversation. -/
  one_conversation : (w.conversations.flatMap Running.pairs).Nodup
  /-- The counter of all conversations. -/
  running : w.claims.running = w.live.length
  domains : ∀ d, w.claims.domains d =
    if w.live.countP (·.domain = d) = 0 then none else some (w.live.countP (·.domain = d))
  senders : ∀ a, w.claims.senders a =
    if w.live.countP (·.sender = a) = 0 then none else some (w.live.countP (·.sender = a))
  /-- The cap on all conversations. -/
  total : w.claims.running ≤ limits.total
  perDomain : ∀ d, (w.claims.domains d).getD 0 ≤ limits.perDomain
  perSender : ∀ a, (w.claims.senders a).getD 0 ≤ limits.perSender

/-- A step puts recipients in a conversation only while the spool shows each of them as pending
and their entry as not held: no other step adds a conversation, and none adds a recipient to one
that runs. -/
def StartsPending (w w' : World Id) : Prop :=
  w'.conversations.Subperm w.conversations ∨
    ∃ r : Running Id, w'.conversations.Perm (r :: w.conversations) ∧
      ∃ e, w.spool r.job.id = some e ∧ e.held = none ∧ ∀ x ∈ r.recipients, e.isPending x = true

/-- In every interleaving of any number of passes, at every moment: each recipient of a queue
entry is in at most one conversation; the counters are the numbers of live claims, none of them
at zero, and within the caps; and a conversation starts only with recipients the spool shows as
pending, of an entry that is not held. -/
theorem recipients_in_one_conversation (limits : Limits) (spool : Id → Option Envelope)
    (ops : List (Op Id)) :
    (run limits spool ops).Exact limits ∧
      ∀ op, StartsPending (run limits spool ops)
        ((run limits spool ops).step limits op) := by
  have h : (run limits spool ops).Sound limits := Sound.run spool ops
  refine ⟨?_, ?_⟩
  · exact
      { one_conversation := h.nodup
        running := h.accounts.domains.sum_eq.trans (total_slots ..)
        domains := fun d => by rw [h.accounts.domains.per_eq d, totalFor_slots]
        senders := fun a => by rw [h.accounts.senders.per_eq a, totalFor_slots]
        total := h.within.total
        perDomain := h.within.perDomain
        perSender := h.within.perSender }
  · intro op
    rcases step_conversations (run limits spool ops) op with hsub | ⟨r, hperm, hspool⟩
    · exact .inl hsub
    · exact .inr ⟨r, hperm, r.entry, hspool, r.not_held, r.pending⟩

def lookTwo : Schedule.Look where
  dueNow := ["a@one.example", "b@one.example"]
  holds _ := false
  holdsAny := false
  skipSuppressed due := some due
  parses _ := true
  ofRecipient _ := "one.example"
  onHold _ := false
  refuseUnparseable _ := true

def freshEntry : Envelope := ⟨some "ann", none, fun _ => none⟩

def claimSteps (index : ℕ) : List (Op ℕ) :=
  [.act index (.queueEntry 0 freshEntry lookTwo), .act index .fill, .act index .next,
    .act index (.pick fun _ => false), .act index (.take false)]

-- Two passes queue the same entry: the second one's claim holds nobody.
example :
    let w := run ⟨8, 2⟩ (fun _ => some freshEntry)
      ([.spawn, .spawn] ++ claimSteps 0 ++ claimSteps 1 ++ [.act 0 .load, .act 1 .load])
    w.conversations.map Running.pairs = [[(0, "a@one.example"), (0, "b@one.example")]] ∧
      w.live.map Claim.recipients = [["a@one.example", "b@one.example"], []] ∧
      w.claims.domains "one.example" = some 2 := by
  decide +kernel

end World

end Epistle.Queue
