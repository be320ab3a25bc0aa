import Epistle.Lib.Ensures
import Epistle.Spf.Evaluator

/-!
# The limits of an SPF evaluation

An evaluation is charged at most ten terms, asks at most eleven questions for each of them and one
for its first record, and ends with a `permerror` at the third empty answer. The counts are copied
into every `include` and handed back only when the evaluation goes on.

* `checkHost_stays_within_limits`: the limits, for every name server.
-/

namespace Epistle.Spf

open Lib List

/-! ## What happened -/

def Event.isVoid : Event → Bool
  | .lookup _ void => void
  | .term => false

open State

namespace State

def terms (s : State) : ℕ := s.trace.count .term

def voids (s : State) : ℕ := s.trace.countP Event.isVoid

def debt (s : State) : ℤ := s.asked.length - 11 * s.terms

variable (s : State) (budget : Budget) (query : Query) (void : Bool)

lemma terms_term : (mk budget (s.trace ++ [.term])).terms = s.terms + 1 := by
  simp [terms]

lemma terms_lookup : (mk budget (s.trace ++ [.lookup query void])).terms = s.terms := by
  simp [terms]

lemma voids_term : (mk budget (s.trace ++ [.term])).voids = s.voids := by
  simp [voids, Event.isVoid]

lemma voids_lookup : (mk budget (s.trace ++ [.lookup query void])).voids =
    s.voids + if void then 1 else 0 := by
  cases void <;> simp [voids, Event.isVoid]

lemma debt_term : (mk budget (s.trace ++ [.term])).debt = s.debt - 11 := by
  have hasked : (mk budget (s.trace ++ [.term])).asked = s.asked := by
    simp [asked, Event.query?, filterMap_cons]
  rw [debt, debt, terms_term, hasked]
  omega

lemma debt_lookup : (mk budget (s.trace ++ [.lookup query void])).debt = s.debt + 1 := by
  have hasked : (mk budget (s.trace ++ [.lookup query void])).asked = s.asked ++ [query] := by
    simp [asked, Event.query?]
  rw [debt, debt, terms_lookup, hasked, length_append, length_singleton]
  omega

end State

/-- An evaluation that goes on. -/
structure Within (total : ℕ) (debt : ℤ) (s : State) : Prop where
  terms : s.terms + s.budget.remaining = total
  voids_eq : s.budget.voids = s.voids
  voids_le : s.voids ≤ maxVoidLookups
  debt_le : s.debt ≤ debt

structure Ended (total : ℕ) (debt : ℤ) (outcome : SpfOutcome) (s : State) : Prop where
  error : outcome = .tempError ∨ outcome = .permError
  terms : s.terms ≤ total
  voids : s.voids ≤ maxVoidLookups ∨ s.voids = maxVoidLookups + 1 ∧ outcome = .permError
  debt_le : s.debt ≤ debt

def Settled (total : ℕ) (debt : ℤ) (outcome : SpfOutcome) (s : State) : Prop :=
  Within total debt s ∨ Ended total debt outcome s

section Rules

variable {total : ℕ} {debt debt' : ℤ} {s : State} {outcome : SpfOutcome}

lemma Within.mono (h : Within total debt s) (hle : debt ≤ debt') : Within total debt' s :=
  { h with debt_le := h.debt_le.trans hle }

lemma Ended.mono (hle : debt ≤ debt') (outcome : SpfOutcome) (s : State)
    (h : Ended total debt outcome s) : Ended total debt' outcome s :=
  { h with debt_le := h.debt_le.trans hle }

lemma Within.ended (h : Within total debt s)
    (herror : outcome = .tempError ∨ outcome = .permError) : Ended total debt outcome s where
  error := herror
  terms := by have := h.terms; omega
  voids := .inl h.voids_le
  debt_le := h.debt_le

lemma Ended.forget (h : Ended total debt outcome s) (budget : Budget) :
    Ended total debt outcome { s with budget } := ⟨h.error, h.terms, h.voids, h.debt_le⟩

lemma Settled.within (h : Settled total debt outcome s) (htemp : outcome ≠ .tempError)
    (hperm : outcome ≠ .permError) : Within total debt s := by
  obtain hgoes | hends := h
  · exact hgoes
  · obtain herror | herror := hends.error
    · exact absurd herror htemp
    · exact absurd herror hperm

lemma Settled.ended (h : Settled total debt outcome s)
    (herror : outcome = .tempError ∨ outcome = .permError) : Ended total debt outcome s := by
  obtain hgoes | hends := h
  · exact hgoes.ended herror
  · exact hends

/-! ## The steps -/

lemma within_consume (h : Within total debt s) :
    Ensures consume s (fun _ => Within total (debt - 11)) (Ended total debt) := by
  refine ensures_bind.2 (ensures_get.2 (.ite (fun hzero => ?_) fun hpos => ?_))
  · exact (ensures_throw _).2 (h.ended (.inr rfl))
  · refine (ensures_set _).2 ⟨?_, ?_, ?_, ?_⟩
    · have hterms := h.terms
      rw [terms_term]
      dsimp only
      omega
    · rw [voids_term]
      exact h.voids_eq
    · rw [voids_term]
      exact h.voids_le
    · have hdebt := h.debt_le
      rw [debt_term]
      omega

lemma within_lookup {α : Type} (h : Within total debt s) (query : Query)
    (answer : List Query → Except DnsFailure (List α)) :
    Ensures (lookup query answer) s (fun _ => Within total (debt + 1))
      (Ended total (debt + 1)) := by
  have hdebt : ∀ budget void,
      (mk budget (s.trace ++ [.lookup query void])).debt ≤ debt + 1 := by
    intro budget void
    have hle := h.debt_le
    rw [debt_lookup]
    omega
  refine ensures_bind.2 (ensures_get.2 ?_)
  split
  · rename_i found hfound
    refine ensures_bind.2 ((ensures_set _).2 (.ite (fun hempty => ensures_bind.2 ?_) fun hsome =>
      ?_))
    · -- an empty answer is counted, and may be the last one
      refine ensures_bind.2 (ensures_get.2 (ensures_bind.2 ((ensures_set _).2 ?_)))
      have hvoids : ∀ budget, (mk budget (s.trace ++ [.lookup query found.isEmpty])).voids =
          s.voids + 1 := by
        intro budget
        rw [voids_lookup, if_pos hempty]
      refine .ite (fun hlast => ?_) fun hmore => ?_
      · refine (ensures_throw _).2 ⟨.inr rfl, ?_, .inr ⟨?_, rfl⟩, hdebt _ _⟩
        · have hterms := h.terms
          rw [terms_lookup]
          omega
        · have heq := h.voids_eq
          have hle := h.voids_le
          rw [hvoids]
          dsimp only at hlast
          omega
      · refine (ensures_pure _).2 ((ensures_pure _).2 ⟨?_, ?_, ?_, hdebt _ _⟩)
        · rw [terms_lookup]
          exact h.terms
        · rw [hvoids]
          exact congrArg (· + 1) h.voids_eq
        · have heq := h.voids_eq
          rw [hvoids]
          dsimp only at hmore
          omega
    · refine (ensures_pure _).2 ⟨?_, ?_, ?_, hdebt _ _⟩
      · rw [terms_lookup]
        exact h.terms
      · rw [voids_lookup, if_neg hsome]
        exact h.voids_eq
      · rw [voids_lookup, if_neg hsome]
        exact h.voids_le
  · refine ensures_bind.2
      ((ensures_set _).2 ((ensures_throw _).2 ⟨.inl rfl, ?_, .inl ?_, hdebt _ _⟩))
    · have hterms := h.terms
      rw [terms_lookup]
      omega
    · rw [voids_lookup, if_neg Bool.false_ne_true]
      exact h.voids_le

end Rules

/-! ## Macros -/

def OnlyPerm {α : Type} (x : Except SpfOutcome α) : Prop := ∀ e, x = .error e → e = .permError

section OnlyPerm

variable {α β : Type}

lemma onlyPerm_ok (a : α) : OnlyPerm (.ok a) := nofun

lemma onlyPerm_error : OnlyPerm (.error .permError : Except SpfOutcome α) :=
  fun _ he => (Except.error.inj he).symm

lemma OnlyPerm.bind {x : Except SpfOutcome α} {f : α → Except SpfOutcome β} (hx : OnlyPerm x)
    (hf : ∀ a, OnlyPerm (f a)) : OnlyPerm (x >>= f) := by
  intro e he
  cases x with
  | ok a => exact hf a e he
  | error e' =>
    obtain rfl := Except.error.inj he
    exact hx e' rfl

end OnlyPerm

section Macro

variable (ip : IpAddr) (domain sender helo : List Char)

lemma onlyPerm_macroCount (number : List Char) : OnlyPerm (macroCount number) := by
  unfold macroCount
  split_ifs
  · exact onlyPerm_ok _
  · split
    · exact onlyPerm_ok _
    · exact onlyPerm_error

lemma onlyPerm_parseMacroTransformers (s : List Char) : OnlyPerm (parseMacroTransformers s) := by
  refine (onlyPerm_macroCount _).bind fun count => ?_
  dsimp only
  split_ifs <;> first | exact onlyPerm_ok _ | exact onlyPerm_error

lemma onlyPerm_macroValue (letter : Char) : OnlyPerm (macroValue ip domain sender helo letter) := by
  unfold macroValue
  split
  case h_8 => exact onlyPerm_error
  all_goals exact onlyPerm_ok _

lemma onlyPerm_expandMacroInner (inner : List Char) :
    OnlyPerm (expandMacroInner ip domain sender helo inner) := by
  cases inner with
  | nil => exact onlyPerm_error
  | cons letter rest =>
    rw [expandMacroInner]
    refine (onlyPerm_parseMacroTransformers rest).bind fun transformers => ?_
    exact (onlyPerm_macroValue ip domain sender helo letter).bind fun raw => onlyPerm_ok _

lemma onlyPerm_expandMacroFrom (rest : List Char) :
    OnlyPerm (expandMacroFrom ip domain sender helo rest) := by
  fun_induction expandMacroFrom ip domain sender helo rest with
  | case1 rest hplain => exact onlyPerm_ok _
  | case2 _ before rest _ _ ih => exact ih.bind fun _ => onlyPerm_ok _
  | case3 _ before rest _ _ ih => exact ih.bind fun _ => onlyPerm_ok _
  | case4 _ before rest _ _ ih => exact ih.bind fun _ => onlyPerm_ok _
  | case5 _ before inside _ inner rest _ _ ih =>
    exact (onlyPerm_expandMacroInner ip domain sender helo inner).bind fun _ =>
      ih.bind fun _ => onlyPerm_ok _
  | case6 => exact onlyPerm_error
  | case7 => exact onlyPerm_error

lemma onlyPerm_expand (ctx : Context) (domain spec : List Char) :
    OnlyPerm (ctx.expand domain spec) := by
  rw [Context.expand, expandMacro]
  split_ifs
  · exact onlyPerm_expandMacroFrom ctx.ip domain ctx.sender ctx.helo spec
  · exact onlyPerm_ok _

end Macro

/-! ## The terms of a record -/

open Ended

section Terms

variable {ctx : Context} {nested : List Char → StateM State SpfOutcome} {domain : List Char}
  {total : ℕ} {debt : ℤ} {s : State}

def Settles (nested : List Char → StateM State SpfOutcome) : Prop :=
  ∀ name total debt s, Within total debt s →
    Settled total (debt + 1) ((nested name).run s).1 ((nested name).run s).2

lemma within_expand (h : Within total debt s) (spec : List Char) :
    Ensures (liftM (ctx.expand domain spec) : Eval (List Char)) s (fun _ => Within total debt)
      (Ended total debt) := by
  refine (ensures_except _).2 ⟨fun _ _ => h, fun e he => ?_⟩
  exact h.ended (.inr (onlyPerm_expand ctx domain spec e he))

lemma within_anyExchanger (h : Within total debt s) (length4 : Fin 33) (length6 : Fin 129)
    (exchangers : List (List Char)) :
    Ensures (anyExchanger ctx length4 length6 exchangers) s
      (fun _ => Within total (debt + exchangers.length))
        (Ended total (debt + exchangers.length)) := by
  induction exchangers generalizing debt s with
  | nil => exact (ensures_pure _).2 (h.mono (by simp))
  | cons exchanger rest ih =>
    have hstep : debt + 1 + rest.length = debt + (exchanger :: rest).length := by
      rw [length_cons]
      omega
    refine (within_lookup h (.addresses exchanger) _).bind (mono (by omega))
      fun addresses s' h' => .ite (fun _ => ?_) fun _ => ?_
    · exact (ensures_pure _).2 (h'.mono (by omega))
    · rw [← hstep]
      exact ih h'

lemma within_mechanism (hnested : Settles nested) (h : Within total debt s)
    (mechanism : Mechanism) :
    Ensures (evalMechanism ctx nested domain mechanism) s (fun _ => Within total debt)
      (Ended total debt) := by
  cases mechanism with
  | all | ip4 network length | ip6 network length => exact (ensures_pure _).2 h
  | a target length4 length6 =>
    refine (within_consume h).bind (mono le_rfl) fun _ s₁ h₁ => ?_
    refine (within_expand h₁ _).bind (mono (by omega)) fun name s₂ h₂ => ?_
    refine (within_lookup h₂ _ _).bind (mono (by omega)) fun addresses s₃ h₃ => ?_
    exact (ensures_pure _).2 (h₃.mono (by omega))
  | mx target length4 length6 =>
    refine (within_consume h).bind (mono le_rfl) fun _ s₁ h₁ => ?_
    refine (within_expand h₁ _).bind (mono (by omega)) fun name s₂ h₂ => ?_
    refine (within_lookup h₂ _ _).bind (mono (by omega)) fun exchangers s₃ h₃ => ?_
    -- eleven questions for the one term
    have hten : (exchangers.take 10).length ≤ 10 := length_take_le ..
    exact (within_anyExchanger h₃ length4 length6 (exchangers.take 10)).mono
      (fun _ _ h' => h'.mono (by omega)) (mono (by omega))
  | «include» spec =>
    refine (within_consume h).bind (mono le_rfl) fun _ s₁ h₁ => ?_
    refine (within_expand h₁ _).bind (mono (by omega)) fun included s₂ h₂ => ?_
    refine ensures_bind.2 (ensures_get.2 (ensures_bind.2 ((ensures_lift _).2 ?_)))
    have hsettled := hnested included total _ s₂ h₂
    generalize (nested included).run s₂ = result at hsettled
    obtain ⟨outcome, s₃⟩ := result
    have hle : debt - 11 + 1 ≤ debt := by omega
    cases outcome with
    | pass => exact (ensures_pure _).2 ((hsettled.within nofun nofun).mono hle)
    | fail | softFail | neutral => exact (ensures_pure _).2 ((hsettled.within nofun nofun).mono hle)
    | none =>
      have hends : Ended total (debt - 11 + 1) .permError s₃ :=
        (hsettled.within nofun nofun).ended (.inr rfl)
      exact ensures_bind.2 ((ensures_modify _).2 ((ensures_throw _).2
        ((mono hle _ _ hends).forget _)))
    | tempError =>
      exact ensures_bind.2 ((ensures_modify _).2 ((ensures_throw _).2
        ((mono hle _ _ (hsettled.ended (.inl rfl))).forget _)))
    | permError =>
      exact ensures_bind.2 ((ensures_modify _).2 ((ensures_throw _).2
        ((mono hle _ _ (hsettled.ended (.inr rfl))).forget _)))
  | «exists» spec =>
    refine (within_consume h).bind (mono le_rfl) fun _ s₁ h₁ => ?_
    refine (within_lookup h₁ _ _).bind (mono (by omega)) fun addresses s₂ h₂ => ?_
    exact (ensures_pure _).2 (h₂.mono (by omega))
  | ptr target =>
    refine (within_consume h).bind (mono le_rfl) fun _ s₁ h₁ => ?_
    exact (ensures_pure _).2 (h₁.mono (by omega))

lemma within_directives (hnested : Settles nested) (h : Within total debt s)
    (directives : List (Qualifier × Mechanism)) :
    Ensures (evalDirectives ctx nested domain directives) s (fun _ => Within total debt)
      (Ended total debt) := by
  induction directives generalizing s with
  | nil => exact (ensures_pure _).2 h
  | cons directive rest ih =>
    obtain ⟨qualifier, mechanism⟩ := directive
    refine (within_mechanism hnested h mechanism).bind (fun _ _ h' => h') fun matched s' h' => ?_
    exact .ite (fun _ => (ensures_pure _).2 h') fun _ => ih h'

lemma settled_redirect (hnested : Settles nested) (h : Within total debt s) (spec : List Char) :
    Ensures (evalRedirect ctx nested domain spec) s (Settled total debt) (Ended total debt) := by
  refine (within_consume h).bind (mono le_rfl) fun _ s₁ h₁ => ?_
  refine (within_expand h₁ _).bind (mono (by omega)) fun target s₂ h₂ => ?_
  refine ensures_bind.2 ((ensures_lift _).2 ((ensures_pure _).2 ?_))
  have hsettled := hnested target total _ s₂ h₂
  generalize (nested target).run s₂ = result at hsettled ⊢
  obtain ⟨outcome, s₃⟩ := result
  have hle : debt - 11 + 1 ≤ debt := by omega
  obtain hgoes | hends := hsettled
  · exact .inl (hgoes.mono hle)
  · refine .inr (mono hle _ _ ?_)
    -- an error is handed on as it is
    have hne : outcome ≠ .none := by
      rintro rfl
      obtain herror | herror := hends.error <;> cases herror
    rw [if_neg hne]
    exact hends

lemma settled_record (hnested : Settles nested) (h : Within total debt s) (record : Record) :
    Ensures (evalRecord ctx nested domain record) s (Settled total debt) (Ended total debt) := by
  refine (within_directives hnested h record.directives).bind (fun _ _ h' => h') fun result s' h' =>
    ?_
  cases result with
  | some outcome => exact (ensures_pure _).2 (.inl h')
  | none =>
    dsimp only
    cases record.redirect with
    | some spec => exact settled_redirect hnested h' spec
    | none => exact (ensures_pure _).2 (.inl h')

lemma within_fetchRecord (h : Within total debt s) :
    Ensures (fetchRecord ctx domain) s (fun _ => Within total (debt + 1))
      (Ended total (debt + 1)) := by
  refine (within_lookup h _ _).bind (fun _ _ h' => h') fun texts s' h' => ?_
  split
  · exact (ensures_pure _).2 h'
  · split
    · exact (ensures_pure _).2 h'
    · exact (ensures_throw _).2 (h'.ended (.inr rfl))
  · exact (ensures_throw _).2 (h'.ended (.inr rfl))

end Terms

/-! ## Whole evaluations -/

lemma settles_finish {x : Eval SpfOutcome} {s : State} {post : SpfOutcome → State → Prop}
    (h : Ensures x s post post) : post (x.finish.run s).1 (x.finish.run s).2 := by
  unfold Ensures at h
  cases hx : x.run.run s with
  | mk result s' =>
    rw [hx] at h
    rw [Eval.finish, StateT.run_bind, hx]
    -- Either way the part ends, its outcome is the one returned.
    cases result with
    | ok outcome => exact h
    | error outcome => exact h

lemma checkHostInner_settles (ctx : Context) (levels : ℕ) :
    Settles (checkHostInner ctx levels) := by
  induction levels with
  | zero =>
    intro domain total debt s h
    exact .inr ((h.mono (by omega)).ended (.inr rfl))
  | succ levels ih =>
    intro domain total debt s h
    refine settles_finish ((within_fetchRecord h).bind (fun _ _ h' => .inr h') fun record s' h' =>
      ?_)
    cases record with
    | none => exact (ensures_pure _).2 (.inl h')
    | some record =>
      exact (settled_record ih h' record).mono (fun _ _ h' => h') fun _ _ h' => .inr h'

lemma within_start : Within maxDnsMechanisms 0 .start := ⟨rfl, rfl, Nat.zero_le _, le_rfl⟩

/-- For every name server: at most ten terms are charged and at most eleven questions asked for
each, beside the one for the first record, and the third empty answer is a `permerror`. -/
theorem checkHost_stays_within_limits (ctx : Context) (domain : List Char) :
    let (outcome, s) := checkHost ctx domain
    s.terms ≤ 10 ∧ s.asked.length ≤ 1 + 10 * 11 ∧ s.voids ≤ 3 ∧
      (3 ≤ s.voids → outcome = .permError) := by
  have hsettled := checkHostInner_settles ctx maxDepth domain maxDnsMechanisms 0 .start within_start
  change Settled _ _ (checkHost ctx domain).1 (checkHost ctx domain).2 at hsettled
  generalize checkHost ctx domain = result at hsettled
  obtain ⟨outcome, s⟩ := result
  dsimp only at hsettled ⊢
  have hterms : s.terms ≤ 10 := by
    obtain h | h := hsettled
    · exact (Nat.le_add_right _ _).trans h.terms.le
    · exact h.terms
  have hdebt : s.debt ≤ 1 := by
    obtain h | h := hsettled
    · exact h.debt_le
    · exact h.debt_le
  have hasked : s.asked.length ≤ 1 + 10 * 11 := by
    rw [debt] at hdebt
    omega
  refine ⟨hterms, hasked, ?_⟩
  obtain h | h := hsettled
  · have hvoids : s.voids ≤ 2 := h.voids_le
    exact ⟨by omega, fun hthree => by omega⟩
  · obtain hvoids | ⟨hvoids, hperm⟩ := h.voids
    · have hvoids : s.voids ≤ 2 := hvoids
      exact ⟨by omega, fun hthree => by omega⟩
    · exact ⟨hvoids.le, fun _ => hperm⟩

end Epistle.Spf
