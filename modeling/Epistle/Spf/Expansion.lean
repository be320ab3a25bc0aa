import Epistle.Spf.Limits

/-!
# The names an SPF evaluation asks for

A term of a record with a domain-spec is to ask the name server for the expansion of the spec, in
the record's own domain, and to end the evaluation with a `permerror` if there is none. The terms
are followed through a whole evaluation: `Reaches` says which term of which record is come to, and
in which state.

* `terms_ask_expansion_iff`: every term of an evaluation does so, exactly if no `exists` has a spec
  with something to expand.
-/

namespace Epistle.Spf

open Lib List Option

/-! ## Terms -/

/-- A term of a record that is evaluated. -/
inductive Term
  | mechanism (mechanism : Mechanism)
  | redirect (spec : List Char)
  deriving DecidableEq

def Term.spec (domain : List Char) : Term → Option (List Char)
  | .mechanism (.a target _ _) => some (target.getD domain)
  | .mechanism (.mx target _ _) => some (target.getD domain)
  | .mechanism (.include spec) => some spec
  | .mechanism (.exists spec) => some spec
  | .redirect spec => some spec
  | .mechanism _ => none

def Term.run (ctx : Context) (levels : ℕ) (domain : List Char) (s : State) :
    Term → Option SpfOutcome × State
  | .mechanism m =>
      match (evalMechanism ctx (checkHostInner ctx levels) domain m).run.run s with
      | (.ok _, s') => (none, s')
      | (.error outcome, s') => (some outcome, s')
  | .redirect spec =>
      match (evalRedirect ctx (checkHostInner ctx levels) domain spec).run.run s with
      | (.ok outcome, s') => (some outcome, s')
      | (.error outcome, s') => (some outcome, s')

def State.charged (s : State) : State :=
  ⟨{ s.budget with remaining := s.budget.remaining - 1 }, s.trace ++ [.term]⟩

def Term.descends : Term → Bool
  | .mechanism (.include _) => true
  | .redirect _ => true
  | .mechanism _ => false

/-- The terms an evaluation of `domain` from `s` comes to: which may still nest how deep, the domain
of its record, and the state. -/
inductive Reaches (ctx : Context) :
    ℕ → List Char → State → ℕ → List Char → Term → State → Prop
  | mechanism {levels domain s record s₁ before qualifier mechanism behind s₂}
      (hfetch : (fetchRecord ctx domain).run.run s = (.ok (some record), s₁))
      (hdirectives : record.directives = before ++ (qualifier, mechanism) :: behind)
      (hbefore : (evalDirectives ctx (checkHostInner ctx levels) domain before).run.run s₁ =
        (.ok none, s₂)) :
      Reaches ctx (levels + 1) domain s levels domain (.mechanism mechanism) s₂
  | redirect {levels domain s record s₁ spec s₂}
      (hfetch : (fetchRecord ctx domain).run.run s = (.ok (some record), s₁))
      (hdirectives : (evalDirectives ctx (checkHostInner ctx levels) domain
        record.directives).run.run s₁ = (.ok none, s₂))
      (hredirect : record.redirect = some spec) :
      Reaches ctx (levels + 1) domain s levels domain (.redirect spec) s₂
  | descend {levels domain s levels' domain' outer s' spec name levels'' domain'' term s''}
      (houter : Reaches ctx levels domain s levels' domain' outer s')
      (hdescends : outer.descends) (hspec : outer.spec domain' = some spec)
      (hcharged : s'.budget.remaining ≠ 0) (hname : ctx.expand domain' spec = .ok name)
      (hinner : Reaches ctx levels' name s'.charged levels'' domain'' term s'') :
      Reaches ctx levels domain s levels'' domain'' term s''

/-- The questions a term may ask beside its first: `mx` asks for the addresses of the exchangers it
finds, and `include` and `redirect` ask exactly what the evaluation of the expanded name asks. -/
def Term.Further (ctx : Context) (levels : ℕ) (name : List Char) (s : State)
    (further : List Query) : Term → Prop
  | .mechanism (.mx _ _ _) => ∀ query ∈ further, ∃ exchangers exchanger,
      ctx.dns.mx s.asked name = .ok exchangers ∧ exchanger ∈ exchangers ∧
        query = .addresses exchanger
  | .mechanism (.include _) | .redirect _ =>
      ((checkHostInner ctx levels name).run s.charged).2.asked = s.asked ++ .txt name :: further
  | .mechanism _ => further = []

/-- From one state to the other a term asks nothing, or first under the name and then what it may
ask beside that. -/
def Term.Asked (ctx : Context) (levels : ℕ) (name : List Char) (s s' : State) (term : Term) :
    Prop :=
  s'.asked = s.asked ∨ ∃ query further, s'.asked = s.asked ++ query :: further ∧
    query.name = name ∧ term.Further ctx levels name s further

/-- A term asks for the expansion of its spec. -/
structure AsksExpansion (ctx : Context) (levels : ℕ) (domain spec : List Char) (term : Term)
    (s : State) : Prop where
  asks : ∀ name, ctx.expand domain spec = .ok name →
    term.Asked ctx levels name s (term.run ctx levels domain s).2
  fails : ∀ e, ctx.expand domain spec = .error e →
    (term.run ctx levels domain s).1 = some .permError ∧
      (term.run ctx levels domain s).2.asked = s.asked

/-! ## Questions are only added -/

def Later (s s' : State) : Prop := s.asked <+: s'.asked

lemma Later.refl (s : State) : Later s s := prefix_refl _

lemma Later.trans (s₁ s₂ s₃ : State) (h : Later s₁ s₂) (h' : Later s₂ s₃) : Later s₁ s₃ :=
  List.IsPrefix.trans h h'

variable {s s' : State}

lemma Later.of_eq (h : s'.asked = s.asked) : Later s s' := by
  rw [Later, h]

open State

lemma State.asked_term (s : State) (budget : Budget) :
    (mk budget (s.trace ++ [.term])).asked = s.asked := by
  simp [asked, Event.query?, filterMap_cons]

lemma State.asked_lookup (s : State) (budget : Budget) (query : Query) (void : Bool) :
    (mk budget (s.trace ++ [.lookup query void])).asked = s.asked ++ [query] := by
  simp [asked, Event.query?]

lemma ensures_consume (s : State) :
    Ensures consume s (fun _ s' => s.budget.remaining ≠ 0 ∧ s' = s.charged)
      (fun e s' => s.budget.remaining = 0 ∧ e = .permError ∧ s' = s) := by
  refine ensures_bind.2 (ensures_get.2 (.ite (fun hzero => ?_) fun hpos => ?_))
  · exact (ensures_throw _).2 ⟨hzero, rfl, rfl⟩
  · exact (ensures_set _).2 ⟨hpos, rfl⟩

lemma ensures_lookup {α : Type} (s : State) (query : Query)
    (answer : List Query → Except DnsFailure (List α)) :
    Ensures (lookup query answer) s
      (fun found s' => answer s.asked = .ok found ∧ s'.asked = s.asked ++ [query])
      (fun _ s' => s'.asked = s.asked ++ [query]) := by
  refine ensures_bind.2 (ensures_get.2 ?_)
  split
  · rename_i found hfound
    refine ensures_bind.2 ((ensures_set _).2 (.ite (fun hempty => ensures_bind.2 ?_) fun hsome =>
      ?_))
    · refine ensures_bind.2 (ensures_get.2 (ensures_bind.2 ((ensures_set _).2 ?_)))
      refine .ite (fun hlast => ?_) fun hmore => ?_
      · exact (ensures_throw _).2 (asked_lookup ..)
      · exact (ensures_pure _).2 ((ensures_pure _).2 ⟨hfound, asked_lookup ..⟩)
    · exact (ensures_pure _).2 ⟨hfound, asked_lookup ..⟩
  · exact ensures_bind.2 ((ensures_set _).2 ((ensures_throw _).2 (asked_lookup ..)))

open Later

section Later

variable (ctx : Context)

lemma later_consume : Keeps Later consume := by
  intro s
  refine (ensures_consume s).mono ?_ ?_
  · rintro _ _ ⟨-, rfl⟩
    exact of_eq (asked_term s _)
  · rintro _ _ ⟨-, -, rfl⟩
    exact refl _

lemma later_lookup {α : Type} (query : Query)
    (answer : List Query → Except DnsFailure (List α)) : Keeps Later (lookup query answer) := by
  intro s
  refine (ensures_lookup s query answer).mono ?_ ?_
  · rintro _ _ ⟨-, hasked⟩
    exact ⟨[query], hasked.symm⟩
  · rintro _ _ hasked
    exact ⟨[query], hasked.symm⟩

lemma later_anyExchanger (length4 : Fin 33) (length6 : Fin 129) (exchangers : List (List Char)) :
    Keeps Later (anyExchanger ctx length4 length6 exchangers) := by
  induction exchangers with
  | nil => exact keeps_pure refl _
  | cons exchanger rest ih =>
    exact (later_lookup _ _).bind trans fun _ => .ite (keeps_pure refl _) ih

variable {ctx} {nested : List Char → StateM State SpfOutcome}

def Adds (nested : List Char → StateM State SpfOutcome) : Prop :=
  ∀ name s, Later s ((nested name).run s).2

lemma later_nested (hnested : Adds nested) (name : List Char) :
    Keeps Later (liftM (nested name) : Eval SpfOutcome) :=
  fun s => (ensures_lift _).2 (hnested name s)

lemma later_mechanism (hnested : Adds nested) (domain : List Char) (m : Mechanism) :
    Keeps Later (evalMechanism ctx nested domain m) := by
  cases m with
  | all | ip4 network length | ip6 network length => exact keeps_pure refl _
  | a target length4 length6 =>
    refine later_consume.bind trans fun _ => ?_
    refine (keeps_except refl _).bind trans fun name => ?_
    exact (later_lookup _ _).bind trans fun _ => keeps_pure refl _
  | mx target length4 length6 =>
    refine later_consume.bind trans fun _ => ?_
    refine (keeps_except refl _).bind trans fun name => ?_
    exact (later_lookup _ _).bind trans fun _ =>
      later_anyExchanger ctx length4 length6 _
  | «include» spec =>
    refine later_consume.bind trans fun _ => ?_
    refine (keeps_except refl _).bind trans fun included s => ?_
    refine ensures_bind.2 (ensures_get.2 (ensures_bind.2 ((ensures_lift _).2 ?_)))
    have hlater := hnested included s
    generalize (nested included).run s = result at hlater
    obtain ⟨outcome, s'⟩ := result
    cases outcome with
    | pass | fail | softFail | neutral => exact (ensures_pure _).2 hlater
    | none | tempError | permError =>
      exact ensures_bind.2 ((ensures_modify _).2 ((ensures_throw _).2 hlater))
  | «exists» spec =>
    refine later_consume.bind trans fun _ => ?_
    exact (later_lookup _ _).bind trans fun _ => keeps_pure refl _
  | ptr target => exact later_consume.bind trans fun _ => keeps_pure refl _

lemma later_directives (hnested : Adds nested) (domain : List Char)
    (directives : List (Qualifier × Mechanism)) :
    Keeps Later (evalDirectives ctx nested domain directives) := by
  induction directives with
  | nil => exact keeps_pure refl _
  | cons directive rest ih =>
    obtain ⟨qualifier, m⟩ := directive
    exact (later_mechanism hnested domain m).bind trans fun _ =>
      .ite (keeps_pure refl _) ih

lemma later_redirect (hnested : Adds nested) (domain spec : List Char) :
    Keeps Later (evalRedirect ctx nested domain spec) := by
  refine later_consume.bind trans fun _ => ?_
  refine (keeps_except refl _).bind trans fun target => ?_
  exact (later_nested hnested target).bind trans fun _ => keeps_pure refl _

lemma later_record (hnested : Adds nested) (domain : List Char) (record : Record) :
    Keeps Later (evalRecord ctx nested domain record) := by
  refine (later_directives hnested domain record.directives).bind trans fun result => ?_
  cases result with
  | some outcome => exact keeps_pure refl _
  | none =>
    dsimp only
    cases record.redirect with
    | some spec => exact later_redirect hnested domain spec
    | none => exact keeps_pure refl _

lemma ensures_fetchRecord (ctx : Context) (domain : List Char) (s : State) :
    Ensures (fetchRecord ctx domain) s (fun _ s' => s'.asked = s.asked ++ [.txt domain])
      (fun _ s' => s'.asked = s.asked ++ [.txt domain]) := by
  refine (ensures_lookup s _ _).bind (fun _ _ h => h) fun texts s' h => ?_
  split
  · exact (ensures_pure _).2 h.2
  · split
    · exact (ensures_pure _).2 h.2
    · exact (ensures_throw _).2 h.2
  · exact (ensures_throw _).2 h.2

end Later

lemma asked_checkHostInner (ctx : Context) (levels : ℕ) (domain : List Char) (s : State) :
    ((checkHostInner ctx levels domain).run s).2.asked = s.asked ∨
      ∃ further, ((checkHostInner ctx levels domain).run s).2.asked =
        s.asked ++ .txt domain :: further := by
  induction levels generalizing domain s with
  | zero => exact .inl rfl
  | succ levels ih =>
    have hadds : Adds (checkHostInner ctx levels) := by
      intro name s'
      obtain heq | ⟨further, heq⟩ := ih name s'
      · exact of_eq heq
      · exact ⟨_, heq.symm⟩
    refine .inr (@settles_finish _ s (fun _ s' => ∃ further,
      s'.asked = s.asked ++ .txt domain :: further) ?_)
    refine (ensures_fetchRecord ctx domain s).bind (fun _ _ h => ⟨[], h⟩) fun record s' h => ?_
    cases record with
    | none => exact (ensures_pure _).2 ⟨[], h⟩
    | some record =>
      have hlater : ∀ s'', Later s' s'' → ∃ further, s''.asked = s.asked ++ .txt domain ::
        further := by
        rintro s'' ⟨further, heq⟩
        exact ⟨further, by rw [← heq, h, append_assoc, singleton_append]⟩
      exact (later_record hadds domain record s').mono (fun _ s'' h' => hlater s'' h')
        fun _ s'' h' => hlater s'' h'

/-! ## What the terms ask for -/

open Term

section Terms

variable {ctx : Context} {levels : ℕ} {domain : List Char} {s : State}

lemma Term.run_mechanism {m : Mechanism} {P : Option SpfOutcome → State → Prop}
    (h : Ensures (evalMechanism ctx (checkHostInner ctx levels) domain m) s (fun _ => P none)
      (fun e => P (some e))) :
    P ((mechanism m).run ctx levels domain s).1
      ((mechanism m).run ctx levels domain s).2 := by
  unfold Ensures at h
  unfold run
  dsimp only
  generalize (evalMechanism ctx (checkHostInner ctx levels) domain m).run.run s = result at h ⊢
  obtain ⟨_ | matched, s'⟩ := result <;> exact h

lemma Term.run_redirect {spec : List Char} {P : Option SpfOutcome → State → Prop}
    (h : Ensures (evalRedirect ctx (checkHostInner ctx levels) domain spec) s (fun o => P (some o))
      (fun e => P (some e))) :
    P ((redirect spec).run ctx levels domain s).1
      ((redirect spec).run ctx levels domain s).2 := by
  unfold Ensures at h
  unfold run
  dsimp only
  generalize (evalRedirect ctx (checkHostInner ctx levels) domain spec).run.run s = result at h ⊢
  obtain ⟨_ | outcome, s'⟩ := result <;> exact h

lemma ensures_expanded {α : Type} {spec : List Char} {body : List Char → Eval α}
    {post : α → State → Prop} {ends : SpfOutcome → State → Prop}
    (hnone : s.budget.remaining = 0 → ends .permError s)
    (hfails : s.budget.remaining ≠ 0 → ∀ e, ctx.expand domain spec = .error e →
      ends .permError s.charged)
    (hbody : s.budget.remaining ≠ 0 → ∀ name, ctx.expand domain spec = .ok name →
      Ensures (body name) s.charged post ends) :
    Ensures (do consume; let name ← ctx.expand domain spec; body name) s post ends := by
  refine (ensures_consume s).bind ?_ fun _ s' h => ?_
  · rintro _ _ ⟨hzero, rfl, rfl⟩
    exact hnone hzero
  · obtain ⟨hpos, rfl⟩ := h
    refine ensures_bind.2 ((ensures_except _).2 ⟨hbody hpos, fun e he => ?_⟩)
    obtain rfl := onlyPerm_expand ctx domain spec e he
    exact hfails hpos _ he

variable {name : List Char}

lemma asked_expanded {α : Type} {spec : List Char} {body : List Char → Eval α} {term : Term}
    (hname : ctx.expand domain spec = .ok name)
    (hbody : Ensures (body name) s.charged (fun _ s' => term.Asked ctx levels name s s')
      (fun _ s' => term.Asked ctx levels name s s')) :
    Ensures (do consume; let name ← ctx.expand domain spec; body name) s
      (fun _ s' => term.Asked ctx levels name s s') (fun _ s' =>
        term.Asked ctx levels name s s') := by
  refine ensures_expanded (fun _ => .inl rfl) (fun _ e he => ?_) fun _ name' hname' => ?_
  · rw [hname] at he
    cases he
  · rw [hname] at hname'
    cases hname'
    exact hbody

lemma fails_expanded {α : Type} {spec : List Char} {body : List Char → Eval α} {e : SpfOutcome}
    (he : ctx.expand domain spec = .error e) :
    Ensures (do consume; let name ← ctx.expand domain spec; body name) s (fun _ _ => False)
      (fun outcome s' => outcome = .permError ∧ s'.asked = s.asked) := by
  refine ensures_expanded (fun _ => ⟨rfl, rfl⟩) (fun _ _ _ => ⟨rfl, asked_term s _⟩) ?_
  intro _ name hname
  rw [he] at hname
  cases hname

lemma State.asked_charged (s : State) : s.charged.asked = s.asked := asked_term s _

lemma asked_nested (term : Term) (hfurther : ∀ further,
      ((checkHostInner ctx levels name).run s.charged).2.asked = s.asked ++ .txt name :: further →
        term.Further ctx levels name s further) :
    term.Asked ctx levels name s ((checkHostInner ctx levels name).run s.charged).2 := by
  have hasked := asked_checkHostInner ctx levels name s.charged
  rw [asked_charged] at hasked
  obtain heq | ⟨further, heq⟩ := hasked
  · exact .inl heq
  · exact .inr ⟨.txt name, further, heq, rfl, hfurther further heq⟩

lemma asked_a (target : Option (List Char)) (length4 : Fin 33) (length6 : Fin 129)
    (hname : ctx.expand domain (target.getD domain) = .ok name) :
    (mechanism (.a target length4 length6)).Asked ctx levels name s
      ((mechanism (.a target length4 length6)).run ctx levels domain s).2 := by
  refine run_mechanism (P := fun _ s' => Term.Asked ctx levels name s s' _) ?_
  refine asked_expanded hname ((ensures_lookup _ _ _).bind ?_ fun found s' h =>
    (ensures_pure _).2 ?_)
  · intro _ s' hasked
    exact .inr ⟨_, [], hasked.trans (by rw [asked_charged]), rfl, rfl⟩
  · exact .inr ⟨_, [], h.2.trans (by rw [asked_charged]), rfl, rfl⟩

lemma ensures_anyExchanger (length4 : Fin 33) (length6 : Fin 129) (exchangers : List (List Char)) :
    let post := fun s' : State => ∃ further, s'.asked = s.asked ++ further ∧
      ∀ query ∈ further, ∃ exchanger ∈ exchangers, query = .addresses exchanger
    Ensures (anyExchanger ctx length4 length6 exchangers) s (fun _ => post) (fun _ => post) := by
  intro post
  induction exchangers generalizing s with
  | nil => exact (ensures_pure _).2 ⟨[], (append_nil _).symm, nofun⟩
  | cons exchanger rest ih =>
    have hfirst : ∀ s' : State, s'.asked = s.asked ++ [.addresses exchanger] → post s' := by
      intro s' hasked
      refine ⟨_, hasked, fun query hquery => ⟨exchanger, mem_cons_self, ?_⟩⟩
      exact mem_singleton.1 hquery
    refine (ensures_lookup s _ _).bind (fun _ s' h => hfirst s' h) fun found s' h => ?_
    refine .ite (fun _ => (ensures_pure _).2 (hfirst s' h.2)) fun _ => ?_
    have hrest : ∀ s'' : State, (∃ further, s''.asked = s'.asked ++ further ∧
        ∀ query ∈ further, ∃ exchanger ∈ rest, query = .addresses exchanger) → post s'' := by
      rintro s'' ⟨further, hasked, hfurther⟩
      refine ⟨.addresses exchanger :: further, ?_, fun query hquery => ?_⟩
      · rw [hasked, h.2, append_assoc, singleton_append]
      · obtain rfl | hquery := mem_cons.1 hquery
        · exact ⟨exchanger, mem_cons_self, rfl⟩
        · obtain ⟨exchanger', hmem, heq⟩ := hfurther query hquery
          exact ⟨exchanger', mem_cons_of_mem _ hmem, heq⟩
    exact ih.mono (fun _ s'' h' => hrest s'' h') fun _ s'' h' => hrest s'' h'

lemma asked_mx (target : Option (List Char)) (length4 : Fin 33) (length6 : Fin 129)
    (hname : ctx.expand domain (target.getD domain) = .ok name) :
    (mechanism (.mx target length4 length6)).Asked ctx levels name s
      ((mechanism (.mx target length4 length6)).run ctx levels domain s).2 := by
  refine run_mechanism (P := fun _ s' => Term.Asked ctx levels name s s' _) ?_
  refine asked_expanded hname ((ensures_lookup _ _ _).bind ?_ fun exchangers s' h => ?_)
  · intro _ s' hasked
    exact .inr ⟨_, [], hasked.trans (by rw [asked_charged]), rfl, nofun⟩
  · obtain ⟨hanswer, hasked⟩ := h
    rw [asked_charged] at hanswer hasked
    have hfurther : ∀ s'' : State, (∃ further, s''.asked = s'.asked ++ further ∧
        ∀ query ∈ further, ∃ exchanger ∈ exchangers.take 10, query = .addresses exchanger) →
        (mechanism (.mx target length4 length6)).Asked ctx levels name s s'' := by
      rintro s'' ⟨further, hmore, hquery⟩
      refine .inr ⟨.mx name, further, ?_, rfl, fun query hmem => ?_⟩
      · rw [hmore, hasked, append_assoc, singleton_append]
      · obtain ⟨exchanger, hexchanger, heq⟩ := hquery query hmem
        exact ⟨exchangers, exchanger, hanswer, mem_of_mem_take hexchanger, heq⟩
    exact (ensures_anyExchanger length4 length6 (exchangers.take 10)).mono
      (fun _ s'' h' => hfurther s'' h') fun _ s'' h' => hfurther s'' h'

lemma asked_include {spec : List Char} (hname : ctx.expand domain spec = .ok name) :
    (mechanism (.include spec)).Asked ctx levels name s
      ((mechanism (.include spec)).run ctx levels domain s).2 := by
  refine run_mechanism (P := fun _ s' => Term.Asked ctx levels name s s' _) ?_
  refine asked_expanded hname
    (ensures_bind.2 (ensures_get.2 (ensures_bind.2 ((ensures_lift _).2 ?_))))
  have hasked : (mechanism (.include spec)).Asked ctx levels name s
      ((checkHostInner ctx levels name).run s.charged).2 :=
    asked_nested (.mechanism (.include spec)) fun _ h => h
  generalize (checkHostInner ctx levels name).run s.charged = result at hasked ⊢
  obtain ⟨outcome, s'⟩ := result
  cases outcome with
  | pass | fail | softFail | neutral => exact (ensures_pure _).2 hasked
  | none | tempError | permError =>
    exact ensures_bind.2 ((ensures_modify _).2 ((ensures_throw _).2 hasked))

lemma asked_redirect {spec : List Char} (hname : ctx.expand domain spec = .ok name) :
    (redirect spec).Asked ctx levels name s ((redirect spec).run ctx levels domain s).2 := by
  refine run_redirect (P := fun _ s' => Term.Asked ctx levels name s s' _) ?_
  refine asked_expanded hname (ensures_bind.2 ((ensures_lift _).2 ((ensures_pure _).2 ?_)))
  exact asked_nested (.redirect spec) fun _ h => h

lemma fails_mechanism {m : Mechanism} {spec : List Char} {body : List Char → Eval Bool}
    (hm : evalMechanism ctx (checkHostInner ctx levels) domain m =
      (do consume; let name ← ctx.expand domain spec; body name))
    {e : SpfOutcome} (he : ctx.expand domain spec = .error e) :
    ((mechanism m).run ctx levels domain s).1 = some .permError ∧
      ((mechanism m).run ctx levels domain s).2.asked = s.asked := by
  refine run_mechanism (P := fun o s' => o = some .permError ∧ s'.asked = s.asked) ?_
  rw [hm]
  refine (fails_expanded he).mono (fun _ _ h => h.elim) ?_
  rintro _ _ ⟨rfl, hasked⟩
  exact ⟨rfl, hasked⟩

lemma asksExpansion_of_ne_exists {term : Term} {spec : List Char}
    (hspec : term.spec domain = some spec) (hne : term ≠ .mechanism (.exists spec)) :
    AsksExpansion ctx levels domain spec term s := by
  cases term with
  | redirect spec =>
    obtain rfl := some.inj hspec
    refine ⟨fun name hname => asked_redirect hname, fun e he => ?_⟩
    refine run_redirect (P := fun o s' => o = some .permError ∧ s'.asked = s.asked) ?_
    refine (fails_expanded he).mono (fun _ _ h => h.elim) ?_
    rintro _ _ ⟨rfl, hasked⟩
    exact ⟨rfl, hasked⟩
  | mechanism m =>
    cases m with
    | all | ip4 network length | ip6 network length | ptr target => cases hspec
    | a target length4 length6 =>
      obtain rfl := some.inj hspec
      exact ⟨fun name hname => asked_a target length4 length6 hname, fun e he =>
        fails_mechanism rfl he⟩
    | mx target length4 length6 =>
      obtain rfl := some.inj hspec
      exact ⟨fun name hname => asked_mx target length4 length6 hname, fun e he =>
        fails_mechanism rfl he⟩
    | «include» spec =>
      obtain rfl := some.inj hspec
      exact ⟨fun name hname => asked_include hname, fun e he => fails_mechanism rfl he⟩
    | «exists» spec =>
      obtain rfl := some.inj hspec
      exact absurd rfl hne

lemma asked_exists (spec : List Char) :
    (s.budget.remaining = 0 ∧
        (mechanism (.exists spec)).run ctx levels domain s = (some .permError, s)) ∨
      s.budget.remaining ≠ 0 ∧
        ((mechanism (.exists spec)).run ctx levels domain s).2.asked =
          s.asked ++ [.addresses spec] := by
  refine run_mechanism (P := fun o s' => (s.budget.remaining = 0 ∧ (o, s') = (some .permError, s)) ∨
    s.budget.remaining ≠ 0 ∧ s'.asked = s.asked ++ [.addresses spec]) ?_
  refine (ensures_consume s).bind ?_ fun _ s' h => ?_
  · rintro _ _ ⟨hzero, rfl, rfl⟩
    exact .inl ⟨hzero, rfl⟩
  · obtain ⟨hpos, rfl⟩ := h
    refine (ensures_lookup _ _ _).bind ?_ fun found s' h => (ensures_pure _).2 ?_
    · intro _ s' hasked
      exact .inr ⟨hpos, hasked.trans (by rw [asked_charged])⟩
    · exact .inr ⟨hpos, h.2.trans (by rw [asked_charged])⟩

lemma asksExpansion_exists_iff {spec : List Char} :
    AsksExpansion ctx levels domain spec (.mechanism (.exists spec)) s ↔
      s.budget.remaining = 0 ∨ ctx.expand domain spec = .ok spec := by
  obtain ⟨hzero, hrun⟩ | ⟨hpos, hasked⟩ :=
    @asked_exists ctx levels domain s spec
  · refine iff_of_true ⟨fun name _ => .inl ?_, fun e _ => ?_⟩ (.inl hzero)
    · rw [hrun]
    · rw [hrun]
      exact ⟨rfl, rfl⟩
  · constructor
    · intro hasks
      refine .inr ?_
      cases hexpand : ctx.expand domain spec with
      | error e =>
        obtain ⟨-, hnothing⟩ := hasks.fails e hexpand
        rw [hasked] at hnothing
        simp at hnothing
      | ok name =>
        obtain hnothing | ⟨query, further, heq, hname, -⟩ := hasks.asks name hexpand
        · rw [hasked] at hnothing
          simp at hnothing
        · rw [hasked, append_cancel_left_eq] at heq
          obtain ⟨rfl, -⟩ := List.cons.inj heq
          exact congrArg Except.ok hname.symm
    · rintro (hzero | hself)
      · exact absurd hzero hpos
      · refine ⟨fun name hname => ?_, fun e he => ?_⟩
        · rw [hself] at hname
          cases hname
          exact .inr ⟨_, [], hasked, rfl, rfl⟩
        · rw [hself] at he
          cases he

end Terms

/-! ## Whole evaluations -/

lemma ensures_eq_iff {α : Type} {x : Eval α} {a : α} :
    Ensures x s (fun b s'' => b = a ∧ s'' = s') (fun _ _ => False) ↔ x.run.run s = (.ok a, s') := by
  unfold Ensures
  generalize x.run.run s = result
  obtain ⟨e | b, s''⟩ := result
  · exact ⟨False.elim, fun h => by cases h⟩
  · refine ⟨?_, fun h => ?_⟩
    · rintro ⟨rfl, rfl⟩
      rfl
    · cases h
      exact ⟨rfl, rfl⟩

section Reach

variable {ctx : Context} {nested : List Char → StateM State SpfOutcome} {domain : List Char}

lemma ensures_directives_append {before rest : List (Qualifier × Mechanism)} {s s' : State}
    {post : Option SpfOutcome → State → Prop} {ends : SpfOutcome → State → Prop}
    (hbefore : (evalDirectives ctx nested domain before).run.run s = (.ok none, s'))
    (hrest : Ensures (evalDirectives ctx nested domain rest) s' post ends) :
    Ensures (evalDirectives ctx nested domain (before ++ rest)) s post ends := by
  induction before generalizing s with
  | nil =>
    obtain rfl : s = s' := congrArg Prod.snd hbefore
    exact hrest
  | cons directive before ih =>
    obtain ⟨qualifier, m⟩ := directive
    -- the first directive did not match, or the others would not have been tried
    have hfirst := ensures_bind.1 (ensures_eq_iff.2 hbefore)
    refine hfirst.bind (fun _ _ h => h.elim) fun matched s₁ h => ?_
    cases matched with
    | true => exact absurd h.1 nofun
    | false => exact ih (ensures_eq_iff.1 h)

lemma outcome_of_record {levels : ℕ} {s s₁ : State} {record : Record} {outcome : SpfOutcome}
    (hfetch : (fetchRecord ctx domain).run.run s = (.ok (some record), s₁))
    (hrecord : Ensures (evalRecord ctx (checkHostInner ctx levels) domain record) s₁
      (fun o _ => o = outcome) fun o _ => o = outcome) :
    ((checkHostInner ctx (levels + 1) domain).run s).1 = outcome := by
  refine @settles_finish _ s (fun o _ => o = outcome) ?_
  refine (ensures_eq_iff.2 hfetch).bind (fun _ _ h => h.elim) ?_
  rintro _ _ ⟨rfl, rfl⟩
  exact hrecord

end Reach

lemma Term.run_descends {ctx : Context} {levels : ℕ} {domain spec name : List Char}
    {term : Term} (hdescends : term.descends) (hspec : term.spec domain = some spec)
    (hname : ctx.expand domain spec = .ok name)
    (hnested : ((checkHostInner ctx levels name).run s.charged).1 = .permError) :
    (term.run ctx levels domain s).1 = some .permError := by
  have hfails : ∀ e, ctx.expand domain spec ≠ .error e := by
    intro e he
    rw [hname] at he
    cases he
  cases term with
  | redirect spec =>
    obtain rfl := some.inj hspec
    refine run_redirect (P := fun o _ => o = some .permError) ?_
    refine ensures_expanded (fun _ => rfl) (fun _ e he => absurd he (hfails e)) fun _ name'
      hname' => ?_
    obtain rfl := Except.ok.inj (hname.symm.trans hname')
    refine ensures_bind.2 ((ensures_lift _).2 ((ensures_pure _).2 ?_))
    rw [hnested]
    rfl
  | mechanism m =>
    cases m with
    | «include» spec =>
      obtain rfl := some.inj hspec
      refine run_mechanism (P := fun o _ => o = some .permError) ?_
      refine ensures_expanded (fun _ => rfl) (fun _ e he => absurd he (hfails e))
        fun _ name' hname' => ?_
      obtain rfl := Except.ok.inj (hname.symm.trans hname')
      refine ensures_bind.2 (ensures_get.2 (ensures_bind.2 ((ensures_lift _).2 ?_)))
      rw [hnested]
      exact ensures_bind.2 ((ensures_modify _).2 ((ensures_throw _).2 rfl))
    | all => cases hdescends
    | ip4 network length => cases hdescends
    | ip6 network length => cases hdescends
    | a target length4 length6 => cases hdescends
    | mx target length4 length6 | «exists» spec | ptr target => cases hdescends

lemma permError_of_reaches {ctx : Context} {levels levels' : ℕ} {domain domain' : List Char}
    {term : Term} (h : Reaches ctx levels domain s levels' domain' term s')
    (hends : (term.run ctx levels' domain' s').1 = some .permError) :
    ((checkHostInner ctx levels domain).run s).1 = .permError := by
  induction h with
  | @mechanism levels domain s record s₁ before qualifier m behind s₂ hfetch hdirectives hbefore =>
    refine outcome_of_record hfetch (ensures_bind.2 ?_)
    rw [hdirectives]
    refine ensures_directives_append hbefore (ensures_bind.2 ?_)
    unfold run at hends
    dsimp only at hends
    unfold Ensures
    generalize (evalMechanism ctx (checkHostInner ctx levels) domain m).run.run s₂ =
      result at hends ⊢
    obtain ⟨e | matched, s₃⟩ := result
    · exact some.inj hends
    · cases hends
  | @redirect levels domain s record s₁ spec s₂ hfetch hdirectives hredirect =>
    refine outcome_of_record hfetch ((ensures_eq_iff.2 hdirectives).bind (fun _ _ h => h.elim) ?_)
    rintro _ _ ⟨rfl, rfl⟩
    dsimp only
    rw [hredirect]
    unfold run at hends
    dsimp only at hends
    unfold Ensures
    dsimp only
    generalize (evalRedirect ctx (checkHostInner ctx levels) domain spec).run.run _ = result
      at hends ⊢
    obtain ⟨e | outcome, s₃⟩ := result
    · exact some.inj hends
    · exact some.inj hends
  | @descend levels domain s levels' domain' outer s' spec name levels'' domain'' term s'' houter
      hdescends hspec hcharged hname hinner ihouter ihinner =>
    exact ihouter (run_descends hdescends hspec hname (ihinner hends))

/-- Every term an evaluation comes to asks for the expansion of its spec, and makes the evaluation a
`permerror` without one, exactly if every `exists` it comes to (with terms left to charge) has a
spec that is its own expansion. -/
theorem terms_ask_expansion_iff (ctx : Context) (domain : List Char) :
    (∀ levels domain' term spec s, Reaches ctx maxDepth domain .start levels domain' term s →
      term.spec domain' = some spec →
      AsksExpansion ctx levels domain' spec term s ∧
        ∀ e, ctx.expand domain' spec = .error e → (checkHost ctx domain).1 = .permError) ↔
    ∀ levels domain' spec s,
      Reaches ctx maxDepth domain .start levels domain' (.mechanism (.exists spec)) s →
      s.budget.remaining = 0 ∨ ctx.expand domain' spec = .ok spec := by
  constructor
  · intro hasks levels domain' spec s hreach
    exact asksExpansion_exists_iff.1 (hasks levels domain' _ spec s hreach rfl).1
  · intro hself levels domain' term spec s hreach hspec
    have hasks : AsksExpansion ctx levels domain' spec term s := by
      by_cases hexists : term = .mechanism (.exists spec)
      · subst hexists
        exact asksExpansion_exists_iff.2 (hself levels domain' spec s hreach)
      · exact asksExpansion_of_ne_exists hspec hexists
    exact ⟨hasks, fun e he => permError_of_reaches hreach (hasks.fails e he).1⟩

/-- A domain that authorises clients by the addresses under `x`: the client is listed there, but the
question is asked with the macro in it, and the client fails. -/
theorem exists_asks_unexpanded :
    let domain := "d.example".toList
    let spec := "%\x7bi\x7d.x".toList
    let listed := "1.2.3.4.x".toList
    let dns : Dns := {
      txt := fun _ name => .ok (if name = domain then ["v=spf1 exists:%\x7bi\x7d.x -all".toList]
        else [])
      mx := fun _ _ => .ok []
      addresses := fun _ name => .ok (if name = listed then [.v4 0x7f000002] else []) }
    let ctx : Context := ⟨⟨fun _ => none, fun _ => none⟩, dns, .v4 0x01020304, [], []⟩
    let s : State := ⟨⟨10, 0⟩, [.lookup (.txt domain) false]⟩
    Reaches ctx maxDepth domain .start 9 domain (.mechanism (.exists spec)) s ∧
      ctx.expand domain spec = .ok listed ∧
      ¬ AsksExpansion ctx 9 domain spec (.mechanism (.exists spec)) s ∧
      (checkHost ctx domain).1 = .fail ∧
      (checkHost ctx domain).2.asked = [.txt domain, .addresses spec] := by
  intro domain spec listed dns ctx s
  have hexpand : ctx.expand domain spec = .ok listed := by decide +kernel
  have hfetch : @Eq (Except SpfOutcome (Option Record) × State)
      ((fetchRecord ctx domain).run.run .start)
      (.ok (some ⟨[(.pass, .exists spec), (.fail, .all)], none⟩), s) := by
    decide +kernel
  have hfirst : [(.pass, .exists spec), (.fail, .all)] =
      ([] : List (Qualifier × Mechanism)) ++ (.pass, .exists spec) :: [(.fail, .all)] := rfl
  refine ⟨.mechanism hfetch hfirst rfl, hexpand, fun hasks => ?_, ?_, ?_⟩
  · obtain hzero | hself := asksExpansion_exists_iff.1 hasks
    · exact absurd hzero (by decide)
    · rw [hexpand] at hself
      exact absurd (Except.ok.inj hself) (by decide)
  · decide +kernel
  · decide +kernel

end Epistle.Spf
