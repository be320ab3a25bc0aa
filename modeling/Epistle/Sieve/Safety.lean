import Epistle.Sieve.Interp

/-!
# A Sieve script never loses mail

What one action can do is said once, by `Effect`. A relation between states that every action, every
step of the counters and every test keep is kept by whole runs, between any moment and the end
(`Progress.moments`).

* `evaluate_never_loses` — every outcome has a place for the message, within the limits, and an
  exhausted run decides and sends nothing more.
-/

namespace Epistle.Sieve

open List

open Epistle.Lib.Text (eqIgnoreAsciiCase)

/-! ### What an action does -/

/-- What one action does to the decision so far. -/
inductive Effect (r r' : Run) : Prop
  /-- Nothing is decided. -/
  | none (ho : r'.outcome = r.outcome) (hc : r'.cancel = r.cancel)
  | keep (hx : r'.env.exhausted = false) (ho : r'.outcome = { r.outcome with keep := true })
      (hc : r'.cancel = r.cancel)
  | discard (hx : r'.env.exhausted = false)
      (ho : r'.outcome = { r.outcome with discarded := true })
      (hc : r'.cancel = { r.cancel with «local» := true })
  | reject (reason : String) (hx : r'.env.exhausted = false)
      (ho : r'.outcome = { r.outcome with reject := some reason })
      (hc : r'.cancel = { r.cancel with external := true })
  | vacation (v : Option VacationRequest) (hx : r'.env.exhausted = false)
      (ho : r'.outcome = { r.outcome with vacation := v }) (hc : r'.cancel = r.cancel)
  | fileinto (folder : String) (create copy : Bool) (hx : r'.env.exhausted = false)
      (ho : r'.outcome = r.outcome.addFileinto folder create)
      (hc : r'.cancel = if copy then r.cancel else { r.cancel with «local» := true })
  | redirect (target : String) (copy : Bool) (hx : r'.env.exhausted = false)
      (ho : r'.outcome = r.outcome.addRedirect target)
      (hc : r'.cancel = if copy then r.cancel else { r.cancel with external := true })
  | flags (flags : List String) (hx : r'.env.exhausted = false)
      (ho : r'.outcome = { r.outcome with flags := flags }) (hc : r'.cancel = r.cancel)

variable {r : Run} {message : Message} {script : List Command}

lemma Run.expanding_effect {text : String} {next : String → Run → Run}
    (h : ∀ t env, env.exhausted = false → Effect r (next t { r with env := env })) :
    Effect r (r.expanding text next).2 := by
  unfold Run.expanding
  dsimp only
  by_cases hx : (r.env.expand text).2.exhausted = true
  · rw [if_pos hx]
    exact .none rfl rfl
  · rw [if_neg hx]
    exact h _ _ (eq_false_of_ne_true hx)

lemma discardAction_effect (h : r.env.exhausted = false) : Effect r (discardAction r) := by
  unfold discardAction
  split_ifs
  · exact .keep h rfl rfl
  · exact .discard h rfl rfl

lemma rejectAction_effect (args : List Argument) (h : r.env.exhausted = false) :
    Effect r (rejectAction args r).2 := by
  unfold rejectAction
  split_ifs
  · exact .keep h rfl rfl
  · cases firstStr args with
    | none => exact .none rfl rfl
    | some reason => exact Run.expanding_effect fun t _ hx => .reject t hx rfl rfl

lemma setAction_effect (args : List Argument) (r : Run) : Effect r (setAction args r).2 := by
  unfold setAction
  rcases strings args with _ | ⟨x, _ | ⟨value, rest⟩⟩
  · exact .none rfl rfl
  · exact .none rfl rfl
  · exact Run.expanding_effect fun _ _ _ => .none rfl rfl

lemma fileintoAction_effect (args : List Argument) (r : Run) :
    Effect r (fileintoAction args r).2 := by
  unfold fileintoAction
  cases firstStr args with
  | none => exact .none rfl rfl
  | some target =>
    exact Run.expanding_effect fun t _ hx =>
      .fileinto t (hasTag args "create") (hasTag args "copy") hx rfl rfl

lemma redirectAction_effect (args : List Argument) (r : Run) :
    Effect r (redirectAction args r).2 := by
  unfold redirectAction
  cases firstStr args with
  | none => exact .none rfl rfl
  | some target =>
    exact Run.expanding_effect fun t _ hx => .redirect t (hasTag args "copy") hx rfl rfl

lemma flagAction_effect (change : List String → List String → List String)
    (args : List Argument) (r : Run) : Effect r (flagAction change args r).2 := by
  unfold flagAction
  dsimp only
  split_ifs with hx
  · exact .none rfl rfl
  · exact .flags _ (eq_false_of_ne_true hx) rfl rfl

lemma Effect.ite {p : Prop} [Decidable p] {a b : Bool × Run} (ha : Effect r a.2)
    (hb : Effect r b.2) : Effect r (if p then a else b).2 := by
  split_ifs
  · exact ha
  · exact hb

lemma runAction_effect (name : String) (args : List Argument) (h : r.env.exhausted = false) :
    Effect r (runAction name args r).2 := by
  unfold runAction
  refine .ite (.keep h rfl rfl) ?_
  refine .ite (discardAction_effect h) ?_
  refine .ite (rejectAction_effect args h) ?_
  refine .ite (setAction_effect args r) ?_
  refine .ite (.vacation _ h rfl rfl) ?_
  refine .ite (fileintoAction_effect args r) ?_
  refine .ite (redirectAction_effect args r) ?_
  refine .ite (.none rfl rfl) ?_
  refine .ite (flagAction_effect _ args r) ?_
  refine .ite (flagAction_effect _ args r) ?_
  exact .ite (flagAction_effect _ args r) (.none rfl rfl)

lemma Effect.of_exhausted {r' : Run} (h : Effect r r') (hx : r'.env.exhausted = true) :
    r'.outcome = r.outcome ∧ r'.cancel = r.cancel := by
  cases h with
  | none ho hc => exact ⟨ho, hc⟩
  | keep hx' | discard hx' | reject _ hx' | vacation _ hx' | fileinto _ _ _ hx' | redirect _ _ hx'
  | flags _ hx' => exact absurd hx (by simp [hx'])

/-! ### Relations that runs keep -/

/-- A relation between states that counting a step, evaluating a test and carrying out an action
keep, the latter from before the action and from between its reading and its deed. -/
structure Progress (message : Message) (R : Run → Run → Prop) : Prop where
  refl : ∀ r, R r r
  trans : ∀ {a b c}, R a b → R b c → R a c
  step : ∀ r : Run, R r { r with env := r.env.step }
  test : ∀ (t : Test) (r : Run), R r { r with env := (evalTest message t r.env).2 }
  act : ∀ name args (r : Run), r.env.exhausted = false → R r (runAction name args r).2
  deed : ∀ name args (r : Run), r.env.exhausted = false →
    R { r with env := (runAction name args r).2.env } (runAction name args r).2

namespace Progress

variable {message : Message} {R : Run → Run → Prop}

mutual

lemma run (h : Progress message R) : ∀ (cs : List Command) (r : Run),
    R r (Sieve.run message cs r).2
  | [], r => h.refl r
  | c :: cs, r => by
    rw [Sieve.run]
    dsimp only
    split_ifs with hx hstop
    · exact h.step r
    · exact h.trans (h.step r) (h.runCommand c _ (eq_false_of_ne_true hx))
    · exact h.trans (h.step r)
        (h.trans (h.runCommand c _ (eq_false_of_ne_true hx)) (h.run cs _))

lemma runCommand (h : Progress message R) : ∀ (c : Command) (r : Run),
    r.env.exhausted = false → R r (Sieve.runCommand message c r).2
  | .action name args, r, hx => h.act name args r hx
  | .cond branches otherwise, r, _ => by
    rw [Sieve.runCommand]
    dsimp only
    split_ifs
    · exact h.runBranches branches r
    · exact h.trans (h.runBranches branches r) (h.runOtherwise otherwise _)

lemma runBranches (h : Progress message R) : ∀ (bs : List (Test × List Command)) (r : Run),
    R r (Sieve.runBranches message bs r).2.2
  | [], r => h.refl r
  | b :: bs, r => by
    rw [Sieve.runBranches]
    exact h.runBranch b r (h.runBranches bs)

lemma runBranch (h : Progress message R) : ∀ (b : Test × List Command) (r : Run)
    {others : Run → Bool × Bool × Run}, (∀ r, R r (others r).2.2) →
      R r (Sieve.runBranch message b r others).2.2
  | (test, body), r, others, hothers => by
    rw [Sieve.runBranch]
    dsimp only
    split_ifs
    · exact h.trans (h.test test r) (h.run body _)
    · exact h.trans (h.test test r) (hothers _)

lemma runOtherwise (h : Progress message R) : ∀ (o : Option (List Command)) (r : Run),
    R r (Sieve.runOtherwise message o r).2
  | none, r => h.refl r
  | some body, r => h.run body r

end

mutual

lemma moments (h : Progress message R) : ∀ (cs : List Command) (r σ : Run),
    σ ∈ Sieve.moments message cs r → R σ (Sieve.run message cs r).2
  | [], _, _, hσ => by
    rw [Sieve.moments] at hσ
    cases hσ
  | c :: cs, r, σ, hσ => by
    rw [Sieve.moments] at hσ
    dsimp only at hσ
    rw [Sieve.run]
    dsimp only
    by_cases hx : r.env.step.exhausted = true
    · rw [if_pos hx] at hσ ⊢
      obtain rfl := mem_singleton.1 hσ
      exact h.refl _
    rw [if_neg hx] at hσ ⊢
    have hx' : r.env.step.exhausted = false := eq_false_of_ne_true hx
    -- From the end of this command the rest of the run keeps the relation.
    have hrest : ∀ τ : Run, R τ (Sieve.runCommand message c { r with env := r.env.step }).2 →
        R τ (if (Sieve.runCommand message c { r with env := r.env.step }).1 = true then
          (true, (Sieve.runCommand message c { r with env := r.env.step }).2)
          else Sieve.run message cs
            (Sieve.runCommand message c { r with env := r.env.step }).2).2 := by
      intro τ hτ
      split_ifs
      · exact hτ
      · exact h.trans hτ (h.run cs _)
    rcases mem_cons.1 hσ with rfl | hσ
    · exact hrest _ (h.runCommand c _ hx')
    rcases mem_append.1 hσ with hσ | hσ
    · exact hrest σ (h.commandMoments c _ hx' σ hσ)
    · split_ifs at hσ ⊢
      · cases hσ
      · exact h.moments cs _ σ hσ

lemma commandMoments (h : Progress message R) : ∀ (c : Command) (r : Run),
    r.env.exhausted = false → ∀ σ ∈ Sieve.commandMoments message c r,
      R σ (Sieve.runCommand message c r).2
  | .action name args, r, hx, σ, hσ => by
    rw [Sieve.commandMoments] at hσ
    rw [Sieve.runCommand]
    rcases mem_cons.1 hσ with rfl | hσ
    · exact h.deed name args r hx
    · obtain rfl := mem_singleton.1 hσ
      exact h.refl _
  | .cond branches otherwise, r, _, σ, hσ => by
    rw [Sieve.commandMoments] at hσ
    rw [Sieve.runCommand]
    dsimp only at hσ ⊢
    rcases mem_append.1 hσ with hσ | hσ
    · have hbr := h.branchesMoments branches r σ hσ
      split_ifs
      · exact hbr
      · exact h.trans hbr (h.runOtherwise otherwise _)
    · split_ifs at hσ ⊢
      · cases hσ
      · exact h.otherwiseMoments otherwise _ σ hσ

lemma branchesMoments (h : Progress message R) : ∀ (bs : List (Test × List Command))
    (r σ : Run), σ ∈ Sieve.branchesMoments message bs r →
      R σ (Sieve.runBranches message bs r).2.2
  | [], _, _, hσ => by
    rw [Sieve.branchesMoments] at hσ
    cases hσ
  | b :: bs, r, σ, hσ => by
    rw [Sieve.branchesMoments] at hσ
    rw [Sieve.runBranches]
    exact h.branchMoments b r (h.runBranches bs) (h.branchesMoments bs) σ hσ

lemma branchMoments (h : Progress message R) : ∀ (b : Test × List Command) (r : Run)
    {others : Run → Bool × Bool × Run} {otherMoments : Run → List Run},
    (∀ r, R r (others r).2.2) → (∀ r σ, σ ∈ otherMoments r → R σ (others r).2.2) →
      ∀ σ ∈ Sieve.branchMoments message b r otherMoments,
        R σ (Sieve.runBranch message b r others).2.2
  | (test, body), r, others, otherMoments, hothers, hmoments, σ, hσ => by
    rw [Sieve.branchMoments] at hσ
    rw [Sieve.runBranch]
    dsimp only at hσ ⊢
    rcases mem_cons.1 hσ with rfl | hσ
    · split_ifs
      · exact h.run body _
      · exact hothers _
    · split_ifs at hσ ⊢
      · exact h.moments body _ σ hσ
      · exact hmoments _ σ hσ

lemma otherwiseMoments (h : Progress message R) : ∀ (o : Option (List Command)) (r σ : Run),
    σ ∈ Sieve.otherwiseMoments message o r → R σ (Sieve.runOtherwise message o r).2
  | none, _, _, hσ => by
    rw [Sieve.otherwiseMoments] at hσ
    cases hσ
  | some body, r, σ, hσ => by
    rw [Sieve.otherwiseMoments] at hσ
    exact h.moments body r σ hσ

end

lemma of_decision {P : Outcome → Cancel → Prop}
    (h : ∀ r r' : Run, Effect r r' → P r.outcome r.cancel → P r'.outcome r'.cancel) :
    Progress message fun a b => P a.outcome a.cancel → P b.outcome b.cancel where
  refl _ := id
  trans hab hbc ha := hbc (hab ha)
  step _ := id
  test _ _ := id
  act name args _ hx := h _ _ (runAction_effect name args hx)
  deed name args r hx := h r _ (runAction_effect name args hx)

end Progress

/-! ### The limits, and the implicit keep -/

/-- The forwards and folders are within their limits and distinct, and what cancelled the
implicit keep is there in its place. -/
structure Decided (o : Outcome) (c : Cancel) : Prop where
  redirects_length : o.redirects.length ≤ maxRedirects
  redirects_distinct :
    o.redirects.Pairwise fun a b => eqIgnoreAsciiCase a.toList b.toList = false
  fileinto_length : o.fileinto.length ≤ maxFileinto
  fileinto_nodup : o.fileinto.Nodup
  creates : ∀ f ∈ o.fileintoCreates, f ∈ o.fileinto
  cancel_local : c.local = true → o.discarded = true ∨ o.fileinto ≠ []
  cancel_external : c.external = true → o.redirects ≠ [] ∨ o.reject.isSome = true

namespace Outcome

variable (o : Outcome)

lemma addFileinto_fileinto (folder : String) (create : Bool) :
    (o.addFileinto folder create).fileinto =
      if folder ∈ o.fileinto ∨ maxFileinto ≤ o.fileinto.length then o.fileinto
      else o.fileinto ++ [folder] := by
  unfold addFileinto
  dsimp only
  by_cases hmem : folder ∈ o.fileinto
  · have hc : o.fileinto.contains folder = true := contains_iff_mem.2 hmem
    rw [if_pos hc, if_pos (Or.inl hmem)]
    split_ifs <;> rfl
  · have hc : ¬ o.fileinto.contains folder = true := fun h => hmem (contains_iff_mem.1 h)
    rw [if_neg hc]
    by_cases hlen : o.fileinto.length < maxFileinto
    · rw [if_pos hlen, if_neg (not_or.2 ⟨hmem, not_le.2 hlen⟩)]
      split_ifs <;> rfl
    · rw [if_neg hlen, if_pos (Or.inr (not_lt.1 hlen))]
      split_ifs <;> rfl

lemma mem_addFileinto_creates {folder f : String} {create : Bool}
    (h : f ∈ (o.addFileinto folder create).fileintoCreates) :
    f ∈ o.fileintoCreates ∨ f ∈ (o.addFileinto folder create).fileinto := by
  unfold addFileinto at h ⊢
  dsimp only at h ⊢
  set o' := if o.fileinto.contains folder = true then o
    else if o.fileinto.length < maxFileinto then { o with fileinto := o.fileinto ++ [folder] }
    else { o with fileintoOverLimit := o.fileintoOverLimit + 1 } with ho'
  have hcreates : o'.fileintoCreates = o.fileintoCreates := by
    rw [ho']
    split_ifs <;> rfl
  split_ifs at h ⊢ with hc
  · rcases Finset.mem_insert.1 h with rfl | h
    · exact .inr (contains_iff_mem.1 (Bool.and_eq_true_iff.1 hc).2)
    · exact .inl (hcreates ▸ h)
  · exact .inl (hcreates ▸ h)

lemma addFileinto_others (folder : String) (create : Bool) :
    (o.addFileinto folder create).redirects = o.redirects ∧
      (o.addFileinto folder create).reject = o.reject ∧
      (o.addFileinto folder create).discarded = o.discarded := by
  unfold addFileinto
  dsimp only
  split_ifs <;> exact ⟨rfl, rfl, rfl⟩

lemma addRedirect_redirects (target : String) :
    (o.addRedirect target).redirects =
      if hasIgnoringCase o.redirects target = true ∨ maxRedirects ≤ o.redirects.length then
        o.redirects
      else o.redirects ++ [target] := by
  unfold addRedirect
  by_cases hmem : hasIgnoringCase o.redirects target = true
  · rw [if_pos hmem, if_pos (Or.inl hmem)]
  · rw [if_neg hmem]
    by_cases hlen : o.redirects.length < maxRedirects
    · rw [if_pos hlen, if_neg (not_or.2 ⟨hmem, not_le.2 hlen⟩)]
    · rw [if_neg hlen, if_pos (Or.inr (not_lt.1 hlen))]

lemma addRedirect_others (target : String) :
    (o.addRedirect target).fileinto = o.fileinto ∧
      (o.addRedirect target).fileintoCreates = o.fileintoCreates ∧
      (o.addRedirect target).reject = o.reject ∧
      (o.addRedirect target).discarded = o.discarded := by
  unfold addRedirect
  split_ifs <;> exact ⟨rfl, rfl, rfl, rfl⟩

lemma addFileinto_ne_nil (folder : String) (create : Bool) :
    (o.addFileinto folder create).fileinto ≠ [] := by
  rw [addFileinto_fileinto]
  split_ifs with h
  · rcases h with h | h
    · exact ne_nil_of_mem h
    · intro hnil
      rw [hnil] at h
      exact absurd h (by decide)
  · exact append_ne_nil_of_right_ne_nil _ (cons_ne_nil _ _)

lemma addRedirect_ne_nil (target : String) : (o.addRedirect target).redirects ≠ [] := by
  rw [addRedirect_redirects]
  split_ifs with h
  · intro hnil
    rw [hnil] at h
    rcases h with h | h
    · exact absurd h (by simp [hasIgnoringCase])
    · exact absurd h (by decide)
  · exact append_ne_nil_of_right_ne_nil _ (cons_ne_nil _ _)

end Outcome

namespace Decided

variable {o : Outcome} {c : Cancel}

lemma fileinto (h : Decided o c) (folder : String) (create copy : Bool) :
    Decided (o.addFileinto folder create) (if copy then c else { c with «local» := true }) := by
  obtain ⟨hr, hj, hd⟩ := o.addFileinto_others folder create
  have hcancel : (if copy then c else { c with «local» := true }).external = c.external := by
    cases copy <;> rfl
  refine ⟨hr ▸ h.redirects_length, hr ▸ h.redirects_distinct, ?_, ?_, ?_, ?_, ?_⟩
  · rw [o.addFileinto_fileinto]
    split_ifs with hfull
    · exact h.fileinto_length
    · rw [length_append, length_singleton]
      exact not_le.1 (not_or.1 hfull).2
  · rw [o.addFileinto_fileinto]
    split_ifs with hfull
    · exact h.fileinto_nodup
    · exact nodup_append.2 ⟨h.fileinto_nodup, nodup_singleton _, by
        intro a ha b hb
        obtain rfl := mem_singleton.1 hb
        rintro rfl
        exact (not_or.1 hfull).1 ha⟩
  · intro f hf
    rcases o.mem_addFileinto_creates hf with hold | hnew
    · rw [o.addFileinto_fileinto]
      split_ifs
      · exact h.creates f hold
      · exact mem_append_left _ (h.creates f hold)
    · exact hnew
  · intro _
    exact .inr (o.addFileinto_ne_nil folder create)
  · intro hx
    rw [hr, hj]
    exact h.cancel_external (hcancel ▸ hx)

lemma redirect (h : Decided o c) (target : String) (copy : Bool) :
    Decided (o.addRedirect target) (if copy then c else { c with external := true }) := by
  obtain ⟨hf, hfc, hj, hd⟩ := o.addRedirect_others target
  have hcancel : (if copy then c else { c with external := true }).local = c.local := by
    cases copy <;> rfl
  refine ⟨?_, ?_, hf ▸ h.fileinto_length, hf ▸ h.fileinto_nodup, ?_, ?_, ?_⟩
  · rw [o.addRedirect_redirects]
    split_ifs with hfull
    · exact h.redirects_length
    · rw [length_append, length_singleton]
      exact not_le.1 (not_or.1 hfull).2
  · rw [o.addRedirect_redirects]
    split_ifs with hfull
    · exact h.redirects_distinct
    · refine pairwise_append.2 ⟨h.redirects_distinct, pairwise_singleton _ _, ?_⟩
      intro a ha b hb
      obtain rfl := mem_singleton.1 hb
      have hnone := (not_or.1 hfull).1
      rw [hasIgnoringCase, Bool.not_eq_true, any_eq_false] at hnone
      exact eq_false_of_ne_true (hnone a ha)
  · rw [hf, hfc]
    exact h.creates
  · intro hx
    rw [hf, hd]
    exact h.cancel_local (hcancel ▸ hx)
  · intro _
    exact .inl (o.addRedirect_ne_nil target)

lemma effect {r r' : Run} (he : Effect r r') (h : Decided r.outcome r.cancel) :
    Decided r'.outcome r'.cancel := by
  cases he with
  | none ho hc => rw [ho, hc]; exact h
  | keep _ ho hc => rw [ho, hc]; exact { h with }
  | discard _ ho hc => rw [ho, hc]; exact { h with cancel_local := fun _ => .inl rfl }
  | reject reason _ ho hc => rw [ho, hc]; exact { h with cancel_external := fun _ => .inr rfl }
  | vacation v _ ho hc => rw [ho, hc]; exact { h with }
  | fileinto folder create copy _ ho hc => rw [ho, hc]; exact h.fileinto folder create copy
  | redirect target copy _ ho hc => rw [ho, hc]; exact h.redirect target copy
  | flags fl _ ho hc => rw [ho, hc]; exact { h with }

lemma default : Decided Outcome.default ⟨false, false⟩ where
  redirects_length := Nat.zero_le _
  redirects_distinct := List.Pairwise.nil
  fileinto_length := Nat.zero_le _
  fileinto_nodup := nodup_nil
  creates _ hf := absurd hf (Finset.notMem_empty _)
  cancel_local := nofun
  cancel_external := nofun

lemma run (message : Message) (script : List Command) :
    Decided (Sieve.run message script .default).2.outcome
      (Sieve.run message script .default).2.cancel :=
  (Progress.of_decision fun _ _ => Decided.effect).run script .default Decided.default

end Decided

/-! ### What is asked to be sent -/

def Sends (o : Outcome) : Prop := o.redirects ≠ [] ∨ o.reject.isSome = true

lemma Sends.effect {r' : Run} (he : Effect r r') (h : Sends r.outcome) : Sends r'.outcome := by
  cases he with
  | none ho | keep _ ho | discard _ ho => rw [ho]; exact h
  | reject reason _ ho => rw [ho]; exact .inr rfl
  | vacation v _ ho => rw [ho]; exact h
  | fileinto folder create copy _ ho =>
    obtain ⟨hr, hj, -⟩ := r.outcome.addFileinto_others folder create
    rw [ho, Sends, hr, hj]
    exact h
  | redirect target copy _ ho => rw [ho]; exact .inl (r.outcome.addRedirect_ne_nil target)
  | flags fl _ ho => rw [ho]; exact h

lemma Sends.of_moment {σ : Run} (hσ : σ ∈ moments message script .default) (h : Sends σ.outcome) :
    Sends (run message script .default).2.outcome :=
  (Progress.of_decision (P := fun o _ => Sends o) fun _ _ => Sends.effect).moments script .default σ
    hσ h

/-- A run asks for something to be sent: a forward or a rejection at some moment, or an
autoresponse that no later `vacation` replaced. -/
def Asks (message : Message) (script : List Command) : Prop :=
  (∃ σ ∈ moments message script .default, Sends σ.outcome) ∨
    (run message script .default).2.outcome.vacation.isSome = true

/-! ### An exhausted run -/

def Frozen (a b : Run) : Prop :=
  a.env.exhausted = true →
    b.outcome = a.outcome ∧ b.cancel = a.cancel ∧ b.env.exhausted = true

lemma Frozen.progress (message : Message) : Progress message Frozen where
  refl _ hx := ⟨rfl, rfl, hx⟩
  trans hab hbc hx := by
    obtain ⟨ho, hc, hx'⟩ := hab hx
    obtain ⟨ho', hc', hx''⟩ := hbc hx'
    exact ⟨ho'.trans ho, hc'.trans hc, hx''⟩
  step _ hx := ⟨rfl, rfl, Env.exhausted_step hx⟩
  test t r hx := by
    refine ⟨rfl, rfl, ?_⟩
    dsimp only
    rw [evalTest_exhausted message t hx]
    exact Env.exhausted_step hx
  -- An action is not carried out in an exhausted run.
  act _ _ _ hx hx' := absurd hx' (by rw [hx]; exact Bool.false_ne_true)
  deed name args r hx hx' := by
    obtain ⟨ho, hc⟩ := (runAction_effect name args hx).of_exhausted hx'
    exact ⟨ho, hc, hx'⟩

/-! ### The outcome -/

lemma evaluate_of_not_dropped (hr : (run message script .default).2 = r)
    (h : r.env.exhausted = false ∨ (¬ Sends r.outcome ∧ r.outcome.vacation = none)) :
    (evaluate script message).redirects = r.outcome.redirects ∧
      (evaluate script message).reject = r.outcome.reject ∧
      (evaluate script message).vacation = r.outcome.vacation ∧
      (evaluate script message).discarded = r.outcome.discarded ∧
      (evaluate script message).keep =
        (r.outcome.keep || !(r.cancel.local || r.cancel.external)) := by
  have hany : (r.env.exhausted &&
      Dropped.any ⟨r.outcome.redirects.length, r.outcome.reject.isSome,
        r.outcome.vacation.isSome⟩) = false := by
    rcases h with hx | ⟨hs, hv⟩
    · rw [hx, Bool.false_and]
    · obtain ⟨hred, hrej⟩ := not_or.1 hs
      rw [not_not.1 hred, eq_false_of_ne_true hrej, hv]
      exact Bool.and_false _
  unfold evaluate
  rw [hr]
  dsimp only
  cases hx : r.env.exhausted with
  | false =>
    simp only [Bool.false_eq_true, if_false, Bool.false_and]
    split_ifs with hc
    · exact ⟨rfl, rfl, rfl, rfl, by rw [hc, Bool.or_true]⟩
    · refine ⟨rfl, rfl, rfl, rfl, ?_⟩
      rw [eq_false_of_ne_true hc, Bool.or_false]
  | true =>
    rw [hx, Bool.true_and] at hany
    simp only [if_true, Bool.true_and, hany, Bool.false_eq_true, if_false]
    split_ifs with hc
    · exact ⟨rfl, rfl, rfl, rfl, by rw [hc, Bool.or_true]⟩
    · refine ⟨rfl, rfl, rfl, rfl, ?_⟩
      rw [eq_false_of_ne_true hc, Bool.or_false]

lemma evaluate_of_dropped (hr : (run message script .default).2 = r)
    (hx : r.env.exhausted = true) (h : Sends r.outcome ∨ r.outcome.vacation.isSome = true) :
    (evaluate script message).redirects = [] ∧ (evaluate script message).reject = none ∧
      (evaluate script message).vacation = none ∧ (evaluate script message).discarded = false ∧
      (evaluate script message).keep = true := by
  have hany : Dropped.any ⟨r.outcome.redirects.length, r.outcome.reject.isSome,
      r.outcome.vacation.isSome⟩ = true := by
    unfold Dropped.any
    rcases h with (hred | hrej) | hv
    · simp [length_pos_iff.2 hred]
    · simp [hrej]
    · simp [hv]
  unfold evaluate
  rw [hr]
  dsimp only
  simp [hx, hany]

lemma evaluate_filed (script : List Command) (message : Message) :
    (evaluate script message).aborted = (run message script .default).2.env.exhausted ∧
      (evaluate script message).fileinto = (run message script .default).2.outcome.fileinto ∧
      (evaluate script message).fileintoCreates =
        (run message script .default).2.outcome.fileintoCreates := by
  unfold evaluate
  dsimp only
  split_ifs <;> exact ⟨rfl, rfl, rfl⟩

/-- For every script and message: the outcome keeps, discards, files, forwards or rejects the
message; forwards and folders are within their limits and distinct; what is decided when the run
is exhausted is what is decided at the end; and an aborted run sends nothing, and keeps the
message and discards nothing when it had asked for something to be sent. -/
theorem evaluate_never_loses (script : List Command) (message : Message) :
    ((evaluate script message).keep = true ∨ (evaluate script message).discarded = true ∨
        (evaluate script message).fileinto ≠ [] ∨ (evaluate script message).redirects ≠ [] ∨
        (evaluate script message).reject.isSome = true) ∧
      (evaluate script message).redirects.length ≤ 4 ∧
      (evaluate script message).redirects.Pairwise
        (fun a b => eqIgnoreAsciiCase a.toList b.toList = false) ∧
      (evaluate script message).fileinto.length ≤ 8 ∧ (evaluate script message).fileinto.Nodup ∧
      (∀ f ∈ (evaluate script message).fileintoCreates, f ∈ (evaluate script message).fileinto) ∧
      (∀ σ ∈ moments message script .default, Frozen σ (run message script .default).2) ∧
      ((evaluate script message).aborted = true →
        (evaluate script message).redirects = [] ∧ (evaluate script message).reject = none ∧
          (evaluate script message).vacation = none ∧
          (Asks message script → (evaluate script message).keep = true ∧
            (evaluate script message).discarded = false)) := by
  have hd := Decided.run message script
  obtain ⟨haborted, hfileinto, hcreates⟩ := evaluate_filed script message
  set r := (run message script .default).2 with hr
  rw [hfileinto, hcreates, haborted]
  have hasks : Asks message script → Sends r.outcome ∨ r.outcome.vacation.isSome = true := by
    rintro (⟨σ, hσ, hs⟩ | hv)
    · exact .inl (Sends.of_moment hσ hs)
    · exact .inr hv
  have hfrozen : ∀ σ ∈ moments message script .default, Frozen σ r :=
    (Frozen.progress message).moments script .default
  by_cases hdrop : r.env.exhausted = true ∧
      (Sends r.outcome ∨ r.outcome.vacation.isSome = true)
  · -- The run is abandoned with something to send.
    obtain ⟨h1, h2, h3, h4, h5⟩ := evaluate_of_dropped hr.symm hdrop.1 hdrop.2
    refine ⟨.inl h5, ?_, ?_, hd.fileinto_length, hd.fileinto_nodup, hd.creates, hfrozen, ?_⟩
    · rw [h1]
      exact Nat.zero_le _
    · rw [h1]
      exact List.Pairwise.nil
    · intro _
      exact ⟨h1, h2, h3, fun _ => ⟨h5, h4⟩⟩
  · have hnot : r.env.exhausted = false ∨
        (¬ Sends r.outcome ∧ r.outcome.vacation = none) := by
      by_cases hx : r.env.exhausted = true
      · refine .inr ⟨fun hs => hdrop ⟨hx, .inl hs⟩, ?_⟩
        exact Option.not_isSome_iff_eq_none.1 fun hv => hdrop ⟨hx, .inr hv⟩
      · exact .inl (eq_false_of_ne_true hx)
    obtain ⟨h1, h2, h3, h4, h5⟩ := evaluate_of_not_dropped hr.symm hnot
    refine ⟨?_, h1 ▸ hd.redirects_length, h1 ▸ hd.redirects_distinct, hd.fileinto_length,
      hd.fileinto_nodup, hd.creates, hfrozen, ?_⟩
    · -- Either nothing cancelled the implicit keep, or what did is in the outcome.
      rw [h1, h2, h4, h5]
      by_cases hl : r.cancel.local = true
      · rcases hd.cancel_local hl with h | h
        · exact .inr (.inl h)
        · exact .inr (.inr (.inl h))
      · by_cases he : r.cancel.external = true
        · exact .inr (.inr (.inr (hd.cancel_external he)))
        · rw [eq_false_of_ne_true hl, eq_false_of_ne_true he]
          exact .inl (Bool.or_true _)
    · intro hx
      rcases hnot with hx' | ⟨hs, hv⟩
      · exact absurd hx (by rw [hx']; exact Bool.false_ne_true)
      · obtain ⟨hred, hrej⟩ := not_or.1 hs
        refine ⟨h1.trans (not_not.1 hred),
          h2.trans (Option.not_isSome_iff_eq_none.1 hrej), h3.trans hv, ?_⟩
        intro ha
        exact absurd ⟨hx, hasks ha⟩ hdrop

def costlyMessage : Message where
  headersCut := false
  hasHeader _ := false
  probe _ _ := .charge (maxWork + 1) fun more => .answer more

-- The test under `not` is false only because it exhausted the run: the branch does not discard.
example :
    let script := [Command.cond
      [(.mk "not" [] [.mk "header" [] []], [.action "discard" []])] none]
    (evaluate script costlyMessage).aborted = true ∧
      (evaluate script costlyMessage).discarded = false ∧
      (evaluate script costlyMessage).keep = true := by
  decide +kernel

/-- An autoresponse was asked for, and a later `vacation` without a reason takes it back: the run
that is then aborted discards the message. -/
theorem vacation_taken_back_discards :
    let script : List Command := [.action "vacation" [.str "I am away"],
      .action "vacation" [.tag "days", .number 3], .action "discard" [],
      .action "set" [.str (String.ofList (List.replicate 65 'a')), .str "v"]]
    (∃ σ ∈ moments costlyMessage script .default, σ.outcome.vacation.isSome = true) ∧
      (evaluate script costlyMessage).aborted = true ∧
      (evaluate script costlyMessage).keep = false ∧
      (evaluate script costlyMessage).discarded = true := by
  decide +kernel

end Epistle.Sieve
