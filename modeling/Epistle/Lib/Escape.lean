import Mathlib.Algebra.Order.Ring.Int
import Mathlib.Data.List.Infix

/-!
# Writing one symbol as a pattern

A symbol that may not stand in a text is written as a pattern, and every place where the pattern
stands is read as the symbol. This goes back and forth without loss if the pattern does not stand in
the text already, and starts with a symbol that it has nowhere else: then it cannot begin in one
part of the text and end in another.
-/

namespace Epistle.Lib.Escape

open List

variable {α : Type*} [DecidableEq α]

def escape (a : α) (pattern s : List α) : List α :=
    s.flatMap fun c => if c = a then pattern else [c]

/-- Every `pattern` from left to right as `a`, when some symbols of one are still to be passed
over. -/
def unescapeFrom (pattern : List α) (a : α) : ℕ → List α → List α
  | _, [] => []
  | n + 1, _ :: s => unescapeFrom pattern a n s
  | 0, c :: s =>
      if pattern <+: c :: s then a :: unescapeFrom pattern a (pattern.length - 1) s
      else c :: unescapeFrom pattern a 0 s

def unescape (pattern : List α) (a : α) (s : List α) : List α := unescapeFrom pattern a 0 s

variable {a mark : α} {tail s : List α}

lemma escape_cons_self (a : α) (pattern s : List α) :
    escape a pattern (a :: s) = pattern ++ escape a pattern s := by
  simp [escape]

lemma escape_cons_of_ne {c : α} (h : c ≠ a) (pattern s : List α) :
    escape a pattern (c :: s) = c :: escape a pattern s := by
  simp [escape, h]

lemma unescapeFrom_skip (pattern : List α) (a : α) (skipped s : List α) :
    unescapeFrom pattern a skipped.length (skipped ++ s) = unescapeFrom pattern a 0 s := by
  induction skipped with
  | nil => rfl
  | cons c skipped ih => exact ih

lemma prefix_of_prefix_escape {p : List α} (hmark : mark ∉ p)
    (h : p <+: escape a (mark :: tail) s) : p <+: s := by
  induction p generalizing s with
  | nil => exact nil_prefix
  | cons c p ih =>
    rw [mem_cons, not_or] at hmark
    cases s with
    | nil => simp [escape] at h
    | cons d s =>
      obtain rfl | hd := eq_or_ne d a
      · -- The escaped symbol begins with the mark.
        rw [escape_cons_self, cons_append, cons_prefix_cons] at h
        exact absurd h.1.symm hmark.1
      · rw [escape_cons_of_ne hd, cons_prefix_cons] at h
        exact cons_prefix_cons.2 ⟨h.1, ih hmark.2 h.2⟩

lemma unescape_escape (hmark : mark ∉ tail) (h : ¬ mark :: tail <:+: s) :
    unescape (mark :: tail) a (escape a (mark :: tail) s) = s := by
  unfold unescape
  induction s with
  | nil => rfl
  | cons c s ih =>
    have hrest := ih fun hinfix => h (infix_cons hinfix)
    obtain rfl | hc := eq_or_ne c a
    · rw [escape_cons_self, cons_append, unescapeFrom,
        if_pos (cons_prefix_cons.2 ⟨rfl, prefix_append ..⟩), length_cons,
        Nat.add_sub_cancel, unescapeFrom_skip, hrest]
    · have hnot : ¬ mark :: tail <+: c :: escape a (mark :: tail) s := by
        intro hpre
        rw [cons_prefix_cons] at hpre
        obtain ⟨rfl, hpre⟩ := hpre
        exact h (cons_prefix_cons.2 ⟨rfl, prefix_of_prefix_escape hmark hpre⟩).isInfix
      rw [escape_cons_of_ne hc, unescapeFrom, if_neg hnot, hrest]

omit [DecidableEq α] in
lemma infix_of_infix_append_cons {p l r : List α} (hp : a ∉ p) (h : p <:+: l ++ a :: r) :
    p <:+: l ∨ p <:+: r := by
  have hpre : ∀ {q : List α}, a ∉ q → q <+: a :: r → q = [] := by
    intro q hq hqr
    cases q with
    | nil => rfl
    | cons c q =>
      rw [cons_prefix_cons] at hqr
      exact absurd (hqr.1 ▸ mem_cons_self ..) hq
  obtain hl | hr | ⟨p₁, p₂, rfl, hl, hr⟩ := infix_append_iff.1 h
  · exact .inl hl
  · obtain hr | hr := infix_cons_iff.1 hr
    · exact .inl (hpre hp hr ▸ nil_infix)
    · exact .inr hr
  · rw [mem_append, not_or] at hp
    rw [hpre hp.2 hr, append_nil]
    exact .inl hl.isInfix

lemma not_mem_escape {pattern : List α} (h : a ∉ pattern) : a ∉ escape a pattern s := by
  intro hmem
  obtain ⟨c, -, hc⟩ := mem_flatMap.1 hmem
  split_ifs at hc with hca
  · exact h hc
  · exact hca (mem_singleton.1 hc).symm

end Epistle.Lib.Escape
