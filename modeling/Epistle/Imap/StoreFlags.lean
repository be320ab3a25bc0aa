import Epistle.Imap.Mailbox
import Mathlib.Data.List.Nodup
import Mathlib.Data.Set.Function

/-!
# Flags that a STORE leaves

What STORE does to the flags of a message (`imap/session/fetch/store`, `imap/mailbox/flag`). Flags
are added, removed and compared by one key. The key of a system flag is its name, and a keyword may
spell that name.

* `store_denoted_iff`: a STORE does what it asks for unless a keyword spells a system flag.
-/

namespace Epistle.Imap

open Lib.Text List

/-- How flags are stored: in place of the others, beside them, or taken away. -/
inductive StoreMode
  | set
  | add
  | remove

/-- Whether a list has a flag, without regard to case. -/
def flagSetContains : List Flag → Flag → Bool := containsKeywordAware

def dedupFlags (seen : List (List Char)) : List Flag → List Flag
  | [] => []
  | flag :: rest =>
      if seen.contains (flagKey flag) then dedupFlags seen rest
      else flag :: dedupFlags (flagKey flag :: seen) rest

/-- The flags there are and those given, put together as the mode says. -/
def mergedFlags : StoreMode → List Flag → List Flag → List Flag
  | .set, _, flags => flags
  | .add, current, flags => current ++ flags
  | .remove, current, flags => current.filter (!flagSetContains flags ·)

/-- The flags once some were stored. -/
def nextFlags (mode : StoreMode) (current flags : List Flag) : List Flag :=
  dedupFlags [] (mergedFlags mode current flags)

/-! ## What is asked for -/

def Flag.ident : Flag → Flag ⊕ List Char
  | .keyword k => .inr (toLower k.name)
  | flag => .inl flag

def idents (flags : List Flag) : Set (Flag ⊕ List Char) :=
    {ident | ∃ flag ∈ flags, flag.ident = ident}

def denoted : StoreMode → List Flag → List Flag → Set (Flag ⊕ List Char)
  | .set, _, flags => idents flags
  | .add, current, flags => idents current ∪ idents flags
  | .remove, current, flags => idents current \ idents flags

def identKey : Flag ⊕ List Char → List Char := Sum.elim flagKey id

variable {flag : Flag} {flags flags' current : List Flag} {mode : StoreMode}

lemma identKey_ident (flag : Flag) : identKey flag.ident = flagKey flag := by
  cases flag <;> rfl

lemma mem_keys_iff {key : List Char} :
    key ∈ identKey '' idents flags ↔ ∃ flag ∈ flags, flagKey flag = key := by
  constructor
  · rintro ⟨-, ⟨flag, hflag, rfl⟩, hkey⟩
    exact ⟨flag, hflag, (identKey_ident flag).symm.trans hkey⟩
  · rintro ⟨flag, hflag, hkey⟩
    exact ⟨_, ⟨flag, hflag, rfl⟩, (identKey_ident flag).trans hkey⟩

lemma containsKeywordAware_iff :
    containsKeywordAware flags flag ↔ flagKey flag ∈ identKey '' idents flags := by
  rw [mem_keys_iff]
  simp [containsKeywordAware]

lemma keys_subset_iff {keys : Set (List Char)} :
    identKey '' idents flags ⊆ keys ↔ ∀ flag ∈ flags, flagKey flag ∈ keys := by
  simp only [Set.subset_def, mem_keys_iff, forall_exists_index, and_imp, forall_apply_eq_imp_iff₂]

lemma flagsEqual_iff :
    flagsEqual flags flags' ↔ identKey '' idents flags = identKey '' idents flags' := by
  rw [Set.Subset.antisymm_iff, keys_subset_iff, keys_subset_iff]
  simp only [flagsEqual, Bool.and_eq_true, all_eq_true, containsKeywordAware_iff]

/-! ## Each key once -/

lemma dedupFlags_sublist (seen : List (List Char)) (flags : List Flag) :
    (dedupFlags seen flags).Sublist flags := by
  induction flags generalizing seen with
  | nil => exact .slnil
  | cons flag rest ih =>
    rw [dedupFlags]
    split_ifs
    · exact (ih seen).cons flag
    · exact (ih _).cons_cons flag

lemma keys_dedupFlags (seen : List (List Char)) (flags : List Flag) :
    ((dedupFlags seen flags).map flagKey).Nodup ∧
      ∀ key, key ∈ (dedupFlags seen flags).map flagKey ↔ key ∈ flags.map flagKey ∧ key ∉ seen := by
  induction flags generalizing seen with
  | nil => simp [dedupFlags]
  | cons flag rest ih =>
    rw [dedupFlags]
    split_ifs with hseen
    · refine ⟨(ih seen).1, fun key => ?_⟩
      rw [(ih seen).2, map_cons, mem_cons]
      grind
    · obtain ⟨hnodup, hkeys⟩ := ih (flagKey flag :: seen)
      refine ⟨?_, fun key => ?_⟩
      · rw [map_cons, nodup_cons, hkeys]
        exact ⟨by simp, hnodup⟩
      · rw [map_cons, mem_cons, hkeys, map_cons, mem_cons]
        grind

lemma idents_dedupFlags (flags : List Flag) :
    idents (dedupFlags [] flags) ⊆ idents flags ∧
      identKey '' idents (dedupFlags [] flags) = identKey '' idents flags ∧
      Set.InjOn identKey (idents (dedupFlags [] flags)) := by
  obtain ⟨hnodup, hkeys⟩ := keys_dedupFlags [] flags
  refine ⟨?_, ?_, ?_⟩
  · rintro - ⟨flag, hflag, rfl⟩
    exact ⟨flag, (dedupFlags_sublist [] flags).subset hflag, rfl⟩
  · ext key
    rw [mem_keys_iff, mem_keys_iff, ← mem_map, ← mem_map, hkeys]
    simp
  · rintro - ⟨flag, hflag, rfl⟩ - ⟨flag', hflag', rfl⟩ hkey
    rw [identKey_ident, identKey_ident] at hkey
    rw [inj_on_of_nodup_map hnodup hflag hflag' hkey]

/-! ## A STORE -/

lemma idents_mergedFlags (mode : StoreMode) (current flags : List Flag) :
    idents (mergedFlags mode current flags) ⊆ denoted mode current flags ∧
      (denoted mode current flags ⊆ idents (mergedFlags mode current flags) ↔
        (mode = .remove → ∀ ident ∈ denoted mode current flags,
          identKey ident ∉ identKey '' idents flags)) := by
  cases mode with
  | set => exact ⟨subset_rfl, iff_of_true subset_rfl (by simp)⟩
  | add =>
    have heq : idents (current ++ flags) = idents current ∪ idents flags := by
      ext ident
      simp [idents, or_and_right, exists_or]
    exact ⟨heq.subset, iff_of_true heq.superset (by simp)⟩
  | remove =>
    have hmem : ∀ flag, flag ∈ mergedFlags .remove current flags ↔
        flag ∈ current ∧ flagKey flag ∉ identKey '' idents flags := fun flag => by
      rw [mergedFlags, mem_filter, flagSetContains, ← containsKeywordAware_iff,
        Bool.not_eq_true', Bool.not_eq_true]
    refine ⟨?_, fun h _ => ?_, fun h => ?_⟩
    · rintro - ⟨flag, hflag, rfl⟩
      obtain ⟨hcurrent, hkey⟩ := (hmem flag).1 hflag
      exact ⟨⟨flag, hcurrent, rfl⟩, fun hident => hkey ⟨_, hident, identKey_ident flag⟩⟩
    · intro ident hident
      obtain ⟨flag, hflag, rfl⟩ := h hident
      rw [identKey_ident]
      exact ((hmem flag).1 hflag).2
    · rintro ident ⟨⟨flag, hcurrent, rfl⟩, hident⟩
      refine ⟨flag, (hmem flag).2 ⟨hcurrent, ?_⟩, rfl⟩
      rw [← identKey_ident]
      exact h rfl _ ⟨⟨flag, hcurrent, rfl⟩, hident⟩

lemma idents_nextFlags_iff :
    idents (nextFlags mode current flags) = denoted mode current flags ↔
      Set.InjOn identKey (denoted mode current flags) ∧ (mode = .remove →
        ∀ ident ∈ denoted mode current flags, identKey ident ∉ identKey '' idents flags) := by
  obtain ⟨hmerged, hclear⟩ := idents_mergedFlags mode current flags
  obtain ⟨hsub, hkeys, hinj⟩ := idents_dedupFlags (mergedFlags mode current flags)
  rw [nextFlags, ← hclear]
  constructor
  · intro h
    exact ⟨h ▸ hinj, h ▸ hsub⟩
  · rintro ⟨hinj, hdenoted⟩
    have heq := hmerged.antisymm hdenoted
    rw [heq] at hsub hkeys
    exact (hinj.image_eq_image_iff hsub subset_rfl).1 hkeys

lemma dedupFlags_dedupFlags {seen seen' : List (List Char)} (h : seen' ⊆ seen)
    (flags : List Flag) : dedupFlags seen (dedupFlags seen' flags) = dedupFlags seen flags := by
  induction flags generalizing seen seen' with
  | nil => rfl
  | cons flag rest ih =>
    rw [dedupFlags, dedupFlags.eq_2 seen]
    split_ifs with hseen' hseen hseen
    · exact ih h
    · exact absurd (h (contains_iff_mem.1 hseen')) (by simpa using hseen)
    · rw [dedupFlags, if_pos hseen]
      exact ih (cons_subset.2 ⟨contains_iff_mem.1 hseen, h⟩)
    · rw [dedupFlags, if_neg hseen, ih (cons_subset_cons _ h)]

lemma dedupFlags_append (seen : List (List Char)) (front flags : List Flag) :
    dedupFlags seen (front ++ dedupFlags [] flags) = dedupFlags seen (front ++ flags) := by
  induction front generalizing seen with
  | nil => exact dedupFlags_dedupFlags (nil_subset _) flags
  | cons flag front ih => simp only [cons_append, dedupFlags, ih]

lemma nextFlags_dedupFlags (mode : StoreMode) (current flags : List Flag) :
    nextFlags mode current (dedupFlags [] flags) = nextFlags mode current flags := by
  cases mode with
  | set => exact dedupFlags_append [] [] flags
  | add => exact dedupFlags_append [] current flags
  | remove =>
    refine congrArg (dedupFlags []) (filter_congr fun flag _ => congrArg _ ?_)
    rw [flagSetContains, Bool.eq_iff_iff, containsKeywordAware_iff, containsKeywordAware_iff,
      (idents_dedupFlags flags).2.1]

section Store

variable {ι : Type} [LinearOrder ι] (snapshot : Snapshot ι) (index : Fin snapshot.messages.length)
  (dir : Directory ι)

lemma storeFlags_flags (next : List Flag) :
    ∃ after stored, snapshot.storeFlags dir (index + 1) next = some after ∧
      after.1.messages[index.1]? = some stored ∧
      stored.flags = if flagsEqual (snapshot.messages.get index).flags next then
        (snapshot.messages.get index).flags else next := by
  have hmessage : snapshot.messages[index.1]? = some (snapshot.messages.get index) :=
    List.getElem?_eq_getElem index.2
  unfold Snapshot.storeFlags
  simp only [Nat.add_one_ne_zero, if_false, Nat.add_sub_cancel, hmessage]
  split_ifs
  · exact ⟨_, _, rfl, hmessage, rfl⟩
  · exact ⟨_, _, rfl, List.getElem?_set_self index.2, rfl⟩

/-- A STORE, whose flags are deduplicated first, leaves the flags that it asks for, and skips the
write only of an equal set, exactly if no two flags that it asks for share a key, nor one of them
with a flag that is removed, and the flags of the message are others only if their keys are. -/
theorem store_denoted_iff (mode : StoreMode) (flags : List Flag) :
    let current := (snapshot.messages.get index).flags
    let next := nextFlags mode current (dedupFlags [] flags)
    ((∃ after stored, snapshot.storeFlags dir (index + 1) next = some after ∧
          after.1.messages[index.1]? = some stored ∧
          idents stored.flags = denoted mode current flags) ∧
        (flagsEqual current next → idents current = idents next)) ↔
      Set.InjOn identKey (denoted mode current flags) ∧
        (mode = .remove → ∀ ident ∈ denoted mode current flags,
          identKey ident ∉ identKey '' idents flags) ∧
        (identKey '' idents current = identKey '' denoted mode current flags →
          idents current = denoted mode current flags) := by
  intro current next
  obtain ⟨after, stored, hstore, hstored, hflags⟩ := storeFlags_flags snapshot index dir next
  rw [← and_assoc, ← idents_nextFlags_iff, ← nextFlags_dedupFlags, flagsEqual_iff]
  constructor
  · rintro ⟨⟨after', stored', hstore', hstored', hsame⟩, hskip⟩
    obtain rfl := Option.some.inj (hstore.symm.trans hstore')
    obtain rfl := Option.some.inj (hstored.symm.trans hstored')
    have hnext : idents next = denoted mode current flags := by
      rw [hflags] at hsame
      split_ifs at hsame with hequal
      · exact (hskip (flagsEqual_iff.1 hequal)).symm.trans hsame
      · exact hsame
    rw [hnext] at hskip
    exact ⟨hnext, hskip⟩
  · rintro ⟨hnext, hskip⟩
    rw [hnext]
    refine ⟨⟨after, stored, hstore, hstored, ?_⟩, hskip⟩
    rw [hflags]
    split_ifs with hequal
    · exact hskip (hnext ▸ flagsEqual_iff.1 hequal)
    · exact hnext

end Store

def deletedKeyword : Flag := .keyword ⟨"deleted".toList, by decide⟩

/-- The keyword stands for the flag: where it is set `\\Deleted` is never added, and to remove the
one removes the other. -/
theorem deletedKeyword_stands_for_deleted :
    nextFlags .add [deletedKeyword] [.deleted] = [deletedKeyword] ∧
      nextFlags .remove [.deleted] [deletedKeyword] = [] ∧
      idents (nextFlags .add [deletedKeyword] [.deleted]) ≠
        denoted .add [deletedKeyword] [.deleted] := by
  refine ⟨by decide, by decide, fun h => ?_⟩
  have hsame := (idents_nextFlags_iff.1 h).1 (.inl ⟨deletedKeyword, mem_singleton_self _, rfl⟩)
    (.inr ⟨.deleted, mem_singleton_self _, rfl⟩) (by decide)
  exact absurd hsame (by decide)

end Epistle.Imap
