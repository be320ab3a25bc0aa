import Epistle.Imap.StoreFlags

/-!
# Bringing a client up to date

The responses that tell a client what became of the mailbox it has selected (`imap/session/sync`),
and a client that applies them one by one. An EXPUNGE renumbers what comes after it at once:
`changes` announces removals from the last to the first, `Snapshot.takeWhere` from the first to the
last with numbers that count the removals before.

* `changes_shown_iff`: the client ends with the mailbox as it is, unless flags changed and their
  keys did not.
-/

namespace Epistle.Imap

open Lib.Text List

/-- An untagged response. -/
inductive Response
  | expunge (sequence : ℕ)
  | vanished (uids : List UInt32)
  | flags (keywords : List (List Char))
  | fetch (sequence : ℕ) (flags : List Flag)
  | uidFetch (uid : UInt32) (flags : List Flag)
  | existing (count : ℕ)
  deriving DecidableEq

section Server

variable {ι : Type} (known fresh : Snapshot ι) (replaced : Bool)

def keywordsIn (flags : List Flag) : List (List Char) :=
  flags.filterMap fun flag =>
    match flag with
    | .keyword keyword => some keyword.name
    | _ => none

/-- The keywords of a mailbox, each once. -/
def collectMailboxKeywords (snapshot : Snapshot ι) : List (List Char) :=
  (snapshot.messages.flatMap fun message => keywordsIn message.flags).foldl
    (fun out name => if out.any (eqIgnoreAsciiCase · name) then out else out ++ [name]) []

def current (message : MessageRef ι) : Option (MessageRef ι) :=
  if replaced then none else fresh.messages.reverse.find? (·.uid = message.uid)

/-- The messages that are gone. -/
def removed (start : ℕ) (messages : List (MessageRef ι)) : List (ℕ × UInt32) :=
  (messages.zipIdx start).filterMap fun entry =>
    if (current fresh replaced entry.1).isSome then none else some (entry.2, entry.1.uid)

/-- The messages that are still there, each with what is known of it now. -/
def survivors : List (MessageRef ι × MessageRef ι) :=
  known.messages.filterMap fun message => (current fresh replaced message).map (message, ·)

/-- What changed of the messages that are still there. -/
def fetches (uidonly : Bool) (start : ℕ) (pairs : List (MessageRef ι × MessageRef ι)) :
    List Response :=
  (pairs.zipIdx start).filterMap fun entry =>
    if flagsEqual entry.1.1.flags entry.1.2.flags then none
    else if uidonly then some (.uidFetch entry.1.2.uid entry.1.2.flags)
    else some (.fetch entry.2 entry.1.2.flags)

/-- The responses that tell what became of a mailbox. -/
def changes (uidonly : Bool) : List Response :=
  let removed := removed fresh replaced 1 known.messages
  let survivors := survivors known fresh replaced
  let keywords := collectMailboxKeywords fresh
  (if uidonly ∧ removed ≠ [] then [.vanished (removed.map (·.2))]
    else removed.reverse.map (.expunge ·.1)) ++
  (if keywords.any fun name => !(collectMailboxKeywords known).any (eqIgnoreAsciiCase · name)
    then [.flags keywords] else []) ++
  fetches uidonly 1 survivors ++
  if survivors.length < fresh.messages.length then [.existing fresh.messages.length] else []

end Server

/-! ## The client -/

/-- What a client knows of the messages of a mailbox, in the order of their numbers: nothing of
those that EXISTS announced. -/
abbrev View := List (Option (UInt32 × List Flag))

/-- What a client makes of a response. -/
def View.receive (view : View) : Response → Option View
  | .expunge sequence =>
      if 0 < sequence ∧ sequence ≤ view.length then some (view.eraseIdx (sequence - 1)) else none
  | .vanished uids => some (view.filter (·.all (·.1 ∉ uids)))
  | .flags _ => some view
  | .fetch sequence flags =>
      if 0 < sequence ∧ sequence ≤ view.length then
        some (view.modify (sequence - 1) (·.map fun entry => (entry.1, flags)))
      else none
  | .uidFetch uid flags =>
      some (view.map (·.map fun entry => if entry.1 = uid then (uid, flags) else entry))
  | .existing count =>
      if view.length ≤ count then some (view ++ List.replicate (count - view.length) none) else none

open View

def View.receiveAll (view : View) (responses : List Response) : Option View :=
  responses.foldlM receive view

variable {ι : Type}

def View.of (messages : List (MessageRef ι)) : View :=
  messages.map fun message => some (message.uid, message.flags)

def View.Shows (view : View) (messages : List (MessageRef ι)) (count : ℕ) : Prop :=
  view.length = messages.length ∧
    List.Forall₂ (fun entry message => ∃ flags, entry = some (message.uid, flags) ∧
      idents flags = idents message.flags) (view.take count) (messages.take count)

def ExpungesAnnounced [LinearOrder ι] (snapshot : Snapshot ι) : Prop :=
  ∀ (dir : Directory ι) (keep : UInt32 → Bool),
    let expunged := snapshot.expungeWhere dir keep
    expunged.2.1.messages =
        snapshot.messages.filter (fun message => ¬(.deleted ∈ message.flags ∧ keep message.uid)) ∧
      (of snapshot.messages).receiveAll (expunged.1.map .expunge) =
        some (of expunged.2.1.messages)

/-! ## One response after the other -/

lemma receive_expunge (before after : View) (entry : Option (UInt32 × List Flag)) :
    receive (before ++ entry :: after) (.expunge (before.length + 1)) = some (before ++ after) := by
  simp [receive, eraseIdx_append_of_length_le]

lemma receive_fetch (before after : View) (uid : UInt32) (was flags : List Flag) :
    receive (before ++ some (uid, was) :: after) (.fetch (before.length + 1) flags) =
      some (before ++ some (uid, flags) :: after) := by
  simp [receive, modify_eq_take_cons_drop]

lemma receive_taken [LinearOrder ι] (doomed : MessageRef ι → Bool) (messages : List (MessageRef ι))
    (s : Snapshot.Taking ι) :
    ∃ taken, (messages.foldl (Snapshot.Taking.next doomed) s).taken = s.taken ++ taken ∧
      (messages.foldl (Snapshot.Taking.next doomed) s).kept =
        s.kept ++ messages.filter (!doomed ·) ∧
      (of (s.kept ++ messages)).receiveAll (taken.map (.expunge ·.1)) =
        some (of (s.kept ++ messages.filter (!doomed ·))) := by
  induction messages generalizing s with
  | nil => exact ⟨[], by simp [receiveAll]⟩
  | cons message rest ih =>
    obtain ⟨taken, htaken, hkept, hview⟩ := ih (Snapshot.Taking.next doomed s message)
    rw [foldl_cons, htaken, hkept]
    cases hit : doomed message with
    | false =>
      refine ⟨taken, ?_⟩
      simp_all [Snapshot.Taking.next]
    | true =>
      have hfirst := receive_expunge (of s.kept) (of rest) (some (message.uid, message.flags))
      refine ⟨(s.kept.length + 1, message.uid) :: taken, ?_⟩
      simp_all [Snapshot.Taking.next, of, receiveAll]

lemma expungesAnnounced [LinearOrder ι] (snapshot : Snapshot ι) : ExpungesAnnounced snapshot := by
  intro dir keep
  obtain ⟨taken, htaken, hkept, hview⟩ := receive_taken
    (fun message => Flag.deleted ∈ message.flags ∧ keep message.uid) snapshot.messages ⟨dir, [], []⟩
  simp_all [Snapshot.expungeWhere, Snapshot.takeWhere, Function.comp_def]

variable (known fresh : Snapshot ι) (replaced : Bool)

lemma receive_removed (before : View) (messages : List (MessageRef ι)) :
    (before ++ of messages).receiveAll
        ((removed fresh replaced (before.length + 1) messages).reverse.map (.expunge ·.1)) =
      some (before ++ of (messages.filter fun message =>
        (current fresh replaced message).isSome)) := by
  induction messages generalizing before with
  | nil => simp [removed, receiveAll]
  | cons message rest ih =>
    have hrest := ih (before ++ [some (message.uid, message.flags)])
    have hfirst := receive_expunge before
    cases hit : (current fresh replaced message).isSome <;>
      simp_all [removed, of, receiveAll]

def told (pair : MessageRef ι × MessageRef ι) : Option (UInt32 × List Flag) :=
  some (pair.1.uid, if flagsEqual pair.1.flags pair.2.flags then pair.1.flags else pair.2.flags)

lemma receive_fetches (before : View) (pairs : List (MessageRef ι × MessageRef ι)) :
    (before ++ of (pairs.map (·.1))).receiveAll (fetches false (before.length + 1) pairs) =
      some (before ++ pairs.map told) := by
  induction pairs generalizing before with
  | nil => simp [fetches, of, receiveAll]
  | cons pair rest ih =>
    have hfirst := receive_fetch before (of (rest.map (·.1))) pair.1.uid pair.1.flags pair.2.flags
    have hrest := fun entry => ih (before ++ [entry])
    cases hequal : flagsEqual pair.1.flags pair.2.flags <;>
      simp_all [fetches, told, of, receiveAll]

lemma map_fst_survivors : (survivors known fresh replaced).map (·.1) =
    known.messages.filter fun message => (current fresh replaced message).isSome := by
  rw [survivors, map_filterMap, ← filterMap_eq_filter]
  congr 1
  funext message
  cases hcurrent : current fresh replaced message <;> simp [Option.guard, hcurrent]

lemma receive_changes (hfresh : (survivors known fresh replaced).length ≤ fresh.messages.length) :
    (of known.messages).receiveAll (changes known fresh replaced false) =
      some ((survivors known fresh replaced).map told ++
        List.replicate (fresh.messages.length - (survivors known fresh replaced).length) none) := by
  have hremoved := receive_removed fresh replaced [] known.messages
  have hfetches := receive_fetches [] (survivors known fresh replaced)
  rw [map_fst_survivors] at hfetches
  simp only [receiveAll, nil_append, length_nil, Nat.zero_add] at hremoved hfetches
  -- the FLAGS line changes nothing
  have hflags : ∀ (view : View) (line : List Response),
      line = [] ∨ (∃ keywords, line = [.flags keywords]) →
        line.foldlM receive view = some view := by
    rintro view _ (rfl | ⟨keywords, rfl⟩) <;> rfl
  simp only [receiveAll, changes, Bool.false_eq_true, false_and, if_false, foldlM_append,
    hremoved, Option.bind_eq_bind, Option.bind_some]
  rw [hflags _ _ (by split_ifs <;> simp), Option.bind_some, hfetches, Option.bind_some]
  split_ifs with hmore
  · simp [receive, hfresh]
  · simp [Nat.sub_eq_zero_of_le (Nat.not_lt.1 hmore)]

lemma uid_survivors {pair : MessageRef ι × MessageRef ι}
    (h : pair ∈ survivors known fresh replaced) :
    pair.1.uid = pair.2.uid := by
  simp only [survivors, mem_filterMap, Option.map_eq_some_iff, current] at h
  obtain ⟨message, -, now, hnow, rfl⟩ := h
  split_ifs at hnow
  simpa [eq_comm] using List.find?_some hnow

/-- If what is still there comes first and in its order, the client ends with the count of the
mailbox and with the UIDs and flags of what is still there, exactly if no flags changed where their
keys did not. Expunges end with what is left. -/
theorem changes_shown_iff [LinearOrder ι] (h : (survivors known fresh replaced).map (·.2)
    <+: fresh.messages) :
    (∃ view, (of known.messages).receiveAll (changes known fresh replaced false) = some view ∧
          view.Shows fresh.messages (survivors known fresh replaced).length) ∧
        ExpungesAnnounced known ↔
      ∀ pair ∈ survivors known fresh replaced,
        flagsEqual pair.1.flags pair.2.flags → idents pair.1.flags = idents pair.2.flags := by
  obtain ⟨arrived, hfresh⟩ := h
  have hlength : fresh.messages.length = (survivors known fresh replaced).length +
    arrived.length := by
    simp [← hfresh]
  have htake : fresh.messages.take (survivors known fresh replaced).length =
      (survivors known fresh replaced).map (·.2) := by
    simp [← hfresh]
  rw [and_iff_left (expungesAnnounced known), receive_changes known fresh replaced (by omega)]
  simp only [Option.some.injEq, exists_eq_left', View.Shows, htake]
  rw [take_left' (by simp), forall₂_map_left_iff, forall₂_map_right_iff,
    forall₂_same, and_iff_right (by simp [hlength])]
  refine forall₂_congr fun pair hpair => ?_
  rw [← uid_survivors known fresh replaced hpair]
  by_cases hequal : flagsEqual pair.1.flags pair.2.flags <;> simp [told, hequal]

def flaggedMessage (uid : UInt32) (flags : List Flag) : MessageRef ℕ :=
  ⟨uid, uid.toNat, 0, flags, .unixEpoch, 0, 1⟩

/-- The first of two messages goes, the flags of the second change and a third arrives. -/
theorem changes_shown_twoMessages :
    let known : Snapshot ℕ := ⟨[flaggedMessage 1 [], flaggedMessage 2 [.seen]], 3, 1⟩
    let fresh : Snapshot ℕ := ⟨[flaggedMessage 2 [.flagged], flaggedMessage 3 []], 4, 1⟩
    (∃ view, (of known.messages).receiveAll (changes known fresh false false) = some view ∧
        view.Shows fresh.messages 1) ∧ ExpungesAnnounced known := by
  intro known fresh
  refine (changes_shown_iff known fresh false ⟨[flaggedMessage 3 []], by decide⟩).2 ?_
  have hsurvivors : survivors known fresh false =
    [(flaggedMessage 2 [.seen], flaggedMessage 2 [.flagged])] := by decide
  rw [hsurvivors]
  rintro pair hpair hequal
  obtain rfl := mem_singleton.1 hpair
  exact absurd hequal (by decide)

/-- A client is not told that `\\Deleted` stands where a keyword of its name was. -/
theorem deleted_unreported :
    let known : Snapshot ℕ := ⟨[flaggedMessage 1 [deletedKeyword]], 2, 1⟩
    let fresh : Snapshot ℕ := ⟨[flaggedMessage 1 [.deleted]], 2, 1⟩
    (survivors known fresh false).map (·.2) <+: fresh.messages ∧
      changes known fresh false false = [] ∧
      ¬(of known.messages).Shows fresh.messages 1 := by
  refine ⟨⟨[], by decide⟩, by decide, ?_⟩
  rintro ⟨-, hshown⟩
  obtain ⟨⟨flags, hentry, hflags⟩, -⟩ := forall₂_cons.1 hshown
  obtain ⟨flag, hflag, hident⟩ : Sum.inl .deleted ∈ idents flags :=
    hflags ▸ ⟨.deleted, mem_singleton_self _, rfl⟩
  obtain rfl : [deletedKeyword] = flags := congrArg Prod.snd (Option.some.inj hentry)
  obtain rfl := mem_singleton.1 hflag
  cases hident

end Epistle.Imap
