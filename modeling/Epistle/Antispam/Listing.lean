import Epistle.Antispam.ZipFormat
import Mathlib.Data.Finset.Insert

/-!
# Listing a zip archive

An archive is listed from its central directories and from its local headers in file order. The
listing has the names of every source, and three warnings: ambiguous, when extractors could
unpack different files from it; unreadable, when something could not be followed; and too many,
when a limit on names or records was reached.

What a clean listing says is collected here from the loops that build it: every warning stays
once it is given, so a listing without warnings had none at any step.
-/

namespace Epistle.Antispam

open List

/-- The most entries of an archive that are listed. -/
def maxEntries : ℕ := 1000

/-- The most records of an archive that are looked at. -/
def maxRecords : ℕ := 10000

/-- The compression methods that are not taken for an odd one. -/
def knownMethods : List ℕ := [0, 8, 9, 12, 14, 93, 95, 98, 99]

/-- What the directory of a zip says. -/
structure Listing where
  /-- Entry names from every source. -/
  names : List (List Char)
  encrypted : Bool
  tooMany : Bool
  /-- Something could not be read. -/
  unreadable : Bool
  /-- The archive is not one simple, consistent zip. -/
  ambiguous : Bool
deriving DecidableEq

/-- No warning is given. -/
def Listing.Clean (l : Listing) : Prop :=
  l.ambiguous = false ∧ l.unreadable = false ∧ l.tooMany = false

instance (l : Listing) : Decidable l.Clean := inferInstanceAs (Decidable (_ ∧ _ ∧ _))

/-- The listing being built, with the bookkeeping that bounds it. -/
structure Builder where
  listing : Listing
  /-- The names listed so far. -/
  seen : Finset (List Char)
  records : ℕ
  encryptedFiles : ℕ
  plainFiles : ℕ
  /-- What the central directories say about the entry whose local header is at each offset. -/
  described : ℕ → Option Described

namespace Builder

/-- Nothing read yet. -/
def empty : Builder := ⟨⟨[], false, false, false, false⟩, ∅, 0, 0, 0, fun _ => none⟩

/-- Put a name on the list, once; past the limit there are too many. -/
def add (b : Builder) (name : List Char) : Builder :=
  if name ∈ b.seen then b
  else if b.listing.names.length = maxEntries then
    { b with listing := { b.listing with tooMany := true } }
  else
    { b with
      seen := insert name b.seen
      listing := { b.listing with names := b.listing.names ++ [name] } }

/-- Count a record; past the limit there are too many. -/
def record (b : Builder) : Builder :=
  { b with
    records := b.records + 1
    listing := { b.listing with tooMany := b.listing.tooMany || maxRecords < b.records + 1 } }

/-- Count a file as encrypted or as plain. -/
def tally (b : Builder) (name : List Char) (encrypted : Bool) : Builder :=
  if name.getLast? = some '/' then b
  else if encrypted then { b with encryptedFiles := b.encryptedFiles + 1 }
  else { b with plainFiles := b.plainFiles + 1 }

/-- Mark the archive as one that readers may disagree about. -/
def ambiguousIf (b : Builder) (c : Bool) : Builder :=
  { b with listing := { b.listing with ambiguous := b.listing.ambiguous || c } }

/-- Mark the archive as one that cannot be read in full. -/
def unreadableIf (b : Builder) (c : Bool) : Builder :=
  { b with listing := { b.listing with unreadable := b.listing.unreadable || c } }

/-- Mark the archive as one with an encrypted entry. -/
def encryptedIf (b : Builder) (c : Bool) : Builder :=
  { b with listing := { b.listing with encrypted := b.listing.encrypted || c } }

/-- Remember the sizes that are told first of the entry at an offset. -/
def describe (b : Builder) (offset : ℕ) (sizes : Described) : Builder :=
  { b with described := Function.update b.described offset (b.described offset <|> some sizes) }

end Builder

open Builder

/-- Read one entry of a directory. -/
def readEntry (zip : List UInt8) (shift : ℕ) (entry : Entry) (b : Builder) : Builder :=
  let b := b.tally (entry.names.headD []) entry.encrypted
  let b := b.encryptedIf entry.encrypted
  let b := b.unreadableIf (!knownMethods.contains entry.method)
  let b := b.ambiguousIf entry.ambiguous
  let localAt := entry.localOffset.map (· + shift)
  let b :=
    match localAt, entry.sizes with
    | some offset, some sizes => b.describe offset sizes
    | _, _ => b
  let b :=
    match localAt.bind (localEntry zip) with
    | some l =>
      let b := b.ambiguousIf
        (l.names != entry.names || l.ambiguous || l.encrypted != entry.encrypted)
      let b := b.unreadableIf (l.method != entry.method)
      l.names.foldl add b
    -- No local header where the directory says.
    | none => (b.unreadableIf true).ambiguousIf true
  entry.names.foldl add b

/-- Read the entries of a directory one after the other. -/
def readDirectory (zip : List UInt8) (shift : ℕ) : ℕ → ℕ → Builder → Builder
  | 0, _, b => b
  | n + 1, pos, b =>
    let b := b.record
    if b.listing.tooMany then b
    else
      match centralEntry zip pos with
      | none => b.unreadableIf true
      | some entry => readDirectory zip shift n entry.next (readEntry zip shift entry b)

def seeName (encrypted : Bool) (b : Builder) (name : List Char) : Builder :=
  if name ∈ b.seen then b
  else (((b.ambiguousIf true).tally name encrypted).encryptedIf encrypted).add name

/-- Where the record after a local entry starts: after its data, or after the data descriptor
that leaves the size to the central directory. -/
def nextOf (zip : List UInt8) (described : ℕ → Option Described) (pos : ℕ) (l : Entry) : Option ℕ :=
  match l.data with
  | some (start, size) => some (start + size)
  | none => descriptorEnd zip pos l described

/-- Go over the local entries, one behind the other. -/
def walk (zip : List UInt8) : ℕ → ℕ → Builder → Builder
  | 0, _, b => b
  | fuel + 1, pos, b =>
    match localEntry zip pos with
    | none => b
    | some l =>
      let b := b.record
      if b.listing.tooMany then b
      else
        let b := l.names.foldl (seeName l.encrypted) (b.ambiguousIf l.ambiguous)
        match nextOf zip b.described pos l with
        | none => b.ambiguousIf true
        | some next => if pos < next then walk zip fuel next b else b

def firstLocal (zip : List UInt8) : Option ℕ :=
  (List.range (min maxComment (zip.length - 3))).find? (startsWithAt localSig zip)

/-- The listing of an archive, from its directories and its local entries. -/
def listZip (zip : List UInt8) : Listing :=
  let records := endRecords zip
  let b := empty.ambiguousIf (1 < records.length)
  let directories := (records.take maxEndRecords).filterMap (directoryFrom zip)
  let b := b.unreadableIf directories.isEmpty
  let b := directories.foldl
    (fun b d => readDirectory zip d.shift d.entries d.start (b.ambiguousIf (d.shift ≠ 0))) b
  let first := firstLocal zip
  -- Anything in front of the first header is data a zip does not carry.
  let b := b.ambiguousIf (first.any (· ≠ 0))
  let b := b.ambiguousIf (first.isNone && !directories.isEmpty)
  let b := walk zip (maxRecords + 1) (first.getD zip.length) b
  (b.ambiguousIf (0 < b.encryptedFiles && 0 < b.plainFiles)).listing

/-! ### Warnings stay -/

namespace Builder

/-- No warning is given so far. -/
def Clean (b : Builder) : Prop := b.listing.Clean

/-- The bookkeeping fits the listing: the names seen are those listed, and the records are within
their limit unless the warning says otherwise. -/
structure Good (b : Builder) : Prop where
  seen : ∀ x, x ∈ b.seen ↔ x ∈ b.listing.names
  counted : b.listing.tooMany = false → b.records ≤ maxRecords

lemma Good.empty : empty.Good where
  seen x := by simp [Builder.empty]
  counted _ := Nat.zero_le _

variable {b : Builder}

variable {c : Bool} {name : List Char}

@[simp] lemma clean_ambiguousIf : (b.ambiguousIf c).Clean ↔ b.Clean ∧ c = false := by
  simp only [Clean, Listing.Clean, ambiguousIf, Bool.or_eq_false_iff]
  tauto

@[simp] lemma clean_unreadableIf : (b.unreadableIf c).Clean ↔ b.Clean ∧ c = false := by
  simp only [Clean, Listing.Clean, unreadableIf, Bool.or_eq_false_iff]
  tauto

@[simp] lemma clean_encryptedIf : (b.encryptedIf c).Clean ↔ b.Clean := Iff.rfl

@[simp] lemma clean_describe {o : ℕ} {s : Described} : (b.describe o s).Clean ↔ b.Clean := Iff.rfl

lemma tally_fields (name : List Char) (e : Bool) :
    (b.tally name e).listing = b.listing ∧ (b.tally name e).seen = b.seen ∧
      (b.tally name e).records = b.records ∧ (b.tally name e).described = b.described := by
  unfold tally
  split_ifs <;> exact ⟨rfl, rfl, rfl, rfl⟩

@[simp] lemma clean_tally {e : Bool} : (b.tally name e).Clean ↔ b.Clean := by
  rw [Clean, (tally_fields name e).1, Clean]

lemma Good.tally (h : b.Good) (name : List Char) (e : Bool) : (b.tally name e).Good := by
  obtain ⟨hl, hs, hr, -⟩ := @tally_fields b name e
  refine ⟨?_, ?_⟩
  · rw [hl, hs]
    exact h.seen
  · rw [hl, hr]
    exact h.counted

lemma Good.ambiguousIf (h : b.Good) (c : Bool) : (b.ambiguousIf c).Good := ⟨h.seen, h.counted⟩

lemma Good.unreadableIf (h : b.Good) (c : Bool) : (b.unreadableIf c).Good := ⟨h.seen, h.counted⟩

lemma Good.encryptedIf (h : b.Good) (c : Bool) : (b.encryptedIf c).Good := ⟨h.seen, h.counted⟩

lemma Good.describe (h : b.Good) (o : ℕ) (s : Described) : (b.describe o s).Good :=
  ⟨h.seen, h.counted⟩

lemma Good.record (h : b.Good) : b.record.Good where
  seen := h.seen
  counted hm := by
    have hle : ¬ maxRecords < b.records + 1 := by
      intro hlt
      simp [Builder.record, hlt] at hm
    exact not_lt.1 hle

lemma clean_of_record (h : b.record.Clean) : b.Clean := by
  obtain ⟨ha, hu, hm⟩ := h
  exact ⟨ha, hu, (Bool.or_eq_false_iff.1 hm).1⟩

/-! ### Names -/

lemma add_fields (name : List Char) :
    (b.add name).records = b.records ∧ (b.add name).described = b.described := by
  unfold add
  split_ifs <;> exact ⟨rfl, rfl⟩

lemma clean_of_add (h : (b.add name).Clean) : b.Clean := by
  unfold add at h
  split_ifs at h
  · exact h
  · exact absurd h.2.2 (by simp)
  · exact h

lemma Good.add (h : b.Good) (name : List Char) : (b.add name).Good := by
  unfold Builder.add
  split_ifs with hmem hlen
  · exact h
  · exact ⟨h.seen, nofun⟩
  · refine ⟨?_, h.counted⟩
    intro x
    simp only [Finset.mem_insert, mem_append, mem_singleton]
    rw [h.seen x, or_comm]

lemma mem_add (hg : b.Good) {x : List Char} (h : (b.add name).Clean) :
    x ∈ (b.add name).listing.names ↔ x ∈ b.listing.names ∨ x = name := by
  unfold add at h ⊢
  split_ifs at h ⊢ with hmem hlen
  · have hname := (hg.seen name).1 hmem
    constructor
    · exact Or.inl
    · rintro (hx | rfl)
      · exact hx
      · exact hname
  · exact absurd h.2.2 (by simp)
  · simp

lemma clean_of_foldl_add {names : List (List Char)} (h : (names.foldl add b).Clean) :
    b.Clean := by
  induction names generalizing b with
  | nil => exact h
  | cons name names ih => exact clean_of_add (ih h)

lemma foldl_add (names : List (List Char)) (hg : b.Good)
    (h : (names.foldl add b).Clean) :
    ∀ x, x ∈ (names.foldl add b).listing.names ↔ x ∈ b.listing.names ∨ x ∈ names := by
  induction names generalizing b with
  | nil => simp
  | cons name names ih =>
    intro x
    rw [foldl_cons] at h ⊢
    rw [ih (hg.add name) h x, mem_add hg (clean_of_foldl_add h), mem_cons, or_assoc]

lemma Good.foldl_add (names : List (List Char)) (hg : b.Good) :
    (names.foldl Builder.add b).Good := by
  induction names generalizing b with
  | nil => exact hg
  | cons name names ih => exact ih (hg.add name)

lemma described_foldl_add (names : List (List Char)) :
    (names.foldl add b).described = b.described := by
  induction names generalizing b with
  | nil => rfl
  | cons name names ih => exact ih.trans (add_fields name).2

end Builder

open Builder (Clean Good)

variable {zip : List UInt8} {pos n : ℕ} {b : Builder} {e l : Entry} {es : List Entry}

/-! ### The central directory -/

inductive Records (zip : List UInt8) : ℕ → ℕ → List Entry → Prop
  | nil {pos : ℕ} : Records zip pos 0 []
  /-- One record, and the others after it. -/
  | cons {pos n : ℕ} {e : Entry} {es : List Entry} (h : centralEntry zip pos = some e)
      (hes : Records zip e.next n es) : Records zip pos (n + 1) (e :: es)

lemma Records.mem (h : Records zip pos n es) (he : e ∈ es) : ∃ p, centralEntry zip p = some e := by
  induction h with
  | nil => cases he
  | cons h hes ih =>
    rcases mem_cons.1 he with rfl | he
    · exact ⟨_, h⟩
    · exact ih he

lemma Records.unique {n : ℕ} {es es' : List Entry} (h : Records zip pos n es)
    (h' : Records zip pos n es') : es = es' := by
  induction h generalizing es' with
  | nil =>
    cases h'
    rfl
  | cons h hes ih =>
    cases h' with
    | cons h' hes' =>
      obtain rfl := Option.some.inj (h.symm.trans h')
      rw [ih hes']

def describedOf (es : List Entry) (offset : ℕ) : Option Described :=
  (es.find? fun e => e.localOffset = some offset).bind Entry.sizes

def Agrees (zip : List UInt8) (e : Entry) : Prop :=
  ∃ offset l, e.localOffset = some offset ∧ localEntry zip offset = some l ∧ l.names = e.names ∧
    l.ambiguous = false ∧ l.encrypted = e.encrypted ∧ l.method = e.method

lemma good_readEntry (hg : b.Good) (shift : ℕ) (e : Entry) : (readEntry zip shift e b).Good := by
  unfold readEntry
  dsimp only
  have hg1 := (((hg.tally (e.names.headD []) e.encrypted).encryptedIf e.encrypted).unreadableIf
    (!knownMethods.contains e.method)).ambiguousIf e.ambiguous
  apply Good.foldl_add
  cases (e.localOffset.map (· + shift)) with
  | none => exact (hg1.unreadableIf _).ambiguousIf _
  | some offset =>
    rw [Option.bind_some]
    cases e.sizes <;> cases localEntry zip offset
    · exact (hg1.unreadableIf _).ambiguousIf _
    · exact ((hg1.ambiguousIf _).unreadableIf _).foldl_add _
    · exact ((hg1.describe _ _).unreadableIf _).ambiguousIf _
    · exact (((hg1.describe _ _).ambiguousIf _).unreadableIf _).foldl_add _

lemma clean_of_readEntry {shift : ℕ} (h : (readEntry zip shift e b).Clean) : b.Clean := by
  unfold readEntry at h
  dsimp only at h
  have hc := clean_of_foldl_add h
  have hc1 : ((((b.tally (e.names.headD []) e.encrypted).encryptedIf e.encrypted).unreadableIf
      (!knownMethods.contains e.method)).ambiguousIf e.ambiguous).Clean → b.Clean := by
    intro hc
    rw [clean_ambiguousIf, clean_unreadableIf, clean_encryptedIf,
      clean_tally] at hc
    exact hc.1.1
  cases ho : e.localOffset.map (· + shift) with
  | none =>
    rw [ho] at hc
    exact hc1 (clean_unreadableIf.1 (clean_ambiguousIf.1 hc).1).1
  | some offset =>
    rw [ho, Option.bind_some] at hc
    -- What the record says about an offset is no warning.
    cases hs : e.sizes <;> cases hl : localEntry zip offset <;> rw [hs, hl] at hc <;>
      dsimp only at hc
    · exact hc1 (clean_unreadableIf.1 (clean_ambiguousIf.1 hc).1).1
    · have hc' := clean_of_foldl_add hc
      exact hc1 (clean_ambiguousIf.1 (clean_unreadableIf.1 hc').1).1
    · exact hc1 (clean_unreadableIf.1 (clean_ambiguousIf.1 hc).1).1
    · have hc' := clean_of_foldl_add hc
      exact hc1 (clean_ambiguousIf.1 (clean_unreadableIf.1 hc').1).1

lemma readEntry_clean {s : Described} (hs : e.sizes = some s) (hg : b.Good)
    (h : (readEntry zip 0 e b).Clean) :
    b.Clean ∧ Agrees zip e ∧
      (∀ x, x ∈ (readEntry zip 0 e b).listing.names ↔ x ∈ b.listing.names ∨ x ∈ e.names) ∧
      ∀ o, (readEntry zip 0 e b).described o =
        if e.localOffset = some o then (b.described o <|> some s) else b.described o := by
  unfold readEntry at h ⊢
  rw [hs] at h ⊢
  simp only [Nat.add_zero, Option.map_id'] at h ⊢
  -- Without an offset, or without a header there, both warnings are given.
  cases ho : e.localOffset with
  | none =>
    rw [ho] at h
    exact absurd (clean_ambiguousIf.1 (clean_of_foldl_add h)).2 (by simp)
  | some offset =>
    rw [ho] at h
    simp only [Option.bind_some] at h ⊢
    have hg1 := ((((hg.tally (e.names.headD []) e.encrypted).encryptedIf e.encrypted).unreadableIf
      (!knownMethods.contains e.method)).ambiguousIf e.ambiguous).describe offset s
    cases hl : localEntry zip offset with
    | none =>
      rw [hl] at h
      exact absurd (clean_ambiguousIf.1 (clean_of_foldl_add h)).2 (by simp)
    | some l =>
      rw [hl] at h
      simp only at h ⊢
      have hg2 := (hg1.ambiguousIf
        (l.names != e.names || l.ambiguous || l.encrypted != e.encrypted)).unreadableIf
        (l.method != e.method)
      have hmem := Builder.foldl_add e.names (hg2.foldl_add l.names) h
      have hmem' := foldl_add l.names hg2 (clean_of_foldl_add h)
      have hc' := clean_of_foldl_add (clean_of_foldl_add h)
      simp only [clean_ambiguousIf, clean_unreadableIf, clean_encryptedIf,
        clean_describe, clean_tally, Bool.or_eq_false_iff, bne_eq_false_iff_eq]
        at hc'
      obtain ⟨⟨⟨⟨hclean, -⟩, -⟩, ⟨hnames, hamb⟩, henc⟩, hmethod⟩ := hc'
      refine ⟨hclean, ⟨offset, l, ho, hl, hnames, hamb, henc, hmethod⟩, ?_, ?_⟩
      · intro x
        rw [hmem x, hmem' x, hnames]
        have hnam : ∀ b' : Builder, (b'.tally (e.names.headD []) e.encrypted).listing =
          b'.listing :=
          fun b' => (tally_fields _ _).1
        simp only [unreadableIf, ambiguousIf, describe,
          encryptedIf, hnam]
        tauto
      · intro o
        rw [described_foldl_add, described_foldl_add]
        have hdes : (b.tally (e.names.headD []) e.encrypted).described = b.described :=
          (tally_fields _ _).2.2.2
        simp only [unreadableIf, ambiguousIf, describe,
          encryptedIf, hdes, Option.some.injEq]
        by_cases hoo : offset = o
        · subst hoo
          rw [Function.update_self, if_pos rfl]
        · rw [Function.update_of_ne (Ne.symm hoo), if_neg hoo]

lemma describedOf_cons {s : Described} (hs : e.sizes = some s) (o : ℕ) :
    describedOf (e :: es) o = if e.localOffset = some o then some s else describedOf es o := by
  unfold describedOf
  by_cases ho : e.localOffset = some o
  · rw [List.find?_cons_of_pos (by simpa using ho), if_pos ho, Option.bind_some, hs]
  · rw [List.find?_cons_of_neg (by simpa using ho), if_neg ho]

lemma good_readDirectory (hg : b.Good) (shift : ℕ) :
    (readDirectory zip shift n pos b).Good ∧
      ((readDirectory zip shift n pos b).Clean → b.Clean) := by
  induction n generalizing pos b with
  | zero => exact ⟨hg, id⟩
  | succ n ih =>
    rw [readDirectory]
    split_ifs
    · exact ⟨hg.record, clean_of_record⟩
    cases centralEntry zip pos with
    | none =>
      refine ⟨hg.record.unreadableIf _, ?_⟩
      intro h
      exact clean_of_record (clean_unreadableIf.1 h).1
    | some e =>
      obtain ⟨hg', hc'⟩ := @ih e.next _ (good_readEntry hg.record shift e)
      refine ⟨hg', ?_⟩
      intro h
      exact clean_of_record (clean_of_readEntry (hc' h))

lemma readDirectory_clean (hg : b.Good) (h : (readDirectory zip 0 n pos b).Clean) :
    b.Clean ∧ (readDirectory zip 0 n pos b).Good ∧
      ∃ es, Records zip pos n es ∧ (∀ e ∈ es, Agrees zip e) ∧
        (∀ x, x ∈ (readDirectory zip 0 n pos b).listing.names ↔
          x ∈ b.listing.names ∨ ∃ e ∈ es, x ∈ e.names) ∧
        ∀ o, (readDirectory zip 0 n pos b).described o = (b.described o <|> describedOf es o) := by
  induction n generalizing pos b with
  | zero =>
    refine ⟨h, hg, [], .nil, by simp, by simp [readDirectory], ?_⟩
    intro o
    simp [readDirectory, describedOf]
  | succ n ih =>
    rw [readDirectory] at h ⊢
    -- Too many records, or one that cannot be read, leave a warning.
    by_cases hm : b.record.listing.tooMany = true
    · rw [if_pos hm] at h
      exact absurd h.2.2 (by simp [hm])
    rw [if_neg hm] at h ⊢
    cases he : centralEntry zip pos with
    | none =>
      rw [he] at h
      exact absurd (clean_unreadableIf.1 h).2 (by simp)
    | some e =>
      rw [he] at h
      dsimp only at h ⊢
      obtain ⟨-, -, s, hs, -⟩ := centralEntry_eq_some he
      obtain ⟨hc, hg', es, hes, hagree, hnames, hdesc⟩ :=
        ih (good_readEntry hg.record 0 e) h
      obtain ⟨hc0, hagree0, hnames0, hdesc0⟩ := readEntry_clean hs hg.record hc
      refine ⟨clean_of_record hc0, hg', e :: es, .cons he hes, ?_, ?_, ?_⟩
      · exact forall_mem_cons.2 ⟨hagree0, hagree⟩
      · intro x
        rw [hnames x, hnames0 x]
        simp only [mem_cons, exists_eq_or_imp]
        exact or_assoc
      · intro o
        rw [hdesc o, hdesc0 o, describedOf_cons hs]
        have hrec : b.record.described = b.described := rfl
        rw [hrec]
        by_cases ho : e.localOffset = some o
        · rw [if_pos ho, if_pos ho]
          cases b.described o <;> rfl
        · rw [if_neg ho, if_neg ho]

/-! ### The local headers -/

/-- The offsets of the local headers followed from a position on, and where no header is left. -/
inductive Walks (zip : List UInt8) (described : ℕ → Option Described) : ℕ → List ℕ → ℕ → Prop
  /-- No local header is there. -/
  | stop {pos : ℕ} (h : localEntry zip pos = none) : Walks zip described pos [] pos
  /-- A local header is there, and the others follow it. -/
  | step {pos next stop : ℕ} {l : Entry} {offsets : List ℕ} (hl : localEntry zip pos = some l)
      (hn : nextOf zip described pos l = some next)
      (h : Walks zip described next offsets stop) : Walks zip described pos (pos :: offsets) stop

lemma nextOf_gt {described : ℕ → Option Described} {next : ℕ} (hl : localEntry zip pos = some l)
    (hn : nextOf zip described pos l = some next) : pos < next := by
  obtain ⟨-, -, hlt, hdata⟩ := localEntry_eq_some hl
  unfold nextOf at hn
  cases hd : l.data with
  | some x =>
    obtain ⟨hstart, -⟩ := hdata x.1 x.2 hd
    rw [hd] at hn
    obtain rfl := Option.some.inj hn
    omega
  | none =>
    rw [hd] at hn
    obtain ⟨s, -, -, -, hdesc⟩ := descriptorEnd_eq_some hn
    have := hdesc.lt
    omega

lemma good_foldl_seeName (enc : Bool) (names : List (List Char)) (hg : b.Good) :
    (names.foldl (seeName enc) b).Good ∧ (names.foldl (seeName enc) b).records = b.records := by
  induction names generalizing b with
  | nil => exact ⟨hg, rfl⟩
  | cons name names ih =>
    rw [foldl_cons]
    by_cases hmem : name ∈ b.seen
    · rw [show seeName enc b name = b from if_pos hmem]
      exact ih hg
    · have hsee : seeName enc b name =
          (((b.ambiguousIf true).tally name enc).encryptedIf enc).add name := if_neg hmem
      have hrec : (seeName enc b name).records = b.records := by
        rw [hsee, (add_fields name).1]
        exact (tally_fields name enc).2.2.1
      rw [← hrec]
      exact ih (hsee ▸ (((hg.ambiguousIf _).tally _ _).encryptedIf _).add _)

lemma foldl_seeName (enc : Bool) (names : List (List Char)) (hg : b.Good)
    (h : (names.foldl (seeName enc) b).Clean) :
    names.foldl (seeName enc) b = b ∧ ∀ x ∈ names, x ∈ b.listing.names := by
  induction names generalizing b with
  | nil => exact ⟨rfl, by simp⟩
  | cons name names ih =>
    rw [foldl_cons] at h ⊢
    by_cases hmem : name ∈ b.seen
    · have hsee : seeName enc b name = b := if_pos hmem
      rw [hsee] at h ⊢
      obtain ⟨hsame, hall⟩ := ih hg h
      exact ⟨hsame, forall_mem_cons.2 ⟨(hg.seen name).1 hmem, hall⟩⟩
    · -- A new name makes the archive ambiguous, and no later name takes that back.
      have hsee : seeName enc b name =
          (((b.ambiguousIf true).tally name enc).encryptedIf enc).add name := if_neg hmem
      have hg' : (seeName enc b name).Good := (good_foldl_seeName enc [name] hg).1
      obtain ⟨hsame, -⟩ := ih hg' h
      rw [hsame, hsee] at h
      have hc := clean_of_add h
      rw [clean_encryptedIf, clean_tally, clean_ambiguousIf] at hc
      exact absurd hc.2 (by simp)

lemma walk_clean {fuel : ℕ} (hg : b.Good) (hfuel : maxRecords < b.records + fuel)
    (h : (walk zip fuel pos b).Clean) :
    b.Clean ∧ (walk zip fuel pos b).listing.names = b.listing.names ∧
      ∃ offsets stop, Walks zip b.described pos offsets stop ∧
        ∀ o ∈ offsets, ∃ l, localEntry zip o = some l ∧ ∀ x ∈ l.names, x ∈ b.listing.names := by
  induction fuel generalizing pos b with
  | zero => exact absurd (hg.counted h.2.2) (by omega)
  | succ fuel ih =>
    rw [walk] at h ⊢
    cases hl : localEntry zip pos with
    | none =>
      rw [hl] at h
      exact ⟨h, rfl, [], pos, .stop hl, by simp⟩
    | some l =>
      rw [hl] at h
      dsimp only at h ⊢
      by_cases hm : b.record.listing.tooMany = true
      · rw [if_pos hm] at h
        exact absurd h.2.2 (by simp [hm])
      rw [if_neg hm] at h ⊢
      have hg1 := hg.record.ambiguousIf l.ambiguous
      -- Whatever follows, the names of this header gave no warning.
      have hnames : (l.names.foldl (seeName l.encrypted) (b.record.ambiguousIf l.ambiguous)).Clean →
          l.names.foldl (seeName l.encrypted) (b.record.ambiguousIf l.ambiguous) =
            b.record.ambiguousIf l.ambiguous ∧ ∀ x ∈ l.names, x ∈ b.listing.names :=
        foldl_seeName l.encrypted l.names hg1
      cases hn : nextOf zip (l.names.foldl (seeName l.encrypted)
          (b.record.ambiguousIf l.ambiguous)).described pos l with
      | none =>
        rw [hn] at h
        exact absurd (clean_ambiguousIf.1 h).2 (by simp)
      | some next =>
        rw [hn] at h
        dsimp only at h ⊢
        rw [if_pos (nextOf_gt hl hn)] at h ⊢
        obtain ⟨hg2, hrec⟩ := good_foldl_seeName l.encrypted l.names hg1
        have hcount : (b.record.ambiguousIf l.ambiguous).records = b.records + 1 := rfl
        obtain ⟨hc, hsame, offsets, stop, hwalks, hall⟩ := ih hg2 (by omega) h
        obtain ⟨hb, hlisted⟩ := hnames hc
        rw [hb] at hc hsame hwalks hall hn ⊢
        refine ⟨clean_of_record (clean_ambiguousIf.1 hc).1, hsame,
          pos :: offsets, stop, .step hl hn hwalks, ?_⟩
        exact forall_mem_cons.2 ⟨⟨l, hl, hlisted⟩, hall⟩

/-! ### The listing -/

/-- What an archive that is listed without a warning looks like: one end record and its
directory, unshifted; the records it declares, each in agreement with its local header; local
headers from offset 0 on, each under a name the directory lists; and the names of the directory's
records as the listing. -/
structure Listed (zip : List UInt8) (names : List (List Char)) (eocd : ℕ) (d : Directory)
    (es : List Entry) (offsets : List ℕ) (stop : ℕ) : Prop where
  endRecords : endRecords zip = [eocd]
  directory : directoryFrom zip eocd = some d
  shift : d.shift = 0
  records : Records zip d.start d.entries es
  agrees : ∀ e ∈ es, Agrees zip e
  names : ∀ x, x ∈ names ↔ ∃ e ∈ es, x ∈ e.names
  walks : Walks zip (describedOf es) 0 offsets stop
  headers : ∀ o ∈ offsets, ∃ l, localEntry zip o = some l ∧
    ∀ x ∈ l.names, ∃ e ∈ es, x ∈ e.names

lemma foldl_readDirectory (ds : List Directory) (hg : b.Good) :
    (ds.foldl (fun b d => readDirectory zip d.shift d.entries d.start
      (b.ambiguousIf (d.shift ≠ 0))) b).Good ∧
    ((ds.foldl (fun b d => readDirectory zip d.shift d.entries d.start
      (b.ambiguousIf (d.shift ≠ 0))) b).Clean → b.Clean) := by
  induction ds generalizing b with
  | nil => exact ⟨hg, id⟩
  | cons d ds ih =>
    rw [foldl_cons]
    obtain ⟨hg1, hc1⟩ := @good_readDirectory zip d.start d.entries _
      (hg.ambiguousIf (d.shift ≠ 0)) d.shift
    obtain ⟨hg2, hc2⟩ := ih hg1
    exact ⟨hg2, fun h => (clean_ambiguousIf.1 (hc1 (hc2 h))).1⟩

lemma eq_singleton_of_filterMap {α β : Type} {f : α → Option β} {xs : List α} {k : ℕ}
    (hlen : ¬ 1 < xs.length) (hne : ((xs.take k).filterMap f) ≠ []) :
    ∃ x y, xs = [x] ∧ f x = some y ∧ (xs.take k).filterMap f = [y] := by
  match xs, k with
  | [], _ => exact absurd (by simp) hne
  | [x], 0 => exact absurd (by simp) hne
  | [x], k + 1 =>
    rw [take_succ_cons, take_nil] at hne ⊢
    cases hf : f x with
    | none => exact absurd (by simp [hf]) hne
    | some y => exact ⟨x, y, rfl, hf, by simp [hf]⟩
  | x :: y :: xs, _ => exact absurd (by simp) hlen

lemma listZip_clean (h : (listZip zip).Clean) :
    ∃ eocd d es offsets stop, Listed zip (listZip zip).names eocd d es offsets stop := by
  unfold listZip at h ⊢
  dsimp only at h ⊢
  set ds := ((endRecords zip).take maxEndRecords).filterMap (directoryFrom zip) with hds
  set b0 := (empty.ambiguousIf (1 < (endRecords zip).length)).unreadableIf ds.isEmpty
  set b1 := ds.foldl
    (fun b d => readDirectory zip d.shift d.entries d.start (b.ambiguousIf (d.shift ≠ 0)))
      b0 with hb1
  set first := firstLocal zip with hfirst
  set b2 := (b1.ambiguousIf (first.any (· ≠ 0))).ambiguousIf (first.isNone && !ds.isEmpty)
  have hg0 : b0.Good := (Good.empty.ambiguousIf _).unreadableIf _
  obtain ⟨hg1, hc01⟩ : b1.Good ∧ (b1.Clean → b0.Clean) := foldl_readDirectory ds hg0
  have hc3 : (walk zip (maxRecords + 1) (first.getD zip.length) b2).Clean :=
    (clean_ambiguousIf.1 h).1
  obtain ⟨hc2, hnames, offsets, stop, hwalks, hheaders⟩ :=
    walk_clean ((hg1.ambiguousIf _).ambiguousIf _) (by omega) hc3
  obtain ⟨hc12, hnone⟩ := clean_ambiguousIf.1 hc2
  obtain ⟨hc1, hzero⟩ := clean_ambiguousIf.1 hc12
  obtain ⟨hc0, hds0⟩ := clean_unreadableIf.1 (hc01 hc1)
  have hone : ¬ 1 < (endRecords zip).length := by
    simpa using (clean_ambiguousIf.1 hc0).2
  -- There is one end record, and its directory is the one read.
  obtain ⟨eocd, d, heocd, hd, hdsd⟩ := @eq_singleton_of_filterMap _ _ (directoryFrom zip) _
    maxEndRecords hone (by rw [← hds]; intro hnil; simp [hnil] at hds0)
  rw [← hds] at hdsd
  have hb1' : b1 = readDirectory zip d.shift d.entries d.start (b0.ambiguousIf (d.shift ≠ 0)) := by
    rw [hb1, hdsd]
    rfl
  rw [hb1'] at hc1
  have hshift : d.shift = 0 := by
    have := (clean_ambiguousIf.1 ((good_readDirectory (hg0.ambiguousIf _) d.shift).2 hc1)).2
    simpa using this
  rw [hshift] at hb1' hc1
  obtain ⟨-, -, es, hes, hagree, hlisted, hdesc⟩ :=
    readDirectory_clean (hg0.ambiguousIf _) hc1
  -- Nothing was listed or described before.
  have hlisted' : ∀ x, x ∈ b2.listing.names ↔ ∃ e ∈ es, x ∈ e.names := by
    intro x
    have hx := hlisted x
    rw [← hb1'] at hx
    exact hx.trans (or_iff_right (not_mem_nil))
  have hdesc' : b2.described = describedOf es := by
    ext1 o
    have ho := hdesc o
    rw [← hb1'] at ho
    exact ho
  -- The first local header is at the start.
  have hat : first.getD zip.length = 0 := by
    cases hf : first with
    | none => simp [hf, hdsd] at hnone
    | some o =>
      rw [hf] at hzero
      simpa using hzero
  rw [hat, hdesc'] at hwalks
  refine ⟨eocd, d, es, offsets, stop,
    { endRecords := heocd
      directory := hd
      shift := hshift
      records := hes
      agrees := hagree
      names := ?_
      walks := hwalks
      headers := ?_ }⟩
  · intro x
    rw [← hlisted' x, ← hnames]
    rfl
  · intro o ho
    obtain ⟨l, hl, hx⟩ := hheaders o ho
    exact ⟨l, hl, fun x hxl => (hlisted' x).1 (hx x hxl)⟩

end Epistle.Antispam
