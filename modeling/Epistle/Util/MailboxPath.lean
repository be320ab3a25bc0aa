import Epistle.Lib.Escape
import Epistle.Lib.Utf8
import Epistle.Util.Mutf7

/-!
# Mailbox names and their directories

Hierarchical mailbox names and how they are spelled on disk (`util/mailbox_path`). Folders stay flat
on disk: one directory for each, named after the mailbox with every delimiter written as the run of
modified UTF-7 that decodes to it. A first level that is `INBOX` in any case is spelled so.

* `disk_names_are_unique`: names and directories are in one to one correspondence.
-/

namespace Epistle.Util.MailboxPath

open Lib Lib.Text Lib.Escape List

def delimiter : Char := '/'

def diskDelimiter : List Char := "&AC8-".toList

/-- Most levels a mailbox name may have. -/
def maxDepth : ℕ := 16

def maxDiskNameLen : ℕ := 255

/-- Longest account or mailbox level, in octets. -/
def maxComponentLen : ℕ := 128

def inbox : List Char := "INBOX".toList

def octetLen (s : List Char) : ℕ := (Utf8.encode s).length

def isControl (c : Char) : Bool := c.toNat < 0x20 || (0x7F ≤ c.toNat && c.toNat < 0xA0)

def isPlainComponent (name : List Char) : Bool :=
  name ≠ [] && octetLen name ≤ maxComponentLen && name ≠ ".".toList && name ≠ "..".toList &&
    !name.any (fun c => isControl c || c = '/' || c = '\\') && name.head? ≠ some '/'

def isLevelChar (c : Char) : Bool :=
  c.isAlphanum || c ∈ [' ', '-', '_', '.'] ||
    (128 ≤ c.toNat && !isControl c && c.toNat ≠ 0x2028 && c.toNat ≠ 0x2029)

/-- Whether a level can be in the name of a folder. -/
def validLevel (level : List Char) : Bool :=
  if !isPlainComponent level || level.head? = some '.' then false
  else (Mutf7.decode level).any fun decoded => decoded.all isLevelChar && decoded.getLast? ≠
    some ' '

def diskLen (name : List Char) : ℕ :=
  octetLen name + name.count delimiter * (octetLen diskDelimiter - 1)

/-- Whether a name is one of a folder. -/
def validFolder (name : List Char) : Bool :=
  if eqIgnoreAsciiCase name inbox || diskDelimiter <:+: name then false
  else
    let levels := name.splitOn delimiter
    levels.length ≤ maxDepth && levels.all validLevel && diskLen name ≤ maxDiskNameLen

/-- The name, with the inbox in upper case. -/
def canonical (name : List Char) : List Char :=
  match splitOnce delimiter name with
  | some (first, rest) =>
      if eqIgnoreAsciiCase first inbox && first ≠ inbox then inbox ++ delimiter :: rest else name
  | none => name

/-- The name of the directory of a folder. -/
def diskName (name : List Char) : List Char := escape delimiter diskDelimiter (canonical name)

/-- The folder of a directory. -/
def storedName (disk : List Char) : Option (List Char) :=
  let name := unescape diskDelimiter delimiter disk
  if validFolder name && diskName name = disk then some name else none

/-! ## Canonical names -/

variable {n : List Char}

lemma canonical_cases (n : List Char) :
    canonical n = n ∨ ∃ first rest, n = first ++ delimiter :: rest ∧ delimiter ∉ first ∧
      eqIgnoreAsciiCase first inbox ∧ canonical n = inbox ++ delimiter :: rest := by
  unfold canonical
  split
  · rename_i first rest hsplit
    obtain ⟨hn, hfirst⟩ := splitOnce_eq_some.1 hsplit
    split_ifs with hinbox
    · rw [Bool.and_eq_true] at hinbox
      exact .inr ⟨first, rest, hn, hfirst, hinbox.1, rfl⟩
    · exact .inl rfl
  · exact .inl rfl

lemma canonical_inbox (rest : List Char) :
    canonical (inbox ++ delimiter :: rest) = inbox ++ delimiter :: rest := by
  have hsplit : splitOnce delimiter (inbox ++ delimiter :: rest) = some (inbox, rest) :=
    splitOnce_eq_some.2 ⟨rfl, by decide⟩
  rw [canonical, hsplit]
  simp

lemma canonical_canonical (n : List Char) : canonical (canonical n) = canonical n := by
  obtain h | ⟨first, rest, -, -, -, h⟩ := canonical_cases n
  · rw [h, h]
  · rw [h, canonical_inbox]

lemma splitOn_first {first : List Char} (h : delimiter ∉ first) (rest : List Char) :
    (first ++ delimiter :: rest).splitOn delimiter = first :: rest.splitOn delimiter := by
  have hself : first.splitOn delimiter = [first] := by
    have hone := @splitOn_intercalate Char [first] _ _ delimiter (by simpa using h) (by simp)
    simpa using hone
  have happend : (first ++ delimiter :: rest).splitOn delimiter =
      first.splitOn delimiter ++ rest.splitOn delimiter :=
    splitOnP_append_cons first rest (by simp)
  rw [happend, hself, singleton_append]

lemma octetLen_append (s t : List Char) : octetLen (s ++ t) = octetLen s + octetLen t := by
  simp [octetLen, Utf8.encode]

lemma octetLen_of_inbox {first : List Char} (h : eqIgnoreAsciiCase first inbox) :
    octetLen first = octetLen inbox := by
  have hmap : first.map Char.toUpper = inbox.map Char.toUpper := by
    simpa [eqIgnoreAsciiCase] using h
  have hlength : first.length = inbox.length := by simpa using congrArg List.length hmap
  have hascii : ∀ s : List Char, (∀ c ∈ s, c.toNat < 128) → octetLen s = s.length := by
    intro s hs
    induction s with
    | nil => rfl
    | cons c s ih =>
      obtain ⟨hc, hs⟩ := forall_mem_cons.1 hs
      have hone : octetLen [c] = 1 := by
        have hle : c.toNat ≤ 127 := Nat.le_of_lt_succ hc
        simp [octetLen, Utf8.encode, String.utf8EncodeChar, hle]
      have hsplit := octetLen_append [c] s
      rw [singleton_append, hone, ih hs] at hsplit
      rw [hsplit, length_cons, Nat.add_comm]
  rw [hascii first fun c hc => ?_, hascii inbox (by decide), hlength]
  have hupper : c.toUpper ∈ inbox.map Char.toUpper := hmap ▸ mem_map_of_mem hc
  have hlt : ∀ d ∈ inbox.map Char.toUpper, d.toNat < 91 := by decide
  have hc' := hlt _ hupper
  rw [toNat_toUpper] at hc'
  split_ifs at hc' <;> omega

lemma validLevel_inbox : validLevel inbox = true := by decide +kernel

lemma validFolder_iff : validFolder n = true ↔
    ¬ eqIgnoreAsciiCase n inbox ∧ ¬ diskDelimiter <:+: n ∧
      (n.splitOn delimiter).length ≤ maxDepth ∧ (∀ level ∈ n.splitOn delimiter, validLevel level) ∧
      diskLen n ≤ maxDiskNameLen := by
  unfold validFolder
  split_ifs with hbad
  · simp only [Bool.or_eq_true, decide_eq_true_eq] at hbad
    simp only [false_iff, not_and]
    tauto
  · simp only [Bool.or_eq_true, decide_eq_true_eq, not_or] at hbad
    simp [hbad, all_eq_true, and_assoc]

lemma validFolder_canonical (h : validFolder n) : validFolder (canonical n) := by
  obtain hsame | ⟨first, rest, rfl, hfirst, hinbox, hcanonical⟩ := canonical_cases n
  · rwa [hsame]
  · obtain ⟨-, hnone, hdepth, hlevels, hlen⟩ := validFolder_iff.1 h
    rw [splitOn_first hfirst] at hdepth hlevels
    have hdelimiter : delimiter ∉ inbox := by decide
    rw [hcanonical, validFolder_iff, splitOn_first hdelimiter]
    refine ⟨?_, ?_, hdepth, forall_mem_cons.2 ⟨validLevel_inbox,
      (forall_mem_cons.1 hlevels).2⟩, ?_⟩
    · -- It has more than one level.
      intro heq
      simp [eqIgnoreAsciiCase] at heq
    · intro hinfix
      obtain hin | hin := infix_of_infix_append_cons (by decide) hinfix
      · exact absurd hin (by decide)
      · exact hnone (infix_append_iff.2 (.inr (.inl (infix_cons hin))))
    · have hcount : ∀ {s : List Char}, delimiter ∉ s →
          diskLen (s ++ delimiter :: rest) = octetLen s + diskLen (delimiter :: rest) := by
        intro s hs
        rw [diskLen, diskLen, octetLen_append, count_append, count_eq_zero.2 hs,
          Nat.zero_add, Nat.add_assoc]
      rw [hcount hfirst, octetLen_of_inbox hinbox] at hlen
      rwa [hcount hdelimiter]

/-! ## Directories -/

/-- One name in a directory: not empty, not the directory itself or the one above it, without a
separator or a control character. -/
structure IsComponent (name : List Char) : Prop where
  ne_nil : name ≠ []
  ne_dot : name ≠ ".".toList
  ne_dots : name ≠ "..".toList
  no_delimiter : delimiter ∉ name
  no_control : ∀ c ∈ name, isControl c = false

lemma storedName_diskName (h : validFolder n) : storedName (diskName n) = some (canonical n) := by
  have hvalid := validFolder_canonical h
  obtain ⟨-, hnone, -⟩ := validFolder_iff.1 hvalid
  have hback : unescape diskDelimiter delimiter (diskName n) = canonical n :=
    @unescape_escape Char _ delimiter '&' "AC8-".toList (canonical n) (by decide) hnone
  have hdisk : diskName (canonical n) = diskName n := by
    rw [diskName, canonical_canonical, diskName]
  rw [storedName, hback]
  simp [hvalid, hdisk]

lemma diskName_of_storedName {d : List Char} (h : storedName d = some n) :
    diskName n = d ∧ validFolder n := by
  unfold storedName at h
  dsimp only at h
  split_ifs at h with hvalid
  obtain rfl := Option.some.inj h
  rw [Bool.and_eq_true, decide_eq_true_eq] at hvalid
  exact ⟨hvalid.2, hvalid.1⟩

lemma octetLen_escape (s : List Char) :
    octetLen (escape delimiter diskDelimiter s) = diskLen s := by
  induction s with
  | nil => rfl
  | cons c s ih =>
    rw [diskLen] at ih ⊢
    have hcons : octetLen (c :: s) = octetLen [c] + octetLen s := octetLen_append [c] s
    obtain rfl | hc := eq_or_ne c delimiter
    · have hone : octetLen [delimiter] = 1 := by decide
      have hpattern : octetLen diskDelimiter = 5 := by decide
      rw [escape_cons_self, octetLen_append, ih, hcons, count_cons_self, hone, hpattern]
      omega
    · rw [escape_cons_of_ne hc, count_cons_of_ne hc, hcons, Nat.add_assoc, ← ih]
      exact octetLen_append [c] _

lemma level_of_mem {c : Char} (hc : c ∈ n) (hne : c ≠ delimiter) :
    ∃ level ∈ n.splitOn delimiter, c ∈ level := by
  have hjoin : [delimiter].intercalate (n.splitOn delimiter) = n := intercalate_splitOn ..
  rw [← hjoin] at hc
  obtain hsep | hlevel := Lines.mem_intercalate hc
  · exact absurd (mem_singleton.1 hsep) hne
  · exact hlevel

lemma validLevel_plain {level : List Char} (h : validLevel level) :
    level ≠ [] ∧ level.head? ≠ some '.' ∧ ∀ c ∈ level, isControl c = false := by
  unfold validLevel at h
  split_ifs at h with hbad
  simp only [Bool.or_eq_true, Bool.not_eq_true', decide_eq_true_eq, not_or,
    Bool.not_eq_false] at hbad
  obtain ⟨hplain, hdot⟩ := hbad
  simp only [isPlainComponent, Bool.and_eq_true, decide_eq_true_eq, Bool.not_eq_true',
    any_eq_false, Bool.or_eq_true, not_or, Bool.not_eq_true] at hplain
  exact ⟨hplain.1.1.1.1.1, hdot, fun c hc => (hplain.1.2 c hc).1.1⟩

lemma exists_first (n : List Char) : ∃ first rest, n.splitOn delimiter = first :: rest ∧
    delimiter ∉ first ∧ first <+: n := by
  cases hsplit : splitOnce delimiter n with
  | none =>
    have hnone := splitOnce_eq_none.1 hsplit
    have hone := @splitOn_intercalate Char [n] _ _ delimiter (by simpa using hnone) (by simp)
    exact ⟨n, [], by simpa using hone, hnone, prefix_refl n⟩
  | some x =>
    obtain ⟨first, rest⟩ := x
    obtain ⟨rfl, hfirst⟩ := splitOnce_eq_some.1 hsplit
    exact ⟨first, _, splitOn_first hfirst rest, hfirst, prefix_append ..⟩

lemma isComponent_diskName (h : validFolder n) :
    IsComponent (diskName n) ∧ octetLen (diskName n) ≤ maxDiskNameLen := by
  obtain ⟨-, -, -, hlevels, hlen⟩ := validFolder_iff.1 (validFolder_canonical h)
  -- The name starts with the first character of its first level.
  obtain ⟨c, s, hcons, hdelimiter, hdot⟩ : ∃ c s, canonical n = c :: s ∧ c ≠ delimiter ∧
    c ≠ '.' := by
    obtain ⟨first, rest, hsplit, hfirst, more, hmore⟩ := exists_first (canonical n)
    obtain ⟨hne, hdot, -⟩ := validLevel_plain (hlevels first (hsplit ▸ mem_cons_self ..))
    cases first with
    | nil => exact absurd rfl hne
    | cons c first =>
      refine ⟨c, first ++ more, hmore.symm, fun heq => hfirst (heq ▸ mem_cons_self ..), ?_⟩
      rintro rfl
      exact hdot rfl
  have hdisk : diskName n = c :: escape delimiter diskDelimiter s := by
    rw [diskName, hcons, escape_cons_of_ne hdelimiter]
  refine ⟨⟨?_, ?_, ?_, not_mem_escape (by decide), fun b hb => ?_⟩, ?_⟩
  · rw [hdisk]
    exact cons_ne_nil _ _
  · rw [hdisk]
    exact fun heq => hdot (List.cons.inj heq).1
  · rw [hdisk]
    exact fun heq => hdot (List.cons.inj heq).1
  · obtain ⟨d, hd, hb⟩ := mem_flatMap.1 hb
    have hpattern : ∀ e ∈ diskDelimiter, isControl e = false := by decide
    split_ifs at hb with hdelim
    · exact hpattern b hb
    · obtain rfl := mem_singleton.1 hb
      obtain ⟨level, hlevel, hmem⟩ := level_of_mem hd hdelim
      exact (validLevel_plain (hlevels level hlevel)).2.2 b hmem
  · rw [diskName, octetLen_escape]
    exact hlen

/-- Valid names, up to the spelling of their first level, are in one to one correspondence with the
directories that hold a mailbox: each is one directory of its own, from which it is read back. -/
theorem disk_names_are_unique :
    (∀ n, validFolder n → storedName (diskName n) = some (canonical n) ∧
      IsComponent (diskName n) ∧ octetLen (diskName n) ≤ 255) ∧
    (∀ n m, validFolder n → validFolder m → (diskName n = diskName m ↔ canonical n = canonical m)) ∧
    ∀ d n, storedName d = some n → diskName n = d ∧ validFolder n := by
  refine ⟨fun n h => ⟨storedName_diskName h, isComponent_diskName h⟩, fun n m hn hm => ?_,
    fun d n h =>
    diskName_of_storedName h⟩
  constructor
  · intro heq
    have hstored := storedName_diskName hn
    rw [heq, storedName_diskName hm] at hstored
    exact (Option.some.inj hstored).symm
  · intro heq
    rw [diskName, diskName, heq]

/-- A folder under the inbox, with a letter that is not ASCII. -/
theorem disk_names_are_unique_drafts :
    let n := "inbox/Entw&APw-rfe".toList
    let d := "INBOX&AC8-Entw&APw-rfe".toList
    (validFolder n ∧ diskName n = d) ∧ storedName d = some "INBOX/Entw&APw-rfe".toList ∧
      (IsComponent d ∧ octetLen d ≤ 255) ∧
      (diskName n = diskName "INBOX/Entw&APw-rfe".toList ↔
        canonical n = canonical "INBOX/Entw&APw-rfe".toList) := by
  intro n d
  have hn : validFolder n := by decide +kernel
  have hm : validFolder "INBOX/Entw&APw-rfe".toList := by decide +kernel
  have hd : diskName n = d := by decide +kernel
  have hcanonical : canonical n = "INBOX/Entw&APw-rfe".toList := by decide +kernel
  obtain ⟨hall, hiff, -⟩ := disk_names_are_unique
  obtain ⟨hstored, hcomponent⟩ := hall n hn
  rw [hd] at hstored hcomponent
  exact ⟨⟨hn, hd⟩, hcanonical ▸ hstored, hcomponent, hiff n _ hn hm⟩

end Epistle.Util.MailboxPath
