import Epistle.Migrate.Types
import Mathlib.Tactic.Ring

/-!
# The ledger of confirmed messages

The file that holds what a folder has already handed over (`migrate/imap/ledger`): a header with
the UIDVALIDITY, and one record of forty octets for each confirmed message, in UID order. An append
can be cut at any octet; what is not a whole record is dropped when the file is opened.

A `Ledger` has the records of the file as it was opened or appended to; the code reads them from
the file where it lies.

* `Ledger.lookups_exact`: a series of lookups.
-/

namespace Epistle.Migrate

open Lib Lib.Octets List Option

/-- What marks the file: `EPSTLG1` and a zero. -/
def magic : List UInt8 := [69, 80, 83, 84, 76, 71, 49, 0]

/-- The length of the header of a ledger. -/
def headerLength : ℕ := 16

/-- The length of a record. -/
def recordLength : ℕ := 40

/-- The longest ledger that is read. -/
def maxLedgerBytes : ℕ := 1024 * 1024 * 1024

/-- Records the cursor walks over before a lookup gives up and searches. -/
def near : ℕ := 64

/-- A message that was stored, with its fingerprint. -/
structure Record where
  uid : ℕ
  fingerprint : Digest
  deriving DecidableEq

/-- The header of a ledger. -/
def header (uidValidity : ℕ) : List UInt8 := magic ++ leBytes 4 uidValidity ++ [0, 0, 0, 0]

section Octets

variable (sha256 : List UInt8 → Digest)

/-- The check of a record. -/
def checksum (r : Record) : List UInt8 := (sha256 (leBytes 4 r.uid ++ r.fingerprint.1)).1.take 4

/-- A record as it is written. -/
def Record.octets (r : Record) : List UInt8 :=
  leBytes 4 r.uid ++ r.fingerprint.1 ++ checksum sha256 r

/-- Read a record, if its check is right. -/
def decode (octets : List UInt8) : Option Record :=
  if h : ((octets.drop 4).take 32).length = 32 then
    let r : Record := ⟨ofLe (octets.take 4), ⟨(octets.drop 4).take 32, h⟩⟩
    if octets.drop 36 = checksum sha256 r then some r else none
  else none

/-- Read records whose uids go up. -/
def verify (previous : Option ℕ) : List (List UInt8) → Except LedgerError (List Record)
  | [] => .ok []
  | octets :: rest =>
      match decode sha256 octets with
      | none => .error .checksum
      | some r =>
          if previous.any (r.uid ≤ ·) then .error .order
          else (verify (some r.uid) rest).map (r :: ·)

/-- The octets of each record of a file. -/
def slots (file : List UInt8) (count : ℕ) : List (List UInt8) :=
  (List.range count).map fun i => (file.drop (headerLength + i * recordLength)).take recordLength

/-- Check the header: the UIDVALIDITY and the number of whole records, of which the last must hold
its checksum. -/
def prepare (file : List UInt8) : Except LedgerError (ℕ × ℕ) :=
  if file.length > maxLedgerBytes then .error .tooLarge
  else if file.length < headerLength then .error .headerIncomplete
  else if file.take 8 ≠ magic then .error .noMarker
  else
    let count := (file.length - headerLength) / recordLength
    if (slots file count).getLast?.any (decode sha256 · = none) then .error .checksum
    else .ok (ofLe ((file.drop 8).take 4), count)

end Octets

/-- The confirmed messages of a folder. -/
structure Ledger where
  writable : Bool
  present : Bool
  uidValidity : ℕ
  records : List Record
  /-- The cursor, and the record it is on. -/
  «at» : ℕ
  current : Option Record
  deriving DecidableEq

open Record

namespace Ledger

/-- A ledger without records. -/
def empty (uidValidity : ℕ) : Ledger := ⟨false, false, uidValidity, [], 0, none⟩

/-- The last uid of a ledger. -/
def last (l : Ledger) : ℕ := (l.records.getLast?.map uid).getD 0

/-! ## Lookups -/

def load (l : Ledger) (i : ℕ) : Ledger := { l with «at» := i, current := l.records[i]? }

def lowerBoundFrom (records : List Record) (uid : ℕ) : ℕ → ℕ → ℕ → ℕ
  | 0, low, _ => low
  | fuel + 1, low, high =>
      if low < high then
        let middle := low + (high - low) / 2
        if records[middle]?.any (·.uid < uid) then lowerBoundFrom records uid fuel (middle + 1) high
        else lowerBoundFrom records uid fuel low middle
      else low

/-- The position of the first record that is not below a uid. -/
def lowerBound (l : Ledger) (uid : ℕ) : ℕ :=
  lowerBoundFrom l.records uid l.records.length 0 l.records.length

def walk (uid : ℕ) : ℕ → Ledger → Ledger
  | 0, l => l
  | n + 1, l => if l.current.any (·.uid < uid) then walk uid n (l.load (l.at + 1)) else l

/-- Move the cursor to a uid: ahead by some records, or by a search. -/
def seek (l : Ledger) (uid : ℕ) : Ledger :=
  if l.current.any (uid ≤ ·.uid) then l
  else
    let walked := if l.current.isSome then walk uid near l else l
    let pastEnd := l.current.isSome && walked.current.isNone
    if !pastEnd && !walked.current.any (uid ≤ ·.uid) then walked.load (walked.lowerBound uid)
    else walked

/-- The fingerprint of a uid, if the ledger has it. -/
def fingerprint (l : Ledger) (uid : ℕ) : Option Digest × Ledger :=
  if l.records = [] then (none, l)
  else if uid > l.last then (none, { l with «at» := l.records.length, current := none })
  else
    let l := l.seek uid
    ((l.current.filter (·.uid = uid)).map Record.fingerprint, l)

end Ledger

/-! ## The file -/

open Prog

section File

variable (sha256 : List UInt8 → Digest)

/-- Open the ledger. Nothing is confirmed without a UIDVALIDITY, and the records of another
UIDVALIDITY are discarded; a ledger opened to be read changes nothing. -/
def openLedger (uidValidity : ℕ) (writable : Bool) : Run Ledger :=
  if uidValidity = 0 then pure (.empty 0)
  else do
    let file ← read Disk.ledger (.state .io)
    match file with
    | none => pure ⟨writable, false, uidValidity, [], 0, none⟩
    | some file =>
        let (found, count) ← ofExcept ((prepare sha256 file).mapError .state)
        if writable ∧ file.length ≠ headerLength + count * recordLength then
          replace (fun d =>
            { d with ledger := d.ledger.map (·.take (headerLength + count * recordLength)) })
            (.state .io)
        if found ≠ uidValidity then
          if writable then
            replace (fun d => { d with ledger := some (header found) }) (.state .io)
          return ⟨writable, false, uidValidity, [], 0, none⟩
        let records ← ofExcept ((verify sha256 none (slots file count)).mapError .state)
        return ⟨writable, true, uidValidity, records, 0, none⟩

namespace Ledger

/-- Create the file the first time. -/
def writer (l : Ledger) : Run Ledger :=
  if l.present then pure l
  else do
    replace (fun d => { d with ledger := some (header l.uidValidity) }) (.state .io)
    return { l with present := true }

/-- Append records to the ledger. -/
def confirm (l : Ledger) (records : List Record) : Run Ledger :=
  if records = [] ∨ ¬l.writable then pure l
  else if ¬records.IsChain (·.uid < ·.uid) then fail (.state .outOfOrder)
  else
    let new := records.dropWhile (·.uid ≤ l.last)
    if new = [] then pure l
    else if headerLength + (l.records.length + new.length) * recordLength > maxLedgerBytes then
      fail (.state .tooLarge)
    else do
      let l ← l.writer
      let length ← read (fun d => (d.ledger.getD []).length) (.state .io)
      if length ≠ headerLength + l.records.length * recordLength then
        fail (.state .rewritten)
      else
        let body := new.flatMap (octets sha256)
        step (fun d => ((), { d with ledger := d.ledger.map (· ++ body) }))
          (fun n d => { d with ledger := d.ledger.map (· ++ body.take n) }) (.state .io)
        return { l with
          records := l.records ++ new, «at» := l.records.length + new.length, current := none }

end Ledger

end File

/-! ## What the file holds -/

section Holds

variable {sha256 : List UInt8 → Digest}

lemma length_checksum (r : Record) : (checksum sha256 r).length = 4 := by
  simp [checksum, (sha256 _).2]

lemma length_octets (r : Record) : (r.octets sha256).length = recordLength := by
  simp [octets, length_checksum, r.fingerprint.2, recordLength]

lemma decode_octets {r : Record} (h : r.uid ≤ maxUid) :
    decode sha256 (r.octets sha256) = some r := by
  have huid : (leBytes 4 r.uid ++ r.fingerprint.1 ++ checksum sha256 r).take 4 =
    leBytes 4 r.uid := by
    rw [append_assoc, take_left' (by simp)]
  have hdrop : (leBytes 4 r.uid ++ r.fingerprint.1 ++ checksum sha256 r).drop 4 =
      r.fingerprint.1 ++ checksum sha256 r := by
    rw [append_assoc, drop_left' (by simp)]
  have hfinger : (r.fingerprint.1 ++ checksum sha256 r).take 32 = r.fingerprint.1 :=
    take_left' r.fingerprint.2
  have hsum : (leBytes 4 r.uid ++ r.fingerprint.1 ++ checksum sha256 r).drop 36 =
      checksum sha256 r := drop_left' (by simp [r.fingerprint.2])
  have hle : ofLe (leBytes 4 r.uid) = r.uid := ofLe_leBytes (by unfold maxUid at h; omega)
  simp only [decode, octets, huid, hdrop, hfinger, hsum, hle]
  rw [dif_pos r.fingerprint.2]
  exact if_pos rfl

lemma length_flatMap_octets (records : List Record) :
    (records.flatMap (octets sha256)).length = records.length * recordLength := by
  induction records with
  | nil => rfl
  | cons r records ih =>
    rw [flatMap_cons, length_append, length_octets, ih, length_cons]
    ring

lemma take_flatMap_octets (records : List Record) (n : ℕ) :
    ∃ k tail, (records.flatMap (octets sha256)).take n =
      (records.take k).flatMap (octets sha256) ++ tail ∧ tail.length < recordLength := by
  induction records generalizing n with
  | nil => exact ⟨0, [], by simp, by decide⟩
  | cons r records ih =>
    rw [flatMap_cons, take_append, length_octets]
    by_cases hn : n < recordLength
    · refine ⟨0, (r.octets sha256).take n, ?_, ?_⟩
      · simp [Nat.sub_eq_zero_of_le (le_of_lt hn)]
      · exact lt_of_le_of_lt (length_take_le n _) hn
    · obtain ⟨k, tail, heq, hlt⟩ := ih (n - recordLength)
      refine ⟨k + 1, tail, ?_, hlt⟩
      rw [heq, take_of_length_le (by rw [length_octets]; exact Nat.le_of_not_lt hn),
        take_succ_cons, flatMap_cons, append_assoc]

variable (sha256) in
structure Holds (uidValidity : ℕ) (file : Option (List UInt8)) (records : List Record) : Prop where
  sorted : records.Pairwise (·.uid < ·.uid)
  bounded : ∀ r ∈ records, r.uid ≤ maxUid
  missing : file = none → records = []
  content : ∀ f, file = some f → f.length ≤ maxLedgerBytes ∧ ∃ tail, f = header uidValidity ++
    records.flatMap (octets sha256) ++ tail ∧ tail.length < recordLength

lemma holds_none (uidValidity : ℕ) : Holds sha256 uidValidity none [] :=
  ⟨.nil, by simp, fun _ => rfl, by simp⟩

lemma length_header (uidValidity : ℕ) : (header uidValidity).length = headerLength := by
  simp [header, magic, headerLength]

lemma slots_append {h : List UInt8} {n : ℕ} (hh : h.length = n) (records : List Record)
    (tail : List UInt8) :
    ((List.range records.length).map fun i =>
      ((h ++ records.flatMap (octets sha256) ++ tail).drop (n + i * recordLength)).take
        recordLength) = records.map (octets sha256) := by
  induction records generalizing h n with
  | nil => rfl
  | cons r records ih =>
    rw [length_cons, range_succ_eq_map, map_cons, map_cons, List.map_map]
    congr 1
    · rw [zero_mul, add_zero, append_assoc, drop_left' hh, flatMap_cons,
        append_assoc, take_left' (length_octets r)]
    · -- The records behind the first have one more in front of them.
      have hlen : (h ++ r.octets sha256).length = n + recordLength := by
        rw [length_append, hh, length_octets]
      rw [← ih hlen]
      refine map_congr_left fun i _ => ?_
      simp only [Function.comp_apply, flatMap_cons, append_assoc]
      congr 2
      rw [Nat.succ_mul]
      omega

lemma verify_octets {previous : Option ℕ} {records : List Record}
    (hsorted : records.Pairwise (·.uid < ·.uid)) (hbound : ∀ r ∈ records, r.uid ≤ maxUid)
    (hprev : ∀ p ∈ previous, ∀ r ∈ records, p < r.uid) :
    verify sha256 previous (records.map (octets sha256)) = .ok records := by
  induction records generalizing previous with
  | nil => rfl
  | cons r records ih =>
    obtain ⟨hr, hsorted⟩ := pairwise_cons.1 hsorted
    obtain ⟨hrb, hbound⟩ := forall_mem_cons.1 hbound
    have hrise : previous.any (r.uid ≤ ·) = false := by
      cases previous with
      | none => rfl
      | some p => simpa using hprev p rfl r (mem_cons_self ..)
    rw [map_cons, verify, decode_octets hrb]
    simp only [hrise, Bool.false_eq_true, if_false]
    rw [ih hsorted hbound (by simpa using hr)]
    rfl

variable {uidValidity : ℕ} {l : Ledger}

lemma prepare_header (hv : uidValidity < 2 ^ 32) {records : List Record}
    (hbound : ∀ r ∈ records, r.uid ≤ maxUid) {tail : List UInt8}
    (htail : tail.length < recordLength)
    (hlen : (header uidValidity ++ records.flatMap (octets sha256) ++ tail).length ≤
      maxLedgerBytes) :
    prepare sha256 (header uidValidity ++ records.flatMap (octets sha256) ++ tail) =
      .ok (uidValidity, records.length) := by
  set file := header uidValidity ++ records.flatMap (octets sha256) ++ tail with hfile
  have hlength : file.length = headerLength + records.length * recordLength + tail.length := by
    rw [hfile, length_append, length_append, length_header, length_flatMap_octets]
  have hcount : (file.length - headerLength) / recordLength = records.length := by
    rw [hlength, add_assoc, Nat.add_sub_cancel_left]
    exact Nat.div_eq_of_lt_le (by omega) (by rw [Nat.succ_mul]; omega)
  have hslots : slots file records.length = records.map (octets sha256) :=
    slots_append (length_header uidValidity) records tail
  have hmagic : file.take 8 = magic := by
    rw [hfile, header]
    simp only [append_assoc]
    exact take_left' rfl
  have hvalidity : ofLe ((file.drop 8).take 4) = uidValidity := by
    rw [hfile, header]
    simp only [append_assoc]
    rw [drop_left' (show magic.length = 8 from rfl), take_left' (length_leBytes ..)]
    exact ofLe_leBytes hv
  have hlast : (slots file records.length).getLast?.any (decode sha256 · = none) = false := by
    rw [hslots, List.getLast?_map]
    cases h : records.getLast? with
    | none => rfl
    | some r => simp [decode_octets (hbound r (mem_of_getLast? h))]
  rw [prepare, if_neg (Nat.not_lt.2 hlen), if_neg (by omega), if_neg (by simpa using hmagic)]
  simp only [hcount, hlast, hvalidity, Bool.false_eq_true, if_false]

variable (sha256) in
/-- A ledger that can be appended to is as long as its file. -/
structure Ledger.Fits (l : Ledger) (uidValidity : ℕ) (file : Option (List UInt8)) : Prop where
  validity : l.uidValidity = uidValidity
  absent : l.present = false → l.records = []
  exact : l.writable → l.present →
    file = some (header uidValidity ++ l.records.flatMap (octets sha256))

lemma Holds.trim {f : List UInt8} {records : List Record}
    (h : Holds sha256 uidValidity (some f) records) :
    f.take (headerLength + records.length * recordLength) =
        header uidValidity ++ records.flatMap (octets sha256) ∧
      Holds sha256 uidValidity (some (f.take (headerLength + records.length * recordLength)))
        records := by
  obtain ⟨hlen, tail, rfl, -⟩ := h.content f rfl
  have htake : (header uidValidity ++ records.flatMap (octets sha256) ++ tail).take
      (headerLength + records.length * recordLength) =
        header uidValidity ++ records.flatMap (octets sha256) := by
    refine take_left' ?_
    rw [length_append, length_header, length_flatMap_octets]
  refine ⟨htake, h.sorted, h.bounded, nofun, fun f hf => ?_⟩
  obtain rfl := some.inj hf
  rw [htake]
  refine ⟨le_trans ?_ hlen, [], (append_nil _).symm, by decide⟩
  exact (sublist_append_left _ _).length_le

variable {mailbox : List Stored} {state : Option FolderState} {records : List Record}

lemma openLedger_spec (hv : uidValidity < 2 ^ 32) (hv0 : uidValidity ≠ 0) (writable : Bool) :
    let P : Disk → Prop := fun d =>
      d.mailbox = mailbox ∧ d.state = state ∧ Holds sha256 uidValidity d.ledger records
    Triple P (openLedger sha256 uidValidity writable)
      (fun l d => P d ∧ l.records = records ∧ l.writable = writable ∧ l.current = none ∧
        l.Fits sha256 uidValidity d.ledger)
      (fun e d => e = .state .io ∧ P d) P := by
  intro P
  rw [openLedger, if_neg hv0]
  refine .readThen (fun d hd => ⟨⟨rfl, hd⟩, hd⟩) fun file => ?_
  cases file with
  | none =>
    -- No file means no records.
    refine .pure fun d hd => ⟨hd.1, ?_, rfl, rfl, rfl, fun _ => rfl, nofun⟩
    exact (hd.1.2.2.missing hd.2.symm).symm
  | some f =>
    refine .assuming (p := Holds sha256 uidValidity (some f) records)
      (fun d hd => hd.2 ▸ hd.1.2.2) fun hf => ?_
    obtain ⟨hlen, tail, hfeq, htail⟩ := hf.content f rfl
    have hprepare : prepare sha256 f = .ok (uidValidity, records.length) := by
      rw [hfeq] at hlen ⊢
      exact prepare_header hv hf.bounded htail hlen
    have hverify : verify sha256 none (slots f records.length) = .ok records := by
      rw [hfeq, slots, slots_append (length_header uidValidity)]
      exact verify_octets hf.sorted hf.bounded nofun
    simp only [hprepare, hverify, Except.mapError, Prog.ofExcept, Prog.ret_bind, ne_eq,
      not_true_eq_false, if_false]
    -- What an append left behind the last whole record is cut off.
    obtain ⟨htake, htrim⟩ := hf.trim
    split_ifs with hcut
    · have hwrite : ∀ d, P d ∧ some f = d.ledger →
          P { d with
            ledger := d.ledger.map (·.take (headerLength + records.length * recordLength)) } :=
        fun d hd => ⟨hd.1.1, hd.1.2.1, by simpa [← hd.2] using htrim⟩
      refine .bind (R := fun _ d => P d ∧ d.ledger = some (header uidValidity ++
        records.flatMap (octets sha256))) (.replace (fun d hd => ⟨hwrite d hd, ?_⟩)
          (fun d hd => ⟨⟨rfl, hd.1⟩, hd.1⟩) fun d hd => ⟨⟨rfl, hwrite d hd⟩, hwrite d hd⟩) fun _ =>
            ?_
      · simp [← hd.2, htake]
      · exact .pure fun d hd => ⟨hd.1, rfl, rfl, rfl, rfl, nofun, fun _ _ => hd.2⟩
    · refine .pure fun d hd => ⟨hd.1, rfl, rfl, rfl, rfl, nofun, fun hw _ => ?_⟩
      have hwhole : f.length = headerLength + records.length * recordLength := by
        by_contra hne
        exact hcut ⟨hw, hne⟩
      rw [← hd.2, ← htake, take_of_length_le (le_of_eq hwhole)]

lemma lt_of_mem_dropWhile {last : ℕ} {new : List Record} (h : new.Pairwise (·.uid < ·.uid)) :
    ∀ r ∈ new.dropWhile (·.uid ≤ last), last < r.uid := by
  induction new with
  | nil => simp
  | cons x new ih =>
    obtain ⟨hx, hnew⟩ := pairwise_cons.1 h
    intro r hr
    by_cases hlast : x.uid ≤ last
    · rw [dropWhile_cons_of_pos (by simpa using hlast)] at hr
      exact ih hnew r hr
    · rw [dropWhile_cons_of_neg (by simpa using hlast)] at hr
      rcases mem_cons.1 hr with rfl | hr
      · exact Nat.lt_of_not_le hlast
      · exact Nat.lt_trans (Nat.lt_of_not_le hlast) (hx r hr)

lemma Ledger.le_last (h : l.records.Pairwise (·.uid < ·.uid)) :
    ∀ r ∈ l.records, r.uid ≤ l.last := by
  intro r hr
  obtain ⟨init, z, hz⟩ := eq_nil_or_concat' l.records |>.resolve_left (ne_nil_of_mem hr)
  rw [last, hz, List.getLast?_append_of_ne_nil _ (by simp)]
  rw [hz, pairwise_append] at h
  rw [hz] at hr
  rcases mem_append.1 hr with hr | hr
  · exact le_of_lt (h.2.2 r hr z (mem_singleton_self z))
  · simp [mem_singleton.1 hr]

lemma Ledger.exists_last (h : 0 < l.last) : ∃ r ∈ l.records, r.uid = l.last := by
  rw [last] at h ⊢
  cases hz : l.records.getLast? with
  | none => simp [hz] at h
  | some z => exact ⟨z, mem_of_getLast? hz, rfl⟩

lemma Holds.append {file : Option (List UInt8)} {added : List Record}
    (h : Holds sha256 uidValidity file records) (hsorted : added.Pairwise (·.uid < ·.uid))
    (hbound : ∀ r ∈ added, r.uid ≤ maxUid) (habove : ∀ r ∈ records, ∀ x ∈ added, r.uid < x.uid)
    (k : ℕ) {tail : List UInt8} (htail : tail.length < recordLength)
    (hlen : (header uidValidity ++ records.flatMap (octets sha256) ++
      ((added.take k).flatMap (octets sha256) ++ tail)).length ≤ maxLedgerBytes) :
    Holds sha256 uidValidity (some (header uidValidity ++ records.flatMap (octets sha256) ++
      ((added.take k).flatMap (octets sha256) ++ tail))) (records ++ added.take k) := by
  have hsub := take_sublist k added
  refine ⟨?_, ?_, nofun, fun f hf => ?_⟩
  · exact pairwise_append.2 ⟨h.sorted, hsorted.sublist hsub,
      fun r hr x hx => habove r hr x (hsub.subset hx)⟩
  · intro r hr
    exact (mem_append.1 hr).elim (h.bounded r) fun hr => hbound r (hsub.subset hr)
  · obtain rfl := some.inj hf
    exact ⟨hlen, tail, by simp, htail⟩

lemma Ledger.confirm_spec {new : List Record} (hsorted : new.Pairwise (·.uid < ·.uid))
    (hbound : ∀ r ∈ new, r.uid ≤ maxUid) :
    let added := if l.writable then new.dropWhile (·.uid ≤ l.last) else []
    let P : List Record → Disk → Prop := fun records d =>
      d.mailbox = mailbox ∧ d.state = state ∧ Holds sha256 uidValidity d.ledger records
    Triple (fun d => P l.records d ∧ l.Fits sha256 uidValidity d.ledger) (l.confirm sha256 new)
      (fun l' d => P l'.records d ∧ l'.Fits sha256 uidValidity d.ledger ∧
        l'.records = l.records ++ added ∧ l'.writable = l.writable ∧
        (l' = l ∨ l'.current = none))
      (fun _ d => ∃ k, P (l.records ++ added.take k) d)
      (fun d => ∃ k, P (l.records ++ added.take k) d) := by
  intro added P
  set file := header uidValidity ++ l.records.flatMap (octets sha256) with hdef
  have hbefore : ∀ d, P l.records d ∧ l.Fits sha256 uidValidity d.ledger →
      ∃ k, P (l.records ++ added.take k) d := fun d hd => ⟨0, by simpa using hd.1⟩
  have hsame : ∀ d, P l.records d ∧ l.Fits sha256 uidValidity d.ledger → added = [] →
      P l.records d ∧ l.Fits sha256 uidValidity d.ledger ∧ l.records = l.records ++ added ∧
        l.writable = l.writable ∧ (l = l ∨ l.current = none) :=
    fun d hd ha => ⟨hd.1, hd.2, by rw [ha, append_nil], rfl, .inl rfl⟩
  rw [Ledger.confirm]
  by_cases hnone : new = [] ∨ ¬l.writable
  · rw [if_pos hnone]
    refine .pure fun d hd => hsame d hd ?_
    rcases hnone with rfl | hw
    · simp [added]
    · simp [added, hw]
  rw [if_neg hnone, if_neg (not_not.2 hsorted.isChain)]
  obtain ⟨-, hw⟩ := not_or.1 hnone
  rw [not_not] at hw
  have hadded : added = new.dropWhile (·.uid ≤ l.last) := if_pos hw
  rw [← hadded]
  dsimp only
  split_ifs with hempty hlarge
  · exact .pure fun d hd => hsame d hd hempty
  · exact .fail hbefore
  have hsub : added.Sublist new := hadded ▸ dropWhile_sublist _
  have habove : ∀ r ∈ added, l.last < r.uid := hadded ▸ lt_of_mem_dropWhile hsorted
  -- The file from here on, by what is behind its records.
  have hgrow : ∀ d k tail, P l.records d → tail.length < recordLength →
      ((added.take k).flatMap (octets sha256) ++ tail).length ≤
        (added.flatMap (octets sha256)).length →
      P (l.records ++ added.take k) { d with ledger := some (file ++
          ((added.take k).flatMap (octets sha256) ++ tail)) } := by
    intro d k tail hd htail hle
    refine ⟨hd.1, hd.2.1, hd.2.2.append (hsorted.sublist hsub) (fun r hr =>
      hbound r (hsub.subset hr))
      (fun r hr x hx => lt_of_le_of_lt (le_last hd.2.2.sorted r hr) (habove x hx)) k htail ?_⟩
    rw [length_append, length_append, length_header, length_flatMap_octets]
    rw [length_flatMap_octets added] at hle
    have := Nat.le_of_not_lt hlarge
    rw [add_mul] at this
    omega
  -- The file is there before the append.
  have hwriter : Triple (fun d => P l.records d ∧ l.Fits sha256 uidValidity d.ledger) l.writer
      (fun l' d => P l.records d ∧ d.ledger = some file ∧ l'.records = l.records ∧
        l'.writable = l.writable ∧ l'.uidValidity = uidValidity ∧ l'.present)
      (fun _ d => ∃ k, P (l.records ++ added.take k) d)
      (fun d => ∃ k, P (l.records ++ added.take k) d) := by
    rw [writer]
    split_ifs with hpresent
    · exact .pure fun d hd => ⟨hd.1, hd.2.exact hw hpresent, rfl, rfl, hd.2.validity, hpresent⟩
    · have hcreate : ∀ d, P l.records d ∧ l.Fits sha256 uidValidity d.ledger →
          P l.records { d with ledger := some (header l.uidValidity) } ∧
            header l.uidValidity = file :=
        fun d hd => by
          have hnil := hd.2.absent (by simpa using hpresent)
          have := hgrow d 0 [] hd.1 (by decide) (by simp)
          simp only [hdef, hnil, hd.2.validity] at this ⊢
          simpa using this
      refine .bind (R := fun _ d => P l.records d ∧ l.uidValidity = uidValidity ∧
        d.ledger = some file)
        (.replace (fun d hd => ?_) (fun d hd => ⟨hbefore d hd, hbefore d hd⟩) fun d hd => ?_)
          fun _ => ?_
      · exact ⟨(hcreate d hd).1, hd.2.validity, congrArg some (hcreate d hd).2⟩
      · have : ∃ k,
          P (l.records ++ added.take k) { d with ledger := some (header l.uidValidity) } :=
          ⟨0, by simpa using (hcreate d hd).1⟩
        exact ⟨this, this⟩
      · exact .pure fun d hd => ⟨hd.1, hd.2.2, rfl, rfl, hd.2.1, rfl⟩
  refine .bind hwriter fun l' => ?_
  have hstop : ∀ d, P l.records d → ∃ k, P (l.records ++ added.take k) d :=
    fun d hd => ⟨0, by simpa using hd⟩
  refine .readThen (fun d hd => ⟨hstop d hd.1, hstop d hd.1⟩) fun length => ?_
  -- Nothing else appends to the file.
  refine .assuming (p := length = headerLength + l'.records.length * recordLength)
    (fun d hd => ?_) fun hlength => ?_
  · rw [hd.2, hd.1.2.1, hd.1.2.2.1, getD_some, length_append, length_header,
      length_flatMap_octets]
  rw [if_neg (not_not.2 hlength)]
  set body := added.flatMap (octets sha256) with hbody
  have hpart : ∀ d n, d.ledger = some file → P l.records d →
      ∃ k, P (l.records ++ added.take k)
        { d with ledger := d.ledger.map (· ++ body.take n) } := by
    intro d n hfile hd
    obtain ⟨k, tail, heq, htail⟩ := take_flatMap_octets added n
    rw [← hbody] at heq
    refine ⟨k, ?_⟩
    have hk := hgrow d k tail hd htail (by rw [← heq]; exact length_take_le' n _)
    rwa [hfile, map_some, heq]
  refine .bind (R := fun _ d => P (l.records ++ added) d ∧ d.ledger = some (header uidValidity ++
      (l.records ++ added).flatMap (octets sha256)) ∧ l'.records = l.records ∧
        l'.writable = l.writable ∧ l'.uidValidity = uidValidity ∧ l'.present)
    (.step (fun d hd => ?_) fun n d hd => ?_) fun _ => ?_
  · obtain ⟨⟨hP, hfile, hl⟩, -⟩ := hd
    have hall := hgrow d added.length [] hP (by decide) (by simp [hbody])
    rw [take_length, append_nil] at hall
    refine ⟨by simpa [hfile, hbody] using hall, by simp [hfile, hdef, hbody], hl⟩
  · have := hpart d n hd.1.2.1 hd.1.1
    exact ⟨this, this⟩
  · refine .pure fun d hd => ?_
    obtain ⟨hP, hfile, hrecords, hwritable, hvalid, hpresent⟩ := hd
    rw [hrecords]
    exact ⟨hP, ⟨hvalid, fun h => absurd (hpresent.symm.trans h) nofun, fun _ _ => hfile⟩, rfl,
      hwritable, .inr rfl⟩

end Holds

/-! ## Lookups in UID order -/

namespace Ledger

def Splits (records : List Record) (uid k : ℕ) : Prop :=
  ∀ i r, records[i]? = some r → (i < k → r.uid < uid) ∧ (k ≤ i → uid ≤ r.uid)

variable {records : List Record} {uid : ℕ} {l : Ledger}

lemma uid_lt_of_lt (h : records.Pairwise (·.uid < ·.uid)) {i j : ℕ} {a b : Record}
    (ha : records[i]? = some a) (hb : records[j]? = some b) (hij : i < j) : a.uid < b.uid := by
  obtain ⟨hi, rfl⟩ := List.getElem?_eq_some_iff.1 ha
  obtain ⟨hj, rfl⟩ := List.getElem?_eq_some_iff.1 hb
  exact pairwise_iff_getElem.1 h i j hi hj hij

lemma lowerBoundFrom_splits (h : records.Pairwise (·.uid < ·.uid)) {fuel low high : ℕ}
    (hle : low ≤ high) (hhigh : high ≤ records.length) (hfuel : high - low ≤ fuel)
    (hbelow : ∀ i r, records[i]? = some r → i < low → r.uid < uid)
    (habove : ∀ i r, records[i]? = some r → high ≤ i → uid ≤ r.uid) :
    Splits records uid (lowerBoundFrom records uid fuel low high) := by
  induction fuel generalizing low high with
  | zero =>
    obtain rfl : low = high := by omega
    exact fun i r hr => ⟨hbelow i r hr, habove i r hr⟩
  | succ fuel ih =>
    rw [lowerBoundFrom]
    by_cases hlt : low < high
    · rw [if_pos hlt]
      have hmiddle : low + (high - low) / 2 < records.length := by omega
      obtain ⟨m, hm⟩ : ∃ m, records[low + (high - low) / 2]? = some m :=
        ⟨_, List.getElem?_eq_getElem hmiddle⟩
      simp only [hm, any_some, decide_eq_true_eq]
      split_ifs with hmid
      · -- What is before the middle is below it.
        refine ih (by omega) hhigh (by omega) (fun i r hr hi => ?_) habove
        rcases Nat.lt_or_eq_of_le (Nat.le_of_lt_succ hi) with hi | rfl
        · exact lt_trans (uid_lt_of_lt h hr hm hi) hmid
        · exact some.inj (hr.symm.trans hm) ▸ hmid
      · refine ih (by omega) (by omega) (by omega) hbelow fun i r hr hi => ?_
        rcases Nat.lt_or_eq_of_le hi with hi | rfl
        · exact Nat.le_trans (Nat.le_of_not_lt hmid) (Nat.le_of_lt (uid_lt_of_lt h hm hr hi))
        · exact some.inj (hr.symm.trans hm) ▸ Nat.le_of_not_lt hmid
    · obtain rfl : low = high := by omega
      rw [if_neg hlt]
      exact fun i r hr => ⟨hbelow i r hr, habove i r hr⟩

/-- The cursor is on a record, or nowhere, and what is before it is below the UIDs asked for from
now on. -/
def Cursor (l : Ledger) (uid : ℕ) : Prop :=
  l.current.isSome → l.current = l.records[l.at]? ∧
    ∀ i r, l.records[i]? = some r → i < l.at → r.uid < uid

lemma Cursor.mono {p q : ℕ} (h : l.Cursor p) (hpq : p ≤ q) : l.Cursor q :=
  fun hsome => ⟨(h hsome).1, fun i r hr hi => lt_of_lt_of_le ((h hsome).2 i r hr hi) hpq⟩

lemma cursor_of_current_none (h : l.current = none) (uid : ℕ) : l.Cursor uid :=
  fun hsome => by simp [h] at hsome

lemma walk_spec (n : ℕ) (h : l.Cursor uid) :
    (walk uid n l).records = l.records ∧ (walk uid n l).writable = l.writable ∧
      (walk uid n l).uidValidity = l.uidValidity ∧ (walk uid n l).present = l.present ∧
      (l.current.isSome → (walk uid n l).current = l.records[(walk uid n l).at]? ∧
        ∀ i r, l.records[i]? = some r → i < (walk uid n l).at → r.uid < uid) := by
  induction n generalizing l with
  | zero => exact ⟨rfl, rfl, rfl, rfl, h⟩
  | succ n ih =>
    rw [walk]
    split_ifs with hlt
    · obtain ⟨c, hc, hcuid⟩ : ∃ c, l.current = some c ∧ c.uid < uid := by
        simpa [Option.any_eq_true] using hlt
      obtain ⟨hcur, hbefore⟩ := h (by simp [hc])
      -- One record further, the one left behind is below the UID.
      have hnext : ∀ i r, l.records[i]? = some r → i < l.at + 1 → r.uid < uid := by
        intro i r hr hi
        rcases Nat.lt_or_eq_of_le (Nat.le_of_lt_succ hi) with hi | rfl
        · exact hbefore i r hr hi
        · exact some.inj ((hc.symm.trans hcur).trans hr) ▸ hcuid
      obtain ⟨h₁, h₂, h₃, h₄, h₅⟩ := ih (l := l.load (l.at + 1)) fun _ => ⟨rfl, hnext⟩
      refine ⟨h₁, h₂, h₃, h₄, fun _ => ?_⟩
      by_cases hsome : (l.load (l.at + 1)).current.isSome
      · exact h₅ hsome
      · -- Past the end the walk stays where it is.
        have hnone : (l.load (l.at + 1)).current = none := by simpa using hsome
        have hstay : walk uid n (l.load (l.at + 1)) = l.load (l.at + 1) := by
          cases n with
          | zero => rfl
          | succ n => rw [walk, hnone]; rfl
        rw [hstay]
        exact ⟨rfl, hnext⟩
    · exact ⟨rfl, rfl, rfl, rfl, h⟩

lemma splits_of_current (h : records.Pairwise (·.uid < ·.uid)) {k : ℕ}
    (hbefore : ∀ i r, records[i]? = some r → i < k → r.uid < uid)
    (hat : ∀ c, records[k]? = some c → uid ≤ c.uid) : Splits records uid k := by
  refine fun i r hr => ⟨hbefore i r hr, fun hi => ?_⟩
  rcases Nat.lt_or_eq_of_le hi with hi | rfl
  · -- Below the end there is a record at the cursor.
    obtain ⟨c, hc⟩ : ∃ c, records[k]? = some c :=
      ⟨_, List.getElem?_eq_getElem (lt_trans hi (List.getElem?_eq_some_iff.1 hr).1)⟩
    exact le_trans (hat c hc) (le_of_lt (uid_lt_of_lt h hc hr hi))
  · exact hat r hr

/-- The cursor has been moved to where a UID splits the records. -/
structure Sought (l : Ledger) (uid : ℕ) (l' : Ledger) : Prop where
  records : l'.records = l.records
  writable : l'.writable = l.writable
  uidValidity : l'.uidValidity = l.uidValidity
  present : l'.present = l.present
  current : l'.current = l.records[l'.at]?
  splits : Splits l.records uid l'.at

lemma seek_spec (hsorted : l.records.Pairwise (·.uid < ·.uid)) (h : l.Cursor uid) :
    l.Sought uid (l.seek uid) := by
  have hsearch : Splits l.records uid (l.lowerBound uid) :=
    lowerBoundFrom_splits hsorted (Nat.zero_le _) (Nat.le_refl _) (Nat.le_refl _) (by simp)
      fun i r hr hi => absurd (List.getElem?_eq_some_iff.1 hr).1 (Nat.not_lt.2 hi)
  cases hc : l.current with
  | none =>
    have hseek : l.seek uid = l.load (l.lowerBound uid) := by simp [seek, hc]
    rw [hseek]
    exact ⟨rfl, rfl, rfl, rfl, rfl, hsearch⟩
  | some c =>
    by_cases hhere : uid ≤ c.uid
    · have hseek : l.seek uid = l := by simp [seek, hc, hhere]
      obtain ⟨hcur, hbefore⟩ := h (by simp [hc])
      rw [hseek]
      refine ⟨rfl, rfl, rfl, rfl, hcur, splits_of_current hsorted hbefore fun d hd => ?_⟩
      exact some.inj ((hc.symm.trans hcur).trans hd) ▸ hhere
    obtain ⟨h₁, h₂, h₃, h₄, h₅⟩ := walk_spec near h
    obtain ⟨hcur, hbefore⟩ := h₅ (by simp [hc])
    cases hw : (walk uid near l).current with
    | none =>
      have hseek : l.seek uid = walk uid near l := by simp [seek, hc, hhere, hw]
      rw [hseek]
      refine ⟨h₁, h₂, h₃, h₄, hcur, splits_of_current hsorted hbefore fun d hd => ?_⟩
      exact absurd (hw.symm.trans (hcur.trans hd)) nofun
    | some d =>
      by_cases hlt : uid ≤ d.uid
      · have hseek : l.seek uid = walk uid near l := by simp [seek, hc, hhere, hw, hlt]
        rw [hseek]
        refine ⟨h₁, h₂, h₃, h₄, hcur, splits_of_current hsorted hbefore fun x hx => ?_⟩
        exact some.inj ((hw.symm.trans hcur).trans hx) ▸ hlt
      · -- Too far to walk.
        have hseek : l.seek uid = (walk uid near l).load ((walk uid near l).lowerBound uid) := by
          simp [seek, hc, hhere, hw, hlt]
        have hsame : (walk uid near l).lowerBound uid = l.lowerBound uid := by
          rw [lowerBound, lowerBound, h₁]
        rw [hseek, hsame]
        exact ⟨h₁, h₂, h₃, h₄, by rw [load, h₁], hsearch⟩

lemma fingerprint_spec {p : ℕ} (hsorted : l.records.Pairwise (·.uid < ·.uid)) (h : l.Cursor p)
    (hp : p ≤ uid) :
    (∀ f, (l.fingerprint uid).1 = some f ↔ ⟨uid, f⟩ ∈ l.records) ∧
      (l.fingerprint uid).2.records = l.records ∧ (l.fingerprint uid).2.writable = l.writable ∧
      (l.fingerprint uid).2.uidValidity = l.uidValidity ∧
      (l.fingerprint uid).2.present = l.present ∧ (l.fingerprint uid).2.Cursor uid := by
  have h := h.mono hp
  rw [fingerprint]
  split_ifs with hempty hlast
  · exact ⟨by simp [hempty], rfl, rfl, rfl, rfl, h⟩
  · refine ⟨fun f => ⟨nofun, fun hin => ?_⟩, rfl, rfl, rfl, rfl, cursor_of_current_none rfl uid⟩
    exact absurd (le_last hsorted _ hin) (Nat.not_le.2 hlast)
  · obtain ⟨h₁, h₂, h₃, h₄, hcur, hsplit⟩ := seek_spec hsorted h
    refine ⟨fun f => ?_, h₁, h₂, h₃, h₄, fun _ => ⟨by rw [hcur, h₁], fun i r hr hi => ?_⟩⟩
    · simp only [hcur, map_eq_some_iff, filter_eq_some_iff, decide_eq_true_eq]
      constructor
      · rintro ⟨r, ⟨hr, rfl⟩, rfl⟩
        exact mem_of_getElem? hr
      · intro hin
        -- A record with the UID is where the records split.
        obtain ⟨i, hi⟩ := mem_iff_getElem?.1 hin
        obtain ⟨hbelow, habove⟩ := hsplit i _ hi
        have hle : (l.seek uid).at ≤ i := Nat.le_of_not_lt fun hlt => Nat.lt_irrefl _ (hbelow hlt)
        rcases Nat.lt_or_eq_of_le hle with hlt | heq
        · obtain ⟨c, hc⟩ : ∃ c, l.records[(l.seek uid).at]? = some c :=
            ⟨_, List.getElem?_eq_getElem (lt_trans hlt (List.getElem?_eq_some_iff.1 hi).1)⟩
          exact absurd (uid_lt_of_lt hsorted hc hi hlt)
            (Nat.not_lt.2 ((hsplit _ c hc).2 (le_refl _)))
        · exact ⟨_, ⟨heq ▸ hi, rfl⟩, rfl⟩
    · rw [h₁] at hr
      exact (hsplit i r hr).1 hi

def lookups (l : Ledger) : List ℕ → List (Option Digest)
  | [] => []
  | uid :: uids => (l.fingerprint uid).1 :: (l.fingerprint uid).2.lookups uids

lemma lookups_spec {p : ℕ} {uids : List ℕ} (hsorted : l.records.Pairwise (·.uid < ·.uid))
    (h : l.Cursor p) (hp : ∀ uid ∈ uids, p ≤ uid) (huids : uids.Pairwise (· ≤ ·)) :
    Forall₂ (fun uid answer => ∀ f, answer = some f ↔ ⟨uid, f⟩ ∈ l.records) uids
      (l.lookups uids) := by
  induction uids generalizing l p with
  | nil => exact .nil
  | cons uid uids ih =>
    obtain ⟨hle, huids⟩ := pairwise_cons.1 huids
    obtain ⟨hanswer, hrecords, -, -, -, hcursor⟩ :=
      fingerprint_spec hsorted h (hp uid mem_cons_self)
    refine .cons hanswer ?_
    simpa only [hrecords] using ih (hrecords ▸ hsorted) hcursor hle huids

/-- A ledger that was just opened, or took in new records, answers any lookups in UID order with
what it holds. -/
theorem lookups_exact (l : Ledger) (hsorted : l.records.Pairwise (·.uid < ·.uid))
    (hcurrent : l.current = none) {uids : List ℕ} (huids : uids.Pairwise (· ≤ ·)) :
    Forall₂ (fun uid answer => ∀ f, answer = some f ↔ ⟨uid, f⟩ ∈ l.records) uids
      (l.lookups uids) :=
  lookups_spec hsorted (cursor_of_current_none hcurrent 0) (fun _ _ => Nat.zero_le _) huids

/-- Lookups of two records, between them and behind them. -/
theorem lookups_exact_gap :
    let f : Digest := ⟨replicate 32 0, rfl⟩
    let l : Ledger := ⟨true, true, 7, [⟨1, f⟩, ⟨4, f⟩], 0, none⟩
    Forall₂ (fun uid answer => ∀ f, answer = some f ↔ ⟨uid, f⟩ ∈ l.records) [1, 2, 4, 9]
      (l.lookups [1, 2, 4, 9]) :=
  lookups_exact _ (by simp) rfl (by decide)

end Ledger

end Epistle.Migrate
