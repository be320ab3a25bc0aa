import Epistle.Evidence.Record
import Epistle.Lib.HashChain

/-!
# Walking a day of the evidence

A day file is read a line at a time (`evidence/lines`) and every line is held to what follows the
line before it (`evidence/verify`): the canonical form, the hash, the sequence number, the time and
the day. An operator may have acknowledged lines that break the chain; the walk goes on past them.

* `walkDay_unique`: where it ends decides the file.
-/

namespace Epistle.Evidence

open Lib Lib.Fallible Lib.HashChain List Option

/-! ## Days -/

/-- The day of a time. -/
def dayOfEpoch (epoch : ℕ) : ℕ := min epoch (2 ^ 63 - 1) / 86400

/-! ## Lines -/

/-- One line of a day file. -/
inductive Line
  | complete (octets : List UInt8)
  | tooLong
  | torn (octets : List UInt8)
  deriving DecidableEq, Repr

/-- The next line of a file, and what is behind it. -/
def nextLine (octets : List UInt8) : Option (Line × List UInt8) :=
  if octets = [] then none
  else
    let read := octets.take (maxLine + 2)
    let line := read.takeWhile (· ≠ lf)
    if line.length < read.length then
      some (if maxLine < line.length then .tooLong else .complete line,
        octets.drop (line.length + 1))
    else if maxLine < line.length then
      some (.tooLong, ((octets.drop read.length).dropWhile (· ≠ lf)).drop 1)
    else some (.torn line, octets.drop read.length)

def linesFrom : ℕ → List UInt8 → List Line
  | 0, _ => []
  | fuel + 1, octets =>
      match nextLine octets with
      | none => []
      | some (line, rest) => line :: linesFrom fuel rest

/-- The lines of a file. -/
def lines (octets : List UInt8) : List Line := linesFrom octets.length octets

/-! ## The walk -/

/-- What can be wrong with the evidence. -/
inductive Problem
  | unchained (expected found : List Char)
  | malformed (why : List Char)
  | tooLong
  | torn
  | unreadable (why : List Char)
  deriving DecidableEq, Repr

/-- Where and how the evidence stops verifying. -/
structure Break where
  day : ℕ
  line : ℕ
  problem : Problem
  deriving DecidableEq, Repr

/-- The result of walking one day, with the records that were visited. -/
structure DayWalk (E : Type) where
  records : ℕ
  firstPrev : Digest
  last : Position
  visited : List (ℕ × Record E × Digest)

/-- A walk between two lines. -/
structure Walk (E : Type) where
  expected : Option Position
  firstPrev : Option Digest
  last : Option Position
  records : ℕ
  visited : List (ℕ × Record E × Digest)

section

variable {E : Type} (codec : Codec E) (sha256 : List UInt8 → Digest)

/-- Whether a record follows a position. -/
def checkFollows (record : Record E) (prev : Digest) (expected : Position) :
    Except Problem Unit :=
  if prev ≠ expected.hash then .error (.unchained (toHex expected.hash.1) record.prev)
  else if record.seq ≠ expected.seq + 1 then
    .error (.malformed ("sequence ".toList ++ Nat.toDigits 10 record.seq ++ " follows ".toList ++
      Nat.toDigits 10 expected.seq))
  else if record.time < expected.time then .error (.malformed "the time goes backwards".toList)
  else .ok ()

/-- Read a line as a record. -/
def readRecord (day : ℕ) (octets : List UInt8) : Except Problem (Record E × Digest) :=
  match Record.parseCanonical codec octets with
  | .error why => .error (.malformed why)
  | .ok record =>
      match hashFromHex record.prev with
      | none => .error (.malformed "prev is not a SHA-256".toList)
      | some prev =>
          if dayOfEpoch record.time ≠ day then
            .error (.malformed "the record's time is not in this day".toList)
          else .ok (record, prev)

/-- A walk takes a record that was checked. -/
def Walk.visit (w : Walk E) (number : ℕ) (octets : List UInt8) (record : Record E) (prev : Digest) :
    Walk E :=
  let position := record.position sha256 octets
  { expected := some position
    firstPrev := w.firstPrev.orElse fun _ => some prev
    last := some position
    records := w.records + 1
    visited := w.visited ++ [(number, record, position.hash)] }

/-- One line. An acknowledged one that is no record starts the chain again behind it; one that is a
record is itself the new start. -/
def Walk.line (day : ℕ) (accepted : List ℕ) (w : Walk E) (number : ℕ) (line : Line) :
    Except Break (Walk E) :=
  let skip := number ∈ accepted
  let refuse (problem : Problem) : Except Break (Walk E) :=
    if skip then .ok { w with expected := none } else .error ⟨day, number, problem⟩
  match line with
  | .tooLong => refuse .tooLong
  | .torn _ => refuse .torn
  | .complete octets =>
      if w.records = maxRecordsPerDay then
        .error ⟨day, number, .malformed "more records than any day may hold".toList⟩
      else
        match readRecord codec day octets with
        | .error problem => refuse problem
        | .ok (record, prev) =>
            match w.expected.filter fun _ => !skip with
            | none => .ok (w.visit sha256 number octets record prev)
            | some expected =>
                match checkFollows record prev expected with
                | .error problem => .error ⟨day, number, problem⟩
                | .ok () => .ok (w.visit sha256 number octets record prev)

/-- Check the lines of a day one after the other. -/
def Walk.lines (day : ℕ) (accepted : List ℕ) : Walk E → ℕ → List Line → Except Break (Walk E)
  | w, _, [] => .ok w
  | w, number, line :: rest => do
      let w ← w.line codec sha256 day accepted number line
      w.lines day accepted (number + 1) rest

/-- Check a day, going on past the lines that an operator accepted. -/
def walkDayAccepting (day : ℕ) (expected : Option Position) (accepted : List ℕ)
    (file : Option (List UInt8)) : Except Break (DayWalk E) :=
  match file with
  | none => .error ⟨day, 0, .unreadable "entity not found".toList⟩
  | some octets => do
      let w ← Walk.lines codec sha256 day accepted ⟨expected, none, none, 0, []⟩ 1 (lines octets)
      match w.firstPrev, w.last with
      | some firstPrev, some last => return ⟨w.records, firstPrev, last, w.visited⟩
      | _, _ => .error ⟨day, 0, .malformed "empty day file".toList⟩

/-- Check a day. -/
def walkDay (day : ℕ) (expected : Option Position) (file : Option (List UInt8)) :
    Except Break (DayWalk E) :=
  walkDayAccepting codec sha256 day expected [] file

/-! ## What a walk finds -/

def Links (p : Position) (x : ℕ × List UInt8) (q : Position) : Prop :=
  ∃ record, readRecord codec x.1 x.2 = .ok (record, p.hash) ∧ record.seq = p.seq + 1 ∧
    p.time ≤ record.time ∧ q = record.position sha256 x.2

/-- Lines of days that link one after the other, from one position to another. -/
inductive Linked : Position → List (ℕ × List UInt8) → Position → Prop
  | nil (p : Position) : Linked p [] p
  | cons {p q r : Position} {x : ℕ × List UInt8} {xs : List (ℕ × List UInt8)}
      (link : Links codec sha256 p x q) (rest : Linked q xs r) : Linked p (x :: xs) r

/-- The hash a line of a day names. -/
def prevOf (x : ℕ × List UInt8) : Option Digest :=
  match readRecord codec x.1 x.2 with
  | .error _ => none
  | .ok (_, prev) => some prev

end

variable {E : Type} {codec : Codec E} {sha256 : List UInt8 → Digest}

variable {day : ℕ} {octets l rest : List UInt8} {p : Position}

open Prod

namespace Linked

variable {p q r : Position} {xs ys : List (ℕ × List UInt8)}

lemma seq_eq (h : Linked codec sha256 p xs q) : q.seq = p.seq + xs.length := by
  induction h with
  | nil => rfl
  | @cons p _ _ x _ link _ ih =>
    obtain ⟨record, -, hseq, -, rfl⟩ := link
    have hq : (record.position sha256 x.2).seq = p.seq + 1 := hseq
    rw [ih, length_cons, hq]
    omega

lemma follows (h : Linked codec sha256 p xs q) :
    Follows (fun x : ℕ × List UInt8 => sha256 x.2) (prevOf codec) p.hash xs q.hash := by
  induction h with
  | nil p => exact .nil p.hash
  | cons link _ ih =>
    obtain ⟨record, hread, -, -, rfl⟩ := link
    exact .cons (by rw [prevOf, hread]) ih

end Linked

/-! ## Lines of a file -/

def IsLine (octets : List UInt8) : Prop := lf ∉ octets ∧ octets.length ≤ maxLine

/-- Lines as they are written. -/
def join (ls : List (List UInt8)) : List UInt8 := ls.flatMap (· ++ [lf])

lemma takeWhile_line (h : lf ∉ l) (rest : List UInt8) :
    (l ++ lf :: rest).takeWhile (· ≠ lf) = l := by
  have hall : ∀ b ∈ l, decide (b ≠ lf) = true := by
    intro b hb
    exact decide_eq_true fun heq => h (heq ▸ hb)
  rw [takeWhile_append_of_pos hall]
  simp

lemma nextLine_line (h : IsLine l) (rest : List UInt8) :
    nextLine (l ++ lf :: rest) = some (.complete l, rest) := by
  obtain ⟨hlf, hlength⟩ := h
  have hread : (l ++ lf :: rest).take (maxLine + 2) =
      l ++ lf :: rest.take (maxLine + 1 - l.length) := by
    rw [take_append, take_of_length_le (by omega),
      show maxLine + 2 - l.length = maxLine + 1 - l.length + 1 by omega, take_succ_cons]
  have hdrop : (l ++ lf :: rest).drop (l.length + 1) = rest := by
    rw [append_cons, drop_left' (by simp)]
  rw [nextLine, if_neg (by simp)]
  dsimp only
  rw [hread, takeWhile_line hlf, if_pos (by simp), if_neg (by omega), hdrop]

lemma nextLine_eq_complete (h : nextLine octets = some (.complete l, rest)) :
    octets = l ++ lf :: rest ∧ IsLine l := by
  unfold nextLine at h
  split_ifs at h with hempty
  dsimp only at h
  split_ifs at h with hfound hlong hlong'
  · cases h
  · -- The line stops at a line feed, since it is shorter than what was read.
    have hmem : lf ∈ octets.take (maxLine + 2) := by
      by_contra hnone
      have hall : (octets.take (maxLine + 2)).takeWhile (· ≠ lf) = octets.take (maxLine + 2) :=
        takeWhile_eq_self_iff.2 fun b hb => decide_eq_true fun heq => hnone (heq ▸ hb)
      rw [hall] at hfound
      exact Nat.lt_irrefl _ hfound
    obtain ⟨line, more, hread, hline⟩ := eq_append_cons_of_mem hmem
    rw [hread, takeWhile_line hline] at h hlong
    obtain ⟨hl, hrest⟩ := mk.inj (some.inj h)
    obtain rfl := Line.complete.inj hl
    have hoctets : octets = line ++ lf :: (more ++ octets.drop (maxLine + 2)) := by
      conv_lhs => rw [← take_append_drop (maxLine + 2) octets, hread]
      simp
    refine ⟨?_, hline, Nat.not_lt.1 hlong⟩
    have hdrop : octets.drop (line.length + 1) = more ++ octets.drop (maxLine + 2) := by
      conv_lhs => rw [hoctets, append_cons]
      exact drop_left' (by simp)
    rw [← hrest, hdrop]
    exact hoctets
  · cases h
  · cases h

lemma nextLine_length_lt {line : Line} (h : nextLine octets = some (line, rest)) :
    rest.length < octets.length := by
  unfold nextLine at h
  split_ifs at h with hempty
  have hpos := length_pos_of_ne_nil hempty
  have hread : (octets.take (maxLine + 2)).length = min (maxLine + 2) octets.length :=
    length_take
  have hdrop : ∀ n, (octets.drop (n + 1)).length < octets.length := by
    intro n
    rw [length_drop]
    omega
  dsimp only at h
  split_ifs at h with hfound hlong hlong'
  · obtain ⟨-, rfl⟩ := mk.inj (some.inj h)
    exact hdrop _
  · obtain ⟨-, rfl⟩ := mk.inj (some.inj h)
    exact hdrop _
  · obtain ⟨-, rfl⟩ := mk.inj (some.inj h)
    refine lt_of_le_of_lt ((drop_sublist ..).length_le.trans
      (dropWhile_sublist _).length_le) ?_
    rw [length_drop]
    omega
  · obtain ⟨-, rfl⟩ := mk.inj (some.inj h)
    rw [length_drop]
    omega

lemma linesFrom_eq {fuel : ℕ} (h : octets.length ≤ fuel) :
    linesFrom fuel octets = lines octets := by
  suffices ∀ n m (octets : List UInt8), octets.length ≤ n → octets.length ≤ m →
      linesFrom n octets = linesFrom m octets from this _ _ octets h le_rfl
  intro n
  induction n with
  | zero =>
    intro m octets hn hm
    obtain rfl := length_eq_zero_iff.1 (Nat.le_zero.1 hn)
    cases m <;> rfl
  | succ n ih =>
    intro m octets hn hm
    cases hnext : nextLine octets with
    | none => cases m <;> simp [linesFrom, hnext]
    | some next =>
      obtain ⟨line, rest⟩ := next
      have hlt := nextLine_length_lt hnext
      obtain ⟨m, rfl⟩ : ∃ k, m = k + 1 := ⟨m - 1, by omega⟩
      simp only [linesFrom, hnext]
      rw [ih m rest (by omega) (by omega)]

lemma lines_cons {line : Line} (h : nextLine octets = some (line, rest)) :
    lines octets = line :: lines rest := by
  have hlt := nextLine_length_lt h
  obtain ⟨n, hn⟩ : ∃ n, octets.length = n + 1 := ⟨octets.length - 1, by omega⟩
  rw [lines, hn, linesFrom, h]
  dsimp only
  rw [linesFrom_eq (by omega)]

lemma exists_nextLine (h : octets ≠ []) : ∃ line rest, nextLine octets = some (line, rest) := by
  unfold nextLine
  rw [if_neg h]
  dsimp only
  split_ifs <;> exact ⟨_, _, rfl⟩

lemma lines_complete {ls : List (List UInt8)} :
    lines octets = ls.map .complete ↔ octets = join ls ∧ ∀ l ∈ ls, IsLine l := by
  induction ls generalizing octets with
  | nil =>
    constructor
    · intro h
      refine ⟨by_contra fun hne => ?_, by simp⟩
      obtain ⟨line, rest, hnext⟩ := exists_nextLine (show octets ≠ [] from hne)
      rw [lines_cons hnext] at h
      cases h
    · rintro ⟨rfl, -⟩
      rfl
  | cons l ls ih =>
    constructor
    · intro h
      have hne : octets ≠ [] := by
        rintro rfl
        cases h
      obtain ⟨line, rest, hnext⟩ := exists_nextLine hne
      rw [lines_cons hnext, map_cons] at h
      obtain ⟨rfl, hrest⟩ := List.cons.inj h
      obtain ⟨rfl, hl⟩ := nextLine_eq_complete hnext
      obtain ⟨rfl, hls⟩ := ih.1 hrest
      exact ⟨by simp [join], forall_mem_cons.2 ⟨hl, hls⟩⟩
    · rintro ⟨rfl, hall⟩
      obtain ⟨hl, hls⟩ := forall_mem_cons.1 hall
      have hjoin : join (l :: ls) = l ++ lf :: join ls := by simp [join]
      rw [hjoin, lines_cons (nextLine_line hl _), ih.2 ⟨rfl, hls⟩, map_cons]

/-! ## Walks that succeed -/

lemma checkFollows_eq_ok {record : Record E} {prev : Digest} :
    checkFollows record prev p = .ok () ↔
      prev = p.hash ∧ record.seq = p.seq + 1 ∧ p.time ≤ record.time := by
  unfold checkFollows
  split_ifs with hprev hseq htime
  · simp [hprev]
  · simp [hseq]
  · simp [htime]
  · simpa using ⟨not_not.1 hprev, not_not.1 hseq, Nat.not_lt.1 htime⟩

lemma Walk.line_eq_ok {number : ℕ} {w w' : Walk E} {line : Line} (hp : w.expected = some p) :
    w.line codec sha256 day [] number line = .ok w' ↔
      ∃ octets record, line = .complete octets ∧ w.records ≠ maxRecordsPerDay ∧
        readRecord codec day octets = .ok (record, p.hash) ∧ record.seq = p.seq + 1 ∧
        p.time ≤ record.time ∧ w' = w.visit sha256 number octets record p.hash := by
  cases line with
  | tooLong | torn octets => simp [Walk.line]
  | complete octets =>
    by_cases hfull : w.records = maxRecordsPerDay
    · simp [Walk.line, hfull]
    · cases hread : readRecord codec day octets with
      | error problem => simp [Walk.line, hfull, hread]
      | ok pair =>
        obtain ⟨record, prev⟩ := pair
        have hline : w.line codec sha256 day [] number (.complete octets) =
            match checkFollows record prev p with
            | .error problem => .error ⟨day, number, problem⟩
            | .ok () => .ok (w.visit sha256 number octets record prev) := by
          simp [Walk.line, hfull, hread, hp, Option.filter]
        rw [hline]
        constructor
        · intro h
          split at h
          · cases h
          · rename_i hcheck
            obtain ⟨rfl, hseq, htime⟩ := checkFollows_eq_ok.1 hcheck
            exact ⟨octets, record, rfl, hfull, hread, hseq, htime, (Except.ok.inj h).symm⟩
        · rintro ⟨octets', record', hoctets, -, hread', hseq, htime, rfl⟩
          obtain rfl := Line.complete.inj hoctets
          obtain ⟨rfl, rfl⟩ := Prod.mk.inj (Except.ok.inj (hread.symm.trans hread'))
          rw [checkFollows_eq_ok.2 ⟨rfl, hseq, htime⟩]

lemma Walk.lines_eq_ok {number : ℕ} {w w' : Walk E} {ls : List Line} (hp : w.expected = some p)
    (h : w.lines codec sha256 day [] number ls = .ok w') :
    ∃ (octets : List (List UInt8)) (q : Position), ls = octets.map .complete ∧
      Linked codec sha256 p (octets.map (day, ·)) q ∧
      w'.last = if octets = [] then w.last else some q := by
  induction ls generalizing w number p with
  | nil =>
    obtain rfl := Except.ok.inj h
    exact ⟨[], p, rfl, .nil p, rfl⟩
  | cons line ls ih =>
    obtain ⟨w₁, hline, hrest⟩ := bind_eq_ok.1 h
    obtain ⟨octets, record, rfl, -, hread, hseq, htime, rfl⟩ := (Walk.line_eq_ok hp).1 hline
    obtain ⟨more, q, rfl, hlinked, hlast⟩ := ih rfl hrest
    refine ⟨octets :: more, q, rfl, .cons ⟨record, hread, hseq, htime, rfl⟩ hlinked, ?_⟩
    rw [hlast, if_neg (cons_ne_nil _ _)]
    split_ifs with hmore
    · subst hmore
      cases hlinked
      rfl
    · rfl

lemma walkDay_eq_ok {walk : DayWalk E}
    (h : walkDay codec sha256 day (some p) (some octets) = .ok walk) :
    ∃ ls : List (List UInt8), octets = join ls ∧ (∀ l ∈ ls, IsLine l) ∧
      lines octets = ls.map .complete ∧ Linked codec sha256 p (ls.map (day, ·)) walk.last := by
  obtain ⟨w, hw, hfinish⟩ := bind_eq_ok.1 h
  obtain ⟨ls, q, hlines, hlinked, hlast⟩ := Walk.lines_eq_ok rfl hw
  obtain ⟨hjoin, hall⟩ := lines_complete.1 hlines
  refine ⟨ls, hjoin, hall, hlines, ?_⟩
  split at hfinish
  · rename_i firstPrev last _ hlast'
    obtain rfl := Except.ok.inj hfinish
    rw [hlast] at hlast'
    split_ifs at hlast' with hne
    obtain rfl := some.inj hlast'
    exact hlinked
  · cases hfinish

/-- Two files of a day that walks from one position take to one other position have the same lines,
and so the same octets, unless the hashes of two of their lines collide. -/
theorem walkDay_unique (codec : Codec E) (sha256 : List UInt8 → Digest) (day : ℕ) (start : Position)
    (a b : List UInt8) (walk walk' : DayWalk E)
    (ha : walkDay codec sha256 day (some start) (some a) = .ok walk)
    (hb : walkDay codec sha256 day (some start) (some b) = .ok walk')
    (hlast : walk.last = walk'.last)
    (hfree : ∀ x y, .complete x ∈ lines a → .complete y ∈ lines b → sha256 x = sha256 y → x = y) :
    lines a = lines b ∧ a = b := by
  obtain ⟨ls, rfl, -, hls, hlinked⟩ := walkDay_eq_ok ha
  obtain ⟨ms, rfl, -, hms, hlinked'⟩ := walkDay_eq_ok hb
  rw [← hlast] at hlinked'
  -- The sequence numbers fix how many lines there are.
  have hlength : (ls.map (day, ·)).length = (ms.map (day, ·)).length := by
    have := hlinked.seq_eq.symm.trans hlinked'.seq_eq
    omega
  have hsame : ls.map (day, ·) = ms.map (day, ·) := by
    refine hlinked.follows.unique hlinked'.follows hlength fun x hx y hy hxy => ?_
    obtain ⟨l, hl, rfl⟩ := List.mem_map.1 hx
    obtain ⟨m, hm, rfl⟩ := List.mem_map.1 hy
    rw [hfree l m (hls ▸ List.mem_map_of_mem hl) (hms ▸ List.mem_map_of_mem hm) hxy]
  obtain rfl : ls = ms := map_injective_iff.2 (fun x y h => (mk.inj h).2) hsame
  exact ⟨rfl, rfl⟩

def twoSettings : List (List UInt8 × String) :=
  let line (seq : ℕ) (prev : String) (time : ℕ) :=
    settingCodec.toVec ⟨formatVersion, seq, prev.toList, time, ()⟩
  let first := line 1 "0000000000000000000000000000000000000000000000000000000000000000" 10
  let hash := "0178e6ecb3e86653f06cd6c499ca2c430158b2c5ea3a1daceeca1d48824bdb5e"
  [(first, hash),
    (line 2 hash 20, "9b626696f07d260dcccc645b88fbbc6c4cf287ead4f2ec9e5200da34537795f5")]

/-- A day of two settings. -/
theorem walkDay_unique_two_settings :
    let day := join (twoSettings.map fst)
    ∃ walk, walkDay settingCodec (hashTable twoSettings) 0 (some .start) (some day) = .ok walk ∧
      walk.records = 2 ∧ (lines day = lines day ∧ day = day) := by
  intro day
  have hwalk :
    (walkDay settingCodec (hashTable twoSettings) 0 (some .start) (some day)).toOption.any
      (·.records = 2) := by
    decide +kernel
  cases h : walkDay settingCodec (hashTable twoSettings) 0 (some .start) (some day) with
  | error e => simp [h, Except.toOption] at hwalk
  | ok walk =>
    refine ⟨walk, rfl, by simpa [h, Except.toOption] using hwalk, ?_⟩
    refine walkDay_unique settingCodec (hashTable twoSettings) 0 .start day day walk walk h h rfl ?_
    have hlines : lines day = (twoSettings.map fst).map .complete := by decide +kernel
    have hfree : ∀ x ∈ twoSettings.map fst, ∀ y ∈ twoSettings.map fst,
        hashTable twoSettings x = hashTable twoSettings y → x = y := by
      decide +kernel
    intro x y hx hy
    rw [hlines] at hx hy
    exact hfree x (by simpa using hx) y (by simpa using hy)

end Epistle.Evidence
