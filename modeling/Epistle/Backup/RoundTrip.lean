import Epistle.Backup.Header
import Epistle.Lib.Fields

/-!
# Reading a backup back

An archive that was written is read back as the same entries if and only if every size fits the
eleven octal digits of its header field. Reading ends for every string of octets, with entries or
with an error.

* `readEntries_tar_iff`: when an archive is read back.
-/

namespace Epistle.Backup

open Lib Lib.Block Lib.Fallible List Option

/-! ## The length of a PAX record -/

lemma length_toDigits_mono {a b : ℕ} (h : a ≤ b) :
    (Nat.toDigits 10 a).length ≤ (Nat.toDigits 10 b).length :=
  (Nat.length_toDigits_le_iff (by decide) Nat.length_toDigits_pos).2
    (h.trans_lt ((Nat.length_toDigits_le_iff (by decide) Nat.length_toDigits_pos).1 le_rfl))

lemma searchLength_spec {body rounds : ℕ} (h : 3 ≤ rounds) :
    ∃ length, searchLength body rounds body = some length ∧
      length = body + (Nat.toDigits 10 length).length := by
  obtain ⟨rounds, rfl⟩ := Nat.exists_eq_add_of_le' h
  set k := (Nat.toDigits 10 body).length with hk
  have hpos : 0 < k := Nat.length_toDigits_pos
  have hbody : body < 10 ^ k := (Nat.length_toDigits_le_iff (by decide) hpos).1 le_rfl
  -- Adding the digits, and one more, adds at most one digit.
  have hnext : ∀ length, body ≤ length → length ≤ body + k + 1 →
      k ≤ (Nat.toDigits 10 length).length ∧ (Nat.toDigits 10 length).length ≤ k + 1 := by
    intro length hlow hhigh
    refine ⟨length_toDigits_mono hlow, (Nat.length_toDigits_le_iff (by decide) (by omega)).2 ?_⟩
    have hlt : k < 10 ^ k := Nat.lt_pow_self (by decide)
    rw [Nat.pow_succ]
    omega
  have hfirst := hnext (body + k) (by omega) (by omega)
  have hsecond := hnext (body + k + 1) (by omega) (by omega)
  rw [searchLength]
  simp only [← hk]
  rw [if_neg (by omega), searchLength]
  by_cases hdone : (Nat.toDigits 10 (body + k)).length = k
  · exact ⟨body + k, if_pos (by omega), by omega⟩
  · have hmore : (Nat.toDigits 10 (body + k)).length = k + 1 := by omega
    have hlast : (Nat.toDigits 10 (body + k + 1)).length = k + 1 := by
      have hmono := length_toDigits_mono (Nat.le_add_right (body + k) 1)
      omega
    rw [if_neg (by omega), hmore, ← Nat.add_assoc, searchLength]
    exact ⟨body + k + 1, if_pos (by omega), by omega⟩

open Utf8

lemma length_encode_toDigits (n : ℕ) :
    (encode (Nat.toDigits 10 n)).length = (Nat.toDigits 10 n).length := by
  rw [encode_of_ascii, length_map]
  intro c hc
  exact Radix.toNat_lt_of_isDigit (by decide)
    (Radix.isDigit_of_mem_toDigits (by decide) (by decide) hc)

/-- What follows the length in a record. -/
def paxBody (key value : List Char) : List UInt8 :=
  encode (' ' :: key ++ '=' :: value ++ ['\n'])

lemma paxBody_eq (key value : List Char) :
    paxBody key value = 32 :: (encode key ++ 61 :: (encode value ++ [10])) := by
  have hspace : String.utf8EncodeChar ' ' = [32] := rfl
  have hequals : String.utf8EncodeChar '=' = [61] := rfl
  have hfeed : String.utf8EncodeChar '\n' = [10] := rfl
  simp [paxBody, encode, hspace, hequals, hfeed]

lemma paxRecord_spec (key value : List Char) :
    ∃ record, paxRecord key value = some record ∧
      record = encode (Nat.toDigits 10 record.length) ++ paxBody key value := by
  have htwo : 2 ≤ (paxBody key value).length := by
    rw [paxBody_eq]
    simp only [length_cons, length_append]
    omega
  obtain ⟨length, hsearch, hlength⟩ :=
    @searchLength_spec (paxBody key value).length _ (Nat.succ_le_succ htwo)
  refine ⟨encode (Nat.toDigits 10 length) ++ paxBody key value, ?_, ?_⟩
  · exact bind_eq_some_iff.2 ⟨length, hsearch, rfl⟩
  · rw [length_append, length_encode_toDigits, Nat.add_comm, ← hlength]

/-! ## Reading always ends -/

section Returns

variable {α β : Type}

def Returns (r : Except Fault α) : Prop := r ≠ .error .panic ∧ r ≠ .error .unfinished

lemma Returns.ok (a : α) : Returns (Except.ok a : Except Fault α) :=
  ⟨nofun, nofun⟩

lemma Returns.error (why : ArchiveError) : Returns (.error (.error why) : Except Fault α) :=
  ⟨nofun, nofun⟩

lemma Returns.bind {x : Except Fault α} {f : α → Except Fault β} (hx : Returns x)
    (hf : ∀ a, x = .ok a → Returns (f a)) : Returns (x >>= f) := by
  cases x with
  | ok a => exact hf a rfl
  | error fault =>
    cases fault with
    | error why => exact Returns.error why
    | panic => exact absurd rfl hx.1
    | unfinished => exact absurd rfl hx.2

end Returns

lemma octal_returns (field : List UInt8) (what : HeaderField) : Returns (octal field what) := by
  unfold octal
  split
  · exact .ok _
  · exact .error _

lemma paxValue_returns (record : List UInt8) (path : Option (List Char)) :
    Returns (paxValue record path) := by
  unfold paxValue
  split
  · split
    · exact .ok _
    · exact .error _
  · exact .ok _

variable {rounds : ℕ} {rest name data : List UInt8} {long : Option (List Char)} {out : List Entry}
  {mode : UInt32}

lemma paxPath_returns {records : List UInt8} {path : Option (List Char)}
    (h : records.length < rounds) : Returns (paxPath rounds records path) := by
  induction rounds generalizing records path with
  | zero => omega
  | succ rounds ih =>
    rw [paxPath]
    split
    · exact .ok _
    · split
      · exact .error _
      · split
        · exact .error _
        · split
          · exact .error _
          · rename_i space _ _ length _ _ record hrecord
            obtain ⟨whole, hwhole, -⟩ := bind_eq_some_iff.1 hrecord
            -- The range of the record is in order, so what follows it is in range.
            have hrange : space + 1 ≤ length ∧ length ≤ records.length := by
              unfold slice? at hwhole
              split_ifs at hwhole with hrange
              exact hrange
            have hrest : slice? records length records.length =
                some (slice records length records.length) := if_pos ⟨hrange.2, le_rfl⟩
            refine (paxValue_returns record path).bind fun value _ => ?_
            rw [hrest]
            refine ih ?_
            rw [length_slice le_rfl]
            omega

lemma nextMember_returns (rest : List UInt8) : Returns (nextMember rest) := by
  unfold nextMember
  dsimp only
  split
  · exact .error _
  · split
    · exact .ok _
    · split
      · exact .error _
      · refine (octal_returns _ _).bind fun sum _ => ?_
        split
        · exact .error _
        · refine (octal_returns _ _).bind fun size _ => ?_
          split
          · exact .error _
          · exact .ok _

lemma nextMember_total {found : Member} (h : nextMember rest = .ok (some found)) :
    (rest.drop found.total).length < rest.length := by
  unfold nextMember at h
  dsimp only at h
  by_cases hshort : rest.length < blockLen
  · rw [if_pos hshort] at h
    cases h
  · rw [if_neg hshort] at h
    split_ifs at h with hzero hmagic
    · cases Except.ok.inj h
    · obtain ⟨sum, -, h⟩ := bind_eq_ok.1 h
      split_ifs at h with hsum
      obtain ⟨size, -, h⟩ := bind_eq_ok.1 h
      split at h
      · cases h
      · obtain rfl := some.inj (Except.ok.inj h)
        have hpos : 0 < blockLen := by decide
        rw [length_drop]
        exact Nat.sub_lt (by omega) (Nat.add_pos_left hpos _)

lemma readFrom_returns (h : rest.length < rounds) : Returns (readFrom rounds rest long out) := by
  induction rounds generalizing rest long out with
  | zero => omega
  | succ rounds ih =>
    rw [readFrom]
    refine (nextMember_returns rest).bind fun next hnext => ?_
    cases next with
    | none => exact .ok _
    | some found =>
      have hless := nextMember_total hnext
      dsimp only
      split
      · exact (octal_returns _ _).bind fun mode _ => ih (by omega)
      · split
        · exact (paxPath_returns (Nat.lt_succ_self _)).bind fun path _ => ih (by omega)
        · split
          · exact ih (by omega)
          · split
            · exact ih (by omega)
            · exact .error _

lemma readEntries_returns (bytes : List UInt8) : Returns (readEntries bytes) :=
  readFrom_returns (Nat.lt_succ_self _)

/-! ## One member after the other -/

lemma readFrom_congr {rounds' : ℕ} (h : rest.length < rounds) (h' : rest.length < rounds') :
    readFrom rounds rest long out = readFrom rounds' rest long out := by
  induction rounds generalizing rounds' rest long out with
  | zero => omega
  | succ rounds ih =>
    obtain ⟨rounds', rfl⟩ := Nat.exists_eq_succ_of_ne_zero (Nat.ne_zero_of_lt h')
    rw [readFrom, readFrom]
    cases hnext : nextMember rest with
    | error fault => rfl
    | ok next =>
      cases next with
      | none => rfl
      | some found =>
        have hless := nextMember_total hnext
        have hrest : ∀ long out, readFrom rounds (rest.drop found.total) long out =
            readFrom rounds' (rest.drop found.total) long out := fun long out =>
          ih (by omega) (by omega)
        simp only [ok_bind, hrest]

def read (rest : List UInt8) (long : Option (List Char)) (out : List Entry) :
    Except Fault (List Entry) :=
  readFrom (rest.length + 1) rest long out

def readMember (found : Member) (rest : List UInt8) (long : Option (List Char))
    (out : List Entry) : Except Fault (List Entry) :=
  let kind := found.header.getD 156 0
  if kind = regular ∨ kind = 0 then do
    let mode ← octal (slice found.header 100 108) .mode
    read rest none (out ++ [⟨long.getD (headerName found.header), UInt32.ofNat mode, found.data⟩])
  else if kind = extended then do
    let path ← paxPath (found.data.length + 1) found.data none
    read rest (path.or long) out
  else if kind = longName then read rest (some (fieldText found.data)) out
  else if kind = 103 ∨ kind = 53 then read rest long out
  else .error (.error (.notRegular kind))

lemma read_eq (rest : List UInt8) (long : Option (List Char)) (out : List Entry) :
    read rest long out =
      match nextMember rest with
      | .error fault => .error fault
      | .ok none => .ok out
      | .ok (some found) => readMember found (rest.drop found.total) long out := by
  rw [read, readFrom]
  cases hnext : nextMember rest with
  | error fault => rfl
  | ok next =>
    cases next with
    | none => rfl
    | some found =>
      have hless := nextMember_total hnext
      have hrest : ∀ long out, readFrom rest.length (rest.drop found.total) long out =
          read (rest.drop found.total) long out := fun long out =>
        readFrom_congr hless (Nat.lt_succ_self _)
      simp only [ok_bind, hrest]
      rfl

lemma out_prefix_of_read {r : List Entry} (h : read rest long out = .ok r) : out <+: r := by
  induction hn : rest.length using Nat.strongRecOn generalizing rest long out with
  | ind n ih =>
    rw [read_eq] at h
    cases hnext : nextMember rest with
    | error fault =>
      rw [hnext] at h
      cases h
    | ok next =>
      rw [hnext] at h
      cases next with
      | none =>
        obtain rfl := Except.ok.inj h
        exact prefix_refl _
      | some found =>
        have hless := nextMember_total hnext
        have hrest := fun long out => @ih _ (hn ▸ hless) (rest.drop found.total) long out
        simp only [readMember] at h
        split_ifs at h
        · obtain ⟨mode, -, h⟩ := bind_eq_ok.1 h
          exact (prefix_append ..).trans (hrest _ _ h rfl)
        · obtain ⟨path, -, h⟩ := bind_eq_ok.1 h
          exact hrest _ _ h rfl
        · exact hrest _ _ h rfl
        · exact hrest _ _ h rfl

/-! ## Reading what was written -/

lemma length_member {header data : List UInt8} (h : header.length = blockLen) :
    (member header data).length = blockLen + (data.length + 511) / blockLen * blockLen := by
  simp only [member, length_append, length_replicate, h, blockLen]
  omega

lemma nextMember_member {kind : UInt8} (rest : List UInt8) :
    nextMember (member (header name mode data.length kind) data ++ rest) =
      .ok (some ⟨header name mode data.length kind, data.take (cutSize data.length),
        blockLen + (cutSize data.length + 511) / blockLen * blockLen⟩) := by
  have hcut : cutSize data.length ≤ data.length := by
    obtain h | h := lt_or_ge data.length (8 ^ 11)
    · exact (cutSize_eq h).le
    · exact (cutSize_lt _).le.trans h
  have hparts : member (header name mode data.length kind) data ++ rest =
      header name mode data.length kind ++ (data ++
        (List.replicate ((blockLen - data.length % blockLen) % blockLen) 0 ++ rest)) := by
    simp [member]
  rw [hparts, nextMember_header, if_pos (by rw [length_append]; omega),
    take_append_of_le_length (by omega)]

lemma read_member {kind : UInt8} (rest : List UInt8) (long : Option (List Char))
    (out : List Entry) (h : data.length < 8 ^ 11) :
    read (member (header name mode data.length kind) data ++ rest) long out =
      readMember ⟨header name mode data.length kind, data,
        (member (header name mode data.length kind) data).length⟩ rest long out := by
  have hlen := @length_member _ data (@length_header name mode data.length kind)
  rw [read_eq, nextMember_member, cutSize_eq h, ← hlen, take_length]
  simp only [drop_left]

lemma read_member_cut {kind : UInt8} :
    read (member (header name mode data.length kind) data ++ rest) long out =
      readMember ⟨header name mode data.length kind, data.take (cutSize data.length),
        blockLen + (cutSize data.length + 511) / blockLen * blockLen⟩
        ((member (header name mode data.length kind) data ++ rest).drop
          (blockLen + (cutSize data.length + 511) / blockLen * blockLen)) long out := by
  rw [read_eq, nextMember_member]

lemma readMember_regular {size total : ℕ} (rest : List UInt8) (long : Option (List Char))
    (out : List Entry) :
    readMember ⟨header name mode size regular, data, total⟩ rest long out =
      read rest none (out ++ [⟨long.getD (headerName (header name mode size regular)),
        mode &&& 0o7777, data⟩]) := by
  simp only [readMember, getD_header, true_or, if_true, octal_mode, ok_bind]
  rw [UInt32.ofNat_toNat]

lemma readMember_extended {size total : ℕ} (rest : List UInt8) (long : Option (List Char))
    (out : List Entry) :
    readMember ⟨header name mode size extended, data, total⟩ rest long out =
      (paxPath (data.length + 1) data none >>= fun path => read rest (path.or long) out) := by
  have hkind : ¬ (extended = regular ∨ extended = 0) := by decide
  simp only [readMember, getD_header, if_neg hkind, if_true]

section Pax

variable {record : List UInt8} {name : List Char}

lemma findIdx_space {digits tail : List UInt8} (h : ∀ b ∈ digits, b ≠ 32) :
    (digits ++ 32 :: tail).findIdx? (· = 32) = some digits.length := by
  rw [List.findIdx?_append, List.findIdx?_eq_none_iff.2 (by simpa using h), List.findIdx?_cons]
  simp

lemma ne_space_of_mem_toDigits {n : ℕ} : ∀ b ∈ encode (Nat.toDigits 10 n), b ≠ 32 := by
  rintro b hb rfl
  have hspace := ascii_mem_encode hb (by decide)
  exact absurd (Radix.isDigit_of_mem_toDigits (by decide) (by decide) hspace) (by decide)

def paxText (name : List Char) : List UInt8 := encode ("path=".toList ++ name)

lemma paxBody_path (name : List Char) :
    paxBody "path".toList name = 32 :: (paxText name ++ [10]) := by
  have hpath : encode "path=".toList = encode "path".toList ++ [61] := by decide
  rw [paxBody_eq, paxText, encode_append, hpath]
  simp

lemma paxValue_text (name : List Char) (path : Option (List Char)) :
    paxValue (paxText name) path = .ok (some name) := by
  have hpath : encode "path=".toList <+: paxText name := by
    rw [paxText, encode_append]
    exact prefix_append ..
  have hdrop : (paxText name).drop 5 = encode name := by
    rw [paxText, encode_append]
    rfl
  rw [paxValue, if_pos hpath, hdrop, decode_encode]

lemma paxPath_record (hrecord : record = encode (Nat.toDigits 10 record.length) ++
      paxBody "path".toList name) (hlen : record.length < 2 ^ 64) :
    paxPath (record.length + 1) record none = .ok (some name) := by
  rw [paxBody_path] at hrecord
  set digits := encode (Nat.toDigits 10 record.length) with hdigits
  have hne : record ≠ [] := by
    rw [hrecord]
    simp
  have hspace : record.findIdx? (· = 32) = some digits.length := by
    rw [hrecord]
    exact findIdx_space ne_space_of_mem_toDigits
  have hlength : (decode (record.take digits.length)).bind (Text.parseUnsigned (2 ^ 64)) =
      some record.length := by
    have htake : record.take digits.length = digits := by
      conv_lhs => rw [hrecord]
      exact take_left
    rw [htake, hdigits, decode_encode, bind_some, Text.parseUnsigned_toDigits hlen]
  have htext : (slice? record (digits.length + 1) record.length).bind stripFeed =
      some (paxText name) := by
    have hle : digits.length + 1 ≤ record.length := by
      conv_rhs => rw [hrecord]
      simp
    have hdrop : slice record (digits.length + 1) record.length = paxText name ++ [10] := by
      rw [slice, take_length]
      conv_lhs => rw [hrecord]
      rw [append_cons, drop_left' (by simp)]
    rw [slice?, if_pos ⟨hle, le_rfl⟩, bind_some, hdrop, stripFeed, if_pos (by simp),
      dropLast_concat]
  have hrest : slice? record record.length record.length = some [] := by
    rw [slice?, if_pos ⟨le_rfl, le_rfl⟩, slice, take_length, drop_length]
  -- One round reads the record, and the next finds nothing left.
  obtain ⟨rounds, hrounds⟩ : ∃ rounds, record.length = rounds + 1 :=
    Nat.exists_eq_succ_of_ne_zero (length_pos_of_ne_nil hne).ne'
  have hdone : paxPath record.length [] (some name) = .ok (some name) := by
    rw [hrounds, paxPath, if_pos rfl]
  simp only [paxPath, if_neg hne, hspace, hlength, htext, paxValue_text, ok_bind, hrest, hdone]

lemma paxPath_take {v : ℕ} (hrecord : record = encode (Nat.toDigits 10 record.length) ++
      paxBody "path".toList name) (hpos : 0 < v) (hlt : v < record.length) (rounds : ℕ) :
    paxPath (rounds + 1) (record.take v) none = .error (.error .malformedPax) := by
  rw [paxBody_path] at hrecord
  set digits := encode (Nat.toDigits 10 record.length) with hdigits
  have hlen : (record.take v).length = v := length_take_of_le hlt.le
  have hne : record.take v ≠ [] := ne_nil_of_length_pos (by omega)
  rw [paxPath, if_neg hne]
  by_cases hshort : v ≤ digits.length
  · -- The cut is in the digits, and no space is left.
    have hnone : (record.take v).findIdx? (· = 32) = none := by
      rw [List.findIdx?_eq_none_iff]
      intro b hb
      have hmem : b ∈ digits := by
        rw [hrecord, take_append_of_le_length hshort] at hb
        exact mem_of_mem_take hb
      simpa using ne_space_of_mem_toDigits b hmem
    rw [hnone]
  · -- The length is read, and is more than there is.
    obtain ⟨k, rfl⟩ := Nat.exists_eq_add_of_lt (Nat.not_le.1 hshort)
    have hsplit : record.take (digits.length + k + 1) =
        digits ++ 32 :: (paxText name ++ [10]).take k := by
      conv_lhs => rw [hrecord]
      rw [Nat.add_assoc, take_length_add_append, take_succ_cons]
    have hspace : (record.take (digits.length + k + 1)).findIdx? (· = 32) =
        some digits.length := by
      rw [hsplit]
      exact findIdx_space ne_space_of_mem_toDigits
    have hdecode : decode ((record.take (digits.length + k + 1)).take digits.length) =
        some (Nat.toDigits 10 record.length) := by
      rw [hsplit, take_left, hdigits, decode_encode]
    simp only [hspace, hdecode, bind_some,
      Text.parseUnsigned_digits (Text.digits_toDigits record.length), filter_some]
    have hnone : slice? (record.take (digits.length + k + 1)) (digits.length + 1) record.length =
        none := by
      refine if_neg fun hrange => ?_
      omega
    by_cases hfits : record.length < 2 ^ 64
    · simp only [if_pos (decide_eq_true hfits), hnone, bind_none]
    · simp only [decide_eq_false hfits, Bool.false_eq_true, if_false]

end Pax

/-! ## Entries -/

def Entry.masked (entry : Entry) : Entry := { entry with mode := entry.mode &&& 0o7777 }

/-- The sizes of an entry, and of the record with its name, fit eleven octal digits. -/
structure Entry.Sized (entry : Entry) : Prop where
  data : entry.data.length < 8 ^ 11
  record : nameField < (encode entry.name).length →
    ∀ record ∈ paxRecord "path".toList entry.name, record.length < 8 ^ 11

lemma writeEntry_cases (entry : Entry) :
    ((encode entry.name).length ≤ nameField ∧ writeEntry entry =
      some (member (header (encode entry.name) entry.mode entry.data.length regular)
        entry.data)) ∨
    ∃ record, nameField < (encode entry.name).length ∧
      paxRecord "path".toList entry.name = some record ∧
      record = encode (Nat.toDigits 10 record.length) ++ paxBody "path".toList entry.name ∧
      writeEntry entry =
        some (member (header (encode ("PaxHeaders/".toList ++ entry.name)) 0o644 record.length
            extended) record ++
          member (header (encode entry.name) entry.mode entry.data.length regular)
            entry.data) := by
  by_cases hlong : nameField < (encode entry.name).length
  · obtain ⟨record, hrecord, hself⟩ := paxRecord_spec "path".toList entry.name
    refine .inr ⟨record, hlong, hrecord, hself, ?_⟩
    simp only [writeEntry, if_pos hlong, hrecord]
    rfl
  · refine .inl ⟨Nat.not_lt.1 hlong, ?_⟩
    simp only [writeEntry, if_neg hlong]
    rfl

lemma read_writeEntry {entry : Entry} {bytes : List UInt8} (hnul : '\x00' ∉ entry.name)
    (hsized : entry.Sized) (h : writeEntry entry = some bytes) (rest : List UInt8)
    (out : List Entry) :
    read (bytes ++ rest) none out = read rest none (out ++ [entry.masked]) := by
  obtain ⟨hshort, hwrite⟩ | ⟨record, hlong, hrecord, hself, hwrite⟩ := writeEntry_cases entry
  · rw [some.inj (h.symm.trans hwrite), read_member rest none out hsized.data,
      readMember_regular, getD_none, headerName_header hshort hnul, Entry.masked]
  · have hlen := hsized.record hlong record hrecord
    rw [some.inj (h.symm.trans hwrite), append_assoc, read_member _ none out hlen,
      readMember_extended, paxPath_record hself (hlen.trans (by decide)), ok_bind, some_or,
      read_member rest _ out hsized.data, readMember_regular, getD_some, Entry.masked]

lemma read_writeEntry_of_not_sized {entry : Entry} {bytes : List UInt8} (hsized : ¬ entry.Sized)
    (h : writeEntry entry = some bytes) {r : List Entry}
    (hread : read (bytes ++ rest) none out = .ok r) :
    ∃ other, out ++ [other] <+: r ∧ other.data.length ≠ entry.data.length := by
  -- A file whose data is too long is cut.
  have hfile : ∀ {long : Option (List Char)}, ¬ entry.data.length < 8 ^ 11 →
      read (member (header (encode entry.name) entry.mode entry.data.length regular)
        entry.data ++ rest) long out = .ok r →
      ∃ other, out ++ [other] <+: r ∧ other.data.length ≠ entry.data.length := by
    intro long hdata hread
    have hcut := cutSize_lt entry.data.length
    rw [read_member_cut, readMember_regular] at hread
    refine ⟨_, out_prefix_of_read hread, ?_⟩
    dsimp only
    rw [length_take]
    omega
  obtain ⟨hshort, hwrite⟩ | ⟨record, hlong, hrecord, hself, hwrite⟩ := writeEntry_cases entry
  · rw [some.inj (h.symm.trans hwrite)] at hread
    refine hfile (fun hdata => hsized ⟨hdata, fun hlong => ?_⟩) hread
    exact absurd hlong (Nat.not_lt.2 hshort)
  · rw [some.inj (h.symm.trans hwrite), append_assoc] at hread
    by_cases hlen : record.length < 8 ^ 11
    · rw [read_member _ none out hlen, readMember_extended,
        paxPath_record hself (hlen.trans (by decide)), ok_bind, some_or] at hread
      refine hfile (fun hdata => hsized ⟨hdata, fun _ record' hrecord' => ?_⟩) hread
      rwa [some.inj (hrecord'.symm.trans hrecord)]
    · -- The record is cut, and refused.
      have hcut := cutSize_lt record.length
      rw [read_member_cut, readMember_extended,
        paxPath_take hself (cutSize_pos hlen) (by omega)] at hread
      cases hread

/-! ## Archives -/

lemma read_endMarker (out : List Entry) : read endMarker none out = .ok out := by
  have hzero : (endMarker.take blockLen).all (· = 0) = true := by
    refine List.all_eq_true.2 fun b hb => decide_eq_true ?_
    exact eq_of_mem_replicate (mem_of_mem_take hb)
  have hlen : ¬ endMarker.length < blockLen := by
    rw [endMarker, length_replicate]
    decide
  have hnext : nextMember endMarker = .ok none := by
    rw [nextMember, if_neg hlen]
    exact if_pos hzero
  rw [read_eq, hnext]

lemma exists_mapM_writeEntry (entries : List Entry) :
    ∃ members, entries.mapM writeEntry = some members := by
  refine isSome_iff_exists.1 (isSome_mapM.2 fun entry _ => ?_)
  obtain ⟨-, hwrite⟩ | ⟨record, -, -, -, hwrite⟩ := writeEntry_cases entry <;> rw [hwrite] <;> rfl

lemma tar_eq {entries : List Entry} {members : List (List UInt8)}
    (h : entries.mapM writeEntry = some members) :
    tar entries = some (members.flatten ++ endMarker) :=
  bind_eq_some_iff.2 ⟨members, h, rfl⟩

lemma read_members_iff {entries : List Entry} {members : List (List UInt8)}
    (hnul : ∀ entry ∈ entries, '\x00' ∉ entry.name) (h : entries.mapM writeEntry = some members)
    (out : List Entry) :
    read (members.flatten ++ endMarker) none out = .ok (out ++ entries.map Entry.masked) ↔
      ∀ entry ∈ entries, entry.Sized := by
  induction entries generalizing members out with
  | nil =>
    obtain rfl : [] = members := by simpa using h
    simpa using read_endMarker out
  | cons entry entries ih =>
    obtain ⟨hname, hnames⟩ := forall_mem_cons.1 hnul
    simp only [mapM_cons, bind_eq_bind, bind_eq_some_iff, Option.pure_def,
      some.injEq] at h
    obtain ⟨bytes, hbytes, members, hmembers, rfl⟩ := h
    rw [flatten_cons, append_assoc, forall_mem_cons, map_cons]
    by_cases hsized : entry.Sized
    · rw [read_writeEntry hname hsized hbytes, append_cons out _ (entries.map Entry.masked),
        ih hnames hmembers]
      exact (and_iff_right hsized).symm
    · refine iff_of_false (fun hread => ?_) (fun hall => hsized hall.1)
      obtain ⟨other, hother, hne⟩ := read_writeEntry_of_not_sized hsized hbytes hread
      rw [prefix_append_right_inj, cons_prefix_cons] at hother
      exact hne (hother.1 ▸ rfl)

/-- An archive is read back, with each mode masked, if and only if all sizes fit their fields. The
length that is searched for a PAX record is that of the record, for every name, and reading ends for
every string of octets. -/
theorem readEntries_tar_iff {entries : List Entry}
    (hnul : ∀ entry ∈ entries, '\x00' ∉ entry.name) :
    (∃ bytes, tar entries = some bytes ∧
      (readEntries bytes = .ok (entries.map Entry.masked) ↔ ∀ entry ∈ entries, entry.Sized)) ∧
    (∀ name, ∃ record, paxRecord "path".toList name = some record ∧
      record = encode (Nat.toDigits 10 record.length) ++ paxBody "path".toList name) ∧
    ∀ bytes, Returns (readEntries bytes) := by
  obtain ⟨members, hmembers⟩ := exists_mapM_writeEntry entries
  exact ⟨⟨_, tar_eq hmembers, read_members_iff hnul hmembers []⟩, paxRecord_spec _,
    readEntries_returns⟩

def smallEntry : Entry := ⟨['a'], 0o100644, [1, 2, 3]⟩

/-- An entry whose name does not fit the field of a header. -/
def longEntry : Entry := ⟨List.replicate 101 'a', 0o100600, [4]⟩

/-- Two entries, the second of them behind a pax header. -/
theorem readEntries_tar_iff_small :
    (∃ bytes, tar [smallEntry, longEntry] = some bytes ∧
      (readEntries bytes = .ok ([smallEntry, longEntry].map Entry.masked) ↔
        ∀ entry ∈ [smallEntry, longEntry], entry.Sized)) ∧
    (∀ name, ∃ record, paxRecord "path".toList name = some record ∧
      record = encode (Nat.toDigits 10 record.length) ++ paxBody "path".toList name) ∧
    ∀ bytes, Returns (readEntries bytes) :=
  readEntries_tar_iff (by simp [smallEntry, longEntry])

/-- A file of eight gibibytes. -/
def hugeEntry : Entry := ⟨['a'], 0o644, List.replicate (8 ^ 11) 0⟩

/-- A file of eight gibibytes is written without an error, and is not read back. -/
theorem huge_entry_is_lost :
    ∃ bytes, tar [hugeEntry] = some bytes ∧ readEntries bytes ≠ .ok [hugeEntry.masked] := by
  obtain ⟨members, hmembers⟩ := exists_mapM_writeEntry [hugeEntry]
  refine ⟨members.flatten ++ endMarker, tar_eq hmembers, fun hread => ?_⟩
  have hname : hugeEntry.name = ['a'] := rfl
  have hnul : ∀ entry ∈ [hugeEntry], '\x00' ∉ entry.name := by
    intro entry hentry
    rw [mem_singleton.1 hentry, hname]
    decide
  have hsized := (read_members_iff hnul hmembers []).1 hread hugeEntry (mem_singleton_self _)
  have hlen : hugeEntry.data.length = 8 ^ 11 := length_replicate
  exact absurd hsized.data (Nat.not_lt.2 hlen.ge)

end Epistle.Backup
