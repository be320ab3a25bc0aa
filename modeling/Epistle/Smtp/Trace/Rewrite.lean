import Epistle.Lib.Compact
import Epistle.Smtp.Trace.Field

/-!
# Rewriting a header block in place

The two rewriters of `smtp/trace`. One copies the lines it keeps and the body into a new buffer. The
other first notes where the lines it keeps are, moves them down inside the buffer, moves the body
behind them, in one piece or in two, and cuts the buffer off. A predicate on field names says which
fields are kept; it may have a state, as one that keeps the first field of each name has.

* `rewriteHeaderBlockInPlace_eq`: the two leave the same octets.
-/

namespace Epistle.Smtp.Trace

open Lib Lib.Compact Lib.Lines List

section Rewrite

variable {σ : Type} (keep : σ → List UInt8 → Bool × σ)

/-- Whether a field is dropped. -/
def dropsField (st : σ) (line : List UInt8) : Bool × σ :=
  match fieldName line with
  | some name => (!(keep st name).1, (keep st name).2)
  | none => (false, st)

def dropsLine (dropping : Bool) (st : σ) (line : List UInt8) : Bool × σ :=
  if isContinuation line then (dropping, st) else dropsField keep st line

def keepLines (dropping : Bool) (st : σ) : List (List UInt8) → List UInt8 × σ
  | [] => ([], st)
  | line :: rest =>
      let (dropping, st) := dropsLine keep dropping st line
      let (out, st) := keepLines dropping st rest
      (if dropping then out else line ++ out, st)

/-- The message with the fields that are kept, in a buffer of its own. -/
def rewriteHeaderBlock (st : σ) (data : List UInt8) : List UInt8 × σ :=
  let headerEnd := headerBlockEnd data
  let (out, st) := keepLines keep false st (splitInclusive lf (data.take headerEnd))
  (out ++ data.drop headerEnd, st)

/-! ## In place -/

structure Kept where
  offset : ℕ
  length : ℕ

def Kept.line (data : List UInt8) (kept : Kept) : List UInt8 := slice data kept.offset kept.length

/-- Where the line at a place ends. -/
def scanLine (data : List UInt8) (headerEnd lineEnd : ℕ) : ℕ :=
  if lineEnd < headerEnd ∧ data[lineEnd]? ≠ some lf then scanLine data headerEnd (lineEnd + 1)
  else lineEnd
  termination_by headerEnd - lineEnd

def lineEndFrom (data : List UInt8) (headerEnd lineStart : ℕ) : ℕ :=
  let lineEnd := scanLine data headerEnd lineStart
  if lineEnd < headerEnd then lineEnd + 1 else lineEnd

lemma le_scanLine (data : List UInt8) (headerEnd lineEnd : ℕ) :
    lineEnd ≤ scanLine data headerEnd lineEnd := by
  fun_induction scanLine data headerEnd lineEnd with
  | case1 lineEnd h ih => exact Nat.le_of_succ_le ih
  | case2 lineEnd h => exact le_rfl

lemma lt_lineEndFrom {data : List UInt8} {headerEnd lineStart : ℕ} (h : lineStart < headerEnd) :
    lineStart < lineEndFrom data headerEnd lineStart := by
  have hle := le_scanLine data headerEnd lineStart
  unfold lineEndFrom
  dsimp only
  split_ifs <;> omega

/-- The lines of the header that are kept. -/
def keptLines (data : List UInt8) (headerEnd cursor : ℕ) (dropping : Bool) (st : σ) :
    List Kept × σ :=
  if h : cursor < headerEnd then
    let lineEnd := lineEndFrom data headerEnd cursor
    let line := slice data cursor (lineEnd - cursor)
    let (dropping, st) := dropsLine keep dropping st line
    have := @lt_lineEndFrom data headerEnd cursor h
    let (kept, st) := keptLines data headerEnd lineEnd dropping st
    (if dropping then kept else ⟨cursor, line.length⟩ :: kept, st)
  else ([], st)
  termination_by headerEnd - cursor

def moveKept : List UInt8 × ℕ → Kept → Option (List UInt8 × ℕ)
  | (data, writeTo), kept => do
      let data ←
        if kept.offset ≤ writeTo then copyForward data kept.offset writeTo kept.length
        else copyWithin data kept.offset kept.length writeTo
      return (data, writeTo + kept.length)

/-- Write elements at a place of a buffer that has room for them. -/
def copyFromSlice (data : List UInt8) (start len : ℕ) (source : List UInt8) : Option (List UInt8) :=
  if start + len ≤ data.length ∧ source.length = len then some (overwrite data start source)
    else none

def moveBody (data : List UInt8) (headerEnd writeTo : ℕ) : Option (List UInt8 × ℕ) := do
  let bodyLen := data.length - headerEnd
  if 0 < bodyLen then
    let left := data.take headerEnd
    let right := data.drop headerEnd
    if writeTo + bodyLen ≤ headerEnd then
      let left ← copyFromSlice left writeTo bodyLen right
      return (left ++ right, writeTo + bodyLen)
    else
      let head := headerEnd - writeTo
      let left ← copyFromSlice left writeTo head (right.take head)
      let right ← copyWithin right head (bodyLen - head) 0
      return (left ++ right, writeTo + bodyLen)
  else return (data, writeTo)

/-- Drop fields of a message, in its own buffer. -/
def rewriteHeaderBlockInPlace (st : σ) (data : List UInt8) : Option (List UInt8 × σ) := do
  let headerEnd := headerBlockEnd data
  let (kept, st) := keptLines keep data headerEnd 0 false st
  let (data, writeTo) ← kept.foldlM moveKept (data, 0)
  let (data, writeTo) ← moveBody data headerEnd writeTo
  return (data.take writeTo, st)

end Rewrite

/-! ## The lines -/

section Lines

variable {data : List UInt8} {headerEnd : ℕ}

lemma slice_cons {i : ℕ} {b : UInt8} (hb : data[i]? = some b) (hlt : i < headerEnd) :
    slice data i (headerEnd - i) = b :: slice data (i + 1) (headerEnd - (i + 1)) := by
  obtain ⟨hi, rfl⟩ := List.getElem?_eq_some_iff.1 hb
  have hlen : headerEnd - i = headerEnd - (i + 1) + 1 := by omega
  rw [slice, slice, hlen, drop_eq_getElem_cons hi, take_succ_cons]

lemma scanLine_spec (hbound : headerEnd ≤ data.length) {start : ℕ} (hstart : start ≤ headerEnd) :
    ∃ line, lf ∉ line ∧ scanLine data headerEnd start = start + line.length ∧
      (slice data start (headerEnd - start) = line ∧ start + line.length = headerEnd ∨
        start + line.length < headerEnd ∧ slice data start (headerEnd - start) =
          line ++ lf :: slice data (start + line.length + 1)
            (headerEnd - (start + line.length + 1))) := by
  fun_induction scanLine data headerEnd start with
  | case1 start h ih =>
    obtain ⟨hlt, hne⟩ := h
    have hget : data[start]? = some data[start] := List.getElem?_eq_getElem (by omega)
    obtain ⟨line, hplain, hscan, hrest⟩ := ih (by omega)
    have hcons := slice_cons hget hlt
    have hlf : data[start] ≠ lf := fun heq => hne (heq ▸ hget)
    refine ⟨data[start] :: line, ?_, ?_, ?_⟩
    · exact fun hmem => (mem_cons.1 hmem).elim (fun heq => hlf heq.symm) hplain
    · rw [hscan, length_cons]
      omega
    · rw [hcons, length_cons]
      have hsum : start + (line.length + 1) = start + 1 + line.length := by omega
      rw [hsum]
      obtain ⟨heq, hend⟩ | ⟨hmore, heq⟩ := hrest
      · exact .inl ⟨by rw [heq], hend⟩
      · exact .inr ⟨hmore, by rw [heq, cons_append]⟩
  | case2 start h =>
    refine ⟨[], not_mem_nil, rfl, ?_⟩
    rw [length_nil, add_zero]
    obtain hend | hlt := Nat.eq_or_lt_of_le hstart
    · exact .inl ⟨by rw [hend, Nat.sub_self, slice, take_zero], hend⟩
    · have hget : data[start]? = some lf := by
        by_contra hne
        exact h ⟨hlt, hne⟩
      exact .inr ⟨hlt, slice_cons hget hlt⟩

lemma splitInclusive_slice (hbound : headerEnd ≤ data.length) {cursor : ℕ}
    (hcursor : cursor < headerEnd) :
    lineEndFrom data headerEnd cursor ≤ headerEnd ∧
    splitInclusive lf (slice data cursor (headerEnd - cursor)) =
      slice data cursor (lineEndFrom data headerEnd cursor - cursor) ::
        splitInclusive lf (slice data (lineEndFrom data headerEnd cursor)
          (headerEnd - lineEndFrom data headerEnd cursor)) := by
  obtain ⟨line, hplain, hscan, hrest⟩ := scanLine_spec hbound hcursor.le
  have hend : lineEndFrom data headerEnd cursor =
      if cursor + line.length < headerEnd then cursor + line.length + 1 else cursor +
        line.length := by
    rw [lineEndFrom, hscan]
  obtain ⟨heq, hlast⟩ | ⟨hmore, heq⟩ := hrest
  · rw [if_neg (by omega)] at hend
    have hne : line ≠ [] := by
      rintro rfl
      simp at hlast
      omega
    have hlen : cursor + line.length - cursor = headerEnd - cursor := by omega
    rw [hend, hlen, heq, splitInclusive_plain hplain hne, hlast, Nat.sub_self, slice, take_zero,
      splitInclusive_nil]
    exact ⟨le_rfl, rfl⟩
  · rw [if_pos hmore] at hend
    have hlen : cursor + line.length + 1 - cursor = (line ++ [lf]).length := by
      rw [length_append, length_singleton]
      omega
    have hfirst : slice data cursor (cursor + line.length + 1 - cursor) = line ++ [lf] := by
      have hle : cursor + line.length + 1 - cursor ≤ headerEnd - cursor := by omega
      have hcut : slice data cursor (cursor + line.length + 1 - cursor) =
          (slice data cursor (headerEnd - cursor)).take (cursor + line.length + 1 - cursor) := by
        rw [slice, slice, take_take, min_eq_left hle]
      rw [hcut, heq, hlen, append_cons line lf (slice _ _ _), take_left]
    rw [hend, hfirst, heq, splitInclusive_line hplain]
    exact ⟨hmore, rfl⟩

end Lines

/-! ## The lines that are kept -/

def Ranges (bound : ℕ) : ℕ → List Kept → Prop
  | _, [] => True
  | read, kept :: rest =>
      read ≤ kept.offset ∧ kept.offset + kept.length ≤ bound ∧
        Ranges bound (kept.offset + kept.length) rest

lemma Ranges.mono {bound read read' : ℕ} {kept : List Kept} (h : Ranges bound read kept)
    (hle : read' ≤ read) : Ranges bound read' kept := by
  cases kept with
  | nil => trivial
  | cons k rest => exact ⟨hle.trans h.1, h.2⟩

section Kept

variable {σ : Type} {keep : σ → List UInt8 → Bool × σ} {data : List UInt8} {headerEnd : ℕ}

lemma keptLines_spec (hbound : headerEnd ≤ data.length) (cursor : ℕ) (dropping : Bool) (st : σ) :
    let (kept, st') := keptLines keep data headerEnd cursor dropping st
    Ranges headerEnd cursor kept ∧
      keepLines keep dropping st (splitInclusive lf (slice data cursor (headerEnd - cursor))) =
        (kept.flatMap (Kept.line data), st') := by
  fun_induction keptLines keep data headerEnd cursor dropping st with
  | case1 cursor dropping st hlt lineEnd line dropping' st' hdrops hgt kept st'' hkept ih =>
    obtain ⟨hranges, hlines⟩ := ih
    obtain ⟨hle, hsplit⟩ := splitInclusive_slice hbound hlt
    rw [hkept] at hranges hlines
    dsimp only at hranges hlines ⊢
    have hlength : line.length = lineEnd - cursor := length_slice (by omega)
    have hlineEnd : cursor + line.length = lineEnd := by omega
    rw [hsplit, keepLines, hdrops]
    dsimp only
    rw [hlines]
    cases dropping' with
    | true => exact ⟨hranges.mono hgt.le, rfl⟩
    | false =>
      refine ⟨⟨le_rfl, ?_, ?_⟩, ?_⟩
      · dsimp only
        rw [hlineEnd]
        exact hle
      · dsimp only
        rw [hlineEnd]
        exact hranges
      · rw [if_neg Bool.false_ne_true, if_neg Bool.false_ne_true, flatMap_cons, Kept.line, hlength]
  | case2 cursor dropping st hge =>
    have hempty : headerEnd - cursor = 0 := by omega
    refine ⟨trivial, ?_⟩
    rw [hempty, slice, take_zero, splitInclusive_nil]
    rfl

end Kept

/-! ## The moves -/

section Moves

variable {orig out data : List UInt8} {read headerEnd : ℕ}

lemma moveKept_spec (h : Compacted orig out read data) {kept : Kept} (hle : read ≤ kept.offset)
    (hbound : kept.offset + kept.length ≤ orig.length) :
    ∃ data', moveKept (data, out.length) kept =
        some (data', (out ++ kept.line orig).length) ∧
      Compacted orig (out ++ kept.line orig) (kept.offset + kept.length) data' := by
  have hskip := h.skip hle (by omega)
  obtain ⟨data', hcopy, hmoved⟩ := hskip.copy hbound
  refine ⟨data', ?_, hmoved⟩
  have hlength : (out ++ kept.line orig).length = out.length + kept.length := by
    rw [length_append, Kept.line, length_slice hbound]
  unfold moveKept
  rw [hlength]
  dsimp only
  split_ifs with hsame
  · -- nothing was dropped before the line, so it is where it belongs
    have heq : out.length = kept.offset := le_antisymm hskip.room hsame
    have hfits : kept.offset + kept.length ≤ data.length := h.length ▸ hbound
    rw [heq, copyWithin_self hfits] at hcopy
    rw [heq, copyForward_self hfits, hcopy]
    rfl
  · rw [hcopy]
    rfl

lemma moveAll_spec (h : Compacted orig out read data) (hheader : headerEnd ≤ orig.length)
    (hread : read ≤ headerEnd) {kept : List Kept} (hranges : Ranges headerEnd read kept) :
    ∃ data', kept.foldlM moveKept (data, out.length) =
        some (data', (out ++ kept.flatMap (Kept.line orig)).length) ∧
      Compacted orig (out ++ kept.flatMap (Kept.line orig)) headerEnd data' := by
  induction kept generalizing out read data with
  | nil =>
    rw [flatMap_nil, append_nil]
    exact ⟨data, rfl, h.skip hread hheader⟩
  | cons k rest ih =>
    obtain ⟨hle, hbound, hrest⟩ := hranges
    obtain ⟨data₁, hmove, h₁⟩ := moveKept_spec h hle (hbound.trans hheader)
    obtain ⟨data', hmoves, h'⟩ := ih h₁ hbound hrest
    rw [append_assoc, ← flatMap_cons] at hmoves h'
    refine ⟨data', ?_, h'⟩
    rw [foldlM_cons, hmove]
    exact hmoves

lemma moveBody_spec (h : Compacted orig out headerEnd data) :
    ∃ data' writeTo, moveBody data headerEnd out.length = some (data', writeTo) ∧
      data'.take writeTo = out ++ orig.drop headerEnd := by
  have hroom := h.room
  have hbound := h.bound
  have hlength := h.length
  have hright : data.drop headerEnd = orig.drop headerEnd := h.behind
  have hbody : (orig.drop headerEnd).length = data.length - headerEnd := by
    rw [length_drop, hlength]
  have hleft : (data.take headerEnd).length = headerEnd := by
    rw [length_take]
    omega
  have hfront : (data.take headerEnd).take out.length = out := by
    rw [take_take, min_eq_left hroom, h.front]
  unfold moveBody
  dsimp only
  rw [hright, ← hbody]
  generalize hbodyEq : orig.drop headerEnd = body at *
  split_ifs with hsome hfits
  · -- the body fits into the room that is left before the end of the block
    refine ⟨_, _, by rw [copyFromSlice, if_pos ⟨by omega, rfl⟩]; rfl, ?_⟩
    rw [overwrite, hfront, append_assoc, append_assoc, ← append_assoc,
      ← length_append, take_left]
  · -- the head of the body fills the room, and its tail moves to the end of the block
    generalize hdef : headerEnd - out.length = room at *
    have hhead : room ≤ body.length := by omega
    have htake : (body.take room).length = room := by
      rw [length_take, min_eq_left hhead]
    have hslice : slice body room (body.length - room) = body.drop room := by
      rw [slice, take_of_length_le]
      rw [length_drop]
    have hfill : copyFromSlice (data.take headerEnd) out.length room (body.take room) =
        some (out ++ body.take room) := by
      have hnil : (data.take headerEnd).drop (out.length + room) = [] :=
        drop_eq_nil_of_le (by omega)
      rw [copyFromSlice, if_pos ⟨by omega, htake⟩, overwrite, hfront, htake, hnil, append_nil]
    have hshift : copyWithin body room (body.length - room) 0 =
        some (body.drop room ++ body.drop (body.length - room)) := by
      rw [copyWithin, if_pos ⟨by omega, by omega⟩, hslice, overwrite, take_zero, nil_append,
        zero_add, length_drop]
    refine ⟨out ++ body.take room ++ (body.drop room ++ body.drop (body.length - room)),
      out.length + body.length, ?_, ?_⟩
    · rw [hfill]
      change (copyWithin _ _ _ _ >>= _) = _
      rw [hshift]
      rfl
    · rw [← append_assoc, append_assoc out, take_append_drop, ← length_append,
        take_left]
  · refine ⟨data, out.length, rfl, ?_⟩
    have hnil : body = [] := length_eq_zero_iff.1 (by omega)
    rw [h.front, hnil, append_nil]

end Moves

/-- The rewriter that works in place leaves what the other one returns. -/
theorem rewriteHeaderBlockInPlace_eq {σ : Type} (keep : σ → List UInt8 → Bool × σ) (st : σ)
    (data : List UInt8) :
    rewriteHeaderBlockInPlace keep st data = some (rewriteHeaderBlock keep st data) := by
  have hheader := headerBlockEnd_le data
  have hkept := @keptLines_spec σ keep data _ hheader 0 false st
  unfold rewriteHeaderBlockInPlace rewriteHeaderBlock
  dsimp only
  generalize keptLines keep data (headerBlockEnd data) 0 false st = result at hkept ⊢
  obtain ⟨kept, st'⟩ := result
  obtain ⟨hranges, hlines⟩ := hkept
  obtain ⟨data₁, hmoves, h₁⟩ := moveAll_spec (Compacted.start data) hheader (Nat.zero_le _) hranges
  obtain ⟨data₂, writeTo, hbody, htake⟩ := moveBody_spec h₁
  have hblock : slice data 0 (headerBlockEnd data - 0) = data.take (headerBlockEnd data) := rfl
  rw [hblock] at hlines
  rw [hlines]
  dsimp only
  rw [length_nil] at hmoves
  rw [hmoves]
  change (moveBody data₁ _ _ >>= _) = _
  rw [hbody]
  change some (data₂.take writeTo, st') = _
  rw [htake, nil_append]

end Epistle.Smtp.Trace
