import Epistle.Dkim.Verify
import Epistle.Lib.Instances

/-!
# Which headers a signature covers

The verifier reads the headers from an index of positions, from the end. Read that way, the headers
a name list takes are its instances from the bottom up.
-/

namespace Epistle.Dkim

open Lib Lib.Text Lib.Instances List

def Header.key (header : Header) : List Char := toLower header.name

open HeaderIndex

lemma positions_build (message : Message) (name : List Char) :
    ((build message).positions name).getD [] =
      (message.headers.zipIdx.filter (fun p => p.1.key = name)).map Prod.snd := by
  -- Indexing the rest of the headers adds their positions behind those that are there.
  have run : ∀ (list : List (Header × ℕ)) (index : HeaderIndex),
      ((list.foldl (fun index p => index.push (toLower p.1.name) p.2) index).positions
          name).getD [] =
        (index.positions name).getD [] ++ (list.filter (fun p => p.1.key = name)).map Prod.snd := by
    intro list
    induction list with
    | nil => simp
    | cons p list ih =>
      intro index
      rw [foldl_cons, ih, push, filter_cons]
      by_cases hp : p.1.key = name
      · have heq : name = toLower p.1.name := hp.symm
        simp [hp, heq]
      · have hne : name ≠ toLower p.1.name := fun h => hp h.symm
        simp [hp, hne]
  exact run message.headers.zipIdx ⟨fun _ => none⟩

lemma header_at_position (message : Message) (name : List Char) {k : ℕ}
    (hk : k < (((build message).positions name).getD []).length) :
    ((((build message).positions name).getD [])[
        (((build message).positions name).getD []).length - 1 - k]? >>=
          (message.headers[·]?)) =
      (message.headers.reverse.filter (Header.key · = name))[k]? := by
  rw [positions_build] at hk ⊢
  set found := message.headers.zipIdx.filter (fun p => p.1.key = name) with hfound
  have hlen : (found.map Prod.snd).length = found.length := length_map _
  rw [hlen] at hk ⊢
  have hheaders : message.headers.reverse.filter (Header.key · = name) =
      (found.map Prod.fst).reverse := by
    rw [filter_reverse, hfound]
    refine congrArg _ ?_
    conv_lhs => rw [← zipIdx_map_fst 0 message.headers]
    rw [filter_map]
    rfl
  have hget : found[found.length - 1 - k]? = some found[found.length - 1 - k] :=
    List.getElem?_eq_getElem (by omega)
  rw [hheaders, List.getElem?_reverse (by simpa using hk), length_map, List.getElem?_map,
    List.getElem?_map, hget]
  -- A header stands where its position says.
  have hmem : found[found.length - 1 - k] ∈ message.headers.zipIdx :=
    mem_of_mem_filter (getElem_mem _)
  exact mem_zipIdx_iff_getElem?.1 hmem

lemma length_positions (message : Message) (name : List Char) :
    (((build message).positions name).getD []).length =
      (message.headers.reverse.filter (Header.key · = name)).length := by
  rw [positions_build, filter_reverse, length_reverse, length_map]
  conv_rhs => rw [← zipIdx_map_fst 0 message.headers, filter_map, length_map]
  rfl

lemma take_build (message : Message) (canon : Canon) (st : Taking) (name : List Char) :
    Taking.take message (build message) canon st name =
      match (message.headers.reverse.filter (Header.key · = name))[st.taken name]? with
      | some header =>
          { taken := Function.update st.taken name (st.taken name + 1)
            input := st.input ++ header.hashLine canon header.value }
      | none => st := by
  have hlen := length_positions message name
  by_cases hk : st.taken name < (((build message).positions name).getD []).length
  · have hat := header_at_position message name hk
    unfold Taking.take
    cases hpos : (build message).positions name with
    | none => simp [hpos] at hk
    | some positions =>
      rw [hpos, Option.getD_some] at hat hk
      simp only [if_neg (Nat.not_le.2 hk), hat]
      cases (message.headers.reverse.filter (Header.key · = name))[st.taken name]? <;> rfl
  · rw [List.getElem?_eq_none (by omega)]
    unfold Taking.take
    cases hpos : (build message).positions name with
    | none => rfl
    | some positions =>
      rw [hpos, Option.getD_some] at hk
      exact if_pos (Nat.le_of_not_lt hk)

lemma foldl_take_input (message : Message) (canon : Canon) (names : List (List Char))
    (st : Taking) :
    (names.foldl (Taking.take message (build message) canon) st).input =
      st.input ++ (pick Header.key message.headers.reverse st.taken names).flatMap
        fun header => header.hashLine canon header.value := by
  induction names generalizing st with
  | nil => simp [pick]
  | cons name names ih =>
    rw [foldl_cons, ih, take_build]
    cases hget : (message.headers.reverse.filter (Header.key · = name))[st.taken name]? with
    | none => rw [pick_cons_none hget]
    | some header => simp [pick_cons_some hget]

lemma hashInput_eq (message : Message) (signature : Signature) (dkimHeader : Header) :
    hashInput message (build message) signature dkimHeader =
      ((pick Header.key message.headers.reverse (fun _ => 0) signature.signedHeaders).flatMap
        fun header => header.hashLine signature.headerCanon header.value) ++
      dropCrlf (dkimHeader.hashLine signature.headerCanon (stripBTag dkimHeader.value)) := by
  rw [hashInput, foldl_take_input]
  rfl

end Epistle.Dkim
