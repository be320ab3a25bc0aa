import Epistle.Lib.Text

/-!
# JSON values

JSON trees with objects as key-sorted association lists, their compact serialised form, and JSON
pointers. A number is kept as the text it serialises to.
-/

namespace Epistle.Lib.Json

open List Option

inductive Value
  | null
  | bool (b : Bool)
  | number (text : List Char)
  | string (s : List Char)
  | array (items : List Value)
  | object (fields : List (List Char × Value))

namespace Value

/-! ## Folds -/

section Fold

variable {β : Type} (scalar : Value → β) (array : List β → β) (object : List (List Char × β) → β)

mutual

/-- Replace the constructors of a tree, from the leaves up. -/
def fold : Value → β
  | .array items => array (foldItems items)
  | .object fields => object (foldFields fields)
  | v => scalar v

def foldItems : List Value → List β
  | [] => []
  | v :: vs => fold v :: foldItems vs

def foldFields : List (List Char × Value) → List (List Char × β)
  | [] => []
  | (k, v) :: fields => (k, fold v) :: foldFields fields

end

lemma fold_array (items : List Value) :
    fold scalar array object (.array items) = array (items.map (fold scalar array object)) := by
  have : foldItems scalar array object items = items.map (fold scalar array object) := by
    induction items with
    | nil => rfl
    | cons v vs ih => rw [foldItems, ih, map_cons]
  rw [fold, this]

lemma fold_object (fields : List (List Char × Value)) :
    fold scalar array object (.object fields) =
      object (fields.map fun (k, v) => (k, fold scalar array object v)) := by
  have : foldFields scalar array object fields =
      fields.map fun (k, v) => (k, fold scalar array object v) := by
    induction fields with
    | nil => rfl
    | cons kv fields ih => rw [foldFields, ih, map_cons]
  rw [fold, this]

end Fold

/-- The frames of a recursion over the tree. -/
def depth : Value → ℕ :=
  fold (fun _ => 1) (fun ds => ds.foldr max 0 + 1) (fun ds => (ds.map (·.2)).foldr max 0 + 1)

def anyKey (p : List Char → Bool) : Value → Bool :=
  fold (fun _ => false) (·.any id) (·.any fun (k, b) => p k || b)

/-- The number of leaves, where an empty array or object is a leaf. -/
def elementCount : Value → ℕ :=
  fold (fun _ => 1) (fun ns => if ns = [] then 1 else ns.sum)
    (fun ns => if ns = [] then 1 else (ns.map (·.2)).sum)

/-! ## Serialised form -/

def hexOctet (n : ℕ) : List Char :=
  [Nat.digitChar (n / 16), Nat.digitChar (n % 16)]

def escape (c : Char) : List Char :=
  if c = '"' then ['\\', '"']
  else if c = '\\' then ['\\', '\\']
  else if c = '\x08' then ['\\', 'b']
  else if c = '\x0c' then ['\\', 'f']
  else if c = '\n' then ['\\', 'n']
  else if c = '\r' then ['\\', 'r']
  else if c = '\t' then ['\\', 't']
  else if c.toNat < 0x20 then ['\\', 'u', '0', '0'] ++ hexOctet c.toNat
  else [c]

def quote (s : List Char) : List Char := '"' :: (s.flatMap escape ++ ['"'])

/-- The compact serialised form. -/
def render : Value → List Char :=
  fold
    (fun
      | .null => "null".toList
      | .bool b => if b then "true".toList else "false".toList
      | .number text => text
      | .string s => quote s
      | .array _ | .object _ => [])
    (fun items => '[' :: ((items.intersperse [',']).flatten ++ [']']))
    (fun fields => '\x7b' ::
      (((fields.map fun (k, v) => quote k ++ ':' :: v).intersperse [',']).flatten ++ ['\x7d']))

/-- The octets of the serialised form. -/
def byteSize (v : Value) : ℕ := (v.render.map Char.utf8Size).sum

/-! ## Access -/

def get (key : List Char) : Value → Option Value
  | .object fields => fields.lookup key
  | _ => none

def item (i : ℕ) : Value → Option Value
  | .array items => items[i]?
  | _ => none

def asStr : Value → Option (List Char)
  | .string s => some s
  | _ => none

def asArray : Value → Option (List Value)
  | .array items => some items
  | _ => none

def insert (key : List Char) (v : Value) : List (List Char × Value) → List (List Char × Value)
  | [] => [(key, v)]
  | (k, w) :: fields =>
      if k = key then (key, v) :: fields
      else if key < k then (key, v) :: (k, w) :: fields
      else (k, w) :: insert key v fields

def remove (key : List Char) (fields : List (List Char × Value)) : List (List Char × Value) :=
  fields.filter (·.1 ≠ key)

def replacePair (a b c : Char) : List Char → List Char
  | x :: y :: rest =>
      if x = a ∧ y = b then c :: replacePair a b c rest else x :: replacePair a b c (y :: rest)
  | rest => rest

def unescapeToken (token : List Char) : List Char :=
  replacePair '~' '0' '~' (replacePair '~' '1' '/' token)

def parseIndex (token : List Char) : Option ℕ :=
  if token.head? = some '+' ∨ (token.head? = some '0' ∧ token.length ≠ 1) then none
  else Text.parseUnsigned (2 ^ 64) token

def child (v : Value) (token : List Char) : Option Value :=
  match v with
  | .object _ => v.get token
  | .array _ => (parseIndex token).bind fun i => v.item i
  | _ => none

def pointer (v : Value) (path : List Char) : Option Value :=
  if path = [] then some v
  else if path.head? ≠ some '/' then none
  else (((path.splitOn '/').drop 1).map unescapeToken).foldlM child v

/-! ## Depth and keys -/

variable {n : ℕ} {P : Value → Prop} {v w : Value}

lemma foldr_max_le {l : List ℕ} : l.foldr max 0 ≤ n ↔ ∀ m ∈ l, m ≤ n := by
  induction l with
  | nil => simp
  | cons m l ih => rw [foldr_cons, Nat.max_le, ih, forall_mem_cons]

lemma depth_array_le {items : List Value} :
    (Value.array items).depth ≤ n + 1 ↔ ∀ v ∈ items, v.depth ≤ n := by
  rw [depth, fold_array, Nat.add_le_add_iff_right, foldr_max_le, List.forall_mem_map, ← depth]

lemma depth_object_le {fields : List (List Char × Value)} :
    (Value.object fields).depth ≤ n + 1 ↔ ∀ kv ∈ fields, kv.2.depth ≤ n := by
  rw [depth, fold_object, Nat.add_le_add_iff_right, foldr_max_le, List.forall_mem_map,
    List.forall_mem_map, ← depth]

lemma depth_pos (v : Value) : 0 < v.depth := by
  cases v <;> simp [depth, fold]

lemma anyKey_array {p : List Char → Bool} {items : List Value} :
    (Value.array items).anyKey p = false ↔ ∀ v ∈ items, v.anyKey p = false := by
  rw [anyKey, fold_array, ← anyKey]
  simp

lemma anyKey_object {p : List Char → Bool} {fields : List (List Char × Value)} :
    (Value.object fields).anyKey p = false ↔
      ∀ kv ∈ fields, p kv.1 = false ∧ kv.2.anyKey p = false := by
  rw [anyKey, fold_object, ← anyKey]
  simp

/-! ## Where a pointer leads -/

/-- A property of trees that passes to the children. -/
structure Hereditary (P : Value → Prop) : Prop where
  item : ∀ {items : List Value}, P (.array items) → ∀ v ∈ items, P v
  field : ∀ {fields : List (List Char × Value)}, P (.object fields) → ∀ kv ∈ fields, P kv.2

lemma hereditary_depth_le (n : ℕ) : Hereditary (·.depth ≤ n) where
  item {items} h v hv := by
    obtain ⟨m, rfl⟩ := Nat.exists_eq_succ_of_ne_zero
      (Nat.ne_of_gt (Nat.lt_of_lt_of_le (depth_pos _) h))
    exact Nat.le_succ_of_le (depth_array_le.1 h v hv)
  field {fields} h kv hkv := by
    obtain ⟨m, rfl⟩ := Nat.exists_eq_succ_of_ne_zero
      (Nat.ne_of_gt (Nat.lt_of_lt_of_le (depth_pos _) h))
    exact Nat.le_succ_of_le (depth_object_le.1 h kv hkv)

lemma Hereditary.get (hP : Hereditary P) {key : List Char} (hv : P v) (h : v.get key = some w) :
    P w := by
  cases v with
  | object fields =>
    obtain ⟨l, r, rfl, -⟩ := lookup_eq_some_iff.1 h
    exact hP.field hv (key, w) (by simp)
  | _ => cases h

lemma Hereditary.getItem (hP : Hereditary P) {i : ℕ} (hv : P v) (h : v.item i = some w) :
    P w := by
  cases v with
  | array items => exact hP.item hv w (mem_of_getElem? h)
  | _ => cases h

lemma Hereditary.pointer (hP : Hereditary P) {path : List Char} (hv : P v)
    (h : v.pointer path = some w) : P w := by
  have hchild : ∀ {v w : Value} {token : List Char}, P v → v.child token = some w → P w := by
    intro v w token hv h
    cases v with
    | object fields => exact hP.get hv h
    | array items =>
      obtain ⟨i, -, hi⟩ := bind_eq_some_iff.1 h
      exact hP.getItem hv hi
    | _ => cases h
  unfold Value.pointer at h
  split_ifs at h
  · exact some.inj h ▸ hv
  · generalize ((path.splitOn '/').drop 1).map unescapeToken = tokens at h
    induction tokens generalizing v with
    | nil => exact some.inj h ▸ hv
    | cons token tokens ih =>
      rw [foldlM_cons] at h
      obtain ⟨u, hu, h⟩ := bind_eq_some_iff.1 h
      exact ih (hchild hv hu) h

end Value

end Epistle.Lib.Json
