import Epistle.Lib.Fallible
import Epistle.Lib.Json
import Epistle.Lib.Word
import Mathlib.Data.List.Dedup

/-!
# Back-references of a JMAP request

The resolver of `api/jmap/dispatcher`, which replaces the `#`-prefixed arguments of a method call
by values from the responses of earlier calls, and the loop of `dispatch_request` around it.
`resolveReferencesRecursive` walks into the values it has just substituted, so it is given the
number of call frames it may use; a call that needs more has no result. Additions to the
accounting are returned in order, where the source pushes them.

Sizes and counts are natural numbers: each is the size of a value in memory.

* `references_bounded`: every call of a request has a result within a bounded number of frames, and
  the substituted octets are within the limit of a request.
-/

namespace Epistle.Jmap

open Lib Lib.Json List Option

/-- The limits of a request. -/
structure RequestLimits where
  maxSizeRequest : ℕ
  maxObjectsPerReference : ℕ

def maxRequestLimits : RequestLimits := ⟨10000000, max 500 500⟩

/-! ## Pointers with wildcards -/

/-- A path cut at each `/*`. -/
def splitStar : List Char → List (List Char)
  | '/' :: '*' :: rest => [] :: splitStar rest
  | c :: rest => (splitStar rest).modifyHead (c :: ·)
  | [] => [[]]

/-- The items of an array, or the value itself. -/
def spread : Value → List Value
  | .array items => items
  | v => [v]

def pointerParts : List (List Char) → Value → Option Value
  | [], v => some v
  | [path], v => v.pointer path
  | before :: path :: rest, v => do
      let array ← (← v.pointer before).asArray
      let resolved ← array.mapM fun item =>
        if path = [] ∧ rest = [] then some item else pointerParts (path :: rest) item
      return .array (resolved.flatMap spread)

/-- The value at a path, where `*` goes through an array. -/
def pointerWithWildcard (v : Value) (path : List Char) : Option Value :=
  pointerParts (splitStar path) v

open Value

/-- One reference `{resultOf, name, path}` against the earlier responses
`[name, arguments, callId]`. -/
def resolveReference (reference : Value) (prior : List Value) : Option Value := do
  let resultOf ← (← reference.get "resultOf".toList).asStr
  let name ← (← reference.get "name".toList).asStr
  let path ← (← reference.get "path".toList).asStr
  let response ← prior.find? fun response =>
    (response.item 0).bind asStr = some name ∧
      (response.item 2).bind asStr = some resultOf
  pointerWithWildcard (← response.item 1) path

/-! ## The resolver -/

/-- What one reference adds to the accounting. -/
structure Addition where
  key : List Char
  value : Value
  bytes : ℕ
  elements : ℕ

/-- Why a walk ends early. -/
inductive Stop
  /-- It needs more call frames. -/
  | tooDeep
  /-- A key that was listed is gone. -/
  | panicked
  /-- A reference points nowhere. -/
  | unresolvable
  deriving DecidableEq

/-- Whether a key is one of a reference. -/
def isReference (key : List Char) : Bool := key.head? = some '#'

def references (fields : List (List Char × Value)) : List (List Char) :=
  ((fields.map (·.1)).filter isReference).dedup

section Resolve

variable (prior : List Value)

def substitute : List (List Char) → List (List Char × Value) →
    Except Stop (List (List Char × Value) × List Addition)
  | [], fields => .ok (fields, [])
  | key :: keys, fields =>
      match fields.lookup key with
      | none => .error .panicked
      | some reference =>
          match resolveReference reference prior with
          | none => .error .unresolvable
          | some resolved => do
              -- The key loses one `#`; a field that has the shorter key is overwritten.
              let (fields, additions) ← substitute keys
                (insert key.tail resolved (remove key fields))
              return (fields, ⟨key, resolved, resolved.byteSize, resolved.elementCount⟩
                :: additions)

def walkItems (f : Value → Except Stop (Value × List Addition)) :
    List Value → Except Stop (List Value × List Addition)
  | [] => .ok ([], [])
  | v :: vs => do
      let (v, additions) ← f v
      let (vs, more) ← walkItems f vs
      return (v :: vs, additions ++ more)

def walkFields (f : Value → Except Stop (Value × List Addition)) :
    List (List Char × Value) → Except Stop (List (List Char × Value) × List Addition)
  | [] => .ok ([], [])
  | (k, v) :: fields => do
      let (v, additions) ← f v
      let (fields, more) ← walkFields f fields
      return ((k, v) :: fields, additions ++ more)

/-- A value with its references in place. -/
def resolveReferencesRecursive : ℕ → Value → Except Stop (Value × List Addition)
  | 0, _ => .error .tooDeep
  | frames + 1, .object fields => do
      let (fields, additions) ← substitute prior (references fields) fields
      let (fields, more) ← walkFields (resolveReferencesRecursive frames) fields
      return (.object fields, additions ++ more)
  | frames + 1, .array items => do
      let (items, additions) ← walkItems (resolveReferencesRecursive frames) items
      return (.array items, additions)
  | _ + 1, v => .ok (v, [])

end Resolve

/-- Why a call is refused. -/
inductive ResolveError
  | tooLarge
  | unresolvable
  deriving DecidableEq

/-- What a request has resolved so far. -/
structure Resolver where
  limits : RequestLimits
  resolvedBytes : ℕ

/-- The arguments of a call with their references in place, within the limits. -/
def Resolver.resolve (self : Resolver) (frames : ℕ) (args : Value) (prior : List Value) :
    Option (Except ResolveError (Value × List Addition) × Resolver) :=
  match resolveReferencesRecursive prior frames args with
  | .error .tooDeep | .error .panicked => none
  | .error .unresolvable => some (.error .unresolvable, self)
  | .ok (args, additions) =>
      if additions.any (·.elements > self.limits.maxObjectsPerReference) then
        some (.error .tooLarge, self)
      else
        let total := (additions.map (·.bytes)).sum
        if saturatingAdd 64 self.resolvedBytes total > self.limits.maxSizeRequest then
          some (.error .tooLarge, self)
        else
          some (.ok (args, additions),
            { self with resolvedBytes := saturatingAdd 64 self.resolvedBytes total })

/-! ## The request -/

/-- A call of a request. -/
structure MethodCall where
  name : List Char
  args : Value
  callId : List Char

/-- The methods other than `Core/echo`: the response that refuses a call, for its scope or the
number of its objects, and the response of the method. -/
structure Env where
  refusal : List Char → Value → List Char → Option Value
  method : List Char → Value → List Char → Value

/-- The loop over the calls of a request. -/
structure Dispatch where
  resolver : Resolver
  responses : List Value
  /-- The octets substituted into accepted calls so far. -/
  substituted : ℕ

def errorResponse (type callId : List Char) : Value :=
  .array [.string "error".toList, .object [("type".toList, .string type)], .string callId]

/-- How deep the responses are. -/
def nesting (prior : List Value) : ℕ := (prior.map depth).foldr max 0

namespace Dispatch

/-- Before the first call. -/
def start (limits : RequestLimits) : Dispatch := ⟨⟨limits, 0⟩, [], 0⟩

def respond (d : Dispatch) (response : Value) : Dispatch :=
  { d with responses := d.responses ++ [response] }

def answer (env : Env) (call : MethodCall) (args : Value) : Value :=
  (env.refusal call.name args call.callId).getD <|
    if call.name = "Core/echo".toList then
      .array [.string call.name, args, .string call.callId]
    else env.method call.name args call.callId

/-- One call. -/
def step (env : Env) (frames : ℕ) (d : Dispatch) (call : MethodCall) : Option Dispatch :=
  (d.resolver.resolve frames call.args d.responses).map fun
    | (.error .tooLarge, _) => d.respond (errorResponse "requestTooLarge".toList call.callId)
    | (.error .unresolvable, _) =>
        d.respond (errorResponse "invalidResultReference".toList call.callId)
    | (.ok (args, additions), resolver) =>
        { d with
          resolver
          responses := d.responses ++ [answer env call args]
          substituted := d.substituted + (additions.map (·.bytes)).sum }

def frames (d : Dispatch) (call : MethodCall) : ℕ := call.args.depth + nesting d.responses

/-- The calls of a request. -/
def run (env : Env) (d : Dispatch) : List MethodCall → Option Dispatch
  | [] => some d
  | call :: calls => do
      let d ← d.step env (d.frames call) call
      d.run env calls

end Dispatch

open Dispatch

/-! ## How deep a reference leads -/

variable {v : Value} {prior : List Value}

lemma spread_depth_le {w : Value} {n : ℕ} (hv : v.depth ≤ n) (hw : w ∈ spread v) :
    w.depth ≤ n := by
  cases v with
  | array items => exact (hereditary_depth_le n).item hv w hw
  | _ => exact mem_singleton.1 hw ▸ hv

lemma exists_of_mem_mapM {α β : Type} {f : α → Option β} {l : List α} {r : List β}
    (h : l.mapM f = some r) {y : β} (hy : y ∈ r) : ∃ x ∈ l, f x = some y := by
  obtain ⟨i, hi, rfl⟩ := getElem_of_mem hy
  obtain ⟨hlength, hget⟩ := forall₂_iff_get.1 (Fallible.forall₂_of_mapM h)
  exact ⟨_, List.get_mem l ⟨i, hlength ▸ hi⟩, hget i (hlength ▸ hi) hi⟩

lemma pointerParts_depth_le {parts : List (List Char)} {w : Value} {n : ℕ} (hv : v.depth ≤ n)
    (h : pointerParts parts v = some w) : w.depth ≤ n := by
  induction parts generalizing v w n with
  | nil => exact some.inj h ▸ hv
  | cons before rest ih =>
    cases rest with
    | nil => exact (hereditary_depth_le n).pointer hv h
    | cons path rest =>
      simp only [pointerParts, bind_eq_bind, bind_eq_some_iff, Option.pure_def,
        some.injEq] at h
      obtain ⟨target, htarget, array, harray, resolved, hresolved, rfl⟩ := h
      -- The wildcard is an array of the value, and its items are one level below it.
      obtain rfl : target = .array array := by
        cases target <;> simp_all [asArray]
      have hdepth := (hereditary_depth_le n).pointer hv htarget
      obtain ⟨m, rfl⟩ := Nat.exists_eq_succ_of_ne_zero
        (ne_of_gt (lt_of_lt_of_le (depth_pos _) hdepth))
      refine depth_array_le.2 fun u hu => ?_
      obtain ⟨r, hr, hu⟩ := mem_flatMap.1 hu
      obtain ⟨item, hitem, hr⟩ := exists_of_mem_mapM hresolved hr
      have hitem : item.depth ≤ m := depth_array_le.1 hdepth item hitem
      refine spread_depth_le ?_ hu
      split_ifs at hr
      · exact some.inj hr ▸ hitem
      · exact ih hitem hr

lemma le_nesting (h : v ∈ prior) : v.depth ≤ nesting prior :=
  foldr_max_le.1 (le_refl (nesting prior)) _ (List.mem_map_of_mem h)

lemma resolveReference_depth_le {reference : Value}
    (h : resolveReference reference prior = some v) : v.depth ≤ nesting prior := by
  simp only [resolveReference, bind_eq_bind, bind_eq_some_iff] at h
  obtain ⟨_, -, _, -, _, -, _, -, _, -, _, -, response, hresponse, args, hargs, h⟩ := h
  have hdepth := le_nesting (List.mem_of_find?_eq_some hresponse)
  exact pointerParts_depth_le ((hereditary_depth_le _).getItem hdepth hargs) h

/-! ## The references of one object -/

open Except

section Substitute

variable {prior : List Value}

/-- The recursion of a walk came to an end. -/
def Settled {α : Type} (r : Except Stop α) : Prop := ∀ e, r = .error e → e = .unresolvable

lemma Settled.ok {α : Type} (a : α) : Settled (.ok a) := by
  intro e he
  cases he

lemma Settled.bind {α β : Type} {r : Except Stop α} {f : α → Except Stop β} (hr : Settled r)
    (hf : ∀ a, r = .ok a → Settled (f a)) : Settled (r >>= f) := by
  intro e he
  cases r with
  | error e' => exact hr e (congrArg error (error.inj he))
  | ok a => exact hf a rfl e he

variable {fields : List (List Char × Value)}

lemma mem_keys_insert {key k : List Char} {v : Value} (h : k ∈ fields.map (·.1)) :
    k ∈ (insert key v fields).map (·.1) := by
  induction fields with
  | nil => simp at h
  | cons kv fields ih =>
    obtain ⟨k', w⟩ := kv
    rw [Value.insert]
    split_ifs with heq hlt
    · subst heq
      simpa using h
    · exact mem_cons_of_mem _ h
    · rcases mem_cons.1 h with rfl | h
      · exact mem_cons_self ..
      · exact mem_cons_of_mem _ (ih h)

lemma mem_insert {key : List Char} {v : Value} {kv : List Char × Value}
    (h : kv ∈ insert key v fields) : kv = (key, v) ∨ kv ∈ fields := by
  induction fields with
  | nil => exact .inl (mem_singleton.1 h)
  | cons kw fields ih =>
    rw [Value.insert] at h
    split_ifs at h
    · exact (mem_cons.1 h).imp id (mem_cons_of_mem _)
    · exact mem_cons.1 h
    · rcases mem_cons.1 h with rfl | h
      · exact .inr (mem_cons_self ..)
      · exact (ih h).imp id (mem_cons_of_mem _)

lemma substitute_settled {keys : List (List Char)} (hnodup : keys.Nodup)
    (hmem : ∀ k ∈ keys, k ∈ fields.map (·.1)) : Settled (substitute prior keys fields) := by
  induction keys generalizing fields with
  | nil => exact .ok _
  | cons key keys ih =>
    obtain ⟨hkey, hnodup⟩ := nodup_cons.1 hnodup
    obtain ⟨hin, hmem⟩ := forall_mem_cons.1 hmem
    rw [substitute]
    cases hlookup : fields.lookup key with
    | none =>
      obtain ⟨kv, hkv, rfl⟩ := List.mem_map.1 hin
      exact absurd (lookup_eq_none_iff.1 hlookup kv hkv) (by simp)
    | some reference =>
      dsimp only
      cases resolveReference reference prior with
      | none => exact fun e he => (error.inj he).symm
      | some resolved =>
        refine (ih hnodup fun k hk => mem_keys_insert ?_).bind fun _ _ => .ok _
        -- Another key stays when this one is removed.
        obtain ⟨kv, hkv, rfl⟩ := List.mem_map.1 (hmem k hk)
        have hne : kv.1 ≠ key := fun heq => hkey (heq ▸ hk)
        exact List.mem_map_of_mem (mem_filter.2 ⟨hkv, by simpa using hne⟩)

lemma references_settled (fields : List (List Char × Value)) :
    Settled (substitute prior (references fields) fields) :=
  substitute_settled (nodup_dedup _) fun _ hk =>
    (mem_filter.1 (mem_dedup.1 hk)).1

lemma substitute_fields {keys : List (List Char)} {fields' : List (List Char × Value)}
    {additions : List Addition} (h : substitute prior keys fields = .ok (fields', additions)) :
    (∀ a ∈ additions, a.value.depth ≤ nesting prior) ∧
      ∀ kv ∈ fields', kv ∈ fields ∨ ∃ a ∈ additions, a.value = kv.2 := by
  induction keys generalizing fields fields' additions with
  | nil =>
    obtain ⟨rfl, rfl⟩ := Prod.mk.inj (ok.inj h)
    exact ⟨by simp, fun kv hkv => .inl hkv⟩
  | cons key keys ih =>
    rw [substitute] at h
    cases hlookup : fields.lookup key with
    | none => simp [hlookup] at h
    | some reference =>
      cases hresolved : resolveReference reference prior with
      | none => simp [hlookup, hresolved] at h
      | some resolved =>
        simp only [hlookup, hresolved] at h
        cases hrest : substitute prior keys
            (insert key.tail resolved (remove key fields)) with
        | error e => simp [hrest, bind, Except.bind] at h
        | ok r =>
          obtain ⟨rest, more⟩ := r
          rw [hrest] at h
          obtain ⟨rfl, rfl⟩ := Prod.mk.inj (ok.inj h)
          obtain ⟨hdepth, hfields⟩ := ih hrest
          refine ⟨forall_mem_cons.2 ⟨resolveReference_depth_le hresolved, hdepth⟩, ?_⟩
          intro kv hkv
          rcases hfields kv hkv with hin | ⟨a, ha, hav⟩
          · rcases mem_insert hin with rfl | hin
            · exact .inr ⟨_, mem_cons_self .., rfl⟩
            · exact .inl (mem_filter.1 hin).1
          · exact .inr ⟨a, mem_cons_of_mem _ ha, hav⟩

end Substitute

/-! ## The whole tree -/

section Walk

variable {f g : Value → Except Stop (Value × List Addition)}

lemma walkItems_settled {items : List Value} (h : ∀ v ∈ items, Settled (f v)) :
    Settled (walkItems f items) := by
  induction items with
  | nil => exact .ok _
  | cons v vs ih =>
    obtain ⟨hv, hvs⟩ := forall_mem_cons.1 h
    exact hv.bind fun _ _ => (ih hvs).bind fun _ _ => .ok _

lemma walkFields_settled {fields : List (List Char × Value)}
    (h : ∀ kv ∈ fields, Settled (f kv.2)) : Settled (walkFields f fields) := by
  induction fields with
  | nil => exact .ok _
  | cons kv fields ih =>
    obtain ⟨hv, hfields⟩ := forall_mem_cons.1 h
    exact hv.bind fun _ _ => (ih hfields).bind fun _ _ => .ok _

lemma walkItems_congr {items : List Value} (h : ∀ v ∈ items, f v = g v) :
    walkItems f items = walkItems g items := by
  induction items with
  | nil => rfl
  | cons v vs ih =>
    obtain ⟨hv, hvs⟩ := forall_mem_cons.1 h
    rw [walkItems, walkItems, hv, ih hvs]

lemma walkFields_congr {fields : List (List Char × Value)}
    (h : ∀ kv ∈ fields, f kv.2 = g kv.2) : walkFields f fields = walkFields g fields := by
  induction fields with
  | nil => rfl
  | cons kv fields ih =>
    obtain ⟨hv, hfields⟩ := forall_mem_cons.1 h
    rw [walkFields, walkFields, hv, ih hfields]

end Walk

section Clean

variable (prior : List Value)

/-- Whether every reference of a tree, down to `frames` levels, resolves to a value without a
`#`-prefixed key. -/
def clean : ℕ → Value → Bool
  | frames + 1, .object fields =>
      match substitute prior (references fields) fields with
      | .ok (fields, additions) =>
          additions.all (!·.value.anyKey isReference) && fields.all (clean frames ·.2)
      | .error _ => true
  | frames + 1, .array items => items.all (clean frames)
  | _, _ => true

variable {prior}

def Fixed (prior : List Value) (frames : ℕ) (v : Value) : Prop :=
  Settled (resolveReferencesRecursive prior frames v) ∧ ∀ more,
    resolveReferencesRecursive prior (frames + more) v = resolveReferencesRecursive prior frames v

lemma fixed_object {frames : ℕ} {fields : List (List Char × Value)}
    (h : ∀ fields' additions,
      substitute prior (references fields) fields = .ok (fields', additions) →
        ∀ kv ∈ fields', Fixed prior frames kv.2) :
    Fixed prior (frames + 1) (.object fields) := by
  constructor
  · rw [resolveReferencesRecursive]
    refine (references_settled fields).bind fun r hr => ?_
    refine (walkFields_settled fun kv hkv => ?_).bind fun _ _ => .ok _
    exact (h r.1 r.2 hr kv hkv).1
  · intro more
    rw [show frames + 1 + more = (frames + more) + 1 by omega, resolveReferencesRecursive,
      resolveReferencesRecursive]
    cases hr : substitute prior (references fields) fields with
    | error e => rfl
    | ok r =>
      have hwalk : walkFields (resolveReferencesRecursive prior (frames + more)) r.1 =
          walkFields (resolveReferencesRecursive prior frames) r.1 :=
        walkFields_congr fun kv hkv => (h r.1 r.2 hr kv hkv).2 more
      simp only [bind, Except.bind, hwalk]

lemma fixed_array {frames : ℕ} {items : List Value} (h : ∀ v ∈ items, Fixed prior frames v) :
    Fixed prior (frames + 1) (.array items) := by
  constructor
  · rw [resolveReferencesRecursive]
    exact (walkItems_settled fun v hv => (h v hv).1).bind fun _ _ => .ok _
  · intro more
    have hwalk : walkItems (resolveReferencesRecursive prior (frames + more)) items =
        walkItems (resolveReferencesRecursive prior frames) items :=
      walkItems_congr fun v hv => (h v hv).2 more
    rw [show frames + 1 + more = (frames + more) + 1 by omega, resolveReferencesRecursive,
      resolveReferencesRecursive, hwalk]

lemma fixed_of_depth_le {frames : ℕ} {v : Value} (hkeys : v.anyKey isReference = false)
    (hv : v.depth ≤ frames) : Fixed prior frames v := by
  induction frames generalizing v with
  | zero => exact absurd hv (Nat.not_le_of_lt v.depth_pos)
  | succ frames ih =>
    cases v with
    | object fields =>
      have hkeys := anyKey_object.1 hkeys
      have hnone : references fields = [] := by
        have : (fields.map (·.1)).filter isReference = [] := by
          simp only [filter_eq_nil_iff, List.mem_map]
          rintro _ ⟨kv, hkv, rfl⟩
          simp [(hkeys kv hkv).1]
        rw [references, this, dedup_nil]
      refine fixed_object fun fields' additions hr kv hkv => ?_
      obtain ⟨rfl, -⟩ : fields = fields' ∧ [] = additions := by
        rw [hnone, substitute] at hr
        exact Prod.mk.inj (ok.inj hr)
      exact ih (hkeys kv hkv).2 (depth_object_le.1 hv kv hkv)
    | array items =>
      exact fixed_array fun v hmem =>
        ih (anyKey_array.1 hkeys v hmem) (depth_array_le.1 hv v hmem)
    | _ => exact ⟨.ok _, fun more => by rw [Nat.succ_add]; rfl⟩

lemma resolveReferencesRecursive_settled {n : ℕ} {v : Value} (hv : v.depth ≤ n)
    (hclean : clean prior (n + nesting prior) v) : Fixed prior (n + nesting prior) v := by
  induction n generalizing v with
  | zero => exact absurd hv (Nat.not_le_of_lt v.depth_pos)
  | succ n ih =>
    rw [Nat.succ_add] at hclean ⊢
    cases v with
    | object fields =>
      refine fixed_object fun fields' additions hr kv hkv => ?_
      simp only [clean, hr, Bool.and_eq_true, List.all_eq_true, Bool.not_eq_true'] at hclean
      obtain ⟨hdepth, hfields⟩ := substitute_fields hr
      rcases hfields kv hkv with hin | ⟨a, ha, hav⟩
      · exact ih (depth_object_le.1 hv kv hin) (hclean.2 kv hkv)
      · rw [← hav]
        exact fixed_of_depth_le (hclean.1 a ha) (le_trans (hdepth a ha) (Nat.le_add_left ..))
    | array items =>
      simp only [clean, List.all_eq_true] at hclean
      exact fixed_array fun v hmem => ih (depth_array_le.1 hv v hmem) (hclean v hmem)
    | _ => exact ⟨.ok _, fun more => by rw [Nat.succ_add]; rfl⟩

end Clean

/-! ## Calls and requests -/

lemma Resolver.resolve_settled (self : Resolver) {args : Value}
    (h : clean prior (args.depth + nesting prior) args) :
    ∃ r, ∀ frames, args.depth + nesting prior ≤ frames →
      self.resolve frames args prior = some r := by
  obtain ⟨hsettled, hmore⟩ := resolveReferencesRecursive_settled (le_refl args.depth) h
  have hsome : ∃ r, self.resolve (args.depth + nesting prior) args prior = some r := by
    unfold Resolver.resolve
    cases hr : resolveReferencesRecursive prior (args.depth + nesting prior) args with
    | error e =>
      obtain rfl := hsettled e hr
      exact ⟨_, rfl⟩
    | ok r =>
      dsimp only
      split_ifs <;> exact ⟨_, rfl⟩
  obtain ⟨r, hr⟩ := hsome
  refine ⟨r, fun frames hframes => ?_⟩
  obtain ⟨more, rfl⟩ := Nat.exists_eq_add_of_le hframes
  rw [← hr, Resolver.resolve, Resolver.resolve, hmore more]

namespace Dispatch

/-- What the guarantee needs of a request: at each call, the references resolve to values without
`#`-prefixed keys. -/
def Meets (env : Env) (d : Dispatch) : List MethodCall → Bool
  | [] => true
  | call :: calls =>
      clean d.responses (d.frames call) call.args &&
        (d.step env (d.frames call) call).all fun d => d.Meets env calls

/-- The resolver has counted what was substituted, and it is within the limit. -/
structure Accounted (d : Dispatch) : Prop where
  limits : d.resolver.limits = maxRequestLimits
  substituted : d.substituted = d.resolver.resolvedBytes
  within : d.resolver.resolvedBytes ≤ maxRequestLimits.maxSizeRequest

lemma Accounted.step {env : Env} {frames : ℕ} {d d' : Dispatch} {call : MethodCall}
    (h : d.Accounted) (hstep : d.step env frames call = some d') : d'.Accounted := by
  obtain ⟨r, hr, rfl⟩ := map_eq_some_iff.1 hstep
  unfold Resolver.resolve at hr
  cases hwalk : resolveReferencesRecursive d.responses frames call.args with
  | error e =>
    rw [hwalk] at hr
    cases e <;> simp only [reduceCtorEq, some.injEq] at hr
    exact hr ▸ ⟨h.limits, h.substituted, h.within⟩
  | ok walked =>
    simp only [hwalk] at hr
    split_ifs at hr with hobjects hbytes
    · exact some.inj hr ▸ ⟨h.limits, h.substituted, h.within⟩
    · exact some.inj hr ▸ ⟨h.limits, h.substituted, h.within⟩
    · -- The sum is far from the largest word, so it is the sum.
      rw [not_lt, h.limits] at hbytes
      have hsum := add_le_of_saturatingAdd_le (by decide) hbytes
      have hexact := saturatingAdd_eq (w := 64) (le_trans hsum (by decide))
      rw [hexact] at hr hbytes
      exact some.inj hr ▸ ⟨h.limits, by rw [h.substituted], hbytes⟩

variable {d : Dispatch}

lemma step_accepted (env : Env) {frames : ℕ} {call : MethodCall} {args : Value}
    {additions : List Addition}
    (hwalk : resolveReferencesRecursive d.responses frames call.args = .ok (args, additions))
    (hobjects : additions.any (·.elements > d.resolver.limits.maxObjectsPerReference) = false)
    (hbytes : saturatingAdd 64 d.resolver.resolvedBytes (additions.map (·.bytes)).sum ≤
      d.resolver.limits.maxSizeRequest) :
    d.step env frames call = some
      ⟨{ d.resolver with
          resolvedBytes :=
            saturatingAdd 64 d.resolver.resolvedBytes (additions.map (·.bytes)).sum },
        d.responses ++ [answer env call args], d.substituted + (additions.map (·.bytes)).sum⟩ := by
  have hresolve : d.resolver.resolve frames call.args d.responses = some (.ok (args, additions),
      { d.resolver with
        resolvedBytes :=
          saturatingAdd 64 d.resolver.resolvedBytes (additions.map (·.bytes)).sum }) := by
    simp only [Resolver.resolve, hwalk, hobjects, Bool.false_eq_true, if_false,
      if_neg (Nat.not_lt.2 hbytes)]
  rw [step, hresolve]
  rfl

lemma step_of_clean (env : Env) {call : MethodCall}
    (h : clean d.responses (d.frames call) call.args) :
    ∃ d', d.step env (d.frames call) call = some d' := by
  obtain ⟨r, hr⟩ := d.resolver.resolve_settled h
  exact ⟨_, map_eq_some_iff.2 ⟨r, hr _ (le_refl _), rfl⟩⟩

lemma run_of_meets {env : Env} (hd : d.Accounted) {calls : List MethodCall}
    (h : d.Meets env calls) : ∃ d', d.run env calls = some d' ∧ d'.Accounted := by
  induction calls generalizing d with
  | nil => exact ⟨d, rfl, hd⟩
  | cons call calls ih =>
    rw [Meets, Bool.and_eq_true] at h
    obtain ⟨next, hnext⟩ := step_of_clean env h.1
    have hrest : next.Meets env calls := by simpa [hnext] using h.2
    obtain ⟨d', hrun, hd'⟩ := ih (hd.step hnext) hrest
    exact ⟨d', by rw [run, hnext]; exact hrun, hd'⟩

lemma meets_append {env : Env} {pre rest : List MethodCall} (h : d.Meets env (pre ++ rest)) :
    d.Meets env pre ∧ ∀ d', d.run env pre = some d' → d'.Meets env rest := by
  induction pre generalizing d with
  | nil => exact ⟨rfl, fun d' hd' => some.inj hd' ▸ h⟩
  | cons call pre ih =>
    rw [cons_append, Meets, Bool.and_eq_true] at h
    obtain ⟨next, hnext⟩ := step_of_clean env h.1
    obtain ⟨hpre, hrest⟩ := ih (d := next) (by simpa [hnext] using h.2)
    refine ⟨by simp [Meets, h.1, hnext, hpre], fun d' hd' => hrest d' ?_⟩
    simpa [run, hnext] using hd'

end Dispatch

lemma accounted_start : (start maxRequestLimits).Accounted :=
  ⟨rfl, rfl, Nat.zero_le _⟩

/-- In a request whose references resolve to values without `#`-prefixed keys, the resolver comes
to an end on each call with as many frames as the arguments and the responses before it are deep
(and with any more, with the same result), and what it substitutes into the accepted calls is at
most the size of a request. -/
theorem references_bounded (env : Env) (calls : List MethodCall)
    (h : (start maxRequestLimits).Meets env calls) :
    (∀ pre call post, calls = pre ++ call :: post →
      ∃ d, (start maxRequestLimits).run env pre = some d ∧
        ∃ r, ∀ frames, call.args.depth + nesting d.responses ≤ frames →
          d.resolver.resolve frames call.args d.responses = some r) ∧
      ∃ d, (start maxRequestLimits).run env calls = some d ∧
        d.substituted ≤ maxRequestLimits.maxSizeRequest := by
  constructor
  · rintro pre call post rfl
    obtain ⟨hpre, hrest⟩ := meets_append h
    obtain ⟨d, hd, -⟩ := run_of_meets accounted_start hpre
    refine ⟨d, hd, d.resolver.resolve_settled ?_⟩
    have hcall := hrest d hd
    rw [Dispatch.Meets, Bool.and_eq_true] at hcall
    exact hcall.1
  · obtain ⟨d, hd, haccounted⟩ := run_of_meets accounted_start h
    exact ⟨d, hd, haccounted.substituted ▸ haccounted.within⟩

/-! ## Requests of echo calls -/

/-- No call is refused. -/
def openEnv : Env := ⟨fun _ _ _ => none, fun _ _ _ => .null⟩

def echo (callId : String) (fields : List (List Char × Value)) : MethodCall :=
  ⟨"Core/echo".toList, .object fields, callId.toList⟩

def echoRef (callId path : String) : Value :=
  .object [("name".toList, .string "Core/echo".toList), ("path".toList, .string path.toList),
    ("resultOf".toList, .string callId.toList)]

/-- What the second response of the request below holds: under a `#`-prefixed key, a reference to
the response itself. -/
def loopFields : List (List Char × Value) := [("#x".toList, echoRef "c1" "")]

def loopResponses : List Value :=
  [.array [.string "Core/echo".toList, .object [("a".toList, echoRef "c1" "")],
      .string "c0".toList],
    .array [.string "Core/echo".toList, .object loopFields, .string "c1".toList]]

lemma loop_tooDeep (key : List Char) (frames : ℕ) :
    resolveReferencesRecursive loopResponses frames
      (.object [('#' :: key, echoRef "c1" "")]) = .error .tooDeep := by
  induction frames generalizing key with
  | zero => rfl
  | succ frames ih =>
    have hresolve : resolveReference (echoRef "c1" "") loopResponses = some (.object loopFields) :=
      rfl
    have hkeys : references [('#' :: key, echoRef "c1" "")] = ['#' :: key] := by
      simp [references, isReference]
    have hsubst : ∃ additions, substitute loopResponses ['#' :: key]
        [('#' :: key, echoRef "c1" "")] = .ok ([(key, .object loopFields)], additions) := by
      simp only [substitute, lookup_cons_self, hresolve]
      exact ⟨_, by simp [Value.remove, Value.insert, bind, Except.bind]; rfl⟩
    obtain ⟨additions, hsubst⟩ := hsubst
    rw [resolveReferencesRecursive, hkeys, hsubst]
    simp only [bind, Except.bind, walkFields, loopFields,
      show "#x".toList = '#' :: "x".toList by decide, ih]

def loopFirst : MethodCall := echo "c0" [("a".toList, echoRef "c1" "")]

def loopSecond : MethodCall := echo "c1" [("##x".toList, echoRef "c0" "/a")]

lemma loop_responses : ∃ d, (start maxRequestLimits).run openEnv
    [loopFirst, loopSecond] = some d ∧ d.responses = loopResponses := by
  let d : Dispatch := ⟨⟨maxRequestLimits, 0⟩, loopResponses.take 1, 0⟩
  have hfirst : (start maxRequestLimits).step openEnv 3 loopFirst = some d := by
    have hwalk : resolveReferencesRecursive (start maxRequestLimits).responses 3
        loopFirst.args = .ok (loopFirst.args, []) := rfl
    exact step_accepted openEnv hwalk rfl (by decide)
  have hsecond : ∃ d', d.step openEnv 7 loopSecond = some d' ∧ d'.responses = loopResponses := by
    have hwalk : resolveReferencesRecursive d.responses 7 loopSecond.args =
        .ok (.object loopFields,
          [⟨"##x".toList, echoRef "c1" "", (echoRef "c1" "").byteSize, 3⟩]) :=
      rfl
    exact ⟨_, step_accepted openEnv hwalk (by decide) (by decide +kernel), rfl⟩
  obtain ⟨d', hsecond, hresponses⟩ := hsecond
  have hframes : (start maxRequestLimits).frames loopFirst = 3 := by decide +kernel
  have hframes' : d.frames loopSecond = 7 := by decide +kernel
  refine ⟨d', ?_, hresponses⟩
  rw [run, hframes, hfirst, bind_eq_bind, bind_some, run, hframes',
    hsecond]
  rfl

/-- A key that begins with two `#` puts a reference under a `#`-prefixed key into a response; a
reference to that response never comes to an end. -/
theorem reference_reaches_itself :
    ∃ d, (start maxRequestLimits).run openEnv [loopFirst, loopSecond] = some d ∧
      ∀ frames, d.resolver.resolve frames (.object [('#' :: "y".toList, echoRef "c1" "")])
        d.responses = none := by
  obtain ⟨d, hd, hresponses⟩ := loop_responses
  refine ⟨d, hd, fun frames => ?_⟩
  unfold Resolver.resolve
  rw [hresponses, loop_tooDeep]

/-- Two calls, the second with the result of the first. -/
theorem references_bounded_echo :
    let calls := [echo "c0" [("a".toList, .array [.string "id".toList])],
      echo "c1" [("##b".toList, echoRef "c0" "/a/*")]]
    (start maxRequestLimits).Meets openEnv calls ∧
      ∃ d, (start maxRequestLimits).run openEnv calls = some d ∧
        d.substituted ≤ maxRequestLimits.maxSizeRequest :=
  have h : (start maxRequestLimits).Meets openEnv
      [echo "c0" [("a".toList, .array [.string "id".toList])],
        echo "c1" [("##b".toList, echoRef "c0" "/a/*")]] := by
    decide +kernel
  ⟨h, (references_bounded openEnv _ h).2⟩

end Epistle.Jmap
