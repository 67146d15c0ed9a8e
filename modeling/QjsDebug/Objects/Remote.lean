/-
# Remote objects

`js_value_to_remote_object` describes a JavaScript value to the client.  A value that has
properties is described by reference: its properties are converted, the list is put into
`object_store_` under a fresh id (`store_object`), and the description carries the id.  The client
reads the list back with `get_properties`.

The engine is a parameter (`JsEngine`): what a value is, what its properties are, and what reading
them does to the heap, which is of any type and may be cyclic.  The recursion ends because it
carries its depth, and the loops because they are bounded, so the conversion below is a function.

§3 is about what the store looks like while values are half built: every id handed out so far is
a key, every key is an id handed out once, and every list already stored only mentions keys
(`Filled`).
-/
import Mathlib.Data.List.ReduceOption
import QjsDebug.Cdp.Scripts
import QjsDebug.Lib.Growth

namespace QjsDebug

open Json (Value)

namespace Objects

/-! ## 1. The engine and the store -/

/-- What `js_value_to_remote_object` finds a value to be, in the order of its tests. -/
inductive Kind
  | undefined
  | null
  | bool (b : Bool)
  | int (v : Int)
  | number (d : Json.Double)
  /-- The characters, unless `JS_ToCString` fails. -/
  | string (s : Option Bytes)
  | function
  | array
  | object
  /-- Symbols, exceptions and the like. -/
  | other

/-- The calls of the debugger into the engine, over heaps `σ` and values `α`.  Reading a property
may run a getter, so it may change the heap. -/
structure JsEngine (σ α : Type) where
  kind : σ → α → Kind
  /-- `JS_GetPropertyStr(val, "length")` and `JS_ToInt32`. -/
  length : α → σ → Int × σ
  /-- `JS_GetPropertyUint32`. -/
  element : α → Nat → σ → α × σ
  /-- `JS_GetOwnPropertyNames` for the enumerable string keys; `none` when it fails. -/
  ownPropertyNames : α → σ → Option (List Nat) × σ
  /-- `JS_GetProperty` of an atom. -/
  property : α → Nat → σ → α × σ
  /-- `JS_AtomToCString`. -/
  atomToCString : σ → Nat → Option Bytes
  /-- `JS_GetGlobalObject`. -/
  global : σ → α
  /-- `JS_GetLocalVariablesAtLevel`. -/
  locals : σ → Int → Option (List (Option Bytes × α))
  /-- `JS_Eval` of an expression; an exception with its text. -/
  eval : Bytes → σ → Except (Option Bytes) α × σ
  /-- `snprintf("%.17g", ·)`. -/
  fmt17g : Json.Double → Bytes

/-- `object_store_` and `next_obj_id_`. -/
structure ObjectStore where
  objects : List (Bytes × Value)
  nextObjId : Int
  /-- The calls of `store_object` since the store was last cleared, as an observation: the id
  each one returned and the list it was given. -/
  stored : List (Bytes × Value)

/-- The store as `capture_frames` clears it. -/
def ObjectStore.empty : ObjectStore where
  objects := []
  nextObjId := 1
  stored := []

/-- The id of the `n`-th object. -/
def objectId (n : Int) : Bytes :=
  ascii "\x7b\"ordinal\":" ++ decimal n ++ ascii ",\"injectedScriptId\":1\x7d"

/-- `get_properties`. -/
def ObjectStore.getProperties (st : ObjectStore) (oid : Bytes) : Value :=
  .ofFields [("result", (SortedMap.find oid st.objects).getD (.array []))]

/-- What a conversion works on. -/
structure Inspected (σ : Type) where
  heap : σ
  store : ObjectStore

/-- A piece of the code that converts values. -/
abbrev Inspect (σ β : Type) := StateM (Inspected σ) β

section

variable {σ α β : Type}

/-- A call into the engine. -/
def call (f : σ → β × σ) : Inspect σ β :=
  fun s => ((f s.heap).1, { s with heap := (f s.heap).2 })

/-- A question to the engine that changes nothing. -/
def ask (f : σ → β) : Inspect σ β := call fun heap => (f heap, heap)

/-- `store_object`; the group it is given is not read. -/
def storeObject (props : Value) : Inspect σ Bytes := fun s =>
  let oid := objectId s.store.nextObjId
  (oid, { s with
    store :=
      { objects := SortedMap.insert oid props s.store.objects
        nextObjId := s.store.nextObjId + 1
        stored := s.store.stored ++ [(oid, props)] } })

/-! ## 2. The conversion -/

/-- The six fields of a property in a list. -/
def ownProperty (name : Bytes) (value : Value) : Value :=
  .ofFields [("name", .string name), ("value", value), ("writable", .bool true),
    ("configurable", .bool true), ("enumerable", .bool true), ("isOwn", .bool true)]

/-- The `length` property that ends the list of an array. -/
def lengthProperty (len : Int) : Value :=
  .ofFields [("name", .lit "length"),
    ("value", .ofFields [("type", .lit "number"), ("value", .ofInt len),
      ("description", .string (decimal len))]),
    ("writable", .bool true), ("configurable", .bool false), ("enumerable", .bool false),
    ("isOwn", .bool true)]

variable (engine : JsEngine σ α)

/-- A value that is described without a reference. -/
def plainObject : Kind → Value
  | .undefined => .ofFields [("type", .lit "undefined")]
  | .null => .ofFields [("type", .lit "object"), ("subtype", .lit "null"), ("value", .null)]
  | .bool b =>
    .ofFields [("type", .lit "boolean"), ("value", .bool b),
      ("description", .lit (if b then "true" else "false"))]
  | .int v =>
    .ofFields [("type", .lit "number"), ("value", .ofInt v), ("description", .string (decimal v))]
  | .number d =>
    .ofFields [("type", .lit "number"), ("value", .number d),
      ("description", .string (engine.fmt17g d))]
  | .string (some s) =>
    .ofFields [("type", .lit "string"), ("value", .string s),
      ("description", .string (ascii "\"" ++ s ++ ascii "\""))]
  | .string none => .object []
  | .function | .array | .object | .other => .ofFields [("type", .lit "undefined")]

/-- The loop over the own properties of an object, as far as `limit`; a property whose name
cannot be read is left out. -/
def ownProperties (convert : α → Inspect σ Value) (limit : Nat) (val : α) :
    Inspect σ (List Value) := do
  let names ← call (engine.ownPropertyNames val)
  let props ← ((names.getD []).take limit).mapM fun atom => do
    let pval ← call (engine.property val atom)
    let pname ← ask fun heap => engine.atomToCString heap atom
    match pname with
    | some pname => do
      let value ← convert pval
      return some (ownProperty pname value)
    | none => return none
  return props.reduceOption

/-- The loop over the elements of an array. -/
def elements (convert : α → Inspect σ Value) (len : Int) (val : α) : Inspect σ (List Value) :=
  (List.range (min len.toNat 100)).mapM fun i => do
    let elem ← call (engine.element val i)
    let value ← convert elem
    return ownProperty (decimal i) value

/-- The depth gate: the loop over the children runs only when there is a way to convert them. -/
def gated (child : Option (α → Inspect σ Value))
    (loop : (α → Inspect σ Value) → Inspect σ (List Value)) : Inspect σ (List Value) :=
  match child with
  | some convert => loop convert
  | none => pure []

/-- An object that refers to a list of properties: the list is stored, and its id is set. -/
def referring (fields : List (String × Value)) (props : List Value) : Inspect σ Value := do
  let oid ← storeObject (.array props)
  return (Value.ofFields fields).set (ascii "objectId") (.string oid)

/-- `js_value_to_remote_object`, given how children are converted; `none` past the depth limit,
where lists are left empty. -/
def remoteObject (child : Option (α → Inspect σ Value)) (val : α) : Inspect σ Value := do
  let kind ← ask fun heap => engine.kind heap val
  match kind with
  | .function =>
    referring [("type", .lit "function"), ("className", .lit "Function"),
      ("description", .lit "function()")] []
  | .array =>
    let len ← call (engine.length val)
    let props ← gated child fun convert => elements engine convert len val
    referring [("type", .lit "object"), ("subtype", .lit "array"), ("className", .lit "Array"),
      ("description", .string (ascii "Array(" ++ decimal len ++ ascii ")"))]
      (props ++ [lengthProperty len])
  | .object =>
    let props ← gated child fun convert => ownProperties engine convert 100 val
    referring [("type", .lit "object"), ("className", .lit "Object"),
      ("description", .lit "Object")] props
  | kind => return plainObject engine kind

/-- `kMaxRemoteObjectDepth`. -/
def kMaxRemoteObjectDepth : Nat := 1

/-- The conversion with so many levels left below it. -/
def convertLevels : Nat → α → Inspect σ Value
  | 0 => remoteObject engine none
  | levels + 1 => remoteObject engine (some (convertLevels levels))

/-- `js_value_to_remote_object(val, group, depth)`. -/
def jsValueToRemoteObject (depth : Nat) (val : α) : Inspect σ Value :=
  convertLevels engine (kMaxRemoteObjectDepth - depth) val

/-- The recursion of the source: children are converted one level deeper, below the limit. -/
theorem jsValueToRemoteObject_eq (depth : Nat) :
    jsValueToRemoteObject engine depth =
      remoteObject engine
        (if depth < kMaxRemoteObjectDepth then some (jsValueToRemoteObject engine (depth + 1))
         else none) := by
  funext val
  unfold jsValueToRemoteObject
  split
  · rename_i hlt
    obtain ⟨n, hn⟩ : ∃ n, kMaxRemoteObjectDepth - depth = n + 1 :=
      ⟨kMaxRemoteObjectDepth - depth - 1, by omega⟩
    have hn' : kMaxRemoteObjectDepth - (depth + 1) = n := by omega
    rw [hn, hn']
    rfl
  · rename_i hge
    have h0 : kMaxRemoteObjectDepth - depth = 0 := by omega
    rw [h0]
    rfl

end

/-! ## 3. References

`Refers v oid` says that `oid` stands somewhere in `v` as the `objectId` of an object. -/

inductive Refers : Value → Bytes → Prop
  | here {kvs : List (Bytes × Value)} {oid : Bytes} :
      (ascii "objectId", .string oid) ∈ kvs → Refers (.object kvs) oid
  | field {kvs : List (Bytes × Value)} {key oid : Bytes} {v : Value} :
      (key, v) ∈ kvs → Refers v oid → Refers (.object kvs) oid
  | element {xs : List Value} {v : Value} {oid : Bytes} :
      v ∈ xs → Refers v oid → Refers (.array xs) oid

/-- The id was handed out since the store was last cleared. -/
def ObjectStore.Known (st : ObjectStore) (oid : Bytes) : Prop := ∃ props, (oid, props) ∈ st.stored

/-- Every reference in the value was handed out. -/
def ObjectStore.Resolved (st : ObjectStore) (v : Value) : Prop := ∀ oid, Refers v oid → st.Known oid

section

variable {st : ObjectStore}

@[simp] theorem resolved_null : st.Resolved .null := fun _ h => nomatch h
@[simp] theorem resolved_bool (b : Bool) : st.Resolved (.bool b) := fun _ h => nomatch h
@[simp] theorem resolved_number (d : Json.Double) : st.Resolved (.number d) := fun _ h => nomatch h
@[simp] theorem resolved_ofInt (n : Int) : st.Resolved (.ofInt n) := fun _ h => nomatch h
@[simp] theorem resolved_string (s : Bytes) : st.Resolved (.string s) := fun _ h => nomatch h
@[simp] theorem resolved_lit (s : String) : st.Resolved (.lit s) := fun _ h => nomatch h

@[simp] theorem resolved_array {xs : List Value} :
    st.Resolved (.array xs) ↔ ∀ v ∈ xs, st.Resolved v := by
  constructor
  · intro h v hv oid hoid
    exact h oid (.element hv hoid)
  · intro h oid hoid
    cases hoid with
    | element hv hv' => exact h _ hv oid hv'

@[simp] theorem resolved_object_nil : st.Resolved (.object []) := by
  intro oid h
  cases h with
  | here hmem => exact absurd hmem (List.not_mem_nil)
  | field hmem _ => exact absurd hmem (List.not_mem_nil)

/-- Setting a field adds the references of its value, and the value itself where the field is the
`objectId`. -/
theorem Refers.of_set {v w : Value} {key oid : Bytes} (h : Refers (v.set key w) oid) :
    Refers v oid ∨ Refers w oid ∨ (key = ascii "objectId" ∧ w = .string oid) := by
  have hmem : ∀ {kvs : List (Bytes × Value)}, v = .object kvs →
      Refers (.object (SortedMap.insert key w kvs)) oid →
      Refers v oid ∨ Refers w oid ∨ (key = ascii "objectId" ∧ w = .string oid) := by
    rintro kvs rfl h
    cases h with
    | here hin =>
      rcases SortedMap.mem_insert hin with heq | hin
      · exact Or.inr (Or.inr ⟨(Prod.mk.inj heq).1.symm, (Prod.mk.inj heq).2.symm⟩)
      · exact Or.inl (.here hin)
    | field hin hv =>
      rcases SortedMap.mem_insert hin with heq | hin
      · exact Or.inr (Or.inl ((Prod.mk.inj heq).2 ▸ hv))
      · exact Or.inl (.field hin hv)
  have hone : Refers (.object [(key, w)]) oid →
      Refers v oid ∨ Refers w oid ∨ (key = ascii "objectId" ∧ w = .string oid) := by
    intro h
    cases h with
    | here hin =>
      have heq := List.mem_singleton.mp hin
      exact Or.inr (Or.inr ⟨(Prod.mk.inj heq).1.symm, (Prod.mk.inj heq).2.symm⟩)
    | field hin hv =>
      have heq := List.mem_singleton.mp hin
      exact Or.inr (Or.inl ((Prod.mk.inj heq).2 ▸ hv))
  cases v with
  | object kvs => exact hmem rfl h
  | _ => exact hone h

/-- A reference in a field is a reference of the object. -/
theorem Refers.of_index {v : Value} {key oid : Bytes} (h : Refers (v.index key) oid) :
    Refers v oid := by
  cases v with
  | object kvs =>
    simp only [Value.index] at h
    cases hfind : SortedMap.find key kvs with
    | none => rw [hfind] at h; cases h
    | some w =>
      rw [hfind] at h
      exact .field (SortedMap.mem_of_find hfind) h
  | _ => cases h

theorem refers_setObjectId (v : Value) (oid : Bytes) :
    Refers (v.set (ascii "objectId") (.string oid)) oid := by
  cases v with
  | object kvs => exact .here (SortedMap.mem_insert_self _ _ _)
  | _ => exact .here (List.mem_singleton.mpr rfl)

theorem resolved_set {v w : Value} {key : Bytes} (hkey : key ≠ ascii "objectId")
    (hv : st.Resolved v) (hw : st.Resolved w) : st.Resolved (v.set key w) := by
  intro oid h
  rcases h.of_set with h | h | ⟨h, -⟩
  · exact hv oid h
  · exact hw oid h
  · exact absurd h hkey

theorem resolved_setObjectId {v : Value} {oid : Bytes} (hv : st.Resolved v) (hoid : st.Known oid) :
    st.Resolved (v.set (ascii "objectId") (.string oid)) := by
  intro oid' h
  rcases h.of_set with h | h | ⟨-, h⟩
  · exact hv oid' h
  · exact resolved_string oid oid' h
  · obtain rfl := Value.string.inj h
    exact hoid

/-- The names under which the code sets anything but an `objectId`. -/
def fieldNames : List String :=
  ["type", "subtype", "className", "description", "value", "name", "writable", "configurable",
    "enumerable", "isOwn", "object", "callFrameId", "functionName", "location", "url",
    "scopeChain", "this", "scriptId", "lineNumber", "columnNumber", "result", "exceptionDetails"]

theorem ne_objectId_of_mem_fieldNames {key : String} (h : key ∈ fieldNames) :
    ascii key ≠ ascii "objectId" := by
  have hall : ∀ k ∈ fieldNames, ascii k ≠ ascii "objectId" := by decide
  exact hall key h

/-- An object without an `objectId` of its own refers to what its fields refer to. -/
theorem resolved_ofFields {fields : List (String × Value)}
    (hkeys : ∀ f ∈ fields, f.1 ∈ fieldNames) (hvals : ∀ f ∈ fields, st.Resolved f.2) :
    st.Resolved (.ofFields fields) := by
  have hfold : ∀ (fs : List (String × Value)) (v : Value), (∀ f ∈ fs, f ∈ fields) →
      st.Resolved v → st.Resolved (fs.foldl (fun v f => v.set (ascii f.1) f.2) v) := by
    intro fs
    induction fs with
    | nil => exact fun v _ hv => hv
    | cons f fs ih =>
      intro v hsub hv
      have hf := hsub f List.mem_cons_self
      refine ih _ (fun g hg => hsub g (List.mem_cons_of_mem _ hg)) ?_
      exact resolved_set (ne_objectId_of_mem_fieldNames (hkeys f hf)) hv (hvals f hf)
  exact hfold fields _ (fun _ h => h) resolved_object_nil

/-! ## 4. A filled store -/

/-- The store as the code fills it: the ids are the numbers in order, what is stored under an id
is what `store_object` was given when it returned it, and every list refers to ids that were
handed out. -/
structure Filled (st : ObjectStore) : Prop where
  next_eq : st.nextObjId = st.stored.length + 1
  ids_eq : st.stored.map Prod.fst =
    (List.range st.stored.length).map fun i : Nat => objectId (i + 1)
  find_iff : ∀ oid props, SortedMap.find oid st.objects = some props ↔ (oid, props) ∈ st.stored
  closed : ∀ oid props, (oid, props) ∈ st.stored → st.Resolved props

theorem objectId_injective {m n : Int} (hm : 0 ≤ m) (hn : 0 ≤ n) (h : objectId m = objectId n) :
    m = n := by
  unfold objectId at h
  rw [List.append_assoc, List.append_assoc] at h
  exact decimal_injective hm hn (List.append_cancel_right (List.append_cancel_left h))

theorem filled_empty : Filled .empty where
  next_eq := rfl
  ids_eq := rfl
  find_iff := by
    intro oid props
    simp [ObjectStore.empty, SortedMap.find]
  closed := by
    intro oid props h
    exact absurd h (List.not_mem_nil)

/-- The ids handed out so far are different, and the next one is different from them. -/
theorem Filled.ids_nodup (h : Filled st) :
    (st.stored.map Prod.fst).Nodup ∧ objectId st.nextObjId ∉ st.stored.map Prod.fst := by
  rw [h.ids_eq]
  constructor
  · refine List.Nodup.map_on ?_ List.nodup_range
    intro i _ j _ hij
    have := objectId_injective (by omega) (by omega) hij
    omega
  · intro hmem
    obtain ⟨i, hi, heq⟩ := List.mem_map.mp hmem
    have hlt := List.mem_range.mp hi
    have hnext := h.next_eq
    have := objectId_injective (by omega) (by omega) heq
    omega

/-- What `get_properties` returns for an id that was handed out. -/
theorem Filled.getProperties_eq (h : Filled st) {oid : Bytes} {props : Value}
    (hmem : (oid, props) ∈ st.stored) : st.getProperties oid = .ofFields [("result", props)] := by
  unfold ObjectStore.getProperties
  rw [(h.find_iff oid props).mpr hmem]
  rfl

theorem stored_refl {σ : Type} (s : Inspected σ) : s.store.stored <+: s.store.stored :=
  List.prefix_rfl

theorem stored_trans {σ : Type} (s t r : Inspected σ) (hst : s.store.stored <+: t.store.stored)
    (htr : t.store.stored <+: r.store.stored) : s.store.stored <+: r.store.stored :=
  hst.trans htr

/-- Growth of the store while values are converted: nothing stored is lost. -/
def inspecting (σ : Type) : Growth (Inspected σ) where
  inv := fun s => Filled s.store
  le := fun s t => s.store.stored <+: t.store.stored
  refl := stored_refl
  trans := stored_trans

theorem stable_known {σ : Type} (oid : Bytes) :
    (inspecting σ).Stable fun s => s.store.Known oid := by
  rintro s t hle ⟨props, hmem⟩
  exact ⟨props, hle.subset hmem⟩

theorem stable_resolved {σ : Type} (v : Value) :
    (inspecting σ).Stable fun s => s.store.Resolved v := by
  intro s t hle h oid hoid
  exact stable_known oid s t hle (h oid hoid)

/-- Storing a list of resolved properties keeps the store as it should be. -/
theorem Filled.store (h : Filled st) {props : Value} (hprops : st.Resolved props) :
    Filled
      { objects := SortedMap.insert (objectId st.nextObjId) props st.objects
        nextObjId := st.nextObjId + 1
        stored := st.stored ++ [(objectId st.nextObjId, props)] } := by
  obtain ⟨-, hfresh⟩ := h.ids_nodup
  have hgrow : ∀ v, st.Resolved v → ∀ oid, Refers v oid →
      ∃ ps, (oid, ps) ∈ st.stored ++ [(objectId st.nextObjId, props)] := by
    intro v hv oid hoid
    obtain ⟨ps, hps⟩ := hv oid hoid
    exact ⟨ps, List.mem_append_left _ hps⟩
  constructor
  · simp [h.next_eq]
  · simp [h.ids_eq, h.next_eq, List.range_succ]
  · intro oid ps
    rw [List.mem_append, List.mem_singleton, Prod.mk.injEq]
    by_cases heq : oid = objectId st.nextObjId
    · subst heq
      have hno : (objectId st.nextObjId, ps) ∉ st.stored :=
        fun hin => hfresh (List.mem_map.mpr ⟨_, hin, rfl⟩)
      rw [SortedMap.find_insert_self]
      constructor
      · intro hsome
        exact Or.inr ⟨rfl, (Option.some.inj hsome).symm⟩
      · rintro (hin | ⟨-, rfl⟩)
        · exact absurd hin hno
        · rfl
    · rw [SortedMap.find_insert_of_ne _ _ heq, h.find_iff]
      constructor
      · exact Or.inl
      · rintro (hin | ⟨hoid, -⟩)
        · exact hin
        · exact absurd hoid heq
  · intro oid ps hin
    rcases List.mem_append.mp hin with hin | hin
    · exact hgrow ps (h.closed oid ps hin)
    · obtain ⟨-, rfl⟩ := Prod.mk.inj (List.mem_singleton.mp hin)
      exact hgrow ps hprops

end

/-! ## 5. Every step of a conversion keeps the store filled -/

section

variable {σ α β : Type} {engine : JsEngine σ α}

/-- A property of the store that a call into the engine cannot change. -/
theorem triple_call {P : ObjectStore → Prop} (f : σ → β × σ) :
    (inspecting σ).Triple (fun s => P s.store) (call f) (fun _ s => P s.store) :=
  fun _ hs hP => ⟨hs, List.prefix_rfl, hP⟩

theorem triple_storeObject {P : ObjectStore → Prop} {props : Value}
    (hP : ∀ st, P st → st.Resolved props) :
    (inspecting σ).Triple (fun s => P s.store) (storeObject props)
      (fun oid s => s.store.Known oid) := by
  intro s hs hpre
  refine ⟨Filled.store hs (hP _ hpre), List.prefix_append _ _, props, ?_⟩
  exact List.mem_append_right _ (List.mem_singleton.mpr rfl)

/-- A converter of children that does what this section proves of all converters. -/
def Converts (convert : α → Inspect σ Value) : Prop :=
  ∀ val, (inspecting σ).Triple (fun _ => True) (convert val) (fun v s => s.store.Resolved v)

theorem resolved_ownProperty {st : ObjectStore} {v : Value} (name : Bytes) (hv : st.Resolved v) :
    st.Resolved (ownProperty name v) :=
  resolved_ofFields (by simp [fieldNames]) (by simp [hv])

/-- What a client reads of a property. -/
theorem index_ownProperty (name : Bytes) (v : Value) :
    (ownProperty name v).index (ascii "name") = .string name ∧
      (ownProperty name v).index (ascii "value") = v := by
  simp only [ownProperty, Value.ofFields, List.foldl_cons, List.foldl_nil]
  constructor <;> simp (disch := decide) only [Value.index_set_of_ne, Value.index_set_self]

/-- A property refers to what its value refers to. -/
theorem refers_ownProperty {v : Value} {oid : Bytes} (name : Bytes) (h : Refers v oid) :
    Refers (ownProperty name v) oid := by
  refine @Refers.of_index _ (ascii "value") _ ?_
  rw [(index_ownProperty name v).2]
  exact h

theorem resolved_lengthProperty {st : ObjectStore} (len : Int) :
    st.Resolved (lengthProperty len) := by
  have hlen : st.Resolved (.ofFields [("type", .lit "number"), ("value", .ofInt len),
      ("description", .string (decimal len))]) := resolved_ofFields (by simp [fieldNames]) (by simp)
  exact resolved_ofFields (by simp [fieldNames]) (by simp [hlen])

theorem resolved_plainObject {st : ObjectStore} (kind : Kind) :
    st.Resolved (plainObject engine kind) := by
  cases kind with
  | string s =>
    cases s with
    | none => exact resolved_object_nil
    | some s => exact resolved_ofFields (by simp [fieldNames]) (by simp)
  | _ => exact resolved_ofFields (by simp [fieldNames]) (by simp)

/-- The elements of an array. -/
theorem triple_elements {convert : α → Inspect σ Value} (hc : Converts convert) (len : Int)
    (val : α) :
    (inspecting σ).Triple (fun _ => True) (elements engine convert len val)
      (fun vs s => ∀ v ∈ vs, s.store.Resolved v) := by
  refine Growth.Triple.mapM (fun _ _ _ h => h) (fun v => stable_resolved v) _ fun i _ => ?_
  refine (triple_call (P := fun _ => True) _).bind fun elem => ?_
  refine (hc elem).bind fun v => Growth.Triple.pure fun s hs => ?_
  exact resolved_ownProperty _ hs

/-- The own properties of an object. -/
theorem triple_ownProperties {convert : α → Inspect σ Value} (hc : Converts convert) (limit : Nat)
    (val : α) :
    (inspecting σ).Triple (fun _ => True) (ownProperties engine convert limit val)
      (fun vs s => ∀ v ∈ vs, s.store.Resolved v) := by
  refine (triple_call (P := fun _ => True) _).bind fun names => ?_
  have hread : ∀ p : Option Value,
      (inspecting σ).Stable fun s => ∀ v, p = some v → s.store.Resolved v :=
    fun p s t hle h v hv => stable_resolved v s t hle (h v hv)
  refine (Growth.Triple.mapM (fun _ _ _ h => h) hread _ fun atom _ => ?_).bind fun ps => ?_
  · refine (triple_call (P := fun _ => True) _).bind fun pval => ?_
    refine (triple_call (P := fun _ => True) _).bind fun pname => ?_
    cases pname with
    | none => exact Growth.Triple.pure fun s _ v hv => absurd hv (by simp)
    | some pname =>
      refine (hc pval).bind fun v => Growth.Triple.pure fun s hs w hw => ?_
      exact Option.some.inj hw ▸ resolved_ownProperty _ hs
  · refine Growth.Triple.pure fun s hs v hv => ?_
    exact hs _ ((List.reduceOption_mem_iff).mp hv) v rfl

theorem triple_gated {child : Option (α → Inspect σ Value)}
    {loop : (α → Inspect σ Value) → Inspect σ (List Value)}
    (h : ∀ convert, child = some convert →
      (inspecting σ).Triple (fun _ => True) (loop convert)
        (fun vs s => ∀ v ∈ vs, s.store.Resolved v)) :
    (inspecting σ).Triple (fun _ => True) (gated child loop)
      (fun vs s => ∀ v ∈ vs, s.store.Resolved v) := by
  cases child with
  | none => exact Growth.Triple.pure fun s _ v hv => absurd hv List.not_mem_nil
  | some convert => exact h convert rfl

/-- The description of a value whose properties were stored. -/
theorem triple_referring {fields : List (String × Value)} {props : List Value}
    (hkeys : ∀ f ∈ fields, f.1 ∈ fieldNames)
    (hvals : ∀ f ∈ fields, ∀ st : ObjectStore, st.Resolved f.2) :
    (inspecting σ).Triple (fun s => ∀ v ∈ props, s.store.Resolved v) (referring fields props)
      (fun v s => s.store.Resolved v) := by
  have hstore := triple_storeObject (σ := σ) (P := fun st => ∀ v ∈ props, st.Resolved v)
    fun st hst => resolved_array.mpr hst
  refine hstore.bind fun oid => Growth.Triple.pure fun s hs => ?_
  exact resolved_setObjectId (resolved_ofFields hkeys fun f hf => hvals f hf _) hs

/-- **One level of the conversion.**  Whatever the children are converted by, as long as that keeps
the store filled. -/
theorem converts_remoteObject {child : Option (α → Inspect σ Value)}
    (hc : ∀ convert, child = some convert → Converts convert) :
    Converts (remoteObject engine child) := by
  intro val
  refine (triple_call (P := fun _ => True) _).bind fun kind => ?_
  cases kind with
  | function =>
    refine (triple_referring (by simp [fieldNames]) (by simp)).weaken ?_ fun _ _ h => h
    exact fun s _ v hv => absurd hv List.not_mem_nil
  | array =>
    refine (triple_call (P := fun _ => True) _).bind fun len => ?_
    refine (triple_gated fun convert h => triple_elements (hc convert h) len val).bind fun ps => ?_
    refine (triple_referring (by simp [fieldNames]) (by simp)).weaken ?_ fun _ _ h => h
    intro s hs v hv
    rcases List.mem_append.mp hv with hv | hv
    · exact hs v hv
    · exact List.mem_singleton.mp hv ▸ resolved_lengthProperty len
  | object =>
    refine (triple_gated fun convert h => triple_ownProperties (hc convert h) 100 val).bind ?_
    exact fun props => triple_referring (by simp [fieldNames]) (by simp)
  | _ => exact Growth.Triple.pure fun s _ => resolved_plainObject _

/-- **The conversion**, at every depth: the store stays filled, and the description refers to ids
that were handed out. -/
theorem converts_jsValueToRemoteObject (depth : Nat) :
    Converts (jsValueToRemoteObject engine depth) := by
  have hlevels : ∀ levels, Converts (convertLevels engine levels) := by
    intro levels
    induction levels with
    | zero => exact converts_remoteObject fun _ h => absurd h (by simp)
    | succ levels ih => exact converts_remoteObject fun _ h => Option.some.inj h ▸ ih
  exact hlevels _

end

end Objects

end QjsDebug
