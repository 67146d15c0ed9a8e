/-
# What the ids of a pause stand for

An `objectId` is there for one reason: the client is to be shown a tree, and is shown it piece by
piece.  So the purpose of the object store can be told without it.  In §1 the conversions are
written down once more, over the same engine, with the list of an object's properties inside its
description, where the code puts an id; nothing is stored and nothing is numbered.

`Unfolds st v w` (§2) says that `w` is what becomes of `v` when every id in it is replaced by the
list that was stored under it, and the ids in that list are too.  The theorem of this file is that
the frames of a pause and its answers unfold to the trees: each description carries the id of its
own list.  Together with the closedness of the store this is what a client relies on
(`object_store_closed`).
-/
import QjsDebug.Objects.Capture

namespace QjsDebug

open Json (Value)
open Cdp (Script frameLocation)

namespace Objects

variable {σ α : Type}

/-! ## 1. The conversions without a store -/

namespace Tree

/-- A call into the engine. -/
def call {β : Type} (f : σ → β × σ) : StateM σ β := f

/-- A question to the engine that changes nothing. -/
def ask {β : Type} (f : σ → β) : StateM σ β := call fun heap => (f heap, heap)

/-- An object with the list of its properties inside. -/
def referring (fields : List (String × Value)) (props : List Value) : StateM σ Value :=
  return (Value.ofFields fields).set (ascii "objectId") (.array props)

section

variable (engine : JsEngine σ α) (host : Host) (scripts : List Script)

def ownProperties (convert : α → StateM σ Value) (limit : Nat) (val : α) :
    StateM σ (List Value) := do
  let names ← call (engine.ownPropertyNames val)
  let props ← ((names.getD []).take limit).mapM fun atom => do
    let pval ← call (engine.property val atom)
    let pname ← ask fun heap => engine.atomToCString heap atom
    match pname with
    | some pname => do
      let value ← convert pval
      return some (ownProperty pname value)
    | none => return none
  return props.reduceOption

def elements (convert : α → StateM σ Value) (len : Int) (val : α) : StateM σ (List Value) :=
  (List.range (min len.toNat 100)).mapM fun i => do
    let elem ← call (engine.element val i)
    let value ← convert elem
    return ownProperty (decimal i) value

def gated (child : Option (α → StateM σ Value))
    (loop : (α → StateM σ Value) → StateM σ (List Value)) : StateM σ (List Value) :=
  match child with
  | some convert => loop convert
  | none => pure []

/-- A value, given the trees of its children. -/
def remoteObject (child : Option (α → StateM σ Value)) (val : α) : StateM σ Value := do
  let kind ← ask fun heap => engine.kind heap val
  match kind with
  | .function =>
    referring [("type", .lit "function"), ("className", .lit "Function"),
      ("description", .lit "function()")] []
  | .array =>
    let len ← call (engine.length val)
    let props ← gated child fun convert => elements engine convert len val
    referring [("type", .lit "object"), ("subtype", .lit "array"),
      ("className", .lit "Array"),
      ("description", .string (ascii "Array(" ++ decimal len ++ ascii ")"))]
      (props ++ [lengthProperty len])
  | .object =>
    let props ← gated child fun convert => ownProperties engine convert 100 val
    referring [("type", .lit "object"), ("className", .lit "Object"),
      ("description", .lit "Object")] props
  | kind => return plainObject engine kind

def convertLevels : Nat → α → StateM σ Value
  | 0 => remoteObject engine none
  | levels + 1 => remoteObject engine (some (convertLevels levels))

def jsValueToRemoteObject (depth : Nat) (val : α) : StateM σ Value :=
  convertLevels engine (kMaxRemoteObjectDepth - depth) val

def localScope (level : Nat) (fi : FrameInfo) : StateM σ (List Value) := do
  let vars ← ask fun heap => engine.locals heap level
  match vars.getD [] with
  | [] => return []
  | v :: vs =>
    let props ← (v :: vs).mapM fun local_ => do
      let value ← jsValueToRemoteObject engine 0 local_.2
      return ownProperty (local_.1.getD []) value
    let scope ← referring [("type", .lit "object"), ("className", .lit "Object")] props
    return [.ofFields [("type", .lit "local"), ("object", scope),
      ("name", .string (frameName fi))]]

def globalScope : StateM σ (List Value) := do
  let global ← ask engine.global
  let props ← ownProperties engine (jsValueToRemoteObject engine 0) 50 global
  let scope ← referring [("type", .lit "object"), ("className", .lit "Object")] props
  return [.ofFields [("type", .lit "global"), ("object", scope)]]

def callFrame (fi : FrameInfo) (level : Nat) : StateM σ Value := do
  let locals ← localScope engine level fi
  let globals ← globalScope engine
  return .ofFields [("callFrameId", .string (decimal level)),
    ("functionName", .string (frameName fi)), ("location", frameLocation host scripts fi),
    ("url", .string (toFileUrl fi.filename)), ("scopeChain", .array (locals ++ globals)),
    ("this", .ofFields [("type", .lit "object"), ("className", .lit "global")])]

def evaluationResult (callFrameId expression : Bytes) : StateM σ Value := do
  let vars ← ask fun heap => engine.locals heap (frameLevel callFrameId)
  match (vars.getD []).find? fun v => v.1 == some expression with
  | some v =>
    let value ← jsValueToRemoteObject engine 0 v.2
    return .ofFields [("result", value)]
  | none =>
    let answer ← call (engine.eval expression)
    match answer with
    | .ok val =>
      let value ← jsValueToRemoteObject engine 0 val
      return .ofFields [("result", value)]
    | .error text =>
      return .ofFields
        [("result", .ofFields [("type", .lit "object"), ("subtype", .lit "error"),
          ("className", .lit "Error"), ("description", .string (text.getD (ascii "Error")))]),
          ("exceptionDetails", .object [])]

/-- All that the client can get to see of a pause: its frames, and what it answers. -/
def pause (stack : List FrameInfo) (requests : List (Bytes × Bytes)) :
    StateM σ (List Value × List Value) := do
  let frames ← stack.zipIdx.mapM fun p => callFrame engine host scripts p.1 p.2
  let results ← requests.mapM fun r => evaluationResult engine r.1 r.2
  return (frames, results)

end

end Tree

/-! ## 2. Unfolding -/

mutual

/-- Replacing each id by the list that was stored under it, as often as there are any, makes `w` of
`v`. -/
inductive Unfolds (st : ObjectStore) : Value → Value → Prop
  | null : Unfolds st .null .null
  | bool (b : Bool) : Unfolds st (.bool b) (.bool b)
  | number (d : Json.Double) : Unfolds st (.number d) (.number d)
  | string (s : Bytes) : Unfolds st (.string s) (.string s)
  | array {xs ys : List Value} (elements : UnfoldsElements st xs ys) :
      Unfolds st (.array xs) (.array ys)
  | object {kvs kws : List (Bytes × Value)} (fields : UnfoldsFields st kvs kws) :
      Unfolds st (.object kvs) (.object kws)

inductive UnfoldsElements (st : ObjectStore) : List Value → List Value → Prop
  | nil : UnfoldsElements st [] []
  | cons {x y : Value} {xs ys : List Value} (head : Unfolds st x y)
      (tail : UnfoldsElements st xs ys) : UnfoldsElements st (x :: xs) (y :: ys)

inductive UnfoldsFields (st : ObjectStore) : List (Bytes × Value) → List (Bytes × Value) → Prop
  | nil : UnfoldsFields st [] []
  | field {key : Bytes} {v w : Value} {kvs kws : List (Bytes × Value)}
      (plain : key ≠ ascii "objectId") (value : Unfolds st v w) (rest : UnfoldsFields st kvs kws) :
      UnfoldsFields st ((key, v) :: kvs) ((key, w) :: kws)
  /-- The list in the place of its id. -/
  | reference {oid : Bytes} {props w : Value} {kvs kws : List (Bytes × Value)}
      (known : (oid, props) ∈ st.stored) (list : Unfolds st props w)
      (rest : UnfoldsFields st kvs kws) :
      UnfoldsFields st ((ascii "objectId", .string oid) :: kvs) ((ascii "objectId", w) :: kws)

end

section

variable {st st' : ObjectStore}

mutual

/-- Unfolding stays as it is while the store grows. -/
theorem Unfolds.mono {v w : Value} (hle : st.stored <+: st'.stored) :
    Unfolds st v w → Unfolds st' v w
  | .null => .null
  | .bool b => .bool b
  | .number d => .number d
  | .string s => .string s
  | .array elements => .array (elements.mono hle)
  | .object fields => .object (fields.mono hle)

theorem UnfoldsElements.mono {xs ys : List Value} (hle : st.stored <+: st'.stored) :
    UnfoldsElements st xs ys → UnfoldsElements st' xs ys
  | .nil => .nil
  | .cons head tail => .cons (head.mono hle) (tail.mono hle)

theorem UnfoldsFields.mono {kvs kws : List (Bytes × Value)} (hle : st.stored <+: st'.stored) :
    UnfoldsFields st kvs kws → UnfoldsFields st' kvs kws
  | .nil => .nil
  | .field plain value rest => .field plain (value.mono hle) (rest.mono hle)
  | .reference known list rest =>
    .reference (hle.subset known) (list.mono hle) (rest.mono hle)

end

theorem unfolds_array {xs ys : List Value} (h : List.Forall₂ (Unfolds st) xs ys) :
    Unfolds st (.array xs) (.array ys) := by
  refine .array ?_
  induction h with
  | nil => exact .nil
  | cons head _ ih => exact .cons head ih

/-- A new entry in both objects. -/
theorem UnfoldsFields.insert {key : Bytes} {v w : Value}
    (hentry : ∀ {kvs kws}, UnfoldsFields st kvs kws →
      UnfoldsFields st ((key, v) :: kvs) ((key, w) :: kws)) {kvs kws : List (Bytes × Value)}
    (h : UnfoldsFields st kvs kws) :
    UnfoldsFields st (SortedMap.insert key v kvs) (SortedMap.insert key w kws) := by
  induction kvs generalizing kws with
  | nil =>
    cases h
    exact hentry .nil
  | cons p kvs ih =>
    cases h with
    | field plain value rest =>
      simp only [SortedMap.insert]
      split
      · exact hentry (.field plain value rest)
      · exact hentry rest
      · exact .field plain value (ih rest)
    | reference known list rest =>
      simp only [SortedMap.insert]
      split
      · exact hentry (.reference known list rest)
      · exact hentry rest
      · exact .reference known list (ih rest)

theorem Unfolds.set_entry {a b v w : Value} {key : Bytes} (h : Unfolds st a b)
    (hentry : ∀ {kvs kws}, UnfoldsFields st kvs kws →
      UnfoldsFields st ((key, v) :: kvs) ((key, w) :: kws)) :
    Unfolds st (a.set key v) (b.set key w) := by
  cases h with
  | object fields => exact .object (fields.insert hentry)
  | _ => exact .object (hentry .nil)

/-- Setting an ordinary field. -/
theorem Unfolds.set {a b v w : Value} {key : Bytes} (h : Unfolds st a b)
    (hkey : key ≠ ascii "objectId") (hv : Unfolds st v w) :
    Unfolds st (a.set key v) (b.set key w) := h.set_entry (.field hkey hv)

/-- Setting the id, and the list that is stored under it. -/
theorem Unfolds.setObjectId {a b props w : Value} {oid : Bytes} (h : Unfolds st a b)
    (hknown : (oid, props) ∈ st.stored) (hprops : Unfolds st props w) :
    Unfolds st (a.set (ascii "objectId") (.string oid)) (b.set (ascii "objectId") w) :=
  h.set_entry (.reference hknown hprops)

/-- Objects with the same fields. -/
theorem unfolds_ofFields {fs gs : List (String × Value)} (hkeys : ∀ f ∈ fs, f.1 ∈ fieldNames)
    (h : List.Forall₂ (fun f g => f.1 = g.1 ∧ Unfolds st f.2 g.2) fs gs) :
    Unfolds st (.ofFields fs) (.ofFields gs) := by
  have hfold : ∀ {a b : Value}, Unfolds st a b →
      Unfolds st (fs.foldl (fun v f => v.set (ascii f.1) f.2) a)
        (gs.foldl (fun v g => v.set (ascii g.1) g.2) b) := by
    induction h with
    | nil => exact fun h => h
    | @cons f g fs gs hone _ ih =>
      intro a b hab
      obtain ⟨hf, hrest⟩ := List.forall_mem_cons.mp hkeys
      obtain ⟨key, v⟩ := f
      obtain ⟨_, w⟩ := g
      obtain ⟨rfl, hvw⟩ := hone
      exact ih hrest (hab.set (ne_objectId_of_mem_fieldNames hf) hvw)
  exact hfold (.object .nil)

@[simp] theorem unfolds_string (s : Bytes) : Unfolds st (.string s) (.string s) := .string s
@[simp] theorem unfolds_lit (s : String) : Unfolds st (.lit s) (.lit s) := .string _
@[simp] theorem unfolds_ofInt (n : Int) : Unfolds st (.ofInt n) (.ofInt n) := .number _
@[simp] theorem unfolds_bool (b : Bool) : Unfolds st (.bool b) (.bool b) := .bool b
@[simp] theorem unfolds_null : Unfolds st .null .null := .null
@[simp] theorem unfolds_number (d : Json.Double) : Unfolds st (.number d) (.number d) := .number d
@[simp] theorem unfolds_object_nil : Unfolds st (.object []) (.object []) := .object .nil

/-- An object without ids is its own tree. -/
theorem unfolds_ofFields_self {fields : List (String × Value)}
    (hkeys : ∀ f ∈ fields, f.1 ∈ fieldNames) (hvals : ∀ f ∈ fields, Unfolds st f.2 f.2) :
    Unfolds st (.ofFields fields) (.ofFields fields) := by
  refine unfolds_ofFields hkeys (List.forall₂_same.mpr fun f hf => ⟨rfl, hvals f hf⟩)

theorem unfolds_ownProperty {v w : Value} (name : Bytes) (h : Unfolds st v w) :
    Unfolds st (ownProperty name v) (ownProperty name w) :=
  unfolds_ofFields (by simp [fieldNames]) (by simp [h])

theorem unfolds_lengthProperty (len : Int) :
    Unfolds st (lengthProperty len) (lengthProperty len) := by
  have hlen : Unfolds st
      (.ofFields [("type", .lit "number"), ("value", .ofInt len),
        ("description", .string (decimal len))])
      (.ofFields [("type", .lit "number"), ("value", .ofInt len),
        ("description", .string (decimal len))]) :=
    unfolds_ofFields_self (by simp [fieldNames]) (by simp)
  exact unfolds_ofFields_self (by simp [fieldNames]) (by simp [hlen])

theorem unfolds_plainObject (engine : JsEngine σ α) (kind : Kind) :
    Unfolds st (plainObject engine kind) (plainObject engine kind) := by
  cases kind with
  | string s =>
    cases s with
    | none => exact unfolds_object_nil
    | some s => exact unfolds_ofFields_self (by simp [fieldNames]) (by simp)
  | _ => exact unfolds_ofFields_self (by simp [fieldNames]) (by simp)

end

/-! ## 3. The code builds the trees -/

/-- Nothing that was stored is lost. -/
def storing (σ : Type) : Growth (Inspected σ) where
  inv := fun _ => True
  le := fun s t => s.store.stored <+: t.store.stored
  refl := stored_refl
  trans := stored_trans

section

variable {β : Type} {engine : JsEngine σ α}

theorem stable_unfolds (v w : Value) : (storing σ).Stable fun s => Unfolds s.store v w :=
  fun _ _ hle h => h.mono hle

theorem refines_call (f : σ → β × σ) :
    (storing σ).Refines Inspected.heap (fun _ => True) (call f) (Tree.call f) fun b c _ => b = c :=
  fun _ _ _ => ⟨trivial, List.prefix_rfl, rfl, rfl⟩

theorem refines_ask (f : σ → β) :
    (storing σ).Refines Inspected.heap (fun _ => True) (ask f) (Tree.ask f) fun b c _ => b = c :=
  refines_call _

/-- **A description and its list.** -/
theorem refines_referring {fields : List (String × Value)} {props props' : List Value}
    (hkeys : ∀ f ∈ fields, f.1 ∈ fieldNames)
    (hvals : ∀ f ∈ fields, ∀ st : ObjectStore, Unfolds st f.2 f.2) :
    (storing σ).Refines Inspected.heap (fun s => List.Forall₂ (Unfolds s.store) props props')
      (referring fields props) (Tree.referring fields props')
      fun v w s => Unfolds s.store v w := by
  intro s _ hprops
  have hle : s.store.stored <+: ((referring fields props).run s).2.store.stored :=
    List.prefix_append _ _
  refine ⟨trivial, hle, rfl, ?_⟩
  have hfields := unfolds_ofFields_self hkeys fun f hf => hvals f hf s.store
  exact (hfields.mono hle).setObjectId (List.mem_append_right _ (List.mem_singleton_self _))
    ((unfolds_array hprops).mono hle)

/-- A converter of children whose results unfold to the trees. -/
def Grows (convert : α → Inspect σ Value) (tree : α → StateM σ Value) : Prop :=
  ∀ val, (storing σ).Refines Inspected.heap (fun _ => True) (convert val) (tree val)
    fun v w s => Unfolds s.store v w

section

variable {convert : α → Inspect σ Value} {tree : α → StateM σ Value}

theorem refines_elements (hc : Grows convert tree) (len : Int) (val : α) :
    (storing σ).Refines Inspected.heap (fun _ => True) (elements engine convert len val)
      (Tree.elements engine tree len val)
      fun vs ws s => List.Forall₂ (Unfolds s.store) vs ws := by
  refine Growth.Refines.mapM (fun v w => stable_unfolds v w) _ fun i => ?_
  refine (refines_call _).bind_eq fun elem => (hc elem).bind fun v w => ?_
  exact Growth.Refines.pure fun s hs => unfolds_ownProperty _ hs

/-- The properties that were read, among those that were asked for. -/
theorem forall₂_reduceOption {γ δ : Type} {R : γ → δ → Prop} {xs : List (Option γ)}
    {ys : List (Option δ)} (h : List.Forall₂ (Option.Rel R) xs ys) :
    List.Forall₂ R xs.reduceOption ys.reduceOption := by
  induction h with
  | nil => exact .nil
  | cons hone _ ih =>
    cases hone with
    | none => exact ih
    | some hxy => exact .cons hxy ih

theorem refines_ownProperties (hc : Grows convert tree) (limit : Nat) (val : α) :
    (storing σ).Refines Inspected.heap (fun _ => True) (ownProperties engine convert limit val)
      (Tree.ownProperties engine tree limit val)
      fun vs ws s => List.Forall₂ (Unfolds s.store) vs ws := by
  have hstable : ∀ p q : Option Value,
      (storing σ).Stable fun s => Option.Rel (Unfolds s.store) p q := by
    rintro p q s t hle h
    cases h with
    | none => exact .none
    | some h => exact .some (h.mono hle)
  refine (refines_call _).bind_eq fun names => ?_
  refine (Growth.Refines.mapM hstable _ fun atom => ?_).bind fun ps qs => ?_
  · refine (refines_call _).bind_eq fun pval => (refines_ask _).bind_eq fun pname => ?_
    cases pname with
    | none => exact Growth.Refines.pure fun s _ => .none
    | some pname =>
      refine (hc pval).bind fun v w => Growth.Refines.pure fun s hs => ?_
      exact .some (unfolds_ownProperty _ hs)
  · exact Growth.Refines.pure fun s hs => forall₂_reduceOption hs

end

/-- **One level.** -/
theorem grows_remoteObject {child : Option (α → Inspect σ Value)}
    {child' : Option (α → StateM σ Value)} (hc : Option.Rel Grows child child') :
    Grows (remoteObject engine child) (Tree.remoteObject engine child') := by
  have hgated : ∀ {loop : (α → Inspect σ Value) → Inspect σ (List Value)}
      {loop' : (α → StateM σ Value) → StateM σ (List Value)},
      (∀ convert tree, Grows convert tree →
        (storing σ).Refines Inspected.heap (fun _ => True) (loop convert) (loop' tree)
          fun vs ws s => List.Forall₂ (Unfolds s.store) vs ws) →
      (storing σ).Refines Inspected.heap (fun _ => True) (gated child loop)
        (Tree.gated child' loop') fun vs ws s => List.Forall₂ (Unfolds s.store) vs ws := by
    intro loop loop' hloop
    cases hc with
    | none => exact Growth.Refines.pure fun s _ => .nil
    | some hone => exact hloop _ _ hone
  intro val
  refine (refines_ask _).bind_eq fun kind => ?_
  cases kind with
  | function =>
    exact (refines_referring (by simp [fieldNames]) (by simp)).weaken (fun s _ => .nil)
      fun _ _ _ h => h
  | array =>
    refine (refines_call _).bind_eq fun len => ?_
    refine (hgated fun convert tree h => refines_elements h len val).bind fun ps qs => ?_
    refine (refines_referring (by simp [fieldNames]) (by simp)).weaken (fun s hs => ?_)
      fun _ _ _ h => h
    exact List.rel_append hs (.cons (unfolds_lengthProperty len) .nil)
  | object =>
    refine (hgated fun convert tree h => refines_ownProperties h 100 val).bind fun ps qs => ?_
    exact refines_referring (by simp [fieldNames]) (by simp)
  | _ => exact Growth.Refines.pure fun s _ => unfolds_plainObject engine _

/-- **A value**, at every depth. -/
theorem grows_jsValueToRemoteObject (depth : Nat) :
    Grows (jsValueToRemoteObject engine depth) (Tree.jsValueToRemoteObject engine depth) := by
  have hlevels : ∀ levels,
      Grows (convertLevels engine levels) (Tree.convertLevels engine levels) := by
    intro levels
    induction levels with
    | zero => exact grows_remoteObject .none
    | succ levels ih => exact grows_remoteObject (.some ih)
  exact hlevels _

/-- The two properties of a scope. -/
theorem refines_scope {props props' : List Value} :
    (storing σ).Refines Inspected.heap (fun s => List.Forall₂ (Unfolds s.store) props props')
      (referring [("type", .lit "object"), ("className", .lit "Object")] props)
      (Tree.referring [("type", .lit "object"), ("className", .lit "Object")] props')
      fun v w s => Unfolds s.store v w :=
  refines_referring (by simp [fieldNames]) (by simp)

theorem refines_localScope (level : Nat) (fi : FrameInfo) :
    (storing σ).Refines Inspected.heap (fun _ => True) (localScope engine level fi)
      (Tree.localScope engine level fi) fun vs ws s => List.Forall₂ (Unfolds s.store) vs ws := by
  refine (refines_ask _).bind_eq fun vars => ?_
  cases vars.getD [] with
  | nil => exact Growth.Refines.pure fun s _ => .nil
  | cons v vs =>
    refine (Growth.Refines.mapM (fun v w => stable_unfolds v w) _ fun local_ => ?_).bind
      fun ps qs => ?_
    · refine (grows_jsValueToRemoteObject 0 local_.2).bind fun v w => ?_
      exact Growth.Refines.pure fun s hs => unfolds_ownProperty _ hs
    · refine refines_scope.bind fun scope tree => Growth.Refines.pure fun s hs => ?_
      refine .cons (unfolds_ofFields (by simp [fieldNames]) ?_) .nil
      simp [hs]

theorem refines_globalScope :
    (storing σ).Refines Inspected.heap (fun _ => True) (globalScope engine)
      (Tree.globalScope engine) fun vs ws s => List.Forall₂ (Unfolds s.store) vs ws := by
  refine (refines_ask _).bind_eq fun global => ?_
  refine (refines_ownProperties (grows_jsValueToRemoteObject 0) 50 global).bind fun ps qs => ?_
  refine refines_scope.bind fun scope tree => Growth.Refines.pure fun s hs => ?_
  refine .cons (unfolds_ofFields (by simp [fieldNames]) ?_) .nil
  simp [hs]

/-- **A frame**: its locals stay what they are while the global object is converted. -/
theorem refines_callFrame (host : Host) (scripts : List Script) (fi : FrameInfo) (level : Nat) :
    (storing σ).Refines Inspected.heap (fun _ => True) (callFrame engine host scripts fi level)
      (Tree.callFrame engine host scripts fi level) fun v w s => Unfolds s.store v w := by
  refine (refines_localScope level fi).bind fun locals locals' => ?_
  have hstable : (storing σ).Stable fun s => List.Forall₂ (Unfolds s.store) locals locals' :=
    fun _ _ hle h => h.imp fun _ _ h => h.mono hle
  refine ((refines_globalScope.frame hstable).weaken (fun s hs => ⟨trivial, hs⟩)
    fun _ _ _ h => h).bind fun globals globals' => Growth.Refines.pure fun s hs => ?_
  have hscopes : Unfolds s.store (.array (locals ++ globals)) (.array (locals' ++ globals')) :=
    unfolds_array (List.rel_append hs.2 hs.1)
  have hlocation :
      Unfolds s.store (frameLocation host scripts fi) (frameLocation host scripts fi) :=
    unfolds_ofFields_self (by simp [fieldNames]) (by simp)
  have hthis : Unfolds s.store (.ofFields [("type", .lit "object"), ("className", .lit "global")])
      (.ofFields [("type", .lit "object"), ("className", .lit "global")]) :=
    unfolds_ofFields_self (by simp [fieldNames]) (by simp)
  refine unfolds_ofFields (by simp [fieldNames]) ?_
  simp [hscopes, hlocation, hthis]

/-- **An answer.** -/
theorem refines_evaluationResult (callFrameId expression : Bytes) :
    (storing σ).Refines Inspected.heap (fun _ => True)
      (evaluationResult engine callFrameId expression)
      (Tree.evaluationResult engine callFrameId expression) fun v w s => Unfolds s.store v w := by
  have hresult : ∀ val : α, (storing σ).Refines Inspected.heap (fun _ => True)
      (do
        let value ← jsValueToRemoteObject engine 0 val
        return Value.ofFields [("result", value)])
      (do
        let value ← Tree.jsValueToRemoteObject engine 0 val
        return Value.ofFields [("result", value)])
      (fun v w s => Unfolds s.store v w) := by
    intro val
    refine (grows_jsValueToRemoteObject 0 val).bind fun v w => Growth.Refines.pure fun s hs => ?_
    exact unfolds_ofFields (by simp [fieldNames]) (by simp [hs])
  refine (refines_ask _).bind_eq fun vars => ?_
  cases (vars.getD []).find? fun v => v.1 == some expression with
  | some v => exact hresult v.2
  | none =>
    refine (refines_call _).bind_eq fun answer => ?_
    cases answer with
    | ok val => exact hresult val
    | error text =>
      refine Growth.Refines.pure fun s _ => unfolds_ofFields_self (by simp [fieldNames]) ?_
      have herror : Unfolds s.store
          (.ofFields [("type", .lit "object"), ("subtype", .lit "error"),
            ("className", .lit "Error"), ("description", .string (text.getD (ascii "Error")))])
          (.ofFields [("type", .lit "object"), ("subtype", .lit "error"),
            ("className", .lit "Error"), ("description", .string (text.getD (ascii "Error")))]) :=
        unfolds_ofFields_self (by simp [fieldNames]) (by simp)
      simp [herror]

/-- The evaluations of a pause, one after the other. -/
theorem unfolds_evaluations (requests : List (Bytes × Bytes)) (t : Pausing σ) :
    let t' := requests.foldl (fun t r => evaluate engine t r.1 r.2) t
    let trees := (requests.mapM fun r => Tree.evaluationResult engine r.1 r.2).run t.inspected.heap
    t'.inspected.heap = trees.2 ∧ t.store.stored <+: t'.store.stored ∧
      t'.capturedFrames = t.capturedFrames ∧
      ∃ answers, t'.results = t.results ++ answers ∧
        List.Forall₂ (Unfolds t'.store) answers trees.1 := by
  induction requests generalizing t with
  | nil => exact ⟨rfl, List.prefix_rfl, rfl, [], (List.append_nil _).symm, .nil⟩
  | cons r requests ih =>
    obtain ⟨-, hle, hheap, hone⟩ :=
      @refines_evaluationResult _ _ engine r.1 r.2 t.inspected trivial trivial
    obtain ⟨hheap', hle', hframes, answers, hresults, hrest⟩ := ih (evaluate engine t r.1 r.2)
    have hstart : (evaluate engine t r.1 r.2).inspected.heap =
        ((Tree.evaluationResult engine r.1 r.2).run t.inspected.heap).2 := hheap
    rw [hstart] at hheap' hrest
    have hone' := hone.mono hle'
    rw [List.mapM_cons]
    refine ⟨hheap', hle.trans hle', hframes, _ :: answers, ?_, .cons hone' hrest⟩
    exact hresults.trans (List.append_assoc _ _ _)

/-- **What the client sees of a pause** unfolds to the trees. -/
theorem unfolds_duringPause (host : Host) (scripts : List Script) (s : Pausing σ) (heap : σ)
    (e : Event) (requests : List (Bytes × Bytes)) :
    let t := duringPause engine host scripts s heap e requests
    let trees := (Tree.pause engine host scripts (trackFrames s.frameStack e) requests).run heap
    t.inspected.heap = trees.2 ∧ Unfolds t.store t.capturedFrames (.array trees.1.1) ∧
      List.Forall₂ (Unfolds t.store) t.results trees.1.2 := by
  have hframes : (storing σ).Refines Inspected.heap (fun _ => True)
      ((trackFrames s.frameStack e).zipIdx.mapM fun p => callFrame engine host scripts p.1 p.2)
      ((trackFrames s.frameStack e).zipIdx.mapM fun p => Tree.callFrame engine host scripts p.1 p.2)
      fun vs ws s => List.Forall₂ (Unfolds s.store) vs ws :=
    Growth.Refines.mapM (fun v w => stable_unfolds v w) _ fun p =>
      refines_callFrame host scripts p.1 p.2
  obtain ⟨-, -, hheap, hcaptured⟩ := hframes { heap := heap, store := .empty } trivial trivial
  obtain ⟨hheap', hle, hsame, answers, hresults, hanswers⟩ :=
    @unfolds_evaluations _ _ engine requests (captureFrames engine host scripts s heap e)
  have hstart : (captureFrames engine host scripts s heap e).inspected.heap =
      (((trackFrames s.frameStack e).zipIdx.mapM fun p =>
        Tree.callFrame engine host scripts p.1 p.2).run heap).2 := hheap
  rw [hstart] at hheap' hanswers
  intro t trees
  refine ⟨hheap', ?_, ?_⟩
  · have hall : Unfolds t.store (captureFrames engine host scripts s heap e).capturedFrames
        (.array trees.1.1) := (unfolds_array hcaptured).mono hle
    rw [← hsame] at hall
    exact hall
  · obtain rfl : t.results = answers := hresults
    exact hanswers

end

/-- **The object store of a pause is closed and free of collisions.**  For every engine and heap,
every session and every event that it pauses at, and every sequence of evaluations during the
pause: the capture and the evaluations end; the calls of `store_object` have used different ids;
every `objectId` that occurs in the captured frames, in an answer or in a stored list is the key
of the list it was stored with; `get_properties` returns that list; and with the lists in the places
of their ids, the frames and the answers are the trees that the engine has at hand: each
description carries the id of its own list. -/
theorem object_store_closed (engine : JsEngine σ α) (host : Host) (scripts : List Script)
    (s : Pausing σ) (heap : σ) (e : Event) (requests : List (Bytes × Bytes)) :
    let t := duringPause engine host scripts s heap e requests
    let trees := (Tree.pause engine host scripts (trackFrames s.frameStack e) requests).run heap
    t.results.length = requests.length ∧
      (t.store.stored.map Prod.fst).Nodup ∧
      (∀ oid, HandedOut t oid → ∃ props, (oid, props) ∈ t.store.stored) ∧
      (∀ oid props, (oid, props) ∈ t.store.stored →
        SortedMap.find oid t.store.objects = some props ∧
        t.store.getProperties oid = .ofFields [("result", props)]) ∧
      Unfolds t.store t.capturedFrames (.array trees.1.1) ∧
      List.Forall₂ (Unfolds t.store) t.results trees.1.2 := by
  obtain ⟨hclosed, hlen⟩ := closed_duringPause engine host scripts s heap e requests
  obtain ⟨-, hframes, hresults⟩ := @unfolds_duringPause _ _ engine host scripts s heap e requests
  refine ⟨hlen, hclosed.filled.ids_nodup.1, fun oid => hclosed.known_of_handedOut, ?_, hframes,
    hresults⟩
  intro oid props hmem
  exact ⟨(hclosed.filled.find_iff oid props).mpr hmem, hclosed.filled.getProperties_eq hmem⟩

end Objects

end QjsDebug
