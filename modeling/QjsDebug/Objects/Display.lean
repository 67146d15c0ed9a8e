/-
# What a frame shows, and what an evaluation on it returns

The client shows the locals of a frame from the list that `capture_frames` stored for it.  For a
watched variable it asks again, with the id of the frame: `do_pause` reads the level off the id and
looks the variable up in that level's locals.

Between the two the engine's calls may change the heap.  As long as the heaps of this pause leave
the locals as the engine reports them (names, values and kinds, and how long an array is), both ways
give the same description, which differs in the id of its property list at most
(`evaluate_agrees_with_display`).

A conversion describes the value as the engine reports it at the conversion's start
(`describedAs_run`).  So all that matters is on which heaps conversions start, and these are among
those that the recording engine has seen.
-/
import QjsDebug.Objects.Recording

namespace QjsDebug

open Json (Value)
open Cdp (Script frameLocation)

namespace Objects

variable {σ α β : Type}

/-! ## 1. The heaps of a pause -/

/-- Growth of the record, and of the store. -/
def during : Growth (Inspected (σ × List σ)) where
  inv := fun _ => True
  le := fun s t => s.heaps ⊆ t.heaps ∧ s.store.stored <+: t.store.stored
  refl := fun _ => ⟨List.Subset.refl _, List.prefix_rfl⟩
  trans := fun _ _ _ h h' => ⟨List.Subset.trans h.1 h'.1, h.2.trans h'.2⟩

/-- Nothing but calls on record and stored lists: what holds of every program below. -/
def Calls (m : Inspect (σ × List σ) β) : Prop :=
  during.Triple (fun _ => True) m (fun _ _ => True)

section

variable {engine : JsEngine σ α}

theorem Calls.pure (b : β) : Calls (pure b : Inspect (σ × List σ) β) :=
  Growth.Triple.pure fun _ _ => trivial

theorem Calls.bind {γ : Type} {m : Inspect (σ × List σ) β} {f : β → Inspect (σ × List σ) γ}
    (hm : Calls m) (hf : ∀ b, Calls (f b)) : Calls (m >>= f) :=
  Growth.Triple.bind hm hf

theorem Calls.mapM {ι : Type} {f : ι → Inspect (σ × List σ) β} (l : List ι)
    (hf : ∀ i, Calls (f i)) : Calls (l.mapM f) :=
  (Growth.Triple.mapM (fun _ _ _ h => h) (fun _ _ _ _ h => h) l fun i _ => hf i).weaken
    (fun _ h => h) fun _ _ _ => trivial

theorem calls_call (f : σ → β × σ) : Calls (call (record f)) :=
  fun _ _ _ => ⟨trivial, ⟨List.subset_cons_self _ _, List.prefix_rfl⟩, trivial⟩

theorem calls_ask (f : σ × List σ → β) : Calls (ask f) :=
  fun s _ _ => ⟨trivial, during.refl s, trivial⟩

theorem calls_referring (fields : List (String × Value)) (props : List Value) :
    Calls (referring fields props : Inspect (σ × List σ) Value) := by
  have hstore : Calls (storeObject (σ := σ × List σ) (.array props)) :=
    fun _ _ _ => ⟨trivial, ⟨List.Subset.refl _, List.prefix_append _ _⟩, trivial⟩
  exact hstore.bind fun oid => Calls.pure _

theorem calls_elements {convert : α → Inspect (σ × List σ) Value}
    (hc : ∀ val, Calls (convert val)) (len : Int) (val : α) :
    Calls (elements engine.recorded convert len val) := by
  refine Calls.mapM _ fun i => ?_
  exact (calls_call _).bind fun elem => (hc elem).bind fun v => Calls.pure _

theorem calls_ownProperties {convert : α → Inspect (σ × List σ) Value}
    (hc : ∀ val, Calls (convert val)) (limit : Nat) (val : α) :
    Calls (ownProperties engine.recorded convert limit val) := by
  refine (calls_call _).bind fun names => ?_
  refine (Calls.mapM _ fun atom => ?_).bind fun props => Calls.pure _
  refine (calls_call _).bind fun pval => ?_
  refine (calls_ask _).bind fun pname => ?_
  cases pname with
  | none => exact Calls.pure _
  | some pname => exact (hc pval).bind fun v => Calls.pure _

theorem calls_gated {child : Option (α → Inspect (σ × List σ) Value)}
    {loop : (α → Inspect (σ × List σ) Value) → Inspect (σ × List σ) (List Value)}
    (h : ∀ convert, child = some convert → Calls (loop convert)) : Calls (gated child loop) := by
  cases child with
  | none => exact Calls.pure _
  | some convert => exact h convert rfl

/-- **The conversion** only calls the engine and stores lists. -/
theorem calls_jsValueToRemoteObject (depth : Nat) (val : α) :
    Calls (jsValueToRemoteObject engine.recorded depth val) := by
  have hremote : ∀ child : Option (α → Inspect (σ × List σ) Value),
      (∀ convert, child = some convert → ∀ val, Calls (convert val)) →
      ∀ val, Calls (remoteObject engine.recorded child val) := by
    intro child hc val
    refine (calls_ask _).bind fun kind => ?_
    cases kind with
    | function => exact calls_referring _ _
    | array =>
      refine (calls_call _).bind fun len => ?_
      refine (calls_gated fun convert h => calls_elements (hc convert h) len val).bind ?_
      exact fun props => calls_referring _ _
    | object =>
      refine (calls_gated fun convert h => calls_ownProperties (hc convert h) 100 val).bind ?_
      exact fun props => calls_referring _ _
    | _ => exact Calls.pure _
  have hlevels : ∀ levels val, Calls (convertLevels engine.recorded levels val) := by
    intro levels
    induction levels with
    | zero => exact hremote none fun _ h => absurd h (by simp)
    | succ levels ih => exact hremote _ fun _ h => Option.some.inj h ▸ ih
  exact hlevels _ val

end

/-! ## 2. Descriptions of one value -/

/-- What the engine reports of a value: its kind, and the length of an array. -/
def report (engine : JsEngine σ α) (h : σ) (val : α) : Kind × Int :=
  match engine.kind h val with
  | .array => (.array, (engine.length val h).1)
  | kind => (kind, 0)

/-- The locals of a level with what the engine reports of them. -/
def reportedLocals (engine : JsEngine σ α) (h : σ) (level : Int) :
    Option (List ((Option Bytes × α) × Kind × Int)) :=
  (engine.locals h level).map fun vars => vars.map fun l => (l, report engine h l.2)

/-- The fields of a description that refers to a list of properties. -/
def referenceFields : Kind × Int → Option (List (String × Value))
  | (.function, _) =>
    some [("type", .lit "function"), ("className", .lit "Function"),
      ("description", .lit "function()")]
  | (.array, len) =>
    some [("type", .lit "object"), ("subtype", .lit "array"), ("className", .lit "Array"),
      ("description", .string (ascii "Array(" ++ decimal len ++ ascii ")"))]
  | (.object, _) =>
    some [("type", .lit "object"), ("className", .lit "Object"), ("description", .lit "Object")]
  | _ => none

/-- `v` is a description of what was reported, under whatever id its properties are. -/
def DescribedAs (engine : JsEngine σ α) (r : Kind × Int) (v : Value) : Prop :=
  match referenceFields r with
  | some fields => ∃ oid, v = (Value.ofFields fields).set (ascii "objectId") (.string oid)
  | none => v = plainObject engine r.1

/-- The same description, except for the id of its properties. -/
def SameUpToObjectId (v w : Value) : Prop :=
  v = w ∨ ∃ (obj : Value) (i j : Bytes), v = obj.set (ascii "objectId") (.string i) ∧
    w = obj.set (ascii "objectId") (.string j)

theorem DescribedAs.same {engine : JsEngine σ α} {r : Kind × Int} {v w : Value}
    (hv : DescribedAs engine r v) (hw : DescribedAs engine r w) : SameUpToObjectId v w := by
  unfold DescribedAs at hv hw
  cases hfields : referenceFields r with
  | none =>
    rw [hfields] at hv hw
    exact .inl (hv.trans hw.symm)
  | some fields =>
    rw [hfields] at hv hw
    obtain ⟨i, hi⟩ := hv
    obtain ⟨j, hj⟩ := hw
    exact .inr ⟨_, i, j, hi, hj⟩

section

variable {engine : JsEngine σ α}

/-- A program that asks first goes on with the answer, from the same state. -/
theorem run_ask_bind (f : σ → β) {γ : Type} (m : β → Inspect σ γ) (s : Inspected σ) :
    (ask f >>= m).run s = (m (f s.heap)).run s := rfl

/-- **One value** is described as the engine reports it when its conversion begins. -/
theorem describedAs_run (depth : Nat) (val : α) (s : Inspected σ) :
    DescribedAs engine (report engine s.heap val)
      ((jsValueToRemoteObject engine depth val).run s).1 := by
  rw [jsValueToRemoteObject_eq]
  unfold remoteObject report
  rw [run_ask_bind]
  cases engine.kind s.heap val with
  | function | array | object => exact ⟨_, rfl⟩
  | _ => rfl

/-- A question to the engine is answered on a heap on record. -/
theorem triple_ask (f : σ → β) : during.Triple (fun _ => True) (ask fun h => f h.1)
    (fun b s => ∃ h ∈ s.heaps, b = f h) :=
  fun s _ _ => ⟨trivial, during.refl s, s.heap.1, List.mem_cons_self, rfl⟩

theorem triple_described (depth : Nat) (val : α) :
    during.Triple (fun _ => True) (jsValueToRemoteObject engine.recorded depth val)
      (fun v s => ∃ h ∈ s.heaps, DescribedAs engine (report engine h val) v) := by
  intro s _ _
  obtain ⟨-, hle, -⟩ := @calls_jsValueToRemoteObject _ _ engine depth val s trivial trivial
  exact ⟨trivial, hle, s.heap.1, hle.1 List.mem_cons_self,
    @describedAs_run _ _ engine.recorded depth val s⟩

theorem triple_referring_during (fields : List (String × Value)) (props : List Value) :
    during.Triple (fun _ => True) (referring fields props : Inspect (σ × List σ) Value)
      (fun v s => ∃ oid, v = (Value.ofFields fields).set (ascii "objectId") (.string oid) ∧
        (oid, .array props) ∈ s.store.stored) := by
  have hstore : during.Triple (fun _ => True) (storeObject (σ := σ × List σ) (.array props))
      (fun oid s => (oid, .array props) ∈ s.store.stored) :=
    fun _ _ _ => ⟨trivial, ⟨List.Subset.refl _, List.prefix_append _ _⟩,
      List.mem_append_right _ (List.mem_singleton_self _)⟩
  exact hstore.bind fun oid => Growth.Triple.pure fun s hs => ⟨oid, rfl, hs⟩

end

/-! ## 3. The frames of a capture -/

/-- A property in the list of a local scope, for a local as the engine reports it. -/
def ShownAs (engine : JsEngine σ α) (heap : σ) (l : Option Bytes × α) (p : Value) : Prop :=
  ∃ v, p = ownProperty (l.1.getD []) v ∧ DescribedAs engine (report engine heap l.2) v

/-- A local scope whose properties are stored under `oid`. -/
def scopeOf (oid name : Bytes) : Value :=
  .ofFields [("type", .lit "local"),
    ("object", (Value.ofFields [("type", .lit "object"), ("className", .lit "Object")]).set
      (ascii "objectId") (.string oid)), ("name", .string name)]

theorem index_scopeOf (oid name : Bytes) :
    (scopeOf oid name).index (ascii "type") = .lit "local" ∧
      ((scopeOf oid name).index (ascii "object")).index (ascii "objectId") = .string oid := by
  simp only [scopeOf, Value.ofFields, List.foldl_cons, List.foldl_nil]
  constructor <;> simp (disch := decide) only [Value.index_set_of_ne, Value.index_set_self]

/-- The local scopes of a level, one when it has locals: the list of their properties is stored. -/
def ScopeOf (engine : JsEngine σ α) (heap : σ) (level : Int) (scopes : List Value)
    (st : ObjectStore) : Prop :=
  match (engine.locals heap level).getD [] with
  | [] => scopes = []
  | vars => ∃ oid name props, (oid, .array props) ∈ st.stored ∧
      List.Forall₂ (ShownAs engine heap) vars props ∧ scopes = [scopeOf oid name]

/-- A frame as it is captured at a level. -/
def FrameOf (engine : JsEngine σ α) (heap : σ) (level : Nat) (frame : Value) (st : ObjectStore) :
    Prop :=
  frame.index (ascii "callFrameId") = .string (decimal level) ∧
    ∃ scopes globals, frame.index (ascii "scopeChain") = .array (scopes ++ globals) ∧
      ScopeOf engine heap level scopes st ∧
      ∀ g ∈ globals, g.index (ascii "type") = .lit "global"

theorem ScopeOf.mono {engine : JsEngine σ α} {heap : σ} {level : Int} {scopes : List Value}
    {st st' : ObjectStore} (h : ScopeOf engine heap level scopes st)
    (hle : st.stored <+: st'.stored) : ScopeOf engine heap level scopes st' := by
  unfold ScopeOf at h ⊢
  split
  · rename_i heq
    rwa [heq] at h
  · rename_i vars hne
    split at h
    · rename_i heq
      exact absurd heq hne
    · obtain ⟨oid, name, props, hmem, hrest⟩ := h
      exact ⟨oid, name, props, hle.subset hmem, hrest⟩

theorem FrameOf.mono {engine : JsEngine σ α} {heap : σ} {level : Nat} {frame : Value}
    {st st' : ObjectStore} (h : FrameOf engine heap level frame st)
    (hle : st.stored <+: st'.stored) : FrameOf engine heap level frame st' := by
  obtain ⟨hid, scopes, globals, hchain, hscope, hglobal⟩ := h
  exact ⟨hid, scopes, globals, hchain, hscope.mono hle, hglobal⟩

/-- These heaps report the same locals of the level as the first one. -/
def Steady (engine : JsEngine σ α) (heap : σ) (heaps : List σ) (level : Int) : Prop :=
  ∀ h ∈ heaps, reportedLocals engine h level = reportedLocals engine heap level

section

variable {engine : JsEngine σ α} {heap : σ} {heaps : List σ}

theorem Steady.mono {heaps' : List σ} {level : Int} (h : Steady engine heap heaps' level)
    (hsub : heaps ⊆ heaps') : Steady engine heap heaps level := fun h' hh => h h' (hsub hh)

/-- The same names and values. -/
theorem Steady.locals_eq {level : Int} (h : Steady engine heap heaps level) {h' : σ}
    (hh : h' ∈ heaps) : engine.locals h' level = engine.locals heap level := by
  have hraw : ∀ h, engine.locals h level = (reportedLocals engine h level).map
      fun vars => vars.map Prod.fst := by
    intro h
    unfold reportedLocals
    cases engine.locals h level with
    | none => rfl
    | some vars => simp [Function.comp_def]
  rw [hraw h', h h' hh, ← hraw heap]

/-- And the same of every value. -/
theorem Steady.report_eq {level : Int} (h : Steady engine heap heaps level)
    {l : Option Bytes × α} (hl : l ∈ (engine.locals heap level).getD []) {h' : σ}
    (hh : h' ∈ heaps) : report engine h' l.2 = report engine heap l.2 := by
  have hall := h h' hh
  unfold reportedLocals at hall
  rw [h.locals_eq hh] at hall
  cases hvars : engine.locals heap level with
  | none => rw [hvars] at hl; exact absurd hl List.not_mem_nil
  | some vars =>
    rw [hvars] at hl hall
    have heq := List.map_inj_left.mp (Option.some.inj hall) l hl
    exact (Prod.mk.inj heq).2

/-- What is shown of a local, whatever heap it was converted on. -/
theorem Steady.shownAs {level : Int} (h : Steady engine heap heaps level) {l : Option Bytes × α}
    (hl : l ∈ (engine.locals heap level).getD []) {v : Value}
    (hv : ∃ h' ∈ heaps, DescribedAs engine (report engine h' l.2) v) :
    ShownAs engine heap l (ownProperty (l.1.getD []) v) := by
  obtain ⟨h', hh, hv⟩ := hv
  rw [h.report_eq hl hh] at hv
  exact ⟨v, rfl, hv⟩

/-- **The local scope** of a level, as long as the locals are steady. -/
theorem triple_scopeOf (engine : JsEngine σ α) (heap : σ) (level : Nat) (fi : FrameInfo) :
    during.Triple (fun _ => True) (localScope engine.recorded level fi)
      (fun scopes s => Steady engine heap s.heaps level →
        ScopeOf engine heap level scopes s.store) := by
  refine (triple_ask fun h => engine.locals h level).bind fun vars => ?_
  have hseen : during.Stable fun s : Inspected (σ × List σ) =>
      ∃ h ∈ s.heaps, vars = engine.locals h level :=
    fun s t hle ⟨h, hh, heq⟩ => ⟨h, hle.1 hh, heq⟩
  cases hvars : vars.getD [] with
  | nil =>
    refine Growth.Triple.pure fun s ⟨h, hh, heq⟩ hsteady => ?_
    unfold ScopeOf
    rw [← hsteady.locals_eq hh, ← heq, hvars]
  | cons l ls =>
    have hstable : ∀ (l : Option Bytes × α) (p : Value),
        during.Stable fun s : Inspected (σ × List σ) => ∃ v, p = ownProperty (l.1.getD []) v ∧
          ∃ h ∈ s.heaps, DescribedAs engine (report engine h l.2) v :=
      fun l p s t hle ⟨v, hp, h, hh, hv⟩ => ⟨v, hp, h, hle.1 hh, hv⟩
    have hprops := Growth.Triple.mapM_forall₂ (fun _ _ _ h => h) hstable (l :: ls) fun i _ =>
      (@triple_described _ _ engine 0 i.2).bind fun v =>
        Growth.Triple.pure (b := ownProperty (i.1.getD []) v) fun s hv => ⟨v, rfl, hv⟩
    refine ((hprops.frame hseen).weaken (fun s hs => ⟨trivial, hs⟩) fun _ _ h => h).bind
      fun props => ?_
    have hboth : during.Stable fun s : Inspected (σ × List σ) =>
        List.Forall₂ (fun (i : Option Bytes × α) p => ∃ v, p = ownProperty (i.1.getD []) v ∧
          ∃ h ∈ s.heaps, DescribedAs engine (report engine h i.2) v) (l :: ls) props ∧
        ∃ h ∈ s.heaps, vars = engine.locals h level :=
      fun s t hle hs => ⟨hs.1.imp fun i p h => hstable i p s t hle h, hseen s t hle hs.2⟩
    refine (((triple_referring_during _ props).frame hboth).weaken (fun s hs => ⟨trivial, hs⟩)
      fun _ _ h => h).bind fun scope => ?_
    refine Growth.Triple.pure fun s hs hsteady => ?_
    obtain ⟨⟨oid, rfl, hmem⟩, hall, h, hh, heq⟩ := hs
    have hlocals : (engine.locals heap level).getD [] = l :: ls := by
      rw [← hsteady.locals_eq hh, ← heq, hvars]
    have hshown : List.Forall₂ (ShownAs engine heap) (l :: ls) props := by
      refine List.forall₂_iff_get.mpr ⟨hall.length_eq, fun i hi hi' => ?_⟩
      obtain ⟨v, hp, hv⟩ := (List.forall₂_iff_get.mp hall).2 i hi hi'
      rw [hp]
      exact hsteady.shownAs (by rw [hlocals]; exact List.get_mem _ _) hv
    unfold ScopeOf
    rw [hlocals]
    exact ⟨oid, frameName fi, props, hmem, hshown, rfl⟩

/-- The global scope is called so. -/
theorem triple_globalScope_during : during.Triple (fun _ => True) (globalScope engine.recorded)
    (fun globals _ => ∀ g ∈ globals, g.index (ascii "type") = .lit "global") := by
  refine Growth.Triple.bind (calls_ask _) fun global => ?_
  refine Growth.Triple.bind (calls_ownProperties (calls_jsValueToRemoteObject 0) 50 global)
    fun props => ?_
  refine Growth.Triple.bind (calls_referring _ _) fun scope => Growth.Triple.pure fun s _ g hg => ?_
  rw [List.mem_singleton.mp hg]
  simp only [Value.ofFields, List.foldl_cons, List.foldl_nil]
  rw [Value.index_set_of_ne _ _ (by decide), Value.index_set_self]

/-- **One frame.** -/
theorem triple_frameOf (engine : JsEngine σ α) (heap : σ) (host : Host) (scripts : List Script)
    (fi : FrameInfo) (level : Nat) :
    during.Triple (fun _ => True) (callFrame engine.recorded host scripts fi level)
      (fun frame s => Steady engine heap s.heaps level →
        FrameOf engine heap level frame s.store) := by
  refine (triple_scopeOf engine heap level fi).bind fun scopes => ?_
  have hkeep : during.Stable fun s : Inspected (σ × List σ) =>
      Steady engine heap s.heaps level → ScopeOf engine heap level scopes s.store :=
    fun s t hle hs hsteady => (hs (hsteady.mono hle.1)).mono hle.2
  have hglobal := (@triple_globalScope_during _ _ engine).frame hkeep
  refine (hglobal.weaken (fun s hs => ⟨trivial, hs⟩) fun _ _ h => h).bind fun globals => ?_
  refine Growth.Triple.pure fun s hs hsteady => ⟨?_, scopes, globals, ?_, hs.2 hsteady, hs.1⟩
  · simp only [Value.ofFields, List.foldl_cons, List.foldl_nil]
    simp (disch := decide) only [Value.index_set_of_ne, Value.index_set_self]
  · simp only [Value.ofFields, List.foldl_cons, List.foldl_nil]
    simp (disch := decide) only [Value.index_set_of_ne, Value.index_set_self]

end

/-! ## 4. What the client gets -/

/-- The elements of an array. -/
def items : Value → List Value
  | .array xs => xs
  | _ => []

/-- A scope of the type that the client shows as the local one. -/
def isLocal (scope : Value) : Bool := (scope.index (ascii "type")).getString == ascii "local"

/-- The properties of the local scope of a frame, as the client reads them. -/
def localProperties (st : ObjectStore) (frame : Value) : List Value :=
  match (items (frame.index (ascii "scopeChain"))).find? isLocal with
  | some scope =>
    items ((st.getProperties
      ((scope.index (ascii "object")).index (ascii "objectId")).getString).index (ascii "result"))
  | none => []

/-- The first property of that name. -/
def shownLocal (st : ObjectStore) (frame : Value) (name : Bytes) : Option Value :=
  (localProperties st frame).find? fun p => (p.index (ascii "name")).getString == name

/-- The frame shows the locals of its level, in the engine's order. -/
theorem FrameOf.localProperties {engine : JsEngine σ α} {heap : σ} {level : Nat} {frame : Value}
    {st : ObjectStore} (h : FrameOf engine heap level frame st) (hst : Filled st) :
    List.Forall₂ (ShownAs engine heap) ((engine.locals heap level).getD [])
      (localProperties st frame) := by
  obtain ⟨-, scopes, globals, hchain, hscope, hglobal⟩ := h
  have hnone : globals.find? isLocal = none := by
    refine List.find?_eq_none.mpr fun g hg => ?_
    rw [isLocal, hglobal g hg]
    decide
  unfold Objects.localProperties
  unfold ScopeOf at hscope
  rw [hchain]
  split at hscope
  · rename_i hvars
    rw [hscope, hvars, items, List.nil_append, hnone]
    exact .nil
  · obtain ⟨oid, name, props, hmem, hall, rfl⟩ := hscope
    obtain ⟨htype, hobject⟩ := index_scopeOf oid name
    have hlocal : isLocal (scopeOf oid name) = true := by
      rw [isLocal, htype]
      decide
    rw [items, List.singleton_append, List.find?_cons_of_pos hlocal]
    simp only [hobject, Value.getString, hst.getProperties_eq hmem]
    have hresult : (Value.ofFields [("result", .array props)]).index (ascii "result") =
        .array props := by
      simp only [Value.ofFields, List.foldl_cons, List.foldl_nil]
      exact Value.index_set_self _ _ _
    rw [hresult, items]
    exact hall

/-- The first of each of two related lists that a test picks. -/
theorem find?_forall₂ {γ δ : Type} {R : γ → δ → Prop} {p : γ → Bool} {q : δ → Bool}
    (hpq : ∀ a b, R a b → p a = q b) {l : List γ} {l' : List δ} (h : List.Forall₂ R l l') {b : δ}
    (hb : l'.find? q = some b) : ∃ a, l.find? p = some a ∧ R a b := by
  induction h with
  | nil => exact absurd hb (by simp)
  | @cons a c l l' hac _ ih =>
    cases hq : q c with
    | true =>
      rw [List.find?_cons_of_pos hq] at hb
      obtain rfl := Option.some.inj hb
      exact ⟨a, List.find?_cons_of_pos ((hpq a c hac).trans hq), hac⟩
    | false =>
      have hp : p a = false := (hpq a c hac).trans hq
      rw [List.find?_cons_of_neg (by simp [hq])] at hb
      rw [List.find?_cons_of_neg (by simp [hp])]
      exact ih hb

/-- **What is shown under a name** is the level's first local of that name. -/
theorem FrameOf.shownLocal {engine : JsEngine σ α} {heap : σ} {level : Nat} {frame : Value}
    {st : ObjectStore} (h : FrameOf engine heap level frame st) (hst : Filled st) {name : Bytes}
    (hname : name ≠ []) {p : Value} (hp : shownLocal st frame name = some p) :
    ∃ l, ((engine.locals heap level).getD []).find? (fun v => v.1 == some name) = some l ∧
      DescribedAs engine (report engine heap l.2) (p.index (ascii "value")) := by
  have hpick : ∀ (l : Option Bytes × α) (p : Value), ShownAs engine heap l p →
      (l.1 == some name) = ((p.index (ascii "name")).getString == name) := by
    rintro ⟨vname, val⟩ p ⟨v, rfl, -⟩
    rw [(index_ownProperty _ v).1]
    cases vname with
    | none => simp [Value.getString, hname]
    | some n => simp [Value.getString]
  obtain ⟨l, hfind, v, rfl, hv⟩ := find?_forall₂ hpick (h.localProperties hst) hp
  rw [(index_ownProperty _ v).2]
  exact ⟨l, hfind, hv⟩

/-! ## 5. Evaluating a variable -/

/-- **`std::stoi` reads the level off the id** of a frame. -/
theorem frameLevel_decimal {level : Nat} (h : (level : Int) < 2 ^ 31) :
    frameLevel (decimal level) = level := by
  have hstoi : stoi (decimal level ++ []) = .ok (level : Int) :=
    stoi_decimal_append (Int.natCast_nonneg level) h rfl
  rw [List.append_nil] at hstoi
  rw [frameLevel, hstoi]
  rfl

section

variable {engine : JsEngine σ α} {heap : σ}

theorem calls_evaluationResult (callFrameId expression : Bytes) :
    Calls (evaluationResult engine.recorded callFrameId expression) := by
  refine (calls_ask _).bind fun vars => ?_
  cases (vars.getD []).find? fun v => v.1 == some expression with
  | some v => exact (calls_jsValueToRemoteObject 0 v.2).bind fun value => Calls.pure _
  | none =>
    refine (calls_call _).bind fun answer => ?_
    cases answer with
    | ok val => exact (calls_jsValueToRemoteObject 0 val).bind fun value => Calls.pure _
    | error text => exact Calls.pure _

/-- **An evaluation that names a local** describes the first one of that name, as it is when the
evaluation begins. -/
theorem evaluationResult_local {callFrameId name : Bytes} {level : Int}
    (hlevel : frameLevel callFrameId = level) (s : Inspected σ) {l : Option Bytes × α}
    (hfind : ((engine.locals s.heap level).getD []).find? (fun v => v.1 == some name) = some l) :
    DescribedAs engine (report engine s.heap l.2)
      (((evaluationResult engine callFrameId name).run s).1.index (ascii "result")) := by
  subst hlevel
  unfold evaluationResult
  rw [run_ask_bind, hfind]
  have hresult : ∀ v : Value, (Value.ofFields [("result", v)]).index (ascii "result") = v := by
    intro v
    simp only [Value.ofFields, List.foldl_cons, List.foldl_nil]
    exact Value.index_set_self _ _ _
  have hdescribed := @describedAs_run _ _ engine 0 l.2 s
  rw [← hresult ((jsValueToRemoteObject engine 0 l.2).run s).1] at hdescribed
  exact hdescribed

/-- What a capture leaves behind, on the heaps up to its end. -/
theorem frames_captureFrames (engine : JsEngine σ α) (host : Host) (scripts : List Script)
    (s : Pausing (σ × List σ)) (heap : σ) (e : Event) :
    let t := captureFrames engine.recorded host scripts s (heap, []) e
    ∃ frames, t.capturedFrames = .array frames ∧
      List.Forall₂ (fun p frame => Steady engine heap t.inspected.heaps p.2 →
        FrameOf engine heap p.2 frame t.store) (trackFrames s.frameStack e).zipIdx frames := by
  have hstable : ∀ (p : FrameInfo × Nat) (frame : Value),
      during.Stable fun s : Inspected (σ × List σ) =>
        Steady engine heap s.heaps p.2 → FrameOf engine heap p.2 frame s.store :=
    fun p frame s t hle h hsteady => (h (hsteady.mono hle.1)).mono hle.2
  have hloop := Growth.Triple.mapM_forall₂ (fun _ _ _ h => h) hstable
    (trackFrames s.frameStack e).zipIdx fun p _ =>
      triple_frameOf engine heap host scripts p.1 p.2
  obtain ⟨-, -, hframes⟩ := hloop { heap := (heap, []), store := .empty } trivial trivial
  exact ⟨_, rfl, hframes⟩

/-- Evaluations keep the frames of the pause and what they refer to. -/
theorem duringPause_keeps {t : Pausing (σ × List σ)} (hclosed : Closed t)
    (requests : List (Bytes × Bytes)) :
    let t' := requests.foldl (fun t r => evaluate engine.recorded t r.1 r.2) t
    t.inspected.heaps ⊆ t'.inspected.heaps ∧ Closed t' ∧ t'.capturedFrames = t.capturedFrames ∧
      t.store.stored <+: t'.store.stored := by
  induction requests generalizing t with
  | nil => exact ⟨List.Subset.refl _, hclosed, rfl, List.prefix_rfl⟩
  | cons r requests ih =>
    obtain ⟨hclosed', hle⟩ := closed_evaluate engine.recorded hclosed r.1 r.2
    obtain ⟨-, hheaps, -⟩ := @calls_evaluationResult _ _ engine r.1 r.2 t.inspected trivial trivial
    obtain ⟨h₁, h₂, h₃, h₄⟩ := ih (t := evaluate engine.recorded t r.1 r.2) hclosed'
    exact ⟨List.Subset.trans hheaps.1 h₁, h₂, h₃, hle.trans h₄⟩

section

variable {infos : List FrameInfo} {frames : List Value} {st : ObjectStore}
  (h : List.Forall₂ (fun p frame => FrameOf engine heap p.2 frame st) infos.zipIdx frames)

include h

/-- The `k`-th frame is the one of level `k`. -/
theorem frameOf_of_getElem? {k : Nat} {frame : Value} (hk : frames[k]? = some frame) :
    FrameOf engine heap k frame st ∧ k < infos.length := by
  have hlength : frames.length = infos.length := by rw [← h.length_eq, List.length_zipIdx]
  obtain ⟨hlt, rfl⟩ := List.getElem?_eq_some_iff.mp hk
  have hget := (List.forall₂_iff_get.mp h).2 k (h.length_eq ▸ hlt) hlt
  simp only [List.get_eq_getElem, List.getElem_zipIdx, Nat.zero_add] at hget
  exact ⟨hget, hlength ▸ hlt⟩

/-- Their ids are the levels. -/
theorem map_callFrameId :
    (frames.map fun frame => (frame.index (ascii "callFrameId")).getString) =
      (List.range infos.length).map fun k : Nat => decimal k := by
  have hlength : frames.length = infos.length := by rw [← h.length_eq, List.length_zipIdx]
  refine List.ext_getElem? fun k => ?_
  rw [List.getElem?_map, List.getElem?_map]
  cases hk : frames[k]? with
  | none =>
    rw [List.getElem?_eq_none_iff, hlength] at hk
    rw [List.getElem?_eq_none (by rwa [List.length_range])]
    rfl
  | some frame =>
    obtain ⟨hof, hlt⟩ := frameOf_of_getElem? h hk
    rw [List.getElem?_range hlt, Option.map_some, Option.map_some, hof.1]
    rfl

end

theorem nodup_map_decimal (n : Nat) : ((List.range n).map fun k : Nat => decimal k).Nodup := by
  refine List.Nodup.map_on (fun i _ j _ hij => ?_) List.nodup_range
  exact Int.ofNat.inj (decimal_injective (Int.natCast_nonneg i) (Int.natCast_nonneg j) hij)

end

/-- **Evaluating a variable on a frame agrees with what the frame displays.**  For every engine,
every pause at any stack depth (an `int`) and whatever was evaluated in it before, so long as the
heaps that the engine had in this pause all report the same locals at every level: the frames have
different ids, one for each level, and for every name under which the local scope of the `k`-th
frame shows something, an evaluation of the name on that frame returns the same description up to
the id of the properties, the one of the first local of that name at level `k`. -/
theorem evaluate_agrees_with_display (engine : JsEngine σ α) (host : Host) (scripts : List Script)
    (s : Pausing σ) (heap : σ) (e : Event) (requests : List (Bytes × Bytes))
    (hdepth : (e.depth : Int) < 2 ^ 31)
    (hsteady : ∀ k < e.depth,
      Steady engine heap (heapsDuring engine host scripts s heap e requests) k) :
    let t := duringPause engine host scripts s heap e requests
    ∃ frames, t.capturedFrames = .array frames ∧ frames.length = e.depth ∧
      (frames.map fun frame => (frame.index (ascii "callFrameId")).getString).Nodup ∧
      ∀ (k : Nat) (frame : Value) (name : Bytes) (p : Value), frames[k]? = some frame →
        name ≠ [] → shownLocal t.store frame name = some p →
        ∃ answer l,
          (evaluate engine t (frame.index (ascii "callFrameId")).getString name).results =
            t.results ++ [answer] ∧
          SameUpToObjectId (answer.index (ascii "result")) (p.index (ascii "value")) ∧
          ((engine.locals heap k).getD []).find? (fun v => v.1 == some name) = some l ∧
          DescribedAs engine (report engine heap l.2) (answer.index (ascii "result")) := by
  intro t
  obtain ⟨frames, hcaptured, hframes⟩ :=
    frames_captureFrames engine host scripts s.recorded heap e
  obtain ⟨hheaps, hclosed, hsame, hle⟩ := @duringPause_keeps _ _ engine _
    (closed_captureFrames engine.recorded host scripts s.recorded (heap, []) e) requests
  -- the pause is the one that the recording engine goes through
  have ht : (duringPause engine.recorded host scripts s.recorded (heap, []) e requests).plain = t :=
    recorded_duringPause engine host scripts s heap e requests
  have hstore : (duringPause engine.recorded host scripts s.recorded (heap, []) e requests).store =
      t.store := by rw [← ht]; rfl
  have hnow : t.inspected.heap ∈ heapsDuring engine host scripts s heap e requests := by
    rw [← ht]
    exact List.mem_cons_self
  have hdepths : (trackFrames s.frameStack e).length = e.depth := length_trackFrames _ _
  have hlevels : List.Forall₂ (fun p frame => FrameOf engine heap p.2 frame t.store)
      (trackFrames s.frameStack e).zipIdx frames := by
    refine List.forall₂_iff_get.mpr ⟨hframes.length_eq, fun i hi hi' => ?_⟩
    have hlt : ((trackFrames s.frameStack e).zipIdx.get ⟨i, hi⟩).2 < e.depth := by
      have hlt := List.snd_lt_of_mem_zipIdx (List.get_mem _ ⟨i, hi⟩)
      rwa [Nat.add_zero, hdepths] at hlt
    have hof := (List.forall₂_iff_get.mp hframes).2 i hi hi' ((hsteady _ hlt).mono hheaps)
    rw [← hstore]
    exact hof.mono hle
  have hlength : frames.length = e.depth := by rw [← hlevels.length_eq, List.length_zipIdx, hdepths]
  have hfilled : Filled t.store := hstore ▸ hclosed.filled
  refine ⟨frames, ?_, hlength, ?_, ?_⟩
  · rw [← ht]
    exact hsame.trans hcaptured
  · rw [map_callFrameId hlevels]
    exact nodup_map_decimal _
  · intro k frame name p hk hname hp
    obtain ⟨hof, hlt⟩ := frameOf_of_getElem? hlevels hk
    rw [hdepths] at hlt
    obtain ⟨l, hfind, hshown⟩ := hof.shownLocal hfilled hname hp
    have hlevel : frameLevel (frame.index (ascii "callFrameId")).getString = k := by
      rw [hof.1]
      exact frameLevel_decimal (by omega)
    -- the locals of the level are still the ones of the capture
    have hfind' := hfind
    rw [← (hsteady k hlt).locals_eq hnow] at hfind'
    have hanswer := evaluationResult_local hlevel t.inspected hfind'
    rw [(hsteady k hlt).report_eq (List.mem_of_find?_eq_some hfind) hnow] at hanswer
    exact ⟨_, l, rfl, hanswer.same hshown, hfind, hanswer⟩

/-- Line 3 again, two frames deep. -/
def lineThreeNested : Event := { lineThree with depth := 2 }

/-- An engine whose heap is the number of expressions that were evaluated.  The local `v` of the
inner level is an object; at the outer level there are two of that name, the first one an array with
three elements, which `v.push(0)` would make longer. -/
def twoLevels : JsEngine Nat Nat where
  kind := fun _ val => if val = 0 then .object else if val = 1 then .array else .undefined
  length := fun _ heap => (if heap < 2 then 3 else 4, heap)
  element := fun _ _ heap => (2, heap)
  ownPropertyNames := fun _ heap => (some [], heap)
  property := fun _ _ heap => (2, heap)
  atomToCString := fun _ _ => none
  global := fun _ => 2
  locals := fun _ level =>
    if level = 0 then some [(some (ascii "v"), 0)]
    else some [(some (ascii "v"), 1), (some (ascii "v"), 0)]
  eval := fun expression heap =>
    (.ok 2, if expression = ascii "v.push(0)" then heap + 2 else heap + 1)
  fmt17g := fun _ => []

/-- A pause whose requests look at a name that no level has, and at `v` of the inner one. -/
def lookedAround : List (Bytes × Bytes) := [(ascii "0", ascii "w"), (ascii "0", ascii "v")]

theorem steady_twoLevels (k : Nat) : Steady twoLevels 0
    (heapsDuring twoLevels posixHost [] (.new 0) 0 lineThreeNested lookedAround) k := by
  have hheaps : (heapsDuring twoLevels posixHost [] (.new 0) 0 lineThreeNested lookedAround).all
      (fun h => h == 0 || h == 1) = true := by decide +kernel
  intro h hh
  have hh := List.all_eq_true.mp hheaps h hh
  rcases Bool.or_eq_true _ _ ▸ hh with hh | hh
  · rw [eq_of_beq hh]
  · rw [eq_of_beq hh]
    rfl

/-- The outer of two frames shows its own `v`, the array, and that is what an evaluation on this
frame returns. -/
theorem evaluate_agrees_with_display_nested :
    let t := duringPause twoLevels posixHost [] (.new 0) 0 lineThreeNested lookedAround
    ∃ frame p answer, (items t.capturedFrames)[1]? = some frame ∧
      shownLocal t.store frame (ascii "v") = some p ∧
      (evaluate twoLevels t (frame.index (ascii "callFrameId")).getString (ascii "v")).results =
        t.results ++ [answer] ∧
      SameUpToObjectId (answer.index (ascii "result")) (p.index (ascii "value")) ∧
      DescribedAs twoLevels (.array, 3) (answer.index (ascii "result")) := by
  intro t
  obtain ⟨frames, hframes, -, -, hall⟩ := evaluate_agrees_with_display twoLevels posixHost []
    (.new 0) 0 lineThreeNested lookedAround (by decide) fun k _ => steady_twoLevels k
  have hitems : items t.capturedFrames = frames := by rw [hframes, items]
  have hshown : ((items t.capturedFrames)[1]?.bind fun frame =>
      shownLocal t.store frame (ascii "v")).isSome = true := by decide +kernel
  obtain ⟨p, hp⟩ := Option.isSome_iff_exists.mp hshown
  obtain ⟨frame, hframe, hp⟩ := Option.bind_eq_some_iff.mp hp
  obtain ⟨answer, l, hresults, hsame, hfind, hanswer⟩ := hall 1 frame (ascii "v") p
    (hitems ▸ hframe) (by decide) hp
  obtain rfl : (some (ascii "v"), 1) = l := Option.some.inj hfind
  exact ⟨frame, p, answer, hframe, hp, hresults, hsame, hanswer⟩

end Objects

end QjsDebug
