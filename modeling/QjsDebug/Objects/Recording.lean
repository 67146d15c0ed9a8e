/-
# The heaps of a pause

What the client is shown in a pause it is shown from the heaps that the engine leaves behind, one
call after the other: a getter may change the heap between two properties, an evaluated expression
between two requests.  `JsEngine.recorded` is the engine with these heaps written down, and
`heapsDuring` are those of one pause -- of its own calls, and no others.

Nothing else changes: `recorded_duringPause` says that a pause with the recording engine is the
pause with the engine.
-/
import QjsDebug.Lib.Projection
import QjsDebug.Objects.Capture

namespace QjsDebug

open Json (Value)
open Cdp (Script)

namespace Objects

variable {σ α β : Type}

/-! ## 1. The recording engine -/

/-- A call, with the heap it was made on. -/
def record (f : σ → β × σ) (h : σ × List σ) : β × (σ × List σ) :=
  ((f h.1).1, (f h.1).2, h.1 :: h.2)

/-- The engine over its heap and the heaps before it, newest first. -/
def JsEngine.recorded (engine : JsEngine σ α) : JsEngine (σ × List σ) α where
  kind h val := engine.kind h.1 val
  length val := record (engine.length val)
  element val i := record (engine.element val i)
  ownPropertyNames val := record (engine.ownPropertyNames val)
  property val atom := record (engine.property val atom)
  atomToCString h atom := engine.atomToCString h.1 atom
  global h := engine.global h.1
  locals h level := engine.locals h.1 level
  eval expression := record (engine.eval expression)
  fmt17g := engine.fmt17g

/-- Without the record. -/
def Inspected.plain (s : Inspected (σ × List σ)) : Inspected σ where
  heap := s.heap.1
  store := s.store

/-- All the heaps so far. -/
def Inspected.heaps (s : Inspected (σ × List σ)) : List σ := s.heap.1 :: s.heap.2

def Pausing.plain (s : Pausing (σ × List σ)) : Pausing σ where
  inspected := s.inspected.plain
  frameStack := s.frameStack
  capturedFrames := s.capturedFrames
  results := s.results

/-- A session with nothing on record. -/
def Pausing.recorded (s : Pausing σ) : Pausing (σ × List σ) where
  inspected := { heap := (s.inspected.heap, []), store := s.inspected.store }
  frameStack := s.frameStack
  capturedFrames := s.capturedFrames
  results := s.results

/-- The heaps that the engine has had during a pause, its present one first. -/
def heapsDuring (engine : JsEngine σ α) (host : Host) (scripts : List Script) (s : Pausing σ)
    (heap : σ) (e : Event) (requests : List (Bytes × Bytes)) : List σ :=
  (duringPause engine.recorded host scripts s.recorded (heap, []) e requests).inspected.heaps

/-! ## 2. It is the engine -/

section

variable (engine : JsEngine σ α)

/-- The recording program is the plain one. -/
abbrev Records (m' : Inspect (σ × List σ) β) (m : Inspect σ β) : Prop :=
  Projects Inspected.plain m' m

theorem records_call (f : σ → β × σ) : Records (call (record f)) (call f) := fun _ => ⟨rfl, rfl⟩

theorem records_ask (f : σ → β) : Records (ask fun h => f h.1) (ask f) := fun _ => ⟨rfl, rfl⟩

theorem records_referring (fields : List (String × Value)) (props : List Value) :
    Records (referring fields props) (referring fields props : Inspect σ Value) :=
  fun _ => ⟨rfl, rfl⟩

section

variable {convert' : α → Inspect (σ × List σ) Value} {convert : α → Inspect σ Value}
  (hc : ∀ val, Records (convert' val) (convert val))

include hc

theorem records_elements (len : Int) (val : α) :
    Records (elements engine.recorded convert' len val) (elements engine convert len val) := by
  refine Projects.mapM _ fun i => ?_
  exact (records_call _).bind fun elem => (hc elem).bind fun v => Projects.pure _

theorem records_ownProperties (limit : Nat) (val : α) :
    Records (ownProperties engine.recorded convert' limit val)
      (ownProperties engine convert limit val) := by
  refine (records_call _).bind fun names => ?_
  refine (Projects.mapM _ fun atom => ?_).bind fun props => Projects.pure _
  refine (records_call _).bind fun pval => ?_
  refine (records_ask fun h => engine.atomToCString h atom).bind fun pname => ?_
  cases pname with
  | none => exact Projects.pure _
  | some pname => exact (hc pval).bind fun v => Projects.pure _

end

theorem records_remoteObject {child' : Option (α → Inspect (σ × List σ) Value)}
    {child : Option (α → Inspect σ Value)}
    (hc : child' = none ∧ child = none ∨ ∃ convert' convert, child' = some convert' ∧
      child = some convert ∧ ∀ val, Records (convert' val) (convert val)) (val : α) :
    Records (remoteObject engine.recorded child' val) (remoteObject engine child val) := by
  have hgated : ∀ {loop' : (α → Inspect (σ × List σ) Value) → Inspect (σ × List σ) (List Value)}
      {loop : (α → Inspect σ Value) → Inspect σ (List Value)},
      (∀ convert' convert, (∀ val, Records (convert' val) (convert val)) →
        Records (loop' convert') (loop convert)) →
      Records (gated child' loop') (gated child loop) := by
    intro loop' loop hloop
    rcases hc with ⟨rfl, rfl⟩ | ⟨convert', convert, rfl, rfl, hc⟩
    · exact Projects.pure _
    · exact hloop convert' convert hc
  refine (records_ask fun h => engine.kind h val).bind fun kind => ?_
  cases kind with
  | function => exact records_referring _ _
  | array =>
    refine (records_call _).bind fun len => ?_
    refine (hgated fun _ _ h => records_elements engine h len val).bind fun props => ?_
    exact records_referring _ _
  | object =>
    refine (hgated fun _ _ h => records_ownProperties engine h 100 val).bind fun props => ?_
    exact records_referring _ _
  | _ => exact Projects.pure _

theorem records_jsValueToRemoteObject (depth : Nat) (val : α) :
    Records (jsValueToRemoteObject engine.recorded depth val)
      (jsValueToRemoteObject engine depth val) := by
  have hlevels : ∀ levels val,
      Records (convertLevels engine.recorded levels val) (convertLevels engine levels val) := by
    intro levels
    induction levels with
    | zero => exact records_remoteObject engine (.inl ⟨rfl, rfl⟩)
    | succ levels ih => exact records_remoteObject engine (.inr ⟨_, _, rfl, rfl, ih⟩)
  exact hlevels _ val

theorem records_localScope (level : Nat) (fi : FrameInfo) :
    Records (localScope engine.recorded level fi) (localScope engine level fi) := by
  refine (records_ask fun h => engine.locals h level).bind fun vars => ?_
  cases vars.getD [] with
  | nil => exact Projects.pure _
  | cons v vs =>
    refine (Projects.mapM _ fun l => ?_).bind fun props => ?_
    · exact (records_jsValueToRemoteObject engine 0 l.2).bind fun value => Projects.pure _
    · exact (records_referring _ props).bind fun scope => Projects.pure _

theorem records_globalScope :
    Records (globalScope engine.recorded) (globalScope engine) := by
  refine (records_ask engine.global).bind fun global => ?_
  refine (records_ownProperties engine (records_jsValueToRemoteObject engine 0) 50 global).bind
    fun props => ?_
  exact (records_referring _ props).bind fun scope => Projects.pure _

theorem records_callFrame (host : Host) (scripts : List Script) (fi : FrameInfo) (level : Nat) :
    Records (callFrame engine.recorded host scripts fi level)
      (callFrame engine host scripts fi level) :=
  (records_localScope engine level fi).bind fun _ =>
    (records_globalScope engine).bind fun _ => Projects.pure _

theorem records_evaluationResult (callFrameId expression : Bytes) :
    Records (evaluationResult engine.recorded callFrameId expression)
      (evaluationResult engine callFrameId expression) := by
  refine (records_ask fun h => engine.locals h (frameLevel callFrameId)).bind fun vars => ?_
  cases (vars.getD []).find? fun v => v.1 == some expression with
  | some v => exact (records_jsValueToRemoteObject engine 0 v.2).bind fun value => Projects.pure _
  | none =>
    refine (records_call _).bind fun answer => ?_
    cases answer with
    | ok val => exact (records_jsValueToRemoteObject engine 0 val).bind fun value => Projects.pure _
    | error text => exact Projects.pure _

/-- **A capture**, with and without the record. -/
theorem recorded_captureFrames (host : Host) (scripts : List Script) (s : Pausing σ) (heap : σ)
    (e : Event) :
    (captureFrames engine.recorded host scripts s.recorded (heap, []) e).plain =
      captureFrames engine host scripts s heap e := by
  have hloop := Projects.mapM (π := Inspected.plain) (trackFrames s.frameStack e).zipIdx
    fun p => records_callFrame engine host scripts p.1 p.2
  obtain ⟨hframes, hstate⟩ := hloop { heap := (heap, []), store := .empty }
  unfold captureFrames Pausing.plain
  simp only [Pausing.recorded]
  rw [hstate, hframes]
  rfl

/-- **An evaluation.** -/
theorem recorded_evaluate (s : Pausing (σ × List σ)) (callFrameId expression : Bytes) :
    (evaluate engine.recorded s callFrameId expression).plain =
      evaluate engine s.plain callFrameId expression := by
  obtain ⟨hresult, hstate⟩ :=
    records_evaluationResult engine callFrameId expression s.inspected
  unfold evaluate Pausing.plain
  simp only
  rw [hstate, hresult]

/-- **A pause with the recording engine is the pause with the engine.** -/
theorem recorded_duringPause (host : Host) (scripts : List Script) (s : Pausing σ) (heap : σ)
    (e : Event) (requests : List (Bytes × Bytes)) :
    (duringPause engine.recorded host scripts s.recorded (heap, []) e requests).plain =
      duringPause engine host scripts s heap e requests := by
  unfold duringPause
  rw [← recorded_captureFrames engine host scripts s heap e]
  generalize captureFrames engine.recorded host scripts s.recorded (heap, []) e = t
  induction requests generalizing t with
  | nil => rfl
  | cons r requests ih =>
    rw [List.foldl_cons, List.foldl_cons, ih, recorded_evaluate]

end

end Objects

end QjsDebug
