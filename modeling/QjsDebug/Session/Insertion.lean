/-
# A breakpoint that does not fire

What does it change to put one more breakpoint into the table, one whose condition is falsy
wherever it is evaluated?  Where it is the breakpoint that the handler finds, the handler evaluates
the condition and returns: it does not come to the step test, nor to the breakpoint behind, and the
code of the condition runs, whose statements may be where a step stops.

* §1  what a statement needs so that nothing changes (`spared`);
* §2  this is exact: wherever in the table the breakpoint is put, the first stop of a run stays
      where it is iff the run is spared (`firstStop_insert_iff`);
* §3  both forms of the question where a step stops (`step_stop_iff_not_swallowed`).
-/
import QjsDebug.Session.Nested

namespace QjsDebug

/-! ## 1. Passing and being spared -/

/-- The session with another table. -/
def Session.withTable (s : Session) (table : List (Int × Breakpoint)) : Session :=
  { s with breakpoints := table }

section

variable (host : Host)

/-- The condition of the breakpoint that the handler finds, empty when it has none. -/
def conditionAt (s : Session) (e : Event) : Option Bytes :=
  (hitBreakpoint host s e).map fun p => p.2.condition

mutual

/-- No stop, by the tests of the handler: the statement is not looked at, or nothing is pending and
either no breakpoint is found and the step goes on, or the one that is found is not wanted and the
code of its condition passes too. -/
def passes (s : Session) : Statement → Bool
  | ⟨e, truthy, condition, _⟩ =>
    !(s.enabled && e.handled) || !s.pauseRequested && !s.pauseOnStart &&
      match hitBreakpoint host s e with
      | some q => !q.2.wants truthy && passAll s (condition q.2.condition)
      | none => !stepStops s s.stepMode e

def passAll (s : Session) : List Statement → Bool
  | [] => true
  | x :: xs => passes s x && passAll s xs

end

mutual

/-- What the statement needs so that its first stop is the same with breakpoint `p` in the table
that `table` is.  Where the same condition is evaluated with both tables, or none, the code that
runs inside needs it too, as far as it comes; elsewhere the statement has to pass without `p`, and
the code of the condition of `p` with it. -/
def spared (table : List (Int × Breakpoint)) (p : Int × Breakpoint) (s : Session) :
    Statement → Bool
  | ⟨e, truthy, condition, captured⟩ =>
    !(s.enabled && e.handled) ||
      if s.pauseRequested then sparedAll table p (s.stopFor .pauseRequest) captured
      else if s.pauseOnStart then sparedAll table p (s.stopFor .entry) captured
      else if conditionAt host (s.withTable table) e = conditionAt host s e then
        match hitBreakpoint host s e with
        | some q =>
          (q.2.condition == [] || sparedAll table p s (condition q.2.condition)) &&
            (!q.2.wants truthy ||
              !(q.2.condition == [] || passAll host s (condition q.2.condition)) ||
              sparedAll table p (s.stopFor .breakpoint) captured)
        | none => !stepStops s s.stepMode e || sparedAll table p (s.stopFor .step) captured
      else
        passes host s ⟨e, truthy, condition, captured⟩ &&
          passAll host (s.withTable table) (condition p.2.condition)

/-- The same of the statements of a run, up to the first stop. -/
def sparedAll (table : List (Int × Breakpoint)) (p : Int × Breakpoint) (s : Session) :
    List Statement → Bool
  | [] => true
  | x :: xs => spared table p s x && (!passes host s x || sparedAll table p s xs)

end

end

section

variable {host : Host}

theorem passAll_iff_of_forall {s : Session} {xs : List Statement}
    (hx : ∀ x ∈ xs, (passes host s x = true ↔ (handle host x s).2 = none)) :
    passAll host s xs = true ↔ firstStop host s xs = none := by
  induction xs with
  | nil => simp [passAll, firstStop_nil]
  | cons x xs ih =>
    obtain ⟨hone, hrest⟩ := List.forall_mem_cons.mp hx
    rw [passAll, firstStop_cons, Bool.and_eq_true, hone, ih hrest]
    cases (handle host x s).2 with
    | some stop => simp
    | none => simp

/-- **Passing is stopping nowhere.** -/
theorem passes_iff (x : Statement) : ∀ s, passes host s x = true ↔ (handle host x s).2 = none := by
  induction x using Statement.induction with
  | step x hcondition hcaptured =>
    intro s
    have hcode : ∀ expr, expr ≠ [] →
        (passAll host s (x.condition expr) = true ↔ firstStop host s (x.code expr) = none) := by
      intro expr hexpr
      rw [Statement.code, if_neg hexpr]
      exact passAll_iff_of_forall fun y hy => hcondition expr y hy s
    rw [handle_snd]
    unfold stopOf Stop.atBreakpoint
    obtain ⟨e, truthy, condition, captured⟩ := x
    rw [passes]
    cases s.enabled && e.handled with
    | false => simp
    | true =>
      cases s.pauseRequested with
      | true => simp
      | false =>
        cases s.pauseOnStart with
        | true => simp
        | false =>
          simp only [Bool.not_true, Bool.not_false, Bool.true_and, Bool.false_or, if_true,
            Bool.false_eq_true, if_false]
          cases hitBreakpoint host s e with
          | none => cases stepStops s s.stepMode e <;> simp
          | some q =>
            simp only
            cases hw : q.2.wants truthy with
            | true => cases firstStop host s _ <;> simp
            | false =>
              have hq := hcode q.2.condition (wants_eq_false.mp hw).1
              rw [Bool.not_false, Bool.true_and]
              rw [hq]
              cases firstStop host s _ <;> simp

theorem passAll_iff (xs : List Statement) (s : Session) :
    passAll host s xs = true ↔ firstStop host s xs = none :=
  passAll_iff_of_forall fun x _ => passes_iff x s

/-! ## 2. The first stop with one more breakpoint -/

/-- The new breakpoint is found, or it changes nothing. -/
theorem hitBreakpoint_insert {s : Session} {pre post : List (Int × Breakpoint)}
    (hs : s.breakpoints = pre ++ post) (p : Int × Breakpoint) (e : Event) :
    hitBreakpoint host (s.withTable (pre ++ p :: post)) e = hitBreakpoint host s e ∨
      hitBreakpoint host (s.withTable (pre ++ p :: post)) e = some p := by
  unfold hitBreakpoint hitting Session.withTable
  simp only [hs, List.filter_append]
  cases s.bpActive with
  | false => exact .inl rfl
  | true =>
    simp only [if_true]
    cases pre.filter fun p => p.2.enabled && p.2.hits host e.file e.line with
    | cons q rest => exact .inl rfl
    | nil =>
      simp only [List.nil_append, List.filter_cons]
      split
      · exact .inr rfl
      · exact .inl rfl

theorem Stop.ofCapture_inj {a b : Option (Nat × Stop)} {p : Pause} :
    Stop.ofCapture a p = Stop.ofCapture b p ↔ a = b := by
  refine ⟨fun h => ?_, fun h => h ▸ rfl⟩
  unfold Stop.ofCapture at h
  rcases a with - | ⟨n, a⟩ <;> rcases b with - | ⟨m, b⟩
  · rfl
  · exact Stop.noConfusion h
  · exact Stop.noConfusion h
  · obtain ⟨-, rfl, rfl⟩ := Stop.inside.inj h
    rfl

theorem Stop.ofCapture_ne_inside (a : Option (Nat × Stop)) (p : Pause) (expr : Bytes) (n : Nat)
    (stop : Stop) : Stop.ofCapture a p ≠ .inside (.condition expr) n stop := by
  rcases a with - | ⟨m, a⟩
  · exact Stop.noConfusion
  · exact fun h => Work.noConfusion (Stop.inside.inj h).1

theorem Stop.atBreakpoint_inj {expr : Bytes} {a b c d : Option (Nat × Stop)} {wanted : Bool}
    {p q : Pause} :
    Stop.atBreakpoint expr a wanted (.ofCapture c p) =
        Stop.atBreakpoint expr b wanted (.ofCapture d q) ↔
      a = b ∧ (wanted = true → b = none → Stop.ofCapture c p = .ofCapture d q) := by
  have hne := Stop.ofCapture_ne_inside
  have hne' := fun a p expr n stop => (Stop.ofCapture_ne_inside a p expr n stop).symm
  unfold Stop.atBreakpoint
  rcases a with - | ⟨n, a⟩ <;> rcases b with - | ⟨m, b⟩ <;> cases wanted <;> simp [hne, hne']

/-- The stops of a call that looks at its event, with nothing pending. -/
theorem handle_snd_of_idle {x : Statement} {s : Session}
    (hlook : (s.enabled && x.event.handled) = true) (hreq : s.pauseRequested = false)
    (hent : s.pauseOnStart = false) :
    (handle host x s).2 = match hitBreakpoint host s x.event with
      | some p => Stop.atBreakpoint p.2.condition (firstStop host s (x.code p.2.condition))
          (p.2.wants x.truthy)
          (.ofCapture (firstStop host (s.stopFor .breakpoint) x.captured) ⟨.breakpoint, p.1⟩)
      | none =>
        if stepStops s s.stepMode x.event then
          some (.ofCapture (firstStop host (s.stopFor .step) x.captured) ⟨.step, 0⟩)
        else none := by
  rw [handle_snd, stopOf, if_pos hlook, hreq, hent]
  rfl

/-- The code of a condition passes, an empty one because it has none. -/
theorem passAll_condition_iff (x : Statement) (s : Session) (expr : Bytes) :
    (expr == [] || passAll host s (x.condition expr)) = true ↔
      firstStop host s (x.code expr) = none := by
  unfold Statement.code
  split
  · rename_i hexpr
    simp [firstStop_nil, hexpr]
  · rename_i hexpr
    simp [passAll_iff, hexpr]

theorem spared_eq (table : List (Int × Breakpoint)) (p : Int × Breakpoint) (s : Session)
    (x : Statement) :
    spared host table p s x = (!(s.enabled && x.event.handled) ||
      if s.pauseRequested then sparedAll host table p (s.stopFor .pauseRequest) x.captured
      else if s.pauseOnStart then sparedAll host table p (s.stopFor .entry) x.captured
      else if conditionAt host (s.withTable table) x.event = conditionAt host s x.event then
        match hitBreakpoint host s x.event with
        | some q =>
          (q.2.condition == [] || sparedAll host table p s (x.condition q.2.condition)) &&
            (!q.2.wants x.truthy ||
              !(q.2.condition == [] || passAll host s (x.condition q.2.condition)) ||
              sparedAll host table p (s.stopFor .breakpoint) x.captured)
        | none =>
          !stepStops s s.stepMode x.event || sparedAll host table p (s.stopFor .step) x.captured
      else passes host s x && passAll host (s.withTable table) (x.condition p.2.condition)) := by
  obtain ⟨e, truthy, condition, captured⟩ := x
  rw [spared]

/-- Without a breakpoint of that condition nothing stops inside the condition's code. -/
theorem handle_ne_inside {x : Statement} {s : Session}
    (hlook : (s.enabled && x.event.handled) = true) (hreq : s.pauseRequested = false)
    (hent : s.pauseOnStart = false) {expr : Bytes}
    (hexpr : ∀ q, hitBreakpoint host s x.event = some q → q.2.condition ≠ expr) (n : Nat)
    (stop : Stop) : (handle host x s).2 ≠ some (.inside (.condition expr) n stop) := by
  intro h
  rw [handle_snd_of_idle hlook hreq hent] at h
  cases hhit : hitBreakpoint host s x.event with
  | none =>
    rw [hhit] at h
    simp only at h
    split at h
    · exact Stop.ofCapture_ne_inside _ _ _ _ _ (Option.some.inj h)
    · exact absurd h (by simp)
  | some q =>
    rw [hhit] at h
    simp only [Stop.atBreakpoint] at h
    split at h
    · have hwork := (Stop.inside.inj (Option.some.inj h)).1
      exact hexpr q hhit (Work.condition.inj hwork)
    · split at h
      · exact Stop.ofCapture_ne_inside _ _ _ _ _ (Option.some.inj h)
      · exact absurd h (by simp)

section

variable {pre post : List (Int × Breakpoint)} {p : Int × Breakpoint}

/-- With the new breakpoint the statement stops where it does without iff it is spared. -/
def SparedExact (host : Host) (pre post : List (Int × Breakpoint)) (p : Int × Breakpoint)
    (x : Statement) : Prop :=
  ∀ s : Session, s.breakpoints = pre ++ post →
    ((handle host x (s.withTable (pre ++ p :: post))).2 = (handle host x s).2 ↔
      spared host (pre ++ p :: post) p s x = true)

/-- A run of such statements. -/
theorem firstStop_insert_of_forall {xs : List Statement}
    (hx : ∀ x ∈ xs, SparedExact host pre post p x) :
    ∀ s : Session, s.breakpoints = pre ++ post →
      (firstStop host (s.withTable (pre ++ p :: post)) xs = firstStop host s xs ↔
        sparedAll host (pre ++ p :: post) p s xs = true) := by
  induction xs with
  | nil =>
    intro s _
    simp [firstStop_nil, sparedAll]
  | cons x xs ih =>
    intro s hs
    obtain ⟨hone, hrest⟩ := List.forall_mem_cons.mp hx
    rw [firstStop_cons, firstStop_cons, sparedAll, Bool.and_eq_true, Bool.or_eq_true,
      Bool.not_eq_true', Bool.eq_false_iff, ne_eq, passes_iff, ← hone s hs, ← ih hrest s hs]
    have hsucc : ∀ {a b : Option (Nat × Stop)},
        (a.map fun r => (r.1 + 1, r.2)) = (b.map fun r => (r.1 + 1, r.2)) → a = b := by
      intro a b h
      refine Option.map_injective (fun r r' hr => ?_) h
      obtain ⟨h₁, h₂⟩ := Prod.mk.inj hr
      exact Prod.ext (Nat.succ.inj h₁) h₂
    cases (handle host x s).2 with
    | some stop =>
      cases (handle host x (s.withTable (pre ++ p :: post))).2 with
      | some stop' => simp
      | none =>
        simp only [reduceCtorEq, not_false_eq_true, true_or, and_true, iff_false]
        intro h
        obtain ⟨r, -, hr⟩ := Option.map_eq_some_iff.mp h
        exact absurd (Prod.mk.inj hr).1 (Nat.succ_ne_zero _)
    | none =>
      cases (handle host x (s.withTable (pre ++ p :: post))).2 with
      | some stop' =>
        simp only [reduceCtorEq, false_and, iff_false]
        intro h
        obtain ⟨r, -, hr⟩ := Option.map_eq_some_iff.mp h.symm
        exact absurd (Prod.mk.inj hr).1 (Nat.succ_ne_zero _)
      | none => simpa using ⟨hsucc, fun h => h ▸ rfl⟩

section

variable {x : Statement} {s : Session} (hs : s.breakpoints = pre ++ post)

include hs

theorem firstStop_code_insert (hcondition : ∀ expr, ∀ y ∈ x.condition expr,
    SparedExact host pre post p y) (expr : Bytes) :
    firstStop host (s.withTable (pre ++ p :: post)) (x.code expr) = firstStop host s (x.code expr) ↔
      (expr == [] || sparedAll host (pre ++ p :: post) p s (x.condition expr)) = true := by
  have hrun := firstStop_insert_of_forall (hcondition expr) s hs
  unfold Statement.code
  split
  · rename_i hexpr
    simp [firstStop_nil, hexpr]
  · rename_i hexpr
    simp [hrun, hexpr]

theorem ofCapture_insert (hcaptured : ∀ y ∈ x.captured, SparedExact host pre post p y)
    (reason : PauseReason) (q : Pause) :
    Stop.ofCapture (firstStop host ((s.withTable (pre ++ p :: post)).stopFor reason) x.captured) q =
        .ofCapture (firstStop host (s.stopFor reason) x.captured) q ↔
      sparedAll host (pre ++ p :: post) p (s.stopFor reason) x.captured = true := by
  have hcomm : (s.withTable (pre ++ p :: post)).stopFor reason =
      (s.stopFor reason).withTable (pre ++ p :: post) := by cases reason <;> rfl
  have hkeep : (s.stopFor reason).breakpoints = pre ++ post := by cases reason <;> exact hs
  rw [Stop.ofCapture_inj, hcomm]
  exact firstStop_insert_of_forall hcaptured _ hkeep

variable (hlook : (s.enabled && x.event.handled) = true) (hreq : s.pauseRequested = false)
  (hent : s.pauseOnStart = false) (hfalsy : p.2.wants x.truthy = false)

include hlook hreq hent hfalsy

/-- **The same condition is evaluated, or none**: what counts is the code inside. -/
theorem handle_insert_of_same
    (hcondition : ∀ expr, ∀ y ∈ x.condition expr, SparedExact host pre post p y)
    (hcaptured : ∀ y ∈ x.captured, SparedExact host pre post p y)
    (hsame : conditionAt host (s.withTable (pre ++ p :: post)) x.event =
      conditionAt host s x.event) :
    (handle host x (s.withTable (pre ++ p :: post))).2 = (handle host x s).2 ↔
      (match hitBreakpoint host s x.event with
      | some q =>
        (q.2.condition == [] ||
            sparedAll host (pre ++ p :: post) p s (x.condition q.2.condition)) &&
          (!q.2.wants x.truthy ||
            !(q.2.condition == [] || passAll host s (x.condition q.2.condition)) ||
            sparedAll host (pre ++ p :: post) p (s.stopFor .breakpoint) x.captured)
      | none =>
        !stepStops s s.stepMode x.event ||
          sparedAll host (pre ++ p :: post) p (s.stopFor .step) x.captured) = true := by
  have hstops : stepStops (s.withTable (pre ++ p :: post))
      (s.withTable (pre ++ p :: post)).stepMode x.event = stepStops s s.stepMode x.event := rfl
  have hwith := @handle_snd_of_idle host x (s.withTable (pre ++ p :: post)) hlook hreq hent
  have hwithout := @handle_snd_of_idle host x s hlook hreq hent
  unfold conditionAt at hsame
  cases hhit : hitBreakpoint host s x.event with
  | none =>
    rw [hhit, Option.map_none, Option.map_eq_none_iff] at hsame
    rw [hhit] at hwithout
    rw [hsame] at hwith
    rw [hwith, hwithout]
    simp only [hstops]
    cases stepStops s s.stepMode x.event with
    | false => simp
    | true => simpa using ofCapture_insert hs hcaptured .step ⟨.step, 0⟩
  | some q =>
    rw [hhit, Option.map_some, Option.map_eq_some_iff] at hsame
    obtain ⟨q', hq', htext⟩ := hsame
    have hwants : q'.2.wants x.truthy = q.2.wants x.truthy := by
      unfold Breakpoint.wants
      rw [htext]
    -- a breakpoint that is wanted is not the new one
    have hold : q.2.wants x.truthy = true → q' = q := by
      intro hw
      rcases @hitBreakpoint_insert host s pre post hs p x.event with h | h
      · rw [h, hhit] at hq'
        exact (Option.some.inj hq').symm
      · rw [h] at hq'
        rw [← hwants, ← Option.some.inj hq', hfalsy] at hw
        exact absurd hw Bool.false_ne_true
    rw [hhit] at hwithout
    rw [hq'] at hwith
    rw [hwith, hwithout]
    simp only
    rw [htext, hwants, Stop.atBreakpoint_inj, firstStop_code_insert hs hcondition,
      Bool.and_eq_true]
    refine and_congr_right fun _ => ?_
    cases hw : q.2.wants x.truthy with
    | false => simp
    | true =>
      rw [hold hw, ofCapture_insert hs hcaptured, ← passAll_condition_iff]
      cases q.2.condition == [] || passAll host s (x.condition q.2.condition) <;> simp

/-- **The new breakpoint is found, and without it no one with its condition**: neither the statement
nor the code may stop. -/
theorem handle_insert_of_found
    (hother : conditionAt host (s.withTable (pre ++ p :: post)) x.event ≠
      conditionAt host s x.event) :
    (handle host x (s.withTable (pre ++ p :: post))).2 = (handle host x s).2 ↔
      (passes host s x &&
        passAll host (s.withTable (pre ++ p :: post)) (x.condition p.2.condition)) = true := by
  have hwith := @handle_snd_of_idle host x (s.withTable (pre ++ p :: post)) hlook hreq hent
  have hfound : hitBreakpoint host (s.withTable (pre ++ p :: post)) x.event = some p := by
    refine (hitBreakpoint_insert hs p x.event).resolve_left fun h => hother ?_
    unfold conditionAt
    rw [h]
  have htext : ∀ q, hitBreakpoint host s x.event = some q → q.2.condition ≠ p.2.condition := by
    intro q hq heq
    refine hother ?_
    unfold conditionAt
    rw [hfound, hq, Option.map_some, Option.map_some, heq]
  have hpass := @passAll_condition_iff host x (s.withTable (pre ++ p :: post)) p.2.condition
  rw [beq_eq_false_iff_ne.mpr (wants_eq_false.mp hfalsy).1, Bool.false_or] at hpass
  have hnot := handle_ne_inside hlook hreq hent htext
  rw [hfound] at hwith
  rw [hwith, Bool.and_eq_true, passes_iff, hpass]
  simp only [hfalsy, Stop.atBreakpoint]
  cases firstStop host (s.withTable (pre ++ p :: post)) (x.code p.2.condition) with
  | none => simpa using eq_comm
  | some r => simpa using (hnot r.1 r.2).symm

end

/-- **One statement**, with everything that runs inside. -/
theorem handle_insert_iff (x : Statement)
    (hfalsy : x.All fun _ truthy => p.2.wants truthy = false) : SparedExact host pre post p x := by
  induction x using Statement.induction with
  | step x hcondition hcaptured =>
    intro s hs
    cases hfalsy with
    | mk hhere hallCondition hallCaptured =>
      have hcode : ∀ expr, ∀ y ∈ x.condition expr, SparedExact host pre post p y :=
        fun expr y hy => hcondition expr y hy (hallCondition expr y hy)
      have hcapture : ∀ y ∈ x.captured, SparedExact host pre post p y :=
        fun y hy => hcaptured y hy (hallCaptured y hy)
      have hlookWith : ((s.withTable (pre ++ p :: post)).enabled && x.event.handled) =
          (s.enabled && x.event.handled) := rfl
      rw [spared_eq]
      cases hlook : s.enabled && x.event.handled with
      | false => simp [handle_snd, stopOf, hlookWith, hlook]
      | true =>
        cases hreq : s.pauseRequested with
        | true =>
          have hreqWith : (s.withTable (pre ++ p :: post)).pauseRequested = true := hreq
          rw [handle_snd, handle_snd, stopOf, stopOf, hlookWith, hlook, hreqWith, hreq]
          simpa using ofCapture_insert hs hcapture _ _
        | false =>
          cases hent : s.pauseOnStart with
          | true =>
            have hreqWith : (s.withTable (pre ++ p :: post)).pauseRequested = false := hreq
            have hentWith : (s.withTable (pre ++ p :: post)).pauseOnStart = true := hent
            rw [handle_snd, handle_snd, stopOf, stopOf, hlookWith, hlook, hreqWith, hreq, hentWith,
              hent]
            simpa using ofCapture_insert hs hcapture _ _
          | false =>
            simp only [Bool.not_true, Bool.false_or, Bool.false_eq_true, if_false]
            split
            · rename_i hsame
              exact handle_insert_of_same hs hlook hreq hent hhere hcode hcapture hsame
            · rename_i hother
              exact handle_insert_of_found hs hlook hreq hent hhere hother

/-- **A whole run.**  A breakpoint whose condition is falsy wherever it is evaluated, put anywhere
into the table, leaves the first stop of the run where it is iff the run is spared. -/
theorem firstStop_insert_iff {xs : List Statement}
    (hfalsy : ∀ x ∈ xs, x.All fun _ truthy => p.2.wants truthy = false) {s : Session}
    (hs : s.breakpoints = pre ++ post) :
    firstStop host (s.withTable (pre ++ p :: post)) xs = firstStop host s xs ↔
      sparedAll host (pre ++ p :: post) p s xs = true :=
  firstStop_insert_of_forall (fun x hx => handle_insert_iff x (hfalsy x hx)) s hs

end

end

/-! ## 3. Where a step stops -/

/-- **One statement, and the code inside.**  Where the stop test of the step mode holds, the
decision is to pause iff the statement reaches that test; a call that stops nowhere has not reached
it, and one that waits in a pause of its own has. -/
theorem pause_iff_reachesStepTest_of_handle {host : Host} {x : Statement} {s : Session}
    (hstop : stepStops s s.stepMode x.event = true) :
    ((debugTraceHandler host x.truthy s x.event).2.isSome = true ↔
        ReachesStepTest host x.truthy s x.event) ∧
      ((handle host x s).2 = none → ¬ ReachesStepTest host x.truthy s x.event) ∧
      ∀ p, (handle host x s).2 = some (.here p) → ReachesStepTest host x.truthy s x.event := by
  obtain ⟨hreturns, hwaits⟩ := @debugTraceHandler_snd_of_handle host x s
  have hdecides := @pauses_iff_reachesStepTest host x.truthy s x.event hstop
  refine ⟨hdecides, fun h => ?_, fun p h => ?_⟩
  · rw [← hdecides, hreturns h]
    simp
  · rw [← hdecides, hwaits p h]
    rfl

/-- **Where a step stops, with breakpoints around.**  At a statement where the stop test of the step
mode holds, the handler pauses iff the statement reaches that test, and so it is with code inside
the statement.  And a breakpoint whose condition is falsy wherever it is evaluated, put anywhere
into the table, leaves the first stop of a run where it is iff every statement up to there is
spared. -/
theorem step_stop_iff_not_swallowed (host : Host) :
    (∀ (x : Statement) (s : Session), stepStops s s.stepMode x.event = true →
      ((debugTraceHandler host x.truthy s x.event).2.isSome = true ↔
          ReachesStepTest host x.truthy s x.event) ∧
        ((handle host x s).2 = none → ¬ ReachesStepTest host x.truthy s x.event) ∧
        ∀ p, (handle host x s).2 = some (.here p) → ReachesStepTest host x.truthy s x.event) ∧
    (∀ (pre post : List (Int × Breakpoint)) (p : Int × Breakpoint) (s : Session)
        (trace : List Statement), s.breakpoints = pre ++ post →
      (∀ x ∈ trace, x.All fun _ truthy => p.2.wants truthy = false) →
      (firstStop host (s.withTable (pre ++ p :: post)) trace = firstStop host s trace ↔
        sparedAll host (pre ++ p :: post) p s trace = true)) :=
  ⟨fun _ _ hstop => pause_iff_reachesStepTest_of_handle hstop,
    fun _ _ _ _ _ hs hfalsy => firstStop_insert_iff hfalsy hs⟩

/-- The statement of a condition, in a frame on top of line 3. -/
def inCondition : Event where
  filename := some (ascii "<bp-condition>")
  funcname := some (ascii "<eval>")
  line := 1
  col := 1
  depth := 2

/-- A line of `/a.js` on which conditions are falsy, and run a statement of their own. -/
def lineWithCondition (line : Int) : Statement where
  event := { lineThree with line := line }
  truthy := fun _ => false
  condition := fun _ => [.plain inCondition]
  captured := []

/-- A step over from line 2, and a conditional breakpoint on line 3. -/
def steppingSession : Session :=
  { Session.new with
    enabled := true
    stepMode := .over
    stepStartDepth := 1
    stepStartLine := 2
    stepStartFile := ascii "/a.js"
    breakpoints := [(1, breakpointOnLineThree 1 (ascii "x"))] }

/-- A breakpoint with the condition `y` on line 2, where the step starts. -/
def breakpointAtStart : Int × Breakpoint :=
  (2, { breakpointOnLineThree 2 (ascii "y") with line := 2 })

theorem all_falsy_lineWithCondition (line : Int) : (lineWithCondition line).All fun _ truthy =>
    breakpointAtStart.2.wants truthy = false := by
  have hplain : (Statement.plain inCondition).All fun _ truthy =>
      breakpointAtStart.2.wants truthy = false :=
    .mk rfl (fun _ y hy => absurd hy List.not_mem_nil) fun y hy => absurd hy List.not_mem_nil
  refine .mk rfl (fun _ y hy => ?_) fun y hy => absurd hy List.not_mem_nil
  rw [List.mem_singleton.mp hy]
  exact hplain

/-- Line 3, where conditions are truthy, and run a statement of their own. -/
def lineThreeTruthy : Statement where
  event := lineThree
  truthy := fun _ => true
  condition := fun _ => [.plain inCondition]
  captured := []

/-- Both parts of the rule at that session.  The code of `y` runs above the starting depth, so the
step over goes on to line 4. -/
theorem step_stop_iff_not_swallowed_stepping :
    ReachesStepTest posixHost lineThreeTruthy.truthy steppingSession lineThree ∧
    (firstStop posixHost (steppingSession.withTable (breakpointAtStart ::
          [(1, breakpointOnLineThree 1 (ascii "x"))])) [lineWithCondition 2, lineWithCondition 4] =
        firstStop posixHost steppingSession [lineWithCondition 2, lineWithCondition 4] ↔
      sparedAll posixHost (breakpointAtStart :: [(1, breakpointOnLineThree 1 (ascii "x"))])
        breakpointAtStart steppingSession [lineWithCondition 2, lineWithCondition 4] = true) ∧
    firstStop posixHost steppingSession [lineWithCondition 2, lineWithCondition 4] =
      some (1, .here ⟨.step, 0⟩) := by
  refine ⟨((step_stop_iff_not_swallowed posixHost).1 lineThreeTruthy steppingSession
      (by decide)).2.2 ⟨.breakpoint, 1⟩ (by decide +kernel),
    (step_stop_iff_not_swallowed posixHost).2 [] _ breakpointAtStart steppingSession
      [lineWithCondition 2, lineWithCondition 4] rfl ?_, by decide +kernel⟩
  intro x hx
  rcases List.mem_cons.mp hx with rfl | hx
  · exact all_falsy_lineWithCondition 2
  · rw [List.mem_singleton.mp hx]
    exact all_falsy_lineWithCondition 4

/-- **The step runs past its landing line**: the stop test holds on line 3, the condition of
the breakpoint there is falsy, and the handler returns without pausing.  Without the
breakpoint the same step stops there.  **And a step into stops too early**: with the breakpoint
on the starting line it ends in the code of the condition. -/
theorem falsy_breakpoint_swallows_step :
    stepStops steppingSession steppingSession.stepMode lineThree = true ∧
      (debugTraceHandler posixHost (fun _ => false) steppingSession lineThree).2 = none ∧
      (debugTraceHandler posixHost (fun _ => false)
        (steppingSession.withTable []) lineThree).2 = some ⟨.step, 0⟩ ∧
      firstStop posixHost { steppingSession.withTable [breakpointAtStart] with stepMode := .into }
          [lineWithCondition 2, lineWithCondition 4] =
        some (0, .inside (.condition (ascii "y")) 0 (.here ⟨.step, 0⟩)) ∧
      firstStop posixHost { steppingSession.withTable [] with stepMode := .into }
          [lineWithCondition 2, lineWithCondition 4] = some (1, .here ⟨.step, 0⟩) := by
  decide +kernel

end QjsDebug
