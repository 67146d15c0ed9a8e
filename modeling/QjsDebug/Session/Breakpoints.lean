/-
# The breakpoint table

`set_breakpoint_by_url`, `remove_breakpoint` and `set_breakpoints_active` on the table, and
the two searches that a statement event makes in it: `check_breakpoint`, which answers
whether some breakpoint matches, and the loop in `debug_trace_handler` that then looks the
breakpoint up.  The source writes the matching rule out in both places; here it is
`regexHit` and `plainHit`, and each search keeps its own loop.
-/
import QjsDebug.Session.Paths
import QjsDebug.Session.State

namespace QjsDebug

variable (host : Host)

/-! ## Matching one breakpoint -/

/-- The regex attempt on the file URL and, failing that, the normalized path.  An exception
from either search counts as no hit. -/
def regexHit (url furl norm : Bytes) : Bool :=
  match host.regexSearch url furl with
  | none => false
  | some true => true
  | some false => (host.regexSearch url norm).getD false

/-- Plain path matching: exact, by base name, or one path inside the other without regard
to case. -/
def plainHit (url norm base : Bytes) : Bool :=
  pathsMatch host norm url || pathsMatch host base (baseName url) ||
    contains (toLower norm) (toLower url) || contains (toLower url) (toLower norm)

/-- The matching rule: line, and regex attempt or plain matching. -/
def Breakpoint.hits (bp : Breakpoint) (filename : Bytes) (line : Int) : Bool :=
  let norm := normalizeUrl filename
  decide (bp.line = line) &&
    ((bp.isRegex && regexHit host bp.url (toFileUrl norm) norm) ||
      plainHit host bp.url norm (baseName norm))

/-! ## The two searches -/

/-- `check_breakpoint`. -/
def checkBreakpoint (s : Session) (filename : Bytes) (line : Int) : Bool :=
  if !s.bpActive then false
  else loop s.breakpoints
where
  loop : List (Int × Breakpoint) → Bool
    | [] => false
    | (_, bp) :: rest =>
      if !bp.enabled then loop rest
      else if bp.line ≠ line then loop rest
      else if bp.isRegex && regexHit host bp.url (toFileUrl (normalizeUrl filename))
          (normalizeUrl filename) then true
      else if plainHit host bp.url (normalizeUrl filename) (baseName (normalizeUrl filename)) then
        true
      else loop rest

/-- The search loop of `debug_trace_handler`: id and condition of the first breakpoint that
matches, `(0, "")` when there is none. -/
def findBreakpoint (filename : Bytes) (line : Int) : List (Int × Breakpoint) → Int × Bytes
  | [] => (0, [])
  | (id, bp) :: rest =>
    if bp.line = line ∧ bp.enabled then
      if bp.isRegex && regexHit host bp.url (toFileUrl (normalizeUrl filename))
          (normalizeUrl filename) then (id, bp.condition)
      else if plainHit host bp.url (normalizeUrl filename) (baseName (normalizeUrl filename)) then
        (id, bp.condition)
      else findBreakpoint filename line rest
    else findBreakpoint filename line rest

/-! ## What the searches compute -/

/-- The enabled breakpoints of a table that match a position, in id order. -/
def hitting (filename : Bytes) (line : Int) (bps : List (Int × Breakpoint)) :
    List (Int × Breakpoint) :=
  bps.filter fun p => p.2.enabled && p.2.hits host filename line

variable {host}

/-- One turn of the loop of `check_breakpoint`. -/
theorem checkBreakpoint_loop_cons (filename : Bytes) (line : Int) (p : Int × Breakpoint)
    (rest : List (Int × Breakpoint)) :
    checkBreakpoint.loop host filename line (p :: rest) =
      if p.2.enabled && p.2.hits host filename line then true
      else checkBreakpoint.loop host filename line rest := by
  obtain ⟨id, bp⟩ := p
  by_cases hl : bp.line = line
  · cases he : bp.enabled <;> simp [checkBreakpoint.loop, Breakpoint.hits, hl, he, Bool.or_assoc]
  · simp [checkBreakpoint.loop, Breakpoint.hits, hl]

/-- One turn of the handler's own loop. -/
theorem findBreakpoint_cons (filename : Bytes) (line : Int) (p : Int × Breakpoint)
    (rest : List (Int × Breakpoint)) :
    findBreakpoint host filename line (p :: rest) =
      if p.2.enabled && p.2.hits host filename line then (p.1, p.2.condition)
      else findBreakpoint host filename line rest := by
  obtain ⟨id, bp⟩ := p
  by_cases hl : bp.line = line
  · cases he : bp.enabled
    · simp [findBreakpoint, hl, he]
    · simp only [findBreakpoint, Breakpoint.hits, hl, he, decide_true, Bool.true_and, and_self,
        if_true]
      cases bp.isRegex && regexHit host bp.url (toFileUrl (normalizeUrl filename))
        (normalizeUrl filename) <;> simp
  · simp [findBreakpoint, Breakpoint.hits, hl]

/-- `check_breakpoint` asks whether the table is active and some enabled breakpoint hits. -/
theorem checkBreakpoint_iff {s : Session} {filename : Bytes} {line : Int} :
    checkBreakpoint host s filename line = true ↔
      s.bpActive = true ∧ hitting host filename line s.breakpoints ≠ [] := by
  have hloop : ∀ bps, checkBreakpoint.loop host filename line bps = true ↔
      hitting host filename line bps ≠ [] := by
    intro bps
    induction bps with
    | nil => simp [checkBreakpoint.loop, hitting]
    | cons p rest ih =>
      rw [checkBreakpoint_loop_cons, hitting, List.filter_cons]
      split
      · simp
      · exact ih
  unfold checkBreakpoint
  cases hb : s.bpActive <;> simp [hloop]

@[simp] theorem checkBreakpoint_track (s : Session) (e : Event) (filename : Bytes) (line : Int) :
    checkBreakpoint host (s.track e) filename line = checkBreakpoint host s filename line := rfl

/-- The handler's own search finds the first hitting breakpoint. -/
theorem findBreakpoint_eq (filename : Bytes) (line : Int) (bps : List (Int × Breakpoint)) :
    findBreakpoint host filename line bps =
      match hitting host filename line bps with
      | [] => (0, [])
      | p :: _ => (p.1, p.2.condition) := by
  induction bps with
  | nil => rfl
  | cons p rest ih =>
    rw [findBreakpoint_cons, hitting, List.filter_cons]
    split
    · rfl
    · exact ih

/-! ## Table updates -/

/-- The table part of `set_breakpoint_by_url`. -/
def Session.setBreakpoint (s : Session) (url : Bytes) (line column : Int) (isRegex : Bool)
    (condition : Bytes) : Session :=
  let bp : Breakpoint :=
    { id := s.nextBpId
      url := if isRegex then url else normalizeUrl url
      line := line + 1
      column := column
      enabled := true
      isRegex := isRegex
      condition := condition }
  { s with
    nextBpId := s.nextBpId + 1
    breakpoints := SortedMap.insert s.nextBpId bp s.breakpoints }

/-- `remove_breakpoint` once `std::stoi` has read the id. -/
def Session.removeBreakpoint (s : Session) (id : Int) : Session :=
  { s with breakpoints := SortedMap.erase id s.breakpoints }

/-- `set_breakpoints_active`. -/
def Session.setBreakpointsActive (s : Session) (active : Bool) : Session :=
  { s with bpActive := active }

end QjsDebug
