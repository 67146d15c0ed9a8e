/-
# The breakpoint table as a map

To the client the table is a map from the `breakpointId` strings that `set_breakpoint_by_url`
returned to what was set.  The code keeps it under integers: the string is printed from the
integer and the line, `remove_breakpoint` reads the integer back off the front of a string, and
`do_pause` prints the string of a hit a second time, from the 1-based line of the statement.

* §2  what `std::stoi` reads off a printed id;
* §3  the table refines that map, EXCEPT that a string removes every breakpoint whose number it
      starts with, whatever follows the number (`breakpoint_table_refines_map`,
      `removed_by_bare_number`).
-/
import QjsDebug.Cdp.Scripts
import QjsDebug.Session.Handler

namespace QjsDebug

open Json (Value)

/-- The `hitBreakpoints` that `do_pause` reports. -/
def hitBreakpoints (reason : PauseReason) (line bpId : Int) : List Bytes :=
  match reason with
  | .breakpoint =>
    if 0 < bpId then [decimal bpId ++ ascii ":" ++ decimal (line - 1) ++ ascii ":0"] else []
  | .step | .pauseRequest | .entry => []

/-- The parameters of `Debugger.paused`, as `do_pause` builds them. -/
def pausedParams (callFrames : Value) (reason : PauseReason) (line bpId : Int) : Value :=
  let text := match reason with
    | .breakpoint => "breakpoint"
    | .step => "step"
    | .pauseRequest => "pause"
    | .entry => "Break on start"
  .ofFields [("callFrames", callFrames), ("reason", .lit text),
    ("hitBreakpoints", .array ((hitBreakpoints reason line bpId).map Value.string))]

theorem index_pausedParams (callFrames : Value) (reason : PauseReason) (line bpId : Int) :
    (pausedParams callFrames reason line bpId).index (ascii "hitBreakpoints") =
      .array ((hitBreakpoints reason line bpId).map Value.string) := by
  simp only [pausedParams, Value.ofFields, List.foldl_cons, List.foldl_nil]
  exact Value.index_set_self _ _ _

namespace Cdp

/-! ## 1. Calls and the map they stand for -/

/-- `remove_breakpoint` with what it returns: whether `erase` found the id. -/
def removeBreakpointReturns (s : Session) (bpIdStr : Bytes) : Session × Bool :=
  match stoi bpIdStr with
  | .ok id => (s.removeBreakpoint id, (SortedMap.find id s.breakpoints).isSome)
  | .error _ => (s, false)

theorem removeBreakpointReturns_fst (s : Session) (bpIdStr : Bytes) :
    (removeBreakpointReturns s bpIdStr).1 = removeBreakpoint s bpIdStr := by
  unfold removeBreakpointReturns removeBreakpoint
  cases stoi bpIdStr <;> rfl

/-- What the client asked for. -/
structure Setting where
  url : Bytes
  line : Int
  column : Int
  isRegex : Bool
  condition : Bytes
  deriving DecidableEq

/-- The breakpoint that the code makes of it. -/
def Setting.breakpoint (x : Setting) (id : Int) : Breakpoint where
  id := id
  url := if x.isRegex then x.url else normalizeUrl x.url
  line := x.line + 1
  column := x.column
  enabled := true
  isRegex := x.isRegex
  condition := x.condition

inductive TableCall
  | setBreakpointByUrl (x : Setting)
  | removeBreakpoint (bpIdStr : Bytes)

/-- Some calls made: the server, the strings returned, and the map of the client. -/
structure Called where
  server : Server
  returned : List Bytes
  live : List (Bytes × Setting)

section

variable (env : Env)

/-- One call.  On the side of the client a removal takes away what the string `names`. -/
def Called.call (names : Bytes → Bytes → Bool) (c : Called) : TableCall → Called
  | .setBreakpointByUrl x =>
    let r := Cdp.setBreakpointByUrl env c.server x.url x.line x.column x.isRegex x.condition
    let str := (r.2.index (ascii "breakpointId")).getString
    { server := r.1, returned := c.returned ++ [str], live := c.live ++ [(str, x)] }
  | .removeBreakpoint str =>
    { c with
      server := { c.server with session := (removeBreakpointReturns c.server.session str).1 }
      live := c.live.filter fun p => !names str p.1 }

/-- A sequence of calls on a session without breakpoints. -/
def callAll (names : Bytes → Bytes → Bool) (scripts : List Script) (calls : List TableCall) :
    Called :=
  calls.foldl (fun c call => c.call env names call)
    { server := { Server.new with scripts := scripts }, returned := [], live := [] }

/-- The strings that stand for the same breakpoint to a client: equal ones. -/
def sameString (a b : Bytes) : Bool := a == b

/-- The strings that stand for the same breakpoint to the code: `std::stoi` reads the same number
off both. -/
def sameNumber (a b : Bytes) : Bool :=
  match stoi a, stoi b with
  | .ok m, .ok n => m == n
  | _, _ => false

/-- The number of a breakpoint's string. -/
def number (str : Bytes) : Int := (stoi str).toOption.getD 0

/-- The table entry of a live breakpoint. -/
def entry (p : Bytes × Setting) : Int × Breakpoint := (number p.1, p.2.breakpoint (number p.1))

/-- The number of sets among some calls. -/
def sets (calls : List TableCall) : Nat :=
  calls.countP fun c => match c with
    | .setBreakpointByUrl _ => true
    | .removeBreakpoint _ => false

/-- The 0-based lines that are set have a 1-based one in an `int`. -/
def LinesFit (calls : List TableCall) : Prop :=
  ∀ x, TableCall.setBreakpointByUrl x ∈ calls → 0 ≤ x.line ∧ x.line < 2 ^ 31 - 1

end

/-! ## 2. Ids in print -/

/-- The string of a breakpoint. -/
def bpIdStr (id line : Int) : Bytes := decimal id ++ ascii ":" ++ decimal line ++ ascii ":0"

/-- **`std::stoi` reads the number back.** -/
theorem stoi_bpIdStr {id : Int} (hpos : 0 ≤ id) (hlt : id < 2 ^ 31) (line : Int) :
    stoi (bpIdStr id line) = .ok id := by
  have hcolon : digitValue (byte ':') = none := by decide
  have htext : bpIdStr id line = decimal id ++ byte ':' :: (decimal line ++ ascii ":0") := by
    have hascii : ascii ":" = [byte ':'] := by decide
    simp [bpIdStr, hascii]
  rw [htext]
  exact stoi_decimal_append hpos hlt (by rw [readDigits, hcolon])

/-! ## 3. The table refines the map -/

section

variable {env : Env}

/-- The string that `set_breakpoint_by_url` returns. -/
theorem breakpointId_setBreakpointByUrl (env : Env) (s : Server) (x : Setting) :
    ((setBreakpointByUrl env s x.url x.line x.column x.isRegex x.condition).2.index
      (ascii "breakpointId")).getString = bpIdStr s.session.nextBpId x.line := by
  simp only [setBreakpointByUrl, Value.ofFields, List.foldl_cons, List.foldl_nil]
  rw [Value.index_set_of_ne _ _ (by decide), Value.index_set_self]
  rfl

/-- How far the code's table and the client's map go together. -/
structure Refines (c : Called) : Prop where
  next_eq : c.server.session.nextBpId = c.returned.length + 1
  numbers : c.returned.map stoi =
    (List.range c.returned.length).map fun i : Nat => .ok ((i : Int) + 1)
  table : c.server.session.breakpoints = c.live.map entry
  printed : ∀ p ∈ c.live, p.1 = bpIdStr (number p.1) p.2.line ∧ 0 < number p.1 ∧
    number p.1 < c.server.session.nextBpId ∧ stoi p.1 = .ok (number p.1)
  ordered : (c.live.map fun p => number p.1).Pairwise (· < ·)

theorem refines_start (scripts : List Script) :
    Refines { server := { Server.new with scripts := scripts }, returned := [], live := [] } where
  next_eq := rfl
  numbers := rfl
  table := rfl
  printed := by
    intro p hp
    exact absurd hp List.not_mem_nil
  ordered := List.Pairwise.nil

/-- **Setting** appends: the new number is above all others. -/
theorem refines_set {names : Bytes → Bytes → Bool} {c : Called} (h : Refines c) (x : Setting)
    (hroom : c.returned.length + 1 < 2 ^ 31) :
    Refines (c.call env names (.setBreakpointByUrl x)) := by
  have hstr := breakpointId_setBreakpointByUrl env c.server x
  have hnext := h.next_eq
  have hstoi : stoi (bpIdStr c.server.session.nextBpId x.line) = .ok c.server.session.nextBpId :=
    stoi_bpIdStr (by omega) (by omega) x.line
  have hnumber : number (bpIdStr c.server.session.nextBpId x.line) = c.server.session.nextBpId := by
    rw [number, hstoi]
    rfl
  have hnew : (setBreakpointByUrl env c.server x.url x.line x.column x.isRegex
      x.condition).1.session.breakpoints =
        SortedMap.insert c.server.session.nextBpId
          (x.breakpoint c.server.session.nextBpId) c.server.session.breakpoints := rfl
  have habove : ∀ p ∈ c.live.map entry, compare p.1 c.server.session.nextBpId = .lt := by
    intro p hp
    obtain ⟨q, hq, rfl⟩ := List.mem_map.mp hp
    exact Int.compare_eq_lt.mpr (h.printed q hq).2.2.1
  constructor
  · simp only [Called.call, List.length_append, List.length_singleton]
    show c.server.session.nextBpId + 1 = _
    omega
  · simp only [Called.call, List.map_append, h.numbers, hstr, List.map_cons, List.map_nil, hstoi,
      List.length_append, List.length_singleton, List.range_succ]
    rw [hnext]
  · simp only [Called.call, hnew, h.table, List.map_append, hstr, List.map_cons, List.map_nil]
    rw [SortedMap.insert_of_forall_lt habove, entry, hnumber]
  · intro p hp
    simp only [Called.call, hstr] at hp ⊢
    show _ ∧ _ ∧ number p.1 < c.server.session.nextBpId + 1 ∧ _
    rcases List.mem_append.mp hp with hp | hp
    · obtain ⟨hprint, hpos, hlt, hok⟩ := h.printed p hp
      exact ⟨hprint, hpos, by omega, hok⟩
    · obtain rfl := List.mem_singleton.mp hp
      simp only [hnumber]
      exact ⟨trivial, by omega, by omega, hstoi⟩
  · simp only [Called.call, hstr, List.map_append, List.map_cons, List.map_nil, hnumber]
    refine List.pairwise_append.mpr ⟨h.ordered, List.pairwise_singleton _ _, ?_⟩
    intro m hm n hn
    obtain ⟨p, hp, rfl⟩ := List.mem_map.mp hm
    rw [List.mem_singleton.mp hn]
    exact (h.printed p hp).2.2.1

/-- The code deletes the entries whose number `std::stoi` reads off the string. -/
theorem removeBreakpointReturns_eq {s : Session} {live : List (Bytes × Setting)}
    (htable : s.breakpoints = live.map entry) (hnum : ∀ p ∈ live, stoi p.1 = .ok (number p.1))
    (str : Bytes) :
    (removeBreakpointReturns s str).1 =
      { s with breakpoints := (live.filter fun p => !sameNumber str p.1).map entry } := by
  unfold removeBreakpointReturns
  cases hstr : stoi str with
  | error x =>
    have hall : (live.filter fun p => !sameNumber str p.1) = live := by
      refine List.filter_eq_self.mpr fun p _ => ?_
      simp [sameNumber, hstr]
    rw [hall, ← htable]
  | ok id =>
    have hfilter : SortedMap.erase id s.breakpoints =
        (live.filter fun p => !sameNumber str p.1).map entry := by
      rw [SortedMap.erase, htable, List.filter_map]
      refine congrArg (List.map entry) (List.filter_congr fun p hp => ?_)
      have hcmp : (compare id (number p.1) = .eq) ↔ id = number p.1 := compare_eq_iff_eq
      simp only [Function.comp_apply, entry, sameNumber, hstr, hnum p hp]
      rw [Bool.eq_iff_iff]
      simp [hcmp]
    simp only [Session.removeBreakpoint, hfilter]

/-- **Removing** keeps what is left in step, when the client and the code agree on which
breakpoints the string names. -/
theorem refines_remove {c : Called} (h : Refines c) (str : Bytes) :
    Refines (c.call env sameNumber (.removeBreakpoint str)) := by
  have heq := removeBreakpointReturns_eq h.table (fun p hp => (h.printed p hp).2.2.2) str
  have hsub : ∀ p ∈ c.live.filter (fun p => !sameNumber str p.1), p ∈ c.live :=
    fun p hp => (List.mem_filter.mp hp).1
  constructor
  · simp only [Called.call, heq]
    exact h.next_eq
  · exact h.numbers
  · simp only [Called.call, heq]
  · simp only [Called.call, heq]
    exact fun p hp => h.printed p (hsub p hp)
  · exact h.ordered.sublist (List.filter_sublist.map _)

theorem refines_callAll (scripts : List Script) {calls : List TableCall}
    (hsets : sets calls < 2 ^ 31) : Refines (callAll env sameNumber scripts calls) := by
  have hrun : ∀ (cs : List TableCall) (c : Called), Refines c →
      c.returned.length + sets cs < 2 ^ 31 →
      Refines (cs.foldl (fun c call => c.call env sameNumber call) c) := by
    intro cs
    induction cs with
    | nil => exact fun c hc _ => hc
    | cons call cs ih =>
      intro c hc hroom
      cases call with
      | setBreakpointByUrl x =>
        have hroom' : c.returned.length + (sets cs + 1) < 2 ^ 31 := by
          simpa [sets, List.countP_cons] using hroom
        refine ih _ (refines_set hc x (by omega)) ?_
        simp only [Called.call, List.length_append, List.length_singleton]
        omega
      | removeBreakpoint str =>
        have hroom' : c.returned.length + sets cs < 2 ^ 31 := by
          simpa [sets, List.countP_cons] using hroom
        exact ih _ (refines_remove hc str) hroom'
  exact hrun calls _ (refines_start scripts) (by simpa using hsets)

/-- Each set returns a string, and only what was set is live. -/
theorem callAll_counts (names : Bytes → Bytes → Bool) (scripts : List Script)
    (calls : List TableCall) :
    (callAll env names scripts calls).returned.length = sets calls ∧
      ∀ p ∈ (callAll env names scripts calls).live, TableCall.setBreakpointByUrl p.2 ∈ calls := by
  have hrun : ∀ (cs : List TableCall) (c : Called),
      (cs.foldl (fun c call => c.call env names call) c).returned.length =
          c.returned.length + sets cs ∧
        ∀ p ∈ (cs.foldl (fun c call => c.call env names call) c).live,
          p ∈ c.live ∨ TableCall.setBreakpointByUrl p.2 ∈ cs := by
    intro cs
    induction cs with
    | nil => exact fun c => ⟨rfl, fun p hp => .inl hp⟩
    | cons call cs ih =>
      intro c
      obtain ⟨hlen, hlive⟩ := ih (c.call env names call)
      rw [List.foldl_cons, hlen]
      cases call with
      | setBreakpointByUrl x =>
        have hsets : sets (.setBreakpointByUrl x :: cs) = sets cs + 1 := by
          simp [sets]
        refine ⟨?_, fun p hp => ?_⟩
        · simp only [Called.call, List.length_append, List.length_singleton, hsets]
          omega
        · rcases hlive p hp with hp | hp
          · simp only [Called.call] at hp
            rcases List.mem_append.mp hp with hp | hp
            · exact .inl hp
            · obtain rfl := List.mem_singleton.mp hp
              exact .inr List.mem_cons_self
          · exact .inr (List.mem_cons_of_mem _ hp)
      | removeBreakpoint str =>
        have hsets : sets (.removeBreakpoint str :: cs) = sets cs := by
          simp [sets]
        refine ⟨by rw [hsets]; rfl, fun p hp => ?_⟩
        rcases hlive p hp with hp | hp
        · exact .inl (List.mem_filter.mp hp).1
        · exact .inr (List.mem_cons_of_mem _ hp)
  obtain ⟨hlen, hlive⟩ := hrun calls
    { server := { Server.new with scripts := scripts }, returned := [], live := [] }
  refine ⟨hlen.trans (Nat.zero_add _), fun p hp => ?_⟩
  exact (hlive p hp).resolve_left List.not_mem_nil

/-- **No `int` of the table overflows.** -/
theorem Refines.fits {calls : List TableCall} {scripts : List Script}
    (h : Refines (callAll env sameNumber scripts calls)) (hsets : sets calls < 2 ^ 31)
    (hlines : LinesFit calls) :
    ∀ p ∈ (callAll env sameNumber scripts calls).server.session.breakpoints,
      (0 < p.1 ∧ p.1 < 2 ^ 31) ∧ 0 < p.2.line ∧ p.2.line < 2 ^ 31 := by
  obtain ⟨hlen, hlive⟩ := @callAll_counts env sameNumber scripts calls
  rw [h.table]
  intro q hq
  obtain ⟨p, hp, rfl⟩ := List.mem_map.mp hq
  obtain ⟨-, hpos, hlt, -⟩ := h.printed p hp
  obtain ⟨hline, hline'⟩ := hlines p.2 (hlive p hp)
  rw [h.next_eq, hlen] at hlt
  simp only [entry, Setting.breakpoint]
  omega

theorem Refines.returned_nodup {c : Called} (h : Refines c) : c.returned.Nodup := by
  refine List.Nodup.of_map stoi ?_
  rw [h.numbers]
  refine List.Nodup.map_on ?_ List.nodup_range
  intro i _ j _ hij
  have := Except.ok.inj hij
  omega

/-- A live breakpoint is told apart from the others by its string and by its number alike. -/
theorem Refines.sameNumber_eq {c : Called} (h : Refines c) {p q : Bytes × Setting}
    (hp : p ∈ c.live) (hq : q ∈ c.live) : sameNumber p.1 q.1 = sameString p.1 q.1 := by
  have hpok := (h.printed p hp).2.2.2
  have hqok := (h.printed q hq).2.2.2
  have hinj : number p.1 = number q.1 → p.1 = q.1 := by
    intro heq
    by_contra hne
    have hpair := List.pairwise_map.mp h.ordered
    rcases List.pairwise_iff_getElem.mp hpair with hlt
    obtain ⟨i, hi, rfl⟩ := List.mem_iff_getElem.mp hp
    obtain ⟨j, hj, rfl⟩ := List.mem_iff_getElem.mp hq
    rcases lt_trichotomy i j with hij | rfl | hij
    · have := hlt i j hi hj hij
      omega
    · exact hne rfl
    · have := hlt j i hj hi hij
      omega
  unfold sameNumber sameString
  rw [hpok, hqok, Bool.eq_iff_iff]
  simp only [beq_iff_eq]
  constructor
  · exact hinj
  · intro heq
    rw [heq]

/-- A stop on a breakpoint is a stop on an entry of the table that matches the event. -/
theorem mem_of_breakpoint_pause {host : Host} {truthy : Bytes → Bool} {s : Session} {e : Event}
    {id : Int} (h : (debugTraceHandler host truthy s e).2 = some ⟨.breakpoint, id⟩) :
    ∃ bp, (id, bp) ∈ s.breakpoints ∧ bp.hits host e.file e.line = true := by
  rw [debugTraceHandler_snd] at h
  split at h
  · unfold verdict at h
    split at h
    · exact absurd h (by simp)
    · split at h
      · exact absurd h (by simp)
      · cases hhit : hitBreakpoint host s e with
        | none =>
          rw [hhit] at h
          cases hstep : stepStops s s.stepMode e <;> rw [hstep] at h <;> exact absurd h (by simp)
        | some p =>
          rw [hhit] at h
          have hid : p.1 = id := by
            cases hw : p.2.wants truthy <;> simp [hw] at h
            exact h
          unfold hitBreakpoint at hhit
          split at hhit
          · have hmem := List.mem_of_mem_head? hhit
            rw [hitting, List.mem_filter, Bool.and_eq_true] at hmem
            exact ⟨p.2, hid ▸ hmem.1, hmem.2.2⟩
          · exact absurd hhit (by simp)
  · exact absurd h (by simp)

/-- What `do_pause` reports for a hit is the string of the live breakpoint. -/
theorem Refines.hitBreakpoints_eq {c : Called} (h : Refines c) {host : Host} {id : Int}
    {bp : Breakpoint} (hmem : (id, bp) ∈ c.server.session.breakpoints) {file : Bytes} {line : Int}
    (hhit : bp.hits host file line = true) :
    ∃ p ∈ c.live, entry p = (id, bp) ∧ hitBreakpoints .breakpoint line id = [p.1] := by
  rw [h.table] at hmem
  obtain ⟨p, hp, hentry⟩ := List.mem_map.mp hmem
  obtain ⟨hid, hbp⟩ := Prod.mk.inj hentry
  obtain ⟨hprint, hpos, -, -⟩ := h.printed p hp
  have hline : p.2.line + 1 = line := by
    unfold Breakpoint.hits at hhit
    have := of_decide_eq_true (Bool.and_eq_true_iff.mp hhit).1
    rw [← hbp] at this
    exact this
  have hline' : line - 1 = p.2.line := by omega
  refine ⟨p, hp, hentry, ?_⟩
  rw [hitBreakpoints, if_pos (hid ▸ hpos), ← hid, hline']
  exact congrArg (fun str => [str]) hprint.symm

/-- **The table is the client's map, up to what a string names.**  After every sequence of
`set_breakpoint_by_url` and `remove_breakpoint` calls with fewer than 2^31 sets, each of a line
from 0 to 2^31 - 2: the strings returned are pairwise distinct; the table holds the breakpoints set
and not removed since, each as it was set, where a removal takes away the breakpoint whose number
its string starts with; its numbers and its 1-based lines are positive `int`s; the own string of a
live breakpoint removes that one alone and the call returns true; a string that `std::stoi` rejects
changes nothing and the call returns false; and a pause on a breakpoint of the table reports the
string that was returned when it was set. -/
theorem breakpoint_table_refines_map (env : Env) (scripts : List Script) (calls : List TableCall)
    (hsets : sets calls < 2 ^ 31) (hlines : LinesFit calls) :
    let c := callAll env sameNumber scripts calls
    let s := c.server.session
    c.returned.Nodup ∧ s.breakpoints = c.live.map entry ∧
      (∀ p ∈ s.breakpoints, (0 < p.1 ∧ p.1 < 2 ^ 31) ∧ 0 < p.2.line ∧ p.2.line < 2 ^ 31) ∧
      (∀ p ∈ c.live, removeBreakpointReturns s p.1 =
        ({ s with breakpoints := (c.live.filter fun q => !sameString p.1 q.1).map entry }, true)) ∧
      (∀ str x, stoi str = .error x → removeBreakpointReturns s str = (s, false)) ∧
      ∀ (t : Session) (truthy : Bytes → Bool) (e : Event) (id : Int),
        t.breakpoints = s.breakpoints →
        (debugTraceHandler env.host truthy t e).2 = some ⟨.breakpoint, id⟩ →
        ∃ p ∈ c.live, number p.1 = id ∧ ∀ callFrames,
          (pausedParams callFrames .breakpoint e.line id).index (ascii "hitBreakpoints") =
            .array [.string p.1] := by
  intro c s
  have h : Refines c := refines_callAll scripts hsets
  refine ⟨h.returned_nodup, h.table, h.fits hsets hlines, fun p hp => ?_, fun str x hstr => ?_, ?_⟩
  · refine Prod.ext ?_ ?_
    · rw [removeBreakpointReturns_eq h.table (fun q hq => (h.printed q hq).2.2.2)]
      have hsame : (c.live.filter fun q => !sameNumber p.1 q.1) =
          c.live.filter fun q => !sameString p.1 q.1 :=
        List.filter_congr fun q hq => congrArg _ (h.sameNumber_eq hp hq)
      rw [hsame]
    · have hmem : entry p ∈ s.breakpoints := by
        rw [h.table]
        exact List.mem_map.mpr ⟨p, hp, rfl⟩
      have hfind : SortedMap.find (number p.1) s.breakpoints ≠ none :=
        SortedMap.find_ne_none_of_mem hmem
      unfold removeBreakpointReturns
      rw [(h.printed p hp).2.2.2]
      exact Option.isSome_iff_ne_none.mpr hfind
  · rw [removeBreakpointReturns, hstr]
  · intro t truthy e id htable hpause
    obtain ⟨bp, hmem, hhit⟩ := mem_of_breakpoint_pause hpause
    rw [htable] at hmem
    obtain ⟨p, hp, hentry, hstr⟩ := h.hitBreakpoints_eq hmem hhit
    refine ⟨p, hp, (Prod.mk.inj hentry).1, fun callFrames => ?_⟩
    rw [index_pausedParams, hstr]
    rfl

end

/-- A breakpoint on the line with the 0-based number 4 of `/a.js`. -/
def lineFour : Setting where
  url := ascii "/a.js"
  line := 4
  column := 0
  isRegex := false
  condition := []

/-- The rule for a breakpoint that is set and removed by a longer string. -/
theorem breakpoint_table_refines_map_lineFour :
    sets [.setBreakpointByUrl lineFour, .removeBreakpoint (ascii "2:4:0")] < 2 ^ 31 ∧
    LinesFit [.setBreakpointByUrl lineFour, .removeBreakpoint (ascii "2:4:0")] ∧
    let c := callAll integerEnv sameNumber []
      [.setBreakpointByUrl lineFour, .removeBreakpoint (ascii "2:4:0")]
    let s := c.server.session
    c.returned.Nodup ∧ s.breakpoints = c.live.map entry ∧
      (∀ p ∈ s.breakpoints, (0 < p.1 ∧ p.1 < 2 ^ 31) ∧ 0 < p.2.line ∧ p.2.line < 2 ^ 31) ∧
      (∀ p ∈ c.live, removeBreakpointReturns s p.1 =
        ({ s with breakpoints := (c.live.filter fun q => !sameString p.1 q.1).map entry }, true)) ∧
      (∀ str x, stoi str = .error x → removeBreakpointReturns s str = (s, false)) ∧
      ∀ (t : Session) (truthy : Bytes → Bool) (e : Event) (id : Int),
        t.breakpoints = s.breakpoints →
        (debugTraceHandler integerEnv.host truthy t e).2 = some ⟨.breakpoint, id⟩ →
        ∃ p ∈ c.live, number p.1 = id ∧ ∀ callFrames,
          (pausedParams callFrames .breakpoint e.line id).index (ascii "hitBreakpoints") =
            .array [.string p.1] :=
  have hlines : LinesFit [.setBreakpointByUrl lineFour, .removeBreakpoint (ascii "2:4:0")] := by
    intro x hx
    obtain rfl : x = lineFour := by simpa using hx
    decide
  ⟨by decide, hlines, breakpoint_table_refines_map integerEnv []
    [.setBreakpointByUrl lineFour, .removeBreakpoint (ascii "2:4:0")] (by decide) hlines⟩

/-- **A bare number removes a breakpoint.**  The string `1` was returned by no call, yet it removes
the breakpoint whose string is `1:4:0`, so the table does not hold the breakpoints that were not
removed by their own string. -/
theorem removed_by_bare_number :
    ¬ ∀ calls : List TableCall, sets calls < 2 ^ 31 → LinesFit calls →
      (callAll integerEnv sameString [] calls).server.session.breakpoints =
        (callAll integerEnv sameString [] calls).live.map entry := by
  intro h
  have hlines : LinesFit [.setBreakpointByUrl lineFour, .removeBreakpoint (ascii "1")] := by
    intro x hx
    obtain rfl : x = lineFour := by simpa using hx
    decide
  have := h [.setBreakpointByUrl lineFour, .removeBreakpoint (ascii "1")] (by decide) hlines
  exact absurd this (by decide)

end Cdp

end QjsDebug
