/-
# Client numbers as integers

A number of a client message is a double; `get_int` casts it to `int`, and the cast is undefined
when the truncated value is no `int`.  `Cdp.Handler` takes such a cast, and the sums behind it, as
defined.  Here `handle_message` is run with every one of them checked: `none` is undefined
behaviour.  There are five casts, the base shift of `set_breakpoint_by_url`, and in
`on_debugger_get_possible_breakpoints` the sum `start_line + 1`, which is computed whether or not
the request has an `end`, and the counter of the loop, which overflows when the last line is
`INT_MAX`.

The checked run goes through exactly when the numbers it uses stay below the bounds of
`IntegersFit`, and then it is the unchecked one and lists each line of the range once
(`integers_safe_iff`).
-/
import Mathlib.Algebra.Order.Field.Basic
import Mathlib.Algebra.Order.Ring.Rat
import QjsDebug.Cdp.Matching

namespace QjsDebug.Cdp

open Json (Value)

/-! ## 1. Checked arithmetic -/

/-- `get_int()`, where the cast is defined. -/
def getIntChecked (v : Value) : Option Int :=
  match v.getNumber with
  | .finite q =>
    let n := q.num.tdiv q.den
    if -2 ^ 31 ≤ n ∧ n < 2 ^ 31 then some n else none
  | .infinite _ | .nan => none

/-- `n + 1` in `int`. -/
def succChecked (n : Int) : Option Int := if n + 1 < 2 ^ 31 then some (n + 1) else none

/-- `v.has(key) ? v[key].get_int() : 0`. -/
def intChecked (v : Value) (key : String) : Option Int :=
  if v.has (ascii key) then getIntChecked (v.index (ascii key)) else some 0

/-! ## 2. `handle_message`, checked -/

/-- One location of the answer. -/
def possibleLocation (sid : Bytes) (l : Int) : Value :=
  .ofFields [("scriptId", .string sid), ("lineNumber", .ofInt l), ("columnNumber", .ofInt 0)]

/-- The loop over the requested lines, from `l` on. -/
def locationsLoop (sid : Bytes) (endLine l : Int) (locations : List Value) : Option (List Value) :=
  if l ≤ endLine then
    -- `l++` comes before the next test
    if l + 1 < 2 ^ 31 then
      locationsLoop sid endLine (l + 1) (locations ++ [possibleLocation sid l])
    else none
  else some locations
termination_by (endLine + 1 - l).toNat

section

variable (env : Env)

/-- The locations of the answer to a request with a `start`. -/
def locationsChecked (params : Value) : Option (List Value) := do
  let start := params.index (ascii "start")
  let startLine ← intChecked start "lineNumber"
  let nextLine ← succChecked startLine
  let endLine ←
    if params.has (ascii "end") then
      getIntChecked ((params.index (ascii "end")).index (ascii "lineNumber"))
    else some nextLine
  locationsLoop (stringOr start "scriptId" "") endLine startLine []

def getPossibleBreakpointsChecked (params : Value) : Option Value := do
  let locations ← if params.has (ascii "start") then locationsChecked params else some []
  return .ofFields [("locations", .array locations)]

def setBreakpointByUrlChecked (s : Server) (params : Value) : Option (Server × Value) := do
  let line ← intChecked params "lineNumber"
  let _ ← intChecked params "columnNumber"
  let _ ← succChecked line
  return onDebuggerSetBreakpointByUrl env s params

/-- The methods; no other one reads a number. -/
def dispatchChecked (s : Server) (method : Bytes) (params : Value) : Option (Server × Value) :=
  if method = ascii "Debugger.setBreakpointByUrl" then setBreakpointByUrlChecked env s params
  else if method = ascii "Debugger.getPossibleBreakpoints" then
    (getPossibleBreakpointsChecked params).map fun result => (s, result)
  else some (dispatch env s method params)

/-- `handle_message` behind the parser. -/
def handleChecked (s : Server) (msg : Value) : Option Server :=
  if msg.isObject then do
    let id ← intChecked msg "id"
    let r ← dispatchChecked env s (methodOf msg) (paramsOf msg)
    return if 0 < id then r.1.sendResponse env id r.2 else r.1
  else some s

end

/-! ## 3. What is claimed, and when it holds -/

/-- The value is a number between the least `int` and `m`, both after truncation. -/
def Below (m : ℚ) (v : Value) : Prop :=
  match v.getNumber with
  | .finite q => -2147483649 < q ∧ q < m
  | .infinite _ | .nan => False

/-- The member, when there is one, is such a number. -/
def BelowAt (m : ℚ) (v : Value) (key : String) : Prop :=
  v.has (ascii key) = true → Below m (v.index (ascii key))

/-- The numbers of a requested range are. -/
def RangeFits (params : Value) : Prop :=
  if params.has (ascii "end") then
    BelowAt 2147483647 (params.index (ascii "start")) "lineNumber" ∧
      Below 2147483647 ((params.index (ascii "end")).index (ascii "lineNumber"))
  else BelowAt 2147483646 (params.index (ascii "start")) "lineNumber"

/-- The numbers the message is handled with are far enough from the ends of `int`. -/
structure IntegersFit (msg : Value) : Prop where
  id : BelowAt 2147483648 msg "id"
  breakpoint : methodOf msg = ascii "Debugger.setBreakpointByUrl" →
    BelowAt 2147483647 (paramsOf msg) "lineNumber" ∧
      BelowAt 2147483648 (paramsOf msg) "columnNumber"
  range : methodOf msg = ascii "Debugger.getPossibleBreakpoints" →
    (paramsOf msg).has (ascii "start") = true → RangeFits (paramsOf msg)

/-- A number without its fraction. -/
def truncated (v : Value) : Int :=
  match v.getNumber with
  | .finite q => q.num.tdiv q.den
  | .infinite _ | .nan => 0

/-- `start_line`. -/
def firstLine (params : Value) : Int :=
  truncated ((params.index (ascii "start")).index (ascii "lineNumber"))

/-- `end_line`. -/
def lastLine (params : Value) : Int :=
  if params.has (ascii "end") then
    truncated ((params.index (ascii "end")).index (ascii "lineNumber"))
  else firstLine params + 1

/-- The answer lists each line from `first` to `last` once, in order. -/
def ListsLines (result : Value) (sid : Bytes) (first last : Int) : Prop :=
  ∃ lines : List Int,
    result.index (ascii "locations") = .array (lines.map (possibleLocation sid)) ∧
    lines.Pairwise (· < ·) ∧ ∀ l, l ∈ lines ↔ first ≤ l ∧ l ≤ last

/-- All integer arithmetic of the dispatch is defined, it is that of `handleParsed`, and a request
for a range is answered with the range. -/
structure IntegersSafe (env : Env) (s : Server) (msg : Value) : Prop where
  defined : handleChecked env s msg = some (handleParsed env s msg)
  listed : methodOf msg = ascii "Debugger.getPossibleBreakpoints" →
    (paramsOf msg).has (ascii "start") = true → msg.isObject = true →
    ∃ result, dispatchChecked env s (methodOf msg) (paramsOf msg) = some (s, result) ∧
      ListsLines result (stringOr ((paramsOf msg).index (ascii "start")) "scriptId" "")
        (firstLine (paramsOf msg)) (lastLine (paramsOf msg))

/-! ## 4. Casts -/

/-- Truncation against a positive bound. -/
theorem tdiv_lt_iff {n d m : Int} (hd : 0 < d) (hm : 0 < m) : n.tdiv d < m ↔ n < m * d := by
  rcases Int.le_total 0 n with hn | hn
  · rw [Int.tdiv_eq_ediv_of_nonneg hn, Int.ediv_lt_iff_lt_mul hd]
  · have hneg : n.tdiv d ≤ 0 := by
      have h := Int.tdiv_nonneg (Int.neg_nonneg_of_nonpos hn) (Int.le_of_lt hd)
      rw [Int.neg_tdiv] at h
      omega
    have hpos : 0 < m * d := Int.mul_pos hm hd
    omega

theorem neg_le_tdiv_iff {n d m : Int} (hd : 0 < d) (hm : 0 ≤ m) :
    -m ≤ n.tdiv d ↔ -((m + 1) * d) < n := by
  have h := @tdiv_lt_iff (-n) d (m + 1) hd (by omega)
  rw [Int.neg_tdiv] at h
  omega

/-- A cast is defined, with a result below `m`, exactly for the numbers below `m`. -/
theorem below_iff {v : Value} {m : Int} (hpos : 0 < m) (hmax : m ≤ 2 ^ 31) :
    Below m v ↔ ∃ n, getIntChecked v = some n ∧ n < m := by
  unfold Below getIntChecked
  cases v.getNumber with
  | infinite _ => simp
  | nan => simp
  | finite q =>
    have hden : (0 : Int) < q.den := by exact_mod_cast q.den_pos
    have hdenq : (0 : ℚ) < q.den := by exact_mod_cast q.den_pos
    have hlow : (-2147483649 : ℚ) < q ↔ -2 ^ 31 ≤ q.num.tdiv q.den := by
      rw [neg_le_tdiv_iff hden (by decide)]
      conv_lhs => rw [← Rat.num_div_den q, lt_div_iff₀ hdenq]
      rw [← Int.cast_lt (R := ℚ)]
      push_cast
      norm_num
    have hhigh : q < (m : ℚ) ↔ q.num.tdiv q.den < m := by
      rw [tdiv_lt_iff hden hpos]
      conv_lhs => rw [← Rat.num_div_den q, div_lt_iff₀ hdenq]
      rw [← Int.cast_lt (R := ℚ)]
      push_cast
      rfl
    simp only [hlow, hhigh]
    constructor
    · rintro ⟨hlo, hhi⟩
      exact ⟨_, if_pos ⟨hlo, by omega⟩, hhi⟩
    · rintro ⟨n, hn, hlt⟩
      obtain ⟨⟨hlo, -⟩, hn⟩ := Option.ite_none_right_eq_some.mp hn
      obtain rfl := Option.some.inj hn
      exact ⟨hlo, hlt⟩

/-- A checked cast that is defined is the unchecked one, and the truncated number. -/
theorem getIntChecked_some {v : Value} {n : Int} (h : getIntChecked v = some n) :
    v.getInt = n ∧ truncated v = n := by
  unfold getIntChecked at h
  unfold Value.getInt truncated
  cases hv : v.getNumber with
  | infinite _ => rw [hv] at h; exact absurd h (by simp)
  | nan => rw [hv] at h; exact absurd h (by simp)
  | finite q =>
    simp only [hv] at h
    obtain ⟨hfits, hn⟩ := Option.ite_none_right_eq_some.mp h
    obtain rfl := Option.some.inj hn
    exact ⟨if_pos hfits, rfl⟩

/-- A member that is not there is null, which reads as 0. -/
theorem index_of_not_has {v : Value} {key : Bytes} (h : v.has key = false) :
    v.index key = .null := by
  cases v with
  | object kvs =>
    have hfind : SortedMap.find key kvs = none := by simpa [Value.has] using h
    rw [Value.index, hfind]
    rfl
  | _ => rfl

theorem intChecked_some {v : Value} {key : String} {n : Int} (h : intChecked v key = some n) :
    intOrZero v key = n ∧ truncated (v.index (ascii key)) = n := by
  unfold intChecked at h
  unfold intOrZero
  cases hhas : v.has (ascii key) with
  | true =>
    rw [hhas, if_pos rfl] at h
    exact getIntChecked_some h
  | false =>
    rw [hhas, if_neg Bool.false_ne_true] at h
    rw [index_of_not_has hhas]
    obtain rfl := Option.some.inj h
    exact ⟨rfl, rfl⟩

/-- The same for a member that may be missing. -/
theorem belowAt_iff {v : Value} {key : String} {m : Int} (hpos : 0 < m) (hmax : m ≤ 2 ^ 31) :
    BelowAt m v key ↔ ∃ n, intChecked v key = some n ∧ n < m := by
  unfold BelowAt intChecked
  cases v.has (ascii key) with
  | true => simp only [forall_const, if_true, below_iff hpos hmax]
  | false =>
    refine ⟨fun _ => ⟨0, rfl, hpos⟩, fun _ h => absurd h (by simp)⟩

/-- A cast that is defined stays below the largest bound of itself. -/
theorem belowAt_max_iff {v : Value} {key : String} :
    BelowAt 2147483648 v key ↔ ∃ n, intChecked v key = some n := by
  have hmax := @belowAt_iff v key 2147483648 (by decide) (by decide)
  push_cast at hmax
  rw [hmax]
  refine exists_congr fun n => and_iff_left_of_imp fun hn => ?_
  unfold intChecked at hn
  cases hhas : v.has (ascii key) with
  | false =>
    rw [hhas, if_neg Bool.false_ne_true] at hn
    obtain rfl := Option.some.inj hn
    decide
  | true =>
    rw [hhas, if_pos rfl, getIntChecked] at hn
    split at hn
    · obtain ⟨hfits, hn⟩ := Option.ite_none_right_eq_some.mp hn
      obtain rfl := Option.some.inj hn
      exact hfits.2
    · exact absurd hn (by simp)
    · exact absurd hn (by simp)

theorem succChecked_eq_some {n m : Int} :
    succChecked n = some m ↔ n < 2147483647 ∧ m = n + 1 := by
  unfold succChecked
  rw [Option.ite_none_right_eq_some, Option.some.injEq]
  omega

/-! ## 5. The loop -/

/-- The lines from `first` to `last`. -/
def lineRange (first last : Int) : List Int :=
  (List.range (last - first + 1).toNat).map fun i : Nat => first + (i : Int)

theorem lineRange_of_lt {first last : Int} (h : last < first) : lineRange first last = [] := by
  have hnone : (last - first + 1).toNat = 0 := by omega
  rw [lineRange, hnone]
  rfl

theorem lineRange_of_le {first last : Int} (h : first ≤ last) :
    lineRange first last = first :: lineRange (first + 1) last := by
  have hsucc : (last - first + 1).toNat = (last - (first + 1) + 1).toNat + 1 := by omega
  rw [lineRange, hsucc, List.range_succ_eq_map, List.map_cons, List.map_map, lineRange]
  refine congrArg₂ List.cons (by simp) (List.map_congr_left fun i _ => ?_)
  simp only [Function.comp_apply, Nat.succ_eq_add_one, Int.natCast_add, Int.cast_ofNat_Int]
  omega

theorem pairwise_lineRange (first last : Int) : (lineRange first last).Pairwise (· < ·) := by
  refine List.pairwise_map.mpr (List.pairwise_lt_range.imp fun h => ?_)
  omega

theorem mem_lineRange {first last l : Int} : l ∈ lineRange first last ↔ first ≤ l ∧ l ≤ last := by
  simp only [lineRange, List.mem_map, List.mem_range]
  constructor
  · rintro ⟨i, hi, rfl⟩
    omega
  · rintro ⟨hlo, hhi⟩
    exact ⟨(l - first).toNat, by omega, by omega⟩

theorem possibleLocations_eq (sid : Bytes) (first last : Int) :
    possibleLocations sid first last = (lineRange first last).map (possibleLocation sid) := by
  simp only [possibleLocations, lineRange, bind_pure_comp, List.map_eq_map, List.map_map]
  rfl

/-- **The loop.**  It is entered with the last line `INT_MAX` and then overflows, or it appends
the locations of the lines that are left. -/
theorem locationsLoop_eq (sid : Bytes) (endLine l : Int) (locations : List Value) :
    locationsLoop sid endLine l locations =
      if l ≤ endLine ∧ 2147483647 ≤ endLine then none
      else some (locations ++ possibleLocations sid l endLine) := by
  -- by the number of turns left
  induction hn : (endLine + 1 - l).toNat generalizing l locations with
  | zero =>
    have hdone : ¬ l ≤ endLine := by omega
    rw [locationsLoop, if_neg hdone, if_neg (by omega), possibleLocations_eq,
      lineRange_of_lt (by omega), List.map_nil, List.append_nil]
  | succ n ih =>
    have hturn : l ≤ endLine := by omega
    rw [locationsLoop, if_pos hturn]
    by_cases hmax : l + 1 < 2 ^ 31
    · rw [if_pos hmax, ih (l + 1) _ (by omega)]
      by_cases hlast : 2147483647 ≤ endLine
      · rw [if_pos ⟨by omega, hlast⟩, if_pos ⟨hturn, hlast⟩]
      · rw [if_neg (fun h => hlast h.2), if_neg (fun h => hlast h.2), possibleLocations_eq,
          possibleLocations_eq, lineRange_of_le hturn, List.map_cons, List.append_assoc]
        rfl
    · rw [if_neg hmax, if_pos ⟨hturn, by omega⟩]

/-! ## 6. The message -/

/-- The locations of a range are computed exactly when its numbers fit, and then they are those of
the unchecked reading. -/
theorem locationsChecked_eq_some {params : Value} {ls : List Value} :
    locationsChecked params = some ls ↔ RangeFits params ∧
      ls = possibleLocations (stringOr (params.index (ascii "start")) "scriptId" "")
        (firstLine params) (lastLine params) := by
  unfold locationsChecked RangeFits lastLine firstLine
  simp only [locationsLoop_eq, List.nil_append]
  cases params.has (ascii "end") with
  | true =>
    have hfirst := @belowAt_iff (params.index (ascii "start")) "lineNumber" 2147483647
      (by decide) (by decide)
    have hlast := @below_iff ((params.index (ascii "end")).index (ascii "lineNumber")) 2147483647
      (by decide) (by decide)
    push_cast at hfirst hlast
    simp only [if_true, hfirst, hlast, Option.bind_eq_bind, Option.bind_eq_some_iff,
      succChecked_eq_some, Option.ite_none_left_eq_some, Option.some.injEq]
    constructor
    · rintro ⟨a, ha, b, ⟨hlt, -⟩, e, he, hend, rfl⟩
      refine ⟨⟨⟨a, ha, hlt⟩, e, he, by omega⟩, ?_⟩
      rw [(intChecked_some ha).2, (getIntChecked_some he).2]
    · rintro ⟨⟨⟨a, ha, hlt⟩, e, he, hlast⟩, rfl⟩
      refine ⟨a, ha, a + 1, ⟨hlt, rfl⟩, e, he, by omega, ?_⟩
      rw [(intChecked_some ha).2, (getIntChecked_some he).2]
  | false =>
    have hfirst := @belowAt_iff (params.index (ascii "start")) "lineNumber" 2147483646
      (by decide) (by decide)
    push_cast at hfirst
    simp only [Bool.false_eq_true, if_false, hfirst, Option.bind_eq_bind, Option.bind_eq_some_iff,
      succChecked_eq_some, Option.ite_none_left_eq_some, Option.some.injEq]
    constructor
    · rintro ⟨a, ha, b, ⟨hlt, rfl⟩, e, rfl, hend, rfl⟩
      refine ⟨⟨a, ha, by omega⟩, ?_⟩
      rw [(intChecked_some ha).2]
    · rintro ⟨⟨a, ha, hlt⟩, rfl⟩
      refine ⟨a, ha, a + 1, ⟨by omega, rfl⟩, a + 1, rfl, by omega, ?_⟩
      rw [(intChecked_some ha).2]

/-- Where the conversions of the range are defined, the handler reads the range. -/
theorem onDebuggerGetPossibleBreakpoints_eq {params : Value} {ls : List Value}
    (hstart : params.has (ascii "start") = true) (h : locationsChecked params = some ls) :
    onDebuggerGetPossibleBreakpoints params = .ofFields [("locations", .array ls)] := by
  have hls := (locationsChecked_eq_some.mp h).2
  unfold locationsChecked at h
  simp only [Option.bind_eq_bind] at h
  obtain ⟨a, ha, h⟩ := Option.bind_eq_some_iff.mp h
  obtain ⟨b, hb, h⟩ := Option.bind_eq_some_iff.mp h
  have hfirst := intChecked_some ha
  rw [onDebuggerGetPossibleBreakpoints, if_pos hstart, hls, firstLine, lastLine, firstLine]
  simp only [hfirst.1, hfirst.2]
  cases hend : params.has (ascii "end") with
  | true =>
    rw [hend] at h
    simp only [if_true] at h
    obtain ⟨e, he, -⟩ := Option.bind_eq_some_iff.mp h
    have hlast := getIntChecked_some he
    simp only [if_true, hlast.1, hlast.2]
  | false => rfl

/-- `getPossibleBreakpoints`, checked: defined exactly when the numbers fit, and then it is the
handler's answer. -/
theorem getPossibleBreakpointsChecked_eq_some {params result : Value} :
    getPossibleBreakpointsChecked params = some result ↔
      (params.has (ascii "start") = true → RangeFits params) ∧
        result = onDebuggerGetPossibleBreakpoints params := by
  unfold getPossibleBreakpointsChecked
  cases hstart : params.has (ascii "start") with
  | false =>
    have hplain : onDebuggerGetPossibleBreakpoints params =
        .ofFields [("locations", .array [])] := by
      rw [onDebuggerGetPossibleBreakpoints, hstart, if_neg Bool.false_ne_true]
    simp only [Bool.false_eq_true, if_false, false_imp_iff, true_and, hplain]
    exact ⟨fun h => (Option.some.inj h).symm, fun h => h ▸ rfl⟩
  | true =>
    simp only [if_true, true_imp_iff, Option.bind_eq_bind]
    rw [Option.bind_eq_some_iff]
    constructor
    · rintro ⟨ls, hls, hresult⟩
      obtain rfl := Option.some.inj hresult
      exact ⟨(locationsChecked_eq_some.mp hls).1,
        (onDebuggerGetPossibleBreakpoints_eq hstart hls).symm⟩
    · rintro ⟨hfits, rfl⟩
      have hls := locationsChecked_eq_some.mpr ⟨hfits, rfl⟩
      exact ⟨_, hls, congrArg some (onDebuggerGetPossibleBreakpoints_eq hstart hls).symm⟩

/-- `setBreakpointByUrl`, checked. -/
theorem setBreakpointByUrlChecked_eq_some {env : Env} {s : Server} {params : Value}
    {r : Server × Value} :
    setBreakpointByUrlChecked env s params = some r ↔
      (BelowAt 2147483647 params "lineNumber" ∧ BelowAt 2147483648 params "columnNumber") ∧
        r = onDebuggerSetBreakpointByUrl env s params := by
  have hline := @belowAt_iff params "lineNumber" 2147483647 (by decide) (by decide)
  push_cast at hline
  unfold setBreakpointByUrlChecked
  simp only [hline, belowAt_max_iff, Option.bind_eq_bind, Option.bind_eq_some_iff,
    succChecked_eq_some]
  constructor
  · rintro ⟨line, hline, col, hcol, next, ⟨hlt, -⟩, hr⟩
    exact ⟨⟨⟨line, hline, hlt⟩, col, hcol⟩, (Option.some.inj hr).symm⟩
  · rintro ⟨⟨⟨line, hline, hlt⟩, col, hcol⟩, rfl⟩
    exact ⟨line, hline, col, hcol, line + 1, ⟨hlt, rfl⟩, rfl⟩

/-- The dispatch, checked. -/
theorem dispatchChecked_eq_some {env : Env} {s : Server} {method : Bytes} {params : Value}
    {r : Server × Value} :
    dispatchChecked env s method params = some r ↔
      (method = ascii "Debugger.setBreakpointByUrl" →
          BelowAt 2147483647 params "lineNumber" ∧ BelowAt 2147483648 params "columnNumber") ∧
        (method = ascii "Debugger.getPossibleBreakpoints" →
          params.has (ascii "start") = true → RangeFits params) ∧
        r = dispatch env s method params := by
  unfold dispatchChecked
  by_cases hset : method = ascii "Debugger.setBreakpointByUrl"
  · have hother : method ≠ ascii "Debugger.getPossibleBreakpoints" := by
      rw [hset]
      decide
    have hdispatch : dispatch env s method params = onDebuggerSetBreakpointByUrl env s params := by
      rw [hset]
      rfl
    rw [if_pos hset, setBreakpointByUrlChecked_eq_some, hdispatch]
    constructor
    · rintro ⟨hfits, hr⟩
      exact ⟨fun _ => hfits, fun h => absurd h hother, hr⟩
    · rintro ⟨hfits, -, hr⟩
      exact ⟨hfits hset, hr⟩
  rw [if_neg hset]
  by_cases hget : method = ascii "Debugger.getPossibleBreakpoints"
  · have hdispatch : dispatch env s method params =
        (s, onDebuggerGetPossibleBreakpoints params) := by
      rw [hget]
      rfl
    rw [if_pos hget, hdispatch, Option.map_eq_some_iff]
    constructor
    · rintro ⟨result, hresult, rfl⟩
      obtain ⟨hfits, rfl⟩ := getPossibleBreakpointsChecked_eq_some.mp hresult
      exact ⟨fun h => absurd h hset, fun _ => hfits, rfl⟩
    · rintro ⟨-, hfits, rfl⟩
      exact ⟨_, getPossibleBreakpointsChecked_eq_some.mpr ⟨hfits hget, rfl⟩, rfl⟩
  · rw [if_neg hget, Option.some.injEq]
    constructor
    · intro hr
      exact ⟨fun h => absurd h hset, fun h => absurd h hget, hr.symm⟩
    · rintro ⟨-, -, hr⟩
      exact hr.symm

/-- **Client numbers stay in the integer range exactly when they fit.**  For every server and every
message: each cast, sum and loop counter of `handle_message` is defined, its result is that of the
handler, and a request for a range is answered with the lines of the range, once each and in
order -- iff the numbers that the message is handled with fit. -/
theorem integers_safe_iff (env : Env) (s : Server) (msg : Value) :
    IntegersSafe env s msg ↔ (msg.isObject = true → IntegersFit msg) := by
  constructor
  · intro hsafe hobj
    have hdef := hsafe.defined
    rw [handleChecked, if_pos hobj] at hdef
    simp only [Option.bind_eq_bind] at hdef
    obtain ⟨id, hid, hdef⟩ := Option.bind_eq_some_iff.mp hdef
    obtain ⟨r, hr, -⟩ := Option.bind_eq_some_iff.mp hdef
    obtain ⟨hset, hget, -⟩ := dispatchChecked_eq_some.mp hr
    exact ⟨belowAt_max_iff.mpr ⟨id, hid⟩, hset, hget⟩
  · intro hfit
    constructor
    · by_cases hobj : msg.isObject = true
      · obtain ⟨hid, hset, hget⟩ := hfit hobj
        obtain ⟨id, hid⟩ := belowAt_max_iff.mp hid
        have hdispatch : dispatchChecked env s (methodOf msg) (paramsOf msg) =
            some (dispatch env s (methodOf msg) (paramsOf msg)) :=
          dispatchChecked_eq_some.mpr ⟨hset, hget, rfl⟩
        rw [handleChecked, handleParsed, if_pos hobj, if_pos hobj, hid, hdispatch,
          (intChecked_some hid).1]
        rfl
      · rw [handleChecked, handleParsed, if_neg hobj, if_neg hobj]
    · intro hmethod hstart hobj
      obtain ⟨-, hset, hget⟩ := hfit hobj
      have hls := locationsChecked_eq_some.mpr ⟨hget hmethod hstart, rfl⟩
      refine ⟨onDebuggerGetPossibleBreakpoints (paramsOf msg), ?_, lineRange _ _, ?_,
        pairwise_lineRange _ _, fun l => mem_lineRange⟩
      · rw [dispatchChecked_eq_some]
        refine ⟨hset, hget, ?_⟩
        rw [hmethod]
        rfl
      · have hfields : ∀ v, Value.ofFields [("locations", v)] =
            (Value.object []).set (ascii "locations") v := fun _ => rfl
        rw [onDebuggerGetPossibleBreakpoints_eq hstart hls, possibleLocations_eq, hfields,
          Value.index_set_self]

/-- A request for the two last lines an `int` can number. -/
def lastLines : Value :=
  .ofFields [("id", .ofInt 1), ("method", .lit "Debugger.getPossibleBreakpoints"),
    ("params", .ofFields [("start", .ofFields [("lineNumber", .ofInt 2147483646)]),
      ("end", .ofFields [("lineNumber", .ofInt 2147483647)])])]

set_option maxRecDepth 10000 in
/-- **The loop runs over the last line.**  On this message the counter of the loop stands at
`INT_MAX`, the last line of the range, and is incremented once more. -/
theorem last_line_overflows :
    Json.parse integerEnv.stod (ascii ("\x7b\"id\":1," ++
        "\"method\":\"Debugger.getPossibleBreakpoints\",\"params\":\x7b" ++
        "\"start\":\x7b\"lineNumber\":2147483646\x7d," ++
        "\"end\":\x7b\"lineNumber\":2147483647\x7d\x7d\x7d")) = .ok lastLines ∧
      ¬ IntegersSafe integerEnv Server.new lastLines := by
  refine ⟨by rfl, fun hsafe => ?_⟩
  have hdef := hsafe.defined
  rw [handleChecked, if_pos (by decide)] at hdef
  simp only [Option.bind_eq_bind] at hdef
  obtain ⟨id, -, hdef⟩ := Option.bind_eq_some_iff.mp hdef
  obtain ⟨r, hr, -⟩ := Option.bind_eq_some_iff.mp hdef
  have hfits := (dispatchChecked_eq_some.mp hr).2.1 (by decide) (by decide)
  have hend : (paramsOf lastLines).has (ascii "end") = true := by decide
  rw [RangeFits, hend, if_pos rfl] at hfits
  have hnumber : (((paramsOf lastLines).index (ascii "end")).index (ascii "lineNumber")).getNumber =
      .finite 2147483647 := by
    decide
  have hbelow := hfits.2
  rw [Below, hnumber] at hbelow
  exact absurd hbelow.2 (lt_irrefl _)

end QjsDebug.Cdp
