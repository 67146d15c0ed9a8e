/-
# Scripts and their resolution

`add_script` registers a script under the next id; `find_script_id` looks up the script that a
call frame runs, and `set_breakpoint_by_url` the script of the resolved location.  Each lookup is
one loop over the scripts in registration order, and each tests the exact URL and the looser
rules script by script, so an earlier script that only shares a name is found before the exact
one is reached.

* §2  what registering keeps: distinct ids, normalized URLs (`registered_addScript`);
* §3  a lookup answers with `s` iff no script before `s` passes its test;
* §4  both lookups do, EXCEPT when a script registered earlier has the base name of `s`, or
      one of the two paths contains the other (`script_resolution_exact_iff`).
-/
import Mathlib.Data.List.Nodup
import QjsDebug.Cdp.Matching

namespace QjsDebug

open Json (Value)

/-- `std::to_string` tells two ids apart. -/
theorem decimal_injective {m n : Int} (hm : 0 ≤ m) (hn : 0 ≤ n) (h : decimal m = decimal n) :
    m = n := by
  have hdigit : ∀ a < 10, ∀ b < 10, digitByte a = digitByte b → a = b := by decide
  have hneg : ∀ k : Int, 0 ≤ k → decimal k = (decimalDigits k.natAbs).map digitByte := by
    intro k hk
    rw [decimal, if_neg (by omega), List.nil_append]
  rw [hneg m hm, hneg n hn] at h
  have hinj : ∀ l₁ l₂ : List Nat, (∀ a ∈ l₁, a < 10) → (∀ b ∈ l₂, b < 10) →
      l₁.map digitByte = l₂.map digitByte → l₁ = l₂ := by
    intro l₁
    induction l₁ with
    | nil =>
      intro l₂ _ _ heq
      exact (List.map_eq_nil_iff.mp heq.symm).symm
    | cons a l₁ ih =>
      intro l₂ ha hb heq
      cases l₂ with
      | nil => exact absurd heq (by simp)
      | cons b l₂ =>
        obtain ⟨ha, ha'⟩ := List.forall_mem_cons.mp ha
        obtain ⟨hb, hb'⟩ := List.forall_mem_cons.mp hb
        obtain ⟨hhead, htail⟩ := List.cons.inj heq
        rw [hdigit a ha b hb hhead, ih l₂ ha' hb' htail]
  have hdigits := hinj _ _ (fun _ => lt_ten_of_mem_decimalDigits)
    (fun _ => lt_ten_of_mem_decimalDigits) h
  have hvalue := congrArg (ofDigits 10) hdigits
  rw [ofDigits_decimalDigits, ofDigits_decimalDigits] at hvalue
  omega

namespace Cdp

/-! ## 1. Registering a script -/

/-- `find(text, start)`, as the part from the match on. -/
def searchFrom (text : Bytes) : Bytes → Option Bytes
  | [] => if text = [] then some [] else none
  | c :: rest => if text <+: c :: rest then some (c :: rest) else searchFrom text rest

/-- `extract_source_map_url`: the value of the magic comment in the last 4096 bytes. -/
def extractSourceMapUrl (source : Bytes) : Bytes :=
  let tail := source.drop (source.length - 4096)
  let found :=
    match searchFrom (ascii "//# sourceMappingURL=") tail with
    | some comment => some comment
    | none => searchFrom (ascii "//@ sourceMappingURL=") tail
  match found with
  | none => []
  | some comment =>
    let line := (comment.drop 21).takeWhile fun c => c != byte '\r' && c != byte '\n'
    (line.reverse.dropWhile isSpace).reverse

/-- The scripts of a session with the id of the next one. -/
structure Registry where
  server : Server
  nextScriptId : Int

/-- `add_script`.  A session is enabled by the handler that its events are sent through, so the
test of `send_event_` adds nothing. -/
def addScript (env : Env) (r : Registry) (url source : Bytes) : Registry × Bytes :=
  let info : Script :=
    { id := decimal r.nextScriptId
      url := normalizeUrl url
      source := source
      sourceMapUrl := extractSourceMapUrl source
      endLine := 1 + source.count (byte '\n') }
  let server := { r.server with scripts := r.server.scripts ++ [info] }
  let server :=
    if server.session.enabled then
      server.sendEvent env "Debugger.scriptParsed" (scriptParsed info)
    else server
  ({ server := server, nextScriptId := r.nextScriptId + 1 }, info.id)

/-- The scripts of a program, registered one after the other. -/
def addScripts (env : Env) (r : Registry) (files : List (Bytes × Bytes)) : Registry :=
  files.foldl (fun r file => (addScript env r file.1 file.2).1) r

/-- Before the first script. -/
def Registry.new : Registry where
  server := Server.new
  nextScriptId := 1

/-! ## 2. What registering keeps -/

/-- The scripts of a registry: ids that were given out and are told apart, URLs with forward
slashes only. -/
structure Registered (r : Registry) : Prop where
  next_pos : 0 < r.nextScriptId
  ids_given : ∀ s ∈ r.server.scripts, ∃ n, 0 < n ∧ n < r.nextScriptId ∧ s.id = decimal n
  ids_nodup : (r.server.scripts.map Script.id).Nodup
  urls_normalized : ∀ s ∈ r.server.scripts, normalizeUrl s.url = s.url

/-- No script has the id 0, nor an empty one. -/
theorem Registered.id_ne {r : Registry} (h : Registered r) {s : Script}
    (hs : s ∈ r.server.scripts) : s.id ≠ [] ∧ s.id ≠ ascii "0" := by
  obtain ⟨n, hn, -, hid⟩ := h.ids_given s hs
  rw [hid]
  constructor
  · rw [decimal, if_neg (by omega), List.nil_append]
    exact fun hnil => decimalDigits_ne_nil _ (List.map_eq_nil_iff.mp hnil)
  · intro hzero
    have : n = 0 := decimal_injective (by omega) (by omega) hzero
    omega

theorem registered_new : Registered Registry.new where
  next_pos := by decide
  ids_given := by
    intro s hs
    exact absurd hs (by simp [Registry.new, Server.new])
  ids_nodup := List.nodup_nil
  urls_normalized := by
    intro s hs
    exact absurd hs (by simp [Registry.new, Server.new])

theorem scripts_addScript (env : Env) (r : Registry) (url source : Bytes) :
    (addScript env r url source).1.server.scripts = r.server.scripts ++
      [{ id := decimal r.nextScriptId
         url := normalizeUrl url
         source := source
         sourceMapUrl := extractSourceMapUrl source
         endLine := 1 + source.count (byte '\n') }] := by
  simp only [addScript]
  split <;> rfl

/-- **One registration** takes an id that no script has yet. -/
theorem registered_addScript (env : Env) {r : Registry} (h : Registered r) (url source : Bytes) :
    Registered (addScript env r url source).1 := by
  have hscripts := scripts_addScript env r url source
  have hnext : (addScript env r url source).1.nextScriptId = r.nextScriptId + 1 := rfl
  have hpos := h.next_pos
  constructor
  · rw [hnext]
    omega
  · intro s hs
    rw [hscripts, List.mem_append, List.mem_singleton] at hs
    rw [hnext]
    rcases hs with hs | rfl
    · obtain ⟨n, hn, hlt, hid⟩ := h.ids_given s hs
      exact ⟨n, hn, by omega, hid⟩
    · exact ⟨r.nextScriptId, hpos, by omega, rfl⟩
  · rw [hscripts, List.map_append]
    refine List.nodup_append.mpr ⟨h.ids_nodup, List.nodup_singleton _, ?_⟩
    intro id hid id' hid'
    obtain ⟨s, hs, rfl⟩ := List.mem_map.mp hid
    obtain ⟨n, hn, hlt, hs⟩ := h.ids_given s hs
    rw [List.mem_singleton.mp hid', hs]
    intro heq
    have := decimal_injective (by omega) (by omega) heq
    omega
  · intro s hs
    rw [hscripts, List.mem_append, List.mem_singleton] at hs
    rcases hs with hs | rfl
    · exact h.urls_normalized s hs
    · exact normalizeUrl_idem url

theorem registered_addScripts (env : Env) {r : Registry} (h : Registered r)
    (files : List (Bytes × Bytes)) : Registered (addScripts env r files) := by
  induction files generalizing r with
  | nil => exact h
  | cons file files ih => exact ih (registered_addScript env h file.1 file.2)

/-! ## 3. The two lookups -/

/-- The test of `find_script_id` on one script. -/
def nameHit (host : Host) (script : Script) (url : Bytes) : Bool :=
  pathsMatch host script.url url ||
    (pathsMatch host (baseName script.url) (baseName url) && baseName script.url != [])

/-- The search of `find_script_id` for a normalized URL. -/
def findScriptIdLoop (host : Host) (norm : Bytes) : List Script → Bytes
  | [] => ascii "0"
  | s :: rest =>
    if pathsMatch host s.url norm then s.id
    else if pathsMatch host (baseName s.url) (baseName norm) && baseName s.url != [] then s.id
    else findScriptIdLoop host norm rest

/-- `find_script_id`. -/
def findScriptId (host : Host) (scripts : List Script) (filename : Bytes) : Bytes :=
  findScriptIdLoop host (normalizeUrl filename) scripts

/-- The location of a call frame in `Debugger.paused`, as `capture_frames` builds it. -/
def frameLocation (host : Host) (scripts : List Script) (fi : FrameInfo) : Value :=
  .ofFields [("scriptId", .string (findScriptId host scripts fi.filename)),
    ("lineNumber", .ofInt (if 0 < fi.line then fi.line - 1 else 0)),
    ("columnNumber", .ofInt (if 0 < fi.col then fi.col - 1 else 0))]

/-- The script id of the resolved location in an answer to `setBreakpointByUrl`. -/
def resolvedScriptId (answer : Value) : Value :=
  match answer.index (ascii "locations") with
  | .array (location :: _) => location.index (ascii "scriptId")
  | _ => .null

/-- The test of `set_breakpoint_by_url` on one script, for a plain URL. -/
def resolveHit (host : Host) (script : Script) (url : Bytes) : Bool :=
  pathsMatch host script.url url || contains (toLower script.url) (toLower url) ||
    contains (toLower url) (toLower script.url) ||
    (pathsMatch host (baseName script.url) (baseName url) && baseName script.url != [])

theorem findScriptIdLoop_eq (host : Host) (norm : Bytes) (scripts : List Script) :
    findScriptIdLoop host norm scripts =
      ((scripts.find? fun s => nameHit host s norm).map Script.id).getD (ascii "0") := by
  induction scripts with
  | nil => rfl
  | cons s rest ih =>
    rw [findScriptIdLoop, List.find?_cons, nameHit]
    split
    · rename_i h
      simp [h]
    · rename_i hexact
      split
      · rename_i h
        simp [h]
      · rename_i hbase
        simp only [hexact, hbase, Bool.or_self]
        exact ih

theorem resolveScript_eq (env : Env) (url : Bytes) (scripts : List Script) :
    resolveScript env url false scripts =
      ((scripts.find? fun s => resolveHit env.host s url).map Script.id).getD [] := by
  induction scripts with
  | nil => rfl
  | cons s rest ih =>
    rw [resolveScript, List.find?_cons, resolveHit, if_neg (by simp)]
    split
    · rename_i h
      simp [h]
    · rename_i hpath
      split
      · rename_i h
        simp [h]
      · rename_i hbase
        simp only [hpath, hbase, Bool.or_self]
        exact ih

/-- **The first hit.**  A lookup by a test that `s` passes answers with `s` iff no script before
`s` passes it. -/
theorem first_hit_iff {hit : Script → Bool} {pre post : List Script} {s : Script}
    (hids : ((pre ++ s :: post).map Script.id).Nodup) (hs : hit s = true) (otherwise : Bytes) :
    (((pre ++ s :: post).find? hit).map Script.id).getD otherwise = s.id ↔
      ∀ r ∈ pre, hit r = false := by
  induction pre with
  | nil => simp [hs]
  | cons r pre ih =>
    rw [List.cons_append, List.map_cons, List.nodup_cons] at hids
    rw [List.cons_append, List.find?_cons, List.forall_mem_cons]
    cases hr : hit r with
    | true =>
      -- the answer is `r`, whose id is not the one of `s`
      simp only [Option.map_some, Option.getD_some, reduceCtorEq, false_and, iff_false]
      intro heq
      refine hids.1 (heq ▸ ?_)
      simp
    | false =>
      simp only [true_and]
      exact ih hids.2

/-! ## 4. When both are exact -/

/-- What stands in the way of a later script `s`: its base name, or a path that contains the URL
of `s` without scheme, or is contained in it. -/
def Shadows (host : Host) (r s : Script) : Prop :=
  (pathsMatch host (baseName r.url) (baseName s.url) = true ∧ baseName r.url ≠ []) ∨
    toLower (announced s.url) <:+: toLower r.url ∨ toLower r.url <:+: toLower (announced s.url)

instance (host : Host) (r s : Script) : Decidable (Shadows host r s) :=
  inferInstanceAs (Decidable (_ ∨ _ ∨ _))

theorem pathsMatch_self (host : Host) (a : Bytes) : pathsMatch host a a = true := by
  simp [pathsMatch]

/-- Paths that match are the same without regard to case. -/
theorem toLower_of_pathsMatch {host : Host} {a b : Bytes} (h : pathsMatch host a b = true) :
    toLower a = toLower b := by
  unfold pathsMatch at h
  split at h
  · exact eq_of_beq h
  · rw [eq_of_beq h]

/-- `set_breakpoint_by_url` takes a script for `s` exactly when it shadows `s`. -/
theorem resolveHit_announced_iff {host : Host} {r s : Script} (hs : normalizeUrl s.url = s.url) :
    resolveHit host r (announced s.url) = true ↔ Shadows host r s := by
  have hbase : baseName (announced s.url) = baseName s.url := by
    rw [baseName_announced, hs]
  simp only [resolveHit, Shadows, hbase, Bool.or_eq_true, Bool.and_eq_true, bne_iff_ne, ne_eq,
    contains_iff]
  constructor
  · rintro (((hexact | hin) | hin) | hname)
    · exact .inr (.inl (toLower_of_pathsMatch hexact ▸ List.infix_rfl))
    · exact .inr (.inl hin)
    · exact .inr (.inr hin)
    · exact .inl hname
  · rintro (hname | hin | hin)
    · exact .inr hname
    · exact .inl (.inl (.inr hin))
    · exact .inl (.inr hin)

/-- `find_script_id` takes no other script for `s`. -/
theorem shadows_of_nameHit {host : Host} {r s : Script} (hs : normalizeUrl s.url = s.url)
    (h : nameHit host r s.url = true) : Shadows host r s := by
  simp only [nameHit, Bool.or_eq_true, Bool.and_eq_true, bne_iff_ne, ne_eq] at h
  rcases h with hexact | hname
  · have hpart : announced s.url <:+: s.url := by
      have := announced_part s.url
      rwa [hs] at this
    exact .inr (.inl (toLower_of_pathsMatch hexact ▸ toLower_part hpart))
  · exact .inl hname

/-- A script passes both tests for itself. -/
theorem nameHit_self (host : Host) (s : Script) : nameHit host s s.url = true := by
  simp [nameHit, pathsMatch_self]

theorem shadows_self (host : Host) {s : Script} (hs : normalizeUrl s.url = s.url) :
    Shadows host s s :=
  shadows_of_nameHit hs (nameHit_self host s)

/-- The script id of a location, as both places build it. -/
theorem scriptId_location (id line column : Value) :
    (Value.ofFields [("scriptId", id), ("lineNumber", line), ("columnNumber", column)]).index
      (ascii "scriptId") = id := by
  simp only [Value.ofFields, List.foldl_cons, List.foldl_nil]
  rw [Value.index_set_of_ne _ _ (by decide), Value.index_set_of_ne _ _ (by decide),
    Value.index_set_self]

/-- The resolved location names the first script that `set_breakpoint_by_url` finds. -/
theorem resolvedScriptId_eq (env : Env) (srv : Server) {params : Value} {s : Script}
    (hurl : params.index (ascii "url") = .string (toFileUrl s.url)) :
    resolvedScriptId (onDebuggerSetBreakpointByUrl env srv params).2 =
      .string (if resolveScript env (announced s.url) false srv.scripts = [] then ascii "0"
        else resolveScript env (announced s.url) false srv.scripts) := by
  have hhas : params.has (ascii "url") = true := has_of_index (by rw [hurl]; simp)
  have hplain : normalizeUrl (stripFileScheme (toFileUrl s.url)) = announced s.url :=
    normalizeUrl_announced s.url
  simp only [onDebuggerSetBreakpointByUrl, setBreakpointByUrl, hhas, hurl, Value.getString, if_true,
    Bool.not_true, Bool.false_and, Bool.false_eq_true, if_false, hplain]
  generalize Value.string (decimal _ ++ _ ++ _ ++ _) = bpId
  have hlocations : ∀ locations : Value,
      (Value.ofFields [("breakpointId", bpId), ("locations", locations)]).index
        (ascii "locations") = locations := by
    intro locations
    simp only [Value.ofFields, List.foldl_cons, List.foldl_nil]
    rw [Value.index_set_self]
  rw [resolvedScriptId, hlocations]
  exact scriptId_location _ _ _

/-- `set_breakpoint_by_url` finds `s` by its announced URL iff no earlier script shadows it. -/
theorem resolveScript_announced_iff (env : Env) {pre post : List Script} {s : Script}
    (hids : ((pre ++ s :: post).map Script.id).Nodup) (hs : normalizeUrl s.url = s.url) :
    resolveScript env (announced s.url) false (pre ++ s :: post) = s.id ↔
      ∀ r ∈ pre, ¬ Shadows env.host r s := by
  have hself := (resolveHit_announced_iff hs).mpr (shadows_self env.host hs)
  rw [resolveScript_eq, first_hit_iff hids hself]
  refine forall₂_congr fun r _ => ?_
  rw [Bool.eq_false_iff, ne_eq, resolveHit_announced_iff hs]

/-- `find_script_id` then does as well, for every way to write the file name. -/
theorem findScriptId_of_clear (host : Host) {pre post : List Script} {s : Script}
    (hids : ((pre ++ s :: post).map Script.id).Nodup) (hs : normalizeUrl s.url = s.url)
    (hclear : ∀ r ∈ pre, ¬ Shadows host r s) {filename : Bytes}
    (hname : normalizeUrl filename = s.url) :
    findScriptId host (pre ++ s :: post) filename = s.id := by
  rw [findScriptId, hname, findScriptIdLoop_eq, first_hit_iff hids (nameHit_self host s)]
  intro r hr
  rw [Bool.eq_false_iff]
  intro hhit
  exact hclear r hr (shadows_of_nameHit hs hhit)

/-- **When resolution is exact.**  For scripts registered in any order and every one of them,
`s`: `find_script_id` of its URL is its id, each call frame in it is located in it, and a
breakpoint set by its announced URL is resolved to it, iff no script registered before `s`
shadows it. -/
theorem script_resolution_exact_iff (env : Env) (srv : Server) (files : List (Bytes × Bytes))
    (hscripts : srv.scripts = (addScripts env Registry.new files).server.scripts)
    {pre post : List Script} {s : Script} (hsplit : srv.scripts = pre ++ s :: post)
    {params : Value} (hurl : params.index (ascii "url") = .string (toFileUrl s.url)) :
    (findScriptId env.host srv.scripts s.url = s.id ∧
        (∀ fi : FrameInfo, normalizeUrl fi.filename = s.url →
          (frameLocation env.host srv.scripts fi).index (ascii "scriptId") = .string s.id) ∧
        resolvedScriptId (onDebuggerSetBreakpointByUrl env srv params).2 = .string s.id) ↔
      ∀ r ∈ pre, ¬ Shadows env.host r s := by
  have hreg := registered_addScripts env registered_new files
  have hmem : s ∈ (addScripts env Registry.new files).server.scripts := by
    rw [← hscripts, hsplit]
    simp
  have hs := hreg.urls_normalized s hmem
  obtain ⟨hempty, hzero⟩ := hreg.id_ne hmem
  have hids := hreg.ids_nodup
  rw [← hscripts, hsplit] at hids
  have hresolve := resolveScript_announced_iff env hids hs
  rw [resolvedScriptId_eq env srv hurl, Value.string.injEq, hsplit]
  constructor
  · rintro ⟨-, -, hlocation⟩
    split at hlocation
    · exact absurd hlocation.symm hzero
    · exact hresolve.mp hlocation
  · intro hclear
    refine ⟨findScriptId_of_clear env.host hids hs hclear hs, ?_, ?_⟩
    · intro fi hfi
      rw [frameLocation, scriptId_location, findScriptId_of_clear env.host hids hs hclear hfi]
    · rw [hresolve.mpr hclear, if_neg hempty]

/-- A program of two files that share neither name nor path. -/
def twoFiles : Server :=
  (addScripts integerEnv Registry.new
    [(ascii "/a/one.js", []), (ascii "/b/two.js", [])]).server

theorem scripts_twoFiles :
    twoFiles.scripts = [scriptNamed "1" "/a/one.js", scriptNamed "2" "/b/two.js"] := rfl

/-- The rule at the second file. -/
theorem script_resolution_exact_iff_two :
    (findScriptId posixHost twoFiles.scripts (scriptNamed "2" "/b/two.js").url = ascii "2" ∧
        (∀ fi : FrameInfo, normalizeUrl fi.filename = (scriptNamed "2" "/b/two.js").url →
          (frameLocation posixHost twoFiles.scripts fi).index (ascii "scriptId") =
            .string (ascii "2")) ∧
        resolvedScriptId (onDebuggerSetBreakpointByUrl integerEnv twoFiles
          (.object [(ascii "url", .string (toFileUrl (scriptNamed "2" "/b/two.js").url))])).2 =
            .string (ascii "2")) ↔
      ∀ r ∈ [scriptNamed "1" "/a/one.js"],
        ¬ Shadows posixHost r (scriptNamed "2" "/b/two.js") :=
  script_resolution_exact_iff integerEnv twoFiles
    [(ascii "/a/one.js", []), (ascii "/b/two.js", [])] rfl scripts_twoFiles rfl

/-- A program of two files of one name. -/
def sameName : Server :=
  (addScripts integerEnv Registry.new
    [(ascii "/a/index.js", []), (ascii "/b/index.js", [])]).server

/-- **The first of two files of one name.**  Their URLs are distinct, but both lookups take the
script registered first for the other. -/
theorem same_name_script_resolved :
    sameName.scripts = [scriptNamed "1" "/a/index.js", scriptNamed "2" "/b/index.js"] ∧
      findScriptId posixHost sameName.scripts (ascii "/b/index.js") = ascii "1" ∧
      resolvedScriptId (onDebuggerSetBreakpointByUrl integerEnv sameName
        (.object [(ascii "url", .string (toFileUrl (ascii "/b/index.js")))])).2 =
          .string (ascii "1") := by
  have hscripts : sameName.scripts =
      [scriptNamed "1" "/a/index.js", scriptNamed "2" "/b/index.js"] := rfl
  have hresolve : resolveScript integerEnv (announced (ascii "/b/index.js")) false
      [scriptNamed "1" "/a/index.js", scriptNamed "2" "/b/index.js"] = ascii "1" := by
    decide +kernel
  refine ⟨hscripts, ?_, ?_⟩
  · rw [hscripts]
    decide +kernel
  · have hlocation := @resolvedScriptId_eq integerEnv sameName
      (.object [(ascii "url", .string (toFileUrl (ascii "/b/index.js")))])
      (scriptNamed "2" "/b/index.js") rfl
    have hurl : (scriptNamed "2" "/b/index.js").url = ascii "/b/index.js" := rfl
    rw [hlocation, hscripts, hurl, hresolve]
    rfl

end Cdp

end QjsDebug
