/-
# Breakpoints on announced scripts

A client sets a breakpoint by the URL that `scriptParsed` announced.  On its way into the table
that URL passes through `to_file_url`, the prefix strip of the CDP handler, which takes the
leading slash of a POSIX path with it, and `normalize_url`; what it is later compared with is
the engine's own file name.

`announced_spec` follows it once for every shape of path: what arrives is the normalized path
without a prefix that ends in a slash.  So the substring rule always finds it
(`announced_breakpoint_hits`).  On a POSIX build the rules of `plainHit` come to equal base names
or one path inside the other, which different scripts can have (`url_breakpoint_hits_iff`).
-/
import QjsDebug.Cdp.Handler

namespace QjsDebug

open Json (Value)

/-! ## 1. Strings -/

/-- What stands before a slash does not matter to the base name. -/
theorem baseName_append_slash (p b : Bytes) : baseName (p ++ byte '/' :: b) = baseName b := by
  have hstop : ∀ (l r : Bytes), (l ++ byte '/' :: r).takeWhile (fun c => c != byte '/') =
      l.takeWhile fun c => c != byte '/' := by
    intro l r
    induction l with
    | nil => simp
    | cons c l ih =>
      rw [List.cons_append, List.takeWhile_cons, List.takeWhile_cons, ih]
  unfold baseName
  rw [List.reverse_append, List.reverse_cons, List.append_assoc, List.singleton_append, hstop]

theorem toLower_append (a b : Bytes) : toLower (a ++ b) = toLower a ++ toLower b := by
  simp [toLower]

/-- A part stays a part without regard to case. -/
theorem toLower_part {a b : Bytes} (h : a <:+: b) : toLower a <:+: toLower b := by
  obtain ⟨p, q, rfl⟩ := h
  exact ⟨toLower p, toLower q, by rw [toLower_append, toLower_append]⟩

theorem contains_iff {s t : Bytes} : contains s t = true ↔ t <:+: s := by
  simp [contains]

/-- A part at the end of a normalized path is normalized. -/
theorem normalizeUrl_of_append {p b norm : Bytes} (hnorm : normalizeUrl norm = norm)
    (h : norm = p ++ b) : normalizeUrl b = b := by
  subst h
  simp only [normalizeUrl, List.map_append] at hnorm
  exact (List.append_inj hnorm (by simp)).2

/-! ## 2. The URL that comes back -/

namespace Cdp

/-- What the strip of the CDP handler leaves of the URL announced for a script. -/
def announced (url : Bytes) : Bytes := stripFileScheme (toFileUrl url)

/-- **The way of an announced URL.**  The strip leaves the normalized path, or what stands behind
one of its slashes. -/
theorem announced_spec (url : Bytes) :
    announced url = normalizeUrl url ∨ ∃ p, normalizeUrl url = p ++ byte '/' :: announced url := by
  have hdrop : ∀ (scheme norm : Bytes) (n : Nat), scheme.take n ++ [byte '/'] = scheme →
      scheme <+: norm → ∃ p, norm = p ++ byte '/' :: norm.drop scheme.length := by
    intro scheme norm n hscheme hpre
    obtain ⟨rest, rfl⟩ := hpre
    refine ⟨scheme.take n, ?_⟩
    rw [List.drop_left, ← List.singleton_append, ← List.append_assoc, hscheme]
  unfold announced toFileUrl
  simp only
  generalize normalizeUrl url = norm
  by_cases hfile : ascii "file://" <+: norm
  · -- already a file URL
    have hpre : (ascii "file://").isPrefixOf norm = true := List.isPrefixOf_iff_prefix.mpr hfile
    rw [if_pos hpre]
    unfold stripFileScheme
    split
    · rename_i hthree
      exact .inr (hdrop (ascii "file:///") norm 7 (by decide) hthree)
    · exact .inr (hdrop (ascii "file://") norm 6 (by decide) hfile)
  · have hpre : ¬ (ascii "file://").isPrefixOf norm = true := by
      rw [List.isPrefixOf_iff_prefix]
      exact hfile
    have hplain : stripFileScheme norm = norm := by
      have hthree : ¬ ascii "file:///" <+: norm := by
        intro h
        exact hfile (List.IsPrefix.trans (by decide) h)
      rw [stripFileScheme, if_neg hthree, if_neg hfile]
    have hslashes : ∀ rest, stripFileScheme (ascii "file://" ++ byte '/' :: rest) = rest := by
      intro rest
      have hthree : ascii "file:///" <+: ascii "file://" ++ byte '/' :: rest := ⟨rest, rfl⟩
      rw [stripFileScheme, if_pos hthree]
      rfl
    rw [if_neg hpre]
    cases norm with
    | nil => exact .inl hplain
    | cons c rest =>
      simp only
      split
      · rename_i hslash
        rw [hslash, hslashes]
        exact .inr ⟨[], rfl⟩
      · split
        · rw [hslashes]
          exact .inl rfl
        · exact .inl hplain

/-- It is a part of the path, with the same base name, and normalizing it again changes
nothing. -/
theorem announced_part (url : Bytes) : announced url <:+: normalizeUrl url := by
  rcases announced_spec url with h | ⟨p, h⟩
  · rw [h]
  · rw [h]
    exact ⟨p ++ [byte '/'], [], by simp⟩

theorem baseName_announced (url : Bytes) :
    baseName (announced url) = baseName (normalizeUrl url) := by
  rcases announced_spec url with h | ⟨p, h⟩
  · rw [h]
  · rw [h, baseName_append_slash]

theorem normalizeUrl_announced (url : Bytes) : normalizeUrl (announced url) = announced url := by
  rcases announced_spec url with h | ⟨p, h⟩
  · rw [h]
    exact normalizeUrl_idem url
  · refine normalizeUrl_of_append (p := p ++ [byte '/']) (normalizeUrl_idem url) ?_
    rw [h]
    simp

/-! ## 3. The table after later commands -/

/-- What a command of the client does to the breakpoint table. -/
inductive TableOp
  | set (url : Bytes) (line column : Int) (isRegex : Bool) (condition : Bytes)
  | remove (id : Int)
  | activate (active : Bool)

def TableOp.apply (s : Session) : TableOp → Session
  | .set url line column isRegex condition => s.setBreakpoint url line column isRegex condition
  | .remove id => s.removeBreakpoint id
  | .activate active => s.setBreakpointsActive active

/-- The command that a method call is, if it is one. -/
def tableOp (method : Bytes) (params : Value) : Option TableOp :=
  if method = ascii "Debugger.setBreakpointByUrl" then
    let isRegex := !params.has (ascii "url") && params.has (ascii "urlRegex")
    let url :=
      if params.has (ascii "url") then stripFileScheme (params.index (ascii "url")).getString
      else if params.has (ascii "urlRegex") then (params.index (ascii "urlRegex")).getString
      else []
    some (.set url (intOrZero params "lineNumber") (intOrZero params "columnNumber") isRegex
      (stringOr params "condition" ""))
  else if method = ascii "Debugger.removeBreakpoint" then
    (stoi (stringOr params "breakpointId" "")).toOption.map .remove
  else if method = ascii "Debugger.setBreakpointsActive" then
    some (.activate
      (if params.has (ascii "active") then (params.index (ascii "active")).getBool else true))
  else none

/-- The part of a session that the commands change. -/
def table (s : Session) : List (Int × Breakpoint) × Int × Bool :=
  (s.breakpoints, s.nextBpId, s.bpActive)

def applyOp (s : Session) (op : Option TableOp) : Session := (op.map (·.apply s)).getD s

theorem session_sendEvents (env : Env) (scripts : List Script) (s : Server) :
    (scripts.foldl (fun s script => s.sendEvent env "Debugger.scriptParsed" (scriptParsed script))
      s).session = s.session := by
  induction scripts generalizing s with
  | nil => rfl
  | cons script scripts ih =>
    rw [List.foldl_cons, ih]
    rfl

theorem table_onDebuggerEnable (env : Env) (s : Server) :
    table (onDebuggerEnable env s).1.session = table s.session := by
  unfold onDebuggerEnable
  simp only [session_sendEvents]
  rfl

/-- One comparison of the chain of `handle_message`. -/
theorem table_ite {c : Prop} [Decidable c] {a b : Server × Value}
    {t : List (Int × Breakpoint) × Int × Bool} (ha : c → table a.1.session = t)
    (hb : table b.1.session = t) : table (if c then a else b).1.session = t := by
  split
  · exact ha ‹_›
  · exact hb

/-- **A method call acts on the table as its command**, and not at all when it is none. -/
theorem table_dispatch (env : Env) (s : Server) (method : Bytes) (params : Value) :
    table (dispatch env s method params).1.session =
      table (applyOp s.session (tableOp method params)) := by
  by_cases hset : method = ascii "Debugger.setBreakpointByUrl"
  · subst hset
    rfl
  by_cases hremove : method = ascii "Debugger.removeBreakpoint"
  · subst hremove
    have hop : tableOp (ascii "Debugger.removeBreakpoint") params =
        (stoi (stringOr params "breakpointId" "")).toOption.map .remove := rfl
    have hrun : (dispatch env s (ascii "Debugger.removeBreakpoint") params).1.session =
        removeBreakpoint s.session (stringOr params "breakpointId" "") := rfl
    rw [hop, hrun, removeBreakpoint]
    cases stoi (stringOr params "breakpointId" "") <;> rfl
  by_cases hactive : method = ascii "Debugger.setBreakpointsActive"
  · subst hactive
    rfl
  · have hop : tableOp method params = none := by
      simp only [tableOp, hset, hremove, hactive, if_false]
    rw [hop]
    unfold dispatch
    -- the comparisons up to the three commands, in the order of the source
    refine table_ite (fun _ => table_onDebuggerEnable env s) ?_
    refine table_ite (fun _ => rfl) (table_ite (fun h => absurd h hset) ?_)
    refine table_ite (fun h => absurd h hremove) (table_ite (fun _ => rfl) ?_)
    refine table_ite (fun _ => rfl) (table_ite (fun _ => rfl) (table_ite (fun _ => rfl) ?_))
    refine table_ite (fun _ => rfl) (table_ite (fun _ => rfl) ?_)
    refine table_ite (fun h => absurd h hactive) ?_
    -- no method behind them touches the session's table
    repeat' apply table_ite
    all_goals first
      | exact fun _ => rfl
      | rfl

/-- The method and the parameters of a message, as `handle_message` reads them off. -/
def methodOf (msg : Value) : Bytes := stringOr msg "method" ""

def paramsOf (msg : Value) : Value :=
  if msg.has (ascii "params") then msg.index (ascii "params") else .object []

/-- The command that a message is, if it is one. -/
def messageOp (msg : Value) : Option TableOp :=
  if msg.isObject then tableOp (methodOf msg) (paramsOf msg) else none

theorem table_handleParsed (env : Env) (s : Server) (msg : Value) :
    table (handleParsed env s msg).session = table (applyOp s.session (messageOp msg)) := by
  unfold handleParsed messageOp
  by_cases hobj : msg.isObject = true
  · rw [if_pos hobj, if_pos hobj]
    have h := table_dispatch env s (methodOf msg) (paramsOf msg)
    simp only
    split
    · exact h
    · exact h
  · rw [if_neg hobj, if_neg hobj]
    rfl

/-- The messages of a client, handled one after the other. -/
def handleAll (env : Env) (s : Server) (msgs : List Value) : Server :=
  msgs.foldl (handleParsed env) s

/-- An entry stays in the table as long as it is not removed: the ids of new ones are larger. -/
theorem mem_breakpoints_apply {s : Session} {id : Int} {bp : Breakpoint} {op : TableOp}
    (hmem : (id, bp) ∈ s.breakpoints) (hid : id < s.nextBpId) (hop : op ≠ .remove id) :
    (id, bp) ∈ (op.apply s).breakpoints ∧ id < (op.apply s).nextBpId := by
  cases op with
  | set url line column isRegex condition =>
    refine ⟨SortedMap.mem_insert_of_ne (ne_of_lt hid) hmem, ?_⟩
    simp only [TableOp.apply, Session.setBreakpoint]
    omega
  | remove id' =>
    have hne : id' ≠ id := by
      rintro rfl
      exact hop rfl
    exact ⟨SortedMap.mem_erase_of_ne hne hmem, hid⟩
  | activate active => exact ⟨hmem, hid⟩

/-- ... and through all messages that do not remove it. -/
theorem mem_breakpoints_handleAll (env : Env) {s : Server} {id : Int} {bp : Breakpoint}
    {msgs : List Value} (hmem : (id, bp) ∈ s.session.breakpoints)
    (hid : id < s.session.nextBpId)
    (hkept : ∀ msg ∈ msgs, messageOp msg ≠ some (.remove id)) :
    (id, bp) ∈ (handleAll env s msgs).session.breakpoints := by
  induction msgs generalizing s with
  | nil => exact hmem
  | cons msg msgs ih =>
    obtain ⟨hmsg, hmsgs⟩ := List.forall_mem_cons.mp hkept
    have htable := table_handleParsed env s msg
    simp only [table, Prod.mk.injEq] at htable
    obtain ⟨hbps, hnext, -⟩ := htable
    have hafter : (id, bp) ∈ (applyOp s.session (messageOp msg)).breakpoints ∧
        id < (applyOp s.session (messageOp msg)).nextBpId := by
      cases hop : messageOp msg with
      | none => exact ⟨hmem, hid⟩
      | some op =>
        refine mem_breakpoints_apply hmem hid ?_
        rintro rfl
        exact hmsg hop
    exact ih (hbps ▸ hafter.1) (hnext ▸ hafter.2) hmsgs

/-! ## 4. An announced breakpoint hits -/

theorem has_of_index {params : Value} {key : Bytes} (h : params.index key ≠ .null) :
    params.has key = true := by
  cases params with
  | object kvs =>
    simp only [Value.index, Value.has] at h ⊢
    cases hf : SortedMap.find key kvs with
    | none => simp [hf] at h
    | some v => rfl
  | _ => exact absurd rfl h

/-- The breakpoint that `setBreakpointByUrl` makes of the URL announced for a script. -/
def announcedBreakpoint (s : Session) (url : Bytes) (params : Value) : Breakpoint where
  id := s.nextBpId
  url := announced url
  line := intOrZero params "lineNumber" + 1
  column := intOrZero params "columnNumber"
  enabled := true
  isRegex := false
  condition := stringOr params "condition" ""

/-- What `setBreakpointByUrl` does to the session. -/
theorem session_onDebuggerSetBreakpointByUrl (env : Env) (s : Server) {params : Value} {url : Bytes}
    (hurl : params.index (ascii "url") = .string (toFileUrl url)) :
    (onDebuggerSetBreakpointByUrl env s params).1.session =
      { s.session with
        nextBpId := s.session.nextBpId + 1
        breakpoints := SortedMap.insert s.session.nextBpId
          (announcedBreakpoint s.session url params) s.session.breakpoints } := by
  have hhas : params.has (ascii "url") = true := has_of_index (by rw [hurl]; simp)
  have hplain : normalizeUrl (stripFileScheme (toFileUrl url)) = announced url :=
    normalizeUrl_announced url
  simp only [onDebuggerSetBreakpointByUrl, setBreakpointByUrl, hhas, hurl, Value.getString, if_true,
    Bool.not_true, Bool.false_and, Session.setBreakpoint, Bool.false_eq_true, if_false, hplain,
    announcedBreakpoint]

/-- It hits on its line, where plain matching does. -/
theorem hits_announcedBreakpoint (host : Host) (s : Session) (url : Bytes) (params : Value)
    (filename : Bytes) (line : Int) :
    (announcedBreakpoint s url params).hits host filename line = true ↔
      line = intOrZero params "lineNumber" + 1 ∧
        plainHit host (announced url) (normalizeUrl filename) (baseName (normalizeUrl filename)) =
          true := by
  simp only [Breakpoint.hits, Bool.and_eq_true, decide_eq_true_eq]
  simp only [announcedBreakpoint, Bool.false_and, Bool.false_or]
  exact and_congr_left fun _ => eq_comm

/-- An announced URL is found in the file name it was made of. -/
theorem plainHit_announced (host : Host) (p : Bytes) :
    plainHit host (announced (normalizeUrl p)) (normalizeUrl p) (baseName (normalizeUrl p)) =
      true := by
  have hpart := announced_part (normalizeUrl p)
  rw [normalizeUrl_idem] at hpart
  have hcontains := contains_iff.mpr (toLower_part hpart)
  simp [plainHit, hcontains]

/-- **A breakpoint set on an announced script always hits it.**  For every path, line and state
of the debugger: after `setBreakpointByUrl` with the URL announced for the path, and any
messages behind it that do not remove this breakpoint, `check_breakpoint` finds the line
wherever breakpoints are active. -/
theorem announced_breakpoint_hits (env : Env) (s : Server) (p : Bytes) {line : Int}
    (hline₁ : 1 ≤ line) (hline₂ : line < 2 ^ 31) {params : Value}
    (hurl : params.index (ascii "url") = .string (toFileUrl (normalizeUrl p)))
    (hlineNumber : params.index (ascii "lineNumber") = .ofInt (line - 1)) {later : List Value}
    (hkept : ∀ msg ∈ later, messageOp msg ≠ some (.remove s.session.nextBpId))
    (hactive :
      (handleAll env (onDebuggerSetBreakpointByUrl env s params).1 later).session.bpActive = true) :
    checkBreakpoint env.host
      (handleAll env (onDebuggerSetBreakpointByUrl env s params).1 later).session p line =
        true := by
  have hset := session_onDebuggerSetBreakpointByUrl env s hurl
  have hhas : params.has (ascii "lineNumber") = true := has_of_index (by
    rw [hlineNumber]
    simp [Value.ofInt])
  have hnumber : intOrZero params "lineNumber" = line - 1 := by
    simp only [intOrZero, hhas, hlineNumber, if_true, Value.ofInt, Value.getInt, Value.getNumber,
      Rat.num_intCast, Rat.den_intCast, Nat.cast_one, Int.tdiv_one]
    rw [if_pos (by omega)]
  have hmem : (s.session.nextBpId, announcedBreakpoint s.session (normalizeUrl p) params) ∈
      (onDebuggerSetBreakpointByUrl env s params).1.session.breakpoints := by
    rw [hset]
    exact SortedMap.mem_insert_self _ _ _
  have hid : s.session.nextBpId <
      (onDebuggerSetBreakpointByUrl env s params).1.session.nextBpId := by
    rw [hset]
    exact Int.lt_succ _
  have hhit : (announcedBreakpoint s.session (normalizeUrl p) params).hits env.host p line =
      true := by
    rw [hits_announcedBreakpoint]
    exact ⟨by omega, plainHit_announced env.host p⟩
  rw [checkBreakpoint_iff]
  refine ⟨hactive, ?_⟩
  exact List.ne_nil_of_mem
    (List.mem_filter.mpr ⟨mem_breakpoints_handleAll env hmem hid hkept, by rw [hhit]; rfl⟩)

/-- The parameters of a breakpoint on the third line of a script on a drive. -/
def driveParams : Value :=
  .ofFields [("url", .string (ascii "file:///c:/src/a.js")), ("lineNumber", .ofInt 2)]

/-- A message that removes another breakpoint. -/
def removeSecond : Value :=
  .ofFields [("method", .lit "Debugger.removeBreakpoint"),
    ("params", .ofFields [("breakpointId", .lit "2:0:0")])]

/-- The rule at a drive-letter path with backslashes. -/
theorem announced_breakpoint_hits_drive :
    checkBreakpoint integerEnv.host
      (handleAll integerEnv (onDebuggerSetBreakpointByUrl integerEnv Server.new driveParams).1
        [removeSecond]).session (ascii "c:\\src\\a.js") 3 = true := by
  refine announced_breakpoint_hits integerEnv Server.new (ascii "c:\\src\\a.js") (by decide)
    (by decide) rfl rfl ?_ rfl
  intro msg hmsg h
  have hother : messageOp removeSecond = some (.remove 2) := rfl
  rw [List.mem_singleton.mp hmsg, hother] at h
  exact absurd h (by simp [Server.new, Session.new])

/-! ## 5. What else it hits -/

/-- Up to the letters' case, plain matching on a POSIX build is by base name or by one path
inside the other: the exact comparison adds nothing. -/
theorem plainHit_iff {host : Host} (hposix : host.windows = false) (url norm : Bytes) :
    plainHit host url norm (baseName norm) = true ↔
      baseName norm = baseName url ∨ toLower url <:+: toLower norm ∨
        toLower norm <:+: toLower url := by
  simp only [plainHit, pathsMatch, hposix, Bool.false_eq_true, if_false, Bool.or_eq_true,
    beq_iff_eq, contains_iff]
  constructor
  · rintro (((rfl | hbase) | hin) | hin)
    · exact .inl rfl
    · exact .inl hbase
    · exact .inr (.inl hin)
    · exact .inr (.inr hin)
  · rintro (hbase | hin | hin)
    · exact .inl (.inl (.inr hbase))
    · exact .inl (.inr hin)
    · exact .inr hin

/-- **Where the only breakpoint of a table stops.**  Set by the URL announced for `s`, it stops
in a script `t` exactly on its line, and if the two have the same base name or one of their
paths is found in the other without regard to case, the one of `s` without scheme and leading
slash. -/
theorem url_breakpoint_hits_iff (env : Env) (hposix : env.host.windows = false) (srv : Server)
    (hempty : srv.session.breakpoints = []) (s t : Script) (hs : normalizeUrl s.url = s.url)
    (ht : normalizeUrl t.url = t.url) {params : Value}
    (hurl : params.index (ascii "url") = .string (toFileUrl s.url)) (line : Int) :
    checkBreakpoint env.host (onDebuggerSetBreakpointByUrl env srv params).1.session t.url line =
        true ↔
      srv.session.bpActive = true ∧ line = intOrZero params "lineNumber" + 1 ∧
        (baseName t.url = baseName s.url ∨ toLower (announced s.url) <:+: toLower t.url ∨
          toLower t.url <:+: toLower (announced s.url)) := by
  have hset := session_onDebuggerSetBreakpointByUrl env srv hurl
  have hbase : baseName (announced s.url) = baseName s.url := by
    rw [baseName_announced, hs]
  have hhit := hits_announcedBreakpoint env.host srv.session s.url params t.url line
  rw [ht, plainHit_iff hposix, hbase] at hhit
  rw [checkBreakpoint_iff, ← hhit, hset, hempty]
  refine and_congr_right fun _ => ?_
  constructor
  · intro hne
    obtain ⟨q, hq⟩ := List.exists_mem_of_ne_nil _ hne
    obtain ⟨hmem, hq⟩ := List.mem_filter.mp hq
    rw [List.mem_singleton.mp hmem] at hq
    exact (Bool.and_eq_true_iff.mp hq).2
  · intro h
    exact List.ne_nil_of_mem (List.mem_filter.mpr ⟨List.mem_singleton.mpr rfl, by rw [h]; rfl⟩)

/-- A script that is only a name. -/
def scriptNamed (id url : String) : Script where
  id := ascii id
  url := ascii url
  source := []
  sourceMapUrl := []
  endLine := 1

/-- Two folders with an `index.js` each. -/
def twoIndexes : Server :=
  { Server.new with scripts := [scriptNamed "1" "/a/index.js", scriptNamed "2" "/b/index.js"] }

/-- A breakpoint on the third line of the first of them. -/
def indexParams : Value :=
  .ofFields [("url", .string (toFileUrl (ascii "/a/index.js"))), ("lineNumber", .ofInt 2)]

/-- The rule at two scripts of different names. -/
theorem url_breakpoint_hits_iff_names :
    checkBreakpoint posixHost
        (onDebuggerSetBreakpointByUrl integerEnv twoIndexes indexParams).1.session
        (ascii "/b/main.js") 3 = true ↔
      twoIndexes.session.bpActive = true ∧ (3 : Int) = 2 + 1 ∧
        (ascii "main.js" = ascii "index.js" ∨
          ascii "a/index.js" <:+: ascii "/b/main.js" ∨
          ascii "/b/main.js" <:+: ascii "a/index.js") :=
  url_breakpoint_hits_iff integerEnv rfl twoIndexes rfl (scriptNamed "1" "/a/index.js")
    (scriptNamed "2" "/b/main.js") rfl rfl rfl 3

/-- **Two files of one name.**  Both URLs are absolute and normalized, and the breakpoint of the
one stops in the other. -/
theorem same_name_breakpoint_hits :
    twoIndexes.scripts.map (·.url) = [ascii "/a/index.js", ascii "/b/index.js"] ∧
      (∀ script ∈ twoIndexes.scripts, normalizeUrl script.url = script.url) ∧
      (onDebuggerSetBreakpointByUrl integerEnv twoIndexes
        indexParams).1.session.breakpoints.length = 1 ∧
      checkBreakpoint posixHost
        (onDebuggerSetBreakpointByUrl integerEnv twoIndexes indexParams).1.session
        (ascii "/b/index.js") 3 = true := by
  refine ⟨rfl, by decide, rfl, rfl⟩

end Cdp

end QjsDebug
