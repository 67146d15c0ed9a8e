/-
# The announcement of scripts

A script is announced to the client by `Debugger.scriptParsed`, and by two pieces of code:
`add_script` announces the new one when the debugger is enabled, `on_debugger_enable` all there are.
Each builds the parameters for itself, `addScriptParams` and `scriptParsed`.

What makes the two agree over a whole session is that they read the same entry in the same way
(`addScriptParams_eq`), that scripts are only ever appended, each under an id that no other has
(`registered_run`), and that an entry is never changed.  So whatever is announced about an id is
said of one and the same entry, and the entry is found by the id for ever (`scripts_announced`).

* §2  one operation: what it hands to the socket, and what it does to scripts and flag;
* §3  a run: ids, who created a script, what has been announced about it;
* §4  an announcement and the script behind it.
-/
import QjsDebug.Cdp.Replies

namespace QjsDebug

open Json (Value)

namespace Cdp

/-! ## 1. Sequences of operations -/

/-- What happens to the scripts of a session. -/
inductive ScriptOp
  | addScript (url source : Bytes)
  | enable
  | disable
  deriving DecidableEq, Repr

/-- The entry of `add_script` for the `n`-th script. -/
def scriptInfo (n : Int) (url source : Bytes) : Script where
  id := decimal n
  url := normalizeUrl url
  source := source
  sourceMapUrl := extractSourceMapUrl source
  endLine := 1 + source.count (byte '\n')

/-- The parameters of `Debugger.scriptParsed` as `add_script` builds them. -/
def addScriptParams (si : Script) : Value :=
  .ofFields
    [("scriptId", .string si.id), ("url", .string (toFileUrl si.url)), ("startLine", .ofInt 0),
      ("startColumn", .ofInt 0), ("endLine", .ofInt si.endLine), ("endColumn", .ofInt 0),
      ("executionContextId", .ofInt 1), ("hash", .lit ""), ("isLiveEdit", .bool false),
      ("sourceMapURL", .string si.sourceMapUrl), ("hasSourceURL", .bool false),
      ("isModule", .bool false), ("length", .ofInt si.source.length)]

/-- The event of an announcement. -/
def announcement (params : Value) : CdpEvent := ⟨"Debugger.scriptParsed", params⟩

section

variable (env : Env)

def ScriptOp.apply (r : Registry) : ScriptOp → Registry
  | .addScript url source => (Cdp.addScript env r url source).1
  | .enable => { r with server := (onDebuggerEnable env r.server).1 }
  | .disable => { r with server := (onDebuggerDisable r.server).1 }

/-- The parameters of the announcements that an operation makes. -/
def ScriptOp.announces (r : Registry) : ScriptOp → List Value
  | .addScript url source =>
    if r.server.session.enabled then [addScriptParams (scriptInfo r.nextScriptId url source)]
    else []
  | .enable => r.server.scripts.map scriptParsed
  | .disable => []

def runScripts (r : Registry) (ops : List ScriptOp) : Registry := ops.foldl (ScriptOp.apply env) r

/-- The announcements of a sequence, in order. -/
def announcements : Registry → List ScriptOp → List Value
  | _, [] => []
  | r, op :: ops => op.announces r ++ announcements (op.apply env r) ops

/-- Before the first script, the session being in any state. -/
def Registry.starting (session : Session) : Registry :=
  { Registry.new with server := { Server.new with session := session } }

/-! ## 2. One operation -/

/-- **The two copies agree**, field by field. -/
theorem addScriptParams_eq (si : Script) : addScriptParams si = scriptParsed si := rfl

/-- What an operation hands to the socket is its announcements. -/
theorem sent_apply (r : Registry) (op : ScriptOp) :
    (op.apply env r).server.sent = r.server.sent ++
      (op.announces r).map fun params => textOf env (announcement params).message := by
  cases op with
  | addScript url source =>
    simp only [ScriptOp.apply, ScriptOp.announces, addScript]
    split
    · rfl
    · exact (List.append_nil _).symm
  | enable =>
    have h := sent_sendEvents env (r.server.scripts.map fun script =>
      announcement (scriptParsed script))
      { r.server with debuggerEnabled := true, session := r.server.session.setEnabled true }
    rw [List.foldl_map, List.map_map] at h
    simp only [ScriptOp.apply, ScriptOp.announces, List.map_map]
    exact h
  | disable => exact (List.append_nil _).symm

/-- Events change nothing but what has been sent. -/
theorem foldl_sendEvent_fields (scripts : List Script) (s : Server) :
    scripts.foldl
        (fun s script => s.sendEvent env "Debugger.scriptParsed" (scriptParsed script)) s =
      { s with
        sent := (scripts.foldl
          (fun s script => s.sendEvent env "Debugger.scriptParsed" (scriptParsed script))
          s).sent } := by
  induction scripts generalizing s with
  | nil => rfl
  | cons script scripts ih =>
    rw [List.foldl_cons, ih]
    rfl

/-- Scripts are only ever appended. -/
theorem scripts_apply (r : Registry) (op : ScriptOp) :
    (op.apply env r).server.scripts = r.server.scripts ++
      match op with
      | .addScript url source => [scriptInfo r.nextScriptId url source]
      | _ => [] := by
  cases op with
  | addScript url source => exact scripts_addScript env r url source
  | enable =>
    simp only [ScriptOp.apply, onDebuggerEnable, List.append_nil]
    rw [foldl_sendEvent_fields]
  | disable => exact (List.append_nil _).symm

/-- The flag that the announcements of `add_script` depend on. -/
theorem enabled_apply (r : Registry) (op : ScriptOp) :
    (op.apply env r).server.session.enabled =
      match op with
      | .addScript _ _ => r.server.session.enabled
      | .enable => true
      | .disable => false := by
  cases op with
  | addScript url source =>
    simp only [ScriptOp.apply, addScript]
    split <;> rfl
  | enable =>
    simp only [ScriptOp.apply, onDebuggerEnable]
    rw [foldl_sendEvent_fields]
    rfl
  | disable => rfl

/-- Only `add_script` gives an id out. -/
theorem nextScriptId_apply (r : Registry) (op : ScriptOp) :
    (op.apply env r).nextScriptId =
      match op with
      | .addScript _ _ => r.nextScriptId + 1
      | _ => r.nextScriptId := by
  cases op <;> rfl

/-- What an operation announces is there afterwards. -/
theorem mem_scripts_of_announces {r : Registry} {op : ScriptOp} {params : Value}
    (h : params ∈ op.announces r) :
    ∃ s ∈ (op.apply env r).server.scripts, params = scriptParsed s := by
  rw [scripts_apply]
  cases op with
  | addScript url source =>
    simp only [ScriptOp.announces] at h
    split at h
    · rw [List.mem_singleton] at h
      exact ⟨_, List.mem_append_right _ (List.mem_singleton_self _), h⟩
    · exact absurd h List.not_mem_nil
  | enable =>
    obtain ⟨s, hs, rfl⟩ := List.mem_map.mp h
    exact ⟨s, List.mem_append_left _ hs, rfl⟩
  | disable => exact absurd h List.not_mem_nil

/-! ## 3. A run -/

theorem runScripts_append (r : Registry) (ops later : List ScriptOp) :
    runScripts env r (ops ++ later) = runScripts env (runScripts env r ops) later :=
  List.foldl_append

/-- What is registered stays registered, in its place. -/
theorem scripts_run (r : Registry) (ops : List ScriptOp) :
    r.server.scripts <+: (runScripts env r ops).server.scripts := by
  induction ops generalizing r with
  | nil => exact List.prefix_rfl
  | cons op ops ih =>
    have hfirst : r.server.scripts <+: (op.apply env r).server.scripts := by
      rw [scripts_apply]
      exact List.prefix_append _ _
    exact hfirst.trans (ih (op.apply env r))

/-- The ids stay distinct. -/
theorem registered_apply {r : Registry} (h : Registered r) (op : ScriptOp) :
    Registered (op.apply env r) := by
  have hkeep : ∀ r' : Registry, r'.server.scripts = r.server.scripts →
      r'.nextScriptId = r.nextScriptId → Registered r' := by
    intro r' hscripts hnext
    constructor
    · rw [hnext]
      exact h.next_pos
    · rw [hscripts, hnext]
      exact h.ids_given
    · rw [hscripts]
      exact h.ids_nodup
    · rw [hscripts]
      exact h.urls_normalized
  cases op with
  | addScript url source => exact registered_addScript env h url source
  | enable =>
    refine hkeep _ ?_ (nextScriptId_apply env r .enable)
    rw [scripts_apply, List.append_nil]
  | disable =>
    refine hkeep _ ?_ (nextScriptId_apply env r .disable)
    rw [scripts_apply, List.append_nil]

theorem registered_run {r : Registry} (h : Registered r) (ops : List ScriptOp) :
    Registered (runScripts env r ops) := by
  induction ops generalizing r with
  | nil => exact h
  | cons op ops ih => exact ih (registered_apply env h op)

/-- **Who created a script**: an entry that was not there before is the one of an `add_script`
of the run, still as it was made. -/
theorem created_run (r : Registry) (ops : List ScriptOp) {s : Script}
    (hs : s ∈ (runScripts env r ops).server.scripts) :
    s ∈ r.server.scripts ∨ ∃ pre url source post, ops = pre ++ .addScript url source :: post ∧
      s = scriptInfo (runScripts env r pre).nextScriptId url source := by
  induction ops generalizing r with
  | nil => exact .inl hs
  | cons op ops ih =>
    rcases ih (op.apply env r) hs with hs | ⟨pre, url, source, post, rfl, hmade⟩
    · rw [scripts_apply, List.mem_append] at hs
      rcases hs with hs | hs
      · exact .inl hs
      · cases op with
        | addScript url source =>
          exact .inr ⟨[], url, source, ops, rfl, List.mem_singleton.mp hs⟩
        | enable => exact absurd hs List.not_mem_nil
        | disable => exact absurd hs List.not_mem_nil
    · exact .inr ⟨op :: pre, url, source, post, rfl, hmade⟩

/-- What has been announced is registered. -/
theorem mem_scripts_of_announcements {r : Registry} {ops : List ScriptOp} {params : Value}
    (h : params ∈ announcements env r ops) :
    ∃ s ∈ (runScripts env r ops).server.scripts, params = scriptParsed s := by
  induction ops generalizing r with
  | nil => exact absurd h List.not_mem_nil
  | cons op ops ih =>
    rw [announcements, List.mem_append] at h
    rcases h with h | h
    · obtain ⟨s, hs, hparams⟩ := mem_scripts_of_announces env h
      exact ⟨s, (scripts_run env (op.apply env r) ops).subset hs, hparams⟩
    · exact ih h

/-- What a run hands to the socket is its announcements. -/
theorem sent_run (r : Registry) (ops : List ScriptOp) :
    (runScripts env r ops).server.sent = r.server.sent ++
      (announcements env r ops).map fun params => textOf env (announcement params).message := by
  induction ops generalizing r with
  | nil => exact (List.append_nil _).symm
  | cons op ops ih =>
    have hrest : (runScripts env r (op :: ops)).server.sent =
        (runScripts env (op.apply env r) ops).server.sent := rfl
    rw [hrest, ih, sent_apply, announcements, List.map_append, List.append_assoc]

/-- **Nothing is missed.**  From an enabled session on, and as long as it is not disabled, each
script that comes is announced. -/
theorem announced_while_enabled {r : Registry} {ops : List ScriptOp}
    (hen : r.server.session.enabled = true) (hops : .disable ∉ ops) {s : Script}
    (hs : s ∈ (runScripts env r ops).server.scripts) :
    s ∈ r.server.scripts ∨ scriptParsed s ∈ announcements env r ops := by
  induction ops generalizing r with
  | nil => exact .inl hs
  | cons op ops ih =>
    rw [List.mem_cons, not_or] at hops
    obtain ⟨hop, hops⟩ := hops
    rw [announcements, List.mem_append]
    have hen' : (op.apply env r).server.session.enabled = true := by
      rw [enabled_apply]
      cases op with
      | addScript url source => exact hen
      | enable => rfl
      | disable => exact absurd rfl hop
    rcases ih hen' hops hs with hs | hs
    · rw [scripts_apply, List.mem_append] at hs
      rcases hs with hs | hs
      · exact .inl hs
      · cases op with
        | addScript url source =>
          refine .inr (.inl ?_)
          rw [List.mem_singleton.mp hs, ScriptOp.announces, if_pos hen]
          exact List.mem_singleton_self _
        | enable => exact absurd hs List.not_mem_nil
        | disable => exact absurd hs List.not_mem_nil
    · exact .inr (.inr hs)

/-! ## 4. An announcement and its script -/

/-- The id and the last line that an announcement carries. -/
theorem index_scriptId_scriptParsed (s : Script) :
    (scriptParsed s).index (ascii "scriptId") = .string s.id := by
  simp only [scriptParsed, Value.ofFields, List.foldl_cons, List.foldl_nil]
  iterate 12 rw [Value.index_set_of_ne _ _ (by decide)]
  rw [Value.index_set_self]

theorem index_endLine_scriptParsed (s : Script) :
    (scriptParsed s).index (ascii "endLine") = .ofInt s.endLine := by
  simp only [scriptParsed, Value.ofFields, List.foldl_cons, List.foldl_nil]
  iterate 8 rw [Value.index_set_of_ne _ _ (by decide)]
  rw [Value.index_set_self]

/-- Of distinct ids, one belongs to one script. -/
theorem find_by_id {scripts : List Script} (hids : (scripts.map Script.id).Nodup) {s : Script}
    (hs : s ∈ scripts) : scripts.find? (fun script => script.id == s.id) = some s := by
  cases hfind : scripts.find? (fun script => script.id == s.id) with
  | none => exact absurd (List.find?_eq_none.mp hfind s hs) (by simp)
  | some script =>
    have hmem := List.mem_of_find?_eq_some hfind
    have hid := List.find?_some hfind
    rw [List.inj_on_of_nodup_map hids hmem hs (eq_of_beq hid)]

/-- The source of a script, asked for by its id. -/
theorem getScriptSource_of_mem {server : Server} (hids : (server.scripts.map Script.id).Nodup)
    {s : Script} (hs : s ∈ server.scripts) {params : Value}
    (hparams : params.index (ascii "scriptId") = .string s.id) :
    onDebuggerGetScriptSource server params =
      .ofFields [("scriptSource", .string s.source)] := by
  have hhas : params.has (ascii "scriptId") = true := has_of_index (by rw [hparams]; simp)
  have hasked : stringOr params "scriptId" "" = s.id := by
    rw [stringOr, if_pos hhas, hparams]
    rfl
  rw [onDebuggerGetScriptSource, hasked, find_by_id hids hs]

/-- What a client can rely on after a run of operations. -/
structure Faithful (r : Registry) (ops : List ScriptOp) : Prop where
  /-- Ids are told apart. -/
  ids_distinct : ((runScripts env r ops).server.scripts.map Script.id).Nodup
  /-- The announcements, and nothing else, have been handed to the socket in order. -/
  handed_over : (runScripts env r ops).server.sent = r.server.sent ++
    (announcements env r ops).map fun params => textOf env (announcement params).message
  /-- Since the last `Debugger.enable` every script has been announced. -/
  covered : ∀ pre mid, ops = pre ++ .enable :: mid → .disable ∉ mid →
    ∀ s ∈ (runScripts env r ops).server.scripts,
      scriptParsed s ∈ announcements env (runScripts env r pre) (.enable :: mid)
  /-- An announcement is about a script that was added, and its source is found by its id. -/
  announced : ∀ params ∈ announcements env r ops, ∃ pre url source post,
    ops = pre ++ .addScript url source :: post ∧
      params.index (ascii "scriptId") =
        .string (addScript env (runScripts env r pre) url source).2 ∧
      params.index (ascii "endLine") = .ofInt (1 + source.count (byte '\n')) ∧
      ∀ asked : Value, asked.index (ascii "scriptId") = params.index (ascii "scriptId") →
        onDebuggerGetScriptSource (runScripts env r ops).server asked =
          .ofFields [("scriptSource", .string source)]
  /-- All announcements for an id are the same, whoever made them. -/
  agree : ∀ params ∈ announcements env r ops, ∀ params' ∈ announcements env r ops,
    params.index (ascii "scriptId") = params'.index (ascii "scriptId") → params = params'

theorem announcements_agree {r : Registry} {ops : List ScriptOp}
    (hids : ((runScripts env r ops).server.scripts.map Script.id).Nodup) {params params' : Value}
    (h : params ∈ announcements env r ops) (h' : params' ∈ announcements env r ops)
    (hid : params.index (ascii "scriptId") = params'.index (ascii "scriptId")) :
    params = params' := by
  obtain ⟨s, hs, rfl⟩ := mem_scripts_of_announcements env h
  obtain ⟨s', hs', rfl⟩ := mem_scripts_of_announcements env h'
  rw [index_scriptId_scriptParsed, index_scriptId_scriptParsed, Value.string.injEq] at hid
  rw [List.inj_on_of_nodup_map hids hs hs' hid]

/-- **Scripts are announced faithfully**: for every sequence of `add_script`, `Debugger.enable`
and `Debugger.disable`, from a session in any state that has no scripts yet. -/
theorem scripts_announced (session : Session) (ops : List ScriptOp) :
    Faithful env (Registry.starting session) ops := by
  have hstart : Registered (Registry.starting session) :=
    ⟨registered_new.next_pos, registered_new.ids_given, registered_new.ids_nodup,
      registered_new.urls_normalized⟩
  have hids := (registered_run env hstart ops).ids_nodup
  constructor
  · exact hids
  · exact sent_run env _ ops
  · rintro pre mid rfl hmid s hs
    rw [runScripts_append] at hs
    rw [announcements, List.mem_append]
    -- the enable itself announces what is there, and leaves the session enabled
    have hen := enabled_apply env (runScripts env (Registry.starting session) pre) .enable
    rcases announced_while_enabled env hen hmid hs with hs | hs
    · rw [scripts_apply, List.append_nil] at hs
      exact .inl (List.mem_map_of_mem hs)
    · exact .inr hs
  · intro params hparams
    obtain ⟨s, hs, rfl⟩ := mem_scripts_of_announcements env hparams
    rcases created_run env _ ops hs with hnone | ⟨pre, url, source, post, hops, rfl⟩
    · exact absurd hnone List.not_mem_nil
    · refine ⟨pre, url, source, post, hops, ?_, ?_, ?_⟩
      · exact index_scriptId_scriptParsed _
      · exact index_endLine_scriptParsed _
      · intro asked hasked
        rw [index_scriptId_scriptParsed] at hasked
        exact getScriptSource_of_mem hids hs hasked
  · intro params h params' h' hid
    exact announcements_agree env hids h h' hid

end

end Cdp

end QjsDebug
