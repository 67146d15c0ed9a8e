/-
# What the script says

`js_console_log` of `main.cpp`, which stands behind `console.log` and four more functions.  A call
prints its arguments on one line of standard output and tells the client of them in an event
`Runtime.consoleAPICalled`.  It converts them twice, once for each.

`JS_ToCString` may run script, so a conversion may call the console again, to any depth, and an
argument may answer otherwise the second time.  A script is told here by its calls, and an argument
by what its two conversions do (`Calls`, `Argv`); either may fail.

* §3  what a script does is a list of entries, lines and events, in order (`Calls.entries`).  Each
      string that `JS_ToCString` hands out is freed (`Calls.enters`).
* §4  a call whose conversions call the console sends its event behind theirs and prints its line
      between them, so that lines and events need not come in the same order.  They are the same
      up to order, if each argument answers as before (`Calls.perm`).
* §5  the same for what a client reads off the wire, however it is cut (`console_heard`).

The clock counts ticks of 100 ns or less in 64 bits, so its milliseconds are a `double`.
-/
import QjsDebug.Cdp.Conversation
import QjsDebug.Lib.Ownership
import QjsDebug.Ws.Handshake

namespace QjsDebug

open ByteStream (Carries)
open Cdp (CdpEvent Env textOf Transmits)
open Json (Value ReadsIntegers)
open Ownership
open Ws (cString readFrames)

namespace Program

/-! ## 1. The code -/

/-- Milliseconds of `system_clock`. -/
abbrev Millis := { n : Int // n.natAbs < 2 ^ 63 / 10 ^ 4 }

/-- Standard output, and the server that `g_cdp` sends with. -/
structure Outlets where
  out : Bytes
  server : Cdp.Server

/-- A piece of the code; its references are the strings of `JS_ToCString`. -/
abbrev Talk (β : Type) := Counting Bytes Outlets β

/-- An argument, by what `JS_ToCString` does the first and the second time. -/
structure Argument where
  first : Talk (Option Bytes)
  second : Talk (Option Bytes)

/-- What is printed of the arguments. -/
def output (texts : List (Option Bytes)) : Bytes :=
  [byte ' '].intercalate (texts.map fun text => text.getD [])

/-- `printf("%s\n", output.c_str())`. -/
def Outlets.print (w : Outlets) (texts : List (Option Bytes)) : Outlets :=
  { w with out := w.out ++ (output texts ++ [byte '\n']) }

/-- An argument in the event. -/
def consoleArg : Option Bytes → Value
  | some text => .ofFields [("type", .lit "string"), ("value", .string text)]
  | none => .ofFields [("type", .lit "undefined")]

/-- `Runtime.consoleAPICalled`. -/
def consoleApiCalled (texts : List (Option Bytes)) (now : Millis) : CdpEvent where
  method := "Runtime.consoleAPICalled"
  params := .ofFields [("type", .lit "log"), ("args", .array (texts.map consoleArg)),
    ("executionContextId", .ofInt 1), ("timestamp", .ofInt now.val)]

section

variable (env : Env)

/-- `g_cdp->send_event`. -/
def Outlets.announce (w : Outlets) (e : CdpEvent) : Outlets :=
  { w with server := w.server.sendEvent env e.method e.params }

/-- `JS_ToCString`, and `JS_FreeCString` when the characters have been copied. -/
def copyText (toCString : Talk (Option Bytes)) : Talk (Option Bytes) := do
  let str ← toCString
  match str with
  | some s =>
    take s
    use s
    give s
    return some (cString s)
  | none => return none

/-- `js_console_log`; `attached` says that `g_cdp` is set. -/
def jsConsoleLog (attached : Bool) (argv : List Argument) (now : Millis) : Talk PUnit := do
  let texts ← argv.mapM' fun arg => copyText arg.first
  plain (modify fun w => w.print texts)
  if attached then
    let texts ← argv.mapM' fun arg => copyText arg.second
    plain (modify fun w => w.announce env (consoleApiCalled texts now))
  else return ⟨⟩

/-! ## 2. Scripts -/

mutual
/-- The calls that a piece of script makes, one after the other. -/
inductive Calls
  | done
  | log (argv : Argv) (now : Millis) (rest : Calls)
/-- Arguments: the calls on the way to each text, and the text, unless the conversion fails; and
the same for the second time. -/
inductive Argv
  | nil
  | cons (first : Calls) (text : Option Bytes) (second : Calls) (again : Option Bytes)
      (rest : Argv)
end

variable (attached : Bool)

mutual
/-- A run of the script. -/
def Calls.run : Calls → Talk PUnit
  | .done => return ⟨⟩
  | .log argv now rest => do
    jsConsoleLog env attached argv.arguments now
    rest.run
def Argv.arguments : Argv → List Argument
  | .nil => []
  | .cons first text second again rest =>
    { first := do
        first.run
        return text
      second := do
        second.run
        return again } :: rest.arguments
end

end

/-- The texts of the first conversions. -/
def Argv.texts : Argv → List (Option Bytes)
  | .nil => []
  | .cons _ text _ _ rest => text.map cString :: rest.texts

/-- The texts of the second conversions. -/
def Argv.again : Argv → List (Option Bytes)
  | .nil => []
  | .cons _ _ _ again rest => again.map cString :: rest.again

mutual
/-- As far as `f` sees, the arguments of every call answer the second time as they did the first. -/
def Calls.Repeat {γ : Type} (f : List (Option Bytes) → γ) : Calls → Prop
  | .done => True
  | .log argv _ rest => f argv.texts = f argv.again ∧ argv.Repeat f ∧ rest.Repeat f
def Argv.Repeat {γ : Type} (f : List (Option Bytes) → γ) : Argv → Prop
  | .nil => True
  | .cons first _ second _ rest => first.Repeat f ∧ second.Repeat f ∧ rest.Repeat f
end

/-- No conversion calls the console. -/
def Argv.Quiet : Argv → Prop
  | .nil => True
  | .cons first _ second _ rest => first = .done ∧ second = .done ∧ rest.Quiet

def Calls.Quiet : Calls → Prop
  | .done => True
  | .log argv _ rest => argv.Quiet ∧ rest.Quiet

/-! ## 3. What a script does -/

/-- A line, or an event. -/
inductive Entry
  | line (texts : List (Option Bytes))
  | event (texts : List (Option Bytes)) (now : Millis)

section

variable (attached : Bool)

mutual
/-- What the calls print and send. -/
def Calls.entries : Calls → List Entry
  | .done => []
  | .log argv now rest =>
    argv.firstEntries ++ .line argv.texts ::
      ((if attached then argv.secondEntries ++ [.event argv.again now] else []) ++ rest.entries)
def Argv.firstEntries : Argv → List Entry
  | .nil => []
  | .cons first _ _ _ rest => first.entries ++ rest.firstEntries
def Argv.secondEntries : Argv → List Entry
  | .nil => []
  | .cons _ _ second _ rest => second.entries ++ rest.secondEntries
end

end

section

variable (env : Env)

def Outlets.enter (w : Outlets) : Entry → Outlets
  | .line texts => w.print texts
  | .event texts now => w.announce env (consoleApiCalled texts now)

/-- `m` returns `b`, makes these entries and nothing else, and gives back what it takes. -/
structure Enters {β : Type} (m : Talk β) (entries : List Entry) (b : β) : Prop where
  outcome : ∀ w, outcome m w = (b, entries.foldl (Outlets.enter env) w)
  settles : ∀ w held, settle held (log m w) = some held

variable {env} {β γ : Type} {m : Talk β} {entries more : List Entry} {b : β} {attached : Bool}

theorem Enters.pure (b : β) : Enters env (Pure.pure b) [] b := ⟨fun _ => rfl, fun _ _ => rfl⟩

theorem Enters.bind {f : β → Talk γ} {c : γ} (hm : Enters env m entries b)
    (hf : Enters env (f b) more c) : Enters env (m >>= f) (entries ++ more) c where
  outcome := by
    intro w
    rw [outcome_bind, hm.outcome, hf.outcome, List.foldl_append]
  settles := by
    intro w held
    rw [log_bind, settle_append, hm.settles, Option.bind_some, hm.outcome, hf.settles]

theorem Enters.before {m : Talk PUnit} {n : Talk γ} {c : γ} (hm : Enters env m entries ⟨⟩)
    (hn : Enters env n more c) : Enters env (do m; n) (entries ++ more) c :=
  hm.bind hn

/-- A step without references. -/
theorem Enters.plain {entry : Entry} {f : Outlets → Outlets} (hf : ∀ w, f w = w.enter env entry) :
    Enters env (plain (modify f)) [entry] ⟨⟩ where
  outcome := fun w => congrArg (Prod.mk _) (hf w)
  settles := fun _ _ => rfl

theorem enters_copyText {toCString : Talk (Option Bytes)} {text : Option Bytes}
    (h : Enters env toCString entries text) :
    Enters env (copyText toCString) entries (text.map cString) := by
  rw [← List.append_nil entries]
  refine h.bind ?_
  cases text with
  | none => exact Enters.pure none
  | some s =>
    refine ⟨fun _ => rfl, fun w held => ?_⟩
    -- taken, used and given back
    have hsettle : settle held [.take s, .use s, .give s] = some ((s ::ₘ held).erase s) := by
      simp [settle, settleOne]
    rw [Multiset.erase_cons_head] at hsettle
    exact hsettle

/-- **One call**, by what its two rounds of conversions say. -/
theorem enters_jsConsoleLog {argv : List Argument} {now : Millis} {firsts seconds : List Entry}
    {texts again : List (Option Bytes)}
    (hfirst : Enters env (argv.mapM' fun arg => copyText arg.first) firsts texts)
    (hsecond : Enters env (argv.mapM' fun arg => copyText arg.second) seconds again) :
    Enters env (jsConsoleLog env attached argv now)
      (firsts ++ .line texts ::
        if attached then seconds ++ [.event again now] else []) ⟨⟩ := by
  unfold jsConsoleLog
  have hprint : Enters env (Ownership.plain (modify fun w => w.print texts)) [.line texts] ⟨⟩ :=
    Enters.plain fun _ => rfl
  refine hfirst.bind (hprint.before ?_)
  cases attached with
  | true => exact hsecond.bind (Enters.plain fun _ => rfl)
  | false => exact Enters.pure _

mutual
/-- **A script does what its entries say**, and frees every string. -/
theorem Calls.enters : (calls : Calls) →
    Enters env (calls.run env attached) (calls.entries attached) ⟨⟩
  | .done => Enters.pure _
  | .log argv now rest => by
    have hcall := @enters_jsConsoleLog env attached _ now _ _ _ _ argv.enters_firsts
      argv.enters_seconds
    have h := hcall.before rest.enters
    rw [List.append_assoc, List.cons_append] at h
    exact h
theorem Argv.enters_firsts : (argv : Argv) →
    Enters env ((argv.arguments env attached).mapM' fun arg => copyText arg.first)
      (argv.firstEntries attached) argv.texts
  | .nil => Enters.pure _
  | .cons first text _ _ rest => by
    have hconvert : Enters env _ (first.entries attached ++ []) text :=
      first.enters.before (Enters.pure text)
    rw [List.append_nil] at hconvert
    refine (enters_copyText hconvert).bind ?_
    rw [← List.append_nil (rest.firstEntries attached)]
    exact rest.enters_firsts.bind (Enters.pure _)
theorem Argv.enters_seconds : (argv : Argv) →
    Enters env ((argv.arguments env attached).mapM' fun arg => copyText arg.second)
      (argv.secondEntries attached) argv.again
  | .nil => Enters.pure _
  | .cons _ _ second again rest => by
    have hconvert : Enters env _ (second.entries attached ++ []) again :=
      second.enters.before (Enters.pure again)
    rw [List.append_nil] at hconvert
    refine (enters_copyText hconvert).bind ?_
    rw [← List.append_nil (rest.secondEntries attached)]
    exact rest.enters_seconds.bind (Enters.pure _)
end

end

/-! ## 4. Lines and events -/

section

variable {γ : Type} (f : List (Option Bytes) → γ)

/-- What `f` sees of the lines. -/
def Entry.printed : Entry → Option γ
  | .line texts => some (f texts)
  | .event _ _ => none

/-- What `f` sees of the events. -/
def Entry.announced : Entry → Option γ
  | .line _ => none
  | .event texts _ => some (f texts)

mutual
/-- **The lines are the events**, up to order. -/
theorem Calls.perm : (calls : Calls) → calls.Repeat f →
    ((calls.entries true).filterMap (Entry.printed f)).Perm
      ((calls.entries true).filterMap (Entry.announced f))
  | .done, _ => .nil
  | .log argv now rest, ⟨hsame, hargv, hrest⟩ => by
    have hfirst := argv.perm_firsts hargv
    have hsecond := argv.perm_seconds hargv
    have hlast := rest.perm hrest
    simp only [Calls.entries, if_true, List.filterMap_append, List.filterMap_cons,
      Entry.printed, Entry.announced, List.filterMap_nil, List.append_nil, hsame] at hlast ⊢
    refine hfirst.append ?_
    -- the line stands in front of the second conversions, its event behind them
    refine (hsecond.append hlast |>.cons _).trans ?_
    rw [List.append_assoc, List.singleton_append]
    exact List.perm_middle.symm
theorem Argv.perm_firsts : (argv : Argv) → argv.Repeat f →
    ((argv.firstEntries true).filterMap (Entry.printed f)).Perm
      ((argv.firstEntries true).filterMap (Entry.announced f))
  | .nil, _ => .nil
  | .cons first _ _ _ rest, ⟨hfirst, _, hrest⟩ => by
    simp only [Argv.firstEntries, List.filterMap_append]
    exact (first.perm hfirst).append (rest.perm_firsts hrest)
theorem Argv.perm_seconds : (argv : Argv) → argv.Repeat f →
    ((argv.secondEntries true).filterMap (Entry.printed f)).Perm
      ((argv.secondEntries true).filterMap (Entry.announced f))
  | .nil, _ => .nil
  | .cons _ _ second _ rest, ⟨_, hsecond, hrest⟩ => by
    simp only [Argv.secondEntries, List.filterMap_append]
    exact (second.perm hsecond).append (rest.perm_seconds hrest)
end

mutual
/-- What sees nothing sees no difference. -/
theorem Calls.repeat_const (c : γ) : (calls : Calls) → calls.Repeat fun _ => c
  | .done => trivial
  | .log argv _ rest => ⟨rfl, argv.repeat_const c, rest.repeat_const c⟩
theorem Argv.repeat_const (c : γ) : (argv : Argv) → argv.Repeat fun _ => c
  | .nil => trivial
  | .cons first _ second _ rest =>
    ⟨first.repeat_const c, second.repeat_const c, rest.repeat_const c⟩
end

/-- **Every line has its event.** -/
theorem Calls.length_announced (calls : Calls) :
    ((calls.entries true).filterMap (Entry.announced f)).length =
      ((calls.entries true).filterMap (Entry.printed f)).length := by
  have hprinted : ∀ entries : List Entry, (entries.filterMap (Entry.printed f)).map (fun _ => ()) =
      entries.filterMap (Entry.printed fun _ => ()) := fun entries => by
    rw [List.map_filterMap]
    exact List.filterMap_congr fun entry _ => by cases entry <;> rfl
  have hannounced : ∀ entries : List Entry,
      (entries.filterMap (Entry.announced f)).map (fun _ => ()) =
        entries.filterMap (Entry.announced fun _ => ()) := fun entries => by
    rw [List.map_filterMap]
    exact List.filterMap_congr fun entry _ => by cases entry <;> rfl
  have hunit := (calls.perm (fun _ => ()) (calls.repeat_const ())).length_eq
  rw [← hprinted, ← hannounced, List.length_map, List.length_map] at hunit
  exact hunit.symm

theorem Argv.Quiet.entries {attached : Bool} : {argv : Argv} → argv.Quiet →
    argv.firstEntries attached = [] ∧ argv.secondEntries attached = []
  | .nil, _ => ⟨rfl, rfl⟩
  | .cons .done _ .done _ _, ⟨rfl, rfl, hrest⟩ => hrest.entries

/-- Where no conversion calls the console, lines and events come in the same order. -/
theorem Calls.Quiet.printed_eq : {calls : Calls} → calls.Quiet → calls.Repeat f →
    (calls.entries true).filterMap (Entry.printed f) =
      (calls.entries true).filterMap (Entry.announced f)
  | .done, _, _ => rfl
  | .log argv now rest, ⟨hquiet, hrest⟩, ⟨hsame, _, hrepeat⟩ => by
    obtain ⟨hfirst, hsecond⟩ := @Argv.Quiet.entries true argv hquiet
    simp only [Calls.entries, hfirst, hsecond, if_true, List.nil_append, List.filterMap_cons,
      List.singleton_append, Entry.printed, Entry.announced, hsame, hrest.printed_eq hrepeat]

end

/-! ## 5. On the wire -/

/-- The message of an event. -/
def Entry.message : Entry → Option Value
  | .line _ => none
  | .event texts now => some (consoleApiCalled texts now).message

/-- What a client reads off an event: the values of its arguments. -/
def heard (msg : Value) : Bytes :=
  match (msg.index (ascii "params")).index (ascii "args") with
  | .array args =>
    [byte ' '].intercalate (args.map fun arg => (arg.index (ascii "value")).getString)
  | _ => []

/-- What is heard is what would be printed. -/
theorem heard_consoleApiCalled (texts : List (Option Bytes)) (now : Millis) :
    heard (consoleApiCalled texts now).message = output texts := by
  have hargs : ((consoleApiCalled texts now).message.index (ascii "params")).index (ascii "args") =
      .array (texts.map consoleArg) := by
    simp only [consoleApiCalled, CdpEvent.message, Value.ofFields, List.foldl_cons, List.foldl_nil]
    simp (disch := decide) only [Value.index_set_of_ne, Value.index_set_self]
  have hvalue : ∀ text : Option Bytes,
      ((consoleArg text).index (ascii "value")).getString = text.getD [] := by
    rintro (_ | text)
    · rfl
    · rw [consoleArg, Value.ofFields, List.foldl_cons, List.foldl_cons, List.foldl_nil,
        Value.index_set_self]
      rfl
  unfold heard output
  rw [hargs]
  simp only [List.map_map, Function.comp_def, hvalue]

theorem map_heard (entries : List Entry) :
    (entries.filterMap Entry.message).map heard = entries.filterMap (Entry.announced output) := by
  rw [List.map_filterMap]
  refine List.filterMap_congr fun entry _ => ?_
  cases entry with
  | line texts => rfl
  | event texts now => exact congrArg some (heard_consoleApiCalled texts now)

section

variable {env : Env}

theorem out_entries (entries : List Entry) (w : Outlets) :
    (entries.foldl (Outlets.enter env) w).out =
      w.out ++ (entries.filterMap (Entry.printed output)).flatMap (· ++ [byte '\n']) := by
  induction entries generalizing w with
  | nil => exact (List.append_nil _).symm
  | cons entry entries ih =>
    rw [List.foldl_cons, ih]
    cases entry with
    | line texts =>
      simp only [Outlets.enter, Outlets.print, Entry.printed, List.filterMap_cons,
        List.flatMap_cons, List.append_assoc]
    | event texts now => rfl

theorem sent_entries (entries : List Entry) (w : Outlets) :
    (entries.foldl (Outlets.enter env) w).server.sent =
      w.server.sent ++ (entries.filterMap Entry.message).map (textOf env) := by
  induction entries generalizing w with
  | nil => exact (List.append_nil _).symm
  | cons entry entries ih =>
    rw [List.foldl_cons, ih]
    cases entry with
    | line texts => rfl
    | event texts now =>
      simp only [Outlets.enter, Outlets.announce, Entry.message, List.filterMap_cons,
        List.map_cons, Cdp.Server.sendEvent, Cdp.Server.send, List.append_assoc,
        List.singleton_append]
      rfl

theorem printable_consoleApiCalled (hstod : ReadsIntegers env.stod) (texts : List (Option Bytes))
    (now : Millis) : Json.Printable env.stod env.fmt17g (consoleApiCalled texts now).message := by
  have harg : ∀ text, Json.Printable env.stod env.fmt17g (consoleArg text) := by
    rintro (_ | text)
    · exact Json.printable_ofFields (List.forall_mem_singleton.mpr (Json.printable_lit _))
    · refine Json.printable_ofFields (List.forall_mem_cons.mpr ⟨Json.printable_lit _, ?_⟩)
      exact List.forall_mem_singleton.mpr (Json.printable_string _)
  have hnow := now.property
  have hparams : Json.Printable env.stod env.fmt17g (consoleApiCalled texts now).params := by
    refine Json.printable_ofFields ?_
    simp only [List.forall_mem_cons, List.not_mem_nil, IsEmpty.forall_iff, implies_true, and_true]
    exact ⟨Json.printable_lit _,
      Json.printable_array (List.forall_mem_map.mpr fun text _ => harg text),
      Json.printable_ofInt hstod (by decide), Json.printable_ofInt hstod (by omega)⟩
  refine Json.printable_ofFields (List.forall_mem_cons.mpr ⟨Json.printable_lit _, ?_⟩)
  exact List.forall_mem_singleton.mpr hparams

end

/-- `console.log(x)` where `x.toString` says "a" and answers "b". -/
def talkative : Calls :=
  let a := Calls.log (.cons .done (some (ascii "a")) .done (some (ascii "a")) .nil) ⟨1, by decide⟩
    .done
  .log (.cons a (some (ascii "b")) a (some (ascii "b")) .nil) ⟨1, by decide⟩ .done

-- the lines are a, b, a and the events a, a, b
example : (outcome (talkative.run Cdp.integerEnv true) ⟨[], Cdp.Server.new⟩).2.out =
    ascii "a\nb\na\n" := by decide +kernel
example : (talkative.entries true).filterMap (Entry.announced output) =
    [ascii "a", ascii "a", ascii "b"] := by decide +kernel

end Program

end QjsDebug
