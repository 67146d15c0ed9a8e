/-
# The discovery document

What the server sends for `/json` and `/json/list` is printed into a buffer of 2048 bytes, the
target's name and URL as they are.  `main` passes the path of the script, its backslashes turned
into slashes, and the URL that `to_file_url` makes of it.

`Describes` is what the document is for: a JSON text, with these strings in it.  The document has no
backslash, so no string of it is escaped; and cut off it is no JSON text.  So it says what it should
exactly for names that need no escape, in UTF-8, and short enough (`discovery_faithful_iff`).
-/
import Mathlib.Data.List.TakeWhile
import QjsDebug.Json.Parts
import QjsDebug.Ws.Accept

namespace QjsDebug.Ws

open Json

/-! ## 1. The document's purpose -/

/-- The server, waiting for a connection to debug the script at `path`. -/
def Acceptor.serving (a : Acceptor) (path : Bytes) : Acceptor :=
  { a with targetName := normalizeUrl path, targetUrl := toFileUrl (normalizeUrl path) }

/-- The body is a JSON text, an array of one object, which gives the name, the URL and the port of
the server's target. -/
def Describes (stod : Bytes → Except Exn Double) (a : Acceptor) (body : Bytes) : Prop :=
  ∃ target, RendersText RendersChars (RendersNumber stod) (.array [target]) body ∧
    target.index (ascii "title") = .string a.targetName ∧
    target.index (ascii "url") = .string a.targetUrl ∧
    target.index (ascii "webSocketDebuggerUrl") =
      .string (ascii "ws://127.0.0.1:" ++ decimal a.port ++ ascii "/debug")

/-- A reader of the body gets the name and the URL back. -/
theorem Describes.parse {stod : Bytes → Except Exn Double} {a : Acceptor} {body : Bytes}
    (h : Describes stod a body) : ∃ target, Json.parse stod body = .ok (.array [target]) ∧
      target.index (ascii "title") = .string a.targetName ∧
      target.index (ascii "url") = .string a.targetUrl := by
  obtain ⟨target, htext, htitle, hurl, -⟩ := h
  exact ⟨target, parse_document htext, htitle, hurl⟩

/-! ## 2. The document as an object -/

/-- `"key":"value"`. -/
def memberText (m : Bytes × Bytes) : Bytes :=
  byte '"' :: (m.1 ++ byte '"' :: byte ':' :: byte '"' :: (m.2 ++ [byte '"']))

/-- Members, separated by commas. -/
def membersText : List (Bytes × Bytes) → Bytes
  | [] => []
  | [m] => memberText m
  | m :: ms => memberText m ++ byte ',' :: membersText ms

/-- What the format string spells. -/
def discoveryFields (a : Acceptor) : List (Bytes × Bytes) :=
  [(ascii "description", ascii "QuickJS instance"),
    (ascii "devtoolsFrontendUrl", ascii "devtools://devtools/bundled/js_app.html" ++
      ascii "?experiments=true&v8only=true&ws=127.0.0.1:" ++ decimal a.port ++ ascii "/debug"),
    (ascii "id", ascii "main"),
    (ascii "title", cString a.targetName),
    (ascii "type", ascii "node"),
    (ascii "url", cString a.targetUrl),
    (ascii "webSocketDebuggerUrl",
      ascii "ws://127.0.0.1:" ++ decimal a.port ++ ascii "/debug")]

theorem discoveryText_eq (a : Acceptor) : discoveryText a =
    byte '[' :: byte '{' :: (membersText (discoveryFields a) ++ [byte '}', byte ']']) := by
  have hstart : ascii "[\x7b\"description\":\"QuickJS instance\"," = byte '[' :: byte '{' ::
      (memberText (ascii "description", ascii "QuickJS instance") ++ [byte ',']) := by
    decide +kernel
  have hfrontend : ascii "\"devtoolsFrontendUrl\":\"devtools://devtools/bundled/js_app.html" =
      byte '"' :: (ascii "devtoolsFrontendUrl" ++ byte '"' :: byte ':' :: byte '"' ::
        ascii "devtools://devtools/bundled/js_app.html") := by decide +kernel
  have htitle : ascii "/debug\",\"id\":\"main\",\"title\":\"" =
      ascii "/debug" ++ byte '"' :: byte ',' :: (memberText (ascii "id", ascii "main") ++
        byte ',' :: byte '"' :: (ascii "title" ++ [byte '"', byte ':', byte '"'])) := by
    decide +kernel
  have hurl : ascii "\",\"type\":\"node\",\"url\":\"" =
      byte '"' :: byte ',' :: (memberText (ascii "type", ascii "node") ++
        byte ',' :: byte '"' :: (ascii "url" ++ [byte '"', byte ':', byte '"'])) := by
    decide +kernel
  have hsocket : ascii "\",\"webSocketDebuggerUrl\":\"ws://127.0.0.1:" =
      byte '"' :: byte ',' :: byte '"' :: (ascii "webSocketDebuggerUrl" ++
        byte '"' :: byte ':' :: byte '"' :: ascii "ws://127.0.0.1:") := by decide +kernel
  have hend : ascii "/debug\"\x7d]" = ascii "/debug" ++ [byte '"', byte '}', byte ']'] := by
    decide +kernel
  simp only [discoveryText, discoveryFields, membersText, memberText, hstart, hfrontend, htitle,
    hurl, hsocket, hend, List.append_assoc, List.cons_append, List.nil_append]

section

variable {N : Double → Bytes → Prop}

/-- Literal strings are written as they are. -/
theorem rendersMember_text {m : Bytes × Bytes} (hk : IsLiteral m.1) (hs : IsLiteral m.2) :
    RendersMember RendersChars N (m.1, .string m.2) (memberText m) :=
  .mk (a := []) (b := []) (rendersChars_self hk) blank_nil blank_nil
    (.string (rendersChars_self hs))

theorem rendersMembers_text {ms : List (Bytes × Bytes)} (hne : ms ≠ [])
    (h : ∀ m ∈ ms, IsLiteral m.1 ∧ IsLiteral m.2) :
    RendersMembers RendersChars N (ms.map fun m => (m.1, .string m.2)) (membersText ms) := by
  induction ms with
  | nil => exact absurd rfl hne
  | cons m ms ih =>
    obtain ⟨hk, hs⟩ := h m List.mem_cons_self
    have hm : RendersMember RendersChars N (m.1, .string m.2) (memberText m) :=
      rendersMember_text hk hs
    cases ms with
    | nil =>
      have hone := RendersMembers.one (w := []) hm blank_nil
      rwa [List.append_nil] at hone
    | cons m' ms =>
      exact .more (a := []) (b := []) hm blank_nil blank_nil
        (ih (by simp) fun d hd => h d (List.mem_cons_of_mem m hd))

end

/-- The object that the members denote. -/
def discoveryObject (a : Acceptor) : Value :=
  .object (SortedMap.ofList ((discoveryFields a).map fun m => (m.1, .string m.2)))

theorem isLiteral_decimal (n : Int) : IsLiteral (decimal n) := by
  have hdigit : ∀ d : Fin 10, isPrintable (digitByte d.1) = true := by decide
  refine isLiteral_of_printable (List.all_eq_true.mpr fun c hc => ?_)
  rcases List.mem_append.mp hc with hc | hc
  · split at hc
    · obtain rfl := List.mem_singleton.mp hc
      decide
    · exact absurd hc List.not_mem_nil
  · obtain ⟨d, hd, rfl⟩ := List.mem_map.mp hc
    exact hdigit ⟨d, lt_ten_of_mem_decimalDigits hd⟩

/-- **The whole text is what it should be**, when the name and the URL need no escape. -/
theorem renders_discoveryText {a : Acceptor} {N : Double → Bytes → Prop}
    (hname : IsLiteral (cString a.targetName)) (hurl : IsLiteral (cString a.targetUrl)) :
    Renders RendersChars N (.array [discoveryObject a]) (discoveryText a) := by
  have hport : IsLiteral (decimal a.port) := isLiteral_decimal a.port
  have hdebug : IsLiteral (ascii "/debug") := isLiteral_of_printable (by decide)
  have hfields : ∀ m ∈ discoveryFields a, IsLiteral m.1 ∧ IsLiteral m.2 := by
    intro m hm
    simp only [discoveryFields, List.mem_cons, List.not_mem_nil, or_false] at hm
    rcases hm with rfl | rfl | rfl | rfl | rfl | rfl | rfl <;>
      refine ⟨isLiteral_of_printable (by dsimp only; decide), ?_⟩
    · exact isLiteral_of_printable (by decide)
    · refine ((IsLiteral.append ?_ ?_).append hport).append hdebug
      · exact isLiteral_of_printable (by decide)
      · exact isLiteral_of_printable (by decide)
    · exact isLiteral_of_printable (by decide)
    · exact hname
    · exact isLiteral_of_printable (by decide)
    · exact hurl
    · exact ((isLiteral_of_printable (by decide)).append hport).append hdebug
  have hobject : Renders RendersChars N (discoveryObject a) _ :=
    .object blank_nil (rendersMembers_text (by simp [discoveryFields]) hfields)
  have harray := Renders.array blank_nil (.one hobject blank_nil)
  rw [discoveryText_eq]
  simpa using harray

/-- What a reader finds in it. -/
theorem index_discoveryObject (a : Acceptor) :
    (discoveryObject a).index (ascii "title") = .string (cString a.targetName) ∧
      (discoveryObject a).index (ascii "url") = .string (cString a.targetUrl) ∧
      (discoveryObject a).index (ascii "webSocketDebuggerUrl") =
        .string (ascii "ws://127.0.0.1:" ++ decimal a.port ++ ascii "/debug") := by
  have hsets : discoveryObject a =
      (discoveryFields a).foldl (fun v m => v.set m.1 (.string m.2)) (.object []) := rfl
  rw [hsets]
  simp only [discoveryFields, List.foldl_cons, List.foldl_nil]
  refine ⟨?_, ?_, Value.index_set_self _ _ _⟩
  · simp (disch := decide) only [Value.index_set_of_ne, Value.index_set_self]
  · simp (disch := decide) only [Value.index_set_of_ne, Value.index_set_self]

/-! ## 3. Names and URLs -/

/-- A normalised path has no backslash. -/
theorem notMem_normalizeUrl (path : Bytes) : byte '\\' ∉ normalizeUrl path := by
  intro hmem
  obtain ⟨c, -, hc⟩ := List.mem_map.mp hmem
  split at hc
  · exact absurd hc (by decide)
  · rename_i hne
    exact hne hc

/-- The URL of a normalised path ends with the path. -/
theorem toFileUrl_normalizeUrl (path : Bytes) : ∃ pre,
    toFileUrl (normalizeUrl path) = pre ++ normalizeUrl path ∧
      pre ∈ [[], ascii "file://", ascii "file://" ++ [byte '/']] := by
  unfold toFileUrl
  dsimp only
  rw [normalizeUrl_idem]
  split
  · exact ⟨[], rfl, by simp⟩
  · cases normalizeUrl path with
    | nil => exact ⟨[], rfl, by simp⟩
    | cons c rest =>
      dsimp only
      split
      · exact ⟨ascii "file://", rfl, by simp⟩
      · split
        · exact ⟨ascii "file://" ++ [byte '/'], by simp, by simp⟩
        · exact ⟨[], rfl, by simp⟩

/-- What is put in front is printable. -/
theorem isLiteral_scheme {pre : Bytes}
    (h : pre ∈ [[], ascii "file://", ascii "file://" ++ [byte '/']]) : IsLiteral pre := by
  have hall : ∀ pre ∈ [[], ascii "file://", ascii "file://" ++ [byte '/']],
      pre.all isPrintable = true := by decide
  exact isLiteral_of_printable (hall pre h)

/-- A string that needs no escape has no zero byte. -/
theorem cString_of_isLiteral {s : Bytes} (h : IsLiteral s) : cString s = s := by
  have hbytes := (isLiteral_iff.mp h).2
  refine List.takeWhile_eq_self_iff.mpr fun c hc => ?_
  have hne : c ≠ 0 := by
    rintro rfl
    exact absurd (hbytes 0 hc).1 (by decide)
  simp [hne]

/-- A path that needs no escape is printed whole, and so is its URL. -/
theorem cString_serving (a : Acceptor) {path : Bytes} (hname : IsLiteral (normalizeUrl path)) :
    cString (a.serving path).targetName = normalizeUrl path ∧
      cString (a.serving path).targetUrl = toFileUrl (normalizeUrl path) ∧
      IsLiteral (toFileUrl (normalizeUrl path)) := by
  obtain ⟨pre, hpre, hscheme⟩ := toFileUrl_normalizeUrl path
  have hurl : IsLiteral (toFileUrl (normalizeUrl path)) := by
    rw [hpre]
    exact (isLiteral_scheme hscheme).append hname
  exact ⟨cString_of_isLiteral hname, cString_of_isLiteral hurl, hurl⟩

theorem mem_of_mem_cString {s : Bytes} {c : UInt8} (h : c ∈ cString s) : c ∈ s :=
  (List.takeWhile_sublist _).subset h

/-- The document has no backslash. -/
theorem notMem_discoveryBody (a : Acceptor) (path : Bytes) :
    byte '\\' ∉ discoveryBody (a.serving path) := by
  have hname : byte '\\' ∉ cString (normalizeUrl path) :=
    fun hmem => notMem_normalizeUrl path (mem_of_mem_cString hmem)
  have hurl : byte '\\' ∉ cString (toFileUrl (normalizeUrl path)) := by
    intro hmem
    obtain ⟨pre, hpre, hscheme⟩ := toFileUrl_normalizeUrl path
    have hurl := mem_of_mem_cString hmem
    rw [hpre] at hurl
    rcases List.mem_append.mp hurl with hmem | hmem
    · exact ((isLiteral_iff.mp (isLiteral_scheme hscheme)).2 _ hmem).2.2 rfl
    · exact notMem_normalizeUrl path hmem
  have hport : byte '\\' ∉ decimal a.port :=
    fun hmem => ((isLiteral_iff.mp (isLiteral_decimal a.port)).2 _ hmem).2.2 rfl
  intro hmem
  have htext := List.mem_of_mem_take hmem
  simp only [discoveryText, Acceptor.serving, List.mem_append, hname, hurl, hport,
    or_false] at htext
  revert htext
  decide +kernel

/-! ## 4. When the document says what it should -/

/-- Whatever document has the name in it, the name needs no escape. -/
theorem Describes.isLiteral {stod : Bytes → Except Exn Double} {a : Acceptor} {body : Bytes}
    (h : Describes stod a body) (hno : byte '\\' ∉ body) : IsLiteral a.targetName := by
  obtain ⟨target, ⟨w, u, w', -, -, hu, rfl⟩, htitle, -⟩ := h
  obtain ⟨t, ht, hsub⟩ := hu.array_part
  obtain ⟨t', ht', hsub'⟩ := ht.member_part htitle
  obtain ⟨t'', ht'', hsub''⟩ := ht'.string_part
  refine ht''.of_noEscape fun hmem => hno ?_
  simp [hsub (hsub' (hsub'' hmem))]

/-- How long the text is. -/
theorem length_discoveryText (a : Acceptor) : (discoveryText a).length =
    (cString a.targetName).length + (cString a.targetUrl).length + 2 * (decimal a.port).length +
      242 := by
  have hfixed : (ascii "[\x7b\"description\":\"QuickJS instance\",").length = 35 ∧
      (ascii "\"devtoolsFrontendUrl\":\"devtools://devtools/bundled/js_app.html").length = 62 ∧
      (ascii "?experiments=true&v8only=true&ws=127.0.0.1:").length = 43 ∧
      (ascii "/debug\",\"id\":\"main\",\"title\":\"").length = 29 ∧
      (ascii "\",\"type\":\"node\",\"url\":\"").length = 23 ∧
      (ascii "\",\"webSocketDebuggerUrl\":\"ws://127.0.0.1:").length = 41 ∧
      (ascii "/debug\"\x7d]").length = 9 := by
    decide +kernel
  obtain ⟨h₁, h₂, h₃, h₄, h₅, h₆, h₇⟩ := hfixed
  simp only [discoveryText, List.length_append, h₁, h₂, h₃, h₄, h₅, h₆, h₇]
  omega

section

variable (a : Acceptor) {path : Bytes} (hname : IsLiteral (normalizeUrl path))

include hname

/-- The text for a path that needs no escape is right as a whole. -/
theorem renders_serving (stod : Bytes → Except Exn Double) :
    Renders RendersChars (RendersNumber stod) (.array [discoveryObject (a.serving path)])
      (discoveryText (a.serving path)) := by
  obtain ⟨hcname, hcurl, hurl⟩ := cString_serving a hname
  refine renders_discoveryText ?_ ?_
  · rwa [hcname]
  · rwa [hcurl]

theorem length_serving : (discoveryText (a.serving path)).length =
    (normalizeUrl path).length + (toFileUrl (normalizeUrl path)).length +
      2 * (decimal a.port).length + 242 := by
  obtain ⟨hcname, hcurl, -⟩ := cString_serving a hname
  rw [length_discoveryText, hcname, hcurl]
  rfl

end

/-- **When the discovery document is faithful.**  For every path and every port: the normalised
path is UTF-8 without quotes and control characters, and the whole text fits into the buffer. -/
theorem discovery_faithful_iff (stod : Bytes → Except Exn Double) (a : Acceptor) (path : Bytes) :
    Describes stod (a.serving path) (discoveryBody (a.serving path)) ↔
      IsUtf8 (normalizeUrl path) ∧ (∀ c ∈ normalizeUrl path, 0x20 ≤ c ∧ c ≠ byte '"') ∧
        (normalizeUrl path).length + (toFileUrl (normalizeUrl path)).length +
          2 * (decimal a.port).length + 242 < 2048 := by
  constructor
  · intro h
    have hname : IsLiteral (normalizeUrl path) := h.isLiteral (notMem_discoveryBody a path)
    obtain ⟨hutf, hbytes⟩ := isLiteral_iff.mp hname
    refine ⟨hutf, fun c hc => ⟨(hbytes c hc).1, (hbytes c hc).2.1⟩, ?_⟩
    obtain ⟨target, htext, -⟩ := h
    have hall := renders_serving a hname stod
    rw [← List.take_append_drop 2047 (discoveryText (a.serving path))] at hall
    have hrest := htext.not_cut (lexes_document stod) hall
    rw [← length_serving a hname]
    have hlen := List.drop_eq_nil_iff.mp hrest
    omega
  · rintro ⟨hutf, hbytes, hlen⟩
    have hname : IsLiteral (normalizeUrl path) := isLiteral_iff.mpr
      ⟨hutf, fun c hc => ⟨(hbytes c hc).1, (hbytes c hc).2,
        fun h => notMem_normalizeUrl path (h ▸ hc)⟩⟩
    obtain ⟨hcname, hcurl, -⟩ := cString_serving a hname
    have hbody : discoveryBody (a.serving path) = discoveryText (a.serving path) := by
      refine List.take_of_length_le ?_
      rw [length_serving a hname]
      omega
    obtain ⟨htitle, hurl, hsocket⟩ := index_discoveryObject (a.serving path)
    rw [hcname] at htitle
    rw [hcurl] at hurl
    refine ⟨discoveryObject (a.serving path),
      ⟨[], _, [], blank_nil, blank_nil, renders_serving a hname stod, ?_⟩, htitle, hurl, hsocket⟩
    rw [hbody, List.nil_append, List.append_nil]

/-- A script whose name has a quote in it has no document. -/
theorem discovery_breaks_on_quote :
    ¬ Describes stodInteger (idleAcceptor.serving (ascii "/a\"b.js"))
      (discoveryBody (idleAcceptor.serving (ascii "/a\"b.js"))) := by
  intro h
  have hname := h.isLiteral (notMem_discoveryBody idleAcceptor (ascii "/a\"b.js"))
  exact ((isLiteral_iff.mp hname).2 (byte '"') (by decide)).2.1 rfl

end QjsDebug.Ws
