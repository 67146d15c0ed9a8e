/-
# Looking a header up

`get_header` of `websocket_server.cpp` searches the whole request for the name and a colon.  An
HTTP request has a structure of its own: the request line, the header fields, the empty line.
`HttpRequest` is that structure, `HttpRequest.lookup` the field value that a name stands for, and
`HttpRequest.text` the bytes that the server reads.

The search finds the first line with the name and a colon anywhere in it (`getHeader_text`), and
gives what follows there behind spaces.  `header_lookup_exact_iff` says for which requests this is
the value of the field.
-/
import Mathlib.Data.List.TakeWhile
import QjsDebug.Ws.Handshake

namespace QjsDebug.Ws

open FirstMatch

/-! ## 1. Requests -/

/-- A byte of a token. -/
def isTokenByte (c : UInt8) : Bool :=
  (byte 'a' ≤ c && c ≤ byte 'z') || (byte 'A' ≤ c && c ≤ byte 'Z') ||
    (byte '0' ≤ c && c ≤ byte '9') || (ascii "!#$%&'*+-.^_\x60|~").contains c

/-- A space or a tab. -/
def isOws (c : UInt8) : Bool := c == byte ' ' || c == byte '\t'

/-- A byte of a field value: no control byte but the tab. -/
def isFieldByte (c : UInt8) : Bool := c == byte '\t' || (0x20 ≤ c && c != 0x7F)

/-- A method or a field name. -/
structure Token where
  bytes : Bytes
  nonempty : bytes ≠ []
  allowed : bytes.all isTokenByte = true

/-- The spaces and tabs around a field value. -/
structure Ows where
  bytes : Bytes
  blank : bytes.all isOws = true

/-- A header field, with the whitespace around its value. -/
structure HeaderField where
  name : Token
  before : Ows
  value : Bytes
  after : Ows
  /-- Text, tabs and spaces. -/
  allowed : value.all isFieldByte = true
  /-- The whitespace around it is not part of it. -/
  trimmed : value.head?.all (!isOws ·) = true ∧ value.getLast?.all (!isOws ·) = true

/-- A request of HTTP/1.1. -/
structure HttpRequest where
  method : Token
  target : Bytes
  fields : List HeaderField
  /-- The target is one word. -/
  word : target ≠ [] ∧ target.all (fun c => 0x20 < c && c != 0x7F) = true

/-- The line of a field, without its end. -/
def HeaderField.line (f : HeaderField) : Bytes :=
  f.name.bytes ++ byte ':' :: (f.before.bytes ++ f.value ++ f.after.bytes)

/-- The first line, without its end. -/
def HttpRequest.requestLine (r : HttpRequest) : Bytes :=
  r.method.bytes ++ byte ' ' :: (r.target ++ byte ' ' :: ascii "HTTP/1.1")

/-- The request as it is sent. -/
def HttpRequest.text (r : HttpRequest) : Bytes :=
  r.requestLine ++ crlf ++ r.fields.flatMap (fun f => f.line ++ crlf) ++ crlf

/-- A field of this name, whatever the case. -/
def HeaderField.named (f : HeaderField) (name : Token) : Bool :=
  toLower f.name.bytes == toLower name.bytes

/-- The first field of this name. -/
def HttpRequest.field? (r : HttpRequest) (name : Token) : Option HeaderField :=
  r.fields.find? fun f => f.named name

/-- What a name stands for: the value of its first field, nothing when there is none. -/
def HttpRequest.lookup (r : HttpRequest) (name : Token) : Bytes :=
  ((r.field? name).map (·.value)).getD []

/-! ## 2. Where the search looks -/

/-- What follows the first place of a line where the name and a colon stand. -/
def behind (name line : Bytes) : Option Bytes :=
  (firstMatch (toLower name ++ [byte ':']) (toLower line)).map fun i =>
    line.drop (i + (name.length + 1))

/-- The lines ahead of the field: all of them when there is no field of this name. -/
def HttpRequest.ahead (r : HttpRequest) (name : Token) : List Bytes :=
  r.requestLine :: (r.fields.takeWhile fun f => !f.named name).map (·.line)

/-- The whitespace around the value is what `get_header` takes away: spaces, and only in front. -/
def HeaderField.SpacesInFront (f : HeaderField) : Prop :=
  (∀ c ∈ f.before.bytes, c = byte ' ') ∧
    (f.after.bytes = [] ∨ f.value = [] ∧ ∀ c ∈ f.after.bytes, c = byte ' ')

theorem toLower_append (s t : Bytes) : toLower (s ++ t) = toLower s ++ toLower t :=
  List.map_append

@[simp] theorem length_toLower (s : Bytes) : (toLower s).length = s.length :=
  List.length_map _

/-- A line end is a line end in lower case. -/
theorem toLower_crlf : toLower crlf = crlf := rfl

/-- Only control bytes become control bytes. -/
theorem tolower_eq_of_lt {c d : UInt8} (hd : d < 0x41) (h : tolower c = d) : c = d := by
  unfold tolower at h
  split at h
  · rename_i hupper
    obtain ⟨hle, hge⟩ := hupper
    subst h
    have hlt : (c + 0x20).toNat < 0x41 := hd
    have hle' : 0x41 ≤ c.toNat := hle
    have hge' : c.toNat ≤ 0x5A := hge
    rw [UInt8.toNat_add] at hlt
    have hconst : (0x20 : UInt8).toNat = 32 := rfl
    omega
  · exact h

/-- A byte that is no token byte is not in what the search looks for, unless it is the colon. -/
theorem notMem_needle (name : Token) {d : UInt8} (hlow : d < 0x41) (hcolon : d ≠ byte ':')
    (hnot : isTokenByte d = false) : d ∉ toLower name.bytes ++ [byte ':'] := by
  intro hmem
  rcases List.mem_append.mp hmem with hmem | hmem
  · obtain ⟨c, hc, heq⟩ := List.mem_map.mp hmem
    obtain rfl := tolower_eq_of_lt hlow heq
    rw [List.all_eq_true.mp name.allowed c hc] at hnot
    exact absurd hnot (by simp)
  · exact hcolon (List.mem_singleton.mp hmem)

/-- No line of a request has a carriage return in it. -/
theorem notMem_requestLine (r : HttpRequest) : (0x0D : UInt8) ∉ r.requestLine := by
  intro hmem
  simp only [HttpRequest.requestLine, List.mem_append, List.mem_cons] at hmem
  rcases hmem with hmem | hmem | hmem | hmem | hmem
  · exact absurd (List.all_eq_true.mp r.method.allowed _ hmem) (by decide)
  · exact absurd hmem (by decide)
  · exact absurd (List.all_eq_true.mp r.word.2 _ hmem) (by decide)
  · exact absurd hmem (by decide)
  · exact absurd hmem (by decide)

theorem notMem_line (f : HeaderField) : (0x0D : UInt8) ∉ f.line := by
  intro hmem
  simp only [HeaderField.line, List.mem_append, List.mem_cons] at hmem
  rcases hmem with hmem | hmem | (hmem | hmem) | hmem
  · exact absurd (List.all_eq_true.mp f.name.allowed _ hmem) (by decide)
  · exact absurd hmem (by decide)
  · exact absurd (List.all_eq_true.mp f.before.blank _ hmem) (by decide)
  · exact absurd (List.all_eq_true.mp f.allowed _ hmem) (by decide)
  · exact absurd (List.all_eq_true.mp f.after.blank _ hmem) (by decide)

/-! ## 3. The search, line by line -/

/-- The search does not find a name across a line end. -/
theorem firstMatch_line (name : Token) (l rest : Bytes) :
    firstMatch (toLower name.bytes ++ [byte ':']) (toLower (l ++ (crlf ++ rest))) =
      (firstMatch (toLower name.bytes ++ [byte ':']) (toLower l)).or
        ((firstMatch (toLower name.bytes ++ [byte ':']) (toLower rest)).map
          (· + (l.length + 2))) := by
  have hnil : toLower name.bytes ++ [byte ':'] ≠ [] := by simp
  have hcr := notMem_needle name (d := 0x0D) (by decide) (by decide) (by decide)
  have hlf := notMem_needle name (d := 0x0A) (by decide) (by decide) (by decide)
  have hlower : toLower (l ++ (crlf ++ rest)) =
      toLower l ++ 0x0D :: ([] ++ 0x0A :: toLower rest) := by
    rw [toLower_append, toLower_append, toLower_crlf]
    rfl
  rw [hlower, firstMatch_append_cons hnil hcr, firstMatch_append_cons hnil hlf]
  simp only [firstMatch, hnil, if_false, Option.none_or, Option.map_map, length_toLower,
    List.length_nil]
  congr 2
  funext i
  simp only [Function.comp_apply]
  omega

/-- Spaces end where the line ends. -/
theorem dropWhile_space_append_crlf (v rest : Bytes) :
    (v ++ (crlf ++ rest)).dropWhile (· == byte ' ') =
      v.dropWhile (· == byte ' ') ++ (crlf ++ rest) := by
  have hstop : (crlf ++ rest).dropWhile (· == byte ' ') = crlf ++ rest := rfl
  rw [List.dropWhile_append, hstop]
  split
  · rename_i hempty
    rw [List.isEmpty_iff.mp hempty, List.nil_append]
  · rfl

/-- **One line of the search**: a line with the name and a colon decides it. -/
theorem getHeader_line (name : Token) {l : Bytes} (rest : Bytes) (hl : (0x0D : UInt8) ∉ l) :
    getHeader (l ++ (crlf ++ rest)) name.bytes =
      match behind name.bytes l with
      | some v => v.dropWhile (· == byte ' ')
      | none => getHeader rest name.bytes := by
  unfold getHeader behind
  rw [firstMatch_line]
  cases hfirst : firstMatch (toLower name.bytes ++ [byte ':']) (toLower l) with
  | some i =>
    obtain ⟨⟨a, b, heq, ha⟩, -⟩ := firstMatch_eq_some_iff.mp hfirst
    have hlen : i + (name.bytes.length + 1) ≤ l.length := by
      have hsum := congrArg List.length heq
      simp only [length_toLower, List.length_append, List.length_singleton] at hsum
      omega
    have hnot : (0x0D : UInt8) ∉
        (l.drop (i + (name.bytes.length + 1))).dropWhile (· == byte ' ') := fun hmem =>
      hl (List.mem_of_mem_drop ((List.dropWhile_sublist _).subset hmem))
    have hend : firstMatch crlf (_ ++ (crlf ++ rest)) = some _ := firstMatch_of_notMem hnot
    simp only [Option.some_or, Option.map_some, List.drop_append_of_le_length hlen,
      dropWhile_space_append_crlf]
    rw [hend, Option.getD_some, List.take_left']
    rfl
  | none =>
    simp only [Option.none_or, Option.map_none]
    cases firstMatch (toLower name.bytes ++ [byte ':']) (toLower rest) with
    | none => rfl
    | some j =>
      have hdrop : (l ++ (crlf ++ rest)).drop (j + (l.length + 2) + (name.bytes.length + 1)) =
          rest.drop (j + (name.bytes.length + 1)) := by
        have hsum : j + (l.length + 2) + (name.bytes.length + 1) =
            (l ++ crlf).length + (j + (name.bytes.length + 1)) := by
          simp only [List.length_append, show crlf.length = 2 from rfl]
          omega
        rw [hsum, ← List.append_assoc, List.drop_length_add_append]
      simp only [Option.map_some, hdrop]

/-- **The whole search**: the first line with the name and a colon, spaces taken away. -/
theorem getHeader_lines (name : Token) {lines : List Bytes}
    (hlines : ∀ l ∈ lines, (0x0D : UInt8) ∉ l) :
    getHeader (lines.flatMap (fun l => l ++ crlf) ++ crlf) name.bytes =
      match lines.findSome? (behind name.bytes) with
      | some v => v.dropWhile (· == byte ' ')
      | none => [] := by
  induction lines with
  | nil =>
    have hend := getHeader_line name (l := []) [] (by simp)
    have hnil : ∀ s : Bytes, s = [] → behind name.bytes s = none ∧ getHeader s name.bytes = [] := by
      rintro s rfl
      have hnone : firstMatch (toLower name.bytes ++ [byte ':']) (toLower []) = none := by
        simp [toLower, firstMatch]
      simp only [behind, getHeader, hnone, Option.map_none, and_self]
    rw [(hnil [] rfl).1, (hnil [] rfl).2] at hend
    exact hend
  | cons l lines ih =>
    rw [List.flatMap_cons, List.append_assoc, List.append_assoc,
      getHeader_line name _ (hlines l List.mem_cons_self), List.findSome?_cons]
    cases behind name.bytes l with
    | some v => rfl
    | none => exact ih fun l' hl' => hlines l' (List.mem_cons_of_mem l hl')

/-! ## 4. The field itself -/

/-- On its own line a field's name is found first, and its value follows. -/
theorem behind_own {f : HeaderField} {name : Token} (h : f.named name = true) :
    behind name.bytes f.line = some (f.before.bytes ++ f.value ++ f.after.bytes) := by
  have hname : toLower f.name.bytes = toLower name.bytes := beq_iff_eq.mp h
  have hlen : f.name.bytes.length = name.bytes.length := by
    rw [← length_toLower, hname, length_toLower]
  have hprefix : toLower name.bytes ++ [byte ':'] <+: toLower f.line := by
    refine ⟨toLower (f.before.bytes ++ f.value ++ f.after.bytes), ?_⟩
    rw [HeaderField.line, toLower_append f.name.bytes, hname, List.append_assoc]
    rfl
  have hfirst : firstMatch (toLower name.bytes ++ [byte ':']) (toLower f.line) = some 0 :=
    firstMatch_eq_some_iff.mpr ⟨occursAt_zero.mpr hprefix, fun j _ => Nat.zero_le j⟩
  rw [behind, hfirst, Option.map_some, ← hlen, HeaderField.line, Nat.zero_add,
    List.drop_length_add_append]
  rfl

/-- A value does not begin with a space. -/
theorem head_value_ne (f : HeaderField) : f.value.head? ≠ some (byte ' ') := by
  intro hhead
  have htrimmed := f.trimmed.1
  rw [hhead] at htrimmed
  exact absurd htrimmed (by decide)

/-- What is left behind spaces. -/
theorem dropWhile_space_eq_iff {v w : Bytes} (hw : w.head? ≠ some (byte ' ')) :
    v.dropWhile (· == byte ' ') = w ↔ ∃ n, v = List.replicate n (byte ' ') ++ w := by
  constructor
  · rintro rfl
    refine ⟨(v.takeWhile (· == byte ' ')).length, ?_⟩
    have hspaces : v.takeWhile (· == byte ' ') =
        List.replicate (v.takeWhile (· == byte ' ')).length (byte ' ') :=
      List.eq_replicate_iff.mpr ⟨rfl, fun c hc =>
        beq_iff_eq.mp (List.mem_takeWhile_imp (p := (· == byte ' ')) hc)⟩
    rw [← hspaces, List.takeWhile_append_dropWhile]
  · rintro ⟨n, rfl⟩
    have hstop : w.dropWhile (· == byte ' ') = w := by
      cases w with
      | nil => rfl
      | cons c w =>
        have hc : ¬ (c == byte ' ') = true := fun h => hw (by rw [beq_iff_eq.mp h]; rfl)
        exact List.dropWhile_cons_of_neg hc
    have hspaces : ∀ c ∈ List.replicate n (byte ' '), (c == byte ' ') = true :=
      fun c hc => beq_iff_eq.mpr (List.eq_of_mem_replicate hc)
    rw [List.dropWhile_append_of_pos hspaces, hstop]

/-- The value comes out of its line iff the whitespace around it is spaces in front. -/
theorem dropWhile_field_iff (f : HeaderField) :
    (f.before.bytes ++ f.value ++ f.after.bytes).dropWhile (· == byte ' ') = f.value ↔
      f.SpacesInFront := by
  rw [dropWhile_space_eq_iff (head_value_ne f), List.append_assoc]
  constructor
  · rintro ⟨n, heq⟩
    cases hvalue : f.value with
    | nil =>
      rw [hvalue, List.nil_append, List.append_nil] at heq
      have hall := (List.eq_replicate_iff.mp heq).2
      exact ⟨fun c hc => hall c (List.mem_append_left _ hc),
        .inr ⟨hvalue, fun c hc => hall c (List.mem_append_right _ hc)⟩⟩
    | cons c value =>
      have hc : isOws c = false := by
        have htrimmed := f.trimmed.1
        rw [hvalue, List.head?_cons, Option.all_some] at htrimmed
        simpa using htrimmed
      rw [hvalue] at heq
      rcases List.append_eq_append_iff.mp heq with ⟨extra, hspaces, hrest⟩ | ⟨extra, hmore, hrest⟩
      · have hall := (List.eq_replicate_iff.mp hspaces.symm).2
        cases extra with
        | nil =>
          refine ⟨fun d hd => hall d (List.mem_append_left _ hd), .inl ?_⟩
          exact List.append_cancel_left (hrest.trans (List.append_nil _).symm)
        | cons d extra =>
          obtain ⟨rfl, -⟩ := List.cons.inj hrest
          rw [hall c (List.mem_append_right _ List.mem_cons_self)] at hc
          exact absurd hc (by decide)
      · have hlen := congrArg List.length hrest
        simp only [List.length_append, List.length_cons] at hlen
        have hextra : extra = [] := List.length_eq_zero_iff.mp (by omega)
        rw [hextra, List.append_nil] at hmore
        refine ⟨fun d hd => ?_, .inl (List.length_eq_zero_iff.mp (by omega))⟩
        rw [hmore] at hd
        exact List.eq_of_mem_replicate hd
  · rintro ⟨hbefore, hafter⟩
    have hspaces := List.eq_replicate_iff.mpr ⟨rfl, hbefore⟩
    rcases hafter with hafter | ⟨hvalue, hafter⟩
    · exact ⟨f.before.bytes.length, by rw [hafter, List.append_nil, ← hspaces]⟩
    · have htail := List.eq_replicate_iff.mpr ⟨rfl, hafter⟩
      refine ⟨f.before.bytes.length + f.after.bytes.length, ?_⟩
      rw [List.replicate_add, ← hspaces, ← htail, hvalue, List.nil_append, List.append_nil]

/-! ## 5. The lookup -/

/-- The lines of a request, the field among them. -/
theorem text_eq_lines (r : HttpRequest) :
    r.text = (r.requestLine :: r.fields.map (·.line)).flatMap (fun l => l ++ crlf) ++ crlf := by
  rw [HttpRequest.text, List.flatMap_cons, List.flatMap_map, List.append_assoc]

/-- What the search comes to: the first line ahead of the field that has the name and a colon in
it, and otherwise the field. -/
theorem getHeader_text (r : HttpRequest) (name : Token) :
    getHeader r.text name.bytes =
      match (r.ahead name).findSome? (behind name.bytes) with
      | some v => v.dropWhile (· == byte ' ')
      | none => ((r.field? name).map fun f =>
          (f.before.bytes ++ f.value ++ f.after.bytes).dropWhile (· == byte ' ')).getD [] := by
  have hlines : ∀ l ∈ r.requestLine :: r.fields.map (·.line), (0x0D : UInt8) ∉ l := by
    intro l hl
    rcases List.mem_cons.mp hl with rfl | hl
    · exact notMem_requestLine r
    · obtain ⟨f, -, rfl⟩ := List.mem_map.mp hl
      exact notMem_line f
  have hsplit : r.requestLine :: r.fields.map (·.line) =
      r.ahead name ++ (r.fields.dropWhile fun f => !f.named name).map (·.line) := by
    rw [HttpRequest.ahead, List.cons_append, ← List.map_append, List.takeWhile_append_dropWhile]
  have hfield : r.field? name = (r.fields.dropWhile fun f => !f.named name).head? := by
    exact List.find?_eq_head?_dropWhile_not _ _
  rw [text_eq_lines, getHeader_lines name hlines, hsplit, List.findSome?_append, hfield]
  cases (r.ahead name).findSome? (behind name.bytes) with
  | some v => rfl
  | none =>
    cases hrest : r.fields.dropWhile fun f => !f.named name with
    | nil => rfl
    | cons f rest =>
      have hfind : r.fields.find? (fun f => f.named name) = some f := by
        rw [← HttpRequest.field?, hfield, hrest, List.head?_cons]
      have hnamed : f.named name = true := by
        have hsome := List.find?_some hfind
        exact hsome
      simp only [List.map_cons, List.findSome?_cons, behind_own hnamed, Option.none_or,
        List.head?_cons, Option.map_some, Option.getD_some]

/-- What is looked up does not begin with a space. -/
theorem head_lookup_ne (r : HttpRequest) (name : Token) :
    (r.lookup name).head? ≠ some (byte ' ') := by
  unfold HttpRequest.lookup
  cases r.field? name with
  | none => simp
  | some f => exact head_value_ne f

/-- **When a header lookup is exact.**  No line ahead of the field has its name and a colon in it,
in any case, and the whitespace around the value is spaces in front of it.  The one other case is a
coincidence: in the first line ahead that has the name and a colon, what follows is spaces and then
the very value that was asked for. -/
theorem header_lookup_exact_iff (r : HttpRequest) (name : Token) :
    getHeader r.text name.bytes = r.lookup name ↔
      ((∀ line ∈ r.ahead name, behind name.bytes line = none) ∧
        ∀ f, r.field? name = some f → f.SpacesInFront) ∨
      ∃ earlier line later n, r.ahead name = earlier ++ line :: later ∧
        (∀ l ∈ earlier, behind name.bytes l = none) ∧
        behind name.bytes line = some (List.replicate n (byte ' ') ++ r.lookup name) := by
  rw [getHeader_text]
  cases hfirst : (r.ahead name).findSome? (behind name.bytes) with
  | none =>
    have hnone := List.findSome?_eq_none_iff.mp hfirst
    have hno : ¬ ∃ earlier line later n, r.ahead name = earlier ++ line :: later ∧
        (∀ l ∈ earlier, behind name.bytes l = none) ∧
        behind name.bytes line = some (List.replicate n (byte ' ') ++ r.lookup name) := by
      rintro ⟨earlier, line, later, n, heq, -, hline⟩
      rw [hnone line (heq ▸ List.mem_append_right _ List.mem_cons_self)] at hline
      exact absurd hline (by simp)
    have hfield : ((r.field? name).map fun f =>
        (f.before.bytes ++ f.value ++ f.after.bytes).dropWhile (· == byte ' ')).getD [] =
          r.lookup name ↔ ∀ f, r.field? name = some f → f.SpacesInFront := by
      unfold HttpRequest.lookup
      cases r.field? name with
      | none => simp
      | some f =>
        simp only [Option.map_some, Option.getD_some, dropWhile_field_iff, Option.some.injEq,
          forall_eq']
    constructor
    · exact fun h => .inl ⟨hnone, hfield.mp h⟩
    · rintro (⟨-, h⟩ | h)
      · exact hfield.mpr h
      · exact absurd h hno
  | some v =>
    obtain ⟨earlier, line, later, heq, hline, hearlier⟩ := List.findSome?_eq_some_iff.mp hfirst
    simp only [dropWhile_space_eq_iff (head_lookup_ne r name)]
    constructor
    · rintro ⟨n, rfl⟩
      exact .inr ⟨earlier, line, later, n, heq, hearlier, hline⟩
    · rintro (⟨hnone, -⟩ | ⟨earlier', line', later', n, heq', hearlier', hline'⟩)
      · rw [List.findSome?_eq_none_iff.mpr hnone] at hfirst
        exact absurd hfirst (by simp)
      · have hother := List.findSome?_eq_some_iff.mpr
          ⟨earlier', line', later', heq', hline', hearlier'⟩
        rw [hother] at hfirst
        exact ⟨n, (Option.some.inj hfirst).symm⟩

/-- A request that asks for `h2c` in a field of its own, `X-Upgrade`, ahead of its `Upgrade`. -/
def twoUpgrades : HttpRequest where
  method := ⟨ascii "GET", by decide, by decide⟩
  target := ascii "/debug"
  fields := [
    { name := ⟨ascii "X-Upgrade", by decide, by decide⟩, before := ⟨ascii " ", by decide⟩,
      value := ascii "h2c", after := ⟨[], by decide⟩, allowed := by decide, trimmed := by decide },
    { name := ⟨ascii "Upgrade", by decide, by decide⟩, before := ⟨ascii " ", by decide⟩,
      value := ascii "websocket", after := ⟨[], by decide⟩, allowed := by decide,
      trimmed := by decide }]
  word := by decide

/-- The end of a longer name is taken for the name: this connection is not upgraded. -/
theorem header_lookup_reads_longer_name :
    twoUpgrades.lookup ⟨ascii "Upgrade", by decide, by decide⟩ = ascii "websocket" ∧
      getHeader twoUpgrades.text (ascii "Upgrade") = ascii "h2c" := by
  decide +kernel

end QjsDebug.Ws
