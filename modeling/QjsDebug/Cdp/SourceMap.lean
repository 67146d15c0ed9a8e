/-
# The source map link of a bundle

A bundler ends a script with the line `//# sourceMappingURL=` and the URL of the map.
`extract_source_map_url` looks for it in the last 4096 bytes of the script, and takes the first
text of the kind that it finds there.

So the link is found when its line lies in those bytes and no other link stands there before it
(`extract_of_inside`).  A line that begins further up, as an inline `data:` URL makes it do, is not
found, and nothing else is found in its stead: what is left of it has no blank behind three
characters, which both forms of the comment have (`extract_of_outside`).
-/
import QjsDebug.Cdp.Announcements
import QjsDebug.Lib.FirstMatch

namespace QjsDebug.Cdp

open FirstMatch

/-! ## 1. Bundles -/

/-- The magic comment, up to the URL. -/
def link : Bytes := ascii "//# sourceMappingURL="

/-- The bytes that end a line. -/
def isBreak (c : UInt8) : Bool := c == byte '\r' || c == byte '\n'

/-- A script whose last line that is not empty is the magic comment. -/
structure Bundle where
  /-- The lines ahead of it. -/
  before : Bytes
  url : Bytes
  /-- The line breaks behind it. -/
  after : Bytes
  begins_line : before = [] ∨ ∃ lines c, before = lines ++ [c] ∧ isBreak c = true
  url_ne_nil : url ≠ []
  url_plain : url.any isSpace = false
  only_breaks : after.all isBreak = true

/-- The line, to the end of the text. -/
def Bundle.line (t : Bundle) : Bytes := link ++ (t.url ++ t.after)

def Bundle.text (t : Bundle) : Bytes := t.before ++ t.line

/-- What of the last 4096 bytes stands ahead of the line. -/
def Bundle.ahead (t : Bundle) : Bytes := t.before.drop (t.text.length - 4096)

/-! ## 2. The search -/

/-- What is found in the last bytes. -/
def foundIn (tail : Bytes) : Option Bytes :=
  match searchFrom (ascii "//# sourceMappingURL=") tail with
  | some comment => some comment
  | none => searchFrom (ascii "//@ sourceMappingURL=") tail

/-- The value of a comment that was found. -/
def commentValue (comment : Bytes) : Bytes :=
  let line := (comment.drop 21).takeWhile fun c => c != byte '\r' && c != byte '\n'
  (line.reverse.dropWhile isSpace).reverse

/-- The two steps of the function. -/
theorem extractSourceMapUrl_eq : extractSourceMapUrl = fun source =>
    ((foundIn (source.drop (source.length - 4096))).map commentValue).getD [] := by
  delta extractSourceMapUrl
  refine funext fun source => ?_
  -- named, so that no reduction comes to the subtraction of 4096
  obtain ⟨tail, htail⟩ : ∃ tail, source.drop (source.length - 4096) = tail := ⟨_, rfl⟩
  rw [htail]
  unfold foundIn
  dsimp only
  cases searchFrom (ascii "//# sourceMappingURL=") tail with
  | some comment => rfl
  | none => cases searchFrom (ascii "//@ sourceMappingURL=") tail <;> rfl

/-- The search returns what stands from the first match on. -/
theorem searchFrom_eq (text s : Bytes) : searchFrom text s = (firstMatch text s).map s.drop := by
  induction s with
  | nil =>
    unfold searchFrom firstMatch
    split <;> rfl
  | cons c s ih =>
    unfold searchFrom firstMatch
    split
    · rfl
    · rw [ih, Option.map_map]
      rfl

/-- A link on a line of its own is the first one, behind a text that has none. -/
theorem searchFrom_line {ahead rest : Bytes} (hno : ¬ link <:+: ahead)
    (hline : ahead = [] ∨ ∃ lines c, ahead = lines ++ [c] ∧ isBreak c = true) :
    searchFrom link (ahead ++ (link ++ rest)) = some (link ++ rest) := by
  have hhead : firstMatch link (link ++ rest) = some 0 := if_pos (List.prefix_append link rest)
  rw [searchFrom_eq]
  rcases hline with rfl | ⟨lines, c, rfl, hc⟩
  · rw [List.nil_append, hhead]
    rfl
  · -- the pattern has no line break, so it does not reach across this one
    have hnot : c ∉ link := by
      have hplain : link.all (fun c => !isBreak c) = true := by decide
      intro hmem
      have hbreak := List.all_eq_true.mp hplain c hmem
      rw [hc] at hbreak
      exact absurd hbreak (by decide)
    have hlines : firstMatch link lines = none :=
      firstMatch_eq_none_iff.mpr fun h => hno (h.trans (List.infix_append' [] lines [c]))
    have hmatch := @firstMatch_append_cons _ _ link lines (link ++ rest) c (by decide) hnot
    rw [hlines, hhead] at hmatch
    rw [List.append_assoc, List.singleton_append, hmatch]
    simp only [Option.map_some, Option.none_or, Nat.zero_add]
    rw [List.append_cons, List.drop_left' (by rw [List.length_append, List.length_singleton])]

/-- The comment ends with its line. -/
theorem takeWhile_line {url after : Bytes} (hplain : url.any isSpace = false)
    (hafter : after.all isBreak = true) :
    (((link ++ (url ++ after)).drop 21).takeWhile
      fun c => c != byte '\r' && c != byte '\n') = url := by
  have hurl : ∀ c ∈ url, (c != byte '\r' && c != byte '\n') = true := by
    intro c hc
    have hspace : isSpace c = false := by simpa using List.any_eq_false.mp hplain c hc
    have hbreaks : ∀ c : UInt8, c = byte '\r' ∨ c = byte '\n' → isSpace c = true := by
      rintro c (rfl | rfl) <;> decide
    by_contra hbreak
    have hone : c = byte '\r' ∨ c = byte '\n' := by
      simp only [Bool.and_eq_true, bne_iff_ne, not_and_or, not_not] at hbreak
      exact hbreak
    rw [hbreaks c hone] at hspace
    exact absurd hspace (by decide)
  have hlen : link.length = 21 := by decide
  rw [List.drop_left' hlen, List.takeWhile_append_of_pos hurl]
  cases after with
  | nil => exact List.append_nil url
  | cons c after =>
    have hc : isBreak c = true := by
      simp only [List.all_cons, Bool.and_eq_true] at hafter
      exact hafter.1
    simp only [isBreak, Bool.or_eq_true, beq_iff_eq] at hc
    rcases hc with rfl | rfl <;> exact List.append_nil url

/-- A URL has no white space to trim. -/
theorem trim_url {url : Bytes} (hplain : url.any isSpace = false) :
    (url.reverse.dropWhile isSpace).reverse = url := by
  rw [List.reverse_eq_iff]
  cases hrev : url.reverse with
  | nil => rfl
  | cons c rest =>
    have hc : c ∈ url := by
      rw [← List.mem_reverse, hrev]
      exact List.mem_cons_self
    exact List.dropWhile_cons_of_neg (List.any_eq_false.mp hplain c hc)

/-- **A line within the last 4096 bytes** is found, when no link stands there before it. -/
theorem extract_of_inside (t : Bundle) (hno : ¬ link <:+: t.ahead)
    (hinside : t.line.length ≤ 4096) : extractSourceMapUrl t.text = t.url := by
  have hskip : t.text.length - 4096 ≤ t.before.length := by
    rw [Bundle.text, List.length_append]
    omega
  have htail : t.text.drop (t.text.length - 4096) = t.ahead ++ (link ++ (t.url ++ t.after)) :=
    List.drop_append_of_le_length hskip
  have hline : t.ahead = [] ∨ ∃ lines c, t.ahead = lines ++ [c] ∧ isBreak c = true := by
    rcases t.begins_line with hnil | ⟨lines, c, heq, hc⟩
    · exact .inl (by rw [Bundle.ahead, hnil, List.drop_nil])
    · rw [Bundle.ahead, heq]
      by_cases hle : t.text.length - 4096 ≤ lines.length
      · exact .inr ⟨_, c, List.drop_append_of_le_length hle, hc⟩
      · refine .inl (List.drop_eq_nil_of_le ?_)
        rw [List.length_append, List.length_singleton]
        omega
  have hsearch : searchFrom (ascii "//# sourceMappingURL=")
      (t.ahead ++ (link ++ (t.url ++ t.after))) = some (link ++ (t.url ++ t.after)) :=
    searchFrom_line hno hline
  rw [congrFun extractSourceMapUrl_eq t.text, htail, foundIn, hsearch, Option.map_some,
    Option.getD_some, commentValue, takeWhile_line t.url_plain t.only_breaks, trim_url t.url_plain]

/-- Both forms of the comment have their blank behind three characters, so neither stands in what
is left of the line behind its first character. -/
theorem notMem_rest {t : Bundle} {form : Bytes} {k : Nat} (hform : form[3]? = some (byte ' '))
    (hk : 0 < k) : ¬ form <:+: t.line.drop k := by
  rintro ⟨a, b, heq⟩
  -- the blank of the form is a blank of the line
  have hblank : t.line[k + (a.length + 3)]? = some (byte ' ') := by
    rw [← List.getElem?_drop, ← heq, List.append_assoc, List.getElem?_append_right (by omega),
      Nat.add_sub_cancel_left, List.getElem?_append_left, hform]
    exact (List.getElem?_eq_some_iff.mp hform).1
  have hlen : link.length = 21 := by decide
  rw [Bundle.line] at hblank
  by_cases hlt : k + (a.length + 3) < 21
  · rw [List.getElem?_append_left (by omega)] at hblank
    have honly : ∀ i : Fin 21, link[i.1]? = some (byte ' ') → i.1 = 3 := by decide
    have h3 := honly ⟨_, hlt⟩ hblank
    simp only at h3
    omega
  · rw [List.getElem?_append_right (by omega)] at hblank
    have hmem := List.mem_of_getElem? hblank
    rcases List.mem_append.mp hmem with hmem | hmem
    · exact absurd (List.any_eq_false.mp t.url_plain _ hmem) (by decide)
    · exact absurd (List.all_eq_true.mp t.only_breaks _ hmem) (by decide)

/-- **A line that begins above the last 4096 bytes** is not found, and nothing else is. -/
theorem extract_of_outside (t : Bundle) (houtside : 4096 < t.line.length) :
    extractSourceMapUrl t.text = [] := by
  have htail : t.text.drop (t.text.length - 4096) = t.line.drop (t.line.length - 4096) := by
    have hskip : t.text.length - 4096 = t.before.length + (t.line.length - 4096) := by
      rw [Bundle.text, List.length_append]
      omega
    rw [hskip, Bundle.text, List.drop_length_add_append]
  have hnone : ∀ form : Bytes, form[3]? = some (byte ' ') →
      searchFrom form (t.text.drop (t.text.length - 4096)) = none := by
    intro form hform
    rw [searchFrom_eq, htail, firstMatch_eq_none_iff.mpr (notMem_rest hform (by omega))]
    rfl
  have hcurrent := hnone (ascii "//# sourceMappingURL=") (by decide)
  have hlegacy := hnone (ascii "//@ sourceMappingURL=") (by decide)
  have hfound : foundIn (t.text.drop (t.text.length - 4096)) = none := by
    rw [foundIn, hcurrent, hlegacy]
  rw [congrFun extractSourceMapUrl_eq t.text, hfound, Option.map_none, Option.getD_none]

/-! ## 3. What is found -/

/-- **The link of a bundle.**  For every text whose last line that is not empty is the magic comment
with a URL, of any length, and which has no other link ahead of it in its last 4096 bytes: the
function returns the URL when the line begins within these bytes, and nothing otherwise. -/
theorem source_map_link (t : Bundle) (hno : ¬ link <:+: t.ahead) :
    extractSourceMapUrl t.text = if t.line.length ≤ 4096 then t.url else [] := by
  by_cases hinside : t.line.length ≤ 4096
  · rw [if_pos hinside]
    exact extract_of_inside t hno hinside
  · rw [if_neg hinside]
    exact extract_of_outside t (Nat.lt_of_not_le hinside)

/-- A bundle as `esbuild` writes it. -/
def smallBundle : Bundle where
  before := ascii "f();" ++ [byte '\n']
  url := ascii "app.js.map"
  after := [byte '\n']
  begins_line := .inr ⟨ascii "f();", byte '\n', rfl, rfl⟩
  url_ne_nil := by decide
  url_plain := by decide
  only_breaks := by decide

theorem source_map_link_small : extractSourceMapUrl smallBundle.text = ascii "app.js.map" := by
  have hlink := source_map_link smallBundle (by decide +kernel)
  rwa [if_pos (by decide)] at hlink

/-- A bundle with its map inline. -/
def inlineBundle : Bundle where
  before := []
  url := ascii "data:application/json," ++ List.replicate 4096 (byte 'A')
  after := []
  begins_line := .inl rfl
  url_ne_nil := List.append_ne_nil_of_left_ne_nil (by decide) _
  url_plain := by
    have hscheme : (ascii "data:application/json,").any isSpace = false := by decide
    have hletter : isSpace (byte 'A') = false := by decide
    rw [List.any_append, hscheme, List.any_replicate, hletter]
    rfl
  only_breaks := by decide

/-- A bundle of two scripts that came with links of their own. -/
def joinedBundle : Bundle where
  before := ascii "//# sourceMappingURL=a.js.map" ++ [byte '\n']
  url := ascii "b.js.map"
  after := []
  begins_line := .inr ⟨ascii "//# sourceMappingURL=a.js.map", byte '\n', rfl, rfl⟩
  url_ne_nil := by decide
  url_plain := by decide
  only_breaks := by decide

/-- **Two bundles whose link is missed**: of an inline map nothing is found, and of two links the
first one. -/
theorem source_map_link_missed :
    extractSourceMapUrl inlineBundle.text ≠ inlineBundle.url ∧
      extractSourceMapUrl joinedBundle.text ≠ joinedBundle.url := by
  constructor
  · have hlen : 4096 < inlineBundle.line.length := by
      have hlink : link.length = 21 := by decide
      have hscheme : (ascii "data:application/json,").length = 22 := by decide
      simp only [Bundle.line, inlineBundle, List.length_append, List.length_replicate, hlink,
        hscheme]
      omega
    rw [extract_of_outside _ hlen]
    exact fun h => inlineBundle.url_ne_nil h.symm
  · decide +kernel

end QjsDebug.Cdp
