/-
# JSON texts

The grammar of JSON over byte strings, with what a text denotes: `Renders S N v t` says
that `t` is a rendering of the tree `v`.  White space may stand wherever the grammar allows
it; an object denotes the map its members build, the last value of a key winning.

How the body of a string and the token of a number look is left open (`S`, `N`), because two
uses differ in it: the strings of the standard are sequences of characters, while the serializer
writes arbitrary bytes.  What reading needs of them is that `scanString` and `afterNumber`
find their ends (`Lexes`); then a rendering is read as the tree it denotes, in the middle of
any text whose next byte does not continue a number (`Renders.scan`).
-/
import QjsDebug.Json.Refinement

namespace QjsDebug.Json

/-! ## 1. The grammar -/

/-- Insignificant white space. -/
def Blank (w : Bytes) : Prop := ∀ c ∈ w, isWs c = true

section

variable (S : Bytes → Bytes → Prop) (N : Double → Bytes → Prop)

mutual
/-- `value` -/
inductive Renders : Value → Bytes → Prop
  | null : Renders .null (ascii "null")
  | bool (b : Bool) : Renders (.bool b) (if b then ascii "true" else ascii "false")
  | number {d t} : N d t → Renders (.number d) t
  | string {bs t} : S bs t → Renders (.string bs) (byte '"' :: (t ++ [byte '"']))
  | emptyArray {w} : Blank w → Renders (.array []) (byte '[' :: (w ++ [byte ']']))
  | array {w xs t} : Blank w → RendersElements xs t →
      Renders (.array xs) (byte '[' :: (w ++ (t ++ [byte ']'])))
  | emptyObject {w} : Blank w → Renders (.object []) (byte '{' :: (w ++ [byte '}']))
  | object {w ms t} : Blank w → RendersMembers ms t →
      Renders (.object (SortedMap.ofList ms)) (byte '{' :: (w ++ (t ++ [byte '}'])))
/-- `value *( value-separator value )` -/
inductive RendersElements : List Value → Bytes → Prop
  | one {v t w} : Renders v t → Blank w → RendersElements [v] (t ++ w)
  | more {v t a b vs r} : Renders v t → Blank a → Blank b → RendersElements vs r →
      RendersElements (v :: vs) (t ++ (a ++ byte ',' :: (b ++ r)))
/-- `string name-separator value` -/
inductive RendersMember : Bytes × Value → Bytes → Prop
  | mk {k s a b v t} : S k s → Blank a → Blank b → Renders v t →
      RendersMember (k, v) (byte '"' :: (s ++ byte '"' :: (a ++ byte ':' :: (b ++ t))))
/-- `member *( value-separator member )` -/
inductive RendersMembers : List (Bytes × Value) → Bytes → Prop
  | one {m t w} : RendersMember m t → Blank w → RendersMembers [m] (t ++ w)
  | more {m t a b ms r} : RendersMember m t → Blank a → Blank b → RendersMembers ms r →
      RendersMembers (m :: ms) (t ++ (a ++ byte ',' :: (b ++ r)))
end

/-- `JSON-text = ws value ws` -/
def RendersText (v : Value) (t : Bytes) : Prop :=
  ∃ w u w', Blank w ∧ Blank w' ∧ Renders S N v u ∧ t = w ++ (u ++ w')

end

/-! ## 2. Finding the ends -/

/-- The text does not continue a number. -/
def Stops (t : Bytes) : Prop :=
  ∀ c, t.head? = some c →
    isDigit c = false ∧ c ≠ byte '.' ∧ c ≠ byte 'e' ∧ c ≠ byte 'E'

/-- A number token, which ends where the text stops continuing it. -/
structure IsNumberText (t : Bytes) : Prop where
  head : ∃ c u, t = c :: u ∧ (c = byte '-' ∨ isDigit c = true)
  after : ∀ post, Stops post → afterNumber (t ++ post) = post

/-- The strings and numbers of a grammar are found and converted by the parser. -/
structure Lexes (S : Bytes → Bytes → Prop) (N : Double → Bytes → Prop)
    (stod : Bytes → Except Exn Double) : Prop where
  string : ∀ {bs t}, S bs t → ∀ post, ∃ ps,
    scanString (t ++ byte '"' :: post) = (ps, post) ∧ convertString ps = .ok bs
  number : ∀ {d t}, N d t → IsNumberText t ∧ stod t = .ok d

/-- `1*DIGIT` -/
def IsDigits (t : Bytes) : Prop := t ≠ [] ∧ ∀ c ∈ t, isDigit c = true

/-- `[ frac ]` -/
inductive IsFraction : Bytes → Prop
  | absent : IsFraction []
  | present {t} : IsDigits t → IsFraction (byte '.' :: t)

/-- `[ exp ]` -/
inductive IsExponent : Bytes → Prop
  | absent : IsExponent []
  | present {c s t} : c = byte 'e' ∨ c = byte 'E' → s = [] ∨ s = [byte '+'] ∨ s = [byte '-'] →
      IsDigits t → IsExponent (c :: (s ++ t))

theorem dropWhile_digits {t r : Bytes} (ht : ∀ c ∈ t, isDigit c = true)
    (hr : ∀ c, r.head? = some c → isDigit c = false) : (t ++ r).dropWhile isDigit = r := by
  rw [List.dropWhile_append_of_pos ht]
  cases r with
  | nil => rfl
  | cons c r => simp [hr c rfl]

theorem accept_eq_none {test : UInt8 → Bool} {t : Bytes}
    (h : ∀ c, t.head? = some c → test c = false) : accept test t = none := by
  cases t with
  | nil => rfl
  | cons c t => simp [accept, h c rfl]

theorem afterExponent_append {t r : Bytes} (ht : IsExponent t) (hr : Stops r) :
    afterExponent (t ++ r) = r := by
  cases ht with
  | absent =>
    have hnone : accept (fun c => c == byte 'e' || c == byte 'E') r = none :=
      accept_eq_none fun c hc => by simp [(hr c hc).2.2.1, (hr c hc).2.2.2]
    rw [List.nil_append, afterExponent, hnone]
  | @present c s t hc hs ht =>
    have hsome : accept (fun c => c == byte 'e' || c == byte 'E') (c :: (s ++ t) ++ r) =
        some (s ++ (t ++ r)) := by
      rcases hc with rfl | rfl <;> simp [accept]
    have hsign : dropIf (fun c => c == byte '+' || c == byte '-') (s ++ (t ++ r)) = t ++ r := by
      rcases hs with rfl | rfl | rfl
      · obtain ⟨d, u, hu⟩ := List.exists_cons_of_ne_nil ht.1
        have hd : isDigit d = true := ht.2 d (by simp [hu])
        have hne : d ≠ byte '+' ∧ d ≠ byte '-' := by
          constructor <;> (rintro rfl; revert hd; decide)
        simp [hu, dropIf, accept, hne.1, hne.2]
      · simp [dropIf, accept]
      · simp [dropIf, accept]
    rw [afterExponent, hsome]
    dsimp only
    rw [hsign, dropWhile_digits ht.2 fun c hc => (hr c hc).1]

theorem afterFraction_append {t r : Bytes} (ht : IsFraction t)
    (hdot : ∀ c, r.head? = some c → c ≠ byte '.')
    (hdigit : ∀ c, r.head? = some c → isDigit c = false) : afterFraction (t ++ r) = r := by
  cases ht with
  | absent =>
    have hnone : accept (· == byte '.') r = none := accept_eq_none fun c hc => by simp [hdot c hc]
    rw [List.nil_append, afterFraction, hnone]
  | @present t ht =>
    have hsome : accept (· == byte '.') (byte '.' :: t ++ r) = some (t ++ r) := by simp [accept]
    rw [afterFraction, hsome]
    exact dropWhile_digits ht.2 hdigit

/-- `[ minus ] 1*DIGIT [ frac ] [ exp ]` is a number token. -/
theorem isNumberText {s i f e : Bytes} (hs : s = [] ∨ s = [byte '-']) (hi : IsDigits i)
    (hf : IsFraction f) (he : IsExponent e) : IsNumberText (s ++ (i ++ (f ++ e))) := by
  obtain ⟨d, u, hu⟩ := List.exists_cons_of_ne_nil hi.1
  have hd : isDigit d = true := hi.2 d (by simp [hu])
  have hminus : d ≠ byte '-' := by rintro rfl; revert hd; decide
  constructor
  · rcases hs with rfl | rfl
    · exact ⟨d, _, by rw [hu]; rfl, Or.inr hd⟩
    · exact ⟨byte '-', _, rfl, Or.inl rfl⟩
  · intro r hr
    -- neither an exponent nor what follows the number starts with a digit or a point
    have hexp : ∀ c, (e ++ r).head? = some c → isDigit c = false ∧ c ≠ byte '.' := by
      intro c hc
      cases he with
      | absent => exact ⟨(hr c hc).1, (hr c hc).2.1⟩
      | present he _ _ =>
        obtain rfl := Option.some.inj hc
        rcases he with rfl | rfl <;> decide
    have hfrac : ∀ c, (f ++ (e ++ r)).head? = some c → isDigit c = false := by
      intro c hc
      cases hf with
      | absent => exact (hexp c hc).1
      | present _ =>
        obtain rfl := Option.some.inj hc
        decide
    have hsign : dropIf (· == byte '-') (s ++ (i ++ (f ++ (e ++ r)))) = i ++ (f ++ (e ++ r)) := by
      rcases hs with rfl | rfl
      · simp [hu, dropIf, accept, hminus]
      · simp [dropIf, accept]
    simp only [List.append_assoc]
    rw [afterNumber, hsign, dropWhile_digits hi.2 hfrac,
      afterFraction_append hf (fun c hc => (hexp c hc).2) (fun c hc => (hexp c hc).1),
      afterExponent_append he hr]

theorem stops_nil : Stops [] := by intro c hc; exact absurd hc (by simp)

theorem stops_cons {c : UInt8} {t : Bytes}
    (h : isDigit c = false ∧ c ≠ byte '.' ∧ c ≠ byte 'e' ∧ c ≠ byte 'E') : Stops (c :: t) := by
  intro d hd
  obtain rfl := Option.some.inj hd
  exact h

theorem isWs_cases {c : UInt8} (h : isWs c = true) :
    c = byte ' ' ∨ c = byte '\t' ∨ c = byte '\n' ∨ c = byte '\r' := by
  simpa [isWs, or_assoc] using h

theorem stops_blank_append {w t : Bytes} (hw : Blank w) (ht : Stops t) : Stops (w ++ t) := by
  cases w with
  | nil => exact ht
  | cons c w =>
    have hc := isWs_cases (hw c List.mem_cons_self)
    refine stops_cons ?_
    rcases hc with rfl | rfl | rfl | rfl <;> decide

theorem scanWs_blank_append {w t : Bytes} (hw : Blank w) : scanWs (w ++ t) = scanWs t := by
  unfold scanWs
  rw [List.dropWhile_append_of_pos hw]

theorem scanWs_cons {c : UInt8} {t : Bytes} (hc : isWs c = false) :
    scanWs (c :: t) = c :: t := by
  simp [scanWs, hc]

theorem scanWs_append_cons {w t : Bytes} {c : UInt8} (hw : Blank w) (hc : isWs c = false) :
    scanWs (w ++ c :: t) = c :: t := by
  rw [scanWs_blank_append hw, scanWs_cons hc]

/-- A byte that can start a value but is no quote, bracket or keyword. -/
theorem numberHead_ne {c : UInt8} (h : c = byte '-' ∨ isDigit c = true) :
    c ≠ byte '"' ∧ c ≠ byte '{' ∧ c ≠ byte '[' ∧ c ≠ byte 't' ∧ c ≠ byte 'f' ∧ c ≠ byte 'n' := by
  refine ⟨?_, ?_, ?_, ?_, ?_, ?_⟩ <;> (rintro rfl; revert h; decide)

theorem numberHead_not_ws {c : UInt8} (h : c = byte '-' ∨ isDigit c = true) :
    isWs c = false ∧ c ≠ byte ']' := by
  refine ⟨?_, by rintro rfl; revert h; decide⟩
  by_contra hws
  rcases isWs_cases (by simpa using hws) with rfl | rfl | rfl | rfl <;> (revert h; decide)

/-! ## 3. Reading a rendering -/

section

variable {S : Bytes → Bytes → Prop} {N : Double → Bytes → Prop}
  {stod : Bytes → Except Exn Double} (hl : Lexes S N stod)

include hl

/-- A rendering starts with a byte that is no white space and closes no array. -/
theorem Renders.head {v : Value} {t : Bytes} (h : Renders S N v t) :
    ∃ c u, t = c :: u ∧ isWs c = false ∧ c ≠ byte ']' := by
  cases h with
  | null => exact ⟨_, _, rfl, by decide, by decide⟩
  | bool b => cases b <;> exact ⟨_, _, rfl, by decide, by decide⟩
  | number hn =>
    obtain ⟨c, u, rfl, hc⟩ := (hl.number hn).1.head
    exact ⟨c, u, rfl, numberHead_not_ws hc⟩
  | string _ => exact ⟨_, _, rfl, by decide, by decide⟩
  | emptyArray _ => exact ⟨_, _, rfl, by decide, by decide⟩
  | array _ _ => exact ⟨_, _, rfl, by decide, by decide⟩
  | emptyObject _ => exact ⟨_, _, rfl, by decide, by decide⟩
  | object _ _ => exact ⟨_, _, rfl, by decide, by decide⟩

omit hl in
theorem RendersMembers.head {ms : List (Bytes × Value)} {t : Bytes}
    (h : RendersMembers S N ms t) : ∃ u, t = byte '"' :: u := by
  cases h with
  | one hm _ => cases hm with | mk _ _ _ _ => exact ⟨_, rfl⟩
  | more hm _ _ _ => cases hm with | mk _ _ _ _ => exact ⟨_, rfl⟩

theorem RendersElements.head {xs : List Value} {t : Bytes} (h : RendersElements S N xs t) :
    ∃ c u, t = c :: u ∧ isWs c = false ∧ c ≠ byte ']' := by
  cases h with
  | one hv _ =>
    obtain ⟨c, u, rfl, hc⟩ := hv.head hl
    exact ⟨c, _, rfl, hc⟩
  | more hv _ _ _ =>
    obtain ⟨c, u, rfl, hc⟩ := hv.head hl
    exact ⟨c, _, rfl, hc⟩

end

/-! What `parse_value` does at each kind of first byte, behind white space. -/

section

variable {n : Nat} {w u post : Bytes} {c : UInt8}

theorem scanValue_cons (hw : Blank w) (hc : isWs c = false) :
    scanValue (n + 1) (w ++ c :: u) =
      if c = byte '"' then (.string (scanString u).1, (scanString u).2)
      else if c = byte '{' then scanObject (scanValue n) u
      else if c = byte '[' then scanArray (scanValue n) u
      else if c = byte 't' ∨ c = byte 'f' then scanBool (c :: u)
      else if c = byte 'n' then (.null, scanNull (c :: u))
      else (.number (numberToken (c :: u)), afterNumber (c :: u)) := by
  rw [scanValue, scanWs_append_cons hw hc]

theorem scanValue_quote (hw : Blank w) :
    scanValue (n + 1) (w ++ byte '"' :: u) = (.string (scanString u).1, (scanString u).2) := by
  rw [scanValue_cons hw (by decide), if_pos rfl]

theorem scanValue_brace (hw : Blank w) :
    scanValue (n + 1) (w ++ byte '{' :: u) = scanObject (scanValue n) u := by
  rw [scanValue_cons hw (by decide), if_neg (by decide), if_pos rfl]

theorem scanValue_bracket (hw : Blank w) :
    scanValue (n + 1) (w ++ byte '[' :: u) = scanArray (scanValue n) u := by
  rw [scanValue_cons hw (by decide), if_neg (by decide), if_neg (by decide), if_pos rfl]

theorem scanValue_bool (hw : Blank w) (b : Bool) :
    scanValue (n + 1) (w ++ ((if b then ascii "true" else ascii "false") ++ post)) =
      (.bool b, post) := by
  have hkey : scanBool ((if b then ascii "true" else ascii "false") ++ post) = (.bool b, post) := by
    cases b <;> simp [scanBool, ascii]
  cases b with
  | true =>
    refine Eq.trans (scanValue_cons (c := byte 't') hw (by decide)) ?_
    rw [if_neg (by decide), if_neg (by decide), if_neg (by decide), if_pos (by decide)]
    exact hkey
  | false =>
    refine Eq.trans (scanValue_cons (c := byte 'f') hw (by decide)) ?_
    rw [if_neg (by decide), if_neg (by decide), if_neg (by decide), if_pos (by decide)]
    exact hkey

theorem scanValue_null (hw : Blank w) :
    scanValue (n + 1) (w ++ (ascii "null" ++ post)) = (.null, post) := by
  have hkey : scanNull (ascii "null" ++ post) = post := by simp [scanNull, ascii]
  refine Eq.trans (scanValue_cons (c := byte 'n') hw (by decide)) ?_
  rw [if_neg (by decide), if_neg (by decide), if_neg (by decide), if_neg (by decide), if_pos rfl]
  exact congrArg (Prod.mk Raw.null) hkey

theorem scanValue_number {t : Bytes} (hw : Blank w) (ht : IsNumberText t) (hpost : Stops post) :
    scanValue (n + 1) (w ++ (t ++ post)) = (.number t, post) := by
  have hafter := ht.after post hpost
  have htoken : numberToken (t ++ post) = t := by
    rw [numberToken, hafter, List.length_append, Nat.add_sub_cancel, List.take_left]
  obtain ⟨c, u, rfl, hc⟩ := ht.head
  obtain ⟨h₁, h₂, h₃, h₄, h₅, h₆⟩ := numberHead_ne hc
  refine Eq.trans (scanValue_cons hw (numberHead_not_ws hc).1) ?_
  rw [if_neg h₁, if_neg h₂, if_neg h₃, if_neg (by simp [h₄, h₅]), if_neg h₆]
  exact Prod.ext (congrArg Raw.number htoken) hafter

theorem accept_byte (c : UInt8) (t : Bytes) : accept (· == c) (c :: t) = some t := by
  simp [accept]

theorem accept_byte_ne {c d : UInt8} (h : d ≠ c) (t : Bytes) : accept (· == c) (d :: t) = none := by
  simp [accept, h]

/-- Over the byte that closes an array or object. -/
theorem dropIf_close (hc : isWs c = false) (t : Bytes) :
    dropIf (· == c) (scanWs (c :: t)) = t := by
  rw [scanWs_cons hc, dropIf, accept_byte, Option.getD_some]

end

section

variable {S : Bytes → Bytes → Prop} {N : Double → Bytes → Prop}
  {stod : Bytes → Except Exn Double}

mutual
/-- **A rendering is read as the tree it denotes**, behind white space, up to its own end, which
only a number does not know by itself.  The fuel only has to exceed the length of the rendering. -/
theorem Renders.scan (hl : Lexes S N stod) {v : Value} {t : Bytes} (h : Renders S N v t)
    {n : Nat} {w r : Bytes} (hn : t.length < n) (hw : Blank w)
    (hr : ∀ d, v = .number d → Stops r) :
    ∃ raw, scanValue n (w ++ (t ++ r)) = (raw, r) ∧ raw.convert stod = .ok v := by
  obtain ⟨n, rfl⟩ : ∃ m, n = m + 1 := ⟨n - 1, by omega⟩
  match h with
  | .null => exact ⟨.null, scanValue_null hw, rfl⟩
  | .bool b => exact ⟨.bool b, scanValue_bool hw b, rfl⟩
  | .number hd =>
    obtain ⟨htext, hstod⟩ := hl.number hd
    exact ⟨.number t, scanValue_number hw htext (hr _ rfl), by simp [Raw.convert, hstod]⟩
  | .string (t := u) hs =>
    obtain ⟨ps, hscan, hconv⟩ := hl.string hs r
    refine ⟨.string ps, ?_, by simp [Raw.convert, hconv]⟩
    rw [List.cons_append, List.append_assoc, List.singleton_append, scanValue_quote hw, hscan]
  | .emptyArray (w := w') hw' =>
    refine ⟨.array [], ?_, rfl⟩
    rw [List.cons_append, List.append_assoc, List.singleton_append, scanValue_bracket hw, scanArray,
      scanWs_append_cons hw' (by decide), accept_byte]
  | .array (w := w') (t := u) hw' hx =>
    simp only [List.length_cons, List.length_append] at hn
    obtain ⟨raws, hscan, hconv⟩ := hx.scan hl (r := r) (w := [])
      (n := (u ++ byte ']' :: r).length) (k := n) (by simp) (by omega) (by simp [Blank])
    obtain ⟨c, u', hu, hc, hne⟩ := hx.head hl
    have hws : scanWs (w' ++ (u ++ byte ']' :: r)) = u ++ byte ']' :: r := by
      rw [hu]; exact scanWs_append_cons hw' hc
    have hopen : accept (· == byte ']') (u ++ byte ']' :: r) = none := by
      rw [hu]; exact accept_byte_ne hne _
    refine ⟨.array raws, ?_, by rw [Raw.convert, hconv, List.nil_append]⟩
    rw [List.cons_append, List.append_assoc, List.append_assoc, List.singleton_append,
      scanValue_bracket hw, scanArray, hws, hopen]
    rw [List.nil_append] at hscan
    simp only [hscan, dropIf_close (by decide : isWs (byte ']') = false)]
  | .emptyObject (w := w') hw' =>
    refine ⟨.object [], ?_, rfl⟩
    rw [List.cons_append, List.append_assoc, List.singleton_append, scanValue_brace hw, scanObject,
      scanWs_append_cons hw' (by decide), accept_byte]
  | .object (w := w') (t := u) hw' hm =>
    simp only [List.length_cons, List.length_append] at hn
    obtain ⟨raws, hscan, hconv⟩ := hm.scan hl (r := r) (w := [])
      (n := (u ++ byte '}' :: r).length) (k := n) (by simp) (by omega) (by simp [Blank])
    obtain ⟨u', hu⟩ := hm.head
    have hws : scanWs (w' ++ (u ++ byte '}' :: r)) = u ++ byte '}' :: r := by
      rw [hu]; exact scanWs_append_cons hw' (by decide)
    have hopen : accept (· == byte '}') (u ++ byte '}' :: r) = none := by
      rw [hu]; exact accept_byte_ne (by decide) _
    refine ⟨.object raws, ?_, by rw [Raw.convert, hconv]; rfl⟩
    rw [List.cons_append, List.append_assoc, List.append_assoc, List.singleton_append,
      scanValue_brace hw, scanObject, hws, hopen]
    rw [List.nil_append] at hscan
    simp only [hscan, dropIf_close (by decide : isWs (byte '}') = false)]

/-- The elements of an array, up to its closing bracket. -/
theorem RendersElements.scan (hl : Lexes S N stod) {xs : List Value} {t : Bytes}
    (h : RendersElements S N xs t) {n k : Nat} {w r : Bytes} (hn : t.length < n)
    (hk : t.length < k) (hw : Blank w) :
    ∃ raws, scanElements (scanValue k) n (w ++ (t ++ byte ']' :: r)) =
        (raws, byte ']' :: r) ∧
      ∀ ys, convertElements stod raws (.array ys) = .ok (.array (ys ++ xs)) := by
  obtain ⟨n, rfl⟩ : ∃ m, n = m + 1 := ⟨n - 1, by omega⟩
  match h with
  | .one (t := u) (w := w') hv hw' =>
    rw [List.length_append] at hk
    obtain ⟨raw, hscan, hconv⟩ := hv.scan hl (w := w) (r := w' ++ byte ']' :: r) (n := k)
      (by omega) hw fun _ _ => stops_blank_append hw' (stops_cons (by decide))
    refine ⟨[raw], ?_, fun ys => by simp [convertElements, hconv, Value.push]⟩
    rw [List.append_assoc, scanElements, if_neg (by simp), hscan]
    simp only [scanWs_append_cons hw' (by decide : isWs (byte ']') = false),
      accept_byte_ne (by decide : byte ']' ≠ byte ',')]
  | .more (t := u) (a := w₁) (b := w₂) (r := ts) hv hw₁ hw₂ hx =>
    simp only [List.length_append, List.length_cons] at hn hk
    obtain ⟨raw, hscan, hconv⟩ := hv.scan hl (w := w)
      (r := w₁ ++ byte ',' :: (w₂ ++ (ts ++ byte ']' :: r))) (n := k)
      (by omega) hw fun _ _ => stops_blank_append hw₁ (stops_cons (by decide))
    obtain ⟨raws, hrest, hrestc⟩ := hx.scan hl (n := n) (k := k) (w := w₂) (r := r)
      (by omega) (by omega) hw₂
    refine ⟨raw :: raws, ?_, fun ys => ?_⟩
    · simp only [List.append_assoc, List.cons_append]
      rw [scanElements, if_neg (by simp), hscan]
      simp only [scanWs_append_cons hw₁ (by decide : isWs (byte ',') = false), accept_byte,
        hrest]
    · simp [convertElements, hconv, Value.push, hrestc]

/-- One member: its key is found at the quote, its value behind the colon. -/
theorem RendersMember.scan (hl : Lexes S N stod) {m : Bytes × Value} {t : Bytes}
    (h : RendersMember S N m t) {k : Nat} {w r : Bytes} (hk : t.length < k) (hw : Blank w)
    (hr : Stops r) :
    ∃ t₁ raw, accept (· == byte '"') (scanWs (w ++ (t ++ r))) = some t₁ ∧
      scanValue k (dropIf (· == byte ':') (scanWs (scanString t₁).2)) = (raw, r) ∧
      convertString (scanString t₁).1 = .ok m.1 ∧ raw.convert stod = .ok m.2 := by
  match h with
  | .mk (s := tk) (a := w₁) (b := w₂) (t := u) hs hw₁ hw₂ hv =>
    simp only [List.length_cons, List.length_append] at hk
    obtain ⟨raw, hscan, hconv⟩ := hv.scan hl (w := w₂) (r := r) (n := k) (by omega) hw₂
      fun _ _ => hr
    obtain ⟨ps, hstr, hkey⟩ := hl.string hs (w₁ ++ byte ':' :: (w₂ ++ (u ++ r)))
    refine ⟨tk ++ byte '"' :: (w₁ ++ byte ':' :: (w₂ ++ (u ++ r))), raw, ?_, ?_, ?_, hconv⟩
    · simp only [List.append_assoc, List.cons_append]
      rw [scanWs_append_cons hw (by decide), accept_byte]
    · rw [hstr]
      simp only [scanWs_append_cons hw₁ (by decide : isWs (byte ':') = false), dropIf,
        accept_byte, Option.getD_some, hscan]
    · rw [hstr]; exact hkey

/-- The members of an object, up to its closing brace. -/
theorem RendersMembers.scan (hl : Lexes S N stod) {ms : List (Bytes × Value)} {t : Bytes}
    (h : RendersMembers S N ms t) {n k : Nat} {w r : Bytes} (hn : t.length < n)
    (hk : t.length < k) (hw : Blank w) :
    ∃ raws, scanMembers (scanValue k) n (w ++ (t ++ byte '}' :: r)) =
        (raws, byte '}' :: r) ∧
      ∀ kvs, convertMembers stod raws (.object kvs) =
        .ok (.object (ms.foldl (fun m p => SortedMap.insert p.1 p.2 m) kvs)) := by
  obtain ⟨n, rfl⟩ : ∃ m, n = m + 1 := ⟨n - 1, by omega⟩
  match h with
  | .one (t := u) (w := w') hm hw' =>
    rw [List.length_append] at hk
    obtain ⟨t₁, raw, hquote, hscan, hkey, hconv⟩ := hm.scan hl (w := w)
      (r := w' ++ byte '}' :: r) (k := k) (by omega) hw
      (stops_blank_append hw' (stops_cons (by decide)))
    refine ⟨[((scanString t₁).1, raw)], ?_, fun kvs => ?_⟩
    · rw [List.append_assoc, scanMembers, hquote]
      simp only [hscan, scanWs_append_cons hw' (by decide : isWs (byte '}') = false),
        accept_byte_ne (by decide : byte '}' ≠ byte ',')]
    · simp [convertMembers, hkey, hconv, Value.set]
  | .more (t := u) (a := w₁) (b := w₂) (r := ts) hm hw₁ hw₂ hx =>
    simp only [List.length_append, List.length_cons] at hn hk
    obtain ⟨t₁, raw, hquote, hscan, hkey, hconv⟩ := hm.scan hl (w := w)
      (r := w₁ ++ byte ',' :: (w₂ ++ (ts ++ byte '}' :: r))) (k := k) (by omega) hw
      (stops_blank_append hw₁ (stops_cons (by decide)))
    obtain ⟨raws, hrest, hrestc⟩ := hx.scan hl (n := n) (k := k) (w := w₂) (r := r)
      (by omega) (by omega) hw₂
    refine ⟨((scanString t₁).1, raw) :: raws, ?_, fun kvs => ?_⟩
    · simp only [List.append_assoc, List.cons_append]
      rw [scanMembers, hquote]
      simp only [hscan, scanWs_append_cons hw₁ (by decide : isWs (byte ',') = false),
        accept_byte, hrest]
    · simp [convertMembers, hkey, hconv, Value.set, hrestc]
end

/-- **The parser understands a text of the grammar.** -/
theorem RendersText.parse (hl : Lexes S N stod) {v : Value} {t : Bytes}
    (h : RendersText S N v t) : Json.parse stod t = .ok v := by
  obtain ⟨w, u, w', hw, hw', hu, rfl⟩ := h
  obtain ⟨raw, hscan, hconv⟩ := hu.scan hl (n := (w ++ (u ++ w')).length + 1)
    (by simp only [List.length_append]; omega) hw
    (fun _ _ => by simpa using stops_blank_append hw' stops_nil)
  rw [parse_eq, scan, hscan, hconv]
  rfl

/-- Inside a larger text, the parser stops right behind the rendering. -/
theorem Renders.parseValue (hl : Lexes S N stod) {v : Value} {t : Bytes} (h : Renders S N v t)
    (pre : Bytes) {r : Bytes} (hr : Stops r) {n : Nat} (hn : (pre ++ (t ++ r)).length < n) :
    Json.parseValue stod (pre ++ (t ++ r)) n pre.length = .ok (v, pre.length + t.length) := by
  have hsuffix : (t ++ r) <:+ pre ++ (t ++ r) := List.suffix_append _ _
  simp only [List.length_append] at hn
  obtain ⟨raw, hscan, hconv⟩ := h.scan hl (n := n) (w := []) (by omega) (by simp [Blank])
    fun _ _ => hr
  have hstart : pos (pre ++ (t ++ r)) (t ++ r) = pre.length := by simp [pos]
  have hstop : pos (pre ++ (t ++ r)) r = pre.length + t.length := by
    simp only [pos, List.length_append]
    omega
  have hrun := @parseValue_pos stod _ n (t ++ r) hsuffix
    (by simp only [List.length_append]; omega)
  rw [List.nil_append] at hscan
  rw [hstart, hscan, hconv, deliver_ok, hstop] at hrun
  exact hrun

end

end QjsDebug.Json
