/-
# What `serialize` prints is JSON

A sentence of the JSON grammar over bytes: the grammar of `Json.Grammar` with the string bodies
of the standard, every byte above 0x7F counted as an ordinary character, and its number tokens.
What a sentence denotes does not matter here.

`serialize` prints one for every tree whose numbers are finite, and for no other: NaN and the
infinities go through `snprintf("%.17g")` to `nan`, `inf` and their negatives, which no
production has.  That they spoil the whole text is shown by counting: outside of string
literals, a sentence has as many `a` as `s` (both only in `false`) and no `i`, and each of the
four texts has one `a` or one `i` too many (`Balanced`).
-/
import Mathlib.Data.Nat.Digits.Lemmas
import QjsDebug.Json.Document

namespace QjsDebug.Json

/-! ## 1. Sentences -/

/-- A byte that may stand in a string literal as it is. -/
def IsUnescaped (c : UInt8) : Prop := 0x20 ≤ c ∧ c ≠ byte '"' ∧ c ≠ byte '\\'

/-- `*char` over bytes. -/
inductive IsStringBody : Bytes → Prop
  | nil : IsStringBody []
  | unescaped {c t} : IsUnescaped c → IsStringBody t → IsStringBody (c :: t)
  | short {e t} : e ∈ shortEscapes.map Prod.fst → IsStringBody t →
      IsStringBody (byte '\\' :: e :: t)
  | unicode {h i j k a b d e t} : IsHex h a → IsHex i b → IsHex j d → IsHex k e → IsStringBody t →
      IsStringBody (byte '\\' :: byte 'u' :: h :: i :: j :: k :: t)

/-- A JSON text. -/
def Sentence (t : Bytes) : Prop :=
  ∃ v, RendersText (fun _ => IsStringBody) (fun _ => IsNumber) v t

/-! ## 2. Strings and numbers are printed well -/

/-- One turn of the loop that prints a string adds one character to a body. -/
theorem isStringBody_escapeByte (c : UInt8) {t : Bytes} (h : IsStringBody t) :
    IsStringBody (escapeByte c ++ t) := by
  have hshort : ∀ e : UInt8, e ∈ shortEscapes.map Prod.fst → escapeByte c = [byte '\\', e] →
      IsStringBody (escapeByte c ++ t) := by
    intro e he hc
    rw [hc]
    exact .short he h
  by_cases h₁ : c = byte '"'
  · exact hshort (byte '"') (by decide) (by rw [h₁]; decide)
  by_cases h₂ : c = byte '\\'
  · exact hshort (byte '\\') (by decide) (by rw [h₂]; decide)
  by_cases h₃ : c = 0x08
  · exact hshort (byte 'b') (by decide) (by rw [h₃]; decide)
  by_cases h₄ : c = 0x0C
  · exact hshort (byte 'f') (by decide) (by rw [h₄]; decide)
  by_cases h₅ : c = 0x0A
  · exact hshort (byte 'n') (by decide) (by rw [h₅]; decide)
  by_cases h₆ : c = 0x0D
  · exact hshort (byte 'r') (by decide) (by rw [h₆]; decide)
  by_cases h₇ : c = 0x09
  · exact hshort (byte 't') (by decide) (by rw [h₇]; decide)
  by_cases h₈ : c < 0x20
  · have hesc : escapeByte c = unicodeEscape c := by
      simp only [escapeByte, h₁, h₂, h₃, h₄, h₅, h₆, h₇, h₈, if_true, if_false]
    have hhex : ∀ n : Nat, n < 16 → IsHex (hexDigit n) n := by
      intro n hn
      exact ⟨hn, .inl rfl⟩
    have hzero : IsHex (byte '0') 0 := by decide
    have hlt : c.toNat < 32 := UInt8.lt_iff_toNat_lt.mp h₈
    rw [hesc]
    exact .unicode hzero hzero (hhex (c.toNat / 16) (by omega)) (hhex (c.toNat % 16) (by omega)) h
  · have hesc : escapeByte c = [c] := by
      simp only [escapeByte, h₁, h₂, h₃, h₄, h₅, h₆, h₇, h₈, if_false]
    rw [hesc]
    exact .unescaped ⟨by simpa using h₈, h₁, h₂⟩ h

theorem isStringBody_flatMap_escapeByte (bs : Bytes) : IsStringBody (bs.flatMap escapeByte) := by
  induction bs with
  | nil => exact .nil
  | cons c bs ih =>
    rw [List.flatMap_cons]
    exact isStringBody_escapeByte c ih

/-- No superfluous zero is printed in front. -/
theorem decimalDigits_head {n : Nat} {ds : List Nat} (h : decimalDigits n = 0 :: ds) : ds = [] := by
  unfold decimalDigits at h
  split at h
  · cases h
    rfl
  · rename_i hn
    have hrev : Nat.digits 10 n = ds.reverse ++ [0] := by
      rw [← List.reverse_reverse (Nat.digits 10 n), h, List.reverse_cons]
    have hlast := Nat.getLast_digit_ne_zero 10 hn
    simp only [hrev, List.getLast_append_singleton] at hlast
    exact absurd rfl hlast

/-- A decimal integer is a number token of the standard. -/
theorem isNumber_decimal (n : Int) : IsNumber (decimal n) := by
  have hlead : ∀ r, (decimalDigits n.natAbs).map digitByte = byte '0' :: r → r = [] := by
    intro r hr
    obtain ⟨d, ds, hds, hd, rfl⟩ := List.map_eq_cons_iff.mp hr
    have hlt : d < 10 := lt_ten_of_mem_decimalDigits (hds ▸ List.mem_cons_self)
    have hzero : ∀ k : Fin 10, digitByte k = byte '0' → k.val = 0 := by decide
    obtain rfl : d = 0 := hzero ⟨d, hlt⟩ hd
    rw [decimalDigits_head hds, List.map_nil]
  have h := @IsNumber.mk (if n < 0 then [byte '-'] else []) _ _ _ (by split <;> simp)
    (isDigits_decimalDigits n.natAbs) hlead .absent .absent
  rwa [List.append_nil, List.append_nil] at h

def Double.IsFinite : Double → Prop
  | .finite _ => True
  | _ => False

/-- What is documented of `snprintf("%.17g")`: a finite double is printed as a decimal literal
with optional fraction and exponent, any other as one of four texts. -/
structure Prints17g (fmt17g : Double → Bytes) : Prop where
  finite : ∀ q, IsNumber (fmt17g (.finite q))
  other : ∀ d : Double, ¬ d.IsFinite →
    fmt17g d ∈ [ascii "nan", ascii "-nan", ascii "inf", ascii "-inf"]

section

variable {fmt17g : Double → Bytes}

theorem isNumber_serializeNumber (h : Prints17g fmt17g) {d : Double} (hd : d.IsFinite) :
    IsNumber (serializeNumber fmt17g d) := by
  cases d with
  | finite q =>
    by_cases hq : q.den = 1 ∧ q.num.natAbs ≤ 10 ^ 15
    · rw [serializeNumber, if_pos hq]
      exact isNumber_decimal q.num
    · rw [serializeNumber, if_neg hq]
      exact h.finite q
  | infinite | nan => exact absurd hd id

/-- A tree of finite numbers is printed as a sentence. -/
theorem sentence_serialize (h : Prints17g fmt17g) {v : Value}
    (hv : v.AllNumbers Double.IsFinite) : Sentence (serialize fmt17g v) := by
  refine ⟨v.rebuild, [], serialize fmt17g v, [], blank_nil, blank_nil, ?_, by simp⟩
  exact renders_rebuild fmt17g isStringBody_flatMap_escapeByte v
    (.mono (fun _ hd => isNumber_serializeNumber h hd) v hv)

end

/-! ## 3. Outside of string literals -/

/-- Where a reader of the text is. -/
inductive Mode
  | plain
  | string
  /-- Behind a backslash. -/
  | escape

/-- The bytes outside of string literals, the opening quotes among them. -/
def outside : Mode → Bytes → Bytes
  | _, [] => []
  | .plain, c :: t => c :: outside (if c = byte '"' then .string else .plain) t
  | .string, c :: t =>
    outside (if c = byte '"' then .plain else if c = byte '\\' then .escape else .string) t
  | .escape, _ :: t => outside .string t

/-- The text is whole as to its literals, and outside of them has `n` more of `a` and `i`
together than of `s`. -/
def Balanced (n : Nat) (t : Bytes) : Prop :=
  ∃ u, (∀ r, outside .plain (t ++ r) = u ++ outside .plain r) ∧
    u.count (byte 'a') + u.count (byte 'i') = u.count (byte 's') + n

/-- The count is that of the text. -/
theorem Balanced.unique {m n : Nat} {t : Bytes} (hm : Balanced m t) (hn : Balanced n t) :
    m = n := by
  obtain ⟨u, hu, hcount⟩ := hm
  obtain ⟨u', hu', hcount'⟩ := hn
  have hsame : u = u' := by
    have h := (hu []).symm.trans (hu' [])
    simpa [outside] using h
  subst hsame
  omega

theorem Balanced.append {m n : Nat} {t t' : Bytes} (h : Balanced m t) (h' : Balanced n t') :
    Balanced (m + n) (t ++ t') := by
  obtain ⟨u, hu, hcount⟩ := h
  obtain ⟨u', hu', hcount'⟩ := h'
  refine ⟨u ++ u', ?_, ?_⟩
  · intro r
    rw [List.append_assoc, hu, hu', List.append_assoc]
  · simp only [List.count_append]
    omega

/-- Without a quote, all of the text is outside. -/
theorem outside_plain {t : Bytes} (hq : byte '"' ∉ t) (r : Bytes) :
    outside .plain (t ++ r) = t ++ outside .plain r := by
  induction t with
  | nil => rfl
  | cons c t ih =>
    rw [List.mem_cons, not_or] at hq
    obtain ⟨hc, ht⟩ := hq
    rw [List.cons_append, outside, if_neg (Ne.symm hc), ih ht, List.cons_append]

theorem balanced_plain {n : Nat} {t : Bytes} (hq : byte '"' ∉ t)
    (hcount : t.count (byte 'a') + t.count (byte 'i') = t.count (byte 's') + n) : Balanced n t :=
  ⟨t, outside_plain hq, hcount⟩

/-- None of the bytes that matter. -/
def IsQuiet (c : UInt8) : Prop :=
  c ≠ byte '"' ∧ c ≠ byte 'a' ∧ c ≠ byte 'i' ∧ c ≠ byte 's'

instance (c : UInt8) : Decidable (IsQuiet c) := inferInstanceAs (Decidable (_ ∧ _))

theorem balanced_quiet {t : Bytes} (h : ∀ c ∈ t, IsQuiet c) : Balanced 0 t := by
  have hzero : ∀ d : UInt8, (∀ c, IsQuiet c → c ≠ d) → t.count d = 0 := by
    intro d hd
    exact List.count_eq_zero.mpr fun hmem => hd d (h d hmem) rfl
  apply balanced_plain (fun hmem => (h _ hmem).1 rfl)
  rw [hzero _ fun c hc => hc.2.1, hzero _ fun c hc => hc.2.2.1, hzero _ fun c hc => hc.2.2.2]

/-- One byte of punctuation. -/
theorem balanced_byte {c : UInt8} (h : IsQuiet c) : Balanced 0 [c] :=
  balanced_quiet (by simpa using h)

/-- A hexadecimal digit does not end a literal. -/
theorem isHex_plain {h : UInt8} {d : Nat} (hd : IsHex h d) : IsPlain h := by
  have key : ∀ d : Fin 16, (hexDigit d ≠ byte '"' ∧ hexDigit d ≠ byte '\\') ∧
      ((if d.1 < 10 then UInt8.ofNat (48 + d) else UInt8.ofNat (55 + d)) ≠ byte '"' ∧
        (if d.1 < 10 then UInt8.ofNat (48 + d) else UInt8.ofNat (55 + d)) ≠ byte '\\') := by
    decide
  obtain ⟨hlt, heq⟩ := hd
  rcases heq with rfl | rfl
  · exact (key ⟨d, hlt⟩).1
  · exact (key ⟨d, hlt⟩).2

theorem outside_string_cons {c : UInt8} (hc : IsPlain c) (t : Bytes) :
    outside .string (c :: t) = outside .string t := by
  rw [outside, if_neg hc.1, if_neg hc.2]

theorem outside_string_escape (e : UInt8) (t : Bytes) :
    outside .string (byte '\\' :: e :: t) = outside .string t := by
  have hne : byte '\\' ≠ byte '"' := by decide
  rw [outside, if_neg hne, if_pos rfl, outside]

/-- The body of a literal is inside. -/
theorem outside_isStringBody {t : Bytes} (h : IsStringBody t) (r : Bytes) :
    outside .string (t ++ byte '"' :: r) = outside .plain r := by
  induction h with
  | nil => rw [List.nil_append, outside, if_pos rfl]
  | unescaped hc _ ih => rw [List.cons_append, outside_string_cons hc.2, ih]
  | short _ _ ih => rw [List.cons_append, List.cons_append, outside_string_escape, ih]
  | unicode hh hi hj hk _ ih =>
    simp only [List.cons_append]
    rw [outside_string_escape, outside_string_cons (isHex_plain hh),
      outside_string_cons (isHex_plain hi), outside_string_cons (isHex_plain hj),
      outside_string_cons (isHex_plain hk), ih]

theorem balanced_string {t : Bytes} (h : IsStringBody t) :
    Balanced 0 (byte '"' :: (t ++ [byte '"'])) := by
  refine ⟨[byte '"'], ?_, by decide⟩
  intro r
  have hbody := outside_isStringBody h r
  simp only [List.cons_append, List.append_assoc, List.nil_append, List.cons_append, outside,
    if_true]
  rw [hbody]

/-! ## 4. Sentences are balanced -/

theorem balanced_blank {w : Bytes} (h : Blank w) : Balanced 0 w := by
  apply balanced_quiet
  intro c hc
  have hws := h c hc
  simp only [isWs, Bool.or_eq_true, beq_iff_eq] at hws
  rcases hws with ((rfl | rfl) | rfl) | rfl <;> decide

theorem isQuiet_of_isDigit {c : UInt8} (h : isDigit c = true) : IsQuiet c := by
  have key : ∀ c : Fin 256, isDigit (UInt8.ofNat c) = true → IsQuiet (UInt8.ofNat c) := by
    decide +kernel
  have hc := key ⟨c.toNat, c.toNat_lt⟩
  rw [UInt8.ofNat_toNat] at hc
  exact hc h

theorem balanced_digits {t : Bytes} (h : IsDigits t) : Balanced 0 t :=
  balanced_quiet fun c hc => isQuiet_of_isDigit (h.2 c hc)

theorem balanced_number {t : Bytes} (h : IsNumber t) : Balanced 0 t := by
  cases h with
  | @mk s i f e hs hi _ hf he =>
    have hsign : Balanced 0 s := by
      rcases hs with rfl | rfl
      · exact balanced_quiet (by simp)
      · exact balanced_byte (by decide)
    have hfrac : Balanced 0 f := by
      cases hf with
      | absent => exact balanced_quiet (by simp)
      | present ht =>
        have hdot : Balanced 0 [byte '.'] := balanced_byte (by decide)
        exact hdot.append (balanced_digits ht)
    have hexp : Balanced 0 e := by
      cases he with
      | absent => exact balanced_quiet (by simp)
      | @present c s t hc hs ht =>
        have hmark : Balanced 0 [c] := by
          rcases hc with rfl | rfl <;> exact balanced_byte (by decide)
        have hsign : Balanced 0 s := by
          rcases hs with rfl | rfl | rfl
          · exact balanced_quiet (by simp)
          · exact balanced_byte (by decide)
          · exact balanced_byte (by decide)
        exact hmark.append (hsign.append (balanced_digits ht))
    exact hsign.append ((balanced_digits hi).append (hfrac.append hexp))

theorem balanced_null : Balanced 0 (ascii "null") := balanced_plain (by decide) (by decide)

theorem balanced_bool (b : Bool) : Balanced 0 (if b then ascii "true" else ascii "false") := by
  cases b with
  | true => exact balanced_plain (by decide) (by decide)
  | false => exact balanced_plain (by decide) (by decide)

/-- The strings and numbers of sentences. -/
abbrev Body (_ : Bytes) (t : Bytes) : Prop := IsStringBody t
abbrev Token (_ : Double) (t : Bytes) : Prop := IsNumber t

mutual
/-- **A sentence is balanced**, by induction on its derivation. -/
theorem Renders.balanced {v : Value} {t : Bytes} (h : Renders Body Token v t) : Balanced 0 t := by
  match h with
  | .null => exact balanced_null
  | .bool b => exact balanced_bool b
  | .number ht => exact balanced_number ht
  | .string ht => exact balanced_string ht
  | .emptyArray hw =>
    exact (balanced_byte (by decide)).append
      ((balanced_blank hw).append (balanced_byte (by decide)))
  | .array hw hxs =>
    exact (balanced_byte (by decide)).append ((balanced_blank hw).append
      (hxs.balanced.append (balanced_byte (by decide))))
  | .emptyObject hw =>
    exact (balanced_byte (by decide)).append
      ((balanced_blank hw).append (balanced_byte (by decide)))
  | .object hw hms =>
    exact (balanced_byte (by decide)).append ((balanced_blank hw).append
      (hms.balanced.append (balanced_byte (by decide))))
theorem RendersElements.balanced {vs : List Value} {t : Bytes}
    (h : RendersElements Body Token vs t) : Balanced 0 t := by
  match h with
  | .one hv hw => exact hv.balanced.append (balanced_blank hw)
  | .more hv ha hb hvs =>
    exact hv.balanced.append ((balanced_blank ha).append
      ((balanced_byte (by decide)).append ((balanced_blank hb).append hvs.balanced)))
theorem RendersMember.balanced {m : Bytes × Value} {t : Bytes}
    (h : RendersMember Body Token m t) : Balanced 0 t := by
  match h with
  | .mk hk ha hb hv =>
    have hkey := (balanced_string hk).append ((balanced_blank ha).append
      ((balanced_byte (by decide : IsQuiet (byte ':'))).append ((balanced_blank hb).append
        hv.balanced)))
    simpa using hkey
theorem RendersMembers.balanced {ms : List (Bytes × Value)} {t : Bytes}
    (h : RendersMembers Body Token ms t) : Balanced 0 t := by
  match h with
  | .one hm hw => exact hm.balanced.append (balanced_blank hw)
  | .more hm ha hb hms =>
    exact hm.balanced.append ((balanced_blank ha).append
      ((balanced_byte (by decide)).append ((balanced_blank hb).append hms.balanced)))
end

theorem Sentence.balanced {t : Bytes} (h : Sentence t) : Balanced 0 t := by
  obtain ⟨v, w, u, w', hw, hw', hu, rfl⟩ := h
  exact (balanced_blank hw).append (hu.balanced.append (balanced_blank hw'))

/-! ## 5. What is printed is balanced up to the numbers that are not finite -/

mutual
/-- How many numbers of the tree are not finite. -/
def Value.unusual : Value → Nat
  | .number (.finite _) => 0
  | .number _ => 1
  | .array xs => unusuals xs
  | .object kvs => unusualm kvs
  | _ => 0
def Value.unusuals : List Value → Nat
  | [] => 0
  | v :: vs => v.unusual + unusuals vs
def Value.unusualm : List (Bytes × Value) → Nat
  | [] => 0
  | (_, v) :: kvs => v.unusual + unusualm kvs
end

mutual
theorem Value.allNumbers_of_unusual : (v : Value) → v.unusual = 0 → v.AllNumbers Double.IsFinite
  | .number (.finite _), _ => trivial
  | .number (.infinite _), h | .number .nan, h => absurd h (by simp [Value.unusual])
  | .array xs, h => Value.allNumberss_of_unusual xs h
  | .object kvs, h => Value.allNumbersm_of_unusual kvs h
  | .null, _ | .bool _, _ | .string _, _ => trivial
theorem Value.allNumberss_of_unusual : (vs : List Value) → Value.unusuals vs = 0 →
    Value.AllNumberss Double.IsFinite vs
  | [], _ => trivial
  | v :: vs, h => by
    rw [Value.unusuals] at h
    exact ⟨v.allNumbers_of_unusual (by omega), Value.allNumberss_of_unusual vs (by omega)⟩
theorem Value.allNumbersm_of_unusual : (kvs : List (Bytes × Value)) → Value.unusualm kvs = 0 →
    Value.AllNumbersm Double.IsFinite kvs
  | [], _ => trivial
  | (k, v) :: kvs, h => by
    rw [Value.unusualm] at h
    exact ⟨v.allNumbers_of_unusual (by omega), Value.allNumbersm_of_unusual kvs (by omega)⟩
end

section

variable {fmt17g : Double → Bytes}

/-- A finite number is quiet, each of the others has one `a` or one `i`. -/
theorem balanced_serializeNumber (h : Prints17g fmt17g) (d : Double) :
    Balanced (Value.number d).unusual (serializeNumber fmt17g d) := by
  have hother : ∀ d : Double, ¬ d.IsFinite → Balanced 1 (fmt17g d) := by
    intro d hd
    have htexts : ∀ t ∈ [ascii "nan", ascii "-nan", ascii "inf", ascii "-inf"],
        byte '"' ∉ t ∧
          t.count (byte 'a') + t.count (byte 'i') = t.count (byte 's') + 1 := by decide
    obtain ⟨hquote, hcount⟩ := htexts _ (h.other d hd)
    exact balanced_plain hquote hcount
  cases d with
  | finite q => exact balanced_number (isNumber_serializeNumber h trivial)
  | infinite negative => exact hother _ id
  | nan => exact hother _ id

/-- A separator, or nothing. -/
theorem balanced_comma (first : Bool) : Balanced 0 (if first then [] else [byte ',']) := by
  cases first with
  | true => exact balanced_quiet (by simp)
  | false => exact balanced_byte (by decide)

mutual
/-- **The printed text**, by induction on the tree. -/
theorem balanced_serialize (h : Prints17g fmt17g) : (v : Value) →
    Balanced v.unusual (serialize fmt17g v)
  | .null => balanced_null
  | .bool b => balanced_bool b
  | .number d => balanced_serializeNumber h d
  | .string bs => balanced_string (isStringBody_flatMap_escapeByte bs)
  | .array xs => by
    have hopen : Balanced 0 [byte '['] := balanced_byte (by decide)
    have hclose : Balanced 0 [byte ']'] := balanced_byte (by decide)
    have hall := hopen.append ((balanced_serializeElements h true xs).append hclose)
    rwa [Nat.zero_add, Nat.add_zero] at hall
  | .object kvs => by
    have hopen : Balanced 0 [byte '{'] := balanced_byte (by decide)
    have hclose : Balanced 0 [byte '}'] := balanced_byte (by decide)
    have hall := hopen.append ((balanced_serializeMembers h true kvs).append hclose)
    rwa [Nat.zero_add, Nat.add_zero] at hall
theorem balanced_serializeElements (h : Prints17g fmt17g) (first : Bool) : (vs : List Value) →
    Balanced (Value.unusuals vs) (serializeElements fmt17g first vs)
  | [] => balanced_quiet (by simp [serializeElements])
  | v :: vs => by
    have hall := (balanced_comma first).append
      ((balanced_serialize h v).append (balanced_serializeElements h false vs))
    rwa [Nat.zero_add] at hall
theorem balanced_serializeMembers (h : Prints17g fmt17g) (first : Bool) :
    (kvs : List (Bytes × Value)) →
    Balanced (Value.unusualm kvs) (serializeMembers fmt17g first kvs)
  | [] => balanced_quiet (by simp [serializeMembers])
  | (k, v) :: kvs => by
    have hkey : Balanced 0 (serializeString k) :=
      balanced_string (isStringBody_flatMap_escapeByte k)
    have hcolon : Balanced 0 [byte ':'] := balanced_byte (by decide)
    have hall := (balanced_comma first).append (hkey.append (hcolon.append
      ((balanced_serialize h v).append (balanced_serializeMembers h false kvs))))
    simp only [Nat.zero_add] at hall
    rw [serializeMembers]
    exact hall
end

/-! ## 6. When the text is JSON -/

/-- **When what is printed is JSON**: for the trees whose numbers are finite, and for no other. -/
theorem sentence_serialize_iff (h : Prints17g fmt17g) (v : Value) :
    Sentence (serialize fmt17g v) ↔ v.AllNumbers Double.IsFinite := by
  constructor
  · intro hs
    apply Value.allNumbers_of_unusual
    exact (balanced_serialize h v).unique hs.balanced
  · exact sentence_serialize h

end

/-- `%.17g` where the samples below use it: integers, one half, and what is not finite. -/
def sample17g : Double → Bytes
  | .finite q => if q = 1 / 2 then ascii "0.5" else decimal q.num
  | .infinite negative => if negative then ascii "-inf" else ascii "inf"
  | .nan => ascii "nan"

theorem prints17g_sample17g : Prints17g sample17g := by
  constructor
  · intro q
    simp only [sample17g]
    by_cases hq : q = 1 / 2
    · rw [if_pos hq]
      have hlead : ∀ r, ascii "0" = byte '0' :: r → r = [] := by
        intro r hr
        have hlength : 1 = r.length + 1 := congrArg List.length hr
        exact List.length_eq_zero_iff.mp (by omega)
      have hdigits : ∀ t, t ≠ [] → t.all isDigit = true → IsDigits t := by
        intro t hne hall
        exact ⟨hne, List.all_eq_true.mp hall⟩
      exact @IsNumber.mk [] (ascii "0") (ascii ".5") [] (.inl rfl)
        (hdigits _ (by decide) (by decide)) hlead (.present (hdigits _ (by decide) (by decide)))
        .absent
    · rw [if_neg hq]
      exact isNumber_decimal q.num
  · intro d hd
    cases d with
    | finite q => exact absurd trivial hd
    | infinite negative => cases negative <;> decide
    | nan => decide

theorem sentence_serialize_iff_half :
    Sentence
      (serialize sample17g (.array [.number (.finite (1 / 2)), .string [0xC3, 0xA9, 0x0A]])) :=
  (sentence_serialize_iff prints17g_sample17g _).mpr ⟨trivial, trivial, trivial⟩

/-- One NaN in a tree, and the text is no JSON. -/
theorem nan_is_not_json :
    serialize sample17g (.object [(ascii "value", .number .nan)]) = ascii "\x7b\"value\":nan\x7d" ∧
      ¬ Sentence (serialize sample17g (.object [(ascii "value", .number .nan)])) := by
  refine ⟨by decide, ?_⟩
  intro hs
  have hone := balanced_serialize prints17g_sample17g (.object [(ascii "value", .number .nan)])
  exact absurd (hone.unique hs.balanced) (by decide)

end QjsDebug.Json
