/-
# Every JSON document is understood

The strings and number tokens of standard JSON, plugged into the grammar of `Json.Grammar`.  A
string is a sequence of characters; each may stand for itself in UTF-8, unless it is a
control character, the quote or the backslash, may have its short escape, and, up to U+FFFF,
a `\u` escape with hex digits of either case.  Surrogates are no characters, so a pair of `\u`
escapes for one character is not among the renderings: `parse_string` decodes the two halves
on their own.

A number token denotes what `std::stod` makes of it.
-/
import QjsDebug.Json.RoundTrip

namespace QjsDebug.Json

/-! ## 1. The grammar of strings and numbers -/

/-- `HEXDIG` of either case, and its value. -/
def IsHex (h : UInt8) (d : Nat) : Prop :=
  d < 16 ∧ (h = hexDigit d ∨ h = if d < 10 then UInt8.ofNat (48 + d) else UInt8.ofNat (55 + d))

instance (h : UInt8) (d : Nat) : Decidable (IsHex h d) := inferInstanceAs (Decidable (_ ∧ _))

/-- The escapes of two characters. -/
def shortEscapes : List (UInt8 × Char) :=
  [(byte '"', '"'), (byte '\\', '\\'), (byte '/', '/'), (byte 'b', '\x08'), (byte 'f', '\x0C'),
    (byte 'n', '\n'), (byte 'r', '\r'), (byte 't', '\t')]

/-- `char`: how one character may be written. -/
inductive RendersChar (c : Char) : Bytes → Prop
  | unescaped : 0x20 ≤ c.toNat → c ≠ '"' → c ≠ '\\' → RendersChar c (String.utf8EncodeChar c)
  | short {e} : (e, c) ∈ shortEscapes → RendersChar c [byte '\\', e]
  | unicode {h i j k a b d e} : IsHex h a → IsHex i b → IsHex j d → IsHex k e →
      c.toNat = 4096 * a + 256 * b + 16 * d + e →
      RendersChar c [byte '\\', byte 'u', h, i, j, k]

/-- `*char`, and the UTF-8 of what it denotes. -/
inductive RendersChars : Bytes → Bytes → Prop
  | nil : RendersChars [] []
  | cons {c t bs r} : RendersChar c t → RendersChars bs r →
      RendersChars (String.utf8EncodeChar c ++ bs) (t ++ r)

/-- `[ minus ] int [ frac ] [ exp ]` with `int = zero / ( digit1-9 *DIGIT )`. -/
inductive IsNumber : Bytes → Prop
  | mk {s i f e} : s = [] ∨ s = [byte '-'] → IsDigits i →
      (∀ r, i = byte '0' :: r → r = []) → IsFraction f → IsExponent e →
      IsNumber (s ++ (i ++ (f ++ e)))

/-- A number token on which `std::stod` does not throw, and what it returns. -/
def RendersNumber (stod : Bytes → Except Exn Double) (d : Double) (t : Bytes) : Prop :=
  IsNumber t ∧ stod t = .ok d

/-! ## 2. Characters that stand for themselves -/

/-- A byte `parse_string` copies. -/
def IsPlain (c : UInt8) : Prop := c ≠ byte '"' ∧ c ≠ byte '\\'

theorem scanString_append_plain {bs : Bytes} (h : ∀ c ∈ bs, IsPlain c) (t : Bytes) :
    scanString (bs ++ t) = (bs.map Piece.byte ++ (scanString t).1, (scanString t).2) := by
  induction bs with
  | nil => rfl
  | cons c bs ih =>
    obtain ⟨hq, hb⟩ := h c List.mem_cons_self
    rw [List.cons_append, scanString_plain hq hb, ih fun d hd => h d (List.mem_cons_of_mem _ hd)]
    rfl

theorem convertString_append {ps qs : List Piece} {a b : Bytes} (hp : convertString ps = .ok a)
    (hq : convertString qs = .ok b) : convertString (ps ++ qs) = .ok (a ++ b) := by
  induction ps generalizing a with
  | nil =>
    obtain rfl := Except.ok.inj hp
    exact hq
  | cons p ps ih =>
    rw [convertString] at hp
    cases hc : p.convert with
    | error e => rw [hc] at hp; exact absurd hp (by simp)
    | ok c =>
      rw [hc, ok_bind] at hp
      cases hr : convertString ps with
      | error e => rw [hr] at hp; exact absurd hp (by simp)
      | ok r =>
        rw [hr, ok_bind] at hp
        obtain rfl := Except.ok.inj hp
        simp [convertString, hc, ih hr]

theorem convertString_map_byte (bs : Bytes) : convertString (bs.map Piece.byte) = .ok bs := by
  induction bs with
  | nil => rfl
  | cons c bs ih => simp [convertString, Piece.convert, ih]

/-- A byte is plain when its number is that of neither character. -/
theorem isPlain_ofNat {n : Nat} (hlt : n < 256) (hq : n ≠ 34) (hb : n ≠ 92) :
    IsPlain (UInt8.ofNat n) := by
  have h34 : (byte '"').toNat = 34 := by decide
  have h92 : (byte '\\').toNat = 92 := by decide
  constructor <;> intro heq
  · have h := congrArg UInt8.toNat heq
    rw [UInt8.toNat_ofNat_of_lt' hlt, h34] at h
    exact hq h
  · have h := congrArg UInt8.toNat heq
    rw [UInt8.toNat_ofNat_of_lt' hlt, h92] at h
    exact hb h

/-- The UTF-8 of a character other than the quote and the backslash is plain. -/
theorem isPlain_utf8 {c : Char} (hq : c ≠ '"') (hb : c ≠ '\\') :
    ∀ b ∈ String.utf8EncodeChar c, IsPlain b := by
  have h34 : c.val.toNat ≠ 34 := fun h => hq (Char.toNat_inj.mp h)
  have h92 : c.val.toNat ≠ 92 := fun h => hb (Char.toNat_inj.mp h)
  intro b hmem
  unfold String.utf8EncodeChar at hmem
  generalize c.val.toNat = v at h34 h92 hmem
  dsimp only at hmem
  split at hmem
  · obtain rfl := List.mem_singleton.mp hmem
    exact isPlain_ofNat (by omega) h34 h92
  split at hmem
  · rcases List.mem_pair.mp hmem with rfl | rfl <;>
      exact isPlain_ofNat (by omega) (by omega) (by omega)
  split at hmem <;>
  · simp only [List.mem_cons, List.not_mem_nil, or_false] at hmem
    rcases hmem with rfl | rfl | rfl | rfl <;>
      exact isPlain_ofNat (by omega) (by omega) (by omega)

/-! ## 3. Escapes -/

/-- The bit operations of `parse_string` are the arithmetic of UTF-8. -/
theorem encodeEscape_eq {c : Char} (h : c.toNat < 0x10000) :
    encodeEscape c.toNat = String.utf8EncodeChar c := by
  have hlow : ∀ n : Nat, 0x80 ||| (n &&& 0x3F) = n % 64 + 128 := by
    intro n
    have hmask : n &&& 0x3F = n % 64 := Nat.and_two_pow_sub_one_eq_mod n 6
    have hor := Nat.two_pow_add_eq_or_of_lt (i := 6) (b := n % 64) (by omega) 2
    rw [hmask, Nat.add_comm]
    exact hor.symm
  have hshift : ∀ n i : Nat, n >>> i = n / 2 ^ i := Nat.shiftRight_eq_div_pow
  have htwo : c.toNat < 0x800 → 0xC0 ||| (c.toNat >>> 6) = c.toNat / 64 % 32 + 192 := by
    intro hlt
    have hor := Nat.two_pow_add_eq_or_of_lt (i := 5) (b := c.toNat / 64) (by omega) 6
    rw [hshift, (by omega : c.toNat / 64 % 32 = c.toNat / 64), Nat.add_comm]
    exact hor.symm
  have hthree : 0xE0 ||| (c.toNat >>> 12) = c.toNat / 4096 % 16 + 224 := by
    have hor := Nat.two_pow_add_eq_or_of_lt (i := 5) (b := c.toNat / 4096) (by omega) 7
    rw [hshift, (by omega : c.toNat / 4096 % 16 = c.toNat / 4096), Nat.add_comm]
    exact hor.symm
  have hval : c.val.toNat = c.toNat := rfl
  unfold encodeEscape String.utf8EncodeChar
  rw [hval]
  generalize c.toNat = v at h htwo hthree
  dsimp only
  have hsix : v >>> 6 = v / 64 := hshift v 6
  by_cases h₁ : v < 0x80
  · rw [if_pos h₁, if_pos (by omega : v ≤ 127)]
  rw [if_neg h₁, if_neg (by omega : ¬ v ≤ 127)]
  by_cases h₂ : v < 0x800
  · rw [if_pos h₂, if_pos (by omega : v ≤ 2047), htwo h₂, hlow]
  · rw [if_neg h₂, if_neg (by omega : ¬ v ≤ 2047), if_pos (by omega : v ≤ 65535), hthree,
      hlow, hlow, hsix]

theorem isHex_spec {h : UInt8} {d : Nat} (hd : IsHex h d) :
    digitValue h = some d ∧ isSpace h = false ∧ h ≠ byte '-' ∧ h ≠ byte '+' ∧
      h ≠ byte 'x' ∧ h ≠ byte 'X' := by
  have key : ∀ d : Fin 16, ∀ h ∈ [hexDigit d,
      if d.1 < 10 then UInt8.ofNat (48 + d) else UInt8.ofNat (55 + d)],
      digitValue h = some d.1 ∧ isSpace h = false ∧ h ≠ byte '-' ∧ h ≠ byte '+' ∧
        h ≠ byte 'x' ∧ h ≠ byte 'X' := by decide +kernel
  exact key ⟨d, hd.1⟩ h (by simpa using hd.2)

/-- Four hex digits convert to the bytes of the number they spell. -/
theorem decodeEscape_digits {h i j k : UInt8} {a b d e : Nat} (ha : IsHex h a) (hb : IsHex i b)
    (hd : IsHex j d) (he : IsHex k e) :
    decodeEscape [h, i, j, k] = .ok (encodeEscape (4096 * a + 256 * b + 16 * d + e)) := by
  have := ha.1
  have := hb.1
  have := hd.1
  have := he.1
  obtain ⟨va, hspace, hminus, hplus, -, -⟩ := isHex_spec ha
  obtain ⟨vb, -, -, -, hx, hX⟩ := isHex_spec hb
  obtain ⟨vd, -⟩ := isHex_spec hd
  obtain ⟨ve, -⟩ := isHex_spec he
  have hdigits : readDigits 16 [h, i, j, k] = [a, b, d, e] := by
    simp [readDigits, va, vb, vd, ve, ha.1, hb.1, hd.1, he.1]
  have hstrto : strto 16 [h, i, j, k] = some (false, 4096 * a + 256 * b + 16 * d + e) := by
    have hprefix : skipHexPrefix [h, i, j, k] = [h, i, j, k] := by
      simp [skipHexPrefix, hx, hX]
    simp only [strto, List.dropWhile_cons, hspace, Bool.false_eq_true, if_false, readSign, hminus,
      hplus, if_true, hprefix, hdigits]
    simp only [ofDigits, List.foldl_cons, List.foldl_nil]
    congr 2
    omega
  have hlt : ¬ 2 ^ 64 ≤ 4096 * a + 256 * b + 16 * d + e := by omega
  have hstoul : stoulHex [h, i, j, k] = .ok (4096 * a + 256 * b + 16 * d + e) := by
    simp only [stoulHex, hstrto, hlt, if_false, Bool.false_eq_true]
  have hmod : (4096 * a + 256 * b + 16 * d + e) % 2 ^ 32 = 4096 * a + 256 * b + 16 * d + e :=
    Nat.mod_eq_of_lt (by omega)
  simp only [decodeEscape, hstoul]
  rw [hmod]

/-- Four hex digits convert to the character they number. -/
theorem decodeEscape_hex {c : Char} {h i j k : UInt8} {a b d e : Nat} (ha : IsHex h a)
    (hb : IsHex i b) (hd : IsHex j d) (he : IsHex k e)
    (hc : c.toNat = 4096 * a + 256 * b + 16 * d + e) :
    decodeEscape [h, i, j, k] = .ok (String.utf8EncodeChar c) := by
  have := ha.1
  have := hb.1
  have := hd.1
  have := he.1
  rw [decodeEscape_digits ha hb hd he, ← hc, encodeEscape_eq (by omega)]

theorem shortEscapes_spec {e : UInt8} {c : Char} (h : (e, c) ∈ shortEscapes) :
    e ≠ byte 'u' ∧ String.utf8EncodeChar c = [unescape e] := by
  have key : ∀ p ∈ shortEscapes, p.1 ≠ byte 'u' ∧ String.utf8EncodeChar p.2 = [unescape p.1] := by
    decide
  exact key (e, c) h

/-! ## 4. Documents -/

/-- Every way to write a character is read as that character. -/
theorem RendersChar.scan {c : Char} {t : Bytes} (h : RendersChar c t) : ∃ ps,
    convertString ps = .ok (String.utf8EncodeChar c) ∧
      ∀ r, scanString (t ++ r) = (ps ++ (scanString r).1, (scanString r).2) := by
  cases h with
  | unescaped _ hq hb =>
    exact ⟨_, convertString_map_byte _, scanString_append_plain (isPlain_utf8 hq hb)⟩
  | @short e he =>
    obtain ⟨hu, hutf⟩ := shortEscapes_spec he
    exact ⟨[.byte (unescape e)], by rw [hutf]; rfl, fun r => scanString_escape hu⟩
  | @unicode h i j k a b d e ha hb hd he hc =>
    refine ⟨[.escape [h, i, j, k]], ?_, fun r => scanString_unicode (by simp)⟩
    simp [convertString, Piece.convert, decodeEscape_hex ha hb hd he hc]

/-- Every rendering of a string is read as the string. -/
theorem RendersChars.scan {bs t : Bytes} (h : RendersChars bs t) (post : Bytes) : ∃ ps,
    scanString (t ++ byte '"' :: post) = (ps, post) ∧ convertString ps = .ok bs := by
  induction h with
  | nil => exact ⟨[], scanString_quote, rfl⟩
  | @cons c t bs r hc _ ih =>
    obtain ⟨qs, hscan, hconv⟩ := ih
    obtain ⟨ps, hps, hstep⟩ := hc.scan
    refine ⟨ps ++ qs, ?_, convertString_append hps hconv⟩
    rw [List.append_assoc, hstep, hscan]

theorem lexes_document (stod : Bytes → Except Exn Double) :
    Lexes RendersChars (RendersNumber stod) stod := by
  constructor
  · intro bs t h post
    exact h.scan post
  · rintro d t ⟨ht, hstod⟩
    cases ht with
    | mk hs hi _ hf he => exact ⟨isNumberText hs hi hf he, hstod⟩

/-- **Every document is understood.**  For every tree and every rendering of it --
white space, character escapes, number forms and nesting as the grammar allows, duplicate
keys with the last one winning -- parsing the document gives the tree, each number token
being handed whole to `std::stod`. -/
theorem parse_document {stod : Bytes → Except Exn Double} {v : Value} {t : Bytes}
    (h : RendersText RendersChars (RendersNumber stod) v t) : parse stod t = .ok v :=
  h.parse (lexes_document stod)

/-- An object with white space, an escaped key and a key that comes twice. -/
theorem parse_document_sample :
    parse stodInteger (ascii " \x7b\"k\" : 1,\"\\u006B\":[ ]\x7d\n") =
      .ok (.object [(ascii "k", .array [])]) := by
  have hk : RendersChars (ascii "k") (ascii "k") :=
    .cons (c := 'k') (.unescaped (by decide) (by decide) (by decide)) .nil
  have hk' : RendersChars (ascii "k")
      [byte '\\', byte 'u', byte '0', byte '0', byte '6', byte 'B'] :=
    .cons (c := 'k') (.unicode (a := 0) (b := 0) (d := 6) (e := 11) (by decide) (by decide)
      (by decide) (by decide) (by decide)) .nil
  have hone : RendersNumber stodInteger (.finite 1) (ascii "1") := by
    refine ⟨.mk (Or.inl rfl) (i := [byte '1']) (by unfold IsDigits; decide +kernel) ?_
        .absent .absent,
      by decide⟩
    intro r hr
    exact absurd (List.cons.inj hr).1 (by decide)
  have hblank : ∀ t ∈ [ascii "", ascii " ", ascii "\n"], Blank t := by
    unfold Blank; decide +kernel
  have hobject := Renders.object (hblank (ascii "") (by simp))
    (.more (.mk hk (hblank (ascii " ") (by simp)) (hblank (ascii " ") (by simp)) (.number hone))
      (hblank (ascii "") (by simp)) (hblank (ascii "") (by simp))
      (.one (.mk hk' (hblank (ascii "") (by simp)) (hblank (ascii "") (by simp))
        (.emptyArray (hblank (ascii " ") (by simp)))) (hblank (ascii "") (by simp))))
  exact parse_document ⟨_, _, _, hblank (ascii " ") (by simp), hblank (ascii "\n") (by simp),
    hobject, by decide⟩

end QjsDebug.Json
