/-
# String tokens with surrogate pairs

JSON has one more way to write a character than `Json.Document` lists: above U+FFFF, as the two
`\u` escapes of its UTF-16 surrogates.  `parse_string` decodes each escape on its own, and its
three encoding lengths end at U+FFFF; so the two halves of a pair become three bytes each, which is
no UTF-8, where the character has four.

All other ways to write a character, in any mixture, are read as its UTF-8.  So a token is read as
the UTF-8 of what it denotes exactly when no character of it is written as a pair
(`string_token_utf8_iff`).
-/
import QjsDebug.Json.Document

namespace QjsDebug.Json

/-! ## 1. Written characters -/

/-- `\uXXXX`, and the number it spells. -/
inductive IsEscape (n : Nat) : Bytes → Prop
  | mk {h i j k a b d e} : IsHex h a → IsHex i b → IsHex j d → IsHex k e →
      n = 4096 * a + 256 * b + 16 * d + e → IsEscape n [byte '\\', byte 'u', h, i, j, k]

/-- The two escapes of a character above U+FFFF: its high and its low surrogate. -/
inductive IsPair (c : Char) : Bytes → Prop
  | mk {t u} : 0x10000 ≤ c.toNat → IsEscape (0xD800 + (c.toNat - 0x10000) / 0x400) t →
      IsEscape (0xDC00 + (c.toNat - 0x10000) % 0x400) u → IsPair c (t ++ u)

/-- A character with the text it is written as. -/
def Written (x : Char × Bytes) : Prop := RendersChar x.1 x.2 ∨ IsPair x.1 x.2

/-- The text between the quotes. -/
def writtenText (ws : List (Char × Bytes)) : Bytes := ws.flatMap Prod.snd

/-- The UTF-8 of what is written. -/
def writtenUtf8 (ws : List (Char × Bytes)) : Bytes :=
  ws.flatMap fun x => String.utf8EncodeChar x.1

/-! ## 2. Reading one character -/

theorem IsEscape.length {n : Nat} {t : Bytes} (h : IsEscape n t) : t.length = 6 := by
  cases h
  rfl

/-- A pair is longer than every other way to write a character. -/
theorem not_isPair {c : Char} {t : Bytes} (h : RendersChar c t) : ¬ IsPair c t := by
  intro hpair
  have hlong : t.length = 12 := by
    cases hpair with
    | mk _ ht hu => rw [List.length_append, ht.length, hu.length]
  cases h with
  | unescaped _ _ _ =>
    rw [String.length_utf8EncodeChar] at hlong
    have := c.utf8Size_le_four
    omega
  | short _ => simp at hlong
  | unicode _ _ _ _ _ => simp at hlong

/-- An escape is read as the bytes of its number, whatever follows. -/
theorem IsEscape.scan {n : Nat} {t : Bytes} (h : IsEscape n t) : ∃ p : Piece,
    p.convert = .ok (encodeEscape n) ∧
      ∀ r, scanString (t ++ r) = (p :: (scanString r).1, (scanString r).2) := by
  cases h with
  | @mk h i j k a b d e ha hb hd he hn =>
    refine ⟨.escape [h, i, j, k], ?_, fun r => scanString_unicode (by simp)⟩
    rw [Piece.convert, decodeEscape_digits ha hb hd he, hn]

/-- The bytes of a surrogate. -/
theorem length_encodeEscape {n : Nat} (h : 0x800 ≤ n) : (encodeEscape n).length = 3 := by
  rw [encodeEscape, if_neg (by omega), if_neg (by omega)]
  rfl

/-- **A pair is read as six bytes**, more than any character has. -/
theorem IsPair.scan {c : Char} {t : Bytes} (h : IsPair c t) : ∃ ps bs,
    convertString ps = .ok bs ∧ (String.utf8EncodeChar c).length < bs.length ∧
      ∀ r, scanString (t ++ r) = (ps ++ (scanString r).1, (scanString r).2) := by
  cases h with
  | @mk t u _ ht hu =>
    obtain ⟨p, hp, hscanp⟩ := ht.scan
    obtain ⟨q, hq, hscanq⟩ := hu.scan
    have hhigh := @length_encodeEscape (0xD800 + (c.toNat - 0x10000) / 0x400) (by omega)
    have hlow := @length_encodeEscape (0xDC00 + (c.toNat - 0x10000) % 0x400) (by omega)
    generalize encodeEscape (0xD800 + (c.toNat - 0x10000) / 0x400) = high at hp hhigh
    generalize encodeEscape (0xDC00 + (c.toNat - 0x10000) % 0x400) = low at hq hlow
    refine ⟨[p, q], high ++ low, ?_, ?_, fun r => ?_⟩
    · simp [convertString, hp, hq]
    · have := c.utf8Size_le_four
      rw [String.length_utf8EncodeChar, List.length_append, hhigh, hlow]
      omega
    · rw [List.append_assoc, hscanp, hscanq]
      rfl

/-- What a written character is read as. -/
theorem Written.scan {x : Char × Bytes} (h : Written x) : ∃ ps bs,
    convertString ps = .ok bs ∧
      (∀ r, scanString (x.2 ++ r) = (ps ++ (scanString r).1, (scanString r).2)) ∧
      (¬ IsPair x.1 x.2 ∧ bs = String.utf8EncodeChar x.1 ∨
        IsPair x.1 x.2 ∧ (String.utf8EncodeChar x.1).length < bs.length) := by
  rcases h with hone | hpair
  · obtain ⟨ps, hps, hscan⟩ := hone.scan
    exact ⟨ps, _, hps, hscan, Or.inl ⟨not_isPair hone, rfl⟩⟩
  · obtain ⟨ps, bs, hps, hlen, hscan⟩ := hpair.scan
    exact ⟨ps, bs, hps, hscan, Or.inr ⟨hpair, hlen⟩⟩

/-! ## 3. Reading a token -/

/-- What a written text is read as: never shorter than the UTF-8, and the UTF-8 itself when it has
no pair, longer when it has one. -/
theorem scan_writtenText {ws : List (Char × Bytes)} (h : ∀ x ∈ ws, Written x) (post : Bytes) :
    ∃ ps bs, scanString (writtenText ws ++ byte '"' :: post) = (ps, post) ∧
      convertString ps = .ok bs ∧
      ((∀ x ∈ ws, ¬ IsPair x.1 x.2) ∧ bs = writtenUtf8 ws ∨
        (∃ x ∈ ws, IsPair x.1 x.2) ∧ (writtenUtf8 ws).length < bs.length) := by
  induction ws with
  | nil => exact ⟨[], [], scanString_quote, rfl, Or.inl ⟨by simp, rfl⟩⟩
  | cons x ws ih =>
    obtain ⟨ps, bs, hps, hscan, hx⟩ := (h x List.mem_cons_self).scan
    obtain ⟨qs, cs, hrest, hqs, hws⟩ := ih fun y hy => h y (List.mem_cons_of_mem _ hy)
    refine ⟨ps ++ qs, bs ++ cs, ?_, convertString_append hps hqs, ?_⟩
    · rw [writtenText, List.flatMap_cons, List.append_assoc, hscan]
      unfold writtenText at hrest
      rw [hrest]
    have hutf8 : writtenUtf8 (x :: ws) = String.utf8EncodeChar x.1 ++ writtenUtf8 ws := rfl
    rw [hutf8]
    rcases hx with ⟨hnone, rfl⟩ | ⟨hpair, hlt⟩
    · rcases hws with ⟨hall, rfl⟩ | ⟨⟨y, hy, hpair⟩, hlt⟩
      · exact Or.inl ⟨List.forall_mem_cons.mpr ⟨hnone, hall⟩, rfl⟩
      · refine Or.inr ⟨⟨y, List.mem_cons_of_mem _ hy, hpair⟩, ?_⟩
        rw [List.length_append, List.length_append]
        omega
    · refine Or.inr ⟨⟨x, List.mem_cons_self, hpair⟩, ?_⟩
      have hle : (writtenUtf8 ws).length ≤ cs.length := by
        rcases hws with ⟨-, rfl⟩ | ⟨-, hlt⟩
        · exact Nat.le_refl _
        · exact Nat.le_of_lt hlt
      rw [List.length_append, List.length_append]
      omega

/-- **A string token is read as UTF-8 exactly when it has no surrogate pair.**  For every sequence
of characters and every way to write each of them, wherever the token stands in a text:
`parse_string` at its opening quote returns the UTF-8 of the sequence, at the position behind the
closing quote, iff no character is written as a pair of escapes. -/
theorem string_token_utf8_iff {ws : List (Char × Bytes)} (h : ∀ x ∈ ws, Written x)
    (pre post : Bytes) :
    parseString (pre ++ byte '"' :: (writtenText ws ++ byte '"' :: post)) pre.length =
        .ok (writtenUtf8 ws, pre.length + (writtenText ws).length + 2) ↔
      ∀ x ∈ ws, ¬ IsPair x.1 x.2 := by
  obtain ⟨ps, bs, hscan, hconv, hbs⟩ := scan_writtenText h post
  have hsuf : (byte '"' :: (writtenText ws ++ byte '"' :: post)) <:+
      pre ++ byte '"' :: (writtenText ws ++ byte '"' :: post) := List.suffix_append _ _
  have hread := parseString_pos hsuf
  have hstart : pos (pre ++ byte '"' :: (writtenText ws ++ byte '"' :: post))
      (byte '"' :: (writtenText ws ++ byte '"' :: post)) = pre.length := by
    rw [pos, List.length_append]
    omega
  have hend : pos (pre ++ byte '"' :: (writtenText ws ++ byte '"' :: post)) post =
      pre.length + (writtenText ws).length + 2 := by
    simp only [pos, List.length_append, List.length_cons]
    omega
  rw [hscan, hstart] at hread
  simp only [hconv] at hread
  rw [hread, deliver, hend]
  constructor
  · intro heq
    obtain ⟨hutf8, -⟩ := Prod.mk.inj (Except.ok.inj heq)
    rcases hbs with ⟨hall, -⟩ | ⟨-, hlt⟩
    · exact hall
    · rw [hutf8] at hlt
      omega
  · intro hall
    rcases hbs with ⟨-, rfl⟩ | ⟨⟨x, hx, hpair⟩, -⟩
    · rfl
    · exact absurd hpair (hall x hx)

/-- The letter a, the e acute as an escape, and the grinning face in UTF-8. -/
def mixedText : List (Char × Bytes) :=
  [('a', ascii "a"), ('é', ascii "\\u00E9"),
    (Char.ofNat 0x1F600, String.utf8EncodeChar (Char.ofNat 0x1F600))]

theorem written_mixedText : ∀ x ∈ mixedText, Written x := by
  intro x hx
  simp only [mixedText, List.mem_cons, List.not_mem_nil, or_false] at hx
  rcases hx with rfl | rfl | rfl
  · exact Or.inl (.unescaped (c := 'a') (by decide) (by decide) (by decide))
  · exact Or.inl (.unicode (a := 0) (b := 0) (d := 14) (e := 9) (by decide) (by decide)
      (by decide) (by decide) (by decide))
  · exact Or.inl (.unescaped (by decide) (by decide) (by decide))

/-- The rule at that text, as a document of its own. -/
theorem string_token_utf8_iff_mixed :
    parseString ([] ++ byte '"' :: (writtenText mixedText ++ byte '"' :: [])) ([] : Bytes).length =
        .ok (writtenUtf8 mixedText, ([] : Bytes).length + (writtenText mixedText).length + 2) ↔
      ∀ x ∈ mixedText, ¬ IsPair x.1 x.2 :=
  string_token_utf8_iff written_mixedText [] []

/-- The grinning face as a pair of escapes. -/
def grin : Char × Bytes := (Char.ofNat 0x1F600, ascii "\\uD83D\\uDE00")

/-- **A character in six bytes.**  The token `"\uD83D\uDE00"` denotes U+1F600, whose UTF-8 is
F0 9F 98 80; `parse_string` returns ED A0 BD ED B8 80. -/
theorem surrogate_pair_misread :
    Written grin ∧
      parseString (byte '"' :: (writtenText [grin] ++ [byte '"'])) 0 =
        .ok ([0xED, 0xA0, 0xBD, 0xED, 0xB8, 0x80], 14) ∧
      ¬ parseString (byte '"' :: (writtenText [grin] ++ [byte '"'])) 0 =
        .ok (writtenUtf8 [grin], 14) := by
  have hread : parseString (byte '"' :: (writtenText [grin] ++ [byte '"'])) 0 =
      .ok ([0xED, 0xA0, 0xBD, 0xED, 0xB8, 0x80], 14) := by
    decide +kernel
  refine ⟨Or.inr ?_, hread, ?_⟩
  · have hhigh : IsEscape 0xD83D [byte '\\', byte 'u', byte 'D', byte '8', byte '3', byte 'D'] :=
      .mk (a := 13) (b := 8) (d := 3) (e := 13) (by decide) (by decide) (by decide) (by decide)
        (by decide)
    have hlow : IsEscape 0xDE00 [byte '\\', byte 'u', byte 'D', byte 'E', byte '0', byte '0'] :=
      .mk (a := 13) (b := 14) (d := 0) (e := 0) (by decide) (by decide) (by decide) (by decide)
        (by decide)
    exact IsPair.mk (c := Char.ofNat 0x1F600) (by decide) hhigh hlow
  · rw [hread]
    decide +kernel

end QjsDebug.Json
