/-
# The parts of a JSON text

Three things that hold of a text because it renders a tree, whatever its other parts are.

* What renders a string of the tree is taken from the text (`Renders.array_part`,
  `Renders.member_part`).  So a text without a backslash has only strings that stand for
  themselves (`RendersChars.of_noEscape`): UTF-8 without quotes and control characters.
* Such strings may be written as they are (`rendersChars_self`).
* Nothing that renders an array is cut off from a longer rendering (`RendersText.not_cut`): the
  scanner reads both from the same text and would stop at two places.
-/
import QjsDebug.Json.Document

namespace QjsDebug.Json

/-! ## 1. Strings that stand for themselves -/

/-- The bytes are UTF-8. -/
def IsUtf8 (s : Bytes) : Prop := ∃ cs : List Char, s = cs.flatMap String.utf8EncodeChar

/-- A character that a string literal may hold as it is. -/
def IsUnescapedChar (c : Char) : Prop := 0x20 ≤ c.toNat ∧ c ≠ '"' ∧ c ≠ '\\'

/-- UTF-8 of such characters. -/
def IsLiteral (s : Bytes) : Prop :=
  ∃ cs : List Char, s = cs.flatMap String.utf8EncodeChar ∧ ∀ c ∈ cs, IsUnescapedChar c

theorem IsLiteral.append {s t : Bytes} (hs : IsLiteral s) (ht : IsLiteral t) :
    IsLiteral (s ++ t) := by
  obtain ⟨cs, rfl, hcs⟩ := hs
  obtain ⟨ds, rfl, hds⟩ := ht
  refine ⟨cs ++ ds, List.flatMap_append.symm, fun c hc => ?_⟩
  rcases List.mem_append.mp hc with hc | hc
  · exact hcs c hc
  · exact hds c hc

/-- Every such string is a rendering of itself. -/
theorem rendersChars_self {s : Bytes} (h : IsLiteral s) : RendersChars s s := by
  obtain ⟨cs, rfl, hcs⟩ := h
  induction cs with
  | nil => exact .nil
  | cons c cs ih =>
    obtain ⟨hlow, hquote, hback⟩ := hcs c List.mem_cons_self
    exact .cons (.unescaped hlow hquote hback) (ih fun d hd => hcs d (List.mem_cons_of_mem c hd))

/-- Every other way to write a character begins with a backslash. -/
theorem RendersChars.of_noEscape {s t : Bytes} (h : RendersChars s t) (hno : byte '\\' ∉ t) :
    IsLiteral s := by
  induction h with
  | nil => exact ⟨[], rfl, by simp⟩
  | @cons c t bs r hc _ ih =>
    rw [List.mem_append, not_or] at hno
    obtain ⟨ht, hr⟩ := hno
    obtain ⟨cs, rfl, hcs⟩ := ih hr
    cases hc with
    | unescaped hlow hquote hback =>
      refine ⟨c :: cs, rfl, fun d hd => ?_⟩
      rcases List.mem_cons.mp hd with rfl | hd
      · exact ⟨hlow, hquote, hback⟩
      · exact hcs d hd
    | short _ => exact absurd List.mem_cons_self ht
    | unicode _ _ _ _ _ => exact absurd List.mem_cons_self ht

/-- The UTF-8 of a character below U+0080 is one byte. -/
theorem utf8EncodeChar_ascii {c : Char} (h : c.toNat < 0x80) :
    String.utf8EncodeChar c = [UInt8.ofNat c.toNat] := by
  have hval : c.val.toNat = c.toNat := rfl
  unfold String.utf8EncodeChar
  rw [hval]
  dsimp only
  rw [if_pos (by omega : c.toNat ≤ 127)]

/-- The UTF-8 of a character that is no control character has no control byte. -/
theorem le_of_mem_utf8 {c : Char} (h : 0x20 ≤ c.toNat) :
    ∀ b ∈ String.utf8EncodeChar c, 0x20 ≤ b := by
  have hbyte : ∀ n : Nat, 0x20 ≤ n → n < 256 → (0x20 : UInt8) ≤ UInt8.ofNat n := by
    intro n hlow hhigh
    show (0x20 : Nat) ≤ (UInt8.ofNat n).toNat
    rw [UInt8.toNat_ofNat_of_lt' hhigh]
    exact hlow
  have hval : c.val.toNat = c.toNat := rfl
  intro b hmem
  unfold String.utf8EncodeChar at hmem
  rw [hval] at hmem
  generalize c.toNat = v at h hmem
  dsimp only at hmem
  split at hmem
  · obtain rfl := List.mem_singleton.mp hmem
    exact hbyte v h (by omega)
  split at hmem
  · rcases List.mem_pair.mp hmem with rfl | rfl <;> exact hbyte _ (by omega) (by omega)
  split at hmem <;>
  · simp only [List.mem_cons, List.not_mem_nil, or_false] at hmem
    rcases hmem with rfl | rfl | rfl | rfl <;> exact hbyte _ (by omega) (by omega)

/-- **The bytes of a string that stands for itself.** -/
theorem isLiteral_iff {s : Bytes} :
    IsLiteral s ↔ IsUtf8 s ∧ ∀ c ∈ s, 0x20 ≤ c ∧ c ≠ byte '"' ∧ c ≠ byte '\\' := by
  constructor
  · rintro ⟨cs, rfl, hcs⟩
    refine ⟨⟨cs, rfl⟩, fun b hb => ?_⟩
    obtain ⟨c, hc, hb⟩ := List.mem_flatMap.mp hb
    obtain ⟨hlow, hquote, hback⟩ := hcs c hc
    exact ⟨le_of_mem_utf8 hlow b hb, isPlain_utf8 hquote hback b hb⟩
  · rintro ⟨⟨cs, rfl⟩, hbytes⟩
    refine ⟨cs, rfl, fun c hc => ?_⟩
    have hmem : ∀ b ∈ String.utf8EncodeChar c, 0x20 ≤ b ∧ b ≠ byte '"' ∧ b ≠ byte '\\' :=
      fun b hb => hbytes b (List.mem_flatMap.mpr ⟨c, hc, hb⟩)
    refine ⟨?_, ?_, ?_⟩
    · by_contra hlow
      have hone := hmem (UInt8.ofNat c.toNat)
        (by rw [utf8EncodeChar_ascii (by omega)]; exact List.mem_singleton_self _)
      have hle : (0x20 : Nat) ≤ (UInt8.ofNat c.toNat).toNat := hone.1
      rw [UInt8.toNat_ofNat_of_lt' (Nat.lt_trans (Nat.lt_of_not_le hlow) (by decide))] at hle
      exact hlow hle
    · rintro rfl
      exact (hmem (byte '"') (by decide)).2.1 rfl
    · rintro rfl
      exact (hmem (byte '\\') (by decide)).2.2 rfl

/-- A character of ASCII that needs no escape. -/
def isPrintable (c : UInt8) : Bool :=
  0x20 ≤ c && c < 0x80 && c != byte '"' && c != byte '\\'

/-- A text of such characters. -/
theorem isLiteral_of_printable {s : Bytes} (h : s.all isPrintable = true) : IsLiteral s := by
  have hbytes : ∀ c ∈ s, ((0x20 ≤ c ∧ c < 0x80) ∧ c ≠ byte '"') ∧ c ≠ byte '\\' := by
    intro c hc
    have hprintable := List.all_eq_true.mp h c hc
    simpa only [isPrintable, Bool.and_eq_true, decide_eq_true_eq, bne_iff_ne] using hprintable
  refine isLiteral_iff.mpr
    ⟨?_, fun c hc => ⟨(hbytes c hc).1.1.1, (hbytes c hc).1.2, (hbytes c hc).2⟩⟩
  have hone : ∀ c : UInt8, c < 0x80 → String.utf8EncodeChar (Char.ofNat c.toNat) = [c] := by
    intro c hc
    have hlt : c.toNat < 0x80 := hc
    have hall : ∀ n : Fin 0x80, (Char.ofNat n.1).toNat = n.1 := by decide
    have hchar : (Char.ofNat c.toNat).toNat = c.toNat := hall ⟨c.toNat, hlt⟩
    rw [utf8EncodeChar_ascii (by omega), hchar, UInt8.ofNat_toNat]
  refine ⟨s.map fun c => Char.ofNat c.toNat, ?_⟩
  rw [List.flatMap_map]
  clear h
  induction s with
  | nil => rfl
  | cons c s ih =>
    obtain ⟨hc, hs⟩ := List.forall_mem_cons.mp hbytes
    rw [List.flatMap_cons, hone c hc.1.1.2, ← ih hs]
    rfl

/-! ## 2. Parts of a rendering -/

section

variable {S : Bytes → Bytes → Prop} {N : Double → Bytes → Prop}

/-- The element of an array of one. -/
theorem Renders.array_part {v : Value} {t : Bytes} (h : Renders S N (.array [v]) t) :
    ∃ u, Renders S N v u ∧ u ⊆ t := by
  cases h with
  | array _ helements =>
    cases helements with
    | one hv _ => exact ⟨_, hv, fun c hc => by simp [hc]⟩
    | more _ _ _ hrest => nomatch hrest

theorem RendersMembers.part {ms : List (Bytes × Value)} {t : Bytes}
    (h : RendersMembers S N ms t) {m : Bytes × Value} (hm : m ∈ ms) :
    ∃ u, Renders S N m.2 u ∧ u ⊆ t := by
  have hmember : ∀ {m : Bytes × Value} {r : Bytes}, RendersMember S N m r →
      ∃ u, Renders S N m.2 u ∧ u ⊆ r := by
    rintro _ _ ⟨_, _, _, hv⟩
    exact ⟨_, hv, fun c hc => by simp [hc]⟩
  match h with
  | .one hone _ =>
    obtain rfl := List.mem_singleton.mp hm
    obtain ⟨u, hu, hsub⟩ := hmember hone
    exact ⟨u, hu, List.Subset.trans hsub (List.subset_append_left _ _)⟩
  | .more hone _ _ hrest =>
    rcases List.mem_cons.mp hm with rfl | hm
    · obtain ⟨u, hu, hsub⟩ := hmember hone
      exact ⟨u, hu, List.Subset.trans hsub (List.subset_append_left _ _)⟩
    · obtain ⟨u, hu, hsub⟩ := hrest.part hm
      exact ⟨u, hu, fun c hc => by simp [hsub hc]⟩

/-- The member of an object that is found under a key. -/
theorem Renders.member_part {v : Value} {t k s : Bytes} (h : Renders S N v t)
    (hk : v.index k = .string s) : ∃ u, Renders S N (.string s) u ∧ u ⊆ t := by
  have hobject : ∀ {kvs : List (Bytes × Value)}, (Value.object kvs).index k = .string s →
      (k, .string s) ∈ kvs := by
    intro kvs hindex
    cases hfind : SortedMap.find k kvs with
    | none => rw [Value.index, hfind] at hindex; exact absurd hindex (by simp)
    | some x =>
      rw [Value.index, hfind, Option.getD_some] at hindex
      rw [← hindex]
      exact SortedMap.mem_of_find hfind
  cases h with
  | object _ hms =>
    obtain ⟨u, hu, hsub⟩ := hms.part (SortedMap.mem_of_mem_ofList (hobject hk))
    exact ⟨u, hu, fun c hc => by simp [hsub hc]⟩
  | emptyObject _ => exact absurd (hobject hk) (by simp)
  | _ => exact absurd hk (by simp [Value.index])

/-- A string is written between quotes. -/
theorem Renders.string_part {s t : Bytes} (h : Renders S N (.string s) t) :
    ∃ u, S s u ∧ u ⊆ t := by
  cases h with
  | string hs => exact ⟨_, hs, fun c hc => by simp [hc]⟩

/-! ## 3. Texts that are cut off -/

/-- **No text of an array is cut off from the rendering of a value.** -/
theorem RendersText.not_cut {stod : Bytes → Except Exn Double} (hl : Lexes S N stod)
    {vs : List Value} {v : Value} {t r : Bytes} (h : RendersText S N (.array vs) t)
    (hv : Renders S N v (t ++ r)) : r = [] := by
  obtain ⟨w, u, w', hw, hw', hu, rfl⟩ := h
  rw [List.append_assoc, List.append_assoc] at hv
  -- both are scanned with the same fuel, and so to the same end
  obtain ⟨raw, hscan, -⟩ := hu.scan (n := (w ++ (u ++ (w' ++ r))).length + 1) (r := w' ++ r) hl
    (by simp only [List.length_append]; omega) hw (by simp)
  obtain ⟨raw', hscan', -⟩ := hv.scan (w := []) (r := []) hl (Nat.lt_succ_self _) (by simp [Blank])
    (fun _ _ => stops_nil)
  rw [List.nil_append, List.append_nil, hscan] at hscan'
  exact (List.append_eq_nil_iff.mp (Prod.ext_iff.mp hscan').2).2

end

end QjsDebug.Json
