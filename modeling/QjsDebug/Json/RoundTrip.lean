/-
# What `serialize` prints, `parse` reads back

The printer's output is a text of the JSON grammar without white space, over its own
strings and numbers: the body of a string is the concatenation of `escapeByte` over ANY
bytes, and a number is an integer in decimal.  So the round trip needs three things: that
`parse_string` undoes `escapeByte` on each of the 256 bytes, that a decimal integer is one
number token, and that a map printed in order and rebuilt by assignment is the same map.
-/
import QjsDebug.Json.Grammar
import QjsDebug.Json.Serialize

namespace QjsDebug.Json

/-! ## 1. Strings -/

/-- The four bytes of a control character's `\u` escape convert back to it. -/
theorem decodeEscape_unicodeEscape (c : UInt8) (h : c < 0x20) :
    decodeEscape ((unicodeEscape c).drop 2) = .ok [c] := by
  have key : ∀ n : Fin 32, decodeEscape ((unicodeEscape (UInt8.ofNat n)).drop 2) =
      .ok [UInt8.ofNat n] := by decide
  have hlt : c.toNat < 32 := UInt8.lt_iff_toNat_lt.mp h
  have hc := key ⟨c.toNat, hlt⟩
  rwa [UInt8.ofNat_toNat] at hc

/-- **Each byte's escape is read as that byte.** -/
theorem scanString_escapeByte (c : UInt8) : ∃ p : Piece, p.convert = .ok [c] ∧
    ∀ t, scanString (escapeByte c ++ t) = (p :: (scanString t).1, (scanString t).2) := by
  -- a two-character escape
  have short : ∀ e : UInt8, e ≠ byte 'u' → unescape e = c → escapeByte c = [byte '\\', e] →
      ∃ p : Piece, p.convert = .ok [c] ∧
        ∀ t, scanString (escapeByte c ++ t) = (p :: (scanString t).1, (scanString t).2) := by
    intro e hu he hc
    refine ⟨.byte (unescape e), by rw [he]; rfl, fun t => ?_⟩
    rw [hc]
    exact scanString_escape hu
  by_cases h₁ : c = byte '"'
  · exact short (byte '"') (by decide) (by rw [h₁]; decide) (by rw [h₁]; decide)
  by_cases h₂ : c = byte '\\'
  · exact short (byte '\\') (by decide) (by rw [h₂]; decide) (by rw [h₂]; decide)
  by_cases h₃ : c = 0x08
  · exact short (byte 'b') (by decide) (by rw [h₃]; decide) (by rw [h₃]; decide)
  by_cases h₄ : c = 0x0C
  · exact short (byte 'f') (by decide) (by rw [h₄]; decide) (by rw [h₄]; decide)
  by_cases h₅ : c = 0x0A
  · exact short (byte 'n') (by decide) (by rw [h₅]; decide) (by rw [h₅]; decide)
  by_cases h₆ : c = 0x0D
  · exact short (byte 'r') (by decide) (by rw [h₆]; decide) (by rw [h₆]; decide)
  by_cases h₇ : c = 0x09
  · exact short (byte 't') (by decide) (by rw [h₇]; decide) (by rw [h₇]; decide)
  by_cases h₈ : c < 0x20
  · refine ⟨.escape ((unicodeEscape c).drop 2), decodeEscape_unicodeEscape c h₈, fun t => ?_⟩
    have hesc : escapeByte c = unicodeEscape c := by
      simp only [escapeByte, h₁, h₂, h₃, h₄, h₅, h₆, h₇, h₈, if_true, if_false]
    rw [hesc]
    have hlen : 4 ≤ ((unicodeEscape c).drop 2 ++ t).length := by
      simp only [List.length_append]
      exact Nat.le_add_right 4 _
    exact scanString_unicode hlen
  · refine ⟨.byte c, rfl, fun t => ?_⟩
    have hesc : escapeByte c = [c] := by
      simp only [escapeByte, h₁, h₂, h₃, h₄, h₅, h₆, h₇, h₈, if_false]
    rw [hesc]
    exact scanString_plain h₁ h₂

/-- The printed body of a string is read as the string, up to the closing quote. -/
theorem scanString_flatMap_escapeByte (bs post : Bytes) : ∃ ps,
    scanString (bs.flatMap escapeByte ++ byte '"' :: post) = (ps, post) ∧
      convertString ps = .ok bs := by
  induction bs with
  | nil => exact ⟨[], scanString_quote, rfl⟩
  | cons c bs ih =>
    obtain ⟨ps, hscan, hconv⟩ := ih
    obtain ⟨p, hp, hstep⟩ := scanString_escapeByte c
    refine ⟨p :: ps, ?_, by simp [convertString, hp, hconv]⟩
    rw [List.flatMap_cons, List.append_assoc, hstep, hscan]

/-! ## 2. Numbers -/

/-- What is documented of `std::stod` for decimal integers that a double holds exactly. -/
def ReadsIntegers (stod : Bytes → Except Exn Double) : Prop :=
  ∀ (negative : Bool) (ds : List Nat), ds ≠ [] → (∀ d ∈ ds, d < 10) → ofDigits 10 ds ≤ 2 ^ 53 →
    stod ((if negative then [byte '-'] else []) ++ ds.map digitByte) =
      .ok (.finite (if negative then -(ofDigits 10 ds : ℚ) else ofDigits 10 ds))

theorem isDigit_digitByte {d : Nat} (h : d < 10) : isDigit (digitByte d) = true := by
  have key : ∀ d : Fin 10, isDigit (digitByte d) = true := by decide
  exact key ⟨d, h⟩

theorem isDigits_decimalDigits (n : Nat) : IsDigits ((decimalDigits n).map digitByte) := by
  refine ⟨by simpa using decimalDigits_ne_nil n, fun c hc => ?_⟩
  obtain ⟨d, hd, rfl⟩ := List.mem_map.mp hc
  exact isDigit_digitByte (lt_ten_of_mem_decimalDigits hd)

/-- A decimal integer is one number token. -/
theorem isNumberText_decimal (n : Int) : IsNumberText (decimal n) := by
  have h := isNumberText (s := if n < 0 then [byte '-'] else []) (by split <;> simp)
    (isDigits_decimalDigits n.natAbs) .absent .absent
  rwa [List.append_nil, List.append_nil] at h

/-- Decimal printing is undone. -/
theorem stod_decimal {stod : Bytes → Except Exn Double} (hstod : ReadsIntegers stod) {n : Int}
    (hn : n.natAbs ≤ 10 ^ 15) : stod (decimal n) = .ok (.finite n) := by
  have hval : ofDigits 10 (decimalDigits n.natAbs) = n.natAbs := ofDigits_decimalDigits _
  have h := hstod (decide (n < 0)) (decimalDigits n.natAbs) (decimalDigits_ne_nil _)
    (fun d hd => lt_ten_of_mem_decimalDigits hd) (by rw [hval]; omega)
  simp only [decide_eq_true_eq, hval] at h
  unfold decimal
  rw [h]
  congr 2
  split
  · rename_i hneg
    have : (n : ℚ) = ((-(n.natAbs : Int) : Int) : ℚ) := by congr 1; omega
    rw [this, Int.cast_neg, Int.cast_natCast]
  · rename_i hpos
    have : (n : ℚ) = (((n.natAbs : Nat) : Int) : ℚ) := by congr 1; omega
    rw [this, Int.cast_natCast]

/-! ## 3. Trees -/

/-- The strings and the numbers the printer writes. -/
def Escaped (bs t : Bytes) : Prop := t = bs.flatMap escapeByte

def Printed (d : Double) (t : Bytes) : Prop :=
  ∃ n : Int, n.natAbs ≤ 10 ^ 15 ∧ d = .finite n ∧ t = decimal n

theorem lexes_printed {stod : Bytes → Except Exn Double} (hstod : ReadsIntegers stod) :
    Lexes Escaped Printed stod := by
  constructor
  · rintro bs t rfl post
    exact scanString_flatMap_escapeByte bs post
  · rintro d t ⟨n, hn, rfl, rfl⟩
    exact ⟨isNumberText_decimal n, stod_decimal hstod hn⟩

namespace Value

mutual
/-- Every number of the tree is an integer of magnitude at most 10^15. -/
def Integral : Value → Prop
  | .number d => ∃ n : Int, n.natAbs ≤ 10 ^ 15 ∧ d = .finite n
  | .array xs => Integrals xs
  | .object kvs => Integralm kvs
  | _ => True
def Integrals : List Value → Prop
  | [] => True
  | v :: vs => Integral v ∧ Integrals vs
def Integralm : List (Bytes × Value) → Prop
  | [] => True
  | (_, v) :: kvs => Integral v ∧ Integralm kvs
end

mutual
/-- Every number of the tree has the property `P`. -/
def AllNumbers (P : Double → Prop) : Value → Prop
  | .number d => P d
  | .array xs => AllNumberss P xs
  | .object kvs => AllNumbersm P kvs
  | _ => True
def AllNumberss (P : Double → Prop) : List Value → Prop
  | [] => True
  | v :: vs => AllNumbers P v ∧ AllNumberss P vs
def AllNumbersm (P : Double → Prop) : List (Bytes × Value) → Prop
  | [] => True
  | (_, v) :: kvs => AllNumbers P v ∧ AllNumbersm P kvs
end

mutual
theorem AllNumbers.mono {P Q : Double → Prop} (h : ∀ d, P d → Q d) :
    (v : Value) → v.AllNumbers P → v.AllNumbers Q
  | .number d, hv => h d hv
  | .array xs, hv => AllNumberss.mono h xs hv
  | .object kvs, hv => AllNumbersm.mono h kvs hv
  | .null, _ | .bool _, _ | .string _, _ => trivial
theorem AllNumberss.mono {P Q : Double → Prop} (h : ∀ d, P d → Q d) :
    (vs : List Value) → AllNumberss P vs → AllNumberss Q vs
  | [], _ => trivial
  | v :: vs, hv => ⟨AllNumbers.mono h v hv.1, AllNumberss.mono h vs hv.2⟩
theorem AllNumbersm.mono {P Q : Double → Prop} (h : ∀ d, P d → Q d) :
    (kvs : List (Bytes × Value)) → AllNumbersm P kvs → AllNumbersm Q kvs
  | [], _ => trivial
  | (_, v) :: kvs, hv => ⟨AllNumbers.mono h v hv.1, AllNumbersm.mono h kvs hv.2⟩
end

mutual
theorem Integral.allNumbers : (v : Value) → v.Integral →
    v.AllNumbers fun d => ∃ n : Int, n.natAbs ≤ 10 ^ 15 ∧ d = .finite n
  | .number _, hv => hv
  | .array xs, hv => Integrals.allNumbers xs hv
  | .object kvs, hv => Integralm.allNumbers kvs hv
  | .null, _ | .bool _, _ | .string _, _ => trivial
theorem Integrals.allNumbers : (vs : List Value) → Integrals vs →
    AllNumberss (fun d => ∃ n : Int, n.natAbs ≤ 10 ^ 15 ∧ d = .finite n) vs
  | [], _ => trivial
  | v :: vs, hv => ⟨Integral.allNumbers v hv.1, Integrals.allNumbers vs hv.2⟩
theorem Integralm.allNumbers : (kvs : List (Bytes × Value)) → Integralm kvs →
    AllNumbersm (fun d => ∃ n : Int, n.natAbs ≤ 10 ^ 15 ∧ d = .finite n) kvs
  | [], _ => trivial
  | (_, v) :: kvs, hv => ⟨Integral.allNumbers v hv.1, Integralm.allNumbers kvs hv.2⟩
end

mutual
/-- The tree with every map built again by assigning its members. -/
def rebuild : Value → Value
  | .array xs => .array (rebuilds xs)
  | .object kvs => .object (SortedMap.ofList (rebuildm kvs))
  | v => v
def rebuilds : List Value → List Value
  | [] => []
  | v :: vs => rebuild v :: rebuilds vs
def rebuildm : List (Bytes × Value) → List (Bytes × Value)
  | [] => []
  | (k, v) :: kvs => (k, rebuild v) :: rebuildm kvs
end

mutual
/-- In a well-formed tree that changes nothing. -/
theorem rebuild_of_wf : (v : Value) → v.WF → v.rebuild = v
  | .array xs, h => by rw [rebuild, rebuilds_of_wf xs h]
  | .object kvs, h => by rw [rebuild, rebuildm_of_wf kvs h.2, SortedMap.ofList_eq_self h.1]
  | .null, _ | .bool _, _ | .number _, _ | .string _, _ => rfl
theorem rebuilds_of_wf : (vs : List Value) → WFs vs → rebuilds vs = vs
  | [], _ => rfl
  | v :: vs, h => by rw [rebuilds, rebuild_of_wf v h.1, rebuilds_of_wf vs h.2]
theorem rebuildm_of_wf : (kvs : List (Bytes × Value)) → WFm kvs → rebuildm kvs = kvs
  | [], _ => rfl
  | (k, v) :: kvs, h => by rw [rebuildm, rebuild_of_wf v h.1, rebuildm_of_wf kvs h.2]
end

end Value

section

variable (fmt17g : Double → Bytes)

theorem blank_nil : Blank [] := by simp [Blank]

theorem serializeElements_false {vs : List Value} (h : vs ≠ []) :
    serializeElements fmt17g false vs = byte ',' :: serializeElements fmt17g true vs := by
  cases vs with
  | nil => exact absurd rfl h
  | cons v vs => simp [serializeElements]

theorem serializeMembers_false {kvs : List (Bytes × Value)} (h : kvs ≠ []) :
    serializeMembers fmt17g false kvs = byte ',' :: serializeMembers fmt17g true kvs := by
  cases kvs with
  | nil => exact absurd rfl h
  | cons p kvs => obtain ⟨k, v⟩ := p; simp [serializeMembers]

variable {S : Bytes → Bytes → Prop} {N : Double → Bytes → Prop}

mutual
/-- **`serialize` writes a text of the grammar**, over any strings that `escapeByte` can write
and any numbers that `serializeNumber` can. -/
theorem renders_rebuild (hS : ∀ bs, S bs (bs.flatMap escapeByte)) : (v : Value) →
    v.AllNumbers (fun d => N d (serializeNumber fmt17g d)) →
    Renders S N v.rebuild (serialize fmt17g v)
  | .null, _ => .null
  | .bool b, _ => .bool b
  | .number _, hnum => .number hnum
  | .string bs, _ => .string (hS bs)
  | .array xs, hnum => by
    by_cases hnil : xs = []
    · subst hnil
      exact .emptyArray blank_nil
    · exact .array blank_nil (renders_rebuilds hS xs hnil hnum)
  | .object kvs, hnum => by
    by_cases hnil : kvs = []
    · subst hnil
      exact .emptyObject blank_nil
    · exact .object blank_nil (renders_rebuildm hS kvs hnil hnum)

theorem renders_rebuilds (hS : ∀ bs, S bs (bs.flatMap escapeByte)) : (vs : List Value) → vs ≠ [] →
    Value.AllNumberss (fun d => N d (serializeNumber fmt17g d)) vs →
    RendersElements S N (Value.rebuilds vs) (serializeElements fmt17g true vs)
  | [], hne, _ => absurd rfl hne
  | v :: vs, _, hnum => by
    have hv := renders_rebuild hS v hnum.1
    rw [serializeElements, if_pos rfl, List.nil_append]
    by_cases hnil : vs = []
    · subst hnil
      exact .one hv blank_nil
    · have hrest := renders_rebuilds hS vs hnil hnum.2
      rw [serializeElements_false fmt17g hnil]
      exact .more hv blank_nil blank_nil hrest

theorem renders_rebuildm (hS : ∀ bs, S bs (bs.flatMap escapeByte)) :
    (kvs : List (Bytes × Value)) → kvs ≠ [] →
    Value.AllNumbersm (fun d => N d (serializeNumber fmt17g d)) kvs →
    RendersMembers S N (Value.rebuildm kvs) (serializeMembers fmt17g true kvs)
  | [], hne, _ => absurd rfl hne
  | (k, v) :: kvs, _, hnum => by
    have hv := renders_rebuild hS v hnum.1
    have hm : RendersMember S N (k, v.rebuild)
        (serializeString k ++ byte ':' :: serialize fmt17g v) := by
      simpa [serializeString] using RendersMember.mk (hS k) blank_nil blank_nil hv
    rw [serializeMembers, if_pos rfl, List.nil_append]
    by_cases hnil : kvs = []
    · subst hnil
      have h := RendersMembers.one hm blank_nil
      simpa [serializeMembers, Value.rebuildm] using h
    · have hrest := renders_rebuildm hS kvs hnil hnum.2
      have h := RendersMembers.more hm blank_nil blank_nil hrest
      simpa [serializeMembers_false fmt17g hnil, Value.rebuildm] using h
end

/-- `serialize` writes a text of the grammar that denotes the tree. -/
theorem renders_serialize (v : Value) (hwf : v.WF) (hint : v.Integral) :
    Renders Escaped Printed v (serialize fmt17g v) := by
  have hprinted : ∀ d : Double, (∃ n : Int, n.natAbs ≤ 10 ^ 15 ∧ d = .finite n) →
      Printed d (serializeNumber fmt17g d) := by
    rintro d ⟨n, hn, rfl⟩
    refine ⟨n, hn, rfl, ?_⟩
    rw [serializeNumber, if_pos ⟨Rat.den_intCast n, by rwa [Rat.num_intCast]⟩, Rat.num_intCast]
  have h := renders_rebuild (S := Escaped) fmt17g (fun _ => rfl) v
    (.mono hprinted v (Value.Integral.allNumbers v hint))
  rwa [Value.rebuild_of_wf v hwf] at h

end

/-! ## 4. The round trip -/

/-- **Round trip.**  For every tree whose numbers are integers of magnitude at most 10^15,
over arbitrary byte strings: parsing what was printed gives the tree back, and inside any
larger text whose next byte cannot continue a number the parser stops exactly behind it. -/
theorem parse_serialize {stod : Bytes → Except Exn Double} (hstod : ReadsIntegers stod)
    (fmt17g : Double → Bytes) {v : Value} (hwf : v.WF) (hint : v.Integral) :
    parse stod (serialize fmt17g v) = .ok v ∧
      ∀ pre post : Bytes, Stops post → ∀ n, (pre ++ (serialize fmt17g v ++ post)).length < n →
        parseValue stod (pre ++ (serialize fmt17g v ++ post)) n pre.length =
          .ok (v, pre.length + (serialize fmt17g v).length) := by
  have hl := lexes_printed hstod
  have h := renders_serialize fmt17g v hwf hint
  refine ⟨RendersText.parse hl ⟨[], _, [], blank_nil, blank_nil, h, by simp⟩, ?_⟩
  intro pre post hpost n hn
  exact h.parseValue hl pre hpost hn

/-- `std::stod` on decimal integers a double holds exactly: the longest run of digits behind
white space and a sign is converted, and a text without one is rejected. -/
def stodInteger (s : Bytes) : Except Exn Double :=
  match strto 10 s with
  | none => .error .invalidArgument
  | some (negative, n) => .ok (.finite (if negative then -(n : ℚ) else n))

theorem readDigits_map_digitByte {ds : List Nat} (h : ∀ d ∈ ds, d < 10) :
    readDigits 10 (ds.map digitByte) = ds := by
  simpa using readDigits_map_digitByte_append h [] rfl

theorem readsIntegers_stodInteger : ReadsIntegers stodInteger := by
  intro negative ds hne hlt _
  have key : ∀ d : Fin 10, isSpace (digitByte d) = false ∧ digitByte d ≠ byte '-' ∧
      digitByte d ≠ byte '+' := by decide
  obtain ⟨d, ds', rfl⟩ := List.exists_cons_of_ne_nil hne
  obtain ⟨hspace, hminus, hplus⟩ := key ⟨d, hlt d List.mem_cons_self⟩
  have hsign : readSign (((if negative then [byte '-'] else []) ++
      (d :: ds').map digitByte).dropWhile isSpace) = (negative, (d :: ds').map digitByte) := by
    cases negative with
    | true =>
      have hsp : isSpace (byte '-') = false := by decide
      simp [readSign, hsp]
    | false => simp [readSign, hspace, hminus, hplus]
  have hstrto : strto 10 ((if negative then [byte '-'] else []) ++ (d :: ds').map digitByte) =
      some (negative, ofDigits 10 (d :: ds')) := by
    rw [strto, hsign]
    simp only [(by decide : ¬ (10 : Nat) = 16), if_false, readDigits_map_digitByte hlt]
  rw [stodInteger, hstrto]

/-- A tree with a control byte, a NUL, a byte above 0x7F and an escaped key. -/
def sampleTree : Value :=
  .object [([0x00, 0x22], .array [.number (.finite (-40 : Int)), .null]),
    (ascii "k", .string [0x1F, 0xFF, 0x5C])]

/-- The round trip of that tree. -/
theorem parse_serialize_sampleTree :
    parse stodInteger (serialize (fun _ => []) sampleTree) = .ok sampleTree ∧
      ∀ pre post : Bytes, Stops post →
        ∀ n, (pre ++ (serialize (fun _ => []) sampleTree ++ post)).length < n →
        parseValue stodInteger (pre ++ (serialize (fun _ => []) sampleTree ++ post)) n pre.length =
          .ok (sampleTree, pre.length + (serialize (fun _ => []) sampleTree).length) := by
  refine parse_serialize readsIntegers_stodInteger (fun _ => []) ?_ ?_
  · simp only [sampleTree, Value.WF, Value.WFm, Value.WFs, SortedMap.Sorted, and_true]
    decide
  · simp only [sampleTree, Value.Integral, Value.Integralm, Value.Integrals, and_true]
    exact ⟨-40, by decide, rfl⟩

end QjsDebug.Json
