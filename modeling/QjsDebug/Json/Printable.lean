/-
# Trees that survive the wire

A tree is printable when its maps are in order and `std::stod` reads each of its numbers as it was
printed: what `serialize` writes of it is parsed back to it.  The methods of the handler put their
answers together with `set` and `push`, so what matters is that these keep a tree printable.

A tree that was parsed is printable as it is, as far as the C library prints what it has read.
So one round of parsing and printing puts a text into a form that further rounds do not change
(`reparse_stable`).
-/
import QjsDebug.Json.Exceptions
import QjsDebug.Json.RoundTrip

namespace QjsDebug.Json

section

variable (stod : Bytes → Except Exn Double) (fmt17g : Double → Bytes)

/-- The number is read as it is printed. -/
structure Reprinted (d : Double) : Prop where
  isNumberText : IsNumberText (serializeNumber fmt17g d)
  stod_eq : stod (serializeNumber fmt17g d) = .ok d

/-- Printed and parsed back without loss. -/
structure Printable (v : Value) : Prop where
  wf : v.WF
  numbers : v.AllNumbers (Reprinted stod fmt17g)

end

/-! ## 1. What keeps a tree printable -/

namespace Value

variable {P : Double → Prop}

theorem allNumberss_iff {xs : List Value} : AllNumberss P xs ↔ ∀ v ∈ xs, AllNumbers P v := by
  induction xs with
  | nil => simp [AllNumberss]
  | cons v xs ih => simp [AllNumberss, ih]

theorem allNumbersm_iff {kvs : List (Bytes × Value)} :
    AllNumbersm P kvs ↔ ∀ p ∈ kvs, AllNumbers P p.2 := by
  induction kvs with
  | nil => simp [AllNumbersm]
  | cons p kvs ih => obtain ⟨k, v⟩ := p; simp [AllNumbersm, ih]

theorem AllNumbers.set {v val : Value} {key : Bytes} (h : v.AllNumbers P)
    (hv : val.AllNumbers P) : (v.set key val).AllNumbers P := by
  have hone : (Value.object [(key, val)]).AllNumbers P := ⟨hv, trivial⟩
  cases v with
  | object kvs =>
    refine allNumbersm_iff.mpr fun p hp => ?_
    rcases SortedMap.mem_insert hp with rfl | hp
    · exact hv
    · exact allNumbersm_iff.mp h p hp
  | _ => exact hone

theorem AllNumbers.push {v val : Value} (h : v.AllNumbers P) (hv : val.AllNumbers P) :
    (v.push val).AllNumbers P := by
  cases v with
  | array xs =>
    refine allNumberss_iff.mpr fun w hw => ?_
    rcases List.mem_append.mp hw with hw | hw
    · exact allNumberss_iff.mp h w hw
    · exact List.mem_singleton.mp hw ▸ hv
  | _ => exact ⟨hv, trivial⟩

/-- The numbers that `get_int` gives are of moderate size. -/
theorem natAbs_getInt (v : Value) : v.getInt.natAbs ≤ 2 ^ 31 := by
  unfold getInt
  split
  · dsimp only
    split <;> omega
  · decide

end Value

section

variable {stod : Bytes → Except Exn Double} {fmt17g : Double → Bytes}

theorem Printable.set {v val : Value} {key : Bytes} (h : Printable stod fmt17g v)
    (hv : Printable stod fmt17g val) : Printable stod fmt17g (v.set key val) :=
  ⟨h.wf.set hv.wf, h.numbers.set hv.numbers⟩

theorem printable_bool (b : Bool) : Printable stod fmt17g (.bool b) := ⟨trivial, trivial⟩
theorem printable_string (s : Bytes) : Printable stod fmt17g (.string s) := ⟨trivial, trivial⟩
theorem printable_lit (s : String) : Printable stod fmt17g (.lit s) := ⟨trivial, trivial⟩
theorem printable_empty : Printable stod fmt17g (.object []) :=
  ⟨⟨SortedMap.sorted_nil, trivial⟩, trivial⟩

theorem printable_ofInt (hstod : ReadsIntegers stod) {n : Int} (h : n.natAbs ≤ 10 ^ 15) :
    Printable stod fmt17g (.ofInt n) := by
  have hprint : serializeNumber fmt17g (.finite n) = decimal n := by
    rw [serializeNumber, if_pos ⟨Rat.den_intCast n, by rwa [Rat.num_intCast]⟩, Rat.num_intCast]
  refine ⟨trivial, ?_, ?_⟩
  · rw [hprint]
    exact isNumberText_decimal n
  · rw [hprint]
    exact stod_decimal hstod h

theorem printable_array {xs : List Value} (h : ∀ v ∈ xs, Printable stod fmt17g v) :
    Printable stod fmt17g (.array xs) :=
  ⟨Value.wfs_iff.mpr fun v hv => (h v hv).wf,
    Value.allNumberss_iff.mpr fun v hv => (h v hv).numbers⟩

/-- An object put together field by field. -/
theorem printable_ofFields {fields : List (String × Value)}
    (h : ∀ f ∈ fields, Printable stod fmt17g f.2) : Printable stod fmt17g (.ofFields fields) := by
  have hfold : ∀ v : Value, Printable stod fmt17g v →
      Printable stod fmt17g (fields.foldl (fun v f => v.set (ascii f.1) f.2) v) := by
    induction fields with
    | nil => exact fun v hv => hv
    | cons f fields ih =>
      obtain ⟨hf, hfields⟩ := List.forall_mem_cons.mp h
      exact fun v hv => ih hfields _ (hv.set hf)
  exact hfold _ printable_empty

/-- **Over the wire and back.** -/
theorem Printable.parse {v : Value} (h : Printable stod fmt17g v) :
    parse stod (serialize fmt17g v) = .ok v := by
  let N : Double → Bytes → Prop := fun d t => t = serializeNumber fmt17g d ∧ Reprinted stod fmt17g d
  have hlexes : Lexes Escaped N stod := by
    refine ⟨?_, ?_⟩
    · rintro bs t rfl post
      exact scanString_flatMap_escapeByte bs post
    · rintro d t ⟨rfl, hd⟩
      exact ⟨hd.isNumberText, hd.stod_eq⟩
  have hrender : Renders Escaped N v.rebuild (serialize fmt17g v) :=
    @renders_rebuild fmt17g Escaped N (fun _ => rfl) v (.mono (fun _ hd => ⟨rfl, hd⟩) v h.numbers)
  rw [Value.rebuild_of_wf v h.wf] at hrender
  exact RendersText.parse hlexes ⟨[], _, [], blank_nil, blank_nil, hrender, by simp⟩

/-! ## 2. What was parsed -/

/-- The characters of a number token. -/
def isNumberChar (c : UInt8) : Bool :=
  isDigit c || c == byte '-' || c == byte '+' || c == byte '.' || c == byte 'e' || c == byte 'E'

/-- `t` without some characters of numbers at its front is `u`. -/
def Eats (t u : Bytes) : Prop := ∃ p, t = p ++ u ∧ ∀ c ∈ p, isNumberChar c = true

theorem Eats.refl (t : Bytes) : Eats t t := ⟨[], rfl, fun _ h => absurd h List.not_mem_nil⟩

theorem Eats.trans {t u w : Bytes} (h : Eats t u) (h' : Eats u w) : Eats t w := by
  obtain ⟨p, rfl, hp⟩ := h
  obtain ⟨q, rfl, hq⟩ := h'
  exact ⟨p ++ q, (List.append_assoc p q w).symm, List.forall_mem_append.mpr ⟨hp, hq⟩⟩

theorem eats_dropWhile (t : Bytes) : Eats t (t.dropWhile isDigit) := by
  refine ⟨t.takeWhile isDigit, List.takeWhile_append_dropWhile.symm, fun c hc => ?_⟩
  have hd : isDigit c = true := List.all_eq_true.mp List.all_takeWhile c hc
  simp [isNumberChar, hd]

theorem eats_accept {test : UInt8 → Bool} (htest : ∀ c, test c = true → isNumberChar c = true)
    {t u : Bytes} (h : accept test t = some u) : Eats t u := by
  obtain ⟨c, hc, rfl⟩ := accept_eq_some h
  exact ⟨[c], rfl, fun c' hc' => List.mem_singleton.mp hc' ▸ htest c hc⟩

theorem eats_dropIf {test : UInt8 → Bool} (htest : ∀ c, test c = true → isNumberChar c = true)
    (t : Bytes) : Eats t (dropIf test t) := by
  unfold dropIf
  cases h : accept test t with
  | none => exact Eats.refl t
  | some u => exact eats_accept htest h

theorem eats_afterFraction (t : Bytes) : Eats t (afterFraction t) := by
  unfold afterFraction
  split
  · rename_i u h
    exact (eats_accept (by simp [isNumberChar]) h).trans (eats_dropWhile u)
  · exact Eats.refl t

theorem eats_afterExponent (t : Bytes) : Eats t (afterExponent t) := by
  unfold afterExponent
  split
  · rename_i u h
    have hsign := @eats_dropIf (fun c => c == byte '+' || c == byte '-')
      (by rintro c hc; simp_all [isNumberChar]; tauto) u
    refine (eats_accept ?_ h).trans (hsign.trans (eats_dropWhile _))
    rintro c hc
    simp_all [isNumberChar]
    tauto
  · exact Eats.refl t

/-- A number token has only such characters. -/
theorem isNumberChar_of_mem_numberToken {t : Bytes} {c : UInt8} (h : c ∈ numberToken t) :
    isNumberChar c = true := by
  have heats : Eats t (afterNumber t) :=
    (eats_dropIf (by simp [isNumberChar]) t).trans ((eats_dropWhile _).trans
      ((eats_afterFraction _).trans (eats_afterExponent _)))
  obtain ⟨p, ht, hp⟩ := heats
  have htoken : numberToken t = p := by
    unfold numberToken
    have hlen : t.length - (afterNumber t).length = p.length := by
      have hl := congrArg List.length ht
      rw [List.length_append] at hl
      omega
    rw [hlen]
    nth_rewrite 1 [ht]
    exact List.take_left
  exact hp c (htoken ▸ h)

/-- The number tokens of a value that was read have only such characters. -/
def TokensOnly (cs : List Conversion) : Prop :=
  ∀ token, .number token ∈ cs → ∀ c ∈ token, isNumberChar c = true

theorem tokensOnly_append {cs cs' : List Conversion} (h : TokensOnly cs) (h' : TokensOnly cs') :
    TokensOnly (cs ++ cs') :=
  fun token ht => (List.mem_append.mp ht).elim (h token) (h' token)

theorem tokensOnly_string (ps : List Piece) : TokensOnly (ps.flatMap Piece.conversions) := by
  intro token ht
  obtain ⟨p, -, hp⟩ := List.mem_flatMap.mp ht
  cases p with
  | byte c => exact absurd hp List.not_mem_nil
  | escape digits => exact absurd (List.mem_singleton.mp hp) (by simp)

theorem tokensOnly_nil : TokensOnly [] := fun _ h => absurd h List.not_mem_nil

section

variable {scanned : Bytes → Raw × Bytes} (hscan : ∀ t, TokensOnly (scanned t).1.conversions)

include hscan

theorem tokensOnly_scanMembers (n : Nat) :
    ∀ t, TokensOnly (memberConversions (scanMembers scanned n t).1) := by
  induction n with
  | zero => exact fun t => tokensOnly_nil
  | succ n ih =>
    intro t
    unfold scanMembers
    split
    · exact tokensOnly_nil
    · dsimp only
      split
      · exact tokensOnly_append (tokensOnly_string _)
          (tokensOnly_append (hscan _) tokensOnly_nil)
      · exact tokensOnly_append (tokensOnly_string _) (tokensOnly_append (hscan _) (ih _))

theorem tokensOnly_scanElements (n : Nat) :
    ∀ t, TokensOnly (elementConversions (scanElements scanned n t).1) := by
  induction n with
  | zero => exact fun t => tokensOnly_nil
  | succ n ih =>
    intro t
    unfold scanElements
    split
    · exact tokensOnly_nil
    · dsimp only
      split
      · exact tokensOnly_append (hscan _) tokensOnly_nil
      · exact tokensOnly_append (hscan _) (ih _)

end

theorem tokensOnly_scanValue (n : Nat) : ∀ t, TokensOnly (scanValue n t).1.conversions := by
  induction n with
  | zero => exact fun t => tokensOnly_nil
  | succ n ih =>
    intro t
    unfold scanValue
    split
    · exact tokensOnly_nil
    · rename_i c t' _
      split
      · exact tokensOnly_string _
      split
      · unfold scanObject
        split
        · exact tokensOnly_nil
        · exact tokensOnly_scanMembers ih _ _
      split
      · unfold scanArray
        split
        · exact tokensOnly_nil
        · exact tokensOnly_scanElements ih _ _
      split
      · unfold scanBool
        split
        · exact tokensOnly_nil
        · split <;> exact tokensOnly_nil
      split
      · exact tokensOnly_nil
      · intro token ht
        obtain rfl := Conversion.number.inj (List.mem_singleton.mp ht)
        exact fun c hc => isNumberChar_of_mem_numberToken hc

mutual
/-- The numbers of a converted value come from its tokens. -/
theorem Raw.allNumbers_of_convert {P : Double → Prop} : (x : Raw) → {v : Value} →
    (∀ token d, .number token ∈ x.conversions → stod token = .ok d → P d) →
    x.convert stod = .ok v → v.AllNumbers P
  | .null, v, _, h => by
    obtain rfl := Except.ok.inj h
    trivial
  | .bool _, v, _, h => by
    obtain rfl := Except.ok.inj h
    trivial
  | .number token, v, hP, h => by
    obtain ⟨d, hd, hv⟩ := bind_eq_ok h
    obtain rfl := Except.ok.inj hv
    exact hP token d List.mem_cons_self hd
  | .string ps, v, _, h => by
    obtain ⟨s, -, hv⟩ := bind_eq_ok h
    obtain rfl := Except.ok.inj hv
    trivial
  | .array xs, v, hP, h => @allNumbers_of_convertElements P xs (.array []) v trivial hP h
  | .object ms, v, hP, h => @allNumbers_of_convertMembers P ms (.object []) v trivial hP h
theorem allNumbers_of_convertElements {P : Double → Prop} : (xs : List Raw) → {arr v : Value} →
    arr.AllNumbers P →
    (∀ token d, .number token ∈ elementConversions xs → stod token = .ok d → P d) →
    convertElements stod xs arr = .ok v → v.AllNumbers P
  | [], arr, v, harr, _, h => by
    obtain rfl := Except.ok.inj h
    exact harr
  | x :: xs, arr, v, harr, hP, h => by
    obtain ⟨val, hval, hrest⟩ := bind_eq_ok h
    have hone := x.allNumbers_of_convert
      (fun token d ht => hP token d (List.mem_append_left _ ht)) hval
    exact allNumbers_of_convertElements xs (harr.push hone)
      (fun token d ht => hP token d (List.mem_append_right _ ht)) hrest
theorem allNumbers_of_convertMembers {P : Double → Prop} : (ms : List (List Piece × Raw)) →
    {obj v : Value} → obj.AllNumbers P →
    (∀ token d, .number token ∈ memberConversions ms → stod token = .ok d → P d) →
    convertMembers stod ms obj = .ok v → v.AllNumbers P
  | [], obj, v, hobj, _, h => by
    obtain rfl := Except.ok.inj h
    exact hobj
  | (k, x) :: ms, obj, v, hobj, hP, h => by
    obtain ⟨key, -, hkey⟩ := bind_eq_ok h
    obtain ⟨val, hval, hrest⟩ := bind_eq_ok hkey
    have hone := x.allNumbers_of_convert
      (fun token d ht => hP token d (List.mem_append_right _ (List.mem_append_left _ ht))) hval
    exact allNumbers_of_convertMembers ms (hobj.set hone)
      (fun token d ht => hP token d (List.mem_append_right _ (List.mem_append_right _ ht))) hrest
end

end

end QjsDebug.Json
