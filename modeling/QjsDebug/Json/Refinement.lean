/-
# The parser is a total reading followed by conversions

`Json.Parse` walks a text by position; `Json.Scan` works on the text that is left.  A
position in `s` is the suffix that starts there (`pos s t` for a suffix `t` of `s`), and under
that reading each parsing routine does what its scanning counterpart does and then converts.
The routines are taken one by one, the leaves first; the routines that contain values are
proved for any `value` routine that is right on shorter texts, and the induction on the
nesting closes the circle (`parseValue_pos`).
-/
import QjsDebug.Json.Scan

namespace QjsDebug.Json

/-! ## 1. Positions and suffixes -/

/-- The position in `s` of its suffix `t`. -/
def pos (s t : Bytes) : Nat := s.length - t.length

/-- What a routine returns that converts to `r` and leaves `t`. -/
def deliver {α : Type} (s : Bytes) (r : Except Exn α) (t : Bytes) : Except Fault (α × Nat) :=
  match r with
  | .ok a => .ok (a, pos s t)
  | .error e => .error (.exn e)

@[simp] theorem ok_bind {ε α β : Type} (a : α) (f : α → Except ε β) :
    (Except.ok a >>= f) = f a := rfl
@[simp] theorem error_bind {ε α β : Type} (e : ε) (f : α → Except ε β) :
    ((Except.error e : Except ε α) >>= f) = .error e := rfl
@[simp] theorem pure_eq_ok {ε α : Type} (a : α) : (pure a : Except ε α) = .ok a := rfl
@[simp] theorem deliver_ok {α : Type} (s : Bytes) (a : α) (t : Bytes) :
    deliver s (.ok a) t = .ok (a, pos s t) := rfl
@[simp] theorem deliver_error {α : Type} (s : Bytes) (e : Exn) (t : Bytes) :
    deliver s (.error e : Except Exn α) t = .error (.exn e) := rfl
@[simp] theorem lib_ok {α : Type} (a : α) : lib (.ok a) = .ok a := rfl
@[simp] theorem lib_error {α : Type} (e : Exn) : lib (.error e : Except Exn α) = .error (.exn e) :=
  rfl

section

variable {s t t' : Bytes} {c : UInt8} {test : UInt8 → Bool}

theorem suffix_tail (h : (c :: t) <:+ s) : t <:+ s := (List.suffix_cons c t).trans h

theorem pos_cons (h : (c :: t) <:+ s) : pos s (c :: t) + 1 = pos s t := by
  have := h.length_le
  simp only [pos, List.length_cons] at this ⊢
  omega

theorem pos_lt (h : t <:+ s) : pos s t < s.length ↔ t ≠ [] := by
  have := h.length_le
  rw [pos, ← List.length_pos_iff]
  omega

theorem getElem?_pos (h : t <:+ s) (i : Nat) : s[pos s t + i]? = t[i]? := by
  obtain ⟨pre, rfl⟩ := h
  simp [pos, List.getElem?_append_right]

theorem drop_pos (h : t <:+ s) : s.drop (pos s t) = t := by
  obtain ⟨pre, rfl⟩ := h
  simp [pos]

theorem substr_pos (h : t <:+ s) (n : Nat) : substr s (pos s t) n = .ok (t.take n) := by
  have hle : ¬ s.length < pos s t := by simp [pos]
  rw [substr, if_neg hle, drop_pos h]

theorem charAt_pos (h : (c :: t) <:+ s) : charAt s (pos s (c :: t)) = .ok c := by
  have hc := getElem?_pos h 0
  simp only [Nat.add_zero, List.getElem?_cons_zero] at hc
  simp [charAt, hc]

theorem here_pos (h : t <:+ s) : here s (pos s t) test = .ok (accept test t).isSome := by
  unfold here
  cases t with
  | nil => simp [pos, accept]
  | cons c t =>
    rw [if_pos ((pos_lt h).mpr (List.cons_ne_nil c t)), charAt_pos h]
    cases htest : test c <;> simp [accept, htest]

/-- What `accept` takes off is the byte at the position. -/
theorem accept_eq_some (h : accept test t = some t') : ∃ c, test c = true ∧ t = c :: t' := by
  cases t with
  | nil => exact absurd h (by simp [accept])
  | cons c t =>
    cases hc : test c with
    | false => exact absurd h (by simp [accept, hc])
    | true => exact ⟨c, hc, by simpa [accept, hc] using h⟩

theorem accept_suffix (hs : t <:+ s) (h : accept test t = some t') : t' <:+ s := by
  obtain ⟨c, -, rfl⟩ := accept_eq_some h
  exact suffix_tail hs

theorem accept_pos (hs : t <:+ s) (h : accept test t = some t') : pos s t + 1 = pos s t' := by
  obtain ⟨c, -, rfl⟩ := accept_eq_some h
  exact pos_cons hs

theorem scanWs_suffix (t : Bytes) : scanWs t <:+ t := List.dropWhile_suffix _

theorem dropIf_suffix (t : Bytes) : dropIf test t <:+ t := by
  unfold dropIf
  cases h : accept test t with
  | none => exact List.suffix_refl t
  | some t' => exact accept_suffix (List.suffix_refl t) h

theorem skipIf_pos (h : t <:+ s) : skipIf test s (pos s t) = .ok (pos s (dropIf test t)) := by
  unfold skipIf dropIf
  rw [here_pos h]
  cases ha : accept test t with
  | none => rfl
  | some t' => simp [accept_pos h ha]

theorem skipWhile_pos (h : t <:+ s) (n : Nat) (hn : t.length ≤ n) :
    skipWhile test s n (pos s t) = .ok (pos s (t.dropWhile test)) := by
  induction n generalizing t with
  | zero =>
    obtain rfl := List.length_eq_zero_iff.mp (Nat.le_zero.mp hn)
    rfl
  | succ n ih =>
    unfold skipWhile
    rw [here_pos h]
    cases t with
    | nil => rfl
    | cons c t =>
      rw [List.length_cons] at hn
      cases hc : test c with
      | false => simp [accept, hc]
      | true =>
        simp only [accept, hc, if_true, Option.isSome_some, ok_bind, pos_cons h,
          List.dropWhile_cons]
        exact ih (suffix_tail h) (by omega)

theorem length_sub_pos (h : t <:+ s) : s.length - pos s t = t.length := by
  have := h.length_le
  simp only [pos]
  omega

theorem skipWs_pos (h : t <:+ s) : skipWs s (pos s t) = .ok (pos s (scanWs t)) := by
  unfold skipWs
  rw [length_sub_pos h]
  exact skipWhile_pos h _ (Nat.le_refl _)

theorem skipDigits_pos (h : t <:+ s) :
    skipDigits s (pos s t) = .ok (pos s (t.dropWhile isDigit)) := by
  unfold skipDigits
  rw [length_sub_pos h]
  exact skipWhile_pos h _ (Nat.le_refl _)

end

/-! ## 2. Strings -/

section

variable {c e : UInt8} {t : Bytes}

theorem scanString_quote : scanString (byte '"' :: t) = ([], t) := by
  rw [scanString.eq_def]
  simp only [if_true]

theorem scanString_plain (hq : c ≠ byte '"') (hb : c ≠ byte '\\') :
    scanString (c :: t) = (.byte c :: (scanString t).1, (scanString t).2) := by
  rw [scanString.eq_def]
  simp only [hq, hb, if_false]

theorem scanString_escape (hu : e ≠ byte 'u') :
    scanString (byte '\\' :: e :: t) =
      (.byte (unescape e) :: (scanString t).1, (scanString t).2) := by
  have hq : byte '\\' ≠ byte '"' := by decide
  rw [scanString.eq_def]
  simp only [hq, hu, if_true, if_false]

theorem scanString_unicode (hl : 4 ≤ t.length) :
    scanString (byte '\\' :: byte 'u' :: t) =
      (.escape (t.take 4) :: (scanString (t.drop 4)).1, (scanString (t.drop 4)).2) := by
  have hq : byte '\\' ≠ byte '"' := by decide
  match t, hl with
  | _ :: _ :: _ :: _ :: t'', _ =>
    rw [scanString.eq_def]
    simp only [hq, if_true, if_false, List.take, List.drop]

theorem scanString_unicode_short (hl : ¬ 4 ≤ t.length) :
    scanString (byte '\\' :: byte 'u' :: t) = scanString t := by
  have hq : byte '\\' ≠ byte '"' := by decide
  rw [scanString.eq_def]
  match t with
  | [] => simp only [hq, if_true, if_false, scanString]
  | [_] => simp only [hq, if_true, if_false]
  | [_, _] => simp only [hq, if_true, if_false]
  | [_, _, _] => simp only [hq, if_true, if_false]
  | _ :: _ :: _ :: _ :: _ => simp at hl

theorem scanString_lone : scanString [byte '\\'] = ([], []) := by decide

end

/-- What is left after a string body is a suffix of the text.  One turn of the loop takes one
byte, an escape, or a whole `\u` escape; the induction is on a bound for the length. -/
theorem scanString_suffix (t : Bytes) : (scanString t).2 <:+ t := by
  generalize hn : t.length = n
  induction n using Nat.strong_induction_on generalizing t with
  | _ n ih =>
    subst hn
    cases t with
    | nil => exact List.suffix_refl []
    | cons c t =>
      by_cases hq : c = byte '"'
      · rw [hq, scanString_quote]
        exact List.suffix_cons _ _
      by_cases hb : c = byte '\\'
      · subst hb
        cases t with
        | nil => rw [scanString_lone]; exact List.nil_suffix
        | cons e t =>
          have htail : t <:+ byte '\\' :: e :: t := suffix_tail (List.suffix_cons _ _)
          by_cases hu : e = byte 'u'
          · subst hu
            by_cases hl : 4 ≤ t.length
            · rw [scanString_unicode hl]
              refine (ih _ ?_ _ rfl).trans ((List.drop_suffix 4 t).trans htail)
              simp only [List.length_drop, List.length_cons]
              omega
            · rw [scanString_unicode_short hl]
              exact (ih _ (by simp only [List.length_cons]; omega) _ rfl).trans htail
          · rw [scanString_escape hu]
            exact (ih _ (by simp only [List.length_cons]; omega) _ rfl).trans htail
      · rw [scanString_plain hq hb]
        exact (ih _ (by simp only [List.length_cons]; omega) _ rfl).trans (List.suffix_cons _ _)

/-- The end of `parse_string`: over the closing quote, if there is one. -/
def closeString (s : Bytes) (x : Bytes × Nat) : Bytes × Nat :=
  (x.1, if x.2 < s.length then x.2 + 1 else x.2)

/-- A piece that can be converted goes to the end of the text so far. -/
theorem map_convertString_cons {p : Piece} {bytes : Bytes} (hp : p.convert = .ok bytes)
    (ps : List Piece) (r : Bytes) :
    (convertString (p :: ps)).map (r ++ ·) = (convertString ps).map ((r ++ bytes) ++ ·) := by
  simp only [convertString, hp, ok_bind]
  cases convertString ps with
  | error e => rfl
  | ok rest => simp [Except.map]

/-- The positions at a `\u` escape: the test for four digits, and where they end. -/
theorem pos_unicode {s t : Bytes} (h : (byte '\\' :: byte 'u' :: t) <:+ s) :
    (pos s (byte 'u' :: t) + 4 < s.length ↔ 4 ≤ t.length) ∧
      (4 ≤ t.length → pos s (byte '\\' :: byte 'u' :: t) + 6 = pos s (t.drop 4)) := by
  have hlen := h.length_le
  simp only [List.length_cons] at hlen
  simp only [pos, List.length_cons, List.length_drop]
  omega

/-- The loop of `parse_string` reads the body and converts it, behind the text it has. -/
theorem stringLoop_pos {s : Bytes} (n : Nat) :
    ∀ {t r : Bytes}, t <:+ s → t.length ≤ n →
      (stringLoop s n r (pos s t)).map (closeString s) =
        deliver s ((convertString (scanString t).1).map (r ++ ·)) (scanString t).2 := by
  induction n with
  | zero =>
    intro t r h hn
    obtain rfl := List.length_eq_zero_iff.mp (Nat.le_zero.mp hn)
    simp [stringLoop, Except.map, closeString, scanString, convertString, pos]
  | succ n ih =>
    intro t r h hn
    unfold stringLoop
    rw [here_pos h]
    cases t with
    | nil => simp [accept, Except.map, closeString, scanString, convertString, pos]
    | cons c t =>
      rw [List.length_cons] at hn
      have ht : t <:+ s := suffix_tail h
      by_cases hq : c = byte '"'
      · subst hq
        have hlt : pos s (byte '"' :: t) < s.length := (pos_lt h).mpr (List.cons_ne_nil _ _)
        simp [accept, scanString_quote, Except.map, closeString, convertString, hlt, pos_cons h]
      have hacc : accept (· != byte '"') (c :: t) = some t := by simp [accept, hq]
      rw [hacc]
      simp only [Option.isSome_some, ok_bind, if_true, charAt_pos h, pos_cons h]
      by_cases hb : c = byte '\\'
      · subst hb
        rw [if_pos rfl]
        cases t with
        | nil =>
          simp [scanString_lone, Except.map, closeString, convertString, pos]
        | cons e t =>
          rw [List.length_cons] at hn
          have hlt := (pos_lt ht).mpr (List.cons_ne_nil e t)
          have ht' : t <:+ s := suffix_tail ht
          have hp2 : pos s (byte '\\' :: e :: t) + 2 = pos s t := by
            rw [← pos_cons ht, ← pos_cons h]
          rw [if_neg (by omega), charAt_pos ht, ok_bind, hp2]
          by_cases hu : e = byte 'u'
          · subst hu
            rw [if_pos rfl]
            obtain ⟨h4, hp6⟩ := pos_unicode h
            by_cases hl : 4 ≤ t.length
            · rw [if_pos (h4.mpr hl), substr_pos ht', ok_bind, scanString_unicode hl, hp6 hl]
              have hrest : t.drop 4 <:+ s := (List.drop_suffix 4 t).trans ht'
              have hlen : (t.drop 4).length ≤ n := by
                rw [List.length_drop]
                omega
              cases hd : decodeEscape (t.take 4) with
              | error e =>
                simp only [convertString, Piece.convert, hd]
                rfl
              | ok bytes =>
                have hp : (Piece.escape (t.take 4)).convert = .ok bytes := hd
                rw [lib_ok, ok_bind, ih hrest hlen, map_convertString_cons hp]
            · rw [if_neg (mt h4.mp hl), scanString_unicode_short hl]
              exact ih ht' (by omega)
          · have hp : (Piece.byte (unescape e)).convert = .ok [unescape e] := rfl
            rw [if_neg hu, scanString_escape hu, ih ht' (by omega), map_convertString_cons hp]
      · have hp : (Piece.byte c).convert = .ok [c] := rfl
        rw [if_neg hb, scanString_plain hq hb, ih ht (by omega), map_convertString_cons hp]

/-- `parse_string`, at an opening quote. -/
theorem parseString_pos {s t : Bytes} {c : UInt8} (h : (c :: t) <:+ s) :
    parseString s (pos s (c :: t)) =
      deliver s (convertString (scanString t).1) (scanString t).2 := by
  have ht := suffix_tail h
  have hloop := stringLoop_pos (s.length - pos s t) (r := []) ht (by rw [length_sub_pos ht])
  unfold parseString
  rw [pos_cons h]
  cases hr : stringLoop s (s.length - pos s t) [] (pos s t) with
  | error f =>
    rw [hr] at hloop
    cases hc : convertString (scanString t).1 with
    | error e => rw [hc] at hloop; exact hloop
    | ok r => rw [hc] at hloop; exact absurd hloop (by simp [Except.map])
  | ok x =>
    rw [hr] at hloop
    cases hc : convertString (scanString t).1 with
    | error e => rw [hc] at hloop; exact absurd hloop (by simp [Except.map])
    | ok r => rw [hc] at hloop; exact hloop

/-! ## 3. Numbers and keywords -/

theorem afterFraction_suffix (t : Bytes) : afterFraction t <:+ t := by
  unfold afterFraction
  split
  · rename_i t' h
    exact (List.dropWhile_suffix _).trans (accept_suffix (List.suffix_refl t) h)
  · exact List.suffix_refl t

theorem afterExponent_suffix (t : Bytes) : afterExponent t <:+ t := by
  unfold afterExponent
  split
  · rename_i t' h
    exact (List.dropWhile_suffix _).trans
      ((dropIf_suffix t').trans (accept_suffix (List.suffix_refl t) h))
  · exact List.suffix_refl t

theorem afterNumber_suffix (t : Bytes) : afterNumber t <:+ t :=
  (afterExponent_suffix _).trans ((afterFraction_suffix _).trans
    ((List.dropWhile_suffix _).trans (dropIf_suffix t)))

section

variable {s t : Bytes}

theorem skipFraction_pos (h : t <:+ s) :
    skipFraction s (pos s t) = .ok (pos s (afterFraction t)) := by
  unfold skipFraction afterFraction
  rw [here_pos h]
  cases hd : accept (· == byte '.') t with
  | none => rfl
  | some t' =>
    simp only [Option.isSome_some, ok_bind, if_true, accept_pos h hd]
    exact skipDigits_pos (accept_suffix h hd)

theorem skipExponent_pos (h : t <:+ s) :
    skipExponent s (pos s t) = .ok (pos s (afterExponent t)) := by
  unfold skipExponent afterExponent
  rw [here_pos h]
  cases he : accept (fun c => c == byte 'e' || c == byte 'E') t with
  | none => rfl
  | some t' =>
    have ht' := accept_suffix h he
    simp only [Option.isSome_some, ok_bind, if_true, accept_pos h he, skipIf_pos ht']
    exact skipDigits_pos ((dropIf_suffix t').trans ht')

theorem numberEnd_pos (h : t <:+ s) : numberEnd s (pos s t) = .ok (pos s (afterNumber t)) := by
  have hsign : dropIf (· == byte '-') t <:+ s := (dropIf_suffix t).trans h
  have hint : (dropIf (· == byte '-') t).dropWhile isDigit <:+ s :=
    (List.dropWhile_suffix _).trans hsign
  unfold numberEnd afterNumber
  rw [skipIf_pos h, ok_bind, skipDigits_pos hsign, ok_bind, skipFraction_pos hint, ok_bind,
    skipExponent_pos ((afterFraction_suffix _).trans hint)]

end

theorem parseNumber_pos {stod : Bytes → Except Exn Double} {s t : Bytes} (h : t <:+ s) :
    parseNumber stod s (pos s t) =
      deliver s ((Raw.number (numberToken t)).convert stod) (afterNumber t) := by
  have hr := afterNumber_suffix t
  have hlen : pos s (afterNumber t) - pos s t = t.length - (afterNumber t).length := by
    have := h.length_le
    have := hr.length_le
    simp only [pos]
    omega
  unfold parseNumber
  rw [numberEnd_pos h, ok_bind, hlen, substr_pos h, ok_bind, Raw.convert, numberToken]
  cases stod (t.take (t.length - (afterNumber t).length)) <;> rfl

section

variable {s t word : Bytes} {n : Nat}

theorem compareAt_pos (h : t <:+ s) : compareAt s (pos s t) n word = .ok (t.take n == word) := by
  simp [compareAt, substr_pos h]

/-- Over a keyword that is there. -/
theorem pos_keyword (h : t <:+ s) (hw : t.take n = word) (hn : word.length = n) :
    pos s t + n = pos s (t.drop n) := by
  have hlen := h.length_le
  have htake : (t.take n).length = n := by rw [hw, hn]
  rw [List.length_take] at htake
  simp only [pos, List.length_drop]
  omega

theorem parseBool_pos {stod : Bytes → Except Exn Double} (h : t <:+ s) :
    parseBool s (pos s t) = deliver s ((scanBool t).1.convert stod) (scanBool t).2 := by
  unfold parseBool scanBool
  simp only [compareAt_pos h, ok_bind, beq_iff_eq]
  split
  · rename_i hw
    simp [pos_keyword h hw rfl, Raw.convert]
  · split
    · rename_i hw
      simp [pos_keyword h hw rfl, Raw.convert]
    · rfl

theorem parseNull_pos (h : t <:+ s) :
    parseNull s (pos s t) = .ok (.null, pos s (scanNull t)) := by
  unfold parseNull scanNull
  simp only [compareAt_pos h, ok_bind, beq_iff_eq]
  split
  · rename_i hw
    simp [pos_keyword h hw rfl]
  · rfl

theorem scanBool_suffix (t : Bytes) : (scanBool t).2 <:+ t := by
  unfold scanBool
  split
  · exact List.drop_suffix 4 t
  · split
    · exact List.drop_suffix 5 t
    · exact List.suffix_refl t

theorem scanNull_suffix (t : Bytes) : scanNull t <:+ t := by
  unfold scanNull
  split
  · exact List.drop_suffix 4 t
  · exact List.suffix_refl t

end

/-! ## 4. Objects and arrays

`value` stands for the routine that reads what is inside. -/

section

variable {scanned : Bytes → Raw × Bytes} (hsuffix : ∀ t, (scanned t).2 <:+ t)

include hsuffix

theorem scanMembers_suffix (n : Nat) : ∀ t, (scanMembers scanned n t).2 <:+ t := by
  induction n with
  | zero => exact fun t => List.suffix_refl t
  | succ n ih =>
    intro t
    unfold scanMembers
    have hws := scanWs_suffix t
    cases hq : accept (· == byte '"') (scanWs t) with
    | none => exact hws
    | some t₁ =>
      have h₁ : t₁ <:+ t := accept_suffix hws hq
      have hval := (scanWs_suffix _).trans
        ((hsuffix (dropIf (· == byte ':') (scanWs (scanString t₁).2))).trans
          ((dropIf_suffix _).trans ((scanWs_suffix _).trans ((scanString_suffix t₁).trans h₁))))
      dsimp only
      split
      · exact hval
      · rename_i t₂ hc
        exact (ih t₂).trans (accept_suffix hval hc)

theorem scanElements_suffix (n : Nat) : ∀ t, (scanElements scanned n t).2 <:+ t := by
  induction n with
  | zero => exact fun t => List.suffix_refl t
  | succ n ih =>
    intro t
    unfold scanElements
    split
    · exact List.nil_suffix
    · have hval := (scanWs_suffix _).trans (hsuffix t)
      dsimp only
      split
      · exact hval
      · rename_i t₂ hc
        exact (ih t₂).trans (accept_suffix hval hc)

theorem scanObject_suffix (t : Bytes) : (scanObject scanned t).2 <:+ t := by
  unfold scanObject
  split
  · rename_i t' hc
    exact accept_suffix (scanWs_suffix t) hc
  · exact (dropIf_suffix _).trans ((scanWs_suffix _).trans
      ((scanMembers_suffix hsuffix _ _).trans (scanWs_suffix t)))

theorem scanArray_suffix (t : Bytes) : (scanArray scanned t).2 <:+ t := by
  unfold scanArray
  split
  · rename_i t' hc
    exact accept_suffix (scanWs_suffix t) hc
  · exact (dropIf_suffix _).trans ((scanWs_suffix _).trans
      ((scanElements_suffix hsuffix _ _).trans (scanWs_suffix t)))

end

theorem scanValue_suffix (n : Nat) : ∀ t, (scanValue n t).2 <:+ t := by
  induction n with
  | zero => exact fun t => List.suffix_refl t
  | succ n ih =>
    intro t
    unfold scanValue
    have hws := scanWs_suffix t
    split
    · exact List.nil_suffix
    · rename_i c t' heq
      rw [heq] at hws
      have ht' : t' <:+ t := suffix_tail hws
      split
      · exact (scanString_suffix t').trans ht'
      split
      · exact (scanObject_suffix ih t').trans ht'
      split
      · exact (scanArray_suffix ih t').trans ht'
      split
      · exact (scanBool_suffix _).trans hws
      split
      · exact (scanNull_suffix _).trans hws
      · exact (afterNumber_suffix _).trans hws

/-- White space and a closing bracket behind what was read. -/
theorem close_pos {s u : Bytes} {x : Except Exn Value} {close : UInt8} (h : u <:+ s) :
    (do
      let (v, p) ← deliver s x u
      let p ← skipWs s p
      let p ← skipIf (· == close) s p
      return (v, p)) = deliver s x (dropIf (· == close) (scanWs u)) := by
  cases x with
  | error e => rfl
  | ok v =>
    rw [deliver_ok, ok_bind]
    dsimp only
    rw [skipWs_pos h, ok_bind, skipIf_pos ((scanWs_suffix _).trans h)]
    rfl

section

variable {stod : Bytes → Except Exn Double} {s : Bytes} {k : Nat}
  {value : Nat → Except Fault (Value × Nat)} {scanned : Bytes → Raw × Bytes}
  (hsuffix : ∀ t, (scanned t).2 <:+ t)
  (hvalue : ∀ t, t <:+ s → t.length < k →
    value (pos s t) = deliver s ((scanned t).1.convert stod) (scanned t).2)

include hsuffix hvalue

theorem objectLoop_pos (n : Nat) : ∀ {t : Bytes} (obj : Value), t <:+ s → t.length < k →
    objectLoop value s n obj (pos s t) =
      deliver s (convertMembers stod (scanMembers scanned n t).1 obj)
        (scanMembers scanned n t).2 := by
  induction n with
  | zero => intro t obj _ _; rfl
  | succ n ih =>
    intro t obj h hk
    have hws : scanWs t <:+ s := (scanWs_suffix t).trans h
    unfold objectLoop scanMembers
    by_cases hnil : t = []
    · subst hnil
      rw [if_neg (by simp [pos])]
      rfl
    rw [if_pos ((pos_lt h).mpr hnil), skipWs_pos h, ok_bind, here_pos hws, ok_bind]
    cases hq : accept (· == byte '"') (scanWs t) with
    | none => rfl
    | some t₁ =>
      obtain ⟨c, -, hc⟩ := accept_eq_some hq
      have h₁ : t₁ <:+ t := accept_suffix (scanWs_suffix t) hq
      have hkey := (scanString_suffix t₁).trans h₁
      have hcolon := (scanWs_suffix (scanString t₁).2).trans hkey
      have hval : dropIf (· == byte ':') (scanWs (scanString t₁).2) <:+ t :=
        (dropIf_suffix _).trans hcolon
      have hrest := (scanWs_suffix _).trans
        ((hsuffix (dropIf (· == byte ':') (scanWs (scanString t₁).2))).trans hval)
      simp only [Option.isSome_some, if_true]
      rw [hc] at hws
      rw [hc, parseString_pos hws]
      cases hck : convertString (scanString t₁).1 with
      | error e =>
        split <;> simp [convertMembers, hck]
      | ok key =>
        rw [deliver_ok, ok_bind]
        dsimp only
        rw [skipWs_pos (hkey.trans h), ok_bind, skipIf_pos (hcolon.trans h), ok_bind,
          hvalue _ (hval.trans h) (Nat.lt_of_le_of_lt hval.length_le hk)]
        cases hcv :
            (scanned (dropIf (· == byte ':') (scanWs (scanString t₁).2))).1.convert stod with
        | error e =>
          split <;> simp [convertMembers, hck, hcv]
        | ok val =>
          rw [deliver_ok, ok_bind]
          dsimp only
          rw [skipWs_pos (((hsuffix _).trans hval).trans h), ok_bind, here_pos (hrest.trans h),
            ok_bind]
          cases hcomma : accept (· == byte ',')
            (scanWs (scanned (dropIf (· == byte ':') (scanWs (scanString t₁).2))).2) with
          | none => simp [convertMembers, hck, hcv]
          | some t₂ =>
            have h₂ := accept_suffix hrest hcomma
            simp only [Option.isSome_some, if_true, accept_pos (hrest.trans h) hcomma]
            rw [ih _ (h₂.trans h) (Nat.lt_of_le_of_lt h₂.length_le hk)]
            simp [convertMembers, hck, hcv]

theorem arrayLoop_pos (n : Nat) : ∀ {t : Bytes} (arr : Value), t <:+ s → t.length < k →
    arrayLoop value s n arr (pos s t) =
      deliver s (convertElements stod (scanElements scanned n t).1 arr)
        (scanElements scanned n t).2 := by
  induction n with
  | zero => intro t arr _ _; rfl
  | succ n ih =>
    intro t arr h hk
    unfold arrayLoop scanElements
    by_cases hnil : t = []
    · subst hnil
      rw [if_neg (by simp [pos]), if_pos rfl]
      rfl
    rw [if_pos ((pos_lt h).mpr hnil), if_neg hnil, hvalue t h hk]
    have hrest := (scanWs_suffix _).trans (hsuffix t)
    cases hcv : (scanned t).1.convert stod with
    | error e =>
      dsimp only
      split <;> simp [convertElements, hcv]
    | ok val =>
      rw [deliver_ok, ok_bind]
      dsimp only
      rw [skipWs_pos ((hsuffix t).trans h), ok_bind, here_pos (hrest.trans h), ok_bind]
      cases hcomma : accept (· == byte ',') (scanWs (scanned t).2) with
      | none => simp [convertElements, hcv]
      | some t₂ =>
        have h₂ := accept_suffix hrest hcomma
        simp only [Option.isSome_some, if_true, accept_pos (hrest.trans h) hcomma]
        rw [ih _ (h₂.trans h) (Nat.lt_of_le_of_lt h₂.length_le hk)]
        simp [convertElements, hcv]

/-- `parse_object`, at an opening brace. -/
theorem parseObject_pos {t : Bytes} {c : UInt8} (h : (c :: t) <:+ s) (hk : t.length < k) :
    parseObject value s (pos s (c :: t)) =
      deliver s ((scanObject scanned t).1.convert stod) (scanObject scanned t).2 := by
  have ht := suffix_tail h
  have hws : scanWs t <:+ s := (scanWs_suffix t).trans ht
  unfold parseObject scanObject
  rw [pos_cons h, skipWs_pos ht, ok_bind, here_pos hws, ok_bind]
  cases hb : accept (· == byte '}') (scanWs t) with
  | some t' => simp [accept_pos hws hb, Raw.convert, convertMembers]
  | none =>
    simp only [Option.isSome_none, Bool.false_eq_true, if_false, Raw.convert]
    rw [length_sub_pos hws, objectLoop_pos hsuffix hvalue _ _ hws
      (Nat.lt_of_le_of_lt (scanWs_suffix t).length_le hk)]
    have hms := (scanMembers_suffix hsuffix (scanWs t).length (scanWs t)).trans hws
    exact close_pos hms

/-- `parse_array`, at an opening bracket. -/
theorem parseArray_pos {t : Bytes} {c : UInt8} (h : (c :: t) <:+ s) (hk : t.length < k) :
    parseArray value s (pos s (c :: t)) =
      deliver s ((scanArray scanned t).1.convert stod) (scanArray scanned t).2 := by
  have ht := suffix_tail h
  have hws : scanWs t <:+ s := (scanWs_suffix t).trans ht
  unfold parseArray scanArray
  rw [pos_cons h, skipWs_pos ht, ok_bind, here_pos hws, ok_bind]
  cases hb : accept (· == byte ']') (scanWs t) with
  | some t' => simp [accept_pos hws hb, Raw.convert, convertElements]
  | none =>
    simp only [Option.isSome_none, Bool.false_eq_true, if_false, Raw.convert]
    rw [length_sub_pos hws, arrayLoop_pos hsuffix hvalue _ _ hws
      (Nat.lt_of_le_of_lt (scanWs_suffix t).length_le hk)]
    have hxs := (scanElements_suffix hsuffix (scanWs t).length (scanWs t)).trans hws
    exact close_pos hxs

end

/-! ## 5. Values -/

/-- `parse_value` reads a value and converts it, with fuel above the length of the text. -/
theorem parseValue_pos {stod : Bytes → Except Exn Double} {s : Bytes} (n : Nat) :
    ∀ t, t <:+ s → t.length < n →
      parseValue stod s n (pos s t) =
        deliver s ((scanValue n t).1.convert stod) (scanValue n t).2 := by
  induction n with
  | zero => intro t _ hn; exact absurd hn (Nat.not_lt_zero _)
  | succ n ih =>
    intro t h hn
    have hws : scanWs t <:+ s := (scanWs_suffix t).trans h
    have hle : (scanWs t).length ≤ t.length := (scanWs_suffix t).length_le
    unfold parseValue scanValue
    rw [skipWs_pos h, ok_bind]
    cases hw : scanWs t with
    | nil => simp [pos, Raw.convert]
    | cons c u =>
      rw [hw] at hws hle
      rw [List.length_cons] at hle
      have hlt := (pos_lt hws).mpr (List.cons_ne_nil c u)
      have hku : u.length < n := by omega
      rw [if_neg (by omega), charAt_pos hws, ok_bind]
      dsimp only
      split
      · rw [parseString_pos hws]
        simp only [Raw.convert]
        cases convertString (scanString u).1 <;> rfl
      split
      · exact parseObject_pos (scanValue_suffix n) ih hws hku
      split
      · exact parseArray_pos (scanValue_suffix n) ih hws hku
      split
      · exact parseBool_pos hws
      split
      · rw [parseNull_pos hws]
        rfl
      · exact parseNumber_pos hws

/-- **The parser is a total reading followed by conversions.**  It ends on every text,
reads no byte outside it, and throws what the first failing conversion throws. -/
theorem parse_eq (stod : Bytes → Except Exn Double) (s : Bytes) :
    parse stod s = lib ((scan s).convert stod) := by
  have h0 : pos s s = 0 := Nat.sub_self _
  have h := @parseValue_pos stod s (s.length + 1) s (List.suffix_refl s) (Nat.lt_succ_self _)
  rw [h0] at h
  unfold parse scan
  rw [h]
  cases (scanValue (s.length + 1) s).1.convert stod <;> rfl

/-! ## 6. What is parsed is well formed -/

/-- A computation that ran to its end, taken apart. -/
theorem bind_eq_ok {ε α β : Type} {x : Except ε α} {f : α → Except ε β} {b : β}
    (h : (x >>= f) = .ok b) : ∃ a, x = .ok a ∧ f a = .ok b := by
  cases x with
  | error e => exact absurd h (by simp)
  | ok a => exact ⟨a, rfl, h⟩

section

variable {stod : Bytes → Except Exn Double}

mutual
theorem Raw.wf_of_convert : (x : Raw) → {v : Value} → x.convert stod = .ok v → v.WF
  | .null, v, h => by
    obtain rfl := Except.ok.inj h
    trivial
  | .bool _, v, h => by
    obtain rfl := Except.ok.inj h
    trivial
  | .number token, v, h => by
    obtain ⟨d, -, hv⟩ := bind_eq_ok h
    obtain rfl := Except.ok.inj hv
    trivial
  | .string ps, v, h => by
    obtain ⟨s, -, hv⟩ := bind_eq_ok h
    obtain rfl := Except.ok.inj hv
    trivial
  | .array xs, v, h => by
    have hempty : (Value.array []).WF := trivial
    exact wf_of_convertElements xs hempty h
  | .object ms, v, h => by
    have hempty : (Value.object []).WF := ⟨SortedMap.sorted_nil, trivial⟩
    exact wf_of_convertMembers ms hempty h
theorem wf_of_convertElements : (xs : List Raw) → {arr v : Value} → arr.WF →
    convertElements stod xs arr = .ok v → v.WF
  | [], arr, v, harr, h => by
    obtain rfl := Except.ok.inj h
    exact harr
  | x :: xs, arr, v, harr, h => by
    obtain ⟨val, hval, hrest⟩ := bind_eq_ok h
    exact wf_of_convertElements xs (harr.push (x.wf_of_convert hval)) hrest
theorem wf_of_convertMembers : (ms : List (List Piece × Raw)) → {obj v : Value} → obj.WF →
    convertMembers stod ms obj = .ok v → v.WF
  | [], obj, v, hobj, h => by
    obtain rfl := Except.ok.inj h
    exact hobj
  | (k, x) :: ms, obj, v, hobj, h => by
    obtain ⟨key, -, hkey⟩ := bind_eq_ok h
    obtain ⟨val, hval, hrest⟩ := bind_eq_ok hkey
    exact wf_of_convertMembers ms (hobj.set (x.wf_of_convert hval)) hrest
end

/-- Every tree `parse` builds is well formed. -/
theorem wf_of_parse {s : Bytes} {v : Value} (h : parse stod s = .ok v) : v.WF := by
  rw [parse_eq] at h
  cases hc : (scan s).convert stod with
  | error e => rw [hc] at h; exact absurd h (by simp)
  | ok w =>
    rw [hc] at h
    obtain rfl := Except.ok.inj h
    exact (scan s).wf_of_convert hc

end

end QjsDebug.Json
