/-
# Conversions between strings and integers

`std::to_string` prints an integer in decimal.  The other way there are
`std::stoi` and `std::stoul(·, nullptr, 16)`, both of which sit on `strtol`/`strtoul`: white
space is skipped, a sign and (in base 16) a `0x` are read if they are there, and the longest
run of digits is converted.  Without a digit they throw `invalid_argument`, and
`out_of_range` when the number does not fit the type.
-/
import Mathlib.Data.Nat.Digits.Defs
import QjsDebug.Basic

namespace QjsDebug

/-! ## Printing -/

/-- The character of a decimal digit. -/
def digitByte (d : Nat) : UInt8 := UInt8.ofNat (48 + d)

/-- The decimal digits of a number, most significant first. -/
def decimalDigits (n : Nat) : List Nat := if n = 0 then [0] else (Nat.digits 10 n).reverse

/-- `std::to_string(n)`, and what `<<` prints. -/
def decimal (n : Int) : Bytes :=
  (if n < 0 then [byte '-'] else []) ++ (decimalDigits n.natAbs).map digitByte

/-! ## Reading -/

/-- `isspace` of the C locale. -/
def isSpace (c : UInt8) : Bool := c == 0x20 || (0x09 ≤ c && c ≤ 0x0D)

/-- The value of a digit or letter in bases up to 36. -/
def digitValue (c : UInt8) : Option Nat :=
  if byte '0' ≤ c ∧ c ≤ byte '9' then some (c.toNat - 48)
  else if byte 'a' ≤ c ∧ c ≤ byte 'z' then some (c.toNat - 87)
  else if byte 'A' ≤ c ∧ c ≤ byte 'Z' then some (c.toNat - 55)
  else none

/-- The longest run of digits of the base at the front of a string. -/
def readDigits (base : Nat) : Bytes → List Nat
  | [] => []
  | c :: rest =>
    match digitValue c with
    | some d => if d < base then d :: readDigits base rest else []
    | none => []

/-- Positional value, most significant digit first. -/
def ofDigits (base : Nat) (ds : List Nat) : Nat := ds.foldl (fun a d => base * a + d) 0

/-- An optional sign. -/
def readSign : Bytes → Bool × Bytes
  | [] => (false, [])
  | c :: rest =>
    if c = byte '-' then (true, rest) else if c = byte '+' then (false, rest)
    else (false, c :: rest)

/-- An optional `0x`, which counts only in front of a hexadecimal digit. -/
def skipHexPrefix (s : Bytes) : Bytes :=
  match s with
  | z :: x :: rest =>
    if z = byte '0' ∧ (x = byte 'x' ∨ x = byte 'X') ∧ readDigits 16 rest ≠ [] then rest else s
  | _ => s

/-- `strtol`/`strtoul` before the range check: sign and magnitude, `none` when no conversion
can be performed. -/
def strto (base : Nat) (s : Bytes) : Option (Bool × Nat) :=
  let (negative, s) := readSign (s.dropWhile isSpace)
  let s := if base = 16 then skipHexPrefix s else s
  match readDigits base s with
  | [] => none
  | ds => some (negative, ofDigits base ds)

/-- `std::stoi(s)`. -/
def stoi (s : Bytes) : Except Exn Int :=
  match strto 10 s with
  | none => .error .invalidArgument
  | some (negative, n) =>
    let v : Int := if negative then -n else n
    if -2 ^ 31 ≤ v ∧ v < 2 ^ 31 then .ok v else .error .outOfRange

/-- `std::stoul(s, nullptr, 16)`; `strtoul` negates in the unsigned type. -/
def stoulHex (s : Bytes) : Except Exn Nat :=
  match strto 16 s with
  | none => .error .invalidArgument
  | some (negative, n) =>
    if 2 ^ 64 ≤ n then .error .outOfRange
    else .ok (if negative then (2 ^ 64 - n) % 2 ^ 64 else n)

/-! ## Reading what was printed -/

theorem decimalDigits_ne_nil (n : Nat) : decimalDigits n ≠ [] := by
  unfold decimalDigits
  split
  · exact List.cons_ne_nil _ _
  · rename_i h
    exact List.reverse_ne_nil_iff.mpr (Nat.digits_ne_nil_iff_ne_zero.mpr h)

theorem lt_ten_of_mem_decimalDigits {n d : Nat} (h : d ∈ decimalDigits n) : d < 10 := by
  unfold decimalDigits at h
  split at h
  · rw [List.mem_singleton.mp h]
    exact Nat.succ_pos 9
  · exact Nat.digits_lt_base (by decide) (List.mem_reverse.mp h)

/-- The digits of a number denote it. -/
theorem ofDigits_decimalDigits (n : Nat) : ofDigits 10 (decimalDigits n) = n := by
  unfold decimalDigits
  split
  · rename_i h
    rw [h]
    rfl
  · have hfold : ∀ ds : List Nat, ofDigits 10 ds.reverse = Nat.ofDigits 10 ds := by
      intro ds
      rw [ofDigits, List.foldl_reverse, Nat.ofDigits_eq_foldr]
      exact congrArg (fun f => List.foldr f 0 ds) (funext₂ fun d a => Nat.add_comm _ _)
    rw [hfold, Nat.ofDigits_digits]

/-- Reading digits that were printed, up to a text that starts with none. -/
theorem readDigits_map_digitByte_append {ds : List Nat} (h : ∀ d ∈ ds, d < 10) (rest : Bytes)
    (hrest : readDigits 10 rest = []) : readDigits 10 (ds.map digitByte ++ rest) = ds := by
  have key : ∀ d : Fin 10, digitValue (digitByte d) = some d.1 := by decide
  induction ds with
  | nil => exact hrest
  | cons d ds ih =>
    obtain ⟨hd, hds⟩ := List.forall_mem_cons.mp h
    have hv : digitValue (digitByte d) = some d := key ⟨d, hd⟩
    rw [List.map_cons, List.cons_append, readDigits, hv]
    simp only [hd, if_true]
    rw [ih hds]

/-- **`std::stoi` reads a printed number back**, up to a text that starts with no digit. -/
theorem stoi_decimal_append {n : Int} (hpos : 0 ≤ n) (hlt : n < 2 ^ 31) {rest : Bytes}
    (hrest : readDigits 10 rest = []) : stoi (decimal n ++ rest) = .ok n := by
  have hfirst : ∀ d : Fin 10, isSpace (digitByte d) = false ∧ digitByte d ≠ byte '-' ∧
      digitByte d ≠ byte '+' := by decide
  have hdigits : ∀ d ∈ decimalDigits n.natAbs, d < 10 := fun _ => lt_ten_of_mem_decimalDigits
  have htext : decimal n ++ rest = (decimalDigits n.natAbs).map digitByte ++ rest := by
    rw [decimal, if_neg (Int.not_lt.mpr hpos), List.nil_append]
  have hread := readDigits_map_digitByte_append hdigits rest hrest
  obtain ⟨d, ds, hds⟩ := List.exists_cons_of_ne_nil (decimalDigits_ne_nil n.natAbs)
  have hstrto : strto 10 (decimal n ++ rest) = some (false, n.natAbs) := by
    rw [htext]
    rw [hds] at hread hdigits ⊢
    obtain ⟨hspace, hminus, hplus⟩ := hfirst ⟨d, hdigits d List.mem_cons_self⟩
    have hsign : readSign (((d :: ds).map digitByte ++ rest).dropWhile isSpace) =
        (false, (d :: ds).map digitByte ++ rest) := by
      simp [readSign, hspace, hminus, hplus]
    rw [strto, hsign]
    simp only [(by decide : ¬ (10 : Nat) = 16), if_false, hread]
    rw [← hds, ofDigits_decimalDigits]
  have hvalue : (n.natAbs : Int) = n := Int.natAbs_of_nonneg hpos
  rw [stoi, hstrto]
  simp only [Bool.false_eq_true, if_false, hvalue]
  rw [if_pos ⟨by omega, hlt⟩]

example : (stoi (ascii " 12:3:0")).toOption = some 12 := by decide
example : (stoulHex (ascii "00e9")).toOption = some 233 := by decide

end QjsDebug
