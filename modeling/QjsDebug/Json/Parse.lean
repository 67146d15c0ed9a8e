/-
# `json::Value::parse`

The recursive-descent parser of `json.h`, function by function.  Every routine takes the
text `s` and a position `p` in it and hands the position on, as the C++ routines do through
their `size_t&`.

What can go wrong is kept visible.  Reading `s[p]` at or past the end is the fault
`outOfBounds`; `substr` and `compare` past the end, and the conversions `std::stod` and
`std::stoul`, throw (`exn`).  `std::stod` is a parameter: it is the one routine whose result
is a rounded number.

The routines call each other through `parse_value`, so `parseObject` and `parseArray` take
it as an argument, and `parseValue` ties the knot with a bound on the nesting.  Running into
that bound is the fault `fuel`; `parse` starts with more fuel than there are bytes, and
`parse_eq` (in `Json.Scan`) shows that it never runs out.  The loops are bounded by the
number of bytes left, each turn consuming at least one.
-/
import QjsDebug.Conversions
import QjsDebug.Json.Value

namespace QjsDebug.Json

/-! ## 1. Reading the text -/

/-- How a parsing routine can fail. -/
inductive Fault
  | fuel
  | outOfBounds
  | exn (e : Exn)
  deriving DecidableEq, Repr

/-- A library call that throws. -/
def lib {α : Type} : Except Exn α → Except Fault α
  | .ok a => .ok a
  | .error e => .error (.exn e)

/-- `s[p]`. -/
def charAt (s : Bytes) (p : Nat) : Except Fault UInt8 :=
  match s[p]? with
  | some c => .ok c
  | none => .error .outOfBounds

/-- `p < s.size() && test(s[p])`. -/
def here (s : Bytes) (p : Nat) (test : UInt8 → Bool) : Except Fault Bool :=
  if p < s.length then do return test (← charAt s p) else return false

/-- `s.substr(p, n)`. -/
def substr (s : Bytes) (p n : Nat) : Except Fault Bytes :=
  if s.length < p then .error (.exn .outOfRange) else .ok ((s.drop p).take n)

/-- `s.compare(p, n, word) == 0`. -/
def compareAt (s : Bytes) (p n : Nat) (word : Bytes) : Except Fault Bool := do
  return (← substr s p n) == word

/-- `while (p < s.size() && test(s[p])) p++`, where `n` bytes are left. -/
def skipWhile (test : UInt8 → Bool) (s : Bytes) : Nat → Nat → Except Fault Nat
  | 0, p => return p
  | n + 1, p => do if ← here s p test then skipWhile test s n (p + 1) else return p

/-- The white space of JSON. -/
def isWs (c : UInt8) : Bool :=
  c == byte ' ' || c == byte '\t' || c == byte '\n' || c == byte '\r'

def isDigit (c : UInt8) : Bool := byte '0' ≤ c && c ≤ byte '9'

/-- `skip_ws`. -/
def skipWs (s : Bytes) (p : Nat) : Except Fault Nat := skipWhile isWs s (s.length - p) p

/-! ## 2. Strings -/

/-- The character an escape other than `\u` stands for; an unknown one stands for itself. -/
def unescape (c : UInt8) : UInt8 :=
  if c = byte 'b' then 0x08
  else if c = byte 'f' then 0x0C
  else if c = byte 'n' then 0x0A
  else if c = byte 'r' then 0x0D
  else if c = byte 't' then 0x09
  else c

/-- The bytes appended for a `\u` escape; the casts to `char` keep the low byte. -/
def encodeEscape (cp : Nat) : Bytes :=
  if cp < 0x80 then [UInt8.ofNat cp]
  else if cp < 0x800 then
    [UInt8.ofNat (0xC0 ||| (cp >>> 6)), UInt8.ofNat (0x80 ||| (cp &&& 0x3F))]
  else
    [UInt8.ofNat (0xE0 ||| (cp >>> 12)), UInt8.ofNat (0x80 ||| ((cp >>> 6) &&& 0x3F)),
      UInt8.ofNat (0x80 ||| (cp &&& 0x3F))]

/-- `(unsigned)std::stoul(digits, nullptr, 16)`, encoded. -/
def decodeEscape (digits : Bytes) : Except Exn Bytes :=
  match stoulHex digits with
  | .ok n => .ok (encodeEscape (n % 2 ^ 32))
  | .error e => .error e

/-- The loop of `parse_string`, with the text `r` read so far. -/
def stringLoop (s : Bytes) : Nat → Bytes → Nat → Except Fault (Bytes × Nat)
  | 0, r, p => return (r, p)
  | n + 1, r, p => do
    if ← here s p (· != byte '"') then
      let c ← charAt s p
      if c = byte '\\' then
        if s.length ≤ p + 1 then return (r, p + 1)
        else
          let e ← charAt s (p + 1)
          if e = byte 'u' then
            if p + 1 + 4 < s.length then
              let digits ← substr s (p + 2) 4
              let bytes ← lib (decodeEscape digits)
              stringLoop s n (r ++ bytes) (p + 6)
            else stringLoop s n r (p + 2)
          else stringLoop s n (r ++ [unescape e]) (p + 2)
      else stringLoop s n (r ++ [c]) (p + 1)
    else return (r, p)

/-- `parse_string`. -/
def parseString (s : Bytes) (p : Nat) : Except Fault (Bytes × Nat) := do
  let (r, p) ← stringLoop s (s.length - (p + 1)) [] (p + 1)
  return (r, if p < s.length then p + 1 else p)

/-! ## 3. Numbers and keywords -/

/-- `if (p < s.size() && test(s[p])) p++`. -/
def skipIf (test : UInt8 → Bool) (s : Bytes) (p : Nat) : Except Fault Nat := do
  if ← here s p test then return p + 1 else return p

def skipDigits (s : Bytes) (p : Nat) : Except Fault Nat := skipWhile isDigit s (s.length - p) p

/-- A fraction, if there is one. -/
def skipFraction (s : Bytes) (p : Nat) : Except Fault Nat := do
  if ← here s p (· == byte '.') then skipDigits s (p + 1) else return p

/-- An exponent, if there is one. -/
def skipExponent (s : Bytes) (p : Nat) : Except Fault Nat := do
  if ← here s p (fun c => c == byte 'e' || c == byte 'E') then
    let p ← skipIf (fun c => c == byte '+' || c == byte '-') s (p + 1)
    skipDigits s p
  else return p

/-- Where the number token that starts at `p` ends. -/
def numberEnd (s : Bytes) (p : Nat) : Except Fault Nat := do
  let p ← skipIf (· == byte '-') s p
  let p ← skipDigits s p
  let p ← skipFraction s p
  skipExponent s p

/-- `parse_number`. -/
def parseNumber (stod : Bytes → Except Exn Double) (s : Bytes) (start : Nat) :
    Except Fault (Value × Nat) := do
  let p ← numberEnd s start
  let token ← substr s start (p - start)
  let d ← lib (stod token)
  return (.number d, p)

/-- `parse_bool`. -/
def parseBool (s : Bytes) (p : Nat) : Except Fault (Value × Nat) := do
  if ← compareAt s p 4 (ascii "true") then return (.bool true, p + 4)
  else if ← compareAt s p 5 (ascii "false") then return (.bool false, p + 5)
  else return (.null, p)

/-- `parse_null`. -/
def parseNull (s : Bytes) (p : Nat) : Except Fault (Value × Nat) := do
  if ← compareAt s p 4 (ascii "null") then return (.null, p + 4) else return (.null, p)

/-! ## 4. Objects, arrays, values -/

section

variable (value : Nat → Except Fault (Value × Nat)) (s : Bytes)

/-- The loop of `parse_object`. -/
def objectLoop : Nat → Value → Nat → Except Fault (Value × Nat)
  | 0, obj, p => return (obj, p)
  | n + 1, obj, p => do
    if p < s.length then
      let p ← skipWs s p
      if ← here s p (· == byte '"') then
        let (key, p) ← parseString s p
        let p ← skipWs s p
        let p ← skipIf (· == byte ':') s p
        let (val, p) ← value p
        let p ← skipWs s p
        if ← here s p (· == byte ',') then objectLoop n (obj.set key val) (p + 1)
        else return (obj.set key val, p)
      else return (obj, p)
    else return (obj, p)

/-- `parse_object`. -/
def parseObject (p : Nat) : Except Fault (Value × Nat) := do
  let p ← skipWs s (p + 1)
  if ← here s p (· == byte '}') then return (.object [], p + 1)
  else
    let (obj, p) ← objectLoop value s (s.length - p) (.object []) p
    let p ← skipWs s p
    let p ← skipIf (· == byte '}') s p
    return (obj, p)

/-- The loop of `parse_array`. -/
def arrayLoop : Nat → Value → Nat → Except Fault (Value × Nat)
  | 0, arr, p => return (arr, p)
  | n + 1, arr, p => do
    if p < s.length then
      let (val, p) ← value p
      let p ← skipWs s p
      if ← here s p (· == byte ',') then arrayLoop n (arr.push val) (p + 1)
      else return (arr.push val, p)
    else return (arr, p)

/-- `parse_array`. -/
def parseArray (p : Nat) : Except Fault (Value × Nat) := do
  let p ← skipWs s (p + 1)
  if ← here s p (· == byte ']') then return (.array [], p + 1)
  else
    let (arr, p) ← arrayLoop value s (s.length - p) (.array []) p
    let p ← skipWs s p
    let p ← skipIf (· == byte ']') s p
    return (arr, p)

end

/-- `parse_value`, for a nesting below the first argument. -/
def parseValue (stod : Bytes → Except Exn Double) (s : Bytes) :
    Nat → Nat → Except Fault (Value × Nat)
  | 0, _ => .error .fuel
  | n + 1, p => do
    let p ← skipWs s p
    if s.length ≤ p then return (.null, p)
    else
      let c ← charAt s p
      if c = byte '"' then
        let (r, p) ← parseString s p
        return (.string r, p)
      else if c = byte '{' then parseObject (parseValue stod s n) s p
      else if c = byte '[' then parseArray (parseValue stod s n) s p
      else if c = byte 't' ∨ c = byte 'f' then parseBool s p
      else if c = byte 'n' then parseNull s p
      else parseNumber stod s p

/-- `json::Value::parse`. -/
def parse (stod : Bytes → Except Exn Double) (s : Bytes) : Except Fault Value := do
  return (← parseValue stod s (s.length + 1) 0).1

end QjsDebug.Json
