/-
# Reading without converting

What the parser does to a text has two halves.  Finding the pieces -- white space, brackets,
keywords, the bytes of a string, the extent of a number token -- never fails: at the first
byte that does not fit, the routine in question stops and hands on what it has.  Converting
the pieces -- a number token with `std::stod`, the digits of a `\u` escape with
`std::stoul` -- is where the exceptions are.

`scan` is the first half, total, over the text that is left instead of a position in it; its
result is a tree of unconverted pieces (`Raw`).  `Raw.convert` is the second half.  The
parser is the one followed by the other (`parse_eq`): so it always ends, never reads out of
bounds, and throws exactly what a conversion throws.
-/
import QjsDebug.Json.Parse

namespace QjsDebug.Json

/-! ## 1. Pieces -/

/-- A piece of a string body: a decoded byte, or four bytes handed to `std::stoul`. -/
inductive Piece
  | byte (c : UInt8)
  | escape (digits : Bytes)
  deriving DecidableEq, Repr

/-- A value before its conversions. -/
inductive Raw
  | null
  | bool (b : Bool)
  | number (token : Bytes)
  | string (ps : List Piece)
  | array (xs : List Raw)
  | object (ms : List (List Piece × Raw))

/-- The next byte, when it passes the test, taken off. -/
def accept (test : UInt8 → Bool) : Bytes → Option Bytes
  | [] => none
  | c :: t => if test c then some t else none

/-- The text without its next byte, when that passes the test. -/
def dropIf (test : UInt8 → Bool) (t : Bytes) : Bytes := (accept test t).getD t

def scanWs (t : Bytes) : Bytes := t.dropWhile isWs

/-- The body of a string, up to and over its closing quote. -/
def scanString : Bytes → List Piece × Bytes
  | [] => ([], [])
  | c :: t =>
    if c = byte '"' then ([], t)
    else if c = byte '\\' then
      match t with
      | [] => ([], [])
      | e :: t' =>
        if e = byte 'u' then
          match t' with
          | h₁ :: h₂ :: h₃ :: h₄ :: t'' =>
            (.escape [h₁, h₂, h₃, h₄] :: (scanString t'').1, (scanString t'').2)
          | [] => ([], [])
          | [h₁] => scanString [h₁]
          | [h₁, h₂] => scanString [h₁, h₂]
          | [h₁, h₂, h₃] => scanString [h₁, h₂, h₃]
        else (.byte (unescape e) :: (scanString t').1, (scanString t').2)
    else (.byte c :: (scanString t).1, (scanString t).2)

def afterFraction (t : Bytes) : Bytes :=
  match accept (· == byte '.') t with
  | some t => t.dropWhile isDigit
  | none => t

def afterExponent (t : Bytes) : Bytes :=
  match accept (fun c => c == byte 'e' || c == byte 'E') t with
  | some t => (dropIf (fun c => c == byte '+' || c == byte '-') t).dropWhile isDigit
  | none => t

/-- What follows the number token at the front. -/
def afterNumber (t : Bytes) : Bytes :=
  afterExponent (afterFraction ((dropIf (· == byte '-') t).dropWhile isDigit))

/-- The number token at the front. -/
def numberToken (t : Bytes) : Bytes := t.take (t.length - (afterNumber t).length)

def scanBool (t : Bytes) : Raw × Bytes :=
  if t.take 4 = ascii "true" then (.bool true, t.drop 4)
  else if t.take 5 = ascii "false" then (.bool false, t.drop 5)
  else (.null, t)

def scanNull (t : Bytes) : Bytes := if t.take 4 = ascii "null" then t.drop 4 else t

section

variable (value : Bytes → Raw × Bytes)

def scanMembers : Nat → Bytes → List (List Piece × Raw) × Bytes
  | 0, t => ([], t)
  | n + 1, t =>
    match accept (· == byte '"') (scanWs t) with
    | none => ([], scanWs t)
    | some t₁ =>
      let key := scanString t₁
      let val := value (dropIf (· == byte ':') (scanWs key.2))
      match accept (· == byte ',') (scanWs val.2) with
      | none => ([(key.1, val.1)], scanWs val.2)
      | some t₂ => ((key.1, val.1) :: (scanMembers n t₂).1, (scanMembers n t₂).2)

/-- An object, from behind its opening brace. -/
def scanObject (t : Bytes) : Raw × Bytes :=
  match accept (· == byte '}') (scanWs t) with
  | some t => (.object [], t)
  | none =>
    let ms := scanMembers value (scanWs t).length (scanWs t)
    (.object ms.1, dropIf (· == byte '}') (scanWs ms.2))

def scanElements : Nat → Bytes → List Raw × Bytes
  | 0, t => ([], t)
  | n + 1, t =>
    if t = [] then ([], [])
    else
      let val := value t
      match accept (· == byte ',') (scanWs val.2) with
      | none => ([val.1], scanWs val.2)
      | some t₂ => (val.1 :: (scanElements n t₂).1, (scanElements n t₂).2)

/-- An array, from behind its opening bracket. -/
def scanArray (t : Bytes) : Raw × Bytes :=
  match accept (· == byte ']') (scanWs t) with
  | some t => (.array [], t)
  | none =>
    let xs := scanElements value (scanWs t).length (scanWs t)
    (.array xs.1, dropIf (· == byte ']') (scanWs xs.2))

end

/-- A value nested less deep than the first argument. -/
def scanValue : Nat → Bytes → Raw × Bytes
  | 0, t => (.null, t)
  | n + 1, t =>
    match scanWs t with
    | [] => (.null, [])
    | c :: t =>
      if c = byte '"' then (.string (scanString t).1, (scanString t).2)
      else if c = byte '{' then scanObject (scanValue n) t
      else if c = byte '[' then scanArray (scanValue n) t
      else if c = byte 't' ∨ c = byte 'f' then scanBool (c :: t)
      else if c = byte 'n' then (.null, scanNull (c :: t))
      else (.number (numberToken (c :: t)), afterNumber (c :: t))

/-- The pieces of a text. -/
def scan (t : Bytes) : Raw := (scanValue (t.length + 1) t).1

/-! ## 2. Conversion -/

def Piece.convert : Piece → Except Exn Bytes
  | .byte c => .ok [c]
  | .escape digits => decodeEscape digits

def convertString : List Piece → Except Exn Bytes
  | [] => .ok []
  | p :: ps => do
    let bytes ← p.convert
    let rest ← convertString ps
    return bytes ++ rest

section

variable (stod : Bytes → Except Exn Double)

mutual
/-- The conversions of a value, in the order of the text. -/
def Raw.convert : Raw → Except Exn Value
  | .null => .ok .null
  | .bool b => .ok (.bool b)
  | .number token => do return .number (← stod token)
  | .string ps => do return .string (← convertString ps)
  | .array xs => convertElements xs (.array [])
  | .object ms => convertMembers ms (.object [])
/-- Push the converted elements. -/
def convertElements : List Raw → Value → Except Exn Value
  | [], arr => .ok arr
  | x :: xs, arr => do
    let val ← Raw.convert x
    convertElements xs (arr.push val)
/-- Set the converted members. -/
def convertMembers : List (List Piece × Raw) → Value → Except Exn Value
  | [], obj => .ok obj
  | (k, x) :: ms, obj => do
    let key ← convertString k
    let val ← Raw.convert x
    convertMembers ms (obj.set key val)
end

end

end QjsDebug.Json
