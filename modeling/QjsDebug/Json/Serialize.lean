/-
# `json::Value::serialize`

The printer of `json.h`.  Strings are printed byte by byte: the quote, the backslash and
five control characters have two-character escapes, the other control characters a `\u`
escape, and every other byte, above 0x7F included, stands for itself.  An integer of
magnitude up to 10^15 is printed in decimal and any other number by `snprintf("%.17g")`,
whose digits are left to the C library (`fmt17g`).
-/
import QjsDebug.Conversions
import QjsDebug.Json.Value

namespace QjsDebug.Json

/-- A digit of `%x`. -/
def hexDigit (n : Nat) : UInt8 := if n < 10 then UInt8.ofNat (48 + n) else UInt8.ofNat (87 + n)

/-- `snprintf("\\u%04x", c)` for a byte. -/
def unicodeEscape (c : UInt8) : Bytes :=
  ascii "\\u00" ++ [hexDigit (c.toNat / 16), hexDigit (c.toNat % 16)]

/-- One turn of the loop that prints a string. -/
def escapeByte (c : UInt8) : Bytes :=
  if c = byte '"' then ascii "\\\""
  else if c = byte '\\' then ascii "\\\\"
  else if c = 0x08 then ascii "\\b"
  else if c = 0x0C then ascii "\\f"
  else if c = 0x0A then ascii "\\n"
  else if c = 0x0D then ascii "\\r"
  else if c = 0x09 then ascii "\\t"
  else if c < 0x20 then unicodeEscape c
  else [c]

def serializeString (s : Bytes) : Bytes := byte '"' :: (s.flatMap escapeByte ++ [byte '"'])

section

variable (fmt17g : Double → Bytes)

def serializeNumber : Double → Bytes
  | .finite q => if q.den = 1 ∧ q.num.natAbs ≤ 10 ^ 15 then decimal q.num else fmt17g (.finite q)
  | d => fmt17g d

mutual
/-- `serialize_to`. -/
def serialize : Value → Bytes
  | .null => ascii "null"
  | .bool b => if b then ascii "true" else ascii "false"
  | .number d => serializeNumber fmt17g d
  | .string s => serializeString s
  | .array xs => byte '[' :: (serializeElements true xs ++ [byte ']'])
  | .object kvs => byte '{' :: (serializeMembers true kvs ++ [byte '}'])
/-- The loop over an array, with a comma before every element but the first. -/
def serializeElements (first : Bool) : List Value → Bytes
  | [] => []
  | v :: vs => (if first then [] else [byte ',']) ++ (serialize v ++ serializeElements false vs)
/-- The loop over an object. -/
def serializeMembers (first : Bool) : List (Bytes × Value) → Bytes
  | [] => []
  | (k, v) :: kvs =>
    (if first then [] else [byte ',']) ++
      (serializeString k ++ byte ':' :: (serialize v ++ serializeMembers false kvs))
end

end

end QjsDebug.Json
