/-
# Base 64

The encoding of RFC 4648, on bit strings: the string is cut into digits of six bits, zeros filling
the last one, each digit is written as a character, and `=` fills the last four characters.
-/
import QjsDebug.Lib.Bits

namespace Base64

/-- The character of a digit, in ASCII: upper case, lower case, decimal digits, `+` and `/`. -/
def character (digit : Nat) : UInt8 :=
  if digit < 26 then UInt8.ofNat (0x41 + digit)
  else if digit < 52 then UInt8.ofNat (0x61 + (digit - 26))
  else if digit < 62 then UInt8.ofNat (0x30 + (digit - 52))
  else if digit = 62 then 0x2B
  else 0x2F

/-- `=`. -/
def fill : UInt8 := 0x3D

/-- The characters of the digits. -/
def characters (bits : List Bool) : List UInt8 :=
  (Bits.groups 6 bits).map fun g => character (Bits.toNat g)

def encode (bits : List Bool) : List UInt8 :=
  characters bits ++ List.replicate ((4 - (characters bits).length % 4) % 4) fill

/-! ## Encoding from the front -/

/-- A digit in front. -/
theorem characters_ofNat_append (n : Nat) (bits : List Bool) :
    characters (Bits.ofNat 6 n ++ bits) = character (n % 64) :: characters bits := by
  rw [characters, Bits.groups_append (by decide) (Bits.length_ofNat 6 n), List.map_cons,
    Bits.toNat_ofNat]
  rfl

/-- **Twenty-four bits in front** are four characters. -/
theorem encode_ofNat_append (n : Nat) (bits : List Bool) :
    encode (Bits.ofNat 24 n ++ bits) = [character ((n >>> 18) % 64), character ((n >>> 12) % 64),
      character ((n >>> 6) % 64), character (n % 64)] ++ encode bits := by
  have hdigits : Bits.ofNat 24 n = Bits.ofNat 6 (n >>> 18) ++ (Bits.ofNat 6 (n >>> 12) ++
      (Bits.ofNat 6 (n >>> 6) ++ Bits.ofNat 6 n)) := by
    rw [Bits.ofNat_add 6 18, Bits.ofNat_add 6 12, Bits.ofNat_add 6 6]
  have hchars : characters (Bits.ofNat 24 n ++ bits) = character ((n >>> 18) % 64) ::
      character ((n >>> 12) % 64) :: character ((n >>> 6) % 64) :: character (n % 64) ::
        characters bits := by
    rw [hdigits]
    simp only [List.append_assoc, characters_ofNat_append]
  have hmod : ((characters bits).length + 1 + 1 + 1 + 1) % 4 = (characters bits).length % 4 :=
    Nat.add_mod_right _ 4
  simp only [encode, hchars, List.length_cons, hmod, List.cons_append, List.nil_append]

/-- The digits of a string that ends inside one. -/
theorem characters_short {w n : Nat} (hpos : 0 < w) (hw : w ≤ 6) :
    characters (Bits.ofNat w n) = [character ((n <<< (6 - w)) % 64)] := by
  have hne : Bits.ofNat w n ≠ [] := by
    intro h
    have hlen := congrArg List.length h
    rw [Bits.length_ofNat] at hlen
    exact absurd hlen (Nat.ne_of_gt hpos)
  have hsum : w + (6 - w) = 6 := by omega
  rw [characters, Bits.groups_short hne (by rw [Bits.length_ofNat]; exact hw), Bits.length_ofNat,
    Bits.ofNat_append_zeros, hsum, List.map_singleton, Bits.toNat_ofNat]
  rfl

/-- **Eight bits at the end.** -/
theorem encode_eight (n : Nat) : encode (Bits.ofNat 8 n) =
    [character ((n >>> 2) % 64), character ((n <<< 4) % 64), fill, fill] := by
  have hchars : characters (Bits.ofNat 8 n) =
      [character ((n >>> 2) % 64), character ((n <<< 4) % 64)] := by
    rw [Bits.ofNat_add 6 2, characters_ofNat_append, characters_short (by decide) (by decide)]
  rw [encode, hchars]
  rfl

/-- **Sixteen bits at the end.** -/
theorem encode_sixteen (n : Nat) : encode (Bits.ofNat 16 n) = [character ((n >>> 10) % 64),
    character ((n >>> 4) % 64), character ((n <<< 2) % 64), fill] := by
  have hchars : characters (Bits.ofNat 16 n) = [character ((n >>> 10) % 64),
      character ((n >>> 4) % 64), character ((n <<< 2) % 64)] := by
    rw [Bits.ofNat_add 6 10, Bits.ofNat_add 6 4, characters_ofNat_append, characters_ofNat_append,
      characters_short (by decide) (by decide)]
  rw [encode, hchars]
  rfl

end Base64
