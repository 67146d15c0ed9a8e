/-
# The secure hash SHA-1

The definition of the standard (FIPS 180-4), on bit strings: padding to blocks of 512 bits, the
message schedule as a recurrence, eighty rounds on five words of 32 bits, and the digest.

Nothing here is meant to be run.  The schedule calls itself four times, and a message is a list of
bits.  The length of a message goes into 64 bits; the standard defines the digest for messages
below that length, where nothing of it is dropped.
-/
import QjsDebug.Lib.Bits

namespace Sha1

/-! ## 1. Padding -/

/-- The zeros behind the bit that ends a message of `l` bits. -/
def zeroBits (l : Nat) : Nat := (959 - l % 512) % 512

/-- They are the fewest that leave 64 bits of a block. -/
theorem zeroBits_least (l : Nat) :
    (l + 1 + zeroBits l) % 512 = 448 ∧ ∀ k, (l + 1 + k) % 512 = 448 → zeroBits l ≤ k := by
  unfold zeroBits
  constructor
  · omega
  · intro k hk
    omega

def pad (message : List Bool) : List Bool :=
  message ++
    true :: (List.replicate (zeroBits message.length) false ++ Bits.ofNat 64 message.length)

/-! ## 2. One block -/

abbrev Word := BitVec 32

/-- The hash value, and the working variables. -/
@[ext] structure Hash where
  a : Word
  b : Word
  c : Word
  d : Word
  e : Word

/-- `Ch`, `Parity`, `Maj` and `Parity`. -/
def f (t : Nat) (x y z : Word) : Word :=
  if t < 20 then (x &&& y) ^^^ (~~~x &&& z)
  else if t < 40 then x ^^^ y ^^^ z
  else if t < 60 then (x &&& y) ^^^ (x &&& z) ^^^ (y &&& z)
  else x ^^^ y ^^^ z

def k (t : Nat) : Word :=
  if t < 20 then 0x5A827999 else if t < 40 then 0x6ED9EBA1
  else if t < 60 then 0x8F1BBCDC else 0xCA62C1D6

/-- Word `t` of block `i`. -/
def word (padded : List Bool) (i t : Nat) : Word :=
  BitVec.ofNat 32 (Bits.toNat ((padded.drop (512 * i + 32 * t)).take 32))

/-- The message schedule of a block. -/
def schedule (block : Nat → Word) (t : Nat) : Word :=
  if _h : t < 16 then block t
  else
    (schedule block (t - 3) ^^^ schedule block (t - 8) ^^^ schedule block (t - 14) ^^^
      schedule block (t - 16)).rotateLeft 1
termination_by t

theorem schedule_of_lt (block : Nat → Word) {t : Nat} (h : t < 16) :
    schedule block t = block t := by
  rw [schedule, dif_pos h]

theorem schedule_of_le (block : Nat → Word) {t : Nat} (h : 16 ≤ t) :
    schedule block t = (schedule block (t - 3) ^^^ schedule block (t - 8) ^^^
      schedule block (t - 14) ^^^ schedule block (t - 16)).rotateLeft 1 := by
  rw [schedule, dif_neg (Nat.not_lt.mpr h)]

/-- Round `t`. -/
def step (w : Nat → Word) (h : Hash) (t : Nat) : Hash where
  a := h.a.rotateLeft 5 + f t h.b h.c h.d + h.e + k t + w t
  b := h.a
  c := h.b.rotateLeft 30
  d := h.c
  e := h.d

/-- The working variables after the first rounds. -/
def rounds (w : Nat → Word) (h : Hash) : Nat → Hash
  | 0 => h
  | t + 1 => step w (rounds w h t) t

def compress (h : Hash) (block : Nat → Word) : Hash :=
  let v := rounds (schedule block) h 80
  { a := v.a + h.a, b := v.b + h.b, c := v.c + h.c, d := v.d + h.d, e := v.e + h.e }

/-! ## 3. The digest -/

def initial : Hash where
  a := 0x67452301
  b := 0xEFCDAB89
  c := 0x98BADCFE
  d := 0x10325476
  e := 0xC3D2E1F0

/-- The hash value after the first blocks of a padded message. -/
def hashAfter (padded : List Bool) : Nat → Hash
  | 0 => initial
  | i + 1 => compress (hashAfter padded i) (word padded i)

def Hash.bits (h : Hash) : List Bool :=
  Bits.ofNat 32 h.a.toNat ++ Bits.ofNat 32 h.b.toNat ++ Bits.ofNat 32 h.c.toNat ++
    Bits.ofNat 32 h.d.toNat ++ Bits.ofNat 32 h.e.toNat

/-- The digest of a message. -/
def digest (message : List Bool) : List Bool :=
  (hashAfter (pad message) ((pad message).length / 512)).bits

end Sha1
