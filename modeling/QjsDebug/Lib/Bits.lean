/-
# Bit strings, the most significant bit first

Standards for hashes and text encodings speak of strings of bits, which are cut into words or digits
of any width; programs hold bytes.  `ofNat w n` writes `n` on `w` bits and `toNat` reads a string
back, and `ofBytes` is the string that a sequence of bytes stands for.

* A number written on `w + v` bits is its front and its back (`ofNat_add`), so a cut at any place
  is a shift.
* A cut between bytes is a cut of the bytes (`drop_ofBytes`, `take_ofBytes`), and what bytes spell
  as bits is what they spell as bytes (`toNat_ofBytes`).
* `groups w` cuts a string into pieces of `w` bits, the last one filled with zeros.
-/
import QjsDebug.Lib.ByteStream

namespace Bits

open ByteStream

/-! ## 1. Numbers -/

/-- `n` on `w` bits; what does not fit is dropped. -/
def ofNat : Nat → Nat → List Bool
  | 0, _ => []
  | w + 1, n => n.testBit w :: ofNat w n

/-- The number that the bits spell. -/
def toNat (bs : List Bool) : Nat := bs.foldl (fun n b => 2 * n + b.toNat) 0

@[simp] theorem length_ofNat (w n : Nat) : (ofNat w n).length = w := by
  induction w with
  | zero => rfl
  | succ w ih => rw [ofNat, List.length_cons, ih]

/-- Only the low bits count. -/
theorem ofNat_congr {w m n : Nat} (h : ∀ i < w, m.testBit i = n.testBit i) :
    ofNat w m = ofNat w n := by
  induction w with
  | zero => rfl
  | succ w ih =>
    rw [ofNat, ofNat, h w (Nat.lt_succ_self w), ih fun i hi => h i (Nat.lt_succ_of_lt hi)]

theorem ofNat_mod {w v : Nat} (n : Nat) (h : w ≤ v) : ofNat w (n % 2 ^ v) = ofNat w n := by
  refine ofNat_congr fun i hi => ?_
  rw [Nat.testBit_mod_two_pow, decide_eq_true (Nat.lt_of_lt_of_le hi h), Bool.true_and]

/-- **The front and the back** of a number. -/
theorem ofNat_add (w v n : Nat) : ofNat (w + v) n = ofNat w (n >>> v) ++ ofNat v n := by
  induction w with
  | zero => rw [Nat.zero_add, ofNat, List.nil_append]
  | succ w ih =>
    rw [Nat.succ_add, ofNat, ofNat, ih, Nat.testBit_shiftRight, Nat.add_comm v w]
    rfl

theorem ofNat_zero (w : Nat) : ofNat w 0 = List.replicate w false := by
  induction w with
  | zero => rfl
  | succ w ih => rw [ofNat, Nat.zero_testBit, ih, List.replicate_succ]

/-- Zeros behind a number shift it. -/
theorem ofNat_append_zeros (w v n : Nat) :
    ofNat w n ++ List.replicate v false = ofNat (w + v) (n <<< v) := by
  have hback : ofNat v (n <<< v) = List.replicate v false := by
    rw [← ofNat_zero]
    refine ofNat_congr fun i hi => ?_
    rw [Nat.testBit_shiftLeft, decide_eq_false (Nat.not_le.mpr hi), Bool.false_and,
      Nat.zero_testBit]
  rw [ofNat_add, Nat.shiftLeft_shiftRight, hback]

/-- What has been read before only shifts up. -/
theorem foldl_ofNat (m w n : Nat) :
    (ofNat w n).foldl (fun n b => 2 * n + b.toNat) m = m * 2 ^ w + n % 2 ^ w := by
  induction w generalizing m with
  | zero => simp [ofNat, Nat.mod_one]
  | succ w ih =>
    have hbit : (n.testBit w).toNat = n / 2 ^ w % 2 := by
      rw [Nat.testBit_eq_decide_div_mod_eq]
      rcases Nat.mod_two_eq_zero_or_one (n / 2 ^ w) with h | h <;> simp [h]
    rw [ofNat, List.foldl_cons, ih, hbit, pow_succ, Nat.mod_mul]
    ring

/-- **Reading back what was written.** -/
theorem toNat_ofNat (w n : Nat) : toNat (ofNat w n) = n % 2 ^ w := by
  rw [toNat, foldl_ofNat, Nat.zero_mul, Nat.zero_add]

theorem foldl_bits (bs : List Bool) (m : Nat) :
    bs.foldl (fun n b => 2 * n + b.toNat) m = 2 ^ bs.length * m + toNat bs := by
  induction bs generalizing m with
  | nil => simp [toNat]
  | cons b bs ih =>
    rw [toNat, List.foldl_cons, List.foldl_cons, ih, ih, List.length_cons, pow_succ]
    ring

theorem toNat_cons (b : Bool) (bs : List Bool) :
    toNat (b :: bs) = 2 ^ bs.length * b.toNat + toNat bs := by
  rw [toNat, List.foldl_cons, foldl_bits, Nat.mul_zero, Nat.zero_add]

theorem toNat_lt (bs : List Bool) : toNat bs < 2 ^ bs.length := by
  induction bs with
  | nil => exact Nat.one_pos
  | cons b bs ih =>
    have hb : 2 ^ bs.length * b.toNat ≤ 2 ^ bs.length * 1 :=
      Nat.mul_le_mul_left _ (Bool.toNat_le b)
    rw [toNat_cons, List.length_cons, pow_succ]
    omega

/-- **Writing back what was read.** -/
theorem ofNat_toNat (bs : List Bool) : ofNat bs.length (toNat bs) = bs := by
  induction bs with
  | nil => rfl
  | cons b bs ih =>
    have hfront : (toNat (b :: bs)).testBit bs.length = b := by
      rw [toNat_cons, Nat.testBit_two_pow_mul_add _ (toNat_lt bs), if_neg (Nat.lt_irrefl _),
        Nat.sub_self]
      cases b <;> rfl
    have hback : ofNat bs.length (toNat (b :: bs)) = ofNat bs.length (toNat bs) := by
      refine ofNat_congr fun i hi => ?_
      rw [toNat_cons, Nat.testBit_two_pow_mul_add _ (toNat_lt bs), if_pos hi]
    rw [List.length_cons, ofNat, hfront, hback, ih]

/-! ## 2. Bytes -/

/-- The string that bytes stand for. -/
def ofBytes (data : List UInt8) : List Bool := data.flatMap fun b => ofNat 8 b.toNat

theorem ofBytes_append (data more : List UInt8) :
    ofBytes (data ++ more) = ofBytes data ++ ofBytes more := List.flatMap_append

@[simp] theorem length_ofBytes (data : List UInt8) : (ofBytes data).length = 8 * data.length := by
  induction data with
  | nil => rfl
  | cons b data ih =>
    rw [ofBytes, List.flatMap_cons, List.length_append, length_ofNat, ← ofBytes, ih,
      List.length_cons]
    ring

theorem ofBytes_replicate_zero (n : Nat) :
    ofBytes (List.replicate n 0) = List.replicate (8 * n) false := by
  induction n with
  | zero => rfl
  | succ n ih =>
    have hbyte : ofNat 8 (0 : UInt8).toNat = List.replicate 8 false := ofNat_zero 8
    rw [List.replicate_succ, ofBytes, List.flatMap_cons, hbyte, ← ofBytes, ih,
      List.replicate_append_replicate, Nat.mul_succ, Nat.add_comm]

/-- **A cut between bytes** is a cut of the bytes. -/
theorem drop_ofBytes (data : List UInt8) (n : Nat) :
    (ofBytes data).drop (8 * n) = ofBytes (data.drop n) := by
  by_cases h : n ≤ data.length
  · have hlen : (ofBytes (data.take n)).length = 8 * n := by
      rw [length_ofBytes, List.length_take_of_le h]
    conv_lhs => rw [← List.take_append_drop n data, ofBytes_append]
    exact List.drop_left' hlen
  · rw [List.drop_eq_nil_of_le (by rw [length_ofBytes]; omega),
      List.drop_eq_nil_of_le (Nat.le_of_not_le h)]
    rfl

theorem take_ofBytes (data : List UInt8) (n : Nat) :
    (ofBytes data).take (8 * n) = ofBytes (data.take n) := by
  by_cases h : n ≤ data.length
  · have hlen : (ofBytes (data.take n)).length = 8 * n := by
      rw [length_ofBytes, List.length_take_of_le h]
    conv_lhs => rw [← List.take_append_drop n data, ofBytes_append]
    exact List.take_left' hlen
  · rw [List.take_of_length_le (by rw [length_ofBytes]; omega),
      List.take_of_length_le (Nat.le_of_not_le h)]

/-- **Bytes spell the same number** bit by bit. -/
theorem toNat_ofBytes (data : List UInt8) : toNat (ofBytes data) = ofBigEndian data := by
  have hfold : ∀ (data : List UInt8) (m : Nat),
      (ofBytes data).foldl (fun n b => 2 * n + b.toNat) m =
        data.foldl (fun n b => n * 256 + b.toNat) m := by
    intro data
    induction data with
    | nil => exact fun m => rfl
    | cons b data ih =>
      intro m
      have hb : b.toNat % 2 ^ 8 = b.toNat := Nat.mod_eq_of_lt b.toNat_lt
      rw [ofBytes, List.flatMap_cons, List.foldl_append, foldl_ofNat, hb, ← ofBytes, ih]
      rfl
  exact hfold data 0

theorem ofBytes_eq (data : List UInt8) :
    ofBytes data = ofNat (8 * data.length) (ofBigEndian data) := by
  rw [← toNat_ofBytes, ← length_ofBytes, ofNat_toNat]

/-- A number on bytes, bit by bit. -/
theorem ofBytes_bigEndian (k n : Nat) : ofBytes (bigEndian k n) = ofNat (8 * k) n := by
  induction k with
  | zero => rfl
  | succ k ih =>
    have hbyte : ofNat 8 (UInt8.ofNat (n >>> (8 * k))).toNat = ofNat 8 (n >>> (8 * k)) := by
      rw [UInt8.toNat_ofNat']
      exact ofNat_mod _ (Nat.le_refl 8)
    rw [bigEndian, ofBytes, List.flatMap_cons, hbyte, ← ofBytes, ih, ← ofNat_add, Nat.mul_succ,
      Nat.add_comm]

/-! ## 3. Groups -/

/-- The string cut into pieces of `w` bits, the last one filled with zeros. -/
def groups (w : Nat) : List Bool → List (List Bool)
  | [] => []
  | b :: bs =>
    ((b :: bs).take w ++ List.replicate (w - (b :: bs).length) false) :: groups w (bs.drop (w - 1))
termination_by bs => bs.length
decreasing_by
  rw [List.length_drop, List.length_cons]
  omega

/-- A whole group in front. -/
theorem groups_append {w : Nat} (hw : 0 < w) {g : List Bool} (hg : g.length = w)
    (bs : List Bool) : groups w (g ++ bs) = g :: groups w bs := by
  cases g with
  | nil => exact absurd hg (Nat.ne_of_lt hw)
  | cons b g =>
    have hfill : w - (b :: (g ++ bs)).length = 0 := by
      rw [← List.cons_append, List.length_append, hg]
      omega
    have hrest : g.length = w - 1 := by
      rw [List.length_cons] at hg
      omega
    rw [List.cons_append, groups, hfill, List.replicate_zero, List.append_nil, ← List.cons_append,
      List.take_left' hg, List.drop_left' hrest]

/-- What is left at the end. -/
theorem groups_short {w : Nat} {g : List Bool} (hne : g ≠ []) (hg : g.length ≤ w) :
    groups w g = [g ++ List.replicate (w - g.length) false] := by
  cases g with
  | nil => exact absurd rfl hne
  | cons b g =>
    have hrest : g.drop (w - 1) = [] := by
      refine List.drop_eq_nil_of_le ?_
      rw [List.length_cons] at hg
      omega
    rw [groups, List.take_of_length_le hg, hrest, groups]

end Bits
