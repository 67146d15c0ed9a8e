/-
# The answer to a key is the standard one

`sha1_hash` and `base64_encode` are written out in `websocket_server.cpp`, and the server tries
them on one key when it starts.  Here they are compared with the definitions of their standards,
`Lib.Sha1` and `Lib.Base64`, which work on bits.

* §1  the boolean functions and rotations, on words;
* §2, §3  the rounds, and the schedule, a fold over a growing list against a recurrence;
* §4  the blocks;
* §5  the padding, whose boundary is a matter of one remainder, and the digest (`sha1Hash_eq`);
* §6  base 64, which cuts three bytes into four digits (`base64Encode_eq`);
* §7  the answer.
-/
import Mathlib.Data.List.GetD
import QjsDebug.Lib.Base64
import QjsDebug.Lib.Sha1
import QjsDebug.Ws.Handshake

namespace QjsDebug.Ws

open ByteStream

/-! ## 1. Words -/

/-- The rotations of the code. -/
theorem toBitVec_rol (v : UInt32) :
    (rol v 1).toBitVec = v.toBitVec.rotateLeft 1 ∧
      (rol v 5).toBitVec = v.toBitVec.rotateLeft 5 ∧
      (rol v 30).toBitVec = v.toBitVec.rotateLeft 30 := ⟨rfl, rfl, rfl⟩

/-- A choice of bits: the two sides of the disjunction have none in common. -/
theorem choose_eq_ch (x y z : Sha1.Word) :
    (x &&& y) ||| (~~~x &&& z) = (x &&& y) ^^^ (~~~x &&& z) := by
  refine BitVec.eq_of_getLsbD_eq fun i hi => ?_
  simp only [BitVec.getLsbD_or, BitVec.getLsbD_xor, BitVec.getLsbD_and, BitVec.getLsbD_not]
  cases x.getLsbD i <;> cases y.getLsbD i <;> cases z.getLsbD i <;> simp

/-- The majority of bits. -/
theorem most_eq_maj (x y z : Sha1.Word) :
    (x &&& y) ||| (x &&& z) ||| (y &&& z) = (x &&& y) ^^^ (x &&& z) ^^^ (y &&& z) := by
  refine BitVec.eq_of_getLsbD_eq fun i hi => ?_
  simp only [BitVec.getLsbD_or, BitVec.getLsbD_xor, BitVec.getLsbD_and]
  cases x.getLsbD i <;> cases y.getLsbD i <;> cases z.getLsbD i <;> rfl

/-- One more byte behind the others, in the bits they leave free. -/
theorem or_byte {m : Nat} {b : UInt8} {i : Nat} : m * 2 ^ (i + 8) ||| b.toNat * 2 ^ i =
    (m * 256 + b.toNat) * 2 ^ i := by
  have hb : b.toNat * 2 ^ i < 2 ^ (i + 8) := by
    rw [pow_add, Nat.mul_comm]
    exact Nat.mul_lt_mul_of_pos_left b.toNat_lt (Nat.two_pow_pos i)
  rw [Nat.mul_comm m, ← Nat.two_pow_add_eq_or_of_lt hb, pow_add]
  ring

/-- Four bytes in a word. -/
theorem toNat_wordOf (a b c d : UInt8) :
    (a.toUInt32 <<< 24 ||| b.toUInt32 <<< 16 ||| c.toUInt32 <<< 8 ||| d.toUInt32).toNat =
      ofBigEndian [a, b, c, d] := by
  have hshift : ∀ (x : UInt8) {i : Nat}, i ≤ 24 → x.toNat <<< i % 2 ^ 32 = x.toNat * 2 ^ i := by
    intro x i hi
    rw [Nat.shiftLeft_eq]
    refine Nat.mod_eq_of_lt ?_
    calc x.toNat * 2 ^ i < 2 ^ 8 * 2 ^ i :=
          Nat.mul_lt_mul_of_pos_right x.toNat_lt (Nat.two_pow_pos i)
      _ = 2 ^ (8 + i) := (pow_add 2 8 i).symm
      _ ≤ 2 ^ 32 := Nat.pow_le_pow_right (by decide) (by omega)
  have h24 : (a.toUInt32 <<< 24).toNat = a.toNat * 2 ^ (16 + 8) := hshift a (Nat.le_refl _)
  have h16 : (b.toUInt32 <<< 16).toNat = b.toNat * 2 ^ (8 + 8) := hshift b (by decide)
  have h8 : (c.toUInt32 <<< 8).toNat = c.toNat * 2 ^ (0 + 8) := hshift c (by decide)
  have h0 : d.toUInt32.toNat = d.toNat * 2 ^ 0 := (Nat.mul_one _).symm
  rw [UInt32.toNat_or, UInt32.toNat_or, UInt32.toNat_or, h24, h16, h8, h0, or_byte, or_byte,
    or_byte, pow_zero, Nat.mul_one]
  simp [ofBigEndian]

/-- The bytes of a word. -/
theorem wordBytes_eq (h : UInt32) : wordBytes h = bigEndian 4 h.toNat := by
  have hbyte : ∀ i : Nat, i < 32 →
      (h >>> UInt32.ofNat i).toUInt8 = UInt8.ofNat (h.toNat >>> i) := by
    intro i hi
    refine UInt8.toNat_inj.mp ?_
    rw [UInt32.toNat_toUInt8, UInt32.toNat_shiftRight, UInt8.toNat_ofNat', UInt32.toNat_ofNat',
      Nat.mod_eq_of_lt (Nat.lt_trans hi (by decide)), Nat.mod_eq_of_lt hi]
  have hlast : h.toUInt8 = UInt8.ofNat (h.toNat >>> 0) := by
    refine UInt8.toNat_inj.mp ?_
    rw [UInt32.toNat_toUInt8, UInt8.toNat_ofNat', Nat.shiftRight_zero]
  have h24 : (h >>> 24).toUInt8 = UInt8.ofNat (h.toNat >>> 24) := hbyte 24 (by decide)
  have h16 : (h >>> 16).toUInt8 = UInt8.ofNat (h.toNat >>> 16) := hbyte 16 (by decide)
  have h8 : (h >>> 8).toUInt8 = UInt8.ofNat (h.toNat >>> 8) := hbyte 8 (by decide)
  rw [wordBytes, h24, h16, h8, hlast]
  rfl

/-! ## 2. Rounds -/

/-- The words of the code, as those of the standard. -/
def Chaining.toHash (s : Chaining) : Sha1.Hash where
  a := s.a.toBitVec
  b := s.b.toBitVec
  c := s.c.toBitVec
  d := s.d.toBitVec
  e := s.e.toBitVec

/-- **One round.** -/
theorem toHash_sha1Round {list : List UInt32} {w : Nat → Sha1.Word} (s : Chaining) {i : Nat}
    (hw : (list.getD i 0).toBitVec = w i) :
    (sha1Round list s i).toHash = Sha1.step w s.toHash i := by
  have hrol5 := (toBitVec_rol s.a).2.1
  have hrol30 := (toBitVec_rol s.b).2.2
  unfold sha1Round Sha1.step Sha1.f Sha1.k
  by_cases h20 : i < 20
  · simp only [h20, if_true, Chaining.toHash, UInt32.toBitVec_add, UInt32.toBitVec_or,
      UInt32.toBitVec_and, UInt32.toBitVec_not, hrol5, hrol30, hw, choose_eq_ch]
    rfl
  by_cases h40 : i < 40
  · simp only [h20, h40, if_true, if_false, Chaining.toHash, UInt32.toBitVec_add,
      UInt32.toBitVec_xor, hrol5, hrol30, hw]
    rfl
  by_cases h60 : i < 60
  · simp only [h20, h40, h60, if_true, if_false, Chaining.toHash, UInt32.toBitVec_add,
      UInt32.toBitVec_or, UInt32.toBitVec_and, hrol5, hrol30, hw, most_eq_maj]
    rfl
  · simp only [h20, h40, h60, if_false, Chaining.toHash, UInt32.toBitVec_add,
      UInt32.toBitVec_xor, hrol5, hrol30, hw]
    rfl

/-- The rounds of a block. -/
theorem toHash_rounds {list : List UInt32} {w : Nat → Sha1.Word} (s : Chaining) {n : Nat}
    (hw : ∀ i < n, (list.getD i 0).toBitVec = w i) :
    ((List.range n).foldl (sha1Round list) s).toHash = Sha1.rounds w s.toHash n := by
  induction n with
  | zero => rfl
  | succ n ih =>
    rw [List.range_succ, List.foldl_append, List.foldl_cons, List.foldl_nil,
      toHash_sha1Round _ (hw n (Nat.lt_succ_self n)), ih fun i hi => hw i (Nat.lt_succ_of_lt hi)]
    rfl

/-! ## 3. The schedule -/

/-- Four bytes from a place on, one by one. -/
theorem take_four {msg : Bytes} {n : Nat} (h : n + 4 ≤ msg.length) :
    (msg.drop n).take 4 =
      [msg.getD n 0, msg.getD (n + 1) 0, msg.getD (n + 2) 0, msg.getD (n + 3) 0] := by
  have hget : ∀ j, msg.getD (n + j) 0 = (msg.drop n).getD j 0 := by
    intro j
    rw [List.getD_eq_getElem?_getD, List.getD_eq_getElem?_getD, List.getElem?_drop]
  have hlen : 4 ≤ (msg.drop n).length := by
    rw [List.length_drop]
    omega
  have hzero : msg.getD n 0 = (msg.drop n).getD 0 0 := hget 0
  rw [hzero, hget 1, hget 2, hget 3]
  match msg.drop n, hlen with
  | _ :: _ :: _ :: _ :: _, _ => rfl

/-- **A word of the message** is a slice of its bits. -/
theorem toBitVec_messageWord {msg : Bytes} {i t : Nat} (h : i * 64 + t * 4 + 4 ≤ msg.length) :
    ((msg.getD (i * 64 + t * 4) 0).toUInt32 <<< 24 |||
      (msg.getD (i * 64 + (t * 4 + 1)) 0).toUInt32 <<< 16 |||
      (msg.getD (i * 64 + (t * 4 + 2)) 0).toUInt32 <<< 8 |||
      (msg.getD (i * 64 + (t * 4 + 3)) 0).toUInt32).toBitVec =
        Sha1.word (Bits.ofBytes msg) i t := by
  have hbits : 512 * i + 32 * t = 8 * (i * 64 + t * 4) := by omega
  have htake : ∀ l : Bytes, (Bits.ofBytes l).take 32 = Bits.ofBytes (l.take 4) :=
    fun l => Bits.take_ofBytes l 4
  rw [Sha1.word, hbits, Bits.drop_ofBytes, htake, Bits.toNat_ofBytes, take_four h, ← toNat_wordOf,
    ← UInt32.toNat_toBitVec, BitVec.ofNat_toNat, BitVec.setWidth_eq]
  rfl

/-- The sixteen words that a block begins with. -/
def firstWords (msg : Bytes) (off : Nat) : List UInt32 :=
  (List.range 16).map fun i =>
    (msg.getD (off + i * 4) 0).toUInt32 <<< 24 |||
      (msg.getD (off + (i * 4 + 1)) 0).toUInt32 <<< 16 |||
      (msg.getD (off + (i * 4 + 2)) 0).toUInt32 <<< 8 ||| (msg.getD (off + (i * 4 + 3)) 0).toUInt32

/-- The body of the loop that appends the others. -/
def nextWord (w : List UInt32) (i : Nat) : List UInt32 :=
  w ++ [rol (w.getD (i - 3) 0 ^^^ w.getD (i - 8) 0 ^^^ w.getD (i - 14) 0 ^^^ w.getD (i - 16) 0) 1]

theorem schedule_eq (msg : Bytes) (off : Nat) :
    schedule msg off = (List.range' 16 64).foldl nextWord (firstWords msg off) := rfl

/-- A list that holds the words of a schedule so far. -/
def Holds (block : Nat → Sha1.Word) (w : List UInt32) (n : Nat) : Prop :=
  w.length = n ∧ ∀ t < n, (w.getD t 0).toBitVec = Sha1.schedule block t

theorem holds_firstWords {msg : Bytes} {i : Nat} (h : i * 64 + 64 ≤ msg.length) :
    Holds (Sha1.word (Bits.ofBytes msg) i) (firstWords msg (i * 64)) 16 := by
  refine ⟨by rw [firstWords, List.length_map, List.length_range], fun t ht => ?_⟩
  rw [Sha1.schedule_of_lt _ ht, ← toBitVec_messageWord (by omega), firstWords,
    List.getD_eq_getElem?_getD, List.getElem?_map, List.getElem?_range ht]
  rfl

/-- The recurrence reads four words that are there. -/
theorem Holds.nextWord {block : Nat → Sha1.Word} {w : List UInt32} {n : Nat} (h : Holds block w n)
    (hn : 16 ≤ n) : Holds block (nextWord w n) (n + 1) := by
  obtain ⟨hlen, hw⟩ := h
  refine ⟨by rw [Ws.nextWord, List.length_append, hlen, List.length_singleton], fun t ht => ?_⟩
  by_cases hlt : t < n
  · rw [Ws.nextWord, List.getD_append _ _ _ _ (by omega)]
    exact hw t hlt
  · obtain rfl : t = n := by omega
    rw [Ws.nextWord, List.getD_append_right _ _ _ _ (by omega), hlen, Nat.sub_self,
      List.getD_cons_zero, (toBitVec_rol _).1, UInt32.toBitVec_xor, UInt32.toBitVec_xor,
      UInt32.toBitVec_xor, hw _ (by omega), hw _ (by omega), hw _ (by omega), hw _ (by omega),
      ← Sha1.schedule_of_le _ hn]

/-- **The schedule**: the list that the loop grows holds the words of the recurrence. -/
theorem holds_schedule {msg : Bytes} {i : Nat} (h : i * 64 + 64 ≤ msg.length) :
    Holds (Sha1.word (Bits.ofBytes msg) i) (schedule msg (i * 64)) 80 := by
  have hgrow : ∀ n, Holds (Sha1.word (Bits.ofBytes msg) i)
      ((List.range' 16 n).foldl Ws.nextWord (firstWords msg (i * 64))) (16 + n) := by
    intro n
    induction n with
    | zero => exact holds_firstWords h
    | succ n ih =>
      rw [List.range'_concat, List.foldl_append, Nat.one_mul]
      exact ih.nextWord (Nat.le_add_right 16 n)
  rw [schedule_eq]
  exact hgrow 64

/-! ## 4. Blocks -/

/-- **One block.** -/
theorem toHash_sha1Block {msg : Bytes} (h : Chaining) {i : Nat}
    (hlen : i * 64 + 64 ≤ msg.length) : (sha1Block msg h (i * 64)).toHash =
      Sha1.compress h.toHash (Sha1.word (Bits.ofBytes msg) i) := by
  have hrounds := toHash_rounds h (holds_schedule hlen).2
  unfold sha1Block Sha1.compress
  rw [← hrounds]
  simp only [Chaining.toHash, UInt32.toBitVec_add, BitVec.add_comm]

/-- The value the digest starts with. -/
def startValue : Chaining :=
  { a := 0x67452301, b := 0xEFCDAB89, c := 0x98BADCFE, d := 0x10325476, e := 0xC3D2E1F0 }

theorem toHash_blocks {msg : Bytes} {n : Nat} (hlen : n * 64 ≤ msg.length) :
    ((List.range n).foldl (fun h j => sha1Block msg h (j * 64)) startValue).toHash =
      Sha1.hashAfter (Bits.ofBytes msg) n := by
  induction n with
  | zero => rfl
  | succ n ih =>
    rw [List.range_succ, List.foldl_append, List.foldl_cons, List.foldl_nil,
      toHash_sha1Block _ (by omega), ih (by omega)]
    rfl

/-! ## 5. Padding and digest -/

/-- **The length on the last bytes**, written from behind. -/
theorem foldl_set_bigEndian (ml : Nat) {k : Nat} {front tail : Bytes} (hk : tail.length = k)
    {n : Nat} (hn : n = front.length + k) :
    (List.range k).foldl (fun msg i => msg.set (n - 1 - i) (UInt8.ofNat (ml >>> (i * 8))))
        (front ++ tail) = front ++ bigEndian k ml := by
  induction k generalizing front tail with
  | zero =>
    rw [List.length_eq_zero_iff.mp hk]
    rfl
  | succ k ih =>
    cases tail with
    | nil => exact absurd hk (by simp)
    | cons x tail =>
      -- all but the first byte of the tail are written before it
      have hfront : n = (front ++ [x]).length + k := by
        rw [hn, List.length_append, List.length_singleton]
        omega
      have hrest := ih (Nat.succ.inj hk) hfront
      have hlast : n - 1 - k = front.length := by omega
      rw [List.range_succ, List.foldl_append, List.append_cons, hrest, List.foldl_cons,
        List.foldl_nil, hlast, List.append_assoc, List.set_append_right _ _ (Nat.le_refl _),
        Nat.sub_self, List.singleton_append, List.set_cons_zero, bigEndian, Nat.mul_comm k 8]

/-- The zeros between the byte 0x80 and the length. -/
def zeroBytes (len : Nat) : Nat := ((len + 8) / 64 + 1) * 64 - len - 9

/-- The padded message, piece by piece. -/
theorem paddedMessage_eq (data : Bytes) : paddedMessage data =
    data ++ 0x80 :: (List.replicate (zeroBytes data.length) 0 ++
      bigEndian 8 (data.length * 8 % 2 ^ 64)) := by
  have hroom : ((data.length + 8) / 64 + 1) * 64 - data.length =
      zeroBytes data.length + 8 + 1 := by
    unfold zeroBytes
    omega
  have htext : (data ++ List.replicate (zeroBytes data.length + 8 + 1) 0).set data.length 0x80 =
      (data ++ 0x80 :: List.replicate (zeroBytes data.length) 0) ++ List.replicate 8 0 := by
    rw [List.set_append_right _ _ (Nat.le_refl _), Nat.sub_self, List.replicate_succ,
      List.set_cons_zero, ← List.replicate_append_replicate, List.append_assoc, List.cons_append]
  unfold paddedMessage
  dsimp only
  rw [hroom, htext, foldl_set_bigEndian _ List.length_replicate]
  · rw [List.append_assoc, List.cons_append]
  · rw [List.length_append, List.length_cons, List.length_replicate]
    unfold zeroBytes
    omega

/-- **Padding**: the bytes of the code are the bits of the standard, at every length. -/
theorem ofBytes_paddedMessage (data : Bytes) :
    Bits.ofBytes (paddedMessage data) = Sha1.pad (Bits.ofBytes data) := by
  have hmark : Bits.ofBytes [0x80] = true :: List.replicate 7 false := by decide
  have hzeros : Sha1.zeroBits (8 * data.length) = 7 + 8 * zeroBytes data.length := by
    obtain ⟨hfits, hleast⟩ := Sha1.zeroBits_least (8 * data.length)
    have hbytes : (8 * data.length + 1 + (7 + 8 * zeroBytes data.length)) % 512 = 448 ∧
        7 + 8 * zeroBytes data.length < 512 := by
      unfold zeroBytes
      omega
    have hle := hleast _ hbytes.1
    omega
  have hlength : Bits.ofNat 64 (data.length * 8 % 2 ^ 64) = Bits.ofNat 64 (8 * data.length) := by
    rw [Bits.ofNat_mod _ (Nat.le_refl 64), Nat.mul_comm]
  have hbits : Bits.ofBytes (bigEndian 8 (data.length * 8 % 2 ^ 64)) =
      Bits.ofNat 64 (8 * data.length) := by
    rw [Bits.ofBytes_bigEndian, hlength]
  rw [paddedMessage_eq, Sha1.pad, Bits.length_ofBytes, hzeros, Bits.ofBytes_append,
    ← List.singleton_append, Bits.ofBytes_append, Bits.ofBytes_append, hmark,
    Bits.ofBytes_replicate_zero, hbits, ← List.replicate_append_replicate, List.cons_append,
    List.append_assoc]

/-- **`sha1_hash` is SHA-1.**  For every byte string, the bits of the digest are the digest of the
bits. -/
theorem sha1Hash_eq (data : Bytes) :
    Bits.ofBytes (sha1Hash data) = Sha1.digest (Bits.ofBytes data) := by
  have hword : ∀ h : UInt32, Bits.ofBytes (wordBytes h) = Bits.ofNat 32 h.toBitVec.toNat := by
    intro h
    rw [wordBytes_eq]
    exact Bits.ofBytes_bigEndian 4 _
  have hblocks := @toHash_blocks (paddedMessage data) ((paddedMessage data).length / 64)
    (Nat.div_mul_le_self _ 64)
  have hcount : (Sha1.pad (Bits.ofBytes data)).length / 512 =
      (paddedMessage data).length / 64 := by
    rw [← ofBytes_paddedMessage, Bits.length_ofBytes]
    omega
  rw [Sha1.digest, hcount, ← ofBytes_paddedMessage, ← hblocks]
  unfold sha1Hash Sha1.Hash.bits
  simp only [Bits.ofBytes_append, hword]
  rfl

/-! ## 6. Base 64 -/

/-- A digit of the code is one of the standard. -/
theorem base64Char_eq (n : UInt32) : base64Char (n &&& 63) = Base64.character (n.toNat % 64) := by
  have htable : ∀ d : Fin 64, (ascii
      "ABCDEFGHIJKLMNOPQRSTUVWXYZabcdefghijklmnopqrstuvwxyz0123456789+/").getD d.1 0 =
        Base64.character d.1 := by
    decide +kernel
  have hdigit : (n &&& 63).toNat = n.toNat % 64 := by
    rw [UInt32.toNat_and]
    exact Nat.and_two_pow_sub_one_eq_mod n.toNat 6
  rw [base64Char, hdigit]
  exact htable ⟨n.toNat % 64, Nat.mod_lt _ (by decide)⟩

/-- The word of a group, with zeros for the bytes that are not there. -/
theorem toNat_groupWord (a b c : UInt8) :
    (a.toUInt32 <<< 16 ||| b.toUInt32 <<< 8 ||| c.toUInt32).toNat = ofBigEndian [a, b, c] := by
  have hword := toNat_wordOf 0 a b c
  have hzero : (0 : UInt8).toUInt32 <<< 24 = 0 := rfl
  have hfront : ofBigEndian [0, a, b, c] = ofBigEndian [a, b, c] := by
    simp only [ofBigEndian, List.foldl_cons, List.foldl_nil, UInt8.toNat_zero, Nat.zero_mul,
      Nat.zero_add]
  rw [hzero, UInt32.zero_or] at hword
  rw [hword, hfront]

/-- **One turn of the loop**, in the digits of its word. -/
theorem base64Group_eq (first : UInt8) (rest : Bytes) :
    let n := ofBigEndian [first, rest.getD 0 0, rest.getD 1 0]
    base64Group first rest = [Base64.character ((n >>> 18) % 64),
      Base64.character ((n >>> 12) % 64),
      if 1 ≤ rest.length then Base64.character ((n >>> 6) % 64) else Base64.fill,
      if 2 ≤ rest.length then Base64.character (n % 64) else Base64.fill] := by
  have hdigits : ∀ w : UInt32,
      base64Char ((w >>> 18) &&& 63) = Base64.character ((w.toNat >>> 18) % 64) ∧
      base64Char ((w >>> 12) &&& 63) = Base64.character ((w.toNat >>> 12) % 64) ∧
      base64Char ((w >>> 6) &&& 63) = Base64.character ((w.toNat >>> 6) % 64) ∧
      base64Char (w &&& 63) = Base64.character (w.toNat % 64) :=
    fun w => ⟨base64Char_eq _, base64Char_eq _, base64Char_eq _, base64Char_eq _⟩
  have hfill : byte '=' = Base64.fill := rfl
  -- A byte that is not there puts zeros into the word, as the loop leaves them.
  have hnone : ∀ w : UInt32, w ||| (0 : UInt8).toUInt32 = w := fun w => UInt32.or_zero
  have hnone' : ∀ w : UInt32, w ||| (0 : UInt8).toUInt32 <<< 8 = w := fun w => UInt32.or_zero
  rw [← toNat_groupWord]
  dsimp only
  match rest with
  | [] =>
    rw [List.getD_nil, List.getD_nil, hnone, hnone']
    simp only [base64Group, hdigits, hfill]
  | [b] =>
    rw [List.getD_cons_zero, List.getD_cons_succ, List.getD_nil, hnone]
    simp only [base64Group, hdigits, hfill]
  | b :: c :: _ =>
    rw [List.getD_cons_zero, List.getD_cons_succ, List.getD_cons_zero]
    simp only [base64Group, hdigits, hfill]

/-- **`base64_encode` is base 64**, on every byte string. -/
theorem base64Encode_eq (data : Bytes) :
    base64Encode data = Base64.encode (Bits.ofBytes data) := by
  fun_induction base64Encode data with
  | case1 =>
    rw [Bits.ofBytes, List.flatMap_nil, Base64.encode, Base64.characters, Bits.groups]
    rfl
  | case2 a =>
    have hbits : Bits.ofBytes [a] = Bits.ofNat 8 (ofBigEndian [a]) := Bits.ofBytes_eq [a]
    have hspell : ofBigEndian [a, 0, 0] = ofBigEndian [a] <<< 16 := by
      simp only [ofBigEndian, List.foldl_cons, List.foldl_nil, Nat.shiftLeft_eq, UInt8.toNat_zero]
      ring
    have hdigits : ∀ N, (N <<< 16) >>> 18 = N >>> 2 ∧ (N <<< 16) >>> 12 = N <<< 4 := by
      intro N
      simp only [Nat.shiftLeft_eq, Nat.shiftRight_eq_div_pow]
      omega
    rw [base64Group_eq, List.getD_nil, List.getD_nil, hspell, hbits, Base64.encode_eight,
      (hdigits _).1, (hdigits _).2]
    rfl
  | case3 a b =>
    have hbits : Bits.ofBytes [a, b] = Bits.ofNat 16 (ofBigEndian [a, b]) := Bits.ofBytes_eq [a, b]
    have hspell : ofBigEndian [a, b, 0] = ofBigEndian [a, b] <<< 8 := by
      simp only [ofBigEndian, List.foldl_cons, List.foldl_nil, Nat.shiftLeft_eq, UInt8.toNat_zero]
      ring
    have hdigits : ∀ N, (N <<< 8) >>> 18 = N >>> 10 ∧ (N <<< 8) >>> 12 = N >>> 4 ∧
        (N <<< 8) >>> 6 = N <<< 2 := by
      intro N
      simp only [Nat.shiftLeft_eq, Nat.shiftRight_eq_div_pow]
      omega
    rw [base64Group_eq, List.getD_cons_zero, List.getD_cons_succ, List.getD_nil, hspell, hbits,
      Base64.encode_sixteen, (hdigits _).1, (hdigits _).2.1, (hdigits _).2.2]
    rfl
  | case4 a b c rest ih =>
    have hthree : Bits.ofBytes [a, b, c] = Bits.ofNat 24 (ofBigEndian [a, b, c]) :=
      Bits.ofBytes_eq [a, b, c]
    have hfront : Bits.ofBytes (a :: b :: c :: rest) =
        Bits.ofNat 24 (ofBigEndian [a, b, c]) ++ Bits.ofBytes rest := by
      rw [← hthree, ← Bits.ofBytes_append]
      rfl
    rw [base64Group_eq, ih, hfront, Base64.encode_ofNat_append]
    rfl

/-! ## 7. The answer -/

/-- **The answer to a key is the standard one.**  For every key, `compute_ws_accept` is the base 64
of the SHA-1 of the key and the GUID; and the two functions agree with their standards on every
byte string. -/
theorem handshake_answer_standard :
    (∀ key : Bytes, computeWsAccept key = Base64.encode (Sha1.digest
      (Bits.ofBytes (key ++ ascii "258EAFA5-E914-47DA-95CA-C5AB0DC85B11")))) ∧
    (∀ data : Bytes, Bits.ofBytes (sha1Hash data) = Sha1.digest (Bits.ofBytes data)) ∧
    ∀ data : Bytes, base64Encode data = Base64.encode (Bits.ofBytes data) := by
  refine ⟨fun key => ?_, sha1Hash_eq, base64Encode_eq⟩
  rw [computeWsAccept, base64Encode_eq, sha1Hash_eq]

end QjsDebug.Ws
