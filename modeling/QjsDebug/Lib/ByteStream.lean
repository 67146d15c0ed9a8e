/-
# Byte streams cut into chunks, and the arithmetic of binary framing

Three general pieces of a binary protocol read from a stream socket:

* **Big-endian numbers.**  `bigEndian k n` writes `n` on `k` bytes, most significant first;
  `ofBigEndian` reads any number of bytes back.  The two are inverse below `256 ^ k`.
* **Cyclic masking.**  `mask key bs` exclusive-ors byte `i` with `key i`; it is its own
  inverse, whatever the key function.
* **Chunked streams.**  What a stream socket still delivers is a list of chunks.  One read of
  at most `n` items takes a prefix of the first chunk and never crosses into the next, so every
  way of splitting a stream into short reads is a chunking of it.  `Carries s xs` says that
  the chunks are non-empty and spell `xs`.
-/
import Mathlib.Data.List.Basic
import Mathlib.Tactic.Ring

namespace ByteStream

/-! ## 1. Big-endian numbers -/

/-- `n` on `k` bytes, most significant first; what does not fit is dropped. -/
def bigEndian : Nat → Nat → List UInt8
  | 0, _ => []
  | k + 1, n => UInt8.ofNat (n >>> (8 * k)) :: bigEndian k n

/-- The number that the bytes spell, most significant first. -/
def ofBigEndian (bs : List UInt8) : Nat := bs.foldl (fun n b => n * 256 + b.toNat) 0

@[simp] theorem length_bigEndian (k n : Nat) : (bigEndian k n).length = k := by
  induction k with
  | zero => rfl
  | succ k ih => simp only [bigEndian, List.length_cons, ih]

/-- What has been read before only shifts up. -/
theorem foldl_bigEndian (m k n : Nat) :
    (bigEndian k n).foldl (fun n b => n * 256 + b.toNat) m = m * 256 ^ k + n % 256 ^ k := by
  induction k generalizing m with
  | zero => simp [bigEndian, Nat.mod_one]
  | succ k ih =>
    have hpow : (2 : Nat) ^ (8 * k) = 256 ^ k := by rw [pow_mul]; norm_num
    have hdigit : (UInt8.ofNat (n >>> (8 * k))).toNat = n / 256 ^ k % 256 := by
      rw [UInt8.toNat_ofNat', Nat.shiftRight_eq_div_pow, hpow]
    have hsplit : n % 256 ^ (k + 1) = n % 256 ^ k + 256 ^ k * (n / 256 ^ k % 256) := by
      rw [pow_succ, Nat.mod_mul]
    rw [bigEndian, List.foldl_cons, ih, hdigit, hsplit, pow_succ]
    ring

/-- **Reading back what was written.** -/
theorem ofBigEndian_bigEndian {k n : Nat} (h : n < 256 ^ k) :
    ofBigEndian (bigEndian k n) = n := by
  unfold ofBigEndian
  rw [foldl_bigEndian, Nat.zero_mul, Nat.zero_add, Nat.mod_eq_of_lt h]

/-- What bytes spell is below the power of their number. -/
theorem ofBigEndian_lt (bs : List UInt8) : ofBigEndian bs < 256 ^ bs.length := by
  have hfold : ∀ (bs : List UInt8) (m : Nat),
      bs.foldl (fun n b => n * 256 + b.toNat) m < (m + 1) * 256 ^ bs.length := by
    intro bs
    induction bs with
    | nil =>
      intro m
      simp
    | cons b bs ih =>
      intro m
      have hb : b.toNat < 256 := b.toNat_lt
      calc (b :: bs).foldl (fun n b => n * 256 + b.toNat) m
          < (m * 256 + b.toNat + 1) * 256 ^ bs.length := ih _
        _ ≤ ((m + 1) * 256) * 256 ^ bs.length := Nat.mul_le_mul_right _ (by omega)
        _ = (m + 1) * 256 ^ (b :: bs).length := by rw [List.length_cons, pow_succ]; ring
  have h := hfold bs 0
  rwa [Nat.zero_add, Nat.one_mul] at h

/-! ## 2. Cyclic masking -/

/-- Byte `i` exclusive-or `key i`. -/
def mask (key : Nat → UInt8) (bs : List UInt8) : List UInt8 :=
  bs.mapIdx fun i b => b ^^^ key i

@[simp] theorem length_mask (key : Nat → UInt8) (bs : List UInt8) :
    (mask key bs).length = bs.length := by
  simp [mask]

/-- **Masking twice is no masking.** -/
theorem mask_mask (key : Nat → UInt8) (bs : List UInt8) : mask key (mask key bs) = bs := by
  apply List.ext_getElem
  · simp
  · intro i h₁ h₂
    simp only [mask, List.getElem_mapIdx]
    rw [UInt8.xor_assoc, UInt8.xor_self, UInt8.xor_zero]

/-! ## 3. Chunked streams -/

universe u

variable {β : Type u}

/-- One read of at most `n` items: from the first chunk only, whose rest stays. -/
def read (n : Nat) : List (List β) → Option (List β × List (List β))
  | [] => none
  | c :: cs => if c.length ≤ n then some (c, cs) else some (c.take n, c.drop n :: cs)

/-- The stream is cut into non-empty chunks and spells `xs`. -/
structure Carries (s : List (List β)) (xs : List β) : Prop where
  nonempty : ∀ c ∈ s, c ≠ []
  spells : s.flatten = xs

theorem Carries.nil : Carries ([] : List (List β)) [] :=
  ⟨by simp, rfl⟩

/-- Cutting the first chunk in two does not change what the stream spells. -/
theorem flatten_take_drop (n : Nat) (c : List β) (cs : List (List β)) :
    (c :: cs).flatten = c.take n ++ (c.drop n :: cs).flatten := by
  rw [List.flatten_cons, List.flatten_cons, ← List.append_assoc, List.take_append_drop]

/-- A read takes its items off the front and loses none. -/
theorem read_append {n : Nat} {s s' : List (List β)} {p : List β} (h : read n s = some (p, s')) :
    s.flatten = p ++ s'.flatten := by
  cases s with
  | nil => exact absurd h (by simp [read])
  | cons c cs =>
    simp only [read] at h
    split at h
    · obtain ⟨rfl, rfl⟩ : c = p ∧ cs = s' := by simpa using h
      rfl
    · obtain ⟨rfl, rfl⟩ : c.take n = p ∧ c.drop n :: cs = s' := by simpa using h
      exact flatten_take_drop n c cs

/-- What a read delivers, and each chunk it leaves, is part of a chunk. -/
theorem read_parts {n : Nat} {s s' : List (List β)} {p : List β} (h : read n s = some (p, s')) :
    (∃ c ∈ s, p.length ≤ c.length) ∧ ∀ c' ∈ s', ∃ c ∈ s, c'.length ≤ c.length := by
  cases s with
  | nil => exact absurd h (by simp [read])
  | cons c cs =>
    simp only [read] at h
    split at h
    · obtain ⟨rfl, rfl⟩ : c = p ∧ cs = s' := by simpa using h
      exact ⟨⟨c, List.mem_cons_self, Nat.le_refl _⟩,
        fun c' hc' => ⟨c', List.mem_cons_of_mem _ hc', Nat.le_refl _⟩⟩
    · obtain ⟨rfl, rfl⟩ : c.take n = p ∧ c.drop n :: cs = s' := by simpa using h
      refine ⟨⟨c, List.mem_cons_self, List.length_take_le' _ _⟩, fun c' hc' => ?_⟩
      rcases List.mem_cons.mp hc' with rfl | hc'
      · exact ⟨c, List.mem_cons_self, by rw [List.length_drop]; omega⟩
      · exact ⟨c', List.mem_cons_of_mem _ hc', Nat.le_refl _⟩

/-- A read delivers no more than it is asked for. -/
theorem read_le {n : Nat} {s s' : List (List β)} {p : List β} (h : read n s = some (p, s')) :
    p.length ≤ n := by
  cases s with
  | nil => exact absurd h (by simp [read])
  | cons c cs =>
    simp only [read] at h
    split at h
    · obtain ⟨rfl, -⟩ : c = p ∧ cs = s' := by simpa using h
      assumption
    · obtain ⟨rfl, -⟩ : c.take n = p ∧ c.drop n :: cs = s' := by simpa using h
      exact List.length_take_le _ _

/-- **A read of a stream that is not at its end** delivers at least one item and at most `n`,
and what is left is again cut into non-empty chunks. -/
theorem Carries.read {s : List (List β)} {xs : List β} (h : Carries s xs) (hx : xs ≠ [])
    {n : Nat} (hn : 0 < n) :
    ∃ p s' ys, read n s = some (p, s') ∧ p ≠ [] ∧ p.length ≤ n ∧ xs = p ++ ys ∧
      Carries s' ys := by
  obtain ⟨hne, rfl⟩ := h
  cases s with
  | nil => exact absurd rfl hx
  | cons c cs =>
    obtain ⟨hc, hcs⟩ := List.forall_mem_cons.mp hne
    by_cases hle : c.length ≤ n
    · refine ⟨c, cs, cs.flatten, by simp [ByteStream.read, hle], hc, hle, rfl, hcs, rfl⟩
    · have hdrop : c.drop n ≠ [] := by
        intro h
        exact hle (List.drop_eq_nil_iff.mp h)
      have htake : c.take n ≠ [] := by
        intro h
        rcases List.take_eq_nil_iff.mp h with h | h
        · omega
        · exact hc h
      refine ⟨c.take n, c.drop n :: cs, (c.drop n :: cs).flatten,
        by simp [ByteStream.read, hle], htake, List.length_take_le _ _,
        flatten_take_drop n c cs, ?_, rfl⟩
      exact List.forall_mem_cons.mpr ⟨hdrop, hcs⟩

end ByteStream
