/-
# The allocation in front of the payload

`read_ws_frame` resizes its buffer to the length the header announces before the first byte of the
payload has arrived, and the length is a number off the wire.  `std::string::resize` throws
`length_error` above `max_size()` and `bad_alloc` when there is no memory, and nothing on the
thread catches either.  `Ws.Frame` takes the buffer as given; here the call is in its place.

Every other way for the function to end is a return: with the whole payload, or with `false`
wherever the stream stops.  So it ends by an exception exactly when the header arrives whole and
announces a length that a string cannot be given (`read_frame_returns_iff`).
-/
import QjsDebug.Ws.Frame

namespace QjsDebug.Ws

open ByteStream

/-! ## 1. The function -/

/-- What `std::string::resize` depends on. -/
structure StringLib where
  maxSize : Nat
  /-- There is memory for a string of this length. -/
  allocates : Nat → Bool

inductive ResizeFault
  | lengthError
  | badAlloc
  deriving DecidableEq, Repr

/-- `payload.resize(n)`. -/
def StringLib.resize (lib : StringLib) (n : Nat) : Except ResizeFault Unit :=
  if lib.maxSize < n then .error .lengthError
  else if lib.allocates n then .ok ()
  else .error .badAlloc

/-- What `read_ws_frame` has read when it comes to the `resize`. -/
structure Header where
  opcode : UInt8
  masked : Bool
  payloadLen : UInt64
  key : Bytes

def readHeader (s : List Bytes) : Option (Header × List Bytes) := do
  let (header, s) ← recvExact 2 s
  let masked := header.getD 1 0 &&& 0x80 != 0
  let (payloadLen, s) ← readLength (header.getD 1 0 &&& 0x7F) s
  let (key, s) ← readMask masked s
  some (⟨header.getD 0 0 &&& 0x0F, masked, payloadLen, key⟩, s)

/-- `read_ws_frame`, with its exceptions; `none` is its `false`. -/
def readWsFrameResizing (lib : StringLib) (s : List Bytes) :
    Except ResizeFault (Option (Frame × List Bytes)) :=
  match readHeader s with
  | none => .ok none
  | some (h, s) => do
    lib.resize h.payloadLen.toNat
    if h.payloadLen > 0 then
      match recvExact h.payloadLen.toNat s with
      | none => return none
      | some (payload, s) =>
        return some (⟨h.opcode, if h.masked then mask (maskByte h.key) payload else payload⟩, s)
    else return some (⟨h.opcode, []⟩, s)

/-- Where it returns it is `readWsFrame`. -/
theorem readWsFrame_of_resizing {lib : StringLib} {s : List Bytes}
    {r : Option (Frame × List Bytes)} (h : readWsFrameResizing lib s = .ok r) :
    readWsFrame s = r := by
  unfold readWsFrameResizing readHeader at h
  unfold readWsFrame
  cases hheader : recvExact 2 s with
  | none =>
    rw [hheader] at h
    exact Except.ok.inj h
  | some x =>
    rw [hheader] at h
    simp only [Option.bind_eq_bind, Option.bind_some] at h ⊢
    cases hlength : readLength (x.1.getD 1 0 &&& 0x7F) x.2 with
    | none =>
      rw [hlength] at h
      exact Except.ok.inj h
    | some y =>
      rw [hlength] at h
      simp only [Option.bind_some] at h ⊢
      cases hkey : readMask (x.1.getD 1 0 &&& 0x80 != 0) y.2 with
      | none =>
        rw [hkey] at h
        exact Except.ok.inj h
      | some z =>
        rw [hkey] at h
        simp only [Option.bind_some] at h ⊢
        cases hresize : lib.resize y.1.toNat with
        | error e =>
          rw [hresize] at h
          exact absurd h (by simp [bind, Except.bind])
        | ok _ =>
          rw [hresize] at h
          simp only [bind, Except.bind] at h
          split at h
          · rename_i hpos
            rw [if_pos hpos]
            cases hpayload : recvExact y.1.toNat z.2 with
            | none =>
              rw [hpayload] at h
              exact Except.ok.inj h
            | some w =>
              rw [hpayload] at h
              exact Except.ok.inj h
          · rename_i hpos
            rw [if_neg hpos]
            exact Except.ok.inj h

/-! ## 2. What the bytes say -/

/-- The mask bit of a frame. -/
def maskedBit (frame : Bytes) : Bool := frame.getD 1 0 &&& 0x80 != 0

/-- The length of a frame's header, the key included. -/
def headerSize (frame : Bytes) : Nat := headerLength frame + if maskedBit frame then 4 else 0

/-- The length that a frame's header announces, once it has arrived whole. -/
def announced (frame : Bytes) : Option Nat :=
  if 2 ≤ frame.length ∧ headerSize frame ≤ frame.length then
    if headerLength frame = 2 then some (frame.getD 1 0 &&& 0x7F).toNat
    else some (ofBigEndian ((frame.take (headerLength frame)).drop 2))
  else none

/-- The payload of the frame on the wire. -/
def rawPayload (frame : Bytes) (n : Nat) : Bytes := (frame.drop (headerSize frame)).take n

/-- The frame is the one on the wire, with as many bytes as announced, and `s` carries on behind
it. -/
def Whole (bytes : Bytes) (f : Frame) (s : List Bytes) : Prop :=
  ∃ n, announced bytes = some n ∧ f.opcode = bytes.getD 0 0 &&& 0x0F ∧ f.payload.length = n ∧
    f.payload = (if maskedBit bytes then
        mask (maskByte ((bytes.take (headerSize bytes)).drop (headerLength bytes)))
          (rawPayload bytes n)
      else rawPayload bytes n) ∧
    s.flatten = bytes.drop (headerSize bytes + n)

/-- `read_ws_frame` ends by returning, with the whole frame if it returns true. -/
def EndsByReturning (lib : StringLib) (bytes : Bytes) (s : List Bytes) : Prop :=
  ∃ r, readWsFrameResizing lib s = .ok r ∧ ∀ f s', r = some (f, s') → Whole bytes f s'

/-- A string can be given this length. -/
def StringLib.holds (lib : StringLib) (n : Nat) : Bool := n ≤ lib.maxSize && lib.allocates n

theorem resize_eq_ok {lib : StringLib} {n : Nat} : lib.resize n = .ok () ↔ lib.holds n = true := by
  unfold StringLib.resize StringLib.holds
  by_cases hmax : lib.maxSize < n
  · simp [hmax]
  · have hle : n ≤ lib.maxSize := Nat.le_of_not_lt hmax
    cases lib.allocates n <;> simp [hmax, hle]

/-! ## 3. Reading off a stream -/

/-- The chunks of a stream as `recv` can deliver them: it returns their length in an `int`. -/
def Bounded (s : List Bytes) : Prop := ∀ c ∈ s, c.length < 2 ^ 31

/-- `recv_exact` fills its buffer and not more, and leaves what comes behind. -/
theorem recvExactFrom_spec {len : Nat} {received p : Bytes} {s s' : List Bytes} (hb : Bounded s)
    (hle : received.length ≤ len) (h : recvExactFrom len received s = some (p, s')) :
    p.length = len ∧ Bounded s' := by
  fun_induction recvExactFrom len received s with
  | case1 => exact absurd h (by simp)
  | case2 => exact absurd h (by simp)
  | case3 received s hlt q s₁ hread hne ih =>
    obtain ⟨⟨c, hc, hqc⟩, hparts⟩ := read_parts hread
    have hcb := hb c hc
    -- a chunk is shorter than the ask unless the ask is what is missing
    have hfits : q.length ≤ len - received.length := by
      by_cases hsmall : len - received.length < 2 ^ 31
      · have hq := read_le hread
        rwa [sizeArg_of_lt hsmall] at hq
      · omega
    refine ih (fun c' hc' => ?_) (by rw [List.length_append]; omega) h
    obtain ⟨c, hc, hle⟩ := hparts c' hc'
    exact Nat.lt_of_le_of_lt hle (hb c hc)
  | case4 received s hle' =>
    obtain ⟨rfl, rfl⟩ : received = p ∧ s = s' := by simpa using h
    exact ⟨by omega, hb⟩

/-- What `recv_exact` delivers is the front of the stream. -/
theorem recvExact_eq {len : Nat} {p bytes : Bytes} {s s' : List Bytes} (hb : Bounded s)
    (hs : s.flatten = bytes) (h : recvExact len s = some (p, s')) :
    len ≤ bytes.length ∧ p = bytes.take len ∧ s'.flatten = bytes.drop len ∧ Bounded s' := by
  obtain ⟨hlen, hb'⟩ := recvExactFrom_spec hb (Nat.zero_le _) h
  obtain ⟨happ, -⟩ := recvExactFrom_append h
  rw [List.nil_append, hs] at happ
  refine ⟨?_, ?_, ?_, hb'⟩
  · rw [happ, List.length_append]
    omega
  · rw [happ, ← hlen, List.take_left]
  · rw [happ, ← hlen, List.drop_left]

/-- A buffer below `2 ^ 31` bytes is filled when the stream has so much. -/
theorem recvExact_of_le {len : Nat} {bytes : Bytes} {s : List Bytes} (hlen : len < 2 ^ 31)
    (hle : len ≤ bytes.length) (hs : Carries s bytes) :
    ∃ s', recvExact len s = some (bytes.take len, s') ∧ Carries s' (bytes.drop len) := by
  have htake : (bytes.take len).length = len := List.length_take_of_le hle
  have h := @recvExact_carries (bytes.take len) (bytes.drop len) s (by omega)
    (by rwa [List.take_append_drop])
  rwa [htake] at h

/-- Otherwise `recv_exact` fails. -/
theorem recvExact_of_lt {len : Nat} {bytes : Bytes} {s : List Bytes} (hlt : bytes.length < len)
    (hs : s.flatten = bytes) : recvExact len s = none := by
  cases h : recvExact len s with
  | none => rfl
  | some x =>
    have hlen := length_of_recvExact h
    rw [hs] at hlen
    omega

/-- The bytes of the extended length. -/
def lengthSize (b : UInt8) : Nat := if b = 126 then 2 else if b = 127 then 8 else 0

theorem headerLength_eq (frame : Bytes) :
    headerLength frame = 2 + lengthSize (frame.getD 1 0 &&& 0x7F) := by
  unfold headerLength lengthSize
  simp only
  split
  · rfl
  · split <;> rfl

/-- A length read byte by byte is what the bytes spell. -/
theorem toNat_foldl_pushByte_lt {bs : Bytes} (h : bs.length ≤ 8) :
    (bs.foldl pushByte 0).toNat = ofBigEndian bs := by
  have hlt : ofBigEndian bs < 2 ^ 64 :=
    calc ofBigEndian bs < 256 ^ bs.length := ofBigEndian_lt bs
      _ ≤ 256 ^ 8 := Nat.pow_le_pow_right (by decide) h
      _ = 2 ^ 64 := by decide
  rw [toNat_foldl_pushByte (m := 0) bs rfl]
  exact Nat.mod_eq_of_lt hlt

/-- The extended length: it fails where the stream stops inside it. -/
theorem readLength_spec {b : UInt8} {bytes : Bytes} {s : List Bytes} (hs : Carries s bytes)
    (hb : Bounded s) :
    (bytes.length < lengthSize b ∧ readLength b s = none) ∨
      (lengthSize b ≤ bytes.length ∧ ∃ n s', readLength b s = some (n, s') ∧
        n.toNat = (if lengthSize b = 0 then b.toNat
          else ofBigEndian (bytes.take (lengthSize b))) ∧
        Carries s' (bytes.drop (lengthSize b)) ∧ Bounded s') := by
  unfold readLength lengthSize
  by_cases h126 : b = 126
  · simp only [if_pos h126]
    by_cases hle : 2 ≤ bytes.length
    · obtain ⟨s', hread, hs'⟩ := recvExact_of_le (by decide) hle hs
      refine Or.inr ⟨hle, _, s', by rw [hread]; rfl, ?_, hs',
        (recvExact_eq hb hs.spells hread).2.2.2⟩
      have htake : (bytes.take 2).length = 2 := List.length_take_of_le hle
      match bytes.take 2, htake with
      | [c, d], _ =>
        have hspell := @toNat_foldl_pushByte_lt [c, d] (by simp)
        simpa [pushByte] using hspell
    · exact Or.inl ⟨by omega, by rw [recvExact_of_lt (by omega) hs.spells]; rfl⟩
  · by_cases h127 : b = 127
    · simp only [if_neg h126, if_pos h127]
      by_cases hle : 8 ≤ bytes.length
      · obtain ⟨s', hread, hs'⟩ := recvExact_of_le (by decide) hle hs
        refine Or.inr ⟨hle, _, s', by rw [hread]; rfl, ?_, hs',
          (recvExact_eq hb hs.spells hread).2.2.2⟩
        exact toNat_foldl_pushByte_lt (by rw [List.length_take]; omega)
      · exact Or.inl ⟨by omega, by rw [recvExact_of_lt (by omega) hs.spells]; rfl⟩
    · simp only [if_neg h126, if_neg h127]
      exact Or.inr ⟨Nat.zero_le _, _, s, rfl, by simp, hs, hb⟩

/-- The masking key. -/
theorem readMask_spec (masked : Bool) {bytes : Bytes} {s : List Bytes} (hs : Carries s bytes)
    (hb : Bounded s) :
    (bytes.length < (if masked then 4 else 0) ∧ readMask masked s = none) ∨
      ((if masked then 4 else 0) ≤ bytes.length ∧ ∃ key s', readMask masked s = some (key, s') ∧
        (masked = true → key = bytes.take 4) ∧
        Carries s' (bytes.drop (if masked then 4 else 0)) ∧ Bounded s') := by
  unfold readMask
  cases masked with
  | true =>
    simp only [if_true]
    by_cases hle : 4 ≤ bytes.length
    · obtain ⟨s', hread, hs'⟩ := recvExact_of_le (by decide) hle hs
      exact Or.inr ⟨hle, _, s', hread, fun _ => rfl, hs', (recvExact_eq hb hs.spells hread).2.2.2⟩
    · exact Or.inl ⟨by omega, recvExact_of_lt (by omega) hs.spells⟩
  | false => exact Or.inr ⟨Nat.zero_le _, _, s, rfl, by simp, hs, hb⟩

/-- A header that has not arrived whole announces nothing. -/
theorem announced_of_lt {bytes : Bytes} (h : bytes.length < headerSize bytes) :
    announced bytes = none := by
  rw [announced, if_neg]
  rintro ⟨-, hle⟩
  omega

/-- What the header announces, from the bytes behind its first two. -/
theorem announced_of_le {bytes : Bytes} (h : headerSize bytes ≤ bytes.length) :
    announced bytes = some (if lengthSize (bytes.getD 1 0 &&& 0x7F) = 0 then
        (bytes.getD 1 0 &&& 0x7F).toNat
      else ofBigEndian ((bytes.drop 2).take (lengthSize (bytes.getD 1 0 &&& 0x7F)))) := by
  have hsize := headerLength_eq bytes
  have h2 : 2 ≤ bytes.length := by
    unfold headerSize at h
    omega
  rw [announced, if_pos ⟨h2, h⟩]
  by_cases hzero : lengthSize (bytes.getD 1 0 &&& 0x7F) = 0
  · rw [if_pos (by omega), if_pos hzero]
  · rw [if_neg (by omega), if_neg hzero, List.drop_take, hsize, Nat.add_sub_cancel_left]

/-- **The header is read as its bytes say**, and not at all when the stream stops in it. -/
theorem readHeader_spec {bytes : Bytes} {s : List Bytes} (hs : Carries s bytes) (hb : Bounded s) :
    (announced bytes = none ∧ readHeader s = none) ∨
      ∃ h s', announced bytes = some h.payloadLen.toNat ∧ readHeader s = some (h, s') ∧
        h.opcode = bytes.getD 0 0 &&& 0x0F ∧ h.masked = maskedBit bytes ∧
        (maskedBit bytes = true →
          h.key = (bytes.take (headerSize bytes)).drop (headerLength bytes)) ∧
        s'.flatten = bytes.drop (headerSize bytes) ∧ Bounded s' := by
  have hsize := headerLength_eq bytes
  by_cases h2 : 2 ≤ bytes.length
  · obtain ⟨s₁, hheader, hs₁⟩ := recvExact_of_le (by decide) h2 hs
    have hb₁ := (recvExact_eq hb hs.spells hheader).2.2.2
    have hfirst : (bytes.take 2).getD 0 0 = bytes.getD 0 0 ∧
        (bytes.take 2).getD 1 0 = bytes.getD 1 0 := by
      match bytes, h2 with
      | _ :: _ :: _, _ => exact ⟨rfl, rfl⟩
    have hrest : (bytes.drop 2).length = bytes.length - 2 := List.length_drop
    simp only [readHeader, hheader, Option.bind_eq_bind, Option.bind_some, hfirst]
    rcases readLength_spec (b := bytes.getD 1 0 &&& 0x7F) hs₁ hb₁ with
      ⟨hlt, hnone⟩ | ⟨hle, n, s₂, hlength, hn, hs₂, hb₂⟩
    · refine Or.inl ⟨announced_of_lt ?_, by rw [hnone]; rfl⟩
      unfold headerSize
      omega
    · have hrest₂ : ((bytes.drop 2).drop (lengthSize (bytes.getD 1 0 &&& 0x7F))).length =
          bytes.length - headerLength bytes := by
        rw [List.length_drop, hrest, hsize]
        omega
      rw [hlength]
      simp only [Option.bind_some]
      rcases readMask_spec (bytes.getD 1 0 &&& 0x80 != 0) hs₂ hb₂ with
        ⟨hlt, hnone⟩ | ⟨hle', key, s₃, hkey, hbytes, hs₃, hb₃⟩
      · refine Or.inl ⟨announced_of_lt ?_, by rw [hnone]; rfl⟩
        rw [hrest₂] at hlt
        unfold headerSize maskedBit
        omega
      · rw [hrest₂] at hle'
        have hwhole : headerSize bytes ≤ bytes.length := by
          unfold headerSize maskedBit
          omega
        refine Or.inr ⟨⟨_, _, n, key⟩, s₃, ?_, by rw [hkey]; rfl, rfl, rfl, ?_, ?_, hb₃⟩
        · rw [announced_of_le hwhole, hn]
        · intro hmasked
          have hfour : headerSize bytes - headerLength bytes = 4 := by
            rw [headerSize, if_pos hmasked]
            omega
          rw [hbytes hmasked, List.drop_take, hfour, List.drop_drop, hsize]
        · rw [hs₃.spells, List.drop_drop, List.drop_drop, headerSize, maskedBit, hsize,
            Nat.add_assoc]
  · refine Or.inl ⟨announced_of_lt ?_, ?_⟩
    · unfold headerSize
      omega
    · rw [readHeader, recvExact_of_lt (by omega) hs.spells]
      rfl

/-! ## 4. How the function ends -/

/-- **`read_ws_frame` ends by returning exactly when the length announced can be allocated.**  For
every stream of bytes, every point at which it stops and every way `recv` cuts it: the function
returns false or true with the whole payload, iff the header does not arrive whole or announces a
length that is not above `max_size()` and for which there is memory. -/
theorem read_frame_returns_iff (lib : StringLib) {bytes : Bytes} {s : List Bytes}
    (hs : Carries s bytes) (hb : Bounded s) :
    EndsByReturning lib bytes s ↔ ∀ n, announced bytes = some n → lib.holds n = true := by
  unfold EndsByReturning readWsFrameResizing
  rcases readHeader_spec hs hb with
    ⟨hnone, hread⟩ | ⟨h, s', hann, hread, hop, hmasked, hkey, hs', hb'⟩
  · rw [hread, hnone]
    exact ⟨fun _ n hn => absurd hn (by simp), fun _ => ⟨none, rfl, by simp⟩⟩
  · rw [hread]
    constructor
    · rintro ⟨r, hr, -⟩ n hn
      rw [hann] at hn
      obtain rfl := Option.some.inj hn
      cases hresize : lib.resize h.payloadLen.toNat with
      | ok _ => exact resize_eq_ok.mp hresize
      | error e =>
        simp only [hresize, bind, Except.bind] at hr
        exact absurd hr (by simp)
    · intro hholds
      have hresize := resize_eq_ok.mpr (hholds _ hann)
      simp only [hresize, bind, Except.bind]
      by_cases hpos : h.payloadLen > 0
      · rw [if_pos hpos]
        cases hpayload : recvExact h.payloadLen.toNat s' with
        | none => exact ⟨none, rfl, by simp⟩
        | some x =>
          obtain ⟨p, s''⟩ := x
          obtain ⟨hle, rfl, hrest, -⟩ := recvExact_eq hb' hs' hpayload
          refine ⟨_, rfl, fun f t hf => ?_⟩
          obtain ⟨rfl, rfl⟩ := Prod.mk.inj (Option.some.inj hf)
          refine ⟨_, hann, hop, ?_, ?_, by rw [hrest, List.drop_drop]⟩
          · have hlen := List.length_take_of_le hle
            cases h.masked with
            | true => simpa using hlen
            | false => simpa using hlen
          · rw [hmasked]
            cases hbit : maskedBit bytes with
            | true =>
              simp only [if_true, hkey hbit, rawPayload]
            | false => rfl
      · have hzero : h.payloadLen.toNat = 0 := by
          rw [gt_iff_lt, UInt64.lt_iff_toNat_lt] at hpos
          simpa using hpos
        rw [if_neg hpos]
        refine ⟨_, rfl, fun f t hf => ?_⟩
        obtain ⟨rfl, rfl⟩ := Prod.mk.inj (Option.some.inj hf)
        refine ⟨_, hann, hop, by rw [hzero]; rfl, ?_, by rw [hzero]; exact hs'⟩
        rw [hzero, rawPayload, List.take_zero]
        cases maskedBit bytes <;> rfl

/-- The strings of a 64-bit build, with memory for up to a gigabyte. -/
def gigabyteLib : StringLib where
  maxSize := 2 ^ 63 - 1
  allocates n := n ≤ 2 ^ 30

/-- The rule at a frame whose payload is cut off. -/
theorem read_frame_returns_iff_cut :
    EndsByReturning gigabyteLib [0x81, 0x85, 1, 2, 3, 4, 0x69] [[0x81, 0x85, 1, 2], [3, 4, 0x69]] ↔
      ∀ n, announced [0x81, 0x85, 1, 2, 3, 4, 0x69] = some n → gigabyteLib.holds n = true :=
  read_frame_returns_iff gigabyteLib ⟨by decide, by decide⟩ (by unfold Bounded; decide)

/-- A header that announces `2 ^ 64 - 1` bytes. -/
def hugeHeader : Bytes := [0x81, 0x7F, 0xFF, 0xFF, 0xFF, 0xFF, 0xFF, 0xFF, 0xFF, 0xFF]

/-- A 64-bit build that never runs out of memory. -/
def boundlessLib : StringLib where
  maxSize := 2 ^ 63 - 1
  allocates _ := true

/-- **Ten bytes end the thread.**  On the header alone `payload.resize` is asked for more than
`max_size()`, however much memory there is. -/
theorem huge_header_throws :
    readWsFrameResizing boundlessLib [hugeHeader] = .error .lengthError ∧
      ¬ EndsByReturning boundlessLib hugeHeader [hugeHeader] := by
  have hthrows : readWsFrameResizing boundlessLib [hugeHeader] = .error .lengthError := by
    have hcarries : Carries [hugeHeader] hugeHeader := ⟨by decide, rfl⟩
    have hbounded : Bounded [hugeHeader] := by
      unfold Bounded
      decide
    have hann : announced hugeHeader = some (2 ^ 64 - 1) := by decide
    rcases readHeader_spec hcarries hbounded with ⟨hnone, -⟩ | ⟨h, s', hlen, hread, -⟩
    · rw [hann] at hnone
      exact absurd hnone (by simp)
    · rw [hann] at hlen
      rw [readWsFrameResizing, hread]
      simp only [StringLib.resize, ← Option.some.inj hlen]
      rfl
  refine ⟨hthrows, ?_⟩
  rintro ⟨r, hr, -⟩
  rw [hthrows] at hr
  exact absurd hr (by simp)

end QjsDebug.Ws
