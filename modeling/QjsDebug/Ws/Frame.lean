/-
# The frame codec of the WebSocket server

`send_ws_frame`, `recv_exact` and `read_ws_frame` of `websocket_server.cpp`, byte by byte.

* The operating system is visible in two places.  `::send` accepts as many bytes as it
  likes, so `sendWsFrame` takes the list of the amounts it accepts.  `recv` delivers what has
  arrived, so the socket is a list of chunks (`Lib.ByteStream`), one read never crossing
  from a chunk into the next.
* `recv_exact` and the payload loop of `send_ws_frame` pass `(int)(len - received)` to a
  `size_t` parameter; `sizeArg` is that conversion, the identity below `2 ^ 31`.
* The length bytes are those of the source: one byte below 126, then two bytes, then eight,
  big-endian.

`readWsFrame_sendWsFrame` is the codec's correctness: a frame that was sent whole, masked or
not, is read back from any chunking of the stream, and nothing after it is consumed.
-/
import QjsDebug.Basic
import QjsDebug.Lib.ByteStream

namespace QjsDebug.Ws

open ByteStream

/-- What `read_ws_frame` gives its caller.  The FIN bit is not among it. -/
structure Frame where
  opcode : UInt8
  payload : Bytes
  deriving DecidableEq, Repr

/-! ## 1. Sending -/

/-- `(int)n` passed for a `size_t`: what `::send` and `recv` are asked for. -/
def sizeArg (n : Nat) : Nat := ((BitVec.ofNat 32 n).signExtend 64).toNat

theorem sizeArg_of_lt {n : Nat} (h : n < 2 ^ 31) : sizeArg n = n := by
  have hmsb : (BitVec.ofNat 32 n).msb = false := by
    rw [BitVec.msb_eq_decide]
    simp only [BitVec.toNat_ofNat, decide_eq_false_iff_not]
    omega
  unfold sizeArg
  rw [BitVec.signExtend_eq_setWidth_of_msb_false hmsb, BitVec.toNat_setWidth, BitVec.toNat_ofNat]
  omega

/-- The header of `send_ws_frame`: FIN and opcode, then the length in its shortest form. -/
def frameHeader (opcode : UInt8) (len : Nat) : Bytes :=
  let first := 0x80 ||| (opcode &&& 0x0F)
  if len < 126 then [first, UInt8.ofNat len]
  else if len < 65536 then
    [first, 126, UInt8.ofNat (len >>> 8), UInt8.ofNat (len &&& 0xFF)]
  else first :: 127 :: bigEndian 8 len

/-- The loop of `send_ws_frame` over the payload: whether it went through, and what it put on
the wire.  Each call of `::send` accepts at most the next amount of the list. -/
def sendPayload : List Nat → Bytes → Bool × Bytes
  | _, [] => (true, [])
  | [], _ :: _ => (false, [])
  | accepted :: os, data =>
    let n := min accepted (sizeArg data.length)
    if n = 0 then (false, [])
    else
      let (ok, wire) := sendPayload os (data.drop n)
      (ok, data.take n ++ wire)

/-- `send_ws_frame`: the header must be accepted by one call of `::send`. -/
def sendWsFrame (os : List Nat) (opcode : UInt8) (data : Bytes) : Bool × Bytes :=
  let header := frameHeader opcode data.length
  match os with
  | [] => (false, [])
  | accepted :: os =>
    if min accepted header.length ≠ header.length then (false, header.take accepted)
    else
      let (ok, wire) := sendPayload os data
      (ok, header ++ wire)

/-- A payload loop that succeeds has put the whole payload on the wire. -/
theorem sendPayload_wire {os : List Nat} {data : Bytes} (h : (sendPayload os data).1 = true) :
    (sendPayload os data).2 = data := by
  induction os generalizing data with
  | nil =>
    cases data with
    | nil => rfl
    | cons b data => exact absurd h (by simp [sendPayload])
  | cons accepted os ih =>
    cases data with
    | nil => rfl
    | cons b data =>
      simp only [sendPayload] at h ⊢
      split at h
      · exact absurd h (by simp)
      · rename_i hn
        rw [if_neg hn]
        simp only [ih h, List.take_append_drop]

/-- **What a successful `send_ws_frame` emits**: the header, then the payload, however the
operating system splits the writes. -/
theorem sendWsFrame_wire {os : List Nat} {opcode : UInt8} {data wire : Bytes}
    (h : sendWsFrame os opcode data = (true, wire)) :
    wire = frameHeader opcode data.length ++ data := by
  cases os with
  | nil => exact absurd h (by simp [sendWsFrame])
  | cons accepted os =>
    simp only [sendWsFrame] at h
    split at h
    · exact absurd h (by simp)
    · simp only [Prod.mk.injEq] at h
      obtain ⟨hok, rfl⟩ := h
      rw [sendPayload_wire hok]

/-! ## 2. Receiving -/

/-- `recv_exact` with `received` already in the buffer; `none` is its `false`.  Every round
of the loop that goes on has received something. -/
def recvExactFrom (len : Nat) (received : Bytes) (s : List Bytes) :
    Option (Bytes × List Bytes) :=
  if received.length < len then
    match read (sizeArg (len - received.length)) s with
    | none => none
    | some (p, s') =>
      if p = [] then none else recvExactFrom len (received ++ p) s'
  else some (received, s)
termination_by len - received.length
decreasing_by
  have hp : 0 < p.length := List.length_pos_of_ne_nil ‹_›
  simp only [List.length_append]
  omega

/-- `recv_exact`. -/
def recvExact (len : Nat) (s : List Bytes) : Option (Bytes × List Bytes) :=
  recvExactFrom len [] s

/-- `payload_len << 8 | b`. -/
def pushByte (payloadLen : UInt64) (b : UInt8) : UInt64 := payloadLen <<< 8 ||| b.toUInt64

/-- The extended length: absent, two bytes, or eight, on a `uint64_t`. -/
def readLength (length7 : UInt8) (s : List Bytes) : Option (UInt64 × List Bytes) :=
  if length7 = 126 then do
    let (ext, s) ← recvExact 2 s
    some (pushByte (ext.getD 0 0).toUInt64 (ext.getD 1 0), s)
  else if length7 = 127 then do
    let (ext, s) ← recvExact 8 s
    some (ext.foldl pushByte 0, s)
  else some (length7.toUInt64, s)

/-- The masking key, zero when the frame is not masked. -/
def readMask (masked : Bool) (s : List Bytes) : Option (Bytes × List Bytes) :=
  if masked then recvExact 4 s else some ([0, 0, 0, 0], s)

/-- `mask[i % 4]`. -/
def maskByte (key : Bytes) (i : Nat) : UInt8 := key.getD (i % 4) 0

/-- `read_ws_frame`. -/
def readWsFrame (s : List Bytes) : Option (Frame × List Bytes) := do
  let (header, s) ← recvExact 2 s
  let opcode := header.getD 0 0 &&& 0x0F
  let masked := header.getD 1 0 &&& 0x80 != 0
  let (payloadLen, s) ← readLength (header.getD 1 0 &&& 0x7F) s
  let (key, s) ← readMask masked s
  if payloadLen > 0 then
    let (payload, s) ← recvExact payloadLen.toNat s
    some (⟨opcode, if masked then mask (maskByte key) payload else payload⟩, s)
  else some (⟨opcode, []⟩, s)

/-! ## 3. Masking a frame -/

/-- A masking key. -/
structure MaskKey where
  bytes : Bytes
  length_bytes : bytes.length = 4

/-- The length of a frame's header before the key, from its second byte. -/
def headerLength (frame : Bytes) : Nat :=
  let length7 := frame.getD 1 0 &&& 0x7F
  if length7 = 126 then 4 else if length7 = 127 then 10 else 2

/-- What a client does to an unmasked frame: set the mask bit, put the key after the length,
and exclusive-or payload byte `i` with key byte `i mod 4`. -/
def maskFrame : Option MaskKey → Bytes → Bytes
  | none, frame => frame
  | some key, frame =>
    (frame.take (headerLength frame)).modify 1 (· ||| 0x80) ++ key.bytes ++
      mask (maskByte key.bytes) (frame.drop (headerLength frame))

/-! ## 4. Reading from a chunked stream -/

/-- One round of the length loop. -/
theorem toNat_pushByte (n : UInt64) (b : UInt8) :
    (pushByte n b).toNat = (n.toNat * 256 + b.toNat) % 2 ^ 64 := by
  have hb : b.toNat < 2 ^ 8 := b.toNat_lt
  have hshift : (n <<< 8).toNat = (n.toNat % 2 ^ 56) <<< 8 := by
    rw [UInt64.toNat_shiftLeft, Nat.shiftLeft_eq, Nat.shiftLeft_eq]
    change n.toNat * 2 ^ 8 % 2 ^ 64 = _
    omega
  unfold pushByte
  rw [UInt64.toNat_or, hshift, UInt8.toNat_toUInt64, ← Nat.shiftLeft_add_eq_or_of_lt hb,
    Nat.shiftLeft_eq]
  omega

/-- The loop over the length bytes computes on a `uint64_t` what they spell. -/
theorem toNat_foldl_pushByte (bs : Bytes) {n : UInt64} {m : Nat} (h : n.toNat = m % 2 ^ 64) :
    (bs.foldl pushByte n).toNat = bs.foldl (fun n b => n * 256 + b.toNat) m % 2 ^ 64 := by
  induction bs generalizing n m with
  | nil => exact h
  | cons b bs ih =>
    simp only [List.foldl_cons]
    apply ih
    rw [toNat_pushByte, h]
    omega

/-- ... so it reads back a length written big-endian. -/
theorem toNat_foldl_pushByte_bigEndian {k n : Nat} (hk : n < 256 ^ k) (hn : n < 2 ^ 64) :
    ((bigEndian k n).foldl pushByte 0).toNat = n := by
  rw [toNat_foldl_pushByte (m := 0) _ rfl]
  have := ofBigEndian_bigEndian hk
  unfold ofBigEndian at this
  rw [this, Nat.mod_eq_of_lt hn]

/-- The loop of `recv_exact` fills its buffer from any chunking: the induction is on what is
still missing, and every round receives at least one byte of it. -/
theorem recvExactFrom_carries {len : Nat} (hlen : len < 2 ^ 31) {received p rest : Bytes}
    {s : List Bytes} (hp : received.length + p.length = len) (hs : Carries s (p ++ rest)) :
    ∃ s', recvExactFrom len received s = some (received ++ p, s') ∧ Carries s' rest := by
  by_cases hnil : p = []
  · subst hnil
    refine ⟨s, ?_, by simpa using hs⟩
    rw [recvExactFrom, if_neg (by simpa using hp.ge), List.append_nil]
  · have hpos : 0 < p.length := List.length_pos_of_ne_nil hnil
    have hask : sizeArg (len - received.length) = p.length := by
      rw [sizeArg_of_lt (by omega)]
      omega
    obtain ⟨q, s', ys, hread, hq, hle, happ, hs'⟩ := hs.read (by simp [hnil]) hpos
    have hqpos : 0 < q.length := List.length_pos_of_ne_nil hq
    obtain ⟨p', hcut⟩ : q <+: p :=
      List.prefix_of_prefix_length_le ⟨ys, happ.symm⟩ ⟨rest, rfl⟩ hle
    have hys : ys = p' ++ rest := by
      rw [← hcut, List.append_assoc] at happ
      exact (List.append_cancel_left happ).symm
    have hlength : q.length + p'.length = p.length := by rw [← hcut, List.length_append]
    have hp' : (received ++ q).length + p'.length = len := by
      rw [List.length_append]
      omega
    obtain ⟨s'', hrec, hs''⟩ := recvExactFrom_carries hlen hp' (hys ▸ hs')
    refine ⟨s'', ?_, hs''⟩
    rw [recvExactFrom, if_pos (by omega), hask, hread]
    simp only [hq, if_false]
    rw [hrec, List.append_assoc, hcut]
termination_by p.length
decreasing_by omega

/-- **`recv_exact` on a chunked stream** delivers the bytes asked for and nothing more. -/
theorem recvExact_carries {p rest : Bytes} {s : List Bytes} (hlen : p.length < 2 ^ 31)
    (hs : Carries s (p ++ rest)) :
    ∃ s', recvExact p.length s = some (p, s') ∧ Carries s' rest := by
  have h := @recvExactFrom_carries _ hlen [] _ _ _ (by simp) hs
  rwa [List.nil_append] at h

/-! ## 5. The round trip -/

/-- The second byte of the header without the mask bit. -/
def length7 (len : Nat) : UInt8 :=
  if len < 126 then UInt8.ofNat len else if len < 65536 then 126 else 127

/-- The extended length. -/
def extLength (len : Nat) : Bytes :=
  if len < 126 then [] else if len < 65536 then bigEndian 2 len else bigEndian 8 len

/-- The header, byte by byte. -/
theorem frameHeader_eq (opcode : UInt8) (len : Nat) :
    frameHeader opcode len = (0x80 ||| (opcode &&& 0x0F)) :: length7 len :: extLength len := by
  have hlow : UInt8.ofNat (len &&& 0xFF) = UInt8.ofNat len := by
    apply UInt8.toNat_inj.mp
    rw [UInt8.toNat_ofNat', UInt8.toNat_ofNat', show 0xFF = 2 ^ 8 - 1 from rfl,
      Nat.and_two_pow_sub_one_eq_mod, Nat.mod_mod]
  unfold frameHeader length7 extLength
  by_cases h1 : len < 126
  · simp [h1]
  · by_cases h2 : len < 65536
    · simp [h1, h2, bigEndian, hlow]
    · simp [h1, h2]

/-- The first byte gives the opcode back. -/
theorem opcode_of_first {opcode : UInt8} (h : opcode < 16) :
    (0x80 ||| (opcode &&& 0x0F)) &&& 0x0F = opcode := by
  have hall : ∀ n : Fin 16,
      (0x80 ||| (UInt8.ofNat n &&& 0x0F)) &&& 0x0F = UInt8.ofNat n := by decide
  have hlt : opcode.toNat < 16 := UInt8.lt_iff_toNat_lt.mp h
  have hop := hall ⟨opcode.toNat, hlt⟩
  rwa [UInt8.ofNat_toNat] at hop

/-- The bit a masked frame sets in its second byte. -/
def maskBit (key : Option MaskKey) : UInt8 := if key.isSome then 0x80 else 0

/-- The second byte gives the short length and the mask bit back. -/
theorem length7_spec (key : Option MaskKey) (len : Nat) :
    (length7 len ||| maskBit key) &&& 0x7F = length7 len ∧
      ((length7 len ||| maskBit key) &&& 0x80 != 0) = key.isSome := by
  have hall : ∀ n : Fin 128, ∀ b : Bool,
      (UInt8.ofNat n ||| if b then 0x80 else 0) &&& 0x7F = UInt8.ofNat n ∧
        ((UInt8.ofNat n ||| if b then 0x80 else 0) &&& 0x80 != 0) = b := by decide +kernel
  unfold length7 maskBit
  by_cases h1 : len < 126
  · rw [if_pos h1]
    exact hall ⟨len, by omega⟩ key.isSome
  · rw [if_neg h1]
    split
    · exact hall ⟨126, by omega⟩ key.isSome
    · exact hall ⟨127, by omega⟩ key.isSome

/-- The key as it stands on the wire. -/
def keyBytes : Option MaskKey → Bytes
  | none => []
  | some key => key.bytes

/-- The payload as it stands on the wire. -/
def maskPayload : Option MaskKey → Bytes → Bytes
  | none, payload => payload
  | some key, payload => mask (maskByte key.bytes) payload

/-- The short length announces the header's length. -/
theorem headerLength_cons (first : UInt8) (len : Nat) (rest : Bytes) :
    headerLength (first :: length7 len :: rest) = 2 + (extLength len).length := by
  unfold headerLength extLength
  have hshort : ∀ n : Fin 126, UInt8.ofNat n &&& 0x7F ≠ 126 ∧ UInt8.ofNat n &&& 0x7F ≠ 127 := by
    decide
  by_cases h1 : len < 126
  · obtain ⟨h126, h127⟩ := hshort ⟨len, h1⟩
    simp only [List.getD_cons_succ, List.getD_cons_zero, length7, if_pos h1, if_neg h126,
      if_neg h127, List.length_nil, Nat.add_zero]
  · by_cases h2 : len < 65536
    · have h126 : (126 : UInt8) &&& 0x7F = 126 := by decide
      simp [length7, h1, h2, h126]
    · simp [length7, h1, h2]

/-- A frame on the wire, masked or not: the first byte, the short length with the mask bit,
the extended length, the key, the payload. -/
def wireFrame (first : UInt8) (key : Option MaskKey) (payload : Bytes) : Bytes :=
  [first, length7 payload.length ||| maskBit key] ++
    (extLength payload.length ++ (keyBytes key ++ maskPayload key payload))

/-- Masking what `send_ws_frame` emits gives the frame on the wire. -/
theorem maskFrame_eq (key : Option MaskKey) (opcode : UInt8) (payload : Bytes) :
    maskFrame key (frameHeader opcode payload.length ++ payload) =
      wireFrame (0x80 ||| (opcode &&& 0x0F)) key payload := by
  rw [frameHeader_eq]
  cases key with
  | none => simp [maskFrame, wireFrame, maskBit, keyBytes, maskPayload]
  | some key =>
    simp only [maskFrame, List.cons_append, headerLength_cons]
    rw [Nat.add_comm 2]
    simp [wireFrame, maskBit, keyBytes, maskPayload]

/-- The extended length is read back. -/
theorem readLength_carries {len : Nat} {rest : Bytes} {s : List Bytes} (hlen : len < 2 ^ 64)
    (hs : Carries s (extLength len ++ rest)) :
    ∃ n s', readLength (length7 len) s = some (n, s') ∧ n.toNat = len ∧ Carries s' rest := by
  unfold extLength at hs
  unfold length7 readLength
  by_cases h1 : len < 126
  · have hne : ∀ n : Fin 126, UInt8.ofNat n ≠ 126 ∧ UInt8.ofNat n ≠ 127 := by decide
    obtain ⟨h126, h127⟩ := hne ⟨len, h1⟩
    rw [if_pos h1] at hs
    simp only [if_pos h1, if_neg h126, if_neg h127]
    refine ⟨_, s, rfl, ?_, by simpa using hs⟩
    rw [UInt8.toNat_toUInt64, UInt8.toNat_ofNat']
    omega
  · by_cases h2 : len < 65536
    · simp only [if_neg h1, if_pos h2] at hs ⊢
      obtain ⟨s', hread, hs'⟩ := recvExact_carries (by simp) hs
      rw [length_bigEndian] at hread
      refine ⟨_, s', by simp [hread]; rfl, ?_, hs'⟩
      have hspell := @toNat_foldl_pushByte_bigEndian 2 len (by omega) hlen
      simpa [bigEndian, pushByte] using hspell
    · simp only [if_neg h1, if_neg h2] at hs ⊢
      obtain ⟨s', hread, hs'⟩ := recvExact_carries (by simp) hs
      rw [length_bigEndian] at hread
      refine ⟨_, s', by simp [hread]; rfl, ?_, hs'⟩
      exact toNat_foldl_pushByte_bigEndian (by omega) hlen

/-- The key is read back. -/
theorem readMask_carries {key : Option MaskKey} {rest : Bytes} {s : List Bytes}
    (hs : Carries s (keyBytes key ++ rest)) :
    ∃ buf s', readMask key.isSome s = some (buf, s') ∧ (∀ k, key = some k → buf = k.bytes) ∧
      Carries s' rest := by
  cases key with
  | none => exact ⟨_, s, rfl, by simp, by simpa [keyBytes] using hs⟩
  | some k =>
    have hlen := k.length_bytes
    obtain ⟨s', hread, hs'⟩ := recvExact_carries (by simp [keyBytes, hlen]) hs
    rw [keyBytes, hlen] at hread
    exact ⟨k.bytes, s', hread, by simp, hs'⟩

/-- What is unmasked on arrival is what was masked on the way. -/
theorem unmask_maskPayload {key : Option MaskKey} {buf : Bytes} (payload : Bytes)
    (h : ∀ k, key = some k → buf = k.bytes) :
    (if key.isSome then mask (maskByte buf) (maskPayload key payload)
      else maskPayload key payload) = payload := by
  cases key with
  | none => rfl
  | some k =>
    rw [h k rfl]
    exact mask_mask (maskByte k.bytes) payload

theorem length_maskPayload (key : Option MaskKey) (payload : Bytes) :
    (maskPayload key payload).length = payload.length := by
  cases key with
  | none => rfl
  | some k => exact length_mask _ _

/-- **A frame on the wire is read**, whatever its first byte, up to exactly its last byte.  Of
the first byte only the low four bits are looked at. -/
theorem readWsFrame_carries {first : UInt8} {key : Option MaskKey} {payload rest : Bytes}
    {s : List Bytes} (hlen : payload.length < 2 ^ 31)
    (hs : Carries s (wireFrame first key payload ++ rest)) :
    ∃ s', readWsFrame s = some (⟨first &&& 0x0F, payload⟩, s') ∧ Carries s' rest := by
  unfold wireFrame at hs
  simp only [List.append_assoc] at hs
  obtain ⟨s₁, hheader, hs₁⟩ := recvExact_carries (by simp) hs
  obtain ⟨n, s₂, hlength, hn, hs₂⟩ := readLength_carries (by omega) hs₁
  obtain ⟨buf, s₃, hkey, hbuf, hs₃⟩ := readMask_carries hs₂
  obtain ⟨hseven, hmasked⟩ := length7_spec key payload.length
  have hwire := length_maskPayload key payload
  obtain ⟨s₄, hpayload, hs₄⟩ := recvExact_carries (by omega) hs₃
  rw [hwire] at hpayload
  have hheader' : recvExact 2 s = _ := hheader
  simp only [readWsFrame, hheader', Option.bind_eq_bind, Option.bind_some, List.getD_cons_zero,
    List.getD_cons_succ, hseven, hmasked, hlength, hkey]
  by_cases hempty : payload = []
  · subst hempty
    have hzero : ¬ n > 0 := by
      rw [gt_iff_lt, UInt64.lt_iff_toNat_lt, hn]
      simp
    rw [if_neg hzero]
    refine ⟨s₃, rfl, ?_⟩
    rwa [List.length_eq_zero_iff.mp hwire, List.nil_append] at hs₃
  · have hpos : n > 0 := by
      rw [gt_iff_lt, UInt64.lt_iff_toNat_lt, hn]
      exact List.length_pos_of_ne_nil hempty
    refine ⟨s₄, ?_, hs₄⟩
    rw [if_pos hpos, hn, hpayload, Option.bind_some]
    rw [unmask_maskPayload payload hbuf]

/-- **A sent frame is read back.**  Whatever amounts the sender's system accepts, whatever key
the frame is masked with on its way, however the receiver's system cuts the stream, and
whatever follows: `read_ws_frame` gives the opcode and the payload back and leaves exactly
what follows. -/
theorem readWsFrame_sendWsFrame {os : List Nat} {opcode : UInt8} {payload wire : Bytes}
    (hop : opcode < 16) (hlen : payload.length < 2 ^ 31)
    (hsend : sendWsFrame os opcode payload = (true, wire)) (key : Option MaskKey)
    {rest : Bytes} {s : List Bytes} (hs : Carries s (maskFrame key wire ++ rest)) :
    ∃ s', readWsFrame s = some (⟨opcode, payload⟩, s') ∧ Carries s' rest := by
  rw [sendWsFrame_wire hsend, maskFrame_eq] at hs
  obtain ⟨s', hread, hs'⟩ := readWsFrame_carries hlen hs
  rw [opcode_of_first hop] at hread
  exact ⟨s', hread, hs'⟩

theorem readWsFrame_sendWsFrame_hi :
    ∃ s', readWsFrame [[0x81], [0x82, 1], [2, 3, 4, 0x69], [0x6B, 0x88]] =
        some (⟨1, ascii "hi"⟩, s') ∧ Carries s' [0x88] :=
  @readWsFrame_sendWsFrame [2, 1, 1] 1 (ascii "hi") [0x81, 2, 0x68, 0x69] (by decide) (by decide)
    (by decide) (some ⟨[1, 2, 3, 4], rfl⟩) _ _ ⟨by decide, by decide⟩

/-! ## 6. The frames of a stream -/

/-- `recv_exact` takes what it delivers off the front, and at least what was asked for. -/
theorem recvExactFrom_append {len : Nat} {received p : Bytes} {s s' : List Bytes}
    (h : recvExactFrom len received s = some (p, s')) :
    received ++ s.flatten = p ++ s'.flatten ∧ len ≤ p.length := by
  fun_induction recvExactFrom len received s with
  | case1 => exact absurd h (by simp)
  | case2 => exact absurd h (by simp)
  | case3 received s hlt p' s₁ hread hne ih =>
    obtain ⟨happ, hle⟩ := ih h
    rw [List.append_assoc, ← read_append hread] at happ
    exact ⟨happ, hle⟩
  | case4 received s hle =>
    obtain ⟨rfl, rfl⟩ : received = p ∧ s = s' := by simpa using h
    exact ⟨rfl, by omega⟩

/-- What a read leaves is shorter, by what was asked for at least. -/
theorem length_of_recvExact {len : Nat} {p : Bytes} {s s' : List Bytes}
    (h : recvExact len s = some (p, s')) : s'.flatten.length + len ≤ s.flatten.length := by
  obtain ⟨happ, hle⟩ := recvExactFrom_append h
  have hlength := congrArg List.length happ
  simp only [List.nil_append, List.length_append] at hlength
  omega

theorem length_of_readLength {length7 : UInt8} {n : UInt64} {s s' : List Bytes}
    (h : readLength length7 s = some (n, s')) : s'.flatten.length ≤ s.flatten.length := by
  unfold readLength at h
  split at h
  · obtain ⟨⟨ext, s₁⟩, hread, heq⟩ := Option.bind_eq_some_iff.mp h
    obtain ⟨-, rfl⟩ : _ ∧ s₁ = s' := by simpa using heq
    have := length_of_recvExact hread
    omega
  · split at h
    · obtain ⟨⟨ext, s₁⟩, hread, heq⟩ := Option.bind_eq_some_iff.mp h
      obtain ⟨-, rfl⟩ : _ ∧ s₁ = s' := by simpa using heq
      have := length_of_recvExact hread
      omega
    · obtain ⟨-, rfl⟩ : _ ∧ s = s' := by simpa using h
      exact Nat.le_refl _

theorem length_of_readMask {masked : Bool} {key : Bytes} {s s' : List Bytes}
    (h : readMask masked s = some (key, s')) : s'.flatten.length ≤ s.flatten.length := by
  unfold readMask at h
  split at h
  · have := length_of_recvExact h
    omega
  · obtain ⟨-, rfl⟩ : _ ∧ s = s' := by simpa using h
    exact Nat.le_refl _

/-- A frame takes at least its two header bytes. -/
theorem length_of_readWsFrame {f : Frame} {s s' : List Bytes}
    (h : readWsFrame s = some (f, s')) : s'.flatten.length < s.flatten.length := by
  unfold readWsFrame at h
  obtain ⟨⟨header, s₁⟩, hheader, h⟩ := Option.bind_eq_some_iff.mp h
  obtain ⟨⟨n, s₂⟩, hlength, h⟩ := Option.bind_eq_some_iff.mp h
  obtain ⟨⟨key, s₃⟩, hkey, h⟩ := Option.bind_eq_some_iff.mp h
  have h₁ := length_of_recvExact hheader
  have h₂ := length_of_readLength hlength
  have h₃ := length_of_readMask hkey
  dsimp only at h h₁ h₂ h₃
  split at h
  · obtain ⟨⟨payload, s₄⟩, hpayload, heq⟩ := Option.bind_eq_some_iff.mp h
    obtain ⟨-, rfl⟩ : _ ∧ s₄ = s' := by simpa using heq
    have h₄ := length_of_recvExact hpayload
    omega
  · obtain ⟨-, rfl⟩ : _ ∧ s₃ = s' := by simpa using h
    omega

/-- What successive calls of `read_ws_frame` return until one of them fails. -/
def readFrames (s : List Bytes) : List Frame :=
  match _h : readWsFrame s with
  | none => []
  | some (f, s') => f :: readFrames s'
termination_by s.flatten.length
decreasing_by exact length_of_readWsFrame _h

theorem readFrames_of_none {s : List Bytes} (h : readWsFrame s = none) : readFrames s = [] := by
  rw [readFrames]
  split
  · rfl
  · rename_i heq
    rw [h] at heq
    cases heq

theorem readFrames_of_some {f : Frame} {s s' : List Bytes} (h : readWsFrame s = some (f, s')) :
    readFrames s = f :: readFrames s' := by
  rw [readFrames]
  split
  · rename_i heq
    rw [h] at heq
    cases heq
  · rename_i heq
    rw [h] at heq
    cases heq
    rfl

/-- A frame as a client puts it on the wire: FIN set or not, with or without a key. -/
structure ClientFrame where
  fin : Bool
  frame : Frame
  key : Option MaskKey
  opcode_lt : frame.opcode < 16
  length_lt : frame.payload.length < 2 ^ 31

/-- Its bytes. -/
def ClientFrame.wire (c : ClientFrame) : Bytes :=
  wireFrame ((if c.fin then 0x80 else 0) ||| c.frame.opcode) c.key c.frame.payload

/-- The low four bits of the first byte are the opcode, with FIN or without. -/
theorem opcode_of_fin (fin : Bool) {opcode : UInt8} (h : opcode < 16) :
    ((if fin then 0x80 else 0) ||| opcode) &&& 0x0F = opcode := by
  have hall : ∀ b : Bool, ∀ n : Fin 16,
      ((if b then 0x80 else 0) ||| UInt8.ofNat n) &&& 0x0F = UInt8.ofNat n := by decide
  have hlt : opcode.toNat < 16 := UInt8.lt_iff_toNat_lt.mp h
  have hop := hall fin ⟨opcode.toNat, hlt⟩
  rwa [UInt8.ofNat_toNat] at hop

/-- **A stream of frames is read frame by frame**, however it is cut into chunks. -/
theorem readFrames_carries {cs : List ClientFrame} {s : List Bytes}
    (hs : Carries s (cs.flatMap ClientFrame.wire)) :
    readFrames s = cs.map ClientFrame.frame := by
  induction cs generalizing s with
  | nil =>
    have hnil : s = [] := by
      obtain ⟨hne, hflat⟩ := hs
      rcases s with _ | ⟨c, s⟩
      · rfl
      · have hc := hne c (List.mem_cons_self ..)
        rw [List.flatMap_nil, List.flatten_cons] at hflat
        exact absurd (List.append_eq_nil_iff.mp hflat).1 hc
    subst hnil
    apply readFrames_of_none
    unfold readWsFrame recvExact
    rw [recvExactFrom]
    rfl
  | cons c cs ih =>
    rw [List.flatMap_cons] at hs
    obtain ⟨s', hread, hs'⟩ := readWsFrame_carries c.length_lt hs
    rw [readFrames_of_some hread, ih hs', opcode_of_fin c.fin c.opcode_lt, List.map_cons]

end QjsDebug.Ws
