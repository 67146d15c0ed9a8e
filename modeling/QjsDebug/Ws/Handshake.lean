/-
# The opening handshake

What `websocket_server.cpp` does to a connection before it is a WebSocket: `read_http_request`,
`get_header` and `get_request_path` on the request, `sha1_hash`, `base64_encode` and
`compute_ws_accept` for the answer, and the texts that `do_websocket_handshake` and
`send_http_response` put on the wire.

`sha1_hash` is the code of the builds other than Windows, on `uint32_t`.  A request is a
`std::string`, so `find` is the first match (`Lib.FirstMatch`) and `substr` a cut of the list.
-/
import QjsDebug.Conversions
import QjsDebug.Lib.FirstMatch
import QjsDebug.Session.Paths
import QjsDebug.Ws.Frame

namespace QjsDebug.Ws

open ByteStream FirstMatch

/-! ## 1. SHA-1 -/

/-- `rol`. -/
def rol (v : UInt32) (b : UInt32) : UInt32 := (v <<< b) ||| (v >>> (32 - b))

/-- `msg`: the data, the byte 0x80, zeros, and the length in bits on the last eight bytes.  The
length is a `size_t`. -/
def paddedMessage (data : Bytes) : Bytes :=
  let len := data.length
  let ml := len * 8 % 2 ^ 64
  let paddedLen := ((len + 8) / 64 + 1) * 64
  let msg := (data ++ List.replicate (paddedLen - len) 0).set len 0x80
  (List.range 8).foldl (fun msg i => msg.set (paddedLen - 1 - i) (UInt8.ofNat (ml >>> (i * 8)))) msg

/-- `w`: the sixteen words of the block that starts at `off`, and 64 more. -/
def schedule (msg : Bytes) (off : Nat) : List UInt32 :=
  let byteAt := fun i => (msg.getD (off + i) 0).toUInt32
  let first := (List.range 16).map fun i =>
    byteAt (i * 4) <<< 24 ||| byteAt (i * 4 + 1) <<< 16 ||| byteAt (i * 4 + 2) <<< 8 |||
      byteAt (i * 4 + 3)
  (List.range' 16 64).foldl
    (fun w i => w ++
      [rol (w.getD (i - 3) 0 ^^^ w.getD (i - 8) 0 ^^^ w.getD (i - 14) 0 ^^^ w.getD (i - 16) 0) 1])
    first

/-- `h0` to `h4`, and the working variables `a` to `e`. -/
structure Chaining where
  a : UInt32
  b : UInt32
  c : UInt32
  d : UInt32
  e : UInt32
  deriving DecidableEq, Repr

/-- The body of the loop over the rounds. -/
def sha1Round (w : List UInt32) (s : Chaining) (i : Nat) : Chaining :=
  let (f, k) :=
    if i < 20 then ((s.b &&& s.c) ||| (~~~s.b &&& s.d), (0x5A827999 : UInt32))
    else if i < 40 then (s.b ^^^ s.c ^^^ s.d, 0x6ED9EBA1)
    else if i < 60 then ((s.b &&& s.c) ||| (s.b &&& s.d) ||| (s.c &&& s.d), 0x8F1BBCDC)
    else (s.b ^^^ s.c ^^^ s.d, 0xCA62C1D6)
  let t := rol s.a 5 + f + s.e + k + w.getD i 0
  { a := t, b := s.a, c := rol s.b 30, d := s.c, e := s.d }

/-- The body of the loop over the blocks. -/
def sha1Block (msg : Bytes) (h : Chaining) (off : Nat) : Chaining :=
  let s := (List.range 80).foldl (sha1Round (schedule msg off)) h
  { a := h.a + s.a, b := h.b + s.b, c := h.c + s.c, d := h.d + s.d, e := h.e + s.e }

/-- The four bytes of a word in the digest. -/
def wordBytes (h : UInt32) : Bytes :=
  [(h >>> 24).toUInt8, (h >>> 16).toUInt8, (h >>> 8).toUInt8, h.toUInt8]

/-- `sha1_hash`. -/
def sha1Hash (data : Bytes) : Bytes :=
  let msg := paddedMessage data
  let init : Chaining :=
    { a := 0x67452301, b := 0xEFCDAB89, c := 0x98BADCFE, d := 0x10325476, e := 0xC3D2E1F0 }
  let h := (List.range (msg.length / 64)).foldl (fun h j => sha1Block msg h (j * 64)) init
  wordBytes h.a ++ wordBytes h.b ++ wordBytes h.c ++ wordBytes h.d ++ wordBytes h.e

theorem length_sha1Hash (data : Bytes) : (sha1Hash data).length = 20 := rfl

/-! ## 2. Base64 -/

/-- `table[n]`. -/
def base64Char (n : UInt32) : UInt8 :=
  (ascii "ABCDEFGHIJKLMNOPQRSTUVWXYZabcdefghijklmnopqrstuvwxyz0123456789+/").getD n.toNat 0

/-- One turn of the loop: the byte at `i`, and the one or two behind it that are there. -/
def base64Group (first : UInt8) (rest : Bytes) : Bytes :=
  let n : UInt32 := first.toUInt32 <<< 16
  let n : UInt32 := match rest with
    | second :: _ => n ||| second.toUInt32 <<< 8
    | [] => n
  let n : UInt32 := match rest with
    | _ :: third :: _ => n ||| third.toUInt32
    | _ => n
  [base64Char ((n >>> 18) &&& 63), base64Char ((n >>> 12) &&& 63),
    if 1 ≤ rest.length then base64Char ((n >>> 6) &&& 63) else byte '=',
    if 2 ≤ rest.length then base64Char (n &&& 63) else byte '=']

/-- `base64_encode`, three bytes a turn. -/
def base64Encode : Bytes → Bytes
  | [] => []
  | [a] => base64Group a []
  | [a, b] => base64Group a [b]
  | a :: b :: c :: rest => base64Group a [b, c] ++ base64Encode rest

theorem length_base64Encode (data : Bytes) :
    (base64Encode data).length = (data.length + 2) / 3 * 4 := by
  have hgroup : ∀ (first : UInt8) (rest : Bytes), (base64Group first rest).length = 4 :=
    fun _ _ => rfl
  fun_induction base64Encode data with
  | case1 => rfl
  | case2 a =>
    rw [hgroup]
    simp only [List.length_cons, List.length_nil]
  | case3 a b =>
    rw [hgroup]
    simp only [List.length_cons, List.length_nil]
  | case4 a b c rest ih =>
    rw [List.length_append, hgroup, ih]
    simp only [List.length_cons]
    omega

/-- `compute_ws_accept`. -/
def computeWsAccept (key : Bytes) : Bytes :=
  base64Encode (sha1Hash (key ++ ascii "258EAFA5-E914-47DA-95CA-C5AB0DC85B11"))

/-- The self-test of `start`. -/
example : computeWsAccept (ascii "dGhlIHNhbXBsZSBub25jZQ==") =
    ascii "s3pPLMBiTxaQ9kYGzzhZRbK+xOo=" := by
  decide +kernel

theorem length_computeWsAccept (key : Bytes) : (computeWsAccept key).length = 28 := by
  rw [computeWsAccept, length_base64Encode, length_sha1Hash]

/-! ## 3. The request -/

/-- The line end of HTTP. -/
def crlf : Bytes := [0x0D, 0x0A]

/-- The loop of `read_http_request`, which receives byte by byte; `[]` is its failure. -/
def readHttpRequestFrom (request : Bytes) (s : List Bytes) : Bytes × List Bytes :=
  if request.length < 8192 then
    match read 1 s with
    | some (c :: _, s') =>
      let request' := request ++ [c]
      if 4 ≤ request'.length ∧ request'.drop (request'.length - 4) = crlf ++ crlf then
        (request', s')
      else readHttpRequestFrom request' s'
    | some ([], s') => ([], s')
    | none => ([], s)
  else ([], s)
termination_by 8192 - request.length
decreasing_by
  simp only [List.length_append, List.length_cons, List.length_nil]
  omega

/-- `read_http_request`. -/
def readHttpRequest (s : List Bytes) : Bytes × List Bytes := readHttpRequestFrom [] s

/-- `get_header`. -/
def getHeader (request name : Bytes) : Bytes :=
  match firstMatch (toLower name ++ [byte ':']) (toLower request) with
  | none => []
  | some pos =>
    let value := (request.drop (pos + (name.length + 1))).dropWhile (· == byte ' ')
    value.take ((firstMatch crlf value).getD value.length)

/-- `get_request_path`. -/
def getRequestPath (request : Bytes) : Bytes :=
  match firstMatch [byte ' '] request with
  | none => ascii "/"
  | some start =>
    let rest := request.drop (start + 1)
    match firstMatch [byte ' '] rest with
    | none => ascii "/"
    | some length => rest.take length

theorem length_readHttpRequest (s : List Bytes) : (readHttpRequest s).1.length ≤ 8192 := by
  have hloop : ∀ (request : Bytes) (s : List Bytes),
      (readHttpRequestFrom request s).1.length ≤ 8192 := by
    intro request s
    fun_induction readHttpRequestFrom request s with
    | case1 request s hlt c rest s' _ request' _ =>
      simp only [request', List.length_append, List.length_cons, List.length_nil]
      omega
    | case2 _ _ _ _ _ _ _ _ _ ih => exact ih
    | case3 => exact Nat.zero_le _
    | case4 => exact Nat.zero_le _
    | case5 => exact Nat.zero_le _
  exact hloop [] s

theorem length_getHeader (request name : Bytes) :
    (getHeader request name).length ≤ request.length := by
  unfold getHeader
  split
  · exact Nat.zero_le _
  · rename_i pos _
    have hcut := List.length_take_le' ((firstMatch crlf
      ((request.drop (pos + (name.length + 1))).dropWhile (· == byte ' '))).getD
        ((request.drop (pos + (name.length + 1))).dropWhile (· == byte ' ')).length)
      ((request.drop (pos + (name.length + 1))).dropWhile (· == byte ' '))
    have hspaces := (List.dropWhile_suffix (l := request.drop (pos + (name.length + 1)))
      (· == byte ' ')).length_le
    have hdrop : (request.drop (pos + (name.length + 1))).length ≤ request.length := by
      rw [List.length_drop]
      omega
    exact hcut.trans (hspaces.trans hdrop)

/-! ## 4. The answers -/

/-- One `::send` of a whole text, of which the system takes `accepted` bytes: whether it takes what
it is asked for, and what goes out.  An error takes nothing. -/
def sendOnce (accepted : Nat) (text : Bytes) : Bool × Bytes :=
  let n := min accepted (sizeArg text.length)
  (n == sizeArg text.length, text.take n)

/-- A text that went out whole. -/
theorem sendOnce_eq_true {accepted : Nat} {text : Bytes} (hlen : text.length < 2 ^ 31)
    (h : (sendOnce accepted text).1 = true) : (sendOnce accepted text).2 = text := by
  simp only [sendOnce, beq_iff_eq] at h ⊢
  rw [h, sizeArg_of_lt hlen, List.take_length]

/-- The response of `do_websocket_handshake`. -/
def handshakeResponse (accept protocol : Bytes) : Bytes :=
  ascii "HTTP/1.1 101 Switching Protocols" ++ crlf ++ ascii "Upgrade: websocket" ++ crlf ++
    ascii "Connection: Upgrade" ++ crlf ++ ascii "Sec-WebSocket-Accept: " ++ accept ++ crlf ++
    (if protocol = [] then [] else ascii "Sec-WebSocket-Protocol: " ++ protocol ++ crlf) ++ crlf

/-- `do_websocket_handshake`: whether it succeeds, and what it puts on the wire. -/
def doWebsocketHandshake (accepted : Nat) (request : Bytes) : Bool × Bytes :=
  let key := getHeader request (ascii "Sec-WebSocket-Key")
  if key = [] then (false, [])
  else
    sendOnce accepted
      (handshakeResponse (computeWsAccept key) (getHeader request (ascii "Sec-WebSocket-Protocol")))

/-- The response is not much longer than the protocol it names. -/
theorem length_handshakeResponse (key protocol : Bytes) :
    (handshakeResponse (computeWsAccept key) protocol).length ≤ protocol.length + 300 := by
  have hfixed : (ascii "HTTP/1.1 101 Switching Protocols").length = 32 ∧
      (ascii "Upgrade: websocket").length = 18 ∧ (ascii "Connection: Upgrade").length = 19 ∧
      (ascii "Sec-WebSocket-Accept: ").length = 22 ∧
      (ascii "Sec-WebSocket-Protocol: ").length = 24 := by
    decide
  have hcrlf : crlf.length = 2 := rfl
  obtain ⟨h₁, h₂, h₃, h₄, h₅⟩ := hfixed
  simp only [handshakeResponse, List.length_append, h₁, h₂, h₃, h₄, hcrlf, length_computeWsAccept]
  split
  · simp only [List.length_nil]
    omega
  · simp only [List.length_append, h₅, hcrlf]
    omega

/-- **A handshake that succeeds has sent the whole response**, with the accept value of the key of
that request. -/
theorem doWebsocketHandshake_eq_true {accepted : Nat} {request : Bytes}
    (hlen : request.length ≤ 8192) (h : (doWebsocketHandshake accepted request).1 = true) :
    getHeader request (ascii "Sec-WebSocket-Key") ≠ [] ∧
      (doWebsocketHandshake accepted request).2 =
        handshakeResponse (computeWsAccept (getHeader request (ascii "Sec-WebSocket-Key")))
          (getHeader request (ascii "Sec-WebSocket-Protocol")) := by
  unfold doWebsocketHandshake at h ⊢
  by_cases hkey : getHeader request (ascii "Sec-WebSocket-Key") = []
  · simp only [hkey, if_true] at h
    exact absurd h (by simp)
  · simp only [hkey, if_false] at h ⊢
    refine ⟨hkey, sendOnce_eq_true ?_ h⟩
    have hresponse := length_handshakeResponse (getHeader request (ascii "Sec-WebSocket-Key"))
      (getHeader request (ascii "Sec-WebSocket-Protocol"))
    have hprotocol := length_getHeader request (ascii "Sec-WebSocket-Protocol")
    omega

/-- `snprintf` into a buffer of `size` bytes. -/
def snprintf (size : Nat) (text : Bytes) : Bytes := text.take (size - 1)

/-- A `%s`, and a C string turned into a `std::string`. -/
def cString (s : Bytes) : Bytes := s.takeWhile (· != 0)

/-- The response of `send_http_response`. -/
def httpResponse (code : Int) (status contentType body : Bytes) : Bytes :=
  snprintf 512 (ascii "HTTP/1.1 " ++ decimal code ++ ascii " " ++ cString status ++ crlf ++
    ascii "Content-Type: " ++ cString contentType ++ ascii "; charset=UTF-8" ++ crlf ++
    ascii "Content-Length: " ++ decimal body.length ++ crlf ++
    ascii "Connection: close" ++ crlf ++ crlf) ++ body

/-- `send_http_response`: what it puts on the wire. -/
def sendHttpResponse (accepted : Nat) (code : Int) (status contentType body : Bytes) : Bytes :=
  (sendOnce accepted (httpResponse code status contentType body)).2

end QjsDebug.Ws
