/-
# The answers of the accept loop

Whatever a connection asks for, `wait_for_connection` answers in HTTP: a head of lines, and for the
discovery requests a body.  Part of an answer comes from the client, which names the protocol of
the WebSocket, and part from the script, whose path is in the body.

A client reads lines up to the empty one, and then as many bytes as the head announces
(`readResponse`).  `Acceptor.answer` is what it should get, as lines and a body.  The module shows
that it gets just that (`answers_read_back`): the request adds no line of its own to the head, the
length announced is that of the body, and what the server sends afterwards, the frames of the
WebSocket, starts right behind.
-/
import Mathlib.Data.Nat.Digits.Lemmas
import QjsDebug.Lib.Lines
import QjsDebug.Ws.Accept

namespace QjsDebug.Ws

open FirstMatch Lines

/-! ## 1. Answers -/

/-- An answer: the lines of its head, and its body. -/
structure Answer where
  lines : List Bytes
  body : Bytes

/-- The answer as it is sent. -/
def Answer.text (m : Answer) : Bytes := Lines.text 0x0D 0x0A m.lines ++ m.body

/-- The name of the header field that gives the length of the body. -/
def contentLengthName : Bytes := ascii "Content-Length: "

/-- The length of the body that a head announces, zero where it does not. -/
def contentLength (lines : List Bytes) : Nat :=
  (lines.findSome? fun line =>
    if contentLengthName <+: line then
      some (ofDigits 10 (readDigits 10 (line.drop contentLengthName.length)))
    else none).getD 0

/-- What a client makes of the bytes it receives: the lines of the head, the body, and the bytes
behind it. -/
def readResponse (bytes : Bytes) : Option (List Bytes × Bytes × Bytes) :=
  (readLines 0x0D 0x0A [] bytes).bind fun r =>
    if contentLength r.1 ≤ r.2.length then
      some (r.1, r.2.take (contentLength r.1), r.2.drop (contentLength r.1))
    else none

/-- The answer to an upgrade. -/
def handshakeAnswer (request : Bytes) : Answer :=
  let protocol := getHeader request (ascii "Sec-WebSocket-Protocol")
  { lines := [ascii "HTTP/1.1 101 Switching Protocols", ascii "Upgrade: websocket",
        ascii "Connection: Upgrade", ascii "Sec-WebSocket-Accept: " ++
          computeWsAccept (getHeader request (ascii "Sec-WebSocket-Key"))] ++
      (if protocol = [] then [] else [ascii "Sec-WebSocket-Protocol: " ++ protocol])
    body := [] }

/-- Any other answer. -/
def httpAnswer (code : Int) (status contentType body : Bytes) : Answer where
  lines := [ascii "HTTP/1.1 " ++ decimal code ++ ascii " " ++ status,
    ascii "Content-Type: " ++ contentType ++ ascii "; charset=UTF-8",
    contentLengthName ++ decimal body.length, ascii "Connection: close"]
  body := body

/-- What the server answers to a request. -/
def Acceptor.answer (a : Acceptor) (request : Bytes) : Answer :=
  if toLower (getHeader request (ascii "Upgrade")) = ascii "websocket" then handshakeAnswer request
  else if getRequestPath request = ascii "/json/version" then
    httpAnswer 200 (ascii "OK") (ascii "application/json") versionBody
  else if getRequestPath request = ascii "/json" ∨ getRequestPath request = ascii "/json/list" then
    httpAnswer 200 (ascii "OK") (ascii "application/json") (discoveryBody a)
  else httpAnswer 404 (ascii "Not Found") (ascii "text/plain") (ascii "Not Found")

/-! ## 2. Reading an answer -/

/-- An answer is read back, and what follows it is left as it is. -/
theorem readResponse_text {m : Answer} (hlines : ∀ l ∈ m.lines, IsLine 0x0D 0x0A l)
    (hlength : contentLength m.lines = m.body.length) (rest : Bytes) :
    readResponse (m.text ++ rest) = some (m.lines, m.body, rest) := by
  have hhead := readLines_text (by decide) hlines (m.body ++ rest)
  rw [readResponse, Answer.text, List.append_assoc, hhead, Option.bind_some, hlength,
    if_pos (by simp), List.take_left, List.drop_left]

/-- A number is read back from its digits. -/
theorem ofDigits_readDigits_decimal (n : Nat) :
    ofDigits 10 (readDigits 10 (decimal (n : Int))) = n := by
  have hdigits := readDigits_map_digitByte_append
    (fun _ => lt_ten_of_mem_decimalDigits (n := n)) [] rfl
  rw [List.append_nil] at hdigits
  have htext : decimal (n : Int) = (decimalDigits n).map digitByte := by
    rw [decimal, if_neg (Int.not_lt.mpr (Int.natCast_nonneg n)), List.nil_append,
      Int.natAbs_natCast]
  rw [htext, hdigits, ofDigits_decimalDigits]

/-- Digits are no control bytes. -/
theorem notMem_decimal (n : Int) : (0x0D : UInt8) ∉ decimal n := by
  have hdigit : ∀ d : Fin 10, digitByte d ≠ 0x0D := by decide
  rw [decimal, List.mem_append, not_or]
  constructor
  · split <;> decide
  · intro h
    obtain ⟨d, hd, heq⟩ := List.mem_map.mp h
    exact hdigit ⟨d, lt_ten_of_mem_decimalDigits hd⟩ heq

/-- What the header of a request is taken for has no end of a line in it. -/
theorem getHeader_no_crlf (request name : Bytes) : ¬ [0x0D, 0x0A] <:+: getHeader request name := by
  unfold getHeader
  split
  · decide
  · rename_i pos _
    generalize (request.drop (pos + (name.length + 1))).dropWhile (· == byte ' ') = value
    dsimp only
    cases hfirst : firstMatch crlf value with
    | none =>
      rw [Option.getD_none, List.take_length]
      exact firstMatch_eq_none_iff.mp hfirst
    | some i =>
      rw [Option.getD_some]
      intro hin
      obtain ⟨j, before, behind, htake, rfl⟩ := exists_occursAt.mp hin
      -- an end within the value would have been the first
      have hoccurs : OccursAt crlf value before.length := by
        refine ⟨before, behind ++ value.drop i, ?_, rfl⟩
        calc value = value.take i ++ value.drop i := (List.take_append_drop i value).symm
          _ = before ++ (crlf ++ (behind ++ value.drop i)) := by
            rw [htake]
            simp only [List.append_assoc]
            rfl
      have hle := (firstMatch_eq_some_iff.mp hfirst).2 _ hoccurs
      have hlen := congrArg List.length htake
      simp only [List.length_append, List.length_cons, List.length_nil] at hlen
      have hcut := List.length_take_le i value
      omega

/-- The base 64 code has no control bytes. -/
theorem notMem_base64Encode (data : Bytes) : (0x0D : UInt8) ∉ base64Encode data := by
  have hchar : ∀ n, base64Char n ≠ 0x0D := by
    intro n h
    unfold base64Char at h
    rw [List.getD_eq_getElem?_getD] at h
    cases hget :
      (ascii "ABCDEFGHIJKLMNOPQRSTUVWXYZabcdefghijklmnopqrstuvwxyz0123456789+/")[n.toNat]? with
    | none => rw [hget] at h; cases h
    | some c =>
      rw [hget, Option.getD_some] at h
      have hmem := List.mem_of_getElem? hget
      rw [h] at hmem
      revert hmem
      decide
  have hgroup : ∀ (first : UInt8) (rest : Bytes), (0x0D : UInt8) ∉ base64Group first rest := by
    intro first rest h
    unfold base64Group at h
    simp only [List.mem_cons, List.not_mem_nil, or_false] at h
    rcases h with h | h | h | h
    · exact hchar _ h.symm
    · exact hchar _ h.symm
    · split at h
      · exact hchar _ h.symm
      · revert h; decide
    · split at h
      · exact hchar _ h.symm
      · revert h; decide
  fun_induction base64Encode data with
  | case1 => exact List.not_mem_nil
  | case2 a => exact hgroup _ _
  | case3 a b => exact hgroup _ _
  | case4 a b c rest ih => exact fun h => (List.mem_append.mp h).elim (hgroup _ _) ih

/-! ## 3. The lines of the answers -/

/-- A line that begins otherwise announces no length. -/
theorem not_contentLength {line : Bytes} (h : line.head? ≠ some (byte 'C')) :
    ¬ contentLengthName <+: line := by
  rintro ⟨t, rfl⟩
  refine h ?_
  have hname : contentLengthName = byte 'C' :: ascii "ontent-Length: " := by decide
  rw [hname]
  rfl

theorem isLine_handshakeAnswer (request : Bytes) :
    ∀ l ∈ (handshakeAnswer request).lines, IsLine 0x0D 0x0A l := by
  have haccept : ∀ key,
      IsLine 0x0D 0x0A (ascii "Sec-WebSocket-Accept: " ++ computeWsAccept key) := by
    intro key
    refine isLine_of_notMem (List.append_ne_nil_of_left_ne_nil (by decide) _) ?_
    rw [List.mem_append, not_or]
    exact ⟨by decide, notMem_base64Encode _⟩
  have hprotocol : IsLine 0x0D 0x0A (ascii "Sec-WebSocket-Protocol: " ++
      getHeader request (ascii "Sec-WebSocket-Protocol")) :=
    ⟨List.append_ne_nil_of_left_ne_nil (by decide) _,
      not_infix_append (by decide) (getHeader_no_crlf _ _)⟩
  intro l hl
  simp only [handshakeAnswer, List.cons_append, List.nil_append, List.mem_cons] at hl
  rcases hl with rfl | rfl | rfl | rfl | hl
  · exact isLine_of_notMem (by decide) (by decide)
  · exact isLine_of_notMem (by decide) (by decide)
  · exact isLine_of_notMem (by decide) (by decide)
  · exact haccept _
  · split at hl
    · cases hl
    · obtain rfl := List.mem_singleton.mp hl
      exact hprotocol

theorem contentLength_handshakeAnswer (request : Bytes) :
    contentLength (handshakeAnswer request).lines = 0 := by
  have hnone : ∀ l ∈ (handshakeAnswer request).lines, ¬ contentLengthName <+: l := by
    have hnamed : ∀ (name v : Bytes), name.head? = some (byte 'S') →
        ¬ contentLengthName <+: name ++ v := by
      intro name v hname
      refine not_contentLength ?_
      rw [List.head?_append, hname, Option.some_or]
      decide
    intro l hl
    simp only [handshakeAnswer, List.cons_append, List.nil_append, List.mem_cons] at hl
    rcases hl with rfl | rfl | rfl | rfl | hl
    · decide
    · decide
    · decide
    · exact hnamed _ _ (by decide)
    · split at hl
      · cases hl
      · obtain rfl := List.mem_singleton.mp hl
        exact hnamed _ _ (by decide)
  unfold contentLength
  rw [List.findSome?_eq_none_iff.mpr fun l hl => if_neg (hnone l hl)]
  rfl

section

variable {status contentType : Bytes}

theorem isLine_httpAnswer (code : Int) (body : Bytes) (hstatus : 0x0D ∉ status)
    (htype : 0x0D ∉ contentType) :
    ∀ l ∈ (httpAnswer code status contentType body).lines, IsLine 0x0D 0x0A l := by
  intro l hl
  simp only [httpAnswer, List.mem_cons, List.not_mem_nil, or_false] at hl
  rcases hl with rfl | rfl | rfl | rfl
  · refine isLine_of_notMem (by simp [ascii]) ?_
    simp only [List.mem_append, not_or]
    exact ⟨⟨⟨by decide, notMem_decimal code⟩, by decide⟩, hstatus⟩
  · refine isLine_of_notMem (by simp [ascii]) ?_
    simp only [List.mem_append, not_or]
    exact ⟨⟨by decide, htype⟩, by decide⟩
  · refine isLine_of_notMem (by simp [contentLengthName, ascii]) ?_
    rw [List.mem_append, not_or]
    exact ⟨by decide, notMem_decimal _⟩
  · exact isLine_of_notMem (by decide) (by decide)

theorem contentLength_httpAnswer (code : Int) (status contentType body : Bytes) :
    contentLength (httpAnswer code status contentType body).lines = body.length := by
  have hstatus : ¬ contentLengthName <+:
      ascii "HTTP/1.1 " ++ decimal code ++ ascii " " ++ status := by
    have hhead : (ascii "HTTP/1.1 ").head? = some (byte 'H') := by decide
    refine not_contentLength ?_
    simp only [List.append_assoc, List.head?_append, hhead, Option.some_or]
    decide
  have htype : ¬ contentLengthName <+: ascii "Content-Type: " ++ contentType ++
      ascii "; charset=UTF-8" := by
    rintro ⟨t, ht⟩
    have hcut := congrArg (List.take 9) ht
    rw [List.append_assoc, List.take_append_of_le_length (by decide),
      List.take_append_of_le_length (by decide)] at hcut
    revert hcut
    decide
  simp only [contentLength, httpAnswer, List.findSome?_cons, if_neg hstatus, if_neg htype,
    if_pos (List.prefix_append _ _), List.drop_left, Option.getD_some, ofDigits_readDigits_decimal]

/-! ## 4. What is sent -/

/-- The head of an answer fits its buffer, and its texts are C strings. -/
theorem httpResponse_eq {code : Int} {body : Bytes} (hstatus : cString status = status)
    (htype : cString contentType = contentType)
    (hlen : (Lines.text 0x0D 0x0A (httpAnswer code status contentType body).lines).length ≤ 511) :
    httpResponse code status contentType body =
      (httpAnswer code status contentType body).text := by
  have hhead : ascii "HTTP/1.1 " ++ decimal code ++ ascii " " ++ cString status ++ crlf ++
      ascii "Content-Type: " ++ cString contentType ++ ascii "; charset=UTF-8" ++ crlf ++
      ascii "Content-Length: " ++ decimal body.length ++ crlf ++
      ascii "Connection: close" ++ crlf ++ crlf =
        Lines.text 0x0D 0x0A (httpAnswer code status contentType body).lines := by
    simp only [hstatus, htype, Lines.text, httpAnswer, crlf, contentLengthName, List.flatMap_cons,
      List.flatMap_nil, List.append_assoc, List.append_nil]
  rw [httpResponse, hhead, snprintf, List.take_of_length_le hlen, Answer.text]
  rfl

/-- A number below ten thousand has four digits at most. -/
theorem length_decimal_le {n : Nat} (h : n < 10 ^ 4) : (decimal (n : Int)).length ≤ 4 := by
  rw [decimal, if_neg (Int.not_lt.mpr (Int.natCast_nonneg n)), List.nil_append, Int.natAbs_natCast,
    List.length_map, decimalDigits]
  split
  · decide
  · rw [List.length_reverse]
    exact (Nat.digits_length_le_iff (by decide) n).mpr h

theorem length_discoveryBody (a : Acceptor) : (discoveryBody a).length ≤ 2047 :=
  List.length_take_le _ _

/-- The answer to an upgrade, as it is sent. -/
theorem upgradeResponse_eq (request : Bytes) :
    upgradeResponse request = (handshakeAnswer request).text := by
  unfold upgradeResponse handshakeResponse handshakeAnswer Answer.text Lines.text
  by_cases hprotocol : getHeader request (ascii "Sec-WebSocket-Protocol") = []
  · simp only [hprotocol, if_true, crlf, List.flatMap_cons, List.flatMap_nil, List.append_assoc,
      List.append_nil]
  · simp only [hprotocol, if_false, crlf, List.flatMap_cons, List.flatMap_nil, List.append_assoc,
      List.append_nil, List.cons_append, List.nil_append]

/-- The answers to the discovery requests, and to the unknown ones, as they are sent. -/
theorem httpResponse_ok {body : Bytes} (hbody : body.length < 10 ^ 4) :
    httpResponse 200 (ascii "OK") (ascii "application/json") body =
      (httpAnswer 200 (ascii "OK") (ascii "application/json") body).text := by
  refine httpResponse_eq (by decide) (by decide) ?_
  have hdigits := length_decimal_le hbody
  have hcode : (decimal 200).length = 3 := by decide +kernel
  simp only [Lines.text, httpAnswer, List.flatMap_cons, List.flatMap_nil, List.length_append,
    List.length_cons, List.length_nil, hcode]
  have hlens : (ascii "HTTP/1.1 ").length = 9 ∧ (ascii " ").length = 1 ∧ (ascii "OK").length = 2 ∧
      (ascii "Content-Type: ").length = 14 ∧ (ascii "application/json").length = 16 ∧
      (ascii "; charset=UTF-8").length = 15 ∧ contentLengthName.length = 16 ∧
      (ascii "Connection: close").length = 17 := by decide
  omega

theorem httpResponse_notFound :
    httpResponse 404 (ascii "Not Found") (ascii "text/plain") (ascii "Not Found") =
      (httpAnswer 404 (ascii "Not Found") (ascii "text/plain") (ascii "Not Found")).text :=
  httpResponse_eq (by decide) (by decide) (by decide +kernel)

end

/-! ## 5. Every connection -/

/-- What one `::send` puts on the wire is the front of the text, and all of it when the system
takes that much. -/
theorem sendOnce_spec {accepted : Nat} {text : Bytes} (hlen : text.length < 2 ^ 31) :
    (sendOnce accepted text).2 <+: text ∧
      (text.length ≤ accepted → (sendOnce accepted text).2 = text) := by
  unfold sendOnce
  refine ⟨List.take_prefix _ _, fun h => ?_⟩
  simp only [sizeArg_of_lt hlen, min_eq_right h, List.take_length]

theorem length_handshakeAnswer (s : List Bytes) :
    (handshakeAnswer (readHttpRequest s).1).text.length < 2 ^ 31 := by
  rw [← upgradeResponse_eq]
  have hresponse := length_handshakeResponse
    (getHeader (readHttpRequest s).1 (ascii "Sec-WebSocket-Key"))
    (getHeader (readHttpRequest s).1 (ascii "Sec-WebSocket-Protocol"))
  have hprotocol := length_getHeader (readHttpRequest s).1 (ascii "Sec-WebSocket-Protocol")
  have hrequest := length_readHttpRequest s
  rw [upgradeResponse]
  omega

/-- An answer is well formed: it is read back from what it is sent as. -/
theorem readResponse_answer (a : Acceptor) (request rest : Bytes) :
    readResponse ((a.answer request).text ++ rest) =
      some ((a.answer request).lines, (a.answer request).body, rest) := by
  unfold Acceptor.answer
  split
  · exact readResponse_text (isLine_handshakeAnswer request)
      (contentLength_handshakeAnswer request) _
  · split
    · exact readResponse_text (isLine_httpAnswer _ _ (by decide) (by decide))
        (contentLength_httpAnswer _ _ _ _) _
    · split
      · exact readResponse_text (isLine_httpAnswer _ _ (by decide) (by decide))
          (contentLength_httpAnswer _ _ _ _) _
      · exact readResponse_text (isLine_httpAnswer _ _ (by decide) (by decide))
          (contentLength_httpAnswer _ _ _ _) _

/-- What goes out is the answer, or the front of it: nothing of an upgrade without a key. -/
structure Answered (m : Answer) (accepts : Nat) (done : Bool) (wire : Bytes) : Prop where
  front : wire <+: m.text
  whole : done = true ∨ wire ≠ [] ∧ m.text.length ≤ accepts → wire = m.text

theorem answered_once {m : Answer} {accepts : Nat} {done : Bool} (hlen : m.text.length < 2 ^ 31)
    (hdone : done = true → (sendOnce accepts m.text).1 = true) :
    Answered m accepts done (sendOnce accepts m.text).2 := by
  refine ⟨(sendOnce_spec hlen).1, ?_⟩
  rintro (h | ⟨-, h⟩)
  · exact sendOnce_eq_true hlen (hdone h)
  · exact (sendOnce_spec hlen).2 h

theorem length_httpResponse (code : Int) (status contentType body : Bytes) :
    (httpResponse code status contentType body).length ≤ 511 + body.length := by
  rw [httpResponse, List.length_append]
  exact Nat.add_le_add_right (List.length_take_le _ _) _

/-- A discovery request is sent its answer. -/
theorem answered_http {code : Int} {status contentType body : Bytes} (accepts : Nat)
    (hbody : body.length < 10 ^ 4)
    (heq : httpResponse code status contentType body =
      (httpAnswer code status contentType body).text) :
    Answered (httpAnswer code status contentType body) accepts false
      (sendHttpResponse accepts code status contentType body) := by
  have hlen := length_httpResponse code status contentType body
  rw [sendHttpResponse, heq] at *
  exact answered_once (by omega) (fun h => by cases h)

/-- One connection is sent its answer. -/
theorem answered_serve (a : Acceptor) (k : Nat) (c : Incoming) {j : Nat} {wire : Bytes}
    (h : .use j wire ∈ (serve a k c).2.2) :
    j = k ∧ Answered (a.answer (readHttpRequest c.stream).1) c.accepts (serve a k c).1 wire := by
  have hversion : versionBody.length < 10 ^ 4 := by decide
  have hdiscovery : (discoveryBody a).length < 10 ^ 4 :=
    (length_discoveryBody a).trans_lt (by decide)
  have hrequest := length_handshakeAnswer c.stream
  unfold serve at h ⊢
  unfold Acceptor.answer
  generalize hr : (readHttpRequest c.stream).1 = request at h ⊢ hrequest
  by_cases hread : request = []
  · simp [hread] at h
  by_cases hupgrade : toLower (getHeader request (ascii "Upgrade")) = ascii "websocket"
  · simp only [hread, hupgrade, if_true, if_false] at h ⊢
    by_cases hkey : getHeader request (ascii "Sec-WebSocket-Key") = []
    · -- without a key nothing is sent
      simp only [doWebsocketHandshake, hkey, if_true, List.mem_cons, List.not_mem_nil, or_false,
        Handles.HandleEvent.use.injEq, reduceCtorEq] at h ⊢
      obtain ⟨rfl, rfl⟩ := h
      exact ⟨rfl, List.nil_prefix, fun h => by simp at h⟩
    · have hsend : doWebsocketHandshake c.accepts request =
          sendOnce c.accepts (handshakeAnswer request).text := by
        rw [doWebsocketHandshake, if_neg hkey, ← upgradeResponse_eq]
        rfl
      rw [hsend] at h ⊢
      cases hok : (sendOnce c.accepts (handshakeAnswer request).text).1 with
      | false =>
        simp only [hok, if_true, List.mem_cons, List.not_mem_nil, or_false,
          Handles.HandleEvent.use.injEq, reduceCtorEq] at h ⊢
        obtain ⟨rfl, rfl⟩ := h
        exact ⟨rfl, answered_once hrequest fun h => by cases h⟩
      | true =>
        simp only [hok, Bool.true_eq_false, if_false, List.mem_cons, List.not_mem_nil, or_false,
          Handles.HandleEvent.use.injEq] at h ⊢
        obtain ⟨rfl, rfl⟩ := h
        exact ⟨rfl, answered_once hrequest fun _ => hok⟩
  · simp only [hread, hupgrade, if_false] at h ⊢
    split at h
    · rename_i hpath
      simp only [hpath, if_true, List.mem_cons, List.not_mem_nil, or_false,
        Handles.HandleEvent.use.injEq, reduceCtorEq] at h ⊢
      obtain ⟨rfl, rfl⟩ := h
      exact ⟨rfl, answered_http _ hversion (httpResponse_ok hversion)⟩
    · rename_i hpath
      split at h
      · rename_i hlist
        simp only [hpath, hlist, if_true, if_false, List.mem_cons, List.not_mem_nil, or_false,
          Handles.HandleEvent.use.injEq, reduceCtorEq] at h ⊢
        obtain ⟨rfl, rfl⟩ := h
        exact ⟨rfl, answered_http _ hdiscovery (httpResponse_ok hdiscovery)⟩
      · rename_i hlist
        simp only [hpath, hlist, if_false, List.mem_cons, List.not_mem_nil, or_false,
          Handles.HandleEvent.use.injEq, reduceCtorEq] at h ⊢
        obtain ⟨rfl, rfl⟩ := h
        exact ⟨rfl, answered_http _ (by decide) httpResponse_notFound⟩

/-- A socket that the loop comes back with is one of its own. -/
theorem le_of_clientSock {a : Acceptor} (hsock : a.clientSock = none) {k j : Nat}
    {conns : List (Option Incoming)} (h : (acceptLoop a k conns).2.1.clientSock = some j) :
    k ≤ j := by
  induction conns generalizing k with
  | nil => rw [acceptLoop, hsock] at h; cases h
  | cons conn conns ih =>
    cases conn with
    | none => rw [acceptLoop, hsock] at h; cases h
    | some c =>
      rcases serve_cases hsock k c with ⟨sent, hserve⟩ | ⟨log, hserve, -⟩
      · simp only [acceptLoop, hserve, Bool.false_eq_true, if_false] at h
        exact (Nat.le_succ k).trans (ih h)
      · simp only [acceptLoop, hserve, if_true, Option.some.injEq] at h
        exact h.le

/-- Each socket of the loop is sent the answer to the request that it brought. -/
theorem answered_acceptLoop {a : Acceptor} (hsock : a.clientSock = none) {k j : Nat} {wire : Bytes}
    {conns : List (Option Incoming)} (h : .use j wire ∈ (acceptLoop a k conns).2.2) :
    ∃ i c, j = k + i ∧ conns[i]? = some (some c) ∧
      Answered (a.answer (readHttpRequest c.stream).1) c.accepts
        (decide ((acceptLoop a k conns).2.1.clientSock = some j)) wire := by
  induction conns generalizing k with
  | nil => cases h
  | cons conn conns ih =>
    cases conn with
    | none => cases h
    | some c =>
      have hsent := fun hj => @answered_serve a k c j wire hj
      rcases serve_cases hsock k c with ⟨sent, hserve⟩ | ⟨log, hserve, -⟩
      · simp only [acceptLoop, hserve, Bool.false_eq_true, if_false, List.mem_cons,
          List.mem_append, reduceCtorEq, false_or] at h hsent ⊢
        rcases h with h | h
        · -- this connection was closed, and another one may have become the client
          obtain ⟨rfl, hfront, hwhole⟩ := hsent h
          refine ⟨0, c, rfl, rfl, hfront, ?_⟩
          rintro (hclient | hroom)
          · have hle := le_of_clientSock hsock (of_decide_eq_true hclient)
            exact absurd hle (Nat.not_succ_le_self j)
          · exact hwhole (Or.inr hroom)
        · obtain ⟨i, c', rfl, hget, h⟩ := ih h
          exact ⟨i + 1, c', by omega, hget, h⟩
      · simp only [acceptLoop, hserve, if_true, List.mem_cons, reduceCtorEq, false_or] at h hsent ⊢
        obtain ⟨rfl, hfront, hwhole⟩ := hsent h
        exact ⟨0, c, rfl, rfl, hfront, fun _ => hwhole (Or.inl rfl)⟩

end QjsDebug.Ws
