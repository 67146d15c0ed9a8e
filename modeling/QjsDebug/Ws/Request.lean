/-
# Where the request ends

`read_http_request` receives one byte at a time until what it has ends with an empty line, the bytes
CR LF CR LF, and gives up at 8192 bytes or when `recv` does.  The bytes behind the empty line
belong to the WebSocket, whose first frame may have come along in the same packet.

`IsHead bytes p` is what it looks for: the shortest prefix that ends with an empty line.  The loop
holds no head (`readHttpRequestFrom_spec`), so the first time its test succeeds it has read the
shortest one, and nothing behind it (`request_is_head`).
-/
import QjsDebug.Ws.Handshake

namespace QjsDebug.Ws

open ByteStream

/-! ## 1. The head of a request -/

/-- An empty line behind the end of another. -/
def emptyLine : Bytes := crlf ++ crlf

/-- The shortest prefix that ends with an empty line. -/
def IsHead (bytes p : Bytes) : Prop :=
  p <+: bytes ∧ emptyLine <:+ p ∧
    ∀ q, q <+: bytes → emptyLine <:+ q → p.length ≤ q.length

/-- There is one at most. -/
theorem IsHead.unique {bytes p q : Bytes} (hp : IsHead bytes p) (hq : IsHead bytes q) : p = q := by
  obtain ⟨hpre, hend, hleast⟩ := hp
  obtain ⟨hpre', hend', hleast'⟩ := hq
  have hlen : p.length = q.length :=
    Nat.le_antisymm (hleast q hpre' hend') (hleast' p hpre hend)
  exact (List.prefix_of_prefix_length_le hpre hpre' hlen.le).eq_of_length hlen

/-- No prefix ends with an empty line. -/
def Headless (request : Bytes) : Prop := ∀ q, q <+: request → ¬ emptyLine <:+ q

theorem headless_nil : Headless [] := by
  intro q hq hend
  rw [List.prefix_nil.mp hq] at hend
  exact absurd hend.length_le (by decide)

/-- One byte more is the head, or there is still none. -/
theorem Headless.snoc {request : Bytes} (h : Headless request) {c : UInt8}
    (hend : ¬ emptyLine <:+ request ++ [c]) : Headless (request ++ [c]) := by
  intro q hq hq'
  rcases List.prefix_concat_iff.mp hq with rfl | hq
  · exact hend hq'
  · exact h q hq hq'

/-- Whatever has an empty line goes on behind a text that has none. -/
theorem Headless.lt_length {request bytes q : Bytes} (h : Headless request)
    (hpre : request <+: bytes) (hq : q <+: bytes) (hend : emptyLine <:+ q) :
    request.length < q.length := by
  by_contra hle
  exact h q (List.prefix_of_prefix_length_le hq hpre (Nat.le_of_not_lt hle)) hend

/-- The test of the loop. -/
theorem ends_iff (request : Bytes) :
    (4 ≤ request.length ∧ request.drop (request.length - 4) = crlf ++ crlf) ↔
      emptyLine <:+ request := by
  constructor
  · rintro ⟨-, heq⟩
    exact ⟨request.take (request.length - 4), by rw [emptyLine, ← heq, List.take_append_drop]⟩
  · rintro ⟨front, rfl⟩
    have hlen : (front ++ emptyLine).length - 4 = front.length := by
      rw [List.length_append]
      exact Nat.add_sub_cancel _ 4
    refine ⟨?_, ?_⟩
    · rw [List.length_append]
      exact Nat.le_add_left 4 _
    · rw [hlen, List.drop_left]
      rfl

/-! ## 2. One byte of a stream -/

/-- What a stream delivers until it ends or `recv` returns zero, which is an empty chunk. -/
def delivered (s : List Bytes) : Bytes := (s.takeWhile fun c => !c.isEmpty).flatten

/-- A byte received is the next one delivered. -/
theorem read_one {s s' : List Bytes} {c : UInt8} {more : Bytes}
    (h : read 1 s = some (c :: more, s')) :
    s.flatten = c :: s'.flatten ∧ delivered s = c :: delivered s' := by
  cases s with
  | nil => exact absurd h (by simp [ByteStream.read])
  | cons chunk s =>
    cases chunk with
    | nil => exact absurd h (by simp [ByteStream.read])
    | cons b rest =>
      simp only [ByteStream.read, List.length_cons] at h
      split at h
      · rename_i hle
        obtain rfl := List.length_eq_zero_iff.mp (Nat.le_zero.mp (Nat.le_of_succ_le_succ hle))
        obtain ⟨⟨rfl, -⟩, rfl⟩ : (b = c ∧ [] = more) ∧ s = s' := by simpa using h
        exact ⟨rfl, by simp [delivered]⟩
      · rename_i hlt
        obtain ⟨⟨rfl, -⟩, rfl⟩ : (b = c ∧ [] = more) ∧ rest :: s = s' := by simpa using h
        have hrest : rest ≠ [] := by
          rintro rfl
          exact hlt (Nat.le_refl 1)
        exact ⟨rfl, by simp [delivered, hrest]⟩

/-- What is read and what is still to come, after one more byte. -/
theorem append_delivered {request : Bytes} {s s' : List Bytes} {c : UInt8} {more : Bytes}
    (h : read 1 s = some (c :: more, s')) :
    request ++ delivered s = request ++ [c] ++ delivered s' := by
  rw [(read_one h).2]
  exact List.append_cons _ _ _

/-- Where no byte is received none is delivered. -/
theorem delivered_eq_nil {s : List Bytes}
    (h : ∀ c more s', read 1 s ≠ some (c :: more, s')) : delivered s = [] := by
  cases s with
  | nil => rfl
  | cons chunk s =>
    cases chunk with
    | nil => rfl
    | cons b rest =>
      by_cases hle : (b :: rest).length ≤ 1
      · exact absurd (if_pos hle) (h b rest s)
      · exact absurd (if_neg hle) (h b [] (rest :: s))

/-! ## 3. The loop -/

/-- What the loop comes to, with `consumed` taken off the stream: the head, or nothing when there
is none in 8192 bytes. -/
def Stops (request : Bytes) (s : List Bytes) (r : Bytes × List Bytes) (consumed : Bytes) : Prop :=
  s.flatten = consumed ++ r.2.flatten ∧ (request ++ consumed).length ≤ 8192 ∧
    ((r.1 = request ++ consumed ∧ IsHead (request ++ delivered s) r.1) ∨
      (r.1 = [] ∧ ∀ p, IsHead (request ++ delivered s) p → 8192 < p.length))

/-- When nothing more comes, there is no head. -/
theorem Headless.not_head {request : Bytes} (h : Headless request) {s : List Bytes}
    (hnil : delivered s = []) : ∀ p, IsHead (request ++ delivered s) p → 8192 < p.length := by
  rintro p ⟨hpre, hend, -⟩
  rw [hnil, List.append_nil] at hpre
  exact absurd hend (h p hpre)

/-- **The loop stops at the head**, from any text without one. -/
theorem readHttpRequestFrom_spec (request : Bytes) (s : List Bytes) (hno : Headless request)
    (hlen : request.length ≤ 8192) :
    ∃ consumed, Stops request s (readHttpRequestFrom request s) consumed := by
  fun_induction readHttpRequestFrom request s with
  | case1 request s hlt c more s' hread request' htest =>
    have hflat := (read_one hread).1
    have hbytes : request ++ delivered s = request' ++ delivered s' := append_delivered hread
    refine ⟨[c], hflat, ?_, .inl ⟨rfl, ?_⟩⟩
    · rw [List.length_append]
      exact hlt
    · refine ⟨hbytes ▸ List.prefix_append _ _, (ends_iff request').mp htest, fun q hq hend => ?_⟩
      have hlonger := hno.lt_length (List.prefix_append _ _) hq hend
      rw [List.length_append]
      exact hlonger
  | case2 request s hlt c more s' hread request' htest ih =>
    have hflat := (read_one hread).1
    have hbytes : request ++ delivered s = request' ++ delivered s' := append_delivered hread
    have hno' : Headless request' := hno.snoc fun hend => htest ((ends_iff request').mpr hend)
    have hlen' : request'.length ≤ 8192 := by
      rw [List.length_append]
      exact hlt
    obtain ⟨consumed, hrest, hmax, hout⟩ := ih hno' hlen'
    refine ⟨c :: consumed, ?_, ?_, ?_⟩
    · rw [hflat, hrest, List.cons_append]
    · rw [List.append_cons]
      exact hmax
    · rw [hbytes, List.append_cons]
      exact hout
  | case3 request s hlt s' hread =>
    have hnil : delivered s = [] := delivered_eq_nil fun c more s'' h => by
      rw [hread] at h
      exact absurd h (by simp)
    exact ⟨[], read_append hread, by rwa [List.append_nil], .inr ⟨rfl, hno.not_head hnil⟩⟩
  | case4 request s hlt hread =>
    have hnil : delivered s = [] := delivered_eq_nil fun c more s' h => by
      rw [hread] at h
      exact absurd h (by simp)
    exact ⟨[], rfl, by rwa [List.append_nil], .inr ⟨rfl, hno.not_head hnil⟩⟩
  | case5 request s hfull =>
    refine ⟨[], rfl, by rwa [List.append_nil], .inr ⟨rfl, fun p hp => ?_⟩⟩
    have hlonger := hno.lt_length (List.prefix_append _ _) hp.1 hp.2.1
    omega

/-- **`read_http_request` stops exactly at the end of the head.**  For every stream and every point
at which it ends or fails: the head of what it delivers is returned when it has at most 8192
bytes, and exactly its bytes are gone from the stream; otherwise the empty string is returned, and
at most 8192 bytes are gone. -/
theorem request_is_head (s : List Bytes) :
    (∀ p, IsHead (delivered s) p → p.length ≤ 8192 →
        (readHttpRequest s).1 = p ∧ s.flatten = p ++ (readHttpRequest s).2.flatten) ∧
      ((∀ p, IsHead (delivered s) p → 8192 < p.length) →
        (readHttpRequest s).1 = [] ∧ ∃ consumed : Bytes, consumed.length ≤ 8192 ∧
          s.flatten = consumed ++ (readHttpRequest s).2.flatten) := by
  obtain ⟨consumed, hflat, hmax, hout⟩ :=
    readHttpRequestFrom_spec [] s headless_nil (Nat.zero_le _)
  rw [List.nil_append] at hmax hout
  rw [List.nil_append] at hout
  constructor
  · intro p hp hlen
    rcases hout with ⟨heq, hhead⟩ | ⟨-, hlong⟩
    · obtain rfl := hp.unique hhead
      exact ⟨rfl, by rw [readHttpRequest, heq]; exact hflat⟩
    · exact absurd hlen (Nat.not_le.mpr (hlong p hp))
  · intro hlong
    rcases hout with ⟨heq, hhead⟩ | ⟨hnil, -⟩
    · have hlt := hlong _ hhead
      rw [heq] at hlt
      exact absurd hmax (Nat.not_le.mpr hlt)
    · exact ⟨hnil, consumed, hmax, hflat⟩

/-- The shortest head there is, cut by packets, with the first bytes of a frame behind it. -/
theorem request_is_head_cut :
    (readHttpRequest [[0x0D], [0x0A, 0x0D], [0x0A, 0x81], [0x00]]).1 = emptyLine ∧
      ([[0x0D], [0x0A, 0x0D], [0x0A, 0x81], [0x00]] : List Bytes).flatten =
        emptyLine ++ (readHttpRequest [[0x0D], [0x0A, 0x0D], [0x0A, 0x81], [0x00]]).2.flatten := by
  refine (request_is_head _).1 emptyLine ⟨?_, List.suffix_refl _, fun q _ hend => ?_⟩ (by decide)
  · exact ⟨[0x81, 0x00], rfl⟩
  · exact hend.length_le

end QjsDebug.Ws
