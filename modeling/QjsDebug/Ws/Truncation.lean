/-
# When a send fails

`send_ws_frame` returns `false` when `::send` takes the header in part or fails, and when it fails
anywhere in the payload.  What has gone out by then has gone out.  `receive` gives the connection
up when a read fails; `send` does not when a write does, and hands the next message to the same
socket.

So a frame that was cut short may be followed by others, which the client takes for the rest of it.
`poisons_iff` says for every behaviour of the operating system whether that happens.
-/
import QjsDebug.Ws.Sending

namespace QjsDebug.Ws

open scoped List

/-! ## 1. Sequences of calls -/

/-- What `send` reads and writes, the socket being open. -/
structure Connection where
  connected : Bool
  stream : Bytes
  deriving DecidableEq, Repr

/-- A call of `send`, with the amounts that the calls of `::send` in it accept; 0 is an error. -/
structure SendCall where
  os : List Nat
  message : Bytes
  deriving DecidableEq, Repr

structure SendOutcome where
  ok : Bool
  written : Bytes
  deriving DecidableEq, Repr

/-- `send_ws_frame(0x01, message)`. -/
def SendCall.outcome (call : SendCall) : SendOutcome :=
  let r := sendWsFrame call.os 0x01 call.message
  ⟨r.1, r.2⟩

/-- `send`. -/
def Connection.send (c : Connection) (call : SendCall) : SendOutcome × Connection :=
  if c.connected then (call.outcome, { c with stream := c.stream ++ call.outcome.written })
  else (⟨false, []⟩, c)

/-- Calls of `send`, in the order of the lock. -/
def Connection.sendAll : Connection → List SendCall → List SendOutcome × Connection
  | c, [] => ([], c)
  | c, call :: calls =>
    let r := c.send call
    let rest := r.2.sendAll calls
    (r.1 :: rest.1, rest.2)

/-- The call failed with part of its frame written. -/
def SendOutcome.Cut (o : SendOutcome) : Prop := o.ok = false ∧ o.written ≠ []

/-- The call failed and wrote nothing. -/
def SendOutcome.Refused (o : SendOutcome) : Prop := o.ok = false ∧ o.written = []

/-- The frame of a message. -/
def textFrame (message : Bytes) : Bytes := (Job.text message).frame

/-- Whole frames of some of the messages, and at most one that is cut short. -/
def WholeButLast (messages : List Bytes) (stream : Bytes) : Prop :=
  ∃ whole tail, whole <+ messages ∧ stream = whole.flatMap textFrame ++ tail ∧
    (tail = [] ∨ ∃ m ∈ messages, tail <+: textFrame m ∧ tail ≠ textFrame m)

/-- Behind a frame that was cut short nothing is written, so that the calls leave whole frames and
at most one that is cut. -/
structure Poisons (c : Connection) (calls : List SendCall) : Prop where
  silent : (c.sendAll calls).1.Pairwise fun o o' => o.Cut → o'.Refused
  stream : ∃ sent, (c.sendAll calls).2.stream = c.stream ++ sent ∧
    WholeButLast (calls.map SendCall.message) sent

/-! ## 2. The condition -/

/-- The system takes `n` bytes of payload, an amount at a time. -/
def drains : List Nat → Nat → Bool
  | _, 0 => true
  | [], _ + 1 => false
  | accepted :: os, n + 1 =>
    min accepted (sizeArg (n + 1)) != 0 &&
      drains os (n + 1 - min accepted (sizeArg (n + 1)))

/-- The system takes something of the frame, but not all of it: a part of the header, or the header
and not the payload. -/
def SendCall.cutShort (call : SendCall) : Bool :=
  match call.os with
  | [] => false
  | accepted :: os =>
    0 < accepted && (accepted < (frameHeader 0x01 call.message.length).length ||
      !drains os call.message.length)

/-- The system takes nothing of the frame. -/
def SendCall.shutOut (call : SendCall) : Bool := call.os.headD 0 == 0

/-- Below `2 ^ 31` bytes: the amounts before the first error add up to the payload. -/
theorem drains_iff {os : List Nat} {n : Nat} (hn : n < 2 ^ 31) :
    drains os n = true ↔ n ≤ (os.takeWhile (· != 0)).sum := by
  induction os generalizing n with
  | nil => cases n <;> simp [drains]
  | cons accepted os ih =>
    cases n with
    | zero => simp [drains]
    | succ n =>
      have hsize : sizeArg (n + 1) = n + 1 := sizeArg_of_lt hn
      simp only [drains, hsize, Bool.and_eq_true, bne_iff_ne, ne_eq]
      by_cases hzero : accepted = 0
      · simp [hzero]
      · rw [ih (by omega), List.takeWhile_cons_of_pos (by simpa using hzero), List.sum_cons]
        omega

/-! ## 3. What a call comes to -/

theorem drains_eq (os : List Nat) (data : Bytes) :
    drains os data.length = (sendPayload os data).1 := by
  induction os generalizing data with
  | nil => cases data <;> rfl
  | cons accepted os ih =>
    cases data with
    | nil => rfl
    | cons b rest =>
      simp only [List.length_cons, drains, sendPayload]
      split
      · rename_i hzero
        simp [hzero]
      · rename_i hzero
        rw [← ih, List.length_drop, List.length_cons]
        simp [hzero]

/-- A loop over the payload that fails has written some of it, but not all. -/
theorem sendPayload_cut {os : List Nat} {data : Bytes} (h : (sendPayload os data).1 = false) :
    (sendPayload os data).2 <+: data ∧ (sendPayload os data).2.length < data.length := by
  induction os generalizing data with
  | nil =>
    cases data with
    | nil => cases h
    | cons b rest => exact ⟨List.nil_prefix, Nat.succ_pos _⟩
  | cons accepted os ih =>
    cases data with
    | nil => cases h
    | cons b rest =>
      simp only [sendPayload] at h ⊢
      split
      · exact ⟨List.nil_prefix, Nat.succ_pos _⟩
      · rename_i hn
        rw [if_neg hn] at h
        generalize min accepted (sizeArg (b :: rest).length) = n at h hn
        obtain ⟨⟨rest', hrest'⟩, hlen⟩ := ih h
        refine ⟨⟨rest', ?_⟩, ?_⟩
        · rw [List.append_assoc, hrest', List.take_append_drop]
        · have hwhole := congrArg List.length (List.take_append_drop n (b :: rest))
          simp only [List.length_append] at hwhole ⊢
          omega

theorem length_frameHeader_pos (opcode : UInt8) (len : Nat) :
    0 < (frameHeader opcode len).length := by
  unfold frameHeader
  simp only
  split
  · exact Nat.succ_pos _
  · split <;> exact Nat.succ_pos _

/-- A header that is not taken whole ends the call. -/
theorem outcome_of_short {accepted : Nat} {os : List Nat} {message : Bytes}
    (h : accepted < (frameHeader 0x01 message.length).length) :
    SendCall.outcome ⟨accepted :: os, message⟩ =
      ⟨false, (frameHeader 0x01 message.length).take accepted⟩ := by
  have hne : min accepted (frameHeader 0x01 message.length).length ≠
      (frameHeader 0x01 message.length).length := by omega
  simp only [SendCall.outcome, sendWsFrame, if_pos hne]

/-- Behind a whole header the payload decides. -/
theorem outcome_of_header {accepted : Nat} {os : List Nat} {message : Bytes}
    (h : ¬ accepted < (frameHeader 0x01 message.length).length) :
    SendCall.outcome ⟨accepted :: os, message⟩ =
      ⟨(sendPayload os message).1,
        frameHeader 0x01 message.length ++ (sendPayload os message).2⟩ := by
  have heq : ¬ min accepted (frameHeader 0x01 message.length).length ≠
      (frameHeader 0x01 message.length).length := by omega
  simp only [SendCall.outcome, sendWsFrame, if_neg heq]

/-- A call that is shut out: nothing of its frame is taken, and it says so. -/
theorem refused_of_shutOut {call : SendCall} (h : call.shutOut = true) : call.outcome.Refused := by
  obtain ⟨os, message⟩ := call
  cases os with
  | nil => exact ⟨rfl, rfl⟩
  | cons accepted os =>
    obtain rfl : accepted = 0 := by simpa [SendCall.shutOut] using h
    rw [outcome_of_short (length_frameHeader_pos _ _)]
    exact ⟨rfl, rfl⟩

theorem cut_of_cutShort {call : SendCall} (h : call.cutShort = true) :
    call.outcome.Cut ∧ call.outcome.written <+: textFrame call.message ∧
      call.outcome.written ≠ textFrame call.message := by
  obtain ⟨os, message⟩ := call
  have hpos := length_frameHeader_pos 0x01 message.length
  cases os with
  | nil => cases h
  | cons accepted os =>
    simp only [SendCall.cutShort, Bool.and_eq_true, Bool.or_eq_true, decide_eq_true_eq,
      Bool.not_eq_true'] at h
    obtain ⟨hacc, h⟩ := h
    by_cases hshort : accepted < (frameHeader 0x01 message.length).length
    · rw [outcome_of_short hshort]
      refine ⟨⟨rfl, ?_⟩, ?_, ?_⟩
      · intro hnil
        have hlen := congrArg List.length hnil
        simp only [List.length_take, List.length_nil] at hlen
        omega
      · exact (List.take_prefix _ _).trans (List.prefix_append _ _)
      · intro hwhole
        have hlen := congrArg List.length hwhole
        simp only [List.length_take, textFrame, Job.frame, Job.text, List.length_append] at hlen
        omega
    · have hfail : (sendPayload os message).1 = false := by
        rw [← drains_eq]
        exact h.resolve_left hshort
      obtain ⟨hpre, hlt⟩ := sendPayload_cut hfail
      rw [outcome_of_header hshort]
      refine ⟨⟨hfail, ?_⟩, (List.prefix_append_right_inj _).mpr hpre, ?_⟩
      · intro hnil
        rw [(List.append_eq_nil_iff.mp hnil).1] at hpos
        exact absurd hpos (by simp)
      · intro hwhole
        have hlen := congrArg List.length (List.append_cancel_left hwhole)
        simp only [Job.text] at hlen
        omega

/-- Any other call has its frame taken whole. -/
theorem whole_of_taken {call : SendCall} (hin : call.shutOut = false)
    (hall : call.cutShort = false) :
    call.outcome = ⟨true, textFrame call.message⟩ := by
  obtain ⟨os, message⟩ := call
  cases os with
  | nil => cases hin
  | cons accepted os =>
    have hacc : 0 < accepted := by
      have : accepted ≠ 0 := by simpa [SendCall.shutOut] using hin
      omega
    have hdone : ¬ accepted < (frameHeader 0x01 message.length).length ∧
        drains os message.length = true := by
      simpa [SendCall.cutShort, hacc] using hall
    rw [drains_eq] at hdone
    rw [outcome_of_header hdone.1, hdone.2, sendPayload_wire hdone.2]
    rfl

theorem refused_iff {call : SendCall} : call.outcome.Refused ↔ call.shutOut = true := by
  constructor
  · intro h
    by_contra hin
    rw [Bool.not_eq_true] at hin
    cases hall : call.cutShort with
    | true => exact (cut_of_cutShort hall).1.2 h.2
    | false =>
      rw [whole_of_taken hin hall] at h
      exact absurd h.1 (by simp)
  · exact refused_of_shutOut

theorem cut_iff {call : SendCall} : call.outcome.Cut ↔ call.cutShort = true := by
  constructor
  · intro h
    by_contra hall
    rw [Bool.not_eq_true] at hall
    cases hin : call.shutOut with
    | true => exact h.2 (refused_of_shutOut hin).2
    | false =>
      rw [whole_of_taken hin hall] at h
      exact absurd h.1 (by simp)
  · exact fun h => (cut_of_cutShort h).1

/-! ## 4. Sequences -/

/-- `connected_` stays as it is, and each call does what it would do by itself. -/
theorem sendAll_open (stream : Bytes) (calls : List SendCall) :
    Connection.sendAll ⟨true, stream⟩ calls =
      (calls.map SendCall.outcome,
        ⟨true, stream ++ calls.flatMap fun call => call.outcome.written⟩) := by
  induction calls generalizing stream with
  | nil => simp [Connection.sendAll]
  | cons call calls ih =>
    simp only [Connection.sendAll, Connection.send, if_true, ih, List.map_cons, List.flatMap_cons,
      List.append_assoc]

/-- Nothing is sent on a connection that was given up. -/
theorem sendAll_closed (stream : Bytes) (calls : List SendCall) :
    Connection.sendAll ⟨false, stream⟩ calls =
      (calls.map fun _ => ⟨false, []⟩, ⟨false, stream⟩) := by
  induction calls with
  | nil => rfl
  | cons call calls ih =>
    simp only [Connection.sendAll, Connection.send, Bool.false_eq_true, if_false, ih, List.map_cons]

theorem WholeButLast.nil (messages : List Bytes) : WholeButLast messages [] :=
  ⟨[], [], List.nil_sublist _, rfl, .inl rfl⟩

/-- A message of which nothing is sent. -/
theorem WholeButLast.skip {messages : List Bytes} {stream : Bytes}
    (h : WholeButLast messages stream) (m : Bytes) : WholeButLast (m :: messages) stream := by
  obtain ⟨whole, tail, hsub, hstream, htail⟩ := h
  refine ⟨whole, tail, hsub.trans (List.sublist_cons_self _ _), hstream, ?_⟩
  rcases htail with htail | ⟨m', hm', htail⟩
  · exact .inl htail
  · exact .inr ⟨m', List.mem_cons_of_mem _ hm', htail⟩

theorem WholeButLast.whole {messages : List Bytes} {stream : Bytes}
    (h : WholeButLast messages stream) (m : Bytes) :
    WholeButLast (m :: messages) (textFrame m ++ stream) := by
  obtain ⟨whole, tail, hsub, rfl, htail⟩ := h
  refine ⟨m :: whole, tail, hsub.cons_cons m, ?_, ?_⟩
  · rw [List.flatMap_cons, List.append_assoc]
  · rcases htail with htail | ⟨m', hm', htail⟩
    · exact .inl htail
    · exact .inr ⟨m', List.mem_cons_of_mem _ hm', htail⟩

/-- The condition: whenever the system cuts a frame short, it shuts out all frames behind it. -/
def Spared (calls : List SendCall) : Prop :=
  calls.Pairwise fun call call' => call.cutShort = true → call'.shutOut = true

/-- What calls leave behind under the condition.  The first frame that is cut short is the last
of which anything is written. -/
theorem wholeButLast_of_spared {calls : List SendCall} (h : Spared calls) :
    WholeButLast (calls.map SendCall.message)
      (calls.flatMap fun call => call.outcome.written) := by
  induction calls with
  | nil => exact .nil _
  | cons call calls ih =>
    obtain ⟨hfirst, hrest⟩ := List.pairwise_cons.mp h
    rw [List.map_cons, List.flatMap_cons]
    cases hin : call.shutOut with
    | true =>
      rw [(refused_of_shutOut hin).2, List.nil_append]
      exact (ih hrest).skip _
    | false =>
      cases hall : call.cutShort with
      | true =>
        have hnone : (calls.flatMap fun call => call.outcome.written) = [] := by
          refine List.flatMap_eq_nil_iff.mpr fun call' hcall' => ?_
          exact (refused_of_shutOut (hfirst call' hcall' hall)).2
        rw [hnone, List.append_nil]
        exact ⟨[], call.outcome.written, List.nil_sublist _, rfl,
          .inr ⟨call.message, List.mem_cons_self, (cut_of_cutShort hall).2⟩⟩
      | false =>
        rw [whole_of_taken hin hall]
        exact (ih hrest).whole _

/-- **A failed send poisons the connection exactly when the operating system does it**: for every
behaviour of `::send` and every sequence of calls, nothing is written behind a frame that was cut
short iff the connection was given up before, or the system itself takes no byte behind such a
frame. -/
theorem poisons_iff (c : Connection) (calls : List SendCall) :
    Poisons c calls ↔ (c.connected = true → Spared calls) := by
  obtain ⟨connected, stream⟩ := c
  cases connected with
  | false =>
    refine ⟨fun _ h => absurd h (by simp), fun _ => ⟨?_, [], ?_, .nil _⟩⟩
    · rw [sendAll_closed]
      refine List.pairwise_map.mpr (List.pairwise_of_forall fun _ _ hcut => ?_)
      exact absurd rfl hcut.2
    · rw [sendAll_closed, List.append_nil]
  | true =>
    have hspared : (calls.map SendCall.outcome).Pairwise (fun o o' => o.Cut → o'.Refused) ↔
        Spared calls := by
      rw [List.pairwise_map]
      refine List.Pairwise.iff ?_
      intro call call'
      rw [cut_iff, refused_iff]
    constructor
    · intro h _
      have hsilent := h.silent
      rw [sendAll_open] at hsilent
      exact hspared.mp hsilent
    · intro h
      have hcalls := h rfl
      refine ⟨?_, _, ?_, wholeButLast_of_spared hcalls⟩
      · rw [sendAll_open]
        exact hspared.mpr hcalls
      · rw [sendAll_open]

/-- One byte of `hi` goes out, then an error; `ok` follows, and the client reads its header as the
rest of `hi`. -/
theorem frame_behind_cut_frame :
    ¬ Poisons ⟨true, []⟩ [⟨[2, 1, 0], ascii "hi"⟩, ⟨[2, 2], ascii "ok"⟩] ∧
      (Connection.sendAll ⟨true, []⟩ [⟨[2, 1, 0], ascii "hi"⟩, ⟨[2, 2], ascii "ok"⟩]).2.stream =
        [0x81, 2, 0x68, 0x81, 2, 0x6F, 0x6B] := by
  refine ⟨?_, by decide⟩
  intro h
  have hsilent := h.silent
  rw [sendAll_open] at hsilent
  have hlater := (List.pairwise_cons.mp hsilent).1 _ List.mem_cons_self
    (cut_iff.mpr (by decide))
  exact absurd hlater.2 (by decide)

end QjsDebug.Ws
