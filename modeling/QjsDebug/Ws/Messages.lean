/-
# Messages and their fragments

A client may cut a message into fragments: a text frame without FIN, continuation frames
without FIN, and a continuation frame with FIN, with pings and pongs anywhere between them
(`Sends`).  `receive` never sees the FIN bit, so every frame that is not a control frame is a
message to it.

`receive_returns_messages_iff` says when the strings it returns are the messages that were
sent: when none was fragmented, and no call meets a second ping before its message (the call
that does never returns, by the lock of `QjsDebug.Ws.Receive`).
-/
import QjsDebug.Ws.Receive

namespace QjsDebug.Ws

/-! ## 1. What a client sends -/

/-- A frame as sent, with its FIN bit. -/
structure Sent where
  fin : Bool
  frame : Frame
  deriving DecidableEq, Repr

/-- `Sends none ms fs`: between messages, the client sends the messages `ms` as the frames
`fs`.  `Sends (some r) ms fs`: inside a message of which `r` is still to come. -/
inductive Sends : Option Bytes → List Bytes → List Sent → Prop
  | done : Sends none [] []
  | control {o : Option Bytes} {ms : List Bytes} {fs : List Sent} {f : Frame} :
      f.isPing = true ∨ f.isPong = true → Sends o ms fs → Sends o ms (⟨true, f⟩ :: fs)
  | whole {ms : List Bytes} {fs : List Sent} (m : Bytes) :
      Sends none ms fs → Sends none (m :: ms) (⟨true, ⟨0x01, m⟩⟩ :: fs)
  | first {r : Bytes} {ms : List Bytes} {fs : List Sent} (p : Bytes) :
      Sends (some r) ms fs → Sends none ((p ++ r) :: ms) (⟨false, ⟨0x01, p⟩⟩ :: fs)
  | more {r : Bytes} {ms : List Bytes} {fs : List Sent} (p : Bytes) :
      Sends (some r) ms fs → Sends (some (p ++ r)) ms (⟨false, ⟨0x00, p⟩⟩ :: fs)
  | last {ms : List Bytes} {fs : List Sent} (p : Bytes) :
      Sends none ms fs → Sends (some p) ms (⟨true, ⟨0x00, p⟩⟩ :: fs)

/-- Successive calls of `receive` return the strings `out`, by which time no message frame is
left.  Each call is made while one is still to come. -/
inductive Returns : Server → List Bytes → Prop
  | done {ws : Server} {sock : Socket} : ws.clientSock = some sock →
      (∀ f ∈ sock.incoming, f.isMessage = false) → Returns ws []
  | call {ws ws' : Server} {sock : Socket} {m : Bytes} {out : List Bytes} :
      ws.clientSock = some sock → (∃ f ∈ sock.incoming, f.isMessage = true) →
      receive ws = (.returned m, ws') → Returns ws' out → Returns ws (m :: out)

/-- The payloads of the message frames. -/
def payloads (fs : List Frame) : List Bytes := (fs.filter Frame.isMessage).map Frame.payload

/-- No second ping comes before a message frame, counting from the last message frame; `pinged`
says that one has come already. -/
def PingsApart : Bool → List Frame → Prop
  | _, [] => True
  | pinged, f :: fs =>
    if f.isPing then (pinged = true → ∀ g ∈ fs, g.isMessage = false) ∧ PingsApart true fs
    else if f.isMessage then PingsApart false fs
    else PingsApart pinged fs

instance decidablePingsApart :
    (pinged : Bool) → (fs : List Frame) → Decidable (PingsApart pinged fs)
  | _, [] => inferInstanceAs (Decidable True)
  | pinged, f :: fs =>
    have := decidablePingsApart true fs
    have := decidablePingsApart false fs
    have := decidablePingsApart pinged fs
    inferInstanceAs (Decidable (if f.isPing then _ ∧ _ else if f.isMessage then _ else _))

/-! ## 2. What one call returns -/

/-- The payload that a call returns and the frames it leaves, `none` when it blocks itself:
`holding` says that it has answered a ping already. -/
def firstMessage : Bool → List Frame → Option (Bytes × List Frame)
  | _, [] => none
  | holding, f :: fs =>
    if f.isPing then if holding then none else firstMessage true fs
    else if f.isMessage then some (f.payload, fs)
    else firstMessage holding fs

variable {fs : List Frame} {hungUp : Bool} {ws : Server}

/-- A connection with what a call left of it, the lock being held or not. -/
structure Server.Left (holding : Bool) (fs : List Frame) (hungUp : Bool) (ws : Server) :
    Prop where
  connected : ws.connected = true
  clientSock : ws.clientSock = some ⟨fs, hungUp⟩
  holding : ws.holding = holding

/-- What a call on a connection with the frames `fs` comes to. -/
def CallSpec (holding : Bool) (fs : List Frame) (hungUp : Bool) (call : Outcome × Server) : Prop :=
  match firstMessage holding fs with
  | none => call.1 = .deadlocked
  | some (m, rest) => ∃ ws', call = (.returned m, ws') ∧ ws'.Left holding rest hungUp

/-- A scope entered with the lock free returns what its body returns and frees the lock. -/
theorem lockGuard_returned {body : Server → Outcome × Server} {m : Bytes} {ws' : Server}
    (h : ws.holding = false)
    (hbody : body { ws.note .lock with holding := true } = (.returned m, ws')) :
    lockGuard ws body = (.returned m, { ws' with holding := false }) := by
  have hnote : (ws.note .lock).holding = false := h
  simp only [lockGuard, hnote, hbody, Bool.false_eq_true, if_false]

theorem lockGuard_deadlocked {body : Server → Outcome × Server}
    (hbody : ws.holding = false → (body { ws.note .lock with holding := true }).1 = .deadlocked) :
    (lockGuard ws body).1 = .deadlocked := by
  unfold lockGuard
  cases h : ws.holding with
  | true => simp [Server.note, h]
  | false =>
    have hnote : (ws.note .lock).holding = false := h
    have hstuck := hbody h
    rcases hcall : body { ws.note .lock with holding := true } with ⟨out, ws'⟩
    rw [hcall] at hstuck
    simp only at hstuck
    simp only [hnote, hcall, hstuck, Bool.false_eq_true, if_false]

/-- A frame that is no message leaves the message to come to the frames behind it. -/
theorem exists_message_tail {f : Frame} (hmsg : ∃ g ∈ f :: fs, g.isMessage = true)
    (hf : f.isMessage = false) : ∃ g ∈ fs, g.isMessage = true := by
  obtain ⟨g, hg, hgm⟩ := hmsg
  rcases List.mem_cons.mp hg with rfl | hg
  · rw [hf] at hgm
    cases hgm
  · exact ⟨g, hg, hgm⟩

/-- **One call**, by induction on the frames it reads.  The lock is held from the first ping on,
so a second one blocks. -/
theorem receiveOn_spec (hconn : ws.connected = true) (hopen : ∀ f ∈ fs, f.isClose = false)
    (hmsg : ∃ f ∈ fs, f.isMessage = true) :
    CallSpec ws.holding fs hungUp (receiveOn hungUp fs ws) := by
  induction fs generalizing ws with
  | nil =>
    obtain ⟨f, hf, -⟩ := hmsg
    cases hf
  | cons f fs ih =>
    obtain ⟨hclose, hopen⟩ := List.forall_mem_cons.mp hopen
    have hmore := exists_message_tail hmsg
    let seen : Server := { ws.note .recvExact with clientSock := some ⟨fs, hungUp⟩ }
    unfold CallSpec
    by_cases hping : f.isPing = true
    · have hnot : f.isMessage = false := by simp [Frame.isMessage, hping]
      simp only [receiveOn, firstMessage, hconn, hclose, hping, Bool.not_true, Bool.false_eq_true,
        if_false, if_true]
      let answered : Server :=
        ({ seen.note .lock with holding := true } : Server).note (.sendFrame 0x0A f.payload)
      have hbody : CallSpec true fs hungUp (receiveOn hungUp fs answered) :=
        @ih answered hconn hopen (hmore hnot)
      unfold CallSpec at hbody
      cases hheld : ws.holding with
      | true =>
        apply lockGuard_deadlocked
        intro hfree
        exact absurd (hfree.symm.trans hheld) (by simp)
      | false =>
        simp only [Bool.false_eq_true, if_false]
        cases hfirst : firstMessage true fs with
        | none =>
          rw [hfirst] at hbody
          exact lockGuard_deadlocked fun _ => hbody
        | some p =>
          obtain ⟨m, rest⟩ := p
          rw [hfirst] at hbody
          obtain ⟨ws', hcall, hleft⟩ := hbody
          exact ⟨_, lockGuard_returned hheld hcall, hleft.connected, hleft.clientSock, rfl⟩
    · by_cases hmessage : f.isMessage = true
      · have hpong : f.isPong = false := by
          simp only [Frame.isMessage, Bool.and_eq_true, Bool.not_eq_true'] at hmessage
          exact hmessage.1.2
        simp only [receiveOn, firstMessage, hconn, hclose, hping, hpong, hmessage, Bool.not_true,
          Bool.false_eq_true, if_false, if_true]
        exact ⟨seen, rfl, hconn, rfl, rfl⟩
      · have hpong : f.isPong = true := by
          simp only [Frame.isMessage, hping, hclose] at hmessage
          simpa using hmessage
        simp only [receiveOn, firstMessage, hconn, hclose, hping, hpong, hmessage, Bool.not_true,
          Bool.false_eq_true, if_false, if_true]
        exact @ih seen hconn hopen (hmore (by simpa using hmessage))

/-! ## 3. What successive calls return -/

@[simp] theorem payloads_cons (f : Frame) (fs : List Frame) :
    payloads (f :: fs) = if f.isMessage then f.payload :: payloads fs else payloads fs := by
  unfold payloads
  split <;> simp_all

theorem payloads_eq_nil (h : ∀ f ∈ fs, f.isMessage = false) : payloads fs = [] := by
  unfold payloads
  rw [List.filter_eq_nil_iff.mpr (by simpa using h), List.map_nil]

/-- With no message frame left there is no second ping to wait behind. -/
theorem pingsApart_of_no_message (h : ∀ f ∈ fs, f.isMessage = false) (pinged : Bool) :
    PingsApart pinged fs := by
  induction fs generalizing pinged with
  | nil => trivial
  | cons f fs ih =>
    obtain ⟨hf, hfs⟩ := List.forall_mem_cons.mp h
    simp only [PingsApart, hf, Bool.false_eq_true, if_false]
    split
    · exact ⟨fun _ => hfs, ih hfs true⟩
    · exact ih hfs pinged

/-- What `firstMessage` says of the pings and the payloads. -/
theorem pingsApart_iff_firstMessage {holding : Bool} (hmsg : ∃ f ∈ fs, f.isMessage = true)
    (out : List Bytes) :
    (PingsApart holding fs ∧ out = payloads fs) ↔
      ∃ m rest, firstMessage holding fs = some (m, rest) ∧
        ∃ out', out = m :: out' ∧ PingsApart false rest ∧ out' = payloads rest := by
  induction fs generalizing holding with
  | nil =>
    obtain ⟨f, hf, -⟩ := hmsg
    cases hf
  | cons f fs ih =>
    have hmore := exists_message_tail hmsg
    by_cases hping : f.isPing = true
    · have hnot : f.isMessage = false := by simp [Frame.isMessage, hping]
      obtain ⟨g, hg, hgm⟩ := hmore hnot
      have hpend : ¬ ∀ g ∈ fs, g.isMessage = false := by
        intro h
        rw [h g hg] at hgm
        cases hgm
      simp only [PingsApart, firstMessage, payloads_cons, hping, hnot, if_true, Bool.false_eq_true,
        if_false]
      cases holding with
      | true => simp [hpend]
      | false =>
        simp only [Bool.false_eq_true, false_implies, true_and, if_false]
        exact ih (hmore hnot)
    · by_cases hmessage : f.isMessage = true
      · simp only [PingsApart, firstMessage, payloads_cons, hping, hmessage, if_true,
          Bool.false_eq_true, if_false]
        constructor
        · rintro ⟨hapart, rfl⟩
          exact ⟨f.payload, fs, rfl, payloads fs, rfl, hapart, rfl⟩
        · rintro ⟨m, rest, heq, out', rfl, hapart, rfl⟩
          cases heq
          exact ⟨hapart, rfl⟩
      · simp only [PingsApart, firstMessage, payloads_cons, hping, hmessage, Bool.false_eq_true,
          if_false]
        exact ih (hmore (by simpa using hmessage))

theorem length_firstMessage {holding : Bool} {m : Bytes} {rest : List Frame}
    (h : firstMessage holding fs = some (m, rest)) :
    rest.length < fs.length ∧ ∀ f ∈ rest, f ∈ fs := by
  induction fs generalizing holding with
  | nil => exact absurd h (by simp [firstMessage])
  | cons f fs ih =>
    simp only [firstMessage] at h
    have hrec : ∀ b, firstMessage b fs = some (m, rest) →
        rest.length < (f :: fs).length ∧ ∀ g ∈ rest, g ∈ f :: fs := by
      intro b hb
      obtain ⟨hlt, hsub⟩ := ih hb
      refine ⟨by simp only [List.length_cons]; omega, ?_⟩
      intro g hg
      exact List.mem_cons_of_mem f (hsub g hg)
    split at h
    · split at h
      · cases h
      · exact hrec true h
    · split at h
      · cases h
        exact ⟨by simp, fun g hg => List.mem_cons_of_mem f hg⟩
      · exact hrec holding h

/-- When no message is left, no call returns one. -/
theorem returns_iff_of_no_message {fs : List Frame} {ws : Server} {out : List Bytes}
    (hws : Server.Open fs hungUp ws) (hnone : ∀ f ∈ fs, f.isMessage = false) :
    Returns ws out ↔ PingsApart false fs ∧ out = payloads fs := by
  rw [payloads_eq_nil hnone]
  constructor
  · intro h
    cases h with
    | done => exact ⟨pingsApart_of_no_message hnone false, rfl⟩
    | call hsock hex _ _ =>
      rw [hws.clientSock] at hsock
      cases hsock
      obtain ⟨f, hf, hfm⟩ := hex
      rw [hnone f hf] at hfm
      cases hfm
  · rintro ⟨-, rfl⟩
    exact .done hws.clientSock hnone

/-- **Successive calls** on a connection that is never closed return the payloads of the
message frames, unless one of them meets two pings first. -/
theorem returns_iff {fs : List Frame} {ws : Server} {out : List Bytes}
    (hws : Server.Open fs hungUp ws) (hopen : ∀ f ∈ fs, f.isClose = false) :
    Returns ws out ↔ PingsApart false fs ∧ out = payloads fs := by
  by_cases hmsg : ∃ f ∈ fs, f.isMessage = true
  · have hcall : CallSpec false fs hungUp (receive ws) := by
      have hspec := @receiveOn_spec fs hungUp ws hws.connected hopen hmsg
      rw [hws.holding] at hspec
      unfold receive
      rw [hws.clientSock]
      exact hspec
    unfold CallSpec at hcall
    rw [pingsApart_iff_firstMessage hmsg]
    constructor
    · intro h
      cases h with
      | done hsock hnone =>
        rw [hws.clientSock] at hsock
        cases hsock
        obtain ⟨f, hf, hfm⟩ := hmsg
        rw [hnone f hf] at hfm
        cases hfm
      | @call _ ws₁ _ m out' hsock _ hret hrest =>
        rw [hret] at hcall
        cases hfirst : firstMessage false fs with
        | none =>
          rw [hfirst] at hcall
          cases hcall
        | some p =>
          obtain ⟨m', rest⟩ := p
          rw [hfirst] at hcall
          obtain ⟨ws', heq, hleft⟩ := hcall
          cases heq
          obtain ⟨hlt, hsub⟩ := length_firstMessage hfirst
          have hopen' : Server.Open rest hungUp ws₁ :=
            ⟨hleft.connected, hleft.clientSock, hleft.holding⟩
          have hih := (returns_iff hopen' (fun f hf => hopen f (hsub f hf))).mp hrest
          exact ⟨m, rest, rfl, out', rfl, hih⟩
    · rintro ⟨m, rest, hfirst, out', rfl, hrest⟩
      rw [hfirst] at hcall
      obtain ⟨ws', heq, hleft⟩ := hcall
      obtain ⟨hlt, hsub⟩ := length_firstMessage hfirst
      have hopen' : Server.Open rest hungUp ws' :=
        ⟨hleft.connected, hleft.clientSock, hleft.holding⟩
      exact .call hws.clientSock hmsg heq
        ((returns_iff hopen' (fun f hf => hopen f (hsub f hf))).mpr hrest)
  · have hnone : ∀ f ∈ fs, f.isMessage = false := by
      intro f hf
      by_contra h
      exact hmsg ⟨f, hf, by simpa using h⟩
    exact returns_iff_of_no_message hws hnone
termination_by fs.length

/-! ## 4. When the strings returned are the messages sent -/

theorem isClose_of_sends {o : Option Bytes} {ms : List Bytes} {sent : List Sent}
    (h : Sends o ms sent) : ∀ f ∈ sent.map Sent.frame, f.isClose = false := by
  induction h with
  | done => simp
  | control hf _ ih =>
    rw [List.map_cons, List.forall_mem_cons]
    refine ⟨?_, ih⟩
    rcases hf with hf | hf <;> simp_all [Frame.isPing, Frame.isPong, Frame.isClose]
  | whole | first | more | last =>
    rw [List.map_cons, List.forall_mem_cons]
    exact ⟨rfl, by assumption⟩

/-- Every frame without FIN is one string too many. -/
theorem length_payloads_of_sends {o : Option Bytes} {ms : List Bytes} {sent : List Sent}
    (h : Sends o ms sent) :
    (payloads (sent.map Sent.frame)).length =
      (o.toList ++ ms).length + sent.countP (!·.fin) := by
  induction h with
  | done => rfl
  | @control o ms fs f hf _ ih =>
    have hnot : f.isMessage = false := by
      rcases hf with hf | hf <;> simp [Frame.isMessage, hf]
    simpa [hnot] using ih
  | whole | first | more | last =>
    simp_all [Frame.isMessage, Frame.isPing, Frame.isPong, Frame.isClose]
    omega

/-- With FIN on every frame, the payloads are the messages. -/
theorem payloads_of_sends {o : Option Bytes} {ms : List Bytes} {sent : List Sent}
    (h : Sends o ms sent) (hfin : ∀ s ∈ sent, s.fin = true) :
    payloads (sent.map Sent.frame) = o.toList ++ ms := by
  induction h with
  | done => rfl
  | @control o ms fs f hf _ ih =>
    have hnot : f.isMessage = false := by
      rcases hf with hf | hf <;> simp [Frame.isMessage, hf]
    simpa [hnot] using ih (List.forall_mem_cons.mp hfin).2
  | whole m _ ih | last m _ ih =>
    have hih := ih (List.forall_mem_cons.mp hfin).2
    simpa [Frame.isMessage, Frame.isPing, Frame.isPong, Frame.isClose] using hih
  | first | more =>
    have := (List.forall_mem_cons.mp hfin).1
    cases this

/-- **When messages come out whole.**  The strings returned by successive calls are the messages
sent exactly when every message was sent as a single frame and no call meets two pings before
its message. -/
theorem receive_returns_messages_iff {ms : List Bytes} {sent : List Sent}
    (h : Sends none ms sent) (hungUp : Bool) :
    Returns (Server.accepted (sent.map Sent.frame) hungUp) ms ↔
      (∀ s ∈ sent, s.fin = true) ∧ PingsApart false (sent.map Sent.frame) := by
  rw [returns_iff (open_accepted _ hungUp) (isClose_of_sends h)]
  constructor
  · rintro ⟨hapart, hout⟩
    refine ⟨?_, hapart⟩
    have hlen := length_payloads_of_sends h
    rw [← hout] at hlen
    have hzero : sent.countP (!·.fin) = 0 := by
      simp only [Option.toList_none, List.nil_append] at hlen
      omega
    simpa using List.countP_eq_zero.mp hzero
  · rintro ⟨hfin, hapart⟩
    exact ⟨hapart, (payloads_of_sends h hfin).symm⟩

theorem receive_returns_messages_iff_ping :
    Returns (Server.accepted [⟨0x09, []⟩, ⟨0x01, ascii "ab"⟩, ⟨0x0A, []⟩] false) [ascii "ab"] :=
  (receive_returns_messages_iff (.control (.inl rfl) (.whole (ascii "ab")
    (.control (.inr rfl) .done))) false).mpr ⟨by decide, by decide⟩

/-- A message in two fragments comes out as two strings. -/
theorem fragments_returned_separately :
    Sends none [ascii "ab"] [⟨false, ⟨0x01, ascii "a"⟩⟩, ⟨true, ⟨0x00, ascii "b"⟩⟩] ∧
      ¬ Returns (Server.accepted [⟨0x01, ascii "a"⟩, ⟨0x00, ascii "b"⟩] false) [ascii "ab"] ∧
      Returns (Server.accepted [⟨0x01, ascii "a"⟩, ⟨0x00, ascii "b"⟩] false)
        [ascii "a", ascii "b"] := by
  have hiff : ∀ out, Returns (Server.accepted [⟨0x01, ascii "a"⟩, ⟨0x00, ascii "b"⟩] false) out ↔
      PingsApart false [⟨0x01, ascii "a"⟩, ⟨0x00, ascii "b"⟩] ∧
        out = payloads [⟨0x01, ascii "a"⟩, ⟨0x00, ascii "b"⟩] := by
    intro out
    exact returns_iff (open_accepted _ false) (by decide)
  refine ⟨.first (ascii "a") (.last (ascii "b") .done), ?_, ?_⟩
  · rw [hiff]
    decide
  · rw [hiff]
    decide

end QjsDebug.Ws
