/-
# Everything that is acquired is given back

However `main` comes to its end, by a failure at any point or behind the script, in whatever order
its two threads take their steps: the log of `Program.Main` is an owner's.  No socket, no value and
no part of the engine is used or given back that is not held, and when the program exits nothing is
held any more (`resources_owned_of_reach`).

The runs are those in which `main` disconnects at a settled moment (`Ws.settles`).  At another one
the WS thread may be in the handshake with a new client.  `main` closes its socket, the handshake
fails on it, and `wait_for_connection` closes it once more (`closed_twice`).

`State.live` says what is held at each place.  `Placed` is what the three variables for sockets
have to do with each other, and `Sound` adds that the log leaves just `live`.
-/
import Mathlib.Data.Finset.Basic
import QjsDebug.Program.Main

namespace QjsDebug.Program

open Handles Ws

/-! ## 1. What is held -/

def MainAt.engine : MainAt → Finset Resource
  | .begin | .returning _ | .exited _ => ∅
  | .newContext => {.runtime}
  | .start | .accept | .freeing _ => {.runtime, .context}
  | .script | .cleanup => {.runtime, .context, .thread}

/-- The socket of a request, which is not the client's yet. -/
def State.request (s : State) : Option Nat :=
  if s.threads.waitsAt .request then s.sock else none

/-- The sockets that are open. -/
def State.sockets (s : State) : List Nat :=
  s.listenSock.toList ++ s.clientSock.toList ++ s.request.toList

/-- What the program has to give back. -/
def State.live (s : State) : Finset Resource :=
  s.place.engine ∪ (s.sockets.map Resource.socket).toFinset

/-- `main` has not started its server, or has stopped it. -/
def MainAt.serverless : MainAt → Bool
  | .begin | .newContext | .start | .exited _ => true
  | _ => false

/-- The WS thread is running. -/
def MainAt.threaded : MainAt → Bool
  | .script | .cleanup => true
  | _ => false

/-- How the variables for sockets belong together. -/
structure Placed (s : State) : Prop where
  listenFresh : ∀ k, s.listenSock = some k → k < s.nextSock
  clientFresh : ∀ k, s.clientSock = some k → k < s.nextSock
  sockFresh : ∀ k, s.sock = some k → k < s.nextSock
  apart : ∀ k, s.listenSock = some k → s.clientSock ≠ some k ∧ s.sock ≠ some k
  serverless : s.place.serverless = true → s.listenSock = none
  unconnected : s.place.serverless = true ∨ s.place = .accept → s.clientSock = none
  quiet : s.place.threaded = false → s.threads.thread.loop ≠ .accepting
  agrees : s.place.threaded = true →
    s.clientSock.isSome = s.threads.thread.ws.clientSock.isSome
  accept : s.threads.waitsAt .accept = true → s.clientSock = none
  request : s.threads.waitsAt .request = true → s.clientSock = none ∧ s.sock.isSome = true
  handshake : s.threads.waitsAt .handshake = true → s.clientSock = s.sock ∧ s.sock.isSome = true

/-- The invariant. -/
structure Sound (s : State) : Prop extends Placed s where
  owned : Owned s.log s.live

section

variable {s s' : State} {log : List Event} {S S' : Finset Resource}

theorem socket_notMem_engine (place : MainAt) (k : Nat) : .socket k ∉ place.engine := by
  cases place <;> simp [MainAt.engine]

theorem value_notMem_live (s : State) (v : EngineValue) : .value v ∉ s.live := by
  cases hplace : s.place <;> simp [State.live, MainAt.engine, hplace]

@[simp]
theorem socket_mem_live {k : Nat} :
    .socket k ∈ s.live ↔ s.listenSock = some k ∨ s.clientSock = some k ∨ s.request = some k := by
  simp [State.live, State.sockets, socket_notMem_engine]

/-- What is no socket is known by the place alone. -/
theorem mem_live_of_ne {r : Resource} (hr : ∀ k, r ≠ .socket k) :
    r ∈ s.live ↔ r ∈ s.place.engine := by
  have hnot : r ∉ (s.sockets.map Resource.socket).toFinset := by
    rw [List.mem_toFinset, List.mem_map]
    rintro ⟨k, -, hk⟩
    exact hr k hk.symm
  simp only [State.live, Finset.mem_union, hnot, or_false]

/-- The sets are compared on the sockets and on what the engine has. -/
theorem live_eq (hengine : ∀ r, (∀ k, r ≠ .socket k) → (r ∈ S ↔ r ∈ s.place.engine))
    (hsockets : ∀ k, .socket k ∈ S ↔
      s.listenSock = some k ∨ s.clientSock = some k ∨ s.request = some k) : S = s.live := by
  ext r
  by_cases hr : ∀ k, r ≠ .socket k
  · rw [hengine r hr, mem_live_of_ne hr]
  · push Not at hr
    obtain ⟨k, rfl⟩ := hr
    rw [hsockets k, socket_mem_live]

theorem Owned.congr (h : Owned log s.live) (hplace : s'.place = s.place)
    (hsockets : s'.sockets = s.sockets) : Owned log s'.live := by
  rwa [State.live, hplace, hsockets]

/-- A log that hands out values and takes them back. -/
def aside (log : List Event) : Bool :=
  held [] log = some [] && log.all fun e =>
    match e with
    | .acquire (.value _) | .use _ _ | .release _ => true
    | _ => false

theorem aside_setupConsole : aside setupConsole = true := by decide

theorem Owned.ofAside (h : Owned log s.live) (haside : aside log' = true) :
    Owned (log ++ log') s.live := by
  rw [aside, Bool.and_eq_true, decide_eq_true_eq, List.all_eq_true] at haside
  refine h.aside haside.1 fun r hr hmem => ?_
  have hvalue := haside.2 _ hmem
  cases r with
  | value v => exact value_notMem_live s v hr
  | runtime | context | socket k | thread => cases hvalue

end

/-! ## 2. `main` by itself -/

section

variable {s s' : State} {log : List Event}

/-- `main` goes to another place and leaves the server and the threads alone. -/
theorem Placed.toPlace (h : Placed s) {place : MainAt}
    (hserverless : place.serverless = true → s.place.serverless = true)
    (haccept : place = .accept → s.place.serverless = true ∨ s.place = .accept)
    (hthreaded : place.threaded = s.place.threaded) :
    Placed { s with place := place, log := log } where
  listenFresh := h.listenFresh
  clientFresh := h.clientFresh
  sockFresh := h.sockFresh
  apart := h.apart
  serverless hplace := h.serverless (hserverless hplace)
  unconnected hplace := h.unconnected (hplace.elim (fun hu => .inl (hserverless hu)) haccept)
  quiet hplace := h.quiet (hthreaded ▸ hplace)
  agrees hplace := h.agrees (hthreaded ▸ hplace)
  accept := h.accept
  request := h.request
  handshake := h.handshake

theorem sound_newRuntime (h : Sound s) (hplace : s.place = .begin) (ok : Bool) :
    Sound (if ok then { s.note [.acquire .runtime] with place := .newContext }
      else { s with place := .exited 1 }) := by
  cases ok with
  | false =>
    refine ⟨h.toPlace (by simp [hplace, MainAt.serverless]) (by simp)
      (by simp [hplace, MainAt.threaded]), ?_⟩
    have hlive : State.live { s with place := .exited 1 } = s.live := by
      simp [State.live, State.sockets, State.request, hplace, MainAt.engine]
    exact hlive ▸ h.owned
  | true =>
    refine ⟨h.toPlace (by simp [hplace, MainAt.serverless]) (by simp)
      (by simp [hplace, MainAt.threaded]), ?_⟩
    have hlive : State.live { s.note [.acquire .runtime] with place := .newContext } =
        insert .runtime s.live := by
      simp [State.live, State.sockets, State.request, State.note, hplace, MainAt.engine]
    have hnot : Resource.runtime ∉ s.live := by
      rw [mem_live_of_ne (by simp), hplace]
      simp [MainAt.engine]
    exact hlive ▸ h.owned.acquire hnot

theorem sound_newContext (h : Sound s) (hplace : s.place = .newContext) (ok : Bool) :
    Sound (if ok then
        { s.note ([.use .runtime (), .acquire .context] ++ setupConsole) with place := .start }
      else { s.note [.use .runtime (), .release .runtime] with place := .exited 1 }) := by
  have hmem : Resource.runtime ∈ s.live := by
    rw [mem_live_of_ne (by simp), hplace]
    simp [MainAt.engine]
  have hused := h.owned.use hmem ()
  cases ok with
  | false =>
    refine ⟨h.toPlace (by simp [hplace, MainAt.serverless]) (by simp)
      (by simp [hplace, MainAt.threaded]), ?_⟩
    have hlive : s.live.erase .runtime =
        State.live { s.note [.use .runtime (), .release .runtime] with place := .exited 1 } := by
      refine live_eq (fun r hr => ?_) (fun k => by simp; rfl)
      rw [Finset.mem_erase, mem_live_of_ne hr, hplace]
      simp [MainAt.engine]
    have hreleased := hused.release hmem
    rw [List.append_assoc] at hreleased
    exact hlive ▸ hreleased
  | true =>
    refine ⟨h.toPlace (by simp [hplace, MainAt.serverless]) (by simp)
      (by simp [hplace, MainAt.threaded]), ?_⟩
    have hnot : Resource.context ∉ s.live := by
      rw [mem_live_of_ne (by simp), hplace]
      simp [MainAt.engine]
    have hlive : insert .context s.live =
        State.live { s.note [.use .runtime (), .acquire .context] with place := .start } := by
      refine live_eq (fun r hr => ?_) (fun k => by simp; rfl)
      rw [Finset.mem_insert, mem_live_of_ne hr, hplace]
      simp [MainAt.engine, or_comm]
    have hmade := hused.acquire hnot
    rw [List.append_assoc, hlive] at hmade
    have hset := Owned.ofAside hmade aside_setupConsole
    rw [List.append_assoc] at hset
    exact hset

/-- What `main` does with the values of the engine. -/
theorem aside_evalScript (e : ScriptEnd) :
    ∃ log, evalScript e = .use .context () :: log ∧ aside log = true := by
  cases e with
  | value => exact ⟨_, rfl, by decide⟩
  | exception text stack =>
    refine ⟨_, rfl, ?_⟩
    rcases text with _ | text <;> rcases stack with _ | _ | _ | stack <;> rfl

theorem sound_evaluates (h : Sound s) (hplace : s.place = .script) (e : ScriptEnd) :
    Sound { s.note (evalScript e) with place := .cleanup } := by
  refine ⟨h.toPlace (by simp [hplace, MainAt.serverless]) (by simp)
      (by simp [hplace, MainAt.threaded]), ?_⟩
  obtain ⟨log, heval, haside⟩ := aside_evalScript e
  have hmem : Resource.context ∈ s.live := by
    rw [mem_live_of_ne (by simp), hplace]
    simp [MainAt.engine]
  have hlive : s.live = State.live { s.note (evalScript e) with place := .cleanup } := by
    simp [State.live, State.sockets, State.request, State.note, hplace, MainAt.engine]
  have hset := Owned.ofAside (h.owned.use hmem ()) haside
  rw [List.append_assoc, List.singleton_append, ← heval, hlive] at hset
  exact hset

theorem sound_frees (h : Sound s) {code : Int} (hplace : s.place = .freeing code) :
    Sound { s.note freeEngine with place := .returning code } := by
  refine ⟨h.toPlace (by simp [hplace, MainAt.serverless]) (by simp)
      (by simp [hplace, MainAt.threaded]), ?_⟩
  have hruntime : Resource.runtime ∈ s.live := by
    rw [mem_live_of_ne (by simp), hplace]
    simp [MainAt.engine]
  have hcontext : Resource.context ∈ s.live := by
    rw [mem_live_of_ne (by simp), hplace]
    simp [MainAt.engine]
  have hlive : (s.live.erase .context).erase .runtime =
      State.live { s.note freeEngine with place := .returning code } := by
    refine live_eq (fun r hr => ?_) (fun k => by simp; rfl)
    rw [Finset.mem_erase, Finset.mem_erase, mem_live_of_ne hr, hplace]
    simp only [MainAt.engine, Finset.mem_insert, Finset.mem_singleton, Finset.notMem_empty,
      iff_false]
    tauto
  have hfreed := ((h.owned.use hruntime ()).release hcontext).release
    (Finset.mem_erase.mpr ⟨by simp, hruntime⟩)
  rw [List.append_assoc, List.append_assoc, hlive] at hfreed
  exact hfreed

/-- A socket is closed, if there is one. -/
theorem owned_close {S S' : Finset Resource} {sock : Option Nat} (h : Owned s.log S)
    (hmem : ∀ k, sock = some k → .socket k ∈ S)
    (hset : ∀ r, r ∈ S' ↔ r ∈ S ∧ ∀ k, sock = some k → r ≠ .socket k) :
    Owned (s.close sock).log S' := by
  cases sock with
  | none =>
    obtain rfl : S' = S := Finset.ext fun r => by simp [hset]
    simpa [State.close, State.note] using h
  | some k =>
    obtain rfl : S' = S.erase (.socket k) := Finset.ext fun r => by simp [hset, and_comm]
    exact h.release (hmem k rfl)

/-- Something is sent on a socket, if there is one. -/
theorem owned_use {S : Finset Resource} {sock : Option Nat} (h : Owned log S)
    (hmem : ∀ k, sock = some k → .socket k ∈ S) :
    Owned (log ++ sock.toList.map fun k => .use (.socket k) ()) S := by
  cases sock with
  | none => simpa using h
  | some k => exact h.use (hmem k rfl) ()

theorem sound_sends (h : Sound s) :
    Sound (s.note (s.clientSock.toList.map fun k => .use (.socket k) ())) := by
  refine ⟨h.toPlace id .inr rfl, ?_⟩
  exact owned_use h.owned fun k hk => socket_mem_live.mpr (.inr (.inl hk))

/-- The number of a new socket is that of no other. -/
theorem Placed.newSocket_notMem (h : Placed s) : Resource.socket s.nextSock ∉ s.live := by
  rw [socket_mem_live]
  rintro (hk | hk | hk)
  · exact absurd (h.listenFresh _ hk) (Nat.lt_irrefl _)
  · exact absurd (h.clientFresh _ hk) (Nat.lt_irrefl _)
  · unfold State.request at hk
    split at hk
    · exact absurd (h.sockFresh _ hk) (Nat.lt_irrefl _)
    · cases hk

theorem sound_starts (h : Sound s) (hplace : s.place = .start) (port : Int)
    (failure : Option StartFailure) :
    Sound { (s.start port failure).2 with
      place := if (s.start port failure).1 then .accept else .freeing 1 } := by
  have hlisten : s.listenSock = none := h.serverless (by simp [hplace, MainAt.serverless])
  have hclient : s.clientSock = none := h.unconnected (.inl (by simp [hplace, MainAt.serverless]))
  have hquiet : s.threads.thread.loop ≠ .accepting := h.quiet (by simp [hplace, MainAt.threaded])
  have hmade := h.owned.acquire h.newSocket_notMem
  have hfail : Placed { s with place := .freeing 1 } :=
    h.toPlace (by simp [hplace, MainAt.serverless]) (by simp)
      (by simp [hplace, MainAt.threaded])
  have hlive : s.live = State.live { s with place := .freeing 1 } := by
    simp [State.live, State.sockets, State.request, hplace, MainAt.engine]
  -- a socket that could not be bound is closed again
  have hclosed : Sound { s.newSocket.close s.newSocket.listenSock with
      listenSock := none, place := .freeing 1 } := by
    constructor
    · exact { hfail with
        listenFresh := fun k hk => by cases hk
        clientFresh := fun k hk => Nat.lt_succ_of_lt (h.clientFresh k hk)
        sockFresh := fun k hk => Nat.lt_succ_of_lt (h.sockFresh k hk)
        apart := fun k hk => by cases hk
        serverless := fun _ => rfl }
    · have hreleased := hmade.release (Finset.mem_insert_self _ _)
      rw [Finset.erase_insert h.newSocket_notMem, hlive] at hreleased
      have hsame : State.live { s.newSocket.close s.newSocket.listenSock with
            listenSock := none, place := .freeing 1 } =
          State.live { s with place := .freeing 1 } := by
        simp [State.live, State.sockets, State.request, State.newSocket, State.close, State.note,
          hlisten]
      rw [hsame]
      exact hreleased
  rcases failure with _ | _ | _ | _ | _
  · constructor
    · exact {
        listenFresh := fun k hk => by
          obtain rfl := Option.some.inj hk
          exact Nat.lt_succ_self _
        clientFresh := fun k hk => Nat.lt_succ_of_lt (h.clientFresh k hk)
        sockFresh := fun k hk => Nat.lt_succ_of_lt (h.sockFresh k hk)
        apart := fun k hk => by
          obtain rfl := Option.some.inj hk
          exact ⟨fun hc => absurd (h.clientFresh _ hc) (Nat.lt_irrefl _),
            fun hs => absurd (h.sockFresh _ hs) (Nat.lt_irrefl _)⟩
        serverless := fun hp => by cases hp
        unconnected := fun _ => hclient
        quiet := fun _ => hquiet
        agrees := fun hp => by cases hp
        accept := h.accept
        request := h.request
        handshake := h.handshake }
    · refine (live_eq (fun r hr => ?_) fun k => ?_) ▸ hmade
      · rw [Finset.mem_insert, mem_live_of_ne hr, hplace]
        simp [MainAt.engine, State.start, hr]
      · rw [Finset.mem_insert, socket_mem_live, hlisten]
        simp only [Resource.socket.injEq, reduceCtorEq, false_or]
        exact or_congr_left (by rw [eq_comm]; exact Option.some_inj.symm)
  · exact ⟨hfail, hlive ▸ h.owned⟩
  · have hsame : ({ s with listenSock := none, place := .freeing 1 } : State) =
        { s with place := .freeing 1 } := by rw [← hlisten]
    exact hsame ▸ (⟨hfail, hlive ▸ h.owned⟩ : Sound { s with place := .freeing 1 })
  · exact hclosed
  · exact hclosed

/-- `disconnect` while no request is being read. -/
theorem Sound.disconnect (h : Sound s) (hrequest : s.request = none) :
    Owned s.disconnect.log s.disconnect.live := by
  refine owned_close h.owned (fun k hk => socket_mem_live.mpr (.inr (.inl hk))) fun r => ?_
  have hrequest' : s.disconnect.request = none := hrequest
  have hlisten : s.disconnect.listenSock = s.listenSock := rfl
  have hclient : s.disconnect.clientSock = none := rfl
  by_cases hr : ∀ k, r ≠ .socket k
  · rw [mem_live_of_ne hr, mem_live_of_ne hr]
    exact ⟨fun hmem => ⟨hmem, fun k _ => hr k⟩, fun hmem => hmem.1⟩
  · push Not at hr
    obtain ⟨k, rfl⟩ := hr
    simp only [socket_mem_live, hrequest, hrequest', hlisten, hclient, reduceCtorEq, or_false,
      Resource.socket.injEq, ne_eq]
    constructor
    · intro hk
      refine ⟨.inl hk, fun j hj heq => ?_⟩
      subst heq
      exact (h.apart k hk).1 hj
    · rintro ⟨hk | hk, hnot⟩
      · exact hk
      · exact absurd rfl (hnot k hk)

/-- Behind the destructor nothing is open. -/
theorem sound_destroys (h : Sound s) {code : Int} (hplace : s.place = .returning code) :
    Sound { s.stop with place := .exited code } := by
  have hquiet : s.threads.thread.loop ≠ .accepting := h.quiet (by simp [hplace, MainAt.threaded])
  have hrequest : s.request = none := by
    simp [State.request, Shutdown.waitsAt, hquiet]
  constructor
  · exact {
      listenFresh := fun k hk => by cases hk
      clientFresh := fun k hk => by cases hk
      sockFresh := h.sockFresh
      apart := fun k hk => by cases hk
      serverless := fun _ => rfl
      unconnected := fun _ => rfl
      quiet := fun _ => hquiet
      agrees := fun hp => by cases hp
      accept := fun _ => rfl
      request := fun hwait => absurd (waitsAt_eq_true.mp hwait).1 hquiet
      handshake := fun hwait => absurd (waitsAt_eq_true.mp hwait).1 hquiet }
  · refine owned_close (h.disconnect hrequest) (fun k hk => socket_mem_live.mpr (.inl hk))
      fun r => ?_
    have hlive : State.live { s.stop with place := .exited code } = ∅ := by
      have hrequest' : State.request { s.stop with place := .exited code } = none := hrequest
      rw [State.live, State.sockets, hrequest']
      rfl
    rw [hlive]
    simp only [Finset.notMem_empty, false_iff, not_and, not_forall, not_not]
    intro hmem
    by_cases hr : ∀ k, r ≠ .socket k
    · rw [mem_live_of_ne hr] at hmem
      have hengine : s.disconnect.place.engine = ∅ := by
        rw [show s.disconnect.place = s.place from rfl, hplace, MainAt.engine]
      simp [hengine] at hmem
    · push Not at hr
      obtain ⟨k, rfl⟩ := hr
      rcases socket_mem_live.mp hmem with hk | hk | hk
      · exact ⟨k, hk, rfl⟩
      · cases hk
      · rw [show s.disconnect.request = s.request from rfl, hrequest] at hk
        cases hk

/-- What the loop of the first `wait_for_connection` does, as the program logs it. -/
theorem owned_acceptLoop (h : Sound s) (hplace : s.place = .accept) {a : Acceptor}
    (hsock : a.clientSock = none) (hconn : a.connected = false) (conns : List (Option Incoming)) :
    Owned (s.log ++ (acceptLoop a s.nextSock conns).2.2.map
        (HandleEvent.map .socket fun _ => ()))
      (((acceptLoop a s.nextSock conns).2.1.clientSock.toList.map Resource.socket).toFinset ∪
        s.live) := by
  have hloop := acceptLoop_settled a hsock hconn s.nextSock conns
  refine h.owned.frame ⟨_, ?_, rfl⟩ fun r hr hmem => ?_
  · have hheld := held_map (fun j k hjk => Resource.socket.inj hjk) (fun _ : Bytes => ()) []
      (acceptLoop a s.nextSock conns).2.2
    rw [hloop.owned, List.map_nil] at hheld
    exact hheld
  · -- what the loop accepts is new
    obtain ⟨e, he, hevent⟩ := List.mem_map.mp hmem
    obtain ⟨j, rfl, rfl⟩ : ∃ j, e = .acquire j ∧ r = .socket j := by
      cases e with
      | acquire j => exact ⟨j, rfl, (HandleEvent.acquire.inj hevent).symm⟩
      | use j what | release j => cases hevent
    have hfresh := hloop.fresh j
    have hpos := List.count_pos_iff.mpr he
    have hle : s.nextSock ≤ j := by
      by_contra hlt
      rw [if_neg hlt] at hfresh
      omega
    have hquiet : s.threads.thread.loop ≠ .accepting :=
      h.quiet (by simp [hplace, MainAt.threaded])
    rcases socket_mem_live.mp hr with hk | hk | hk
    · exact absurd (h.listenFresh _ hk) (by omega)
    · exact absurd (h.clientFresh _ hk) (by omega)
    · simp [State.request, Shutdown.waitsAt, hquiet] at hk

/-- The loop has a client if it returned `true`, and that is one that it accepted. -/
theorem clientSock_acceptLoop {a : Acceptor} (hsock : a.clientSock = none)
    (hconn : a.connected = false) (conns : List (Option Incoming)) :
    if (acceptLoop a s.nextSock conns).1 = some true then
      ∃ k, (acceptLoop a s.nextSock conns).2.1.clientSock = some k ∧ s.nextSock ≤ k ∧
        k < s.nextSock + conns.length
    else (acceptLoop a s.nextSock conns).2.1.clientSock = none := by
  have hloop := acceptLoop_settled a hsock hconn s.nextSock conns
  split
  · rename_i htrue
    obtain ⟨-, j, c, before, hj, hget, -⟩ := hloop.upgraded htrue
    have hlt := (List.getElem?_eq_some_iff.mp hget).1
    exact ⟨_, hj, by omega, by omega⟩
  · rename_i hother
    exact (hloop.idle hother).1

theorem sound_waits (h : Sound s) (hplace : s.place = .accept) {port : Int} {scriptFile : Bytes}
    {conns : List (Option Incoming)}
    (hstep : s.step port scriptFile (.waits conns) = some s') : Sound s' := by
  have hsock : s.clientSock = none := h.unconnected (.inr hplace)
  have hquiet : s.threads.thread.loop ≠ .accepting := h.quiet (by simp [hplace, MainAt.threaded])
  have howned := owned_acceptLoop h hplace (a := { s.acceptor with
    targetName := scriptFile, targetUrl := toFileUrl scriptFile }) hsock rfl conns
  have hclient := @clientSock_acceptLoop s { s.acceptor with
    targetName := scriptFile, targetUrl := toFileUrl scriptFile } hsock rfl conns
  simp only [State.step, hplace, if_true, State.waitForConnection] at hstep
  rcases hloop : acceptLoop { s.acceptor with
    targetName := scriptFile, targetUrl := toFileUrl scriptFile } s.nextSock conns with
    ⟨result, a', log⟩
  rw [hloop] at howned hclient hstep
  dsimp only at howned hclient hstep
  -- without a connection the server is as before
  have hnone : ∀ place : MainAt, place = .accept ∨ place = .freeing 1 → result ≠ some true →
      Sound { s.note (log.map (HandleEvent.map .socket fun _ => ())) with
        clientSock := a'.clientSock, nextSock := s.nextSock + conns.length, place := place } := by
    intro place hp hresult
    have ha' : a'.clientSock = none := by rwa [if_neg hresult] at hclient
    have hthreaded : place.threaded = false := by rcases hp with rfl | rfl <;> rfl
    have hserverless : place.serverless = false := by rcases hp with rfl | rfl <;> rfl
    constructor
    · exact {
        listenFresh := fun k hk => Nat.lt_add_right _ (h.listenFresh k hk)
        clientFresh := fun k hk => by simp [ha'] at hk
        sockFresh := fun k hk => Nat.lt_add_right _ (h.sockFresh k hk)
        apart := fun k hk => ⟨by simp [ha'], (h.apart k hk).2⟩
        serverless := fun hu => by simp [hserverless] at hu
        unconnected := fun _ => ha'
        quiet := fun _ => hquiet
        agrees := fun ht => by simp [hthreaded] at ht
        accept := fun hwait => absurd (waitsAt_eq_true.mp hwait).1 hquiet
        request := fun hwait => absurd (waitsAt_eq_true.mp hwait).1 hquiet
        handshake := fun hwait => absurd (waitsAt_eq_true.mp hwait).1 hquiet }
    · refine (live_eq (fun r hr => ?_) fun k => ?_) ▸ howned
      · rcases hp with rfl | rfl
        all_goals
          rw [ha', Finset.mem_union, mem_live_of_ne hr, hplace]
          simp [MainAt.engine]
      · rw [ha', Finset.mem_union, socket_mem_live, hsock]
        simp [State.request, Shutdown.waitsAt, State.note, hquiet]
  rcases result with _ | _ | _
  · obtain rfl := Option.some.inj hstep
    exact hplace ▸ hnone .accept (.inl rfl) (by simp)
  · obtain rfl := Option.some.inj hstep
    exact hnone (.freeing 1) (.inr rfl) (by simp)
  · -- the WS thread starts with the connection that was upgraded
    obtain rfl := Option.some.inj hstep
    rw [if_pos rfl] at hclient
    obtain ⟨k, hk, hle, hlt⟩ := hclient
    have hthread : Resource.thread ∉
        ((a'.clientSock.toList.map Resource.socket).toFinset ∪ s.live) := by
      rw [Finset.mem_union, mem_live_of_ne (by simp), hplace]
      simp [MainAt.engine]
    constructor
    · exact {
        listenFresh := fun j hj => Nat.lt_add_right _ (h.listenFresh j hj)
        clientFresh := fun j hj => by
          obtain rfl := Option.some.inj (hk.symm.trans hj)
          exact hlt
        sockFresh := fun j hj => Nat.lt_add_right _ (h.sockFresh j hj)
        apart := fun j hj => by
          refine ⟨fun hj' => ?_, (h.apart j hj).2⟩
          obtain rfl := Option.some.inj (hk.symm.trans hj')
          exact absurd (h.listenFresh _ hj) (Nat.not_lt.mpr hle)
        serverless := fun hu => by cases hu
        unconnected := fun hu => by rcases hu with hu | hu <;> cases hu
        quiet := fun ht => by cases ht
        agrees := fun _ => by
          rw [show State.clientSock _ = a'.clientSock from rfl, hk]
          rfl
        accept := fun hwait => by cases hwait
        request := fun hwait => by cases hwait
        handshake := fun hwait => by cases hwait }
    · refine (live_eq (fun r hr => ?_) fun j => ?_) ▸ howned.acquire hthread
      · rw [Finset.mem_insert, Finset.mem_union, mem_live_of_ne hr, hplace]
        simp only [MainAt.engine, Finset.mem_insert, Finset.mem_singleton, List.mem_toFinset,
          List.mem_map]
        constructor
        · rintro (hr' | ⟨j, -, hj⟩ | hr' | hr')
          · exact .inr (.inr hr')
          · exact absurd hj.symm (hr j)
          · exact .inl hr'
          · exact .inr (.inl hr')
        · rintro (hr' | hr' | hr')
          · exact .inr (.inr (.inl hr'))
          · exact .inr (.inr (.inr hr'))
          · exact .inl hr'
      · rw [Finset.mem_insert, Finset.mem_union, socket_mem_live, hsock]
        simp [State.request, Shutdown.waitsAt, State.note, hquiet, Shutdown.start, WsThread.start,
          or_comm]

end

/-! ## 3. The two threads -/

section

variable {s : State} {t : Shutdown} {log : List Event}

/-- While the WS thread runs, the first parts of `Placed` are about nothing. -/
theorem serverless_of_threaded {place : MainAt} (h : place.threaded = true) :
    place.serverless = false ∧ place ≠ .accept := by
  cases place <;> simp_all [MainAt.threaded, MainAt.serverless]

/-- A step that leaves the sockets alone, and the thread at its place in `wait_for_connection` or
outside of it. -/
theorem Sound.keep (h : Sound s) (hthreaded : s.place.threaded = true)
    (howned : Owned log s.live)
    (hagrees : t.thread.ws.clientSock.isSome = s.threads.thread.ws.clientSock.isSome)
    (hrequest : t.waitsAt .request = s.threads.waitsAt .request)
    (haccept : t.waitsAt .accept = true → s.threads.waitsAt .accept = true)
    (hhandshake : t.waitsAt .handshake = true → s.threads.waitsAt .handshake = true) :
    Sound { s with threads := t, log := log } := by
  constructor
  · exact {
      listenFresh := h.listenFresh
      clientFresh := h.clientFresh
      sockFresh := h.sockFresh
      apart := h.apart
      serverless := h.serverless
      unconnected := h.unconnected
      quiet := fun hnot => by simp [hthreaded] at hnot
      agrees := fun _ => (h.agrees hthreaded).trans hagrees.symm
      accept := fun hwait => h.accept (haccept hwait)
      request := fun hwait => h.request (hrequest ▸ hwait)
      handshake := fun hwait => h.handshake (hhandshake hwait) }
  · have hlive : State.live { s with threads := t, log := log } = s.live := by
      simp [State.live, State.sockets, State.request, hrequest]
    exact hlive ▸ howned

/-- A thread that is elsewhere waits nowhere. -/
theorem waitsAt_eq_false (h : t.thread.loop ≠ .accepting) (place : ClientAt) :
    t.waitsAt place = false := by
  simp [Shutdown.waitsAt, h]

theorem waitsAt_of_client {place other : ClientAt} (h : t.waitsAt place = true)
    (hne : other ≠ place) : t.waitsAt other = false := by
  obtain ⟨-, hclient⟩ := waitsAt_eq_true.mp h
  simp [Shutdown.waitsAt, hclient, hne.symm]

/-- A call of `receive` keeps its socket. -/
theorem isSome_receive {ws ws' : Server} {out : Outcome} (h : receive ws = (out, ws')) :
    ws'.clientSock.isSome = ws.clientSock.isSome := by
  cases hsock : ws.clientSock with
  | none =>
    simp only [receive, hsock, Prod.mk.injEq] at h
    rw [← h.2, hsock]
  | some sock =>
    have hkeeps := (keeps_receive ws).clientSock (by simp [hsock])
    rw [h] at hkeeps
    simpa using Option.isSome_iff_ne_none.mpr hkeeps

theorem isSome_deliver {ws ws' : Server} {f : Option Frame} (h : ws.deliver f = some ws') :
    ws'.clientSock.isSome = ws.clientSock.isSome := by
  cases f with
  | none | some f =>
    simp only [Server.deliver] at h
    split at h
    · rename_i hsock
      obtain rfl := Option.some.inj h
      simp [hsock]
    · cases h

/-- What the client does, and what the loop does with what has arrived. -/
theorem Sound.deliver (h : Sound s) (hthreaded : s.place.threaded = true) {f : Option Frame}
    {ws : Server} (hdeliver : s.threads.thread.ws.deliver f = some ws) :
    Sound { s with threads := { s.threads with thread := { s.threads.thread with ws := ws } } } :=
  h.keep hthreaded h.owned (isSome_deliver hdeliver) rfl id id

theorem Sound.leave (h : Sound s) (hthreaded : s.place.threaded = true) (howned : Owned log s.live)
    (hagrees : t.thread.ws.clientSock.isSome = s.threads.thread.ws.clientSock.isSome)
    (hbefore : s.threads.waitsAt .request = false) (hloop : t.thread.loop ≠ .accepting) :
    Sound { s with threads := t, log := log } :=
  h.keep hthreaded howned hagrees ((waitsAt_eq_false hloop _).trans hbefore.symm)
    (fun hw => by simp [waitsAt_eq_false hloop] at hw)
    (fun hw => by simp [waitsAt_eq_false hloop] at hw)

theorem sound_tests (h : Sound s) (hthreaded : s.place.threaded = true)
    (hstep : s.threads.step .tests = some t) : Sound { s with threads := t } := by
  obtain ⟨thread, hthread, rfl⟩ := loopStep_eq_some hstep
  simp only [WsThread.step] at hthread
  obtain ⟨hloop, hthread⟩ := Option.ite_none_right_eq_some.mp hthread
  obtain rfl := Option.some.inj hthread
  refine h.leave hthreaded h.owned rfl (waitsAt_eq_false (by simp [hloop]) _) ?_
  dsimp only
  split <;> simp

/-- One call of `send` after another. -/
theorem owned_uses {S : Finset Resource} {sock : Option Nat} {α : Type} (sent : List α)
    (h : Owned log S) (hmem : ∀ k, sock = some k → .socket k ∈ S) :
    Owned (log ++ sent.flatMap fun _ => sock.toList.map fun k => .use (.socket k) ()) S := by
  induction sent generalizing log with
  | nil => simpa using h
  | cons x sent ih =>
    have hrest := ih (owned_use h hmem)
    rwa [List.append_assoc] at hrest

theorem sound_receives (h : Sound s) (hthreaded : s.place.threaded = true)
    (hstep : s.threads.step .receives = some t) : Sound (s.after t .receives) := by
  obtain ⟨-, hstep⟩ := Option.ite_none_left_eq_some.mp hstep
  obtain ⟨r, hr, rfl⟩ := Option.map_eq_some_iff.mp hstep
  obtain ⟨thread, hthread, rfl⟩ := loopStep_eq_some hr
  simp only [WsThread.step] at hthread
  obtain ⟨hloop, hthread⟩ := Option.ite_none_right_eq_some.mp hthread
  split at hthread
  · rename_i msg ws hreceive
    obtain rfl := Option.some.inj hthread
    have hws : (s.threads.thread.received msg ws).ws = ws := by
      unfold WsThread.received
      split <;> rfl
    refine h.leave hthreaded ?_ ?_ (waitsAt_eq_false (by simp [hloop]) _) ?_
    · exact owned_uses _ h.owned fun k hk => socket_mem_live.mpr (.inr (.inl hk))
    · rw [hws]
      exact isSome_receive hreceive
    · unfold WsThread.received
      split <;> simp
  · cases hthread

theorem sound_waits_recv (h : Sound s) (hthreaded : s.place.threaded = true)
    (hstep : s.threads.step .waits = some t) : Sound { s with threads := t } := by
  obtain ⟨⟨hloop, -⟩, hthread⟩ := Option.ite_none_right_eq_some.mp hstep
  obtain rfl := Option.some.inj hthread
  exact h.leave hthreaded h.owned rfl (waitsAt_eq_false (by simp [hloop]) _) (by simp [hloop])

/-- Nothing is sent behind `main`'s disconnect: `client_sock_` is `INVALID_SOCK`. -/
theorem sound_wakes (h : Sound s) (hthreaded : s.place.threaded = true) {f : Option Frame}
    (hstep : s.threads.step (.wakes f) = some t) : Sound { s with threads := t } := by
  obtain ⟨hstuck, hthread⟩ := Option.ite_none_right_eq_some.mp hstep
  obtain rfl := Option.some.inj hthread
  have hloop := loop_of_stuck hstuck
  refine h.leave hthreaded h.owned ?_ (waitsAt_eq_false (by simp [hloop]) _) ?_
  · unfold WsThread.received
    split <;> rfl
  · unfold WsThread.received
    split <;> simp

theorem sound_answers (h : Sound s) (hthreaded : s.place.threaded = true)
    (hstep : s.threads.step .answers = some t) : Sound (s.after t .answers) := by
  obtain ⟨hwait, hthread⟩ := Option.ite_none_right_eq_some.mp hstep
  obtain rfl := Option.some.inj hthread
  rw [Bool.and_eq_true] at hwait
  have howned := owned_use h.owned fun k hk => socket_mem_live.mpr (.inr (.inl hk))
  refine h.keep hthreaded howned rfl ?_ ?_ ?_
  · rw [waitsAt_of_client hwait.1 (by simp)]
    simp [Shutdown.waitsAt]
  · simp [Shutdown.waitsAt]
  · simp [Shutdown.waitsAt]

theorem sound_acceptFails (h : Sound s) (hthreaded : s.place.threaded = true)
    (hstep : s.threads.step .acceptFails = some t) : Sound { s with threads := t } := by
  obtain ⟨hwait, hloop⟩ := Option.ite_none_right_eq_some.mp hstep
  obtain ⟨thread, hthread, rfl⟩ := loopStep_eq_some hloop
  simp only [WsThread.step, (waitsAt_eq_true.mp hwait).1, if_true] at hthread
  obtain rfl := Option.some.inj hthread
  exact h.leave hthreaded h.owned rfl (waitsAt_of_client hwait (by simp)) (by simp)

theorem sound_stores (h : Sound s) (hthreaded : s.place.threaded = true)
    (hstep : s.threads.step .stores = some t) : Sound { s with threads := t } := by
  obtain ⟨-, hmain⟩ := Option.ite_none_right_eq_some.mp hstep
  simp only [Shutdown.loopStep, WsThread.step, Option.map_some, Option.some.injEq] at hmain
  subst hmain
  exact h.keep hthreaded h.owned rfl rfl id id

/-- The thread is done with `sock`. -/
theorem sound_returns (h : Sound s) (hthreaded : s.place.threaded = true)
    (hstep : s.threads.step .returns = some t) : Sound (s.after t .returns) := by
  obtain ⟨hwait, hback⟩ := Option.ite_none_right_eq_some.mp hstep
  obtain rfl := Option.some.inj hback
  have hleft : s.threads.connected.thread.loop ≠ .accepting := by simp [Shutdown.connected]
  have hsound := h.leave hthreaded h.owned (t := s.threads.connected) rfl
    (waitsAt_of_client hwait (by simp)) hleft
  constructor
  · exact { hsound with
      sockFresh := fun k hk => by cases hk
      apart := fun k hk => ⟨(h.apart k hk).1, fun hs => by cases hs⟩
      request := fun hw => by simp [State.after, waitsAt_eq_false hleft] at hw
      handshake := fun hw => by simp [State.after, waitsAt_eq_false hleft] at hw }
  · have hlive : State.live (s.after s.threads.connected .returns) =
        State.live { s with threads := s.threads.connected } := by
      simp [State.live, State.sockets, State.request, State.after, waitsAt_eq_false hleft]
    exact hlive ▸ hsound.owned

/-- A socket is accepted: it is the request's. -/
theorem sound_connects (h : Sound s) (hthreaded : s.place.threaded = true)
    (hstep : s.threads.step .connects = some t) : Sound (s.after t .connects) := by
  obtain ⟨hwait, hback⟩ := Option.ite_none_right_eq_some.mp hstep
  obtain rfl := Option.some.inj hback
  obtain ⟨hserverless, hplace⟩ := serverless_of_threaded hthreaded
  have hclient := h.accept hwait
  have hrequest : s.request = none := by
    rw [State.request, waitsAt_of_client hwait (by simp)]
    rfl
  have hloop := (waitsAt_eq_true.mp hwait).1
  constructor
  · exact {
      listenFresh := fun k hk => Nat.lt_succ_of_lt (h.listenFresh k hk)
      clientFresh := fun k hk => Nat.lt_succ_of_lt (h.clientFresh k hk)
      sockFresh := fun k hk => by
        obtain rfl := Option.some.inj hk
        exact Nat.lt_succ_self _
      apart := fun k hk => by
        refine ⟨(h.apart k hk).1, fun hs => ?_⟩
        obtain rfl := Option.some.inj hs
        exact absurd (h.listenFresh _ hk) (Nat.lt_irrefl _)
      serverless := h.serverless
      unconnected := h.unconnected
      quiet := fun hnot => by simp [State.after, State.note, hthreaded] at hnot
      agrees := fun _ => h.agrees hthreaded
      accept := fun _ => hclient
      request := fun _ => ⟨hclient, rfl⟩
      handshake := fun hw => by simp [State.after, Shutdown.waitsAt] at hw }
  · refine (live_eq (fun r hr => ?_) fun k => ?_) ▸ h.owned.acquire h.newSocket_notMem
    · rw [Finset.mem_insert, mem_live_of_ne hr]
      simp [State.after, State.note, hr]
    · rw [Finset.mem_insert, socket_mem_live, hrequest, hclient]
      simp [State.request, State.after, State.note, Shutdown.waitsAt, hloop, hclient, or_comm,
        eq_comm]

/-- The request's socket, which is no other, is given up. -/
theorem Sound.closeSock (h : Sound s) (hrequest : s.request = s.sock)
    (hclient : s.clientSock = none) {s' : State} (hplace : s'.place = s.place)
    (hlisten : s'.listenSock = s.listenSock) (hclient' : s'.clientSock = none)
    (hrequest' : s'.request = none) :
    Owned (s.close s.sock).log s'.live := by
  refine owned_close h.owned (fun k hk => ?_) fun r => ?_
  · exact socket_mem_live.mpr (.inr (.inr (hrequest.trans hk)))
  by_cases hr : ∀ k, r ≠ .socket k
  · rw [mem_live_of_ne hr, mem_live_of_ne hr, hplace]
    exact ⟨fun hmem => ⟨hmem, fun k _ => hr k⟩, fun hmem => hmem.1⟩
  · push Not at hr
    obtain ⟨k, rfl⟩ := hr
    simp only [socket_mem_live, hrequest, hrequest', hlisten, hclient, hclient', reduceCtorEq,
      or_false, false_or, Resource.socket.injEq, ne_eq]
    constructor
    · intro hk
      refine ⟨.inl hk, fun j hj heq => ?_⟩
      subst heq
      exact (h.apart k hk).2 hj
    · rintro ⟨hk | hk, hnot⟩
      · exact hk
      · exact absurd rfl (hnot k hk)

/-- The connection is closed without an upgrade. -/
theorem sound_closes (h : Sound s) (hthreaded : s.place.threaded = true)
    (hstep : s.threads.step .closes = some t) : Sound (s.after t .closes) := by
  obtain ⟨hwait, hback⟩ := Option.ite_none_right_eq_some.mp hstep
  obtain rfl := Option.some.inj hback
  obtain ⟨hclient, -⟩ := h.request hwait
  have hrequest : s.request = s.sock := if_pos hwait
  have hrequest' : (s.after { s.threads with client := .accept } .closes).request = none := by
    simp [State.request, State.after, Shutdown.waitsAt]
  constructor
  · exact {
      listenFresh := h.listenFresh
      clientFresh := h.clientFresh
      sockFresh := fun k hk => by cases hk
      apart := fun k hk => ⟨(h.apart k hk).1, fun hs => by cases hs⟩
      serverless := h.serverless
      unconnected := h.unconnected
      quiet := fun hnot => by simp [State.after, State.close, State.note, hthreaded] at hnot
      agrees := fun _ => h.agrees hthreaded
      accept := fun _ => hclient
      request := fun hw => by simp [State.after, Shutdown.waitsAt] at hw
      handshake := fun hw => by simp [State.after, Shutdown.waitsAt] at hw }
  · exact h.closeSock hrequest hclient rfl rfl hclient hrequest'

/-- The request's socket becomes the client's. -/
theorem sound_upgrades (h : Sound s) (hthreaded : s.place.threaded = true)
    (hstep : s.threads.step .upgrades = some t) : Sound (s.after t .upgrades) := by
  obtain ⟨hwait, hback⟩ := Option.ite_none_right_eq_some.mp hstep
  obtain rfl := Option.some.inj hback
  obtain ⟨hserverless, hplace⟩ := serverless_of_threaded hthreaded
  obtain ⟨hclient, hsome⟩ := h.request hwait
  constructor
  · exact {
      listenFresh := h.listenFresh
      clientFresh := h.sockFresh
      sockFresh := h.sockFresh
      apart := fun k hk => ⟨(h.apart k hk).2, (h.apart k hk).2⟩
      serverless := h.serverless
      unconnected := fun hu => by
        rcases hu with hu | hu
        · simp [State.after, hserverless] at hu
        · exact absurd hu hplace
      quiet := fun hnot => by simp [State.after, hthreaded] at hnot
      agrees := fun _ => hsome
      accept := fun hw => by simp [State.after, Shutdown.waitsAt] at hw
      request := fun hw => by simp [State.after, Shutdown.waitsAt] at hw
      handshake := fun _ => ⟨rfl, hsome⟩ }
  · have hrequest : s.request = s.sock := if_pos hwait
    refine Owned.congr h.owned rfl ?_
    rw [State.sockets, State.sockets, hrequest, hclient]
    simp [State.after, State.request, Shutdown.waitsAt]

/-- The handshake fails, and its socket is the one that `client_sock_` has. -/
theorem sound_rejects (h : Sound s) (hthreaded : s.place.threaded = true)
    (hstep : s.threads.step .rejects = some t) : Sound (s.after t .rejects) := by
  obtain ⟨hwait, hback⟩ := Option.ite_none_right_eq_some.mp hstep
  obtain rfl := Option.some.inj hback
  obtain ⟨hclient, -⟩ := h.handshake hwait
  have hrequest : s.request = none := by
    rw [State.request, waitsAt_of_client hwait (by simp)]
    rfl
  constructor
  · exact {
      listenFresh := h.listenFresh
      clientFresh := fun k hk => by cases hk
      sockFresh := fun k hk => by cases hk
      apart := fun _ _ => ⟨by simp [State.after], by simp [State.after]⟩
      serverless := h.serverless
      unconnected := fun _ => rfl
      quiet := fun hnot => by simp [State.after, State.close, State.note, hthreaded] at hnot
      agrees := fun _ => rfl
      accept := fun _ => rfl
      request := fun hw => by simp [State.after, Shutdown.setSock, Shutdown.waitsAt] at hw
      handshake := fun hw => by simp [State.after, Shutdown.setSock, Shutdown.waitsAt] at hw }
  · have howned := h.disconnect hrequest
    rw [State.disconnect, hclient] at howned
    refine Owned.congr howned rfl ?_
    have hrequest' : State.request { s.close s.sock with clientSock := none } = none := hrequest
    rw [State.sockets, State.sockets, hrequest']
    simp [State.after, State.close, State.note, State.request, Shutdown.waitsAt]

/-- The variables behind a `disconnect` outside of any request. -/
theorem Sound.disconnected (h : Sound s) (hthreaded : s.place.threaded = true)
    (hrequest : s.threads.waitsAt .request = false) (hrequest' : t.waitsAt .request = false)
    (hhandshake : t.waitsAt .handshake = false) (hws : t.thread.ws.clientSock = none) :
    Sound { s.disconnect with threads := t } := by
  have hnone : s.request = none := by
    rw [State.request, hrequest]
    rfl
  constructor
  · exact {
      listenFresh := h.listenFresh
      clientFresh := fun k hk => by cases hk
      sockFresh := h.sockFresh
      apart := fun k hk => ⟨by simp [State.disconnect], (h.apart k hk).2⟩
      serverless := h.serverless
      unconnected := fun _ => rfl
      quiet := fun hnot => by simp [State.disconnect, State.close, State.note, hthreaded] at hnot
      agrees := fun _ => by
        rw [hws]
        rfl
      accept := fun _ => rfl
      request := fun hw => by simp [hrequest'] at hw
      handshake := fun hw => by simp [hhandshake] at hw }
  · refine Owned.congr (h.disconnect hnone) rfl ?_
    have hnone' : s.disconnect.request = none := hnone
    rw [State.sockets, State.sockets, hnone']
    simp [State.request, hrequest']

theorem sound_looks (h : Sound s) (hthreaded : s.place.threaded = true)
    (hstep : s.threads.step .looks = some t) : Sound (s.after t .looks) := by
  obtain ⟨t', ht', rfl⟩ := Option.map_eq_some_iff.mp hstep
  obtain ⟨thread, hthread, rfl⟩ := loopStep_eq_some ht'
  simp only [WsThread.step] at hthread
  obtain ⟨hloop, hlook⟩ := Option.ite_none_right_eq_some.mp hthread
  obtain rfl := Option.some.inj hlook
  have hbefore : ∀ place, s.threads.waitsAt place = false := waitsAt_eq_false (by simp [hloop])
  simp only [State.after]
  split
  · -- a probe is disconnected
    rename_i haccepting
    refine h.disconnected hthreaded (hbefore _) (by simp [Shutdown.waitsAt])
      (by simp [Shutdown.waitsAt]) ?_
    unfold WsThread.lookConnected at haccepting ⊢
    split
    · simp [*] at haccepting
    · split
      · rfl
      · simp [*] at haccepting
  · rename_i haccepting
    refine h.leave hthreaded h.owned ?_ (hbefore _) haccepting
    unfold WsThread.lookConnected at haccepting ⊢
    split
    · rfl
    · split
      · simp [*] at haccepting
      · rfl

/-- `main` disconnects, at a settled moment. -/
theorem sound_disconnects (h : Sound s) (hthreaded : s.place.threaded = true)
    (hok : settles s.threads .disconnects = true) (hstep : s.threads.step .disconnects = some t) :
    Sound (s.after t .disconnects) := by
  obtain ⟨-, hmain⟩ := Option.ite_none_right_eq_some.mp hstep
  obtain ⟨t', ht', rfl⟩ := Option.map_eq_some_iff.mp hmain
  obtain ⟨thread, hthread, rfl⟩ := loopStep_eq_some ht'
  simp only [WsThread.step] at hthread
  split at hthread
  · cases hthread
  · obtain rfl := Option.some.inj hthread
    have hfree : ∀ place, place ≠ .answered → s.threads.waitsAt place = false := by
      intro place hplace
      by_contra hwait
      exact hplace (client_of_settled hok (by simpa using hwait))
    exact h.disconnected hthreaded (hfree _ (by simp)) (hfree .request (by simp))
      (hfree .handshake (by simp)) rfl

theorem sound_joins (h : Sound s) (hthreaded : s.place.threaded = true)
    (hstep : s.threads.step .joins = some t) : Sound (s.after t .joins) := by
  obtain ⟨hmain, hback⟩ := Option.ite_none_right_eq_some.mp hstep
  obtain rfl := Option.some.inj hback
  have hleft : s.threads.thread.loop ≠ .accepting := by simp [hmain.2]
  have hengine : s.place.engine = {.runtime, .context, .thread} := by
    cases hp : s.place <;> simp_all [MainAt.threaded, MainAt.engine]
  constructor
  · exact {
      listenFresh := h.listenFresh
      clientFresh := h.clientFresh
      sockFresh := h.sockFresh
      apart := h.apart
      serverless := fun hu => by cases hu
      unconnected := fun hu => by rcases hu with hu | hu <;> cases hu
      quiet := fun _ => hleft
      agrees := fun ht => by cases ht
      accept := fun hw => absurd (waitsAt_eq_true.mp hw).1 hleft
      request := fun hw => absurd (waitsAt_eq_true.mp hw).1 hleft
      handshake := fun hw => absurd (waitsAt_eq_true.mp hw).1 hleft }
  · have hmem : Resource.thread ∈ s.live := by
      rw [mem_live_of_ne (by simp), hengine]
      simp
    refine (live_eq (fun r hr => ?_) fun k => ?_) ▸ h.owned.release hmem
    · rw [Finset.mem_erase, mem_live_of_ne hr, hengine]
      simp only [State.after, MainAt.engine, Finset.mem_insert, Finset.mem_singleton]
      constructor
      · rintro ⟨hne, hr' | hr' | hr'⟩
        · exact .inl hr'
        · exact .inr hr'
        · exact absurd hr' hne
      · rintro (rfl | rfl) <;> simp
    · rw [Finset.mem_erase, socket_mem_live]
      exact and_iff_right (by simp)

/-- One step of either thread. -/
theorem sound_after (h : Sound s) {a : ShutdownAct} (hthreaded : s.place.threaded = true)
    (hok : settles s.threads a = true) (hstep : s.threads.step a = some t) :
    Sound (s.after t a) := by
  cases a with
  | arrives f | hangsUp =>
    obtain ⟨thread, hthread, rfl⟩ := loopStep_eq_some hstep
    obtain ⟨ws, hws, rfl⟩ := Option.map_eq_some_iff.mp hthread
    exact h.deliver hthreaded hws
  | tests => exact sound_tests h hthreaded hstep
  | receives => exact sound_receives h hthreaded hstep
  | waits => exact sound_waits_recv h hthreaded hstep
  | wakes f => exact sound_wakes h hthreaded hstep
  | looks => exact sound_looks h hthreaded hstep
  | connects => exact sound_connects h hthreaded hstep
  | acceptFails => exact sound_acceptFails h hthreaded hstep
  | closes => exact sound_closes h hthreaded hstep
  | upgrades => exact sound_upgrades h hthreaded hstep
  | answers => exact sound_answers h hthreaded hstep
  | rejects => exact sound_rejects h hthreaded hstep
  | returns => exact sound_returns h hthreaded hstep
  | stores => exact sound_stores h hthreaded hstep
  | disconnects => exact sound_disconnects h hthreaded hok hstep
  | joins => exact sound_joins h hthreaded hstep

end

/-! ## 4. Every run -/

section

variable {port : Int} {scriptFile : Bytes}

/-- The side condition of a step: `main` disconnects at a settled moment. -/
def orderly (s : State) : Act → Bool
  | .threads a => settles s.threads a
  | _ => true

theorem sound_step {s s' : State} {a : Act} (h : Sound s) (hok : orderly s a = true)
    (hstep : s.step port scriptFile a = some s') : Sound s' := by
  cases a with
  | newRuntime ok =>
    obtain ⟨hplace, hnext⟩ := Option.ite_none_right_eq_some.mp hstep
    exact Option.some.inj hnext ▸ sound_newRuntime h hplace ok
  | newContext ok =>
    obtain ⟨hplace, hnext⟩ := Option.ite_none_right_eq_some.mp hstep
    exact Option.some.inj hnext ▸ sound_newContext h hplace ok
  | starts failure =>
    obtain ⟨hplace, hnext⟩ := Option.ite_none_right_eq_some.mp hstep
    exact Option.some.inj hnext ▸ sound_starts h hplace port failure
  | waits conns =>
    have hplace := (Option.ite_none_right_eq_some.mp hstep).1
    exact sound_waits h hplace hstep
  | evaluates e =>
    obtain ⟨hplace, hnext⟩ := Option.ite_none_right_eq_some.mp hstep
    exact Option.some.inj hnext ▸ sound_evaluates h hplace e
  | sends =>
    obtain ⟨-, hnext⟩ := Option.ite_none_right_eq_some.mp hstep
    exact Option.some.inj hnext ▸ sound_sends h
  | threads a =>
    obtain ⟨horder, hnext⟩ := Option.ite_none_right_eq_some.mp hstep
    obtain ⟨t, ht, rfl⟩ := Option.map_eq_some_iff.mp hnext
    have hthreaded : s.place.threaded = true := by
      cases hp : s.place <;> cases a <;> simp_all [inOrder, MainAt.threaded]
    exact sound_after h hthreaded hok ht
  | frees =>
    simp only [State.step] at hstep
    split at hstep
    · rename_i code hplace
      exact Option.some.inj hstep ▸ sound_frees h hplace
    · cases hstep
  | destroys =>
    simp only [State.step] at hstep
    split at hstep
    · rename_i code hplace
      exact Option.some.inj hstep ▸ sound_destroys h hplace
    · cases hstep

theorem sound_begin : Sound State.begin := by
  constructor
  · constructor <;> simp [State.begin, MainAt.threaded, Shutdown.start, WsThread.start,
      Shutdown.waitsAt]
  · exact Owned.nil

theorem sound_of_reach {s : State}
    (h : (program port scriptFile).Reach (fun s a => orderly s a = true) s) : Sound s := by
  refine h.invariant (I := Sound) ?_ ?_
  · intro s hs
    cases hs
    exact sound_begin
  · intro s a s' hi hok hstep
    exact sound_step hi hok hstep

/-- **Why the condition.**  When `main` disconnects during a handshake, the thread closes the socket
once more. -/
theorem closed_twice {s : State} (h : Sound s) (hplace : s.place = .cleanup)
    (hwait : s.threads.waitsAt .handshake = true) (hmain : s.threads.main = .stopped)
    (hrun : s.threads.thread.wsRunning = false) :
    ∃ s', (program port scriptFile).run s [.threads .disconnects, .threads .rejects] = some s' ∧
      held [] s'.log = none := by
  obtain ⟨hclient, hsome⟩ := h.handshake hwait
  obtain ⟨k, hk⟩ := Option.isSome_iff_exists.mp hsome
  obtain ⟨hloop, hhandshake⟩ := waitsAt_eq_true.mp hwait
  let t : Shutdown := { s.threads with
    thread := { s.threads.thread with ws := s.threads.thread.ws.disconnect }, main := .joining }
  let r : State := s.after t .disconnects
  have hfirst : s.step port scriptFile (.threads .disconnects) = some r := by
    simp [State.step, inOrder, hplace, Shutdown.step, hmain, Shutdown.loopStep, WsThread.step, hrun,
      r, t]
  have hsecond : r.step port scriptFile (.threads .rejects) =
      some (r.after { t.setSock none with client := .accept } .rejects) := by
    have hplace' : r.place = .cleanup := hplace
    have hwait' : r.threads.waitsAt .handshake = true := hwait
    simp only [State.step, inOrder, hplace', Shutdown.step, hwait']
    rfl
  refine ⟨r.after { t.setSock none with client := .accept } .rejects, ?_, ?_⟩
  · rw [StepSystem.run_cons]
    simp only [program, hfirst, Option.bind_some, StepSystem.run_cons, hsecond, StepSystem.run_nil]
  · obtain ⟨after, hheld, hset⟩ := h.owned
    have hlog : (r.after { t.setSock none with client := .accept } .rejects).log =
        s.log ++ [.release (.socket k)] ++ [.release (.socket k)] := by
      simp [r, State.after, State.close, State.disconnect, State.note, hclient, hk]
    have hmem : Resource.socket k ∈ after := by
      rw [← List.mem_toFinset, hset, socket_mem_live, hclient]
      exact .inr (.inl hk)
    have hgone : Resource.socket k ∉ after.erase (.socket k) :=
      (nodup_of_held hheld List.nodup_nil).not_mem_erase
    rw [hlog, held_append, held_append, hheld, Option.bind_some, held, if_pos hmem, held,
      Option.bind_some, held, if_neg hgone]

/-- `main` waits for its first client. -/
def listening : State where
  place := .accept
  listenSock := some 0
  clientSock := none
  sock := none
  nextSock := 1
  port := 9229
  threads := Shutdown.start
  log := [.acquire .runtime, .use .runtime (), .acquire .context] ++ setupConsole ++
    [.acquire (.socket 0)]

/-- It has come. -/
def connected : State where
  place := .script
  listenSock := some 0
  clientSock := some 1
  sock := none
  nextSock := 2
  port := 9229
  threads := Shutdown.start
  log := listening.log ++ [.acquire (.socket 1), .use (.socket 1) (), .acquire .thread]

end

end QjsDebug.Program
