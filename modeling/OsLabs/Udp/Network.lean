import OsLabs.Udp.KeepAlive
import OsLabs.Udp.Texts

/-!
# The UDP Chat as a Network

The server, any number of clients, and the datagrams between them. The network
delivers what is in flight in any order, or loses it. Nothing else is sent
anywhere: a client sends to its server only, and the server to addresses of
its table and to the sender of the datagram at hand.

A client is a `Listener` for as long as its input loop goes on. After that its
other thread may still answer a probe, until `main` has cleared `running` and
the thread has seen it, and `SIGINT` may end the program at any time.

## Main definitions

* `Sending.message`: The bytes of what a client sends.
* `Process`, `Process.Event`, `Process.step`: A client, with both its threads.
* `Datagram`: What is in flight.
* `Network`, `Network.Event`, `Network.step`: The chat.
* `Network.Move`: The steps, by what they do.
* `Process.Turned`, `Process.Took`: The steps of a client, case by case.
* `Process.Speech`, `Process.Move`: What a client says, and why.

## Theorems

* `Process.turned_of_turn`, `Process.took_of_step`: What a client can do.
* `Process.speech_of_turned`, `Process.step_move`: What it says meanwhile.
* `Network.step_move`: Every step is a move.
-/

namespace OsLabs

namespace Udp

open Machine

/-- The bytes of what a client sends. -/
def Sending.message : Sending → Bytes
  | .register message => message
  | .pong => text "PING"
  | .typed input => input

/-- A client process. The receiving thread has returned when `running` of the
    listener is cleared. -/
structure Process where
  addr : SockAddr
  name : Bytes
  listener : Listener
  /-- `main` has cleared `running` behind its loop. -/
  stopping : Bool
  /-- The process has ended. -/
  gone : Bool

namespace Process

/-- What happens next in a client: a step of its loops, `main` clearing
    `running`, the receiving thread seeing that, `signal_handler`, or the end
    of the process. -/
inductive Event where
  | run (e : Listener.Event)
  | clear
  | leave
  | interrupt
  | exit

/-- A datagram is received. -/
def Event.receives : Event → Bool
  | .run (.datagram _ _) => true
  | _ => false

/-- The process when `register_with_server` is called. -/
def init (addr : SockAddr) (name : Bytes) : Process where
  addr := addr
  name := name
  listener := .init
  stopping := false
  gone := false

/-- A step of the loops. Behind the input loop the receiving thread goes on
    until it finds `running` cleared. -/
def turn (p : Process) (e : Listener.Event) : Option Listener :=
  match p.listener.phase, e with
  | .left, .datagram _ bytes =>
      -- The answer is sent before `running` is looked at again.
      if p.listener.running then
        let l := p.listener.receive bytes
        some { l with running := l.running && !p.stopping }
      else none
  | .left, .recvError =>
      if p.listener.running then some { p.listener with running := false } else none
  | _, e => Listener.step p.name p.listener e

/-- What a listener has sent since. -/
def news (l l' : Listener) : List Bytes := (l'.sent.drop l.sent.length).map Sending.message

/-- One step of a client, with the datagrams that it sends. -/
def step (p : Process) (e : Event) : Option (Process × List Bytes) :=
  if p.gone then none
  else
    match e with
    | .run e =>
        match p.turn e with
        | some l => some ({ p with listener := l }, news p.listener l)
        | none => none
    | .clear =>
        if p.listener.phase = .left then some ({ p with stopping := true }, []) else none
    | .leave =>
        -- The thread is at the test of its loop.
        if p.stopping then some ({ p with listener.running := false }, []) else none
    | .interrupt => some ({ p with gone := true }, [text "QUIT"])
    | .exit =>
        if p.listener.phase = .failed ∨ (p.stopping ∧ ¬ p.listener.running) then
          some ({ p with gone := true }, [])
        else none

/-- What a step of the loops makes a client say, and why. -/
inductive Speech (name : Bytes) (l : Listener) (e : Listener.Event) (l' : Listener) : Prop where
  | silent (hsent : l'.sent = l.sent) (hstart : l'.phase = .start → l.phase = .start)
  | register (hphase : l.phase = .start) (hphase' : l'.phase ≠ .start)
      (hsent : l'.sent = l.sent ++ [.register (Listener.registerMsg name)])
  | typed (line input : Bytes) (hevent : e = .line line)
      (hturn : inputTurn line = .send input ∨ inputTurn line = .quit ∧ input = text "QUIT")
      (hsent : l'.sent = l.sent ++ [.typed input])
  | pong (src : SockAddr) (bytes : Bytes) (hevent : e = .datagram src bytes)
      (hprobe : strncmpEq (Listener.received bytes) (text "ALIVE") = true)
      (hphase : l'.phase = l.phase) (hsent : l'.sent = l.sent ++ [.pong])

theorem phase_receive (l : Listener) (bytes : Bytes) : (l.receive bytes).phase = l.phase := by
  unfold Listener.receive
  by_cases hempty : bytes = []
  · rw [if_pos hempty]
  · rw [if_neg hempty]
    by_cases hprobe : strncmpEq (Listener.received bytes) (text "ALIVE") = true
    · rw [if_pos hprobe]
    · rw [if_neg hprobe]

/-- A turn of the receiving thread. -/
theorem speech_of_receive (name : Bytes) (l : Listener) (src : SockAddr) (bytes : Bytes)
    {l' : Listener} (hsent : l'.sent = (l.receive bytes).sent) (hphase : l'.phase = l.phase) :
    Speech name l (.datagram src bytes) l' := by
  unfold Listener.receive at hsent
  by_cases hempty : bytes = []
  · rw [if_pos hempty] at hsent
    exact .silent hsent fun hstart => hphase ▸ hstart
  · rw [if_neg hempty] at hsent
    by_cases hprobe : strncmpEq (Listener.received bytes) (text "ALIVE") = true
    · rw [if_pos hprobe] at hsent
      exact .pong src bytes rfl hprobe hphase hsent
    · rw [if_neg hprobe] at hsent
      exact .silent hsent fun hstart => hphase ▸ hstart

/-- A line that is read. -/
theorem speech_of_line {name line : Bytes} {l l' : Listener}
    (h : Listener.step name l (.line line) = some l') : Speech name l (.line line) l' := by
  simp only [Listener.step] at h
  split at h
  · cases hturn : inputTurn line with
    | skip =>
        simp only [hturn, Option.some.injEq] at h
        rw [← h]
        exact .silent rfl fun hstart => Listener.Phase.noConfusion hstart
    | send input =>
        simp only [hturn, Option.some.injEq] at h
        rw [← h]
        exact .typed line input rfl (Or.inl hturn) rfl
    | quit =>
        simp only [hturn, Option.some.injEq] at h
        rw [← h]
        exact .typed line _ rfl (Or.inr ⟨hturn, rfl⟩) rfl
  · cases h

theorem speech_of_step {name : Bytes} {l l' : Listener} {e : Listener.Event}
    (h : Listener.step name l e = some l') : Speech name l e l' := by
  cases Listener.step_move h with
  | register hphase | setsockoptError hphase =>
      exact .register hphase Listener.Phase.noConfusion rfl
  | answer src bytes phase hphase hanswer =>
      refine .silent rfl fun hstart => ?_
      rcases hanswer with rfl | ⟨rfl, _⟩ <;> exact Listener.Phase.noConfusion hstart
  | receive src bytes hchat hrunning =>
      exact speech_of_receive name l src bytes rfl (phase_receive l bytes)
  | recvError hchat hrunning => exact .silent rfl id
  | loop hphase =>
      refine .silent rfl fun hstart => ?_
      cases hrunning : l.running <;> simp only [hrunning] at hstart <;> cases hstart
  | skip | send | quit => exact speech_of_line h
  | sendtoError | unanswered | eof | sendError =>
      exact .silent rfl fun hstart => Listener.Phase.noConfusion hstart

/-- The turns of a client's loops: those of the listener, and what the receiving
    thread does behind the input loop. -/
inductive Turned (p : Process) : Listener.Event → Listener → Prop where
  | hear (src : SockAddr) (bytes : Bytes) (hphase : p.listener.phase = .left)
      (hrunning : p.listener.running = true) :
      Turned p (.datagram src bytes)
        { p.listener.receive bytes with
          running := (p.listener.receive bytes).running && !p.stopping }
  | fail (hphase : p.listener.phase = .left) (hrunning : p.listener.running = true) :
      Turned p .recvError { p.listener with running := false }
  | loops (e : Listener.Event) (l : Listener)
      (hstep : Listener.step p.name p.listener e = some l) : Turned p e l

theorem turned_of_turn {p : Process} {e : Listener.Event} {l : Listener}
    (h : p.turn e = some l) : Turned p e l := by
  unfold turn at h
  split at h
  · rename_i src bytes hphase
    split at h
    · rename_i hrunning
      rw [← Option.some.inj h]
      exact .hear src bytes hphase hrunning
    · cases h
  · rename_i hphase
    split at h
    · rename_i hrunning
      rw [← Option.some.inj h]
      exact .fail hphase hrunning
    · cases h
  · exact .loops _ l h

/-- The steps of a client, by the call or the test that they stand for. -/
inductive Took (p : Process) : Event → Process → List Bytes → Prop where
  | run (e : Listener.Event) (l : Listener) (hturn : Turned p e l) :
      Took p (.run e) { p with listener := l } (news p.listener l)
  | clear (hphase : p.listener.phase = .left) : Took p .clear { p with stopping := true } []
  | leave (hstopping : p.stopping = true) : Took p .leave { p with listener.running := false } []
  | interrupt : Took p .interrupt { p with gone := true } [text "QUIT"]
  | exit (hover : p.listener.phase = .failed ∨ (p.stopping ∧ ¬ p.listener.running)) :
      Took p .exit { p with gone := true } []

/-- A process that is gone takes no step. -/
theorem took_of_step {p p' : Process} {e : Event} {messages : List Bytes}
    (h : p.step e = some (p', messages)) : p.gone = false ∧ Took p e p' messages := by
  unfold step at h
  split at h
  · cases h
  · rename_i hgone
    refine ⟨eq_false_of_ne_true hgone, ?_⟩
    cases e with
    | run e =>
        simp only at h
        split at h
        · rename_i l hturn
          rcases Prod.mk.inj (Option.some.inj h) with ⟨rfl, rfl⟩
          exact .run e l (turned_of_turn hturn)
        · cases h
    | clear =>
        simp only at h
        split at h
        · rename_i hphase
          rcases Prod.mk.inj (Option.some.inj h) with ⟨rfl, rfl⟩
          exact .clear hphase
        · cases h
    | leave =>
        simp only at h
        split at h
        · rename_i hstopping
          rcases Prod.mk.inj (Option.some.inj h) with ⟨rfl, rfl⟩
          exact .leave hstopping
        · cases h
    | interrupt =>
        rcases Prod.mk.inj (Option.some.inj h) with ⟨rfl, rfl⟩
        exact .interrupt
    | exit =>
        simp only at h
        split at h
        · rename_i hover
          rcases Prod.mk.inj (Option.some.inj h) with ⟨rfl, rfl⟩
          exact .exit hover
        · cases h

/-- Every turn of a client's loops. -/
theorem speech_of_turned {p : Process} {e : Listener.Event} {l' : Listener}
    (h : Turned p e l') : Speech p.name p.listener e l' := by
  cases h with
  | hear src bytes hphase hrunning =>
      exact speech_of_receive p.name p.listener src bytes rfl (phase_receive p.listener bytes)
  | fail hphase hrunning => exact .silent rfl id
  | loops _ _ hstep => exact speech_of_step hstep

/-- The steps of a client, by what they do. -/
inductive Move (p : Process) : Event → Process → List Bytes → Prop where
  | run (e : Listener.Event) (l : Listener) (hgone : p.gone = false)
      (hspeech : Speech p.name p.listener e l) :
      Move p (.run e) { p with listener := l } (news p.listener l)
  | silent (e : Event) (running stopping gone : Bool) (hgone : p.gone = false) :
      Move p e
        { p with
          listener.running := running, stopping := stopping, gone := gone } []
  | interrupt (hgone : p.gone = false) : Move p .interrupt { p with gone := true } [text "QUIT"]

theorem step_move {p p' : Process} {e : Event} {messages : List Bytes}
    (h : p.step e = some (p', messages)) : Move p e p' messages := by
  rcases took_of_step h with ⟨hgone, htook⟩
  cases htook with
  | run e l hturn => exact .run e l hgone (speech_of_turned hturn)
  | clear hphase => exact .silent .clear p.listener.running true p.gone hgone
  | leave hstopping => exact .silent .leave false p.stopping p.gone hgone
  | interrupt => exact .interrupt hgone
  | exit hover => exact .silent .exit p.listener.running p.stopping true hgone

end Process

/-- What is in flight: from a client to the server, or from the server to an
    address, with the call of `sendto` that sent it. -/
inductive Datagram where
  | request (src : SockAddr) (message : Bytes)
  | answer (via : Via) (dst : SockAddr) (message : Bytes)

/-- A datagram is received. -/
def Event.receives : Event → Bool
  | .datagram _ _ => true
  | _ => false

/-- The datagram that an entry of the server's log is about. -/
def Action.posted : Action → Option Datagram
  | .sent via dst message => some (.answer via dst message)
  | _ => none

/-- The chat. -/
structure Network (ι : Type*) where
  server : State
  clients : ι → Process
  flight : List Datagram

namespace Network

/-- What happens next: a step of the server or of a client, or a datagram of
    the flight arrives at the server, at a client, or nowhere. -/
inductive Event (ι : Type*) where
  | server (e : Udp.Event)
  | client (i : ι) (e : Process.Event)
  | arrive (k : Nat)
  | deliver (i : ι) (k : Nat)
  | lose (k : Nat)

/-- The datagrams that the server has sent since. -/
def posts (s s' : Server) : List Datagram :=
  (s'.log.take (s'.log.length - s.log.length)).filterMap Action.posted

variable {ι : Type*} [DecidableEq ι]

/-- A client after a step, and what it sends. -/
def said (s : Network ι) (i : ι) (p : Process) (messages : List Bytes) (flight : List Datagram) :
    Network ι :=
  { s with
    clients := Function.update s.clients i p
    flight := flight ++ messages.map (.request p.addr) }

/-- One step of the chat with a server at the address `home`. Server and
    clients receive what is in flight and nothing else. -/
def step (clk : LocalClock) (home : SockAddr) (s : Network ι) : Event ι → Option (Network ι)
  | .server e =>
      if e.receives then none
      else
        match Udp.step clk s.server e with
        | some server =>
            some { s with
              server := server, flight := s.flight ++ posts s.server.server server.server }
        | none => none
  | .client i e =>
      if e.receives then none
      else
        match (s.clients i).step e with
        | some (p, messages) => some (s.said i p messages s.flight)
        | none => none
  | .arrive k =>
      match s.flight[k]? with
      | some (.request src message) =>
          match Udp.step clk s.server (.datagram src message) with
          | some server => some { s with server := server, flight := s.flight.eraseIdx k }
          | none => none
      | _ => none
  | .deliver i k =>
      match s.flight[k]? with
      | some (.answer _ dst message) =>
          -- The client does not look at `via`, which is not in the datagram.
          if dst = (s.clients i).addr then
            match (s.clients i).step (.run (.datagram home message)) with
            | some (p, messages) => some (s.said i p messages (s.flight.eraseIdx k))
            | none => none
          else none
      | _ => none
  | .lose k => if k < s.flight.length then some { s with flight := s.flight.eraseIdx k } else none

/-- The steps, by what they do. -/
inductive Move (clk : LocalClock) (home : SockAddr) (s : Network ι) :
    Event ι → Network ι → Prop where
  | server (e : Udp.Event) (server : State) (he : ¬ e.receives = true)
      (hstep : Udp.step clk s.server e = some server) :
      Move clk home s (.server e) { s with
        server := server, flight := s.flight ++ posts s.server.server server.server }
  | client (i : ι) (e : Process.Event) (p : Process) (messages : List Bytes)
      (he : ¬ e.receives = true)
      (hstep : (s.clients i).step e = some (p, messages)) :
      Move clk home s (.client i e) (s.said i p messages s.flight)
  | arrive (k : Nat) (src : SockAddr) (message : Bytes) (server : State)
      (hk : s.flight[k]? = some (.request src message))
      (hstep : Udp.step clk s.server (.datagram src message) = some server) :
      Move clk home s (.arrive k) { s with server := server, flight := s.flight.eraseIdx k }
  | deliver (i : ι) (k : Nat) (via : Via) (message : Bytes) (p : Process) (messages : List Bytes)
      (hk : s.flight[k]? = some (.answer via (s.clients i).addr message))
      (hstep : (s.clients i).step (.run (.datagram home message)) = some (p, messages)) :
      Move clk home s (.deliver i k) (s.said i p messages (s.flight.eraseIdx k))
  | lose (k : Nat) (d : Datagram) (hk : s.flight[k]? = some d) :
      Move clk home s (.lose k) { s with flight := s.flight.eraseIdx k }

theorem step_move {clk : LocalClock} {home : SockAddr} {s s' : Network ι} {e : Event ι}
    (h : step clk home s e = some s') : Move clk home s e s' := by
  cases e with
  | server e =>
      simp only [step] at h
      split at h
      · cases h
      · rename_i he
        split at h
        · rename_i server hstep
          rw [← Option.some.inj h]
          exact .server e server he hstep
        · cases h
  | client i e =>
      simp only [step] at h
      split at h
      · cases h
      · rename_i he
        split at h
        · rename_i p messages hstep
          rw [← Option.some.inj h]
          exact .client i e p messages he hstep
        · cases h
  | arrive k =>
      simp only [step] at h
      split at h
      · rename_i src message hk
        split at h
        · rename_i server hstep
          rw [← Option.some.inj h]
          exact .arrive k src message server hk hstep
        · cases h
      · cases h
  | deliver i k =>
      simp only [step] at h
      split at h
      · rename_i via dst message hk
        split at h
        · rename_i hdst
          rw [hdst] at hk
          split at h
          · rename_i p messages hstep
            rw [← Option.some.inj h]
            exact .deliver i k via message p messages hk hstep
          · cases h
        · cases h
      · cases h
  | lose k =>
      simp only [step] at h
      split at h
      · rename_i hk
        rw [← Option.some.inj h]
        exact .lose k _ (List.getElem?_eq_getElem hk)
      · cases h

end Network

end Udp

end OsLabs
