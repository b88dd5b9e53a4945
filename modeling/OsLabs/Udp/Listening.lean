import OsLabs.Library.Machine
import OsLabs.Udp.Client

/-!
# The Client and Its Socket

`register_with_server`, `receive_messages` and the input loop of
`cw12/assignment/client.c`. The socket of the client is not connected, so a
datagram of anybody reaches it. `recvfrom` says where a datagram came from, in
both places where the client calls it, and the client does not look. The
first datagram that comes is the answer to its registration, whoever sent it,
anybody's `ALIVE` is answered, and an empty datagram is taken for a failure of
the connection.

The client is followed here up to the end of its input loop. What it does
behind that, while it waits for its other thread, is said where the whole
process is modelled. What is printed is left out, but for the greeting after a
registration, which is where the input loop begins.

## Main definitions

* `Sending`: What the client sends, all of it to its server.
* `Listener`, `Listener.Event`, `Listener.step`: The client.
* `Listener.Move`: The steps, by what they do.

## Theorems

* `step_move`: Every step is a move.
* `receive_eq_self_iff`: The datagrams that change nothing.
-/

namespace OsLabs

namespace Udp

open Machine

/-- What the client sends: its registration, an answer to a probe, or what the
    user typed. -/
inductive Sending where
  | register (message : Bytes)
  | pong
  | typed (input : Bytes)
  deriving DecidableEq

namespace Listener

/-- Where the main thread stands. From `prompt` on it is registered and has
    started the receiving thread; it is about to test `running`, or in
    `fgets`. -/
inductive Phase where
  | start
  | waiting
  | prompt
  | reading
  | failed
  | left
  deriving DecidableEq

/-- The input loop is going on. -/
def Phase.chatting : Phase → Bool
  | .prompt | .reading => true
  | _ => false

end Listener

/-- The client. Its receiving thread is in `recvfrom` as long as it is chatting
    and `running` is set, since only that thread clears it before the input
    loop ends. -/
structure Listener where
  phase : Listener.Phase
  running : Bool
  sent : List Sending
  deriving DecidableEq

namespace Listener

/-- What happens next. `register` is the `sendto` of the registration with the
    time limit set, the two errors are its failing calls, and `recvError` is a
    `recvfrom` that fails or runs out of time. -/
inductive Event where
  | register
  | sendtoError
  | setsockoptError
  | datagram (src : SockAddr) (bytes : Bytes)
  | recvError
  | loop
  | line (bytes : Bytes)
  | eof
  | sendError (bytes : Bytes)

/-- What the client finds in its buffer. -/
def received (bytes : Bytes) : Bytes := cstr (bytes.take (bufferSize - 1))

/-- The state in which `register_with_server` is called. -/
def init : Listener where
  phase := .start
  running := true
  sent := []

/-- The registration of `client_name`. -/
def registerMsg (name : Bytes) : Bytes := snprintf bufferSize (text "REGISTER " ++ name)

/-- A turn of the loop in `receive_messages`, with what `recvfrom` returns. -/
def receive (s : Listener) (bytes : Bytes) : Listener :=
  if bytes = [] then { s with running := false }
  else if strncmpEq (received bytes) (text "ALIVE") then { s with sent := s.sent ++ [.pong] }
  else s

/-- One step of the client with the given name. -/
def step (name : Bytes) (s : Listener) : Event → Option Listener
  | .register =>
      match s.phase with
      | .start =>
          some { s with phase := .waiting, sent := s.sent ++ [.register (registerMsg name)] }
      | _ => none
  | .sendtoError =>
      match s.phase with
      | .start => some { s with phase := .failed }
      | _ => none
  | .setsockoptError =>
      match s.phase with
      | .start => some { s with phase := .failed, sent := s.sent ++ [.register (registerMsg name)] }
      | _ => none
  | .datagram _ bytes =>
      -- The address is there, and not used.
      match s.phase with
      | .waiting =>
          if bytes = [] then some { s with phase := .failed }
          else if strncmpEq (received bytes) (text "OK:") then some { s with phase := .prompt }
          else some { s with phase := .failed }
      | .prompt | .reading => if s.running then some (s.receive bytes) else none
      | _ => none
  | .recvError =>
      match s.phase with
      | .waiting => some { s with phase := .failed }
      | .prompt | .reading => if s.running then some { s with running := false } else none
      | _ => none
  | .loop =>
      match s.phase with
      | .prompt => some { s with phase := if s.running then .reading else .left }
      | _ => none
  | .line bytes =>
      match s.phase with
      | .reading =>
          match inputTurn bytes with
          | .skip => some { s with phase := .prompt }
          | .send input => some { s with phase := .prompt, sent := s.sent ++ [.typed input] }
          | .quit => some { s with phase := .left, sent := s.sent ++ [.typed (text "QUIT")] }
      | _ => none
  | .eof =>
      match s.phase with
      | .reading => some { s with phase := .left }
      | _ => none
  | .sendError bytes =>
      match s.phase with
      | .reading =>
          match inputTurn bytes with
          | .send _ => some { s with phase := .left }
          | _ => none
      | _ => none

/-- The steps, by what they do. -/
inductive Move (name : Bytes) (s : Listener) : Event → Listener → Prop where
  | register (hphase : s.phase = .start) :
      Move name s .register
        { s with phase := .waiting, sent := s.sent ++ [.register (registerMsg name)] }
  | sendtoError (hphase : s.phase = .start) : Move name s .sendtoError { s with phase := .failed }
  | setsockoptError (hphase : s.phase = .start) :
      Move name s .setsockoptError
        { s with phase := .failed, sent := s.sent ++ [.register (registerMsg name)] }
  | answer (src : SockAddr) (bytes : Bytes) (phase : Phase) (hphase : s.phase = .waiting)
      (hanswer : phase = .failed ∨
        phase = .prompt ∧ strncmpEq (received bytes) (text "OK:") = true) :
      Move name s (.datagram src bytes) { s with phase := phase }
  | receive (src : SockAddr) (bytes : Bytes) (hchat : s.phase.chatting = true)
      (hrunning : s.running = true) : Move name s (.datagram src bytes) (s.receive bytes)
  | unanswered (hphase : s.phase = .waiting) : Move name s .recvError { s with phase := .failed }
  | recvError (hchat : s.phase.chatting = true) (hrunning : s.running = true) :
      Move name s .recvError { s with running := false }
  | loop (hphase : s.phase = .prompt) :
      Move name s .loop { s with phase := if s.running then .reading else .left }
  | skip (bytes : Bytes) (hphase : s.phase = .reading) :
      Move name s (.line bytes) { s with phase := .prompt }
  | send (bytes input : Bytes) (hphase : s.phase = .reading) :
      Move name s (.line bytes) { s with phase := .prompt, sent := s.sent ++ [.typed input] }
  | quit (bytes : Bytes) (hphase : s.phase = .reading) :
      Move name s (.line bytes) { s with phase := .left, sent := s.sent ++ [.typed (text "QUIT")] }
  | eof (hphase : s.phase = .reading) : Move name s .eof { s with phase := .left }
  | sendError (bytes : Bytes) (hphase : s.phase = .reading) :
      Move name s (.sendError bytes) { s with phase := .left }

/-- The receiving thread takes a step as long as `running` is set. -/
theorem running_of_step {s s' next : Listener}
    (h : (if s.running then some next else none) = some s') : s.running = true ∧ next = s' := by
  cases hrunning : s.running with
  | true =>
      rw [hrunning, if_pos rfl] at h
      exact ⟨rfl, Option.some.inj h⟩
  | false =>
      rw [hrunning, if_neg Bool.false_ne_true] at h
      cases h

theorem step_move_datagram {name : Bytes} {s s' : Listener} {src : SockAddr} {bytes : Bytes}
    (h : step name s (.datagram src bytes) = some s') : Move name s (.datagram src bytes) s' := by
  -- The answer to the registration is read by `main`, what comes later by the thread.
  simp only [step] at h
  split at h
  · rename_i hphase
    split at h
    · rw [← Option.some.inj h]
      exact .answer src bytes _ hphase (Or.inl rfl)
    · split at h
      · rename_i hok
        rw [← Option.some.inj h]
        exact .answer src bytes _ hphase (Or.inr ⟨rfl, hok⟩)
      · rw [← Option.some.inj h]
        exact .answer src bytes _ hphase (Or.inl rfl)
  · rename_i hphase
    rcases running_of_step h with ⟨hrunning, hnext⟩
    rw [← hnext]
    exact .receive src bytes (by rw [hphase]; rfl) hrunning
  · rename_i hphase
    rcases running_of_step h with ⟨hrunning, hnext⟩
    rw [← hnext]
    exact .receive src bytes (by rw [hphase]; rfl) hrunning
  · cases h

theorem step_move_recvError {name : Bytes} {s s' : Listener}
    (h : step name s .recvError = some s') : Move name s .recvError s' := by
  simp only [step] at h
  split at h
  · rename_i hphase
    rw [← Option.some.inj h]
    exact .unanswered hphase
  · rename_i hphase
    rcases running_of_step h with ⟨hrunning, hnext⟩
    rw [← hnext]
    exact .recvError (by rw [hphase]; rfl) hrunning
  · rename_i hphase
    rcases running_of_step h with ⟨hrunning, hnext⟩
    rw [← hnext]
    exact .recvError (by rw [hphase]; rfl) hrunning
  · cases h

theorem step_move_line {name : Bytes} {s s' : Listener} {bytes : Bytes}
    (h : step name s (.line bytes) = some s') : Move name s (.line bytes) s' := by
  simp only [step] at h
  split at h
  · rename_i hphase
    cases hturn : inputTurn bytes with
    | skip =>
        simp only [hturn, Option.some.injEq] at h
        rw [← h]
        exact .skip bytes hphase
    | send input =>
        simp only [hturn, Option.some.injEq] at h
        rw [← h]
        exact .send bytes input hphase
    | quit =>
        simp only [hturn, Option.some.injEq] at h
        rw [← h]
        exact .quit bytes hphase
  · cases h

theorem step_move {name : Bytes} {s s' : Listener} {e : Event} (h : step name s e = some s') :
    Move name s e s' := by
  cases e with
  -- Three events have cases of their own, the others happen in one phase.
  | datagram src bytes => exact step_move_datagram h
  | recvError => exact step_move_recvError h
  | line bytes => exact step_move_line h
  | register =>
      simp only [step] at h
      split at h
      · rename_i hphase
        rw [← Option.some.inj h]
        exact .register hphase
      · cases h
  | sendtoError =>
      simp only [step] at h
      split at h
      · rename_i hphase
        rw [← Option.some.inj h]
        exact .sendtoError hphase
      · cases h
  | setsockoptError =>
      simp only [step] at h
      split at h
      · rename_i hphase
        rw [← Option.some.inj h]
        exact .setsockoptError hphase
      · cases h
  | loop =>
      simp only [step] at h
      split at h
      · rename_i hphase
        rw [← Option.some.inj h]
        exact .loop hphase
      · cases h
  | eof =>
      simp only [step] at h
      split at h
      · rename_i hphase
        rw [← Option.some.inj h]
        exact .eof hphase
      · cases h
  | sendError bytes =>
      simp only [step] at h
      split at h
      · rename_i hphase
        split at h
        · rw [← Option.some.inj h]
          exact .sendError bytes hphase
        · cases h
      · cases h

/-- A turn that changes nothing. -/
theorem receive_eq_self_iff {s : Listener} {bytes : Bytes} (hrunning : s.running = true) :
    s.receive bytes = s ↔
      bytes ≠ [] ∧ ¬ strncmpEq (received bytes) (text "ALIVE") = true := by
  unfold receive
  by_cases hempty : bytes = []
  · rw [if_pos hempty]
    refine iff_of_false (fun heq => ?_) (fun h => h.1 hempty)
    have hstopped := congrArg Listener.running heq
    rw [hrunning] at hstopped
    exact absurd hstopped Bool.false_ne_true
  · rw [if_neg hempty]
    by_cases halive : strncmpEq (received bytes) (text "ALIVE") = true
    · rw [if_pos halive]
      refine iff_of_false (fun heq => ?_) (fun h => h.2 halive)
      have hlength := congrArg (fun s : Listener => s.sent.length) heq
      simp only [List.length_append, List.length_singleton] at hlength
      omega
    · rw [if_neg halive]
      exact iff_of_true rfl ⟨hempty, halive⟩

/-- What the user types is no answer to a probe. -/
theorem count_pong_append (sent : List Sending) {m : Sending} (hm : m ≠ .pong) :
    (sent ++ [m]).count .pong = sent.count .pong := by
  rw [List.count_append, List.count_singleton, beq_false_of_ne hm]
  exact Nat.add_zero _

end Listener

end Udp

end OsLabs
