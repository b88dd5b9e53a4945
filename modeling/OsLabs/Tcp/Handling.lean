import OsLabs.Chat.Commands
import OsLabs.Library.Machine
import OsLabs.Tcp.Server

/-!
# One Turn of a Handler

What a turn of the loop in `handle_client` does when no other thread takes a
step: from the write of `last_ping` to the next test of the loop, or to the
return of the thread.

## Main definitions

* `Command.ofRequest`: The requests of the chat, as commands here.
* `Server.handleBuffer`: The turn, as a function of the server.
* `Server.others`: The slots that a broadcast goes to.
* `State.at`, `Finishes`: The handler of a connection takes its steps.

## Theorems

* `parse_request`, `parse_eq_stop`: The commands are those requests.
* `handleBuffer_run`: The steps of the handler compute it.
* `broadcastMessage_eq`: What a broadcast sends.
* `sent_removeClient`, `active_removeClient`: What a removal changes.
-/

namespace OsLabs

namespace Tcp

open Machine

/-- The command that a request is here. -/
def Command.ofRequest : Chat.Request → Command
  | .list => .list
  | .toAll message => .toAll message
  | .toOne targetName message => .toOne targetName message
  | .leave => .stop
  | .ping => .ping
  | .other => .ignored

theorem parse_request (buffer : Bytes) :
    parse buffer = .ofRequest (Chat.request (text "STOP") buffer) := by
  unfold parse Chat.request
  split
  · rfl
  · split
    · rfl
    · split
      · cases strchrSplit 32 (buffer.drop 5) <;> rfl
      · split
        · rfl
        · split <;> rfl

theorem ofRequest_eq_stop {r : Chat.Request} : Command.ofRequest r = .stop ↔ r = .leave := by
  cases r <;> simp only [Command.ofRequest, reduceCtorEq]

theorem parse_eq_stop {b : Bytes} : parse b = .stop ↔ strncmpEq b (text "STOP") = true := by
  rw [parse_request, ofRequest_eq_stop]
  exact Chat.request_eq_leave (by decide) (by decide)

namespace Server

/-- What the handler of slot `id` does with a buffer, and where it stands
    afterwards. -/
def handleBuffer (clk : LocalClock) (now : Nat) (s : Server) (id : Slot) (buffer : Bytes) :
    Server × Pc :=
  let s := s.touch id now
  match parse (cstr buffer) with
  | .list => (s.send (s.clients id).socket s.listReply, .test)
  | .toAll message =>
      (s.broadcastMessage (allText (clk.stamp now) (s.clients id).name.str message) id, .test)
  | .toOne targetName message =>
      match s.findClientByName targetName with
      | some targetId =>
          let s := s.sendToClient (oneText (clk.stamp now) (s.clients id).name.str message) targetId
          (s.send (s.clients id).socket (confirmText targetName), .test)
      | none => (s.send (s.clients id).socket (notFoundText targetName), .test)
  | .stop => (s.removeClient id, .exited)
  | .ping => (s.send (s.clients id).socket (text "PONG\n"), .test)
  | .ignored => (s, .test)

end Server

/-- The state with another server, and the handler of `c` somewhere. -/
def State.at (s : State) (c : Conn) (id : Slot) (server : Server) (pc : Pc) : State :=
  { s with server := server, threads := Function.update s.threads c (some ⟨id, pc⟩) }

/-- The handler of a connection gets there, with nobody else taking a step. -/
def Finishes (clk : LocalClock) (c : Conn) (s t : State) : Prop :=
  ∃ k, exec (step clk) s (List.replicate k (.thread c)) = some t

theorem Finishes.refl (clk : LocalClock) (c : Conn) (s : State) : Finishes clk c s s := ⟨0, rfl⟩

theorem Finishes.head {clk : LocalClock} {s t : State} {c : Conn} {id : Slot}
    {server server' : Server} {pc pc' : Pc}
    (h : handlerStep clk s.clock server id pc = some (server', pc'))
    (hrest : Finishes clk c (s.at c id server' pc') t) :
    Finishes clk c (s.at c id server pc) t := by
  rcases hrest with ⟨k, hk⟩
  refine ⟨k + 1, ?_⟩
  rw [List.replicate_succ]
  refine exec_cons.mpr ⟨s.at c id server' pc', ?_, hk⟩
  simp only [step, State.at, Function.update_self, h, Function.update_idem]

theorem finishes_reply (clk : LocalClock) (s : State) (c : Conn) (id : Slot) (server : Server)
    (response : Bytes) : Finishes clk c (s.at c id server (.reply response))
      (s.at c id (server.send (server.clients id).socket response) .test) :=
  Finishes.head rfl (Finishes.head rfl (Finishes.refl ..))

/-- The branches of the loop, one step after the other. -/
theorem finishes_handleBuffer (clk : LocalClock) (s : State) (c : Conn) (id : Slot)
    (server : Server) (buffer : Bytes) :
    Finishes clk c (s.at c id server (.touch buffer))
      (s.at c id (server.handleBuffer clk s.clock id buffer).1
        (server.handleBuffer clk s.clock id buffer).2) := by
  refine Finishes.head rfl ?_
  unfold Server.handleBuffer
  cases parse (cstr buffer) with
  | list => exact Finishes.head rfl (finishes_reply ..)
  | toAll message =>
      dsimp only
      exact Finishes.head rfl (Finishes.head rfl (Finishes.refl ..))
  | toOne targetName message =>
      cases hname : (server.touch id s.clock).findClientByName targetName with
      | some targetId =>
          simp only [hname]
          refine Finishes.head (by simp only [dispatch, handlerStep, hname]; rfl) ?_
          exact Finishes.head rfl (Finishes.head rfl (finishes_reply ..))
      | none =>
          simp only [hname]
          refine Finishes.head (by simp only [dispatch, handlerStep, hname]; rfl) ?_
          exact finishes_reply ..
  | stop => exact Finishes.head rfl (Finishes.refl ..)
  | ping => exact finishes_reply ..
  | ignored => exact Finishes.refl ..

/-- Left alone, a handler that has received a buffer does what the loop does
    with it. -/
theorem handleBuffer_run (clk : LocalClock) {s : State} {c : Conn} {id : Slot} {buffer : Bytes}
    (hthread : s.threads c = some ⟨id, .touch buffer⟩) :
    ∃ k, exec (step clk) s (List.replicate k (.thread c)) = some
      (s.at c id (s.server.handleBuffer clk s.clock id buffer).1
        (s.server.handleBuffer clk s.clock id buffer).2) := by
  have hstart : s.at c id s.server (.touch buffer) = s := by
    unfold State.at
    rw [← hthread, Function.update_eq_self]
  rcases finishes_handleBuffer clk s c id s.server buffer with ⟨k, hk⟩
  rw [hstart] at hk
  exact ⟨k, hk⟩

namespace Server

/-- A slot whose `last_ping` was written is the same otherwise. -/
theorem clients_touch (s : Server) (id : Slot) (now : Nat) (i : Slot) :
    (s.touch id now).clients i
      = { s.clients i with lastPing := if i = id then now else (s.clients i).lastPing } := by
  unfold touch
  by_cases hi : i = id
  · rw [if_pos hi, hi]
    exact Function.update_self ..
  · rw [if_neg hi]
    exact Function.update_of_ne hi ..

/-- The slots that a broadcast goes to, in order. -/
def others (s : Server) (senderId : Slot) : List Slot :=
  (List.finRange maxClients).filter fun i => (s.clients i).active && decide (i ≠ senderId)

/-- A broadcast sends the message once to each of the others. -/
theorem broadcastMessage_eq (s : Server) (message : Bytes) (senderId : Slot) :
    s.broadcastMessage message senderId = { s with
      sent := s.sent ++ ((s.others senderId).map fun i => ((s.clients i).socket, message)) } := by
  unfold broadcastMessage others
  -- The induction is on the slots that are left, whatever was sent before.
  generalize List.finRange maxClients = slots
  induction slots generalizing s with
  | nil => rw [List.foldl_nil, List.filter_nil, List.map_nil, List.append_nil]
  | cons i slots ih =>
      rw [List.foldl_cons, List.filter_cons]
      by_cases hsend : (s.clients i).active = true ∧ i ≠ senderId
      · have htest : ((s.clients i).active && decide (i ≠ senderId)) = true := by
          rw [hsend.1, decide_eq_true hsend.2]
          rfl
        rw [if_pos hsend, ih, if_pos htest, List.map_cons, ← List.singleton_append,
          ← List.append_assoc]
        rfl
      · have htest : ¬ ((s.clients i).active && decide (i ≠ senderId)) = true := by
          rwa [Bool.and_eq_true, decide_eq_true_eq]
        rw [if_neg hsend, ih, if_neg htest]

end Server

theorem sent_close (s : Server) (d : Fd) : (s.close d).sent = s.sent := by
  unfold Server.close
  cases s.fds d <;> rfl

theorem sent_removeClient (s : Server) (id : Slot) : (s.removeClient id).sent = s.sent := by
  unfold Server.removeClient
  by_cases hactive : (s.clients id).active = true
  · rw [if_pos hactive]
    exact sent_close s _
  · rw [if_neg hactive]

/-- Only the slot that is removed is deactivated. -/
theorem active_removeClient (s : Server) (id i : Slot) :
    ((s.removeClient id).clients i).active = ((s.clients i).active && !decide (i = id)) := by
  have hclose : ∀ d, (s.close d).clients = s.clients := fun d => by
    unfold Server.close
    cases s.fds d <;> rfl
  unfold Server.removeClient
  by_cases hi : i = id
  · rw [decide_eq_true hi, Bool.not_true, Bool.and_false, hi]
    by_cases hactive : (s.clients id).active = true
    · rw [if_pos hactive]
      simp only [Function.update_self]
    · rw [if_neg hactive]
      exact Bool.not_eq_true _ ▸ hactive
  · rw [decide_eq_false hi, Bool.not_false, Bool.and_true]
    by_cases hactive : (s.clients id).active = true
    · rw [if_pos hactive]
      simp only [Function.update_of_ne hi, hclose]
    · rw [if_neg hactive]

end Tcp

end OsLabs
