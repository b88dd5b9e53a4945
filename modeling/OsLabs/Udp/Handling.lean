import OsLabs.Chat.Commands
import OsLabs.Library.Machine
import OsLabs.Udp.Server

/-!
# A Datagram Handled Without Interruption

The steps that the receiving thread takes for one datagram, put together to
the function `handle_message` that they are the steps of. Between two of them
the sweep may come in; what a datagram does when it does not is what the
function says, and `handle_run` shows that the machine can do it.

The lemmas on what is sent look at the log. A registered sender stays one
while its datagram is handled, since only `last_ping` of its slot changes.

## Main definitions

* `handleMessage`: The function of the same name.
* `handle`: What becomes of the server when a datagram arrives.
* `Handled`: The branches of `handleMessage`.
* `Command.ofRequest`: The requests of the chat, as commands here.
* `others`: The slots that a broadcast goes to.

## Theorems

* `handle_run`: The machine handles a datagram in this way.
* `handle_of_short`: A datagram that fits is handled as it is.
* `parse_request`: The commands are those requests.
* `parse_eq_quit`, `parse_eq_toOne`: What is taken for a `QUIT` or a private
  message.
* `handleMessage_cases`: What a datagram can come to.
* `clients_touch`: A slot whose `last_ping` was written is the same otherwise.
* `broadcastMessage_eq`: What a broadcast does to the log.
-/

namespace OsLabs

namespace Udp

open Machine

namespace Server

/-- `handle_message`, for a datagram that arrives at time `now`. -/
def handleMessage (clk : LocalClock) (now : Nat) (s : Server) (src : SockAddr) (buffer : Bytes) :
    Server :=
  if strncmpEq buffer (text "REGISTER ") then
    let (s, result) := s.registerClient (buffer.drop 9) src now
    s.sendto .reply src result.response
  else
    match s.findClientByAddr src with
    | none => s.sendto .reply src (text "ERROR: Niezarejestrowany klient")
    | some id =>
        let s := s.touch id now
        match parse buffer with
        | .list => s.sendto .reply src s.listReply
        | .toAll message =>
            s.broadcastMessage (allText (clk.stamp now) (s.clients id).name.str message) id
        | .toOne targetName message =>
            match s.findClientByName targetName with
            | some targetId =>
                (s.sendToClient (oneText (clk.stamp now) (s.clients id).name.str message)
                  targetId).sendto .reply src (confirmText targetName)
            | none => s.sendto .reply src (notFoundText targetName)
        | .quit =>
            let s := (s.sendto .reply src (text "OK: Do widzenia")).removeClient id
            { s with log := .quit src :: s.log }
        | .ping => s.sendto .reply src (text "PONG")
        | .ignored => s

end Server

/-- The server after a datagram from `src`, with the time standing still. -/
def handle (clk : LocalClock) (s : State) (src : SockAddr) (bytes : Bytes) : State :=
  { s with server :=
      s.server.handleMessage clk s.clock src (cstr (bytes.take (bufferSize - 1))) }

/-- The receiving thread gets there, with nobody else taking a step. -/
def Finishes (clk : LocalClock) (s t : State) : Prop :=
  ∃ k, exec (step clk) s (List.replicate k .message) = some t

theorem Finishes.refl (clk : LocalClock) (s : State) : Finishes clk s s := ⟨0, rfl⟩

theorem Finishes.head {clk : LocalClock} {s server : Server} {clock : Nat} {pc pc' : Pc}
    {ping : PingPc} {t : State} (h : messageStep clk clock s pc = some (server, pc'))
    (hrest : Finishes clk ⟨server, clock, pc', ping⟩ t) : Finishes clk ⟨s, clock, pc, ping⟩ t := by
  rcases hrest with ⟨k, hk⟩
  refine ⟨k + 1, ?_⟩
  rw [List.replicate_succ]
  exact exec_cons.mpr ⟨_, by simp only [step, h], hk⟩

theorem finishes_reply (clk : LocalClock) (s : Server) (clock : Nat) (ping : PingPc)
    (src : SockAddr) (response : Bytes) :
    Finishes clk ⟨s, clock, .reply src response, ping⟩
      ⟨s.sendto .reply src response, clock, .recvfrom, ping⟩ :=
  Finishes.head rfl (Finishes.refl ..)

/-- The branches of `handle_message`, one step after the other. -/
theorem finishes_handleMessage (clk : LocalClock) (s : Server) (clock : Nat) (ping : PingPc)
    (src : SockAddr) (buffer : Bytes) :
    Finishes clk ⟨s, clock, .lookup src buffer, ping⟩
      ⟨s.handleMessage clk clock src buffer, clock, .recvfrom, ping⟩ := by
  unfold Server.handleMessage
  by_cases hregister : strncmpEq buffer (text "REGISTER ") = true
  · rw [if_pos hregister]
    refine Finishes.head (by simp only [messageStep, if_pos hregister]; rfl) ?_
    exact Finishes.head rfl (finishes_reply ..)
  · rw [if_neg hregister]
    cases hfind : s.findClientByAddr src with
    | none =>
        refine Finishes.head (by simp only [messageStep, if_neg hregister, hfind]; rfl) ?_
        exact finishes_reply ..
    | some id =>
        refine Finishes.head (by simp only [messageStep, if_neg hregister, hfind]; rfl) ?_
        refine Finishes.head rfl ?_
        cases parse buffer with
        | list => exact Finishes.head rfl (finishes_reply ..)
        | toAll message => exact Finishes.head rfl (Finishes.head rfl (Finishes.refl ..))
        | toOne targetName message =>
            cases hname : (s.touch id clock).findClientByName targetName with
            | some targetId =>
                simp only [hname]
                refine Finishes.head (by simp only [dispatch, messageStep, hname]; rfl) ?_
                exact Finishes.head rfl (Finishes.head rfl (finishes_reply ..))
            | none =>
                simp only [hname]
                refine Finishes.head (by simp only [dispatch, messageStep, hname]; rfl) ?_
                exact finishes_reply ..
        | quit => exact Finishes.head rfl (Finishes.head rfl (Finishes.refl ..))
        | ping => exact finishes_reply ..
        | ignored => exact Finishes.refl ..

/-- Left alone, the receiving thread does what `handle_message` does. -/
theorem handle_run (clk : LocalClock) {s : State} (hidle : s.message = .recvfrom) (src : SockAddr)
    (bytes : Bytes) : ∃ k, exec (step clk) s (.datagram src bytes :: List.replicate k .message)
      = some (handle clk s src bytes) := by
  -- The first step takes the datagram, and the rest is the thread's own.
  rcases s with ⟨server, clock, pc, ping⟩
  cases hidle
  rcases finishes_handleMessage clk server clock ping src (cstr (bytes.take (bufferSize - 1)))
    with ⟨k, hk⟩
  exact ⟨k, exec_cons.mpr ⟨_, rfl, hk⟩⟩

/-- A datagram without a NUL that fits the buffer is handled as it is. -/
theorem handle_of_short (clk : LocalClock) (s : State) (src : SockAddr) {bytes : Bytes}
    (hnul : NulFree bytes) (hfits : bytes.length ≤ bufferSize - 1) :
    (handle clk s src bytes).server = s.server.handleMessage clk s.clock src bytes := by
  have hbuffer : cstr (bytes.take (bufferSize - 1)) = bytes := by
    rw [List.take_of_length_le hfits, cstr_of_nulFree hnul]
  unfold handle
  rw [hbuffer]

/-- The command that a request is here. -/
def Command.ofRequest : Chat.Request → Command
  | .list => .list
  | .toAll message => .toAll message
  | .toOne targetName message => .toOne targetName message
  | .leave => .quit
  | .ping => .ping
  | .other => .ignored

theorem parse_request (buffer : Bytes) :
    parse buffer = .ofRequest (Chat.request (text "QUIT") buffer) := by
  unfold parse Chat.request
  split
  · rfl
  · split
    · rfl
    · split
      · cases strchrSplit 32 (buffer.drop 5) <;> rfl
      · split
        · rfl
        · split <;> rfl

theorem ofRequest_eq_quit {r : Chat.Request} : Command.ofRequest r = .quit ↔ r = .leave := by
  cases r <;> simp only [Command.ofRequest, reduceCtorEq]

theorem parse_eq_quit {buffer : Bytes} :
    parse buffer = .quit ↔ strncmpEq buffer (text "QUIT") = true := by
  rw [parse_request, ofRequest_eq_quit]
  exact Chat.request_eq_leave (by decide) (by decide)

theorem parse_eq_toOne {buffer targetName message : Bytes}
    (h : parse buffer = .toOne targetName message) :
    strncmpEq buffer (text "2ONE ") = true ∧
      strchrSplit 32 (buffer.drop 5) = some (targetName, message) := by
  rw [parse_request] at h
  have hrequest : Chat.request (text "QUIT") buffer = .toOne targetName message := by
    cases hcase : Chat.request (text "QUIT") buffer with
    | toOne name rest =>
        rw [hcase, Command.ofRequest, Command.toOne.injEq] at h
        rw [h.1, h.2]
    | list | toAll | leave | ping | other =>
        rw [hcase] at h
        exact Command.noConfusion h
  exact Chat.request_eq_toOne hrequest

/-- The branches of `handle_message`, each with the server it leaves. -/
inductive Handled (clk : LocalClock) (now : Nat) (s : Server) (src : SockAddr) (buffer : Bytes) :
    Server → Prop where
  | registered (i : Slot) (hregister : strncmpEq buffer (text "REGISTER ") = true)
      (hname : s.findClientByName (buffer.drop 9) = none) (hfree : s.freeSlot = some i) :
      Handled clk now s src buffer ((s.insertClient i (buffer.drop 9) src now).sendto .reply src
        (Registration.registered i).response)
  | nameUsed (i : Slot) (hregister : strncmpEq buffer (text "REGISTER ") = true)
      (hname : s.findClientByName (buffer.drop 9) = some i) :
      Handled clk now s src buffer (s.sendto .reply src Registration.nameUsed.response)
  | full (hregister : strncmpEq buffer (text "REGISTER ") = true)
      (hname : s.findClientByName (buffer.drop 9) = none) (hfree : s.freeSlot = none) :
      Handled clk now s src buffer (s.sendto .reply src Registration.full.response)
  | unknown (hregister : ¬ strncmpEq buffer (text "REGISTER ") = true)
      (hfind : s.findClientByAddr src = none) :
      Handled clk now s src buffer (s.sendto .reply src (text "ERROR: Niezarejestrowany klient"))
  | list (id : Slot) (hregister : ¬ strncmpEq buffer (text "REGISTER ") = true)
      (hfind : s.findClientByAddr src = some id) (hparse : parse buffer = .list) :
      Handled clk now s src buffer
        ((s.touch id now).sendto .reply src (s.touch id now).listReply)
  | toAll (id : Slot) (message : Bytes) (hregister : ¬ strncmpEq buffer (text "REGISTER ") = true)
      (hfind : s.findClientByAddr src = some id) (hparse : parse buffer = .toAll message) :
      Handled clk now s src buffer ((s.touch id now).broadcastMessage
        (allText (clk.stamp now) ((s.touch id now).clients id).name.str message) id)
  | toOne (id targetId : Slot) (targetName message : Bytes)
      (hregister : ¬ strncmpEq buffer (text "REGISTER ") = true)
      (hfind : s.findClientByAddr src = some id)
      (hparse : parse buffer = .toOne targetName message)
      (hname : (s.touch id now).findClientByName targetName = some targetId) :
      Handled clk now s src buffer (((s.touch id now).sendToClient
        (oneText (clk.stamp now) ((s.touch id now).clients id).name.str message)
          targetId).sendto .reply src (confirmText targetName))
  | notFound (id : Slot) (targetName message : Bytes)
      (hregister : ¬ strncmpEq buffer (text "REGISTER ") = true)
      (hfind : s.findClientByAddr src = some id)
      (hparse : parse buffer = .toOne targetName message)
      (hname : (s.touch id now).findClientByName targetName = none) :
      Handled clk now s src buffer
        ((s.touch id now).sendto .reply src (notFoundText targetName))
  | quit (id : Slot) (hregister : ¬ strncmpEq buffer (text "REGISTER ") = true)
      (hfind : s.findClientByAddr src = some id) (hparse : parse buffer = .quit) :
      Handled clk now s src buffer
        { ((s.touch id now).sendto .reply src (text "OK: Do widzenia")).removeClient id with
          log := .quit src
            :: (((s.touch id now).sendto .reply src (text "OK: Do widzenia")).removeClient id).log }
  | ping (id : Slot) (hregister : ¬ strncmpEq buffer (text "REGISTER ") = true)
      (hfind : s.findClientByAddr src = some id) (hparse : parse buffer = .ping) :
      Handled clk now s src buffer ((s.touch id now).sendto .reply src (text "PONG"))
  | ignored (id : Slot) (hregister : ¬ strncmpEq buffer (text "REGISTER ") = true)
      (hfind : s.findClientByAddr src = some id) (hparse : parse buffer = .ignored) :
      Handled clk now s src buffer (s.touch id now)

theorem handleMessage_cases (clk : LocalClock) (now : Nat) (s : Server) (src : SockAddr)
    (buffer : Bytes) : Handled clk now s src buffer (s.handleMessage clk now src buffer) := by
  unfold Server.handleMessage
  by_cases hregister : strncmpEq buffer (text "REGISTER ") = true
  · rw [if_pos hregister]
    unfold Server.registerClient
    cases hname : s.findClientByName (buffer.drop 9) with
    | some i => exact .nameUsed i hregister hname
    | none =>
        cases hfree : s.freeSlot with
        | some i => exact .registered i hregister hname hfree
        | none => exact .full hregister hname hfree
  · rw [if_neg hregister]
    cases hfind : s.findClientByAddr src with
    | none => exact .unknown hregister hfind
    | some id =>
        cases hparse : parse buffer with
        | list => exact .list id hregister hfind hparse
        | toAll message => exact .toAll id message hregister hfind hparse
        | toOne targetName message =>
            cases hname : (s.touch id now).findClientByName targetName with
            | some targetId =>
                simp only [hname]
                exact .toOne id targetId targetName message hregister hfind hparse hname
            | none =>
                simp only [hname]
                exact .notFound id targetName message hregister hfind hparse hname
        | quit => exact .quit id hregister hfind hparse
        | ping => exact .ping id hregister hfind hparse
        | ignored => exact .ignored id hregister hfind hparse

namespace Server

/-- A slot whose `last_ping` was written is the same otherwise. -/
theorem clients_touch (s : Server) (id : Slot) (now : Nat) (i : Slot) :
    (s.touch id now).clients i
      = { s.clients i with lastPing := if i = id then now else (s.clients i).lastPing } := by
  unfold touch
  by_cases hi : i = id
  · rw [if_pos hi, hi]
    exact Function.update_self ..
  · rw [if_neg hi]
    exact Function.update_of_ne hi ..

theorem findClientByName_touch (s : Server) (id : Slot) (now : Nat) (name : Bytes) :
    (s.touch id now).findClientByName name = s.findClientByName name := by
  simp only [findClientByName, clients_touch]

theorem findClientByAddr_touch (s : Server) (id : Slot) (now : Nat) (addr : SockAddr) :
    (s.touch id now).findClientByAddr addr = s.findClientByAddr addr := by
  simp only [findClientByAddr, clients_touch]

/-- The slots that a broadcast goes to, in order. -/
def others (s : Server) (senderId : Slot) : List Slot :=
  (List.finRange maxClients).filter fun i => (s.clients i).active && decide (i ≠ senderId)

/-- A broadcast sends the message once to each of the others. -/
theorem broadcastMessage_eq (s : Server) (message : Bytes) (senderId : Slot) :
    s.broadcastMessage message senderId = { s with log :=
      ((s.others senderId).map fun i => .sent .broadcast (s.clients i).addr message).reverse
        ++ s.log } := by
  unfold broadcastMessage others
  -- The induction is on the slots that are left, whatever was sent before.
  generalize List.finRange maxClients = slots
  induction slots generalizing s with
  | nil => rfl
  | cons i slots ih =>
      rw [List.foldl_cons, List.filter_cons]
      by_cases hsend : (s.clients i).active = true ∧ i ≠ senderId
      · have htest : ((s.clients i).active && decide (i ≠ senderId)) = true := by
          rw [hsend.1, decide_eq_true hsend.2]
          rfl
        rw [if_pos hsend, ih, if_pos htest, List.map_cons, List.reverse_cons, List.append_assoc]
        rfl
      · have htest : ¬ ((s.clients i).active && decide (i ≠ senderId)) = true := by
          rwa [Bool.and_eq_true, decide_eq_true_eq]
        rw [if_neg hsend, ih, if_neg htest]

end Server

end Udp

end OsLabs
