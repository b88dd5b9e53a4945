import OsLabs.Library.CString
import OsLabs.Library.Slots

/-!
# The TCP Chat Server

`cw11/assignment/server.c` as a machine. One thread accepts connections and
registers them in the table `clients`, one thread per session handles its
commands, and one thread sweeps the table for silent clients.

A step is a section under `clients_mutex`, or one access to shared data made
outside it: the reads of `clients[client_id].active` and `.socket`, the write
of `last_ping`, the lookup of a name, each slot of the name check that the
accept loop makes, and each `recv` and `send`. `recv` takes two steps. On
entry the descriptor is resolved to the connection it stands for at that
moment; the call may then block, and returns from that connection even when
the descriptor has been closed or given away in the meantime.

A descriptor is a number that `close` frees and `accept` may return again, so
connections are named apart from it by the count of `accept` calls that
returned before. A connection that was given a slot is a session, and its
handler thread is filed under it. The fields `session`, `closes` and
`badCloses` record history that the program itself does not keep.

Left out are the peer's address, which no function reads, the messages
printed on the console, and the failure of `malloc` and `pthread_create`.

## Main definitions

* `Client`: One entry of the table, `client_t`.
* `Server`: The table, its counter and the descriptors of the process.
* `findClientByName`, `sendToClient`, `broadcastMessage`, `removeClient`: The
  functions of the same names.
* `Command`, `parse`: The commands of the protocol and their recognition.
* `Pc`, `handlerStep`: Where a handler thread stands and its next step.
* `MainPc`, `mainStep`: The same for the accept loop.
* `pingSweep`: The locked section of `ping_clients`.
* `State`, `Event`, `step`: The whole server.
* `HandlerTurn`, `MainTurn`: The branches that a handler and the accept loop
  take.
* `Turn`: Who takes a step, and what it does to the threads.

## Theorems

* `handlerStep_cases`, `mainStep_cases`: What their steps change.
* `handlerStep_pc`: How a handler gets to the places that matter.
* `accept_cases`, `recvName_cases`, `pingWake_cases`, `sweep_cases`: What the
  other events change.
* `recv_cases`, `thread_cases`: What the steps of a handler change.
* `step_turn`: Every step is a turn of the accept loop, a handler or neither.
-/

namespace OsLabs

namespace Tcp

/-- `MAX_CLIENTS` -/
def maxClients : Nat := 50

/-- `MAX_NAME_LEN` -/
def maxNameLen : Nat := 32

/-- `BUFFER_SIZE` -/
def bufferSize : Nat := 1024

instance : @NeZero Nat Zero.ofOfNat0 maxClients := ⟨Nat.succ_ne_zero 49⟩

/-- An index into `clients`. -/
abbrev Slot := Fin maxClients

/-- A descriptor number. -/
abbrev Fd := Nat

/-- A connection, named by the number of connections accepted before it. -/
abbrev Conn := Nat

/-- `client_t` -/
structure Client where
  socket : Fd
  name : CharArray maxNameLen
  active : Bool
  lastPing : Nat

/-- The table with its counter, and the descriptors of the process. `session`
    is the connection last put in a slot, `closes` the number of `close` calls
    that released a connection, `badCloses` the number that named no open
    descriptor, and `sent` every `send` made. -/
structure Server where
  clients : Slot → Client
  clientCount : Int
  fds : Fd → Option Conn
  session : Slot → Conn
  closes : Conn → Nat
  badCloses : Nat
  sent : List (Fd × Bytes)

namespace Server

def send (s : Server) (d : Fd) (message : Bytes) : Server :=
  { s with sent := s.sent ++ [(d, message)] }

def close (s : Server) (d : Fd) : Server :=
  match s.fds d with
  | none => { s with badCloses := s.badCloses + 1 }
  | some c =>
      { s with
        fds := Function.update s.fds d none
        closes := Function.update s.closes c (s.closes c + 1) }

def broadcastMessage (s : Server) (message : Bytes) (senderId : Slot) : Server :=
  (List.finRange maxClients).foldl (fun s i =>
    if (s.clients i).active ∧ i ≠ senderId then s.send (s.clients i).socket message else s) s

def sendToClient (s : Server) (message : Bytes) (clientId : Slot) : Server :=
  if (s.clients clientId).active then s.send (s.clients clientId).socket message else s

def findClientByName (s : Server) (name : Bytes) : Option Slot :=
  scan fun i => (s.clients i).active && (s.clients i).name.str == name

/-- The first slot that is not active, where the accept loop inserts. -/
def freeSlot (s : Server) : Option Slot := scan fun i => !(s.clients i).active

def removeClient (s : Server) (id : Slot) : Server :=
  if (s.clients id).active then
    let s := s.close (s.clients id).socket
    { s with
      clients := Function.update s.clients id
        { s.clients id with active := false, name := CharArray.zero maxNameLen }
      clientCount := s.clientCount - 1 }
  else s

/-- The insertion that the accept loop makes in a free slot. -/
def register (s : Server) (i : Slot) (d : Fd) (c : Conn) (name : Bytes) (now : Nat) : Server :=
  { s with
    clients := Function.update s.clients i
      { socket := d, name := (s.clients i).name.strcpyCut name, active := true, lastPing := now }
    clientCount := s.clientCount + 1
    session := Function.update s.session i c }

/-- The write of `last_ping` that a handler makes after each `recv`. -/
def touch (s : Server) (id : Slot) (now : Nat) : Server :=
  { s with clients := Function.update s.clients id { s.clients id with lastPing := now } }

/-- One turn of the loop in `ping_clients`. -/
def sweepSlot (now : Nat) (s : Server) (i : Slot) : Server :=
  if (s.clients i).active then
    if (s.clients i).lastPing + 60 < now then
      let s := { s with
        clients := Function.update s.clients i { s.clients i with active := false } }
      let s := s.close (s.clients i).socket
      { s with clientCount := s.clientCount - 1 }
    else s.send (s.clients i).socket (text "ALIVE\n")
  else s

/-- The locked section of `ping_clients`. -/
def pingSweep (now : Nat) (s : Server) : Server :=
  (List.finRange maxClients).foldl (sweepSlot now) s

/-- The `LIST` reply, built under the lock. -/
def listReply (s : Server) : Bytes :=
  (List.finRange maxClients).foldl (fun response i =>
    if (s.clients i).active then
      response ++ snprintf 64 (text "- " ++ (s.clients i).name.str ++ text "\n")
    else response) (text "Aktywni klienci:\n")

end Server

/-- The text of a public message. -/
def allText (timestamp name message : Bytes) : Bytes :=
  snprintf bufferSize (text "[" ++ timestamp ++ text "] " ++ name ++ text ": " ++ message ++
    text "\n")

/-- The text of a private message. -/
def oneText (timestamp name message : Bytes) : Bytes :=
  snprintf bufferSize (text "[" ++ timestamp ++ text "] " ++ name ++ text " (prywatnie): " ++
    message ++ text "\n")

/-- The confirmation of a private message. -/
def confirmText (targetName : Bytes) : Bytes :=
  snprintf bufferSize (text "Wiadomosc wysłana do " ++ targetName ++ text "\n")

/-- The refusal of a private message. -/
def notFoundText (targetName : Bytes) : Bytes :=
  snprintf bufferSize (text "Klient " ++ targetName ++ text " nie zostal znaleziony\n")

/-- What a received buffer asks for. `ignored` covers a private message
    without a second space and everything unknown. -/
inductive Command where
  | list
  | toAll (message : Bytes)
  | toOne (targetName message : Bytes)
  | stop
  | ping
  | ignored
  deriving DecidableEq

/-- The chain of prefix tests in `handle_client`. -/
def parse (buffer : Bytes) : Command :=
  if strncmpEq buffer (text "LIST") then .list
  else if strncmpEq buffer (text "2ALL ") then .toAll (buffer.drop 5)
  else if strncmpEq buffer (text "2ONE ") then
    match strchrSplit 32 (buffer.drop 5) with
    | some (targetName, message) => .toOne targetName message
    | none => .ignored
  else if strncmpEq buffer (text "STOP") then .stop
  else if strncmpEq buffer (text "PING") then .ping
  else .ignored

/-- Where a handler thread stands, with the locals it still needs. -/
inductive Pc where
  /-- At the loop condition, about to read `active`. -/
  | test
  /-- About to read `socket` for `recv`. -/
  | load
  /-- About to enter `recv` on a descriptor. -/
  | recv (d : Fd)
  /-- Inside `recv`, on the connection the descriptor stood for. -/
  | blocked (source : Option Conn)
  /-- About to write `last_ping`, then to look at the command. -/
  | touch (buffer : Bytes)
  | listing
  | formatAll (message : Bytes)
  | broadcast (response : Bytes)
  | find (targetName message : Bytes)
  | formatOne (targetId : Slot) (targetName message : Bytes)
  | sendTo (targetId : Slot) (targetName response : Bytes)
  /-- About to read `socket` for a reply to its own client. -/
  | reply (response : Bytes)
  | sendReply (d : Fd) (response : Bytes)
  /-- Out of the loop, about to call `remove_client`. -/
  | remove
  | exited
  deriving DecidableEq

/-- The branch of the dispatch that a command takes. -/
def dispatch : Command → Pc
  | .list => .listing
  | .toAll message => .formatAll message
  | .toOne targetName message => .find targetName message
  | .stop => .remove
  | .ping => .reply (text "PONG\n")
  | .ignored => .test

/-- The next step of the handler of slot `id`. Blocked threads and threads
    that returned have none. -/
def handlerStep (clk : LocalClock) (now : Nat) (s : Server) (id : Slot) :
    Pc → Option (Server × Pc)
  -- The flag and the descriptor are read without the lock, one after the other.
  | .test => some (s, if (s.clients id).active then .load else .remove)
  | .load => some (s, .recv (s.clients id).socket)
  -- The number is resolved now; a later `close` does not end the call.
  | .recv d => some (s, .blocked (s.fds d))
  | .blocked _ => none
  | .touch buffer => some (s.touch id now, dispatch (parse (cstr buffer)))
  | .listing => some (s, .reply s.listReply)
  | .formatAll message =>
      some (s, .broadcast (allText (clk.stamp now) (s.clients id).name.str message))
  | .broadcast response => some (s.broadcastMessage response id, .test)
  | .find targetName message =>
      match s.findClientByName targetName with
      | some targetId => some (s, .formatOne targetId targetName message)
      | none => some (s, .reply (notFoundText targetName))
  -- Nothing is locked between the lookup and the send.
  | .formatOne targetId targetName message =>
      some (s, .sendTo targetId targetName
        (oneText (clk.stamp now) (s.clients id).name.str message))
  | .sendTo targetId targetName response =>
      some (s.sendToClient response targetId, .reply (confirmText targetName))
  | .reply response => some (s, .sendReply (s.clients id).socket response)
  | .sendReply d response => some (s.send d response, .test)
  | .remove => some (s.removeClient id, .exited)
  | .exited => none

/-- A handler thread: its argument and where it stands. -/
structure Thread where
  clientId : Slot
  pc : Pc
  deriving DecidableEq

/-- Where the accept loop stands. From `recvName` to `drop` it holds the
    descriptor itself; from `welcome` on a slot holds it. -/
inductive MainPc where
  | accept
  | recvName (d : Fd) (c : Conn)
  /-- At slot `i` of `find_client_by_name`. -/
  | scan (d : Fd) (c : Conn) (name : Bytes) (i : Nat)
  | insert (d : Fd) (c : Conn) (name : Bytes)
  /-- About to close after an error, with the message to send before. -/
  | drop (d : Fd) (c : Conn) (error : Option Bytes)
  | welcome (d : Fd) (c : Conn) (i : Slot)
  | spawn (c : Conn) (i : Slot)

/-- The descriptor the accept loop is still responsible for. It is no more once a
    slot has been filled, though the welcome is sent after that. -/
def MainPc.held : MainPc → Option (Fd × Conn)
  | .recvName d c | .scan d c _ _ | .insert d c _ | .drop d c _ => some (d, c)
  | .accept | .welcome _ _ _ | .spawn _ _ => none

/-- The slot that a session has been given while its handler is not running. -/
def MainPc.handed : MainPc → Option (Conn × Slot)
  | .welcome _ c i | .spawn c i => some (c, i)
  | _ => none

/-- Where the ping thread stands: asleep, or about to take the lock with the
    time it has read. -/
inductive PingPc where
  | sleeping
  | sweeping (now : Nat)

/-- What `recv` returns. -/
inductive Recv where
  | data (bytes : Bytes)
  | closed
  | error

/-- The server with its threads. `accepted` counts the connections so far. -/
structure State where
  server : Server
  clock : Nat
  main : MainPc
  ping : PingPc
  threads : Conn → Option Thread
  accepted : Nat

/-- The state in which the accept loop is entered. -/
def init : State where
  server :=
    { clients := fun _ => ⟨0, CharArray.zero maxNameLen, false, 0⟩
      clientCount := 0
      fds := fun _ => none
      session := fun _ => 0
      closes := fun _ => 0
      badCloses := 0
      sent := [] }
  clock := 0
  main := .accept
  ping := .sleeping
  threads := fun _ => none
  accepted := 0

/-- The steps of the accept loop that do not wait for a peer. -/
def mainStep (s : State) : Option State :=
  match s.main with
  | .scan d c name i =>
      if h : i < maxClients then
        let client := s.server.clients ⟨i, h⟩
        if client.active ∧ client.name.str = name then
          some { s with main := .drop d c (some (text "ERROR: Nazwa juz jest uzywana\n")) }
        else some { s with main := .scan d c name (i + 1) }
      else some { s with main := .insert d c name }
  | .insert d c name =>
      match s.server.freeSlot with
      | some i =>
          some { s with server := s.server.register i d c name s.clock, main := .welcome d c i }
      | none => some { s with main := .drop d c (some (text "ERROR: Serwer pelny\n")) }
  | .drop d _ error =>
      -- A peer that hung up is not told anything.
      let server := match error with
        | some message => s.server.send d message
        | none => s.server
      some { s with server := server.close d, main := .accept }
  | .welcome d c i =>
      some { s with
        server := s.server.send d (text "OK: Polaczono z serwerem\n"), main := .spawn c i }
  | .spawn c i =>
      some { s with threads := Function.update s.threads c (some ⟨i, .test⟩), main := .accept }
  | .accept | .recvName _ _ => none

/-- The slot that the next step of the accept loop fills, and the name. -/
def State.fills (s : State) : Option (Slot × Bytes) :=
  match s.main with
  | .insert _ _ name => s.server.freeSlot.map fun i => (i, name)
  | _ => none

theorem State.mem_fills {s : State} {d : Fd} {c : Conn} {name : Bytes} {i : Slot}
    (hmain : s.main = .insert d c name) (hfree : s.server.freeSlot = some i) :
    (i, name) ∈ s.fills := by
  unfold State.fills
  rw [hmain, hfree]
  rfl

/-- What happens next: the clock moves, `accept` returns, `recv` returns in
    the accept loop or in a handler, or a thread takes its next step. -/
inductive Event where
  | time (now : Nat)
  | accept (result : Option Fd)
  | recvName (result : Recv)
  | main
  | pingWake
  | sweep
  | recv (c : Conn) (result : Recv)
  | thread (c : Conn)

/-- One step of the server. `accept` never returns a descriptor that is open;
    a `recv` returns at most as many bytes as it asked for, and on a closed
    descriptor it can only fail. -/
def step (clk : LocalClock) (s : State) : Event → Option State
  | .time now => some { s with clock := now }
  | .accept result =>
      match s.main, result with
      | .accept, none => some s
      | .accept, some d =>
          if s.server.fds d = none then
            some { s with
              server := { s.server with fds := Function.update s.server.fds d (some s.accepted) }
              main := .recvName d s.accepted
              accepted := s.accepted + 1 }
          else none
      | _, _ => none
  | .recvName result =>
      match s.main, result with
      | .recvName d c, .data bytes =>
          if bytes ≠ [] ∧ bytes.length ≤ maxNameLen - 1 then
            some { s with main := .scan d c (cstr bytes) 0 }
          else none
      | .recvName d c, .closed | .recvName d c, .error => some { s with main := .drop d c none }
      | _, _ => none
  | .main => mainStep s
  | .pingWake =>
      match s.ping with
      | .sleeping => some { s with ping := .sweeping s.clock }
      | .sweeping _ => none
  | .sweep =>
      match s.ping with
      | .sleeping => none
      | .sweeping now => some { s with server := s.server.pingSweep now, ping := .sleeping }
  | .recv c result =>
      match s.threads c with
      | some ⟨id, .blocked source⟩ =>
          match source, result with
          | some _, .data bytes =>
              if bytes ≠ [] ∧ bytes.length ≤ bufferSize - 1 then
                some { s with threads := Function.update s.threads c (some ⟨id, .touch bytes⟩) }
              else none
          -- On a descriptor that was closed before the call, it fails.
          | none, .data _ | none, .closed => none
          | some _, .closed | _, .error =>
              some { s with threads := Function.update s.threads c (some ⟨id, .remove⟩) }
      | _ => none
  | .thread c =>
      match s.threads c with
      | some ⟨id, pc⟩ =>
          match handlerStep clk s.clock s.server id pc with
          | some (server, pc') =>
              some { s with
                server := server
                threads := Function.update s.threads c (some ⟨id, pc'⟩) }
          | none => none
      | none => none

/-- The steps of a handler, with the branch that each takes. -/
inductive HandlerTurn (clk : LocalClock) (now : Nat) (s : Server) (id : Slot) :
    Pc → Server → Pc → Prop where
  | goOn (hactive : (s.clients id).active = true) : HandlerTurn clk now s id .test s .load
  | leave (hactive : ¬ (s.clients id).active = true) : HandlerTurn clk now s id .test s .remove
  | load : HandlerTurn clk now s id .load s (.recv (s.clients id).socket)
  | recv (d : Fd) : HandlerTurn clk now s id (.recv d) s (.blocked (s.fds d))
  | touch (buffer : Bytes) :
      HandlerTurn clk now s id (.touch buffer) (s.touch id now) (dispatch (parse (cstr buffer)))
  | listing : HandlerTurn clk now s id .listing s (.reply s.listReply)
  | formatAll (message : Bytes) :
      HandlerTurn clk now s id (.formatAll message) s
        (.broadcast (allText (clk.stamp now) (s.clients id).name.str message))
  | broadcast (response : Bytes) :
      HandlerTurn clk now s id (.broadcast response) (s.broadcastMessage response id) .test
  | found (targetName message : Bytes) (targetId : Slot)
      (hfind : s.findClientByName targetName = some targetId) :
      HandlerTurn clk now s id (.find targetName message) s
        (.formatOne targetId targetName message)
  | notFound (targetName message : Bytes) (hfind : s.findClientByName targetName = none) :
      HandlerTurn clk now s id (.find targetName message) s (.reply (notFoundText targetName))
  | formatOne (targetId : Slot) (targetName message : Bytes) :
      HandlerTurn clk now s id (.formatOne targetId targetName message) s
        (.sendTo targetId targetName
          (oneText (clk.stamp now) (s.clients id).name.str message))
  | sendTo (targetId : Slot) (targetName response : Bytes) :
      HandlerTurn clk now s id (.sendTo targetId targetName response)
        (s.sendToClient response targetId) (.reply (confirmText targetName))
  | reply (response : Bytes) :
      HandlerTurn clk now s id (.reply response) s (.sendReply (s.clients id).socket response)
  | sendReply (d : Fd) (response : Bytes) :
      HandlerTurn clk now s id (.sendReply d response) (s.send d response) .test
  | remove : HandlerTurn clk now s id .remove (s.removeClient id) .exited

theorem handlerStep_cases {clk : LocalClock} {now : Nat} {s server : Server} {id : Slot}
    {pc pc' : Pc} (h : handlerStep clk now s id pc = some (server, pc')) :
    HandlerTurn clk now s id pc server pc' := by
  cases pc with
  | blocked source => exact absurd h (by simp only [handlerStep, reduceCtorEq, not_false_eq_true])
  | exited => exact absurd h (by simp only [handlerStep, reduceCtorEq, not_false_eq_true])
  -- The loop's condition reads `active` at this moment.
  | test =>
      simp only [handlerStep, Option.some.injEq, Prod.mk.injEq] at h
      rcases h with ⟨rfl, rfl⟩
      by_cases hactive : (s.clients id).active = true
      · rw [if_pos hactive]
        exact .goOn hactive
      · rw [if_neg hactive]
        exact .leave hactive
  -- The scan for the target's name finds a slot or none.
  | find targetName message =>
      simp only [handlerStep] at h
      cases hfind : s.findClientByName targetName with
      | none =>
          simp only [hfind, Option.some.injEq, Prod.mk.injEq] at h
          rcases h with ⟨rfl, rfl⟩
          exact .notFound targetName message hfind
      | some targetId =>
          simp only [hfind, Option.some.injEq, Prod.mk.injEq] at h
          rcases h with ⟨rfl, rfl⟩
          exact .found targetName message targetId hfind
  -- The other turns do not branch.
  | load | recv | touch | listing | formatAll | broadcast | formatOne | sendTo | reply | sendReply
  | remove =>
      simp only [handlerStep, Option.some.injEq, Prod.mk.injEq] at h
      rcases h with ⟨rfl, rfl⟩
      constructor

/-- How a handler gets to the places that matter: it loads a descriptor only
    after finding its slot active, it enters `recv` on the number it loaded,
    and it sends a private message to the slot where it found the name. -/
theorem handlerStep_pc {clk : LocalClock} {now : Nat} {s server : Server} {id : Slot}
    {pc pc' : Pc} (h : handlerStep clk now s id pc = some (server, pc')) :
    (pc' = .load → (s.clients id).active = true) ∧
    (∀ d, pc' = .recv d → pc = .load ∧ d = (s.clients id).socket) ∧
    (∀ source, pc' = .blocked source → ∃ d, pc = .recv d ∧ source = s.fds d) ∧
    (∀ i n m, pc' = .formatOne i n m → s.findClientByName n = some i) ∧
    (∀ i n r, pc' = .sendTo i n r → ∃ m, pc = .formatOne i n m) := by
  cases handlerStep_cases h with
  | goOn hactive => simp only [hactive, reduceCtorEq, implies_true, false_implies, and_self]
  | touch buffer =>
      cases parse (cstr buffer) <;>
        simp only [dispatch, reduceCtorEq, false_implies, implies_true, and_self]
  | found targetName message targetId hfind =>
      simp only [reduceCtorEq, false_implies, implies_true, and_true, true_and,
        Pc.formatOne.injEq, and_imp]
      rintro i n m rfl rfl _
      exact hfind
  | formatOne targetId targetName message =>
      simp only [reduceCtorEq, false_implies, implies_true, true_and, Pc.sendTo.injEq, and_imp]
      rintro i n r rfl rfl _
      exact ⟨message, rfl⟩
  | _ =>
      simp only [reduceCtorEq, false_implies, implies_true, and_self, true_and, Pc.recv.injEq,
        Pc.blocked.injEq, forall_eq', exists_eq_left']

/-- The steps of the accept loop, with the branch that each takes. -/
inductive MainTurn (s s' : State) : Prop where
  | taken (d : Fd) (c : Conn) (name : Bytes) (i : Nat) (hmain : s.main = .scan d c name i)
      (heq : s' = { s with main := .drop d c (some (text "ERROR: Nazwa juz jest uzywana\n")) })
  | next (d : Fd) (c : Conn) (name : Bytes) (i : Slot) (hmain : s.main = .scan d c name i)
      (hname : ¬ ((s.server.clients i).active = true ∧ (s.server.clients i).name.str = name))
      (heq : s' = { s with main := .scan d c name (i + 1) })
  | checked (d : Fd) (c : Conn) (name : Bytes) (k : Nat) (hmain : s.main = .scan d c name k)
      (hk : maxClients ≤ k) (heq : s' = { s with main := .insert d c name })
  | full (d : Fd) (c : Conn) (name : Bytes) (hmain : s.main = .insert d c name)
      (hfree : s.server.freeSlot = none)
      (heq : s' = { s with main := .drop d c (some (text "ERROR: Serwer pelny\n")) })
  | insert (d : Fd) (c : Conn) (name : Bytes) (i : Slot) (hmain : s.main = .insert d c name)
      (hfree : s.server.freeSlot = some i)
      (heq : s' = { s with server := s.server.register i d c name s.clock, main := .welcome d c i })
  | drop (d : Fd) (c : Conn) (error : Option Bytes) (hmain : s.main = .drop d c error)
      (heq : s' = { s with
        server := (match error with
          | some message => s.server.send d message
          | none => s.server).close d
        main := .accept })
  | welcome (d : Fd) (c : Conn) (i : Slot) (hmain : s.main = .welcome d c i)
      (heq : s' = { s with
        server := s.server.send d (text "OK: Polaczono z serwerem\n"), main := .spawn c i })
  | spawn (c : Conn) (i : Slot) (hmain : s.main = .spawn c i)
      (heq : s' = { s with
        threads := Function.update s.threads c (some ⟨i, .test⟩), main := .accept })

theorem mainStep_cases {s s' : State} (h : mainStep s = some s') : MainTurn s s' := by
  unfold mainStep at h
  cases hmain : s.main with
  | accept | recvName =>
      rw [hmain] at h
      exact absurd h (by simp only [reduceCtorEq, not_false_eq_true])
  | scan d c name k =>
      rw [hmain] at h
      simp only at h
      -- The slot may have the name that is asked for, or the scan goes on.
      by_cases hk : k < maxClients
      · rw [dif_pos hk] at h
        by_cases hname : (s.server.clients ⟨k, hk⟩).active = true ∧
            (s.server.clients ⟨k, hk⟩).name.str = name
        · rw [if_pos hname, Option.some.injEq] at h
          exact MainTurn.taken d c name k hmain h.symm
        · rw [if_neg hname, Option.some.injEq] at h
          exact MainTurn.next d c name ⟨k, hk⟩ hmain hname h.symm
      · rw [dif_neg hk, Option.some.injEq] at h
        exact MainTurn.checked d c name k hmain (Nat.le_of_not_lt hk) h.symm
  | insert d c name =>
      rw [hmain] at h
      -- The first inactive slot is taken, if there is one.
      cases hfree : s.server.freeSlot with
      | none =>
          simp only [hfree, Option.some.injEq] at h
          exact MainTurn.full d c name hmain hfree h.symm
      | some i =>
          simp only [hfree, Option.some.injEq] at h
          exact MainTurn.insert d c name i hmain hfree h.symm
  | drop d c error =>
      rw [hmain] at h
      simp only [Option.some.injEq] at h
      exact MainTurn.drop d c error hmain h.symm
  | welcome d c i =>
      rw [hmain] at h
      simp only [Option.some.injEq] at h
      exact MainTurn.welcome d c i hmain h.symm
  | spawn c i =>
      rw [hmain] at h
      simp only [Option.some.injEq] at h
      exact MainTurn.spawn c i hmain h.symm

/-- `accept` fails, or returns a connection on a descriptor that is not open. -/
theorem accept_cases {clk : LocalClock} {s s' : State} {result : Option Fd}
    (h : step clk s (.accept result) = some s') :
    s.main = .accept ∧ (s' = s ∨ ∃ d, result = some d ∧ s.server.fds d = none ∧
      s' = { s with
        server := { s.server with fds := Function.update s.server.fds d (some s.accepted) }
        main := .recvName d s.accepted
        accepted := s.accepted + 1 }) := by
  simp only [step] at h
  split at h
  · rename_i hmain
    rw [Option.some.injEq] at h
    exact ⟨hmain, Or.inl h.symm⟩
  · rename_i d hmain
    by_cases hd : s.server.fds d = none
    · rw [if_pos hd, Option.some.injEq] at h
      exact ⟨hmain, Or.inr ⟨d, rfl, hd, h.symm⟩⟩
    · rw [if_neg hd] at h
      exact absurd h (by simp only [reduceCtorEq, not_false_eq_true])
  · exact absurd h (by simp only [reduceCtorEq, not_false_eq_true])

/-- The accept loop receives a name and begins to check it, or gives up. -/
theorem recvName_cases {clk : LocalClock} {s s' : State} {result : Recv}
    (h : step clk s (.recvName result) = some s') :
    ∃ d c, s.main = .recvName d c ∧
      ((∃ bytes : Bytes, bytes.length ≤ maxNameLen - 1 ∧
          s' = { s with main := .scan d c (cstr bytes) 0 }) ∨
        s' = { s with main := .drop d c none }) := by
  simp only [step] at h
  split at h
  · rename_i d c bytes hmain
    by_cases hbytes : bytes ≠ [] ∧ bytes.length ≤ maxNameLen - 1
    · rw [if_pos hbytes, Option.some.injEq] at h
      exact ⟨d, c, hmain, Or.inl ⟨bytes, hbytes.2, h.symm⟩⟩
    · rw [if_neg hbytes] at h
      exact absurd h (by simp only [reduceCtorEq, not_false_eq_true])
  · rename_i d c hmain
    rw [Option.some.injEq] at h
    exact ⟨d, c, hmain, Or.inr h.symm⟩
  · rename_i d c hmain
    rw [Option.some.injEq] at h
    exact ⟨d, c, hmain, Or.inr h.symm⟩
  · exact absurd h (by simp only [reduceCtorEq, not_false_eq_true])

theorem pingWake_cases {clk : LocalClock} {s s' : State} (h : step clk s .pingWake = some s') :
    s' = { s with ping := .sweeping s.clock } := by
  cases hping : s.ping with
  | sleeping =>
      simp only [step, hping, Option.some.injEq] at h
      exact h.symm
  | sweeping now =>
      exact absurd h (by simp only [step, hping, reduceCtorEq, not_false_eq_true])

theorem sweep_cases {clk : LocalClock} {s s' : State} (h : step clk s .sweep = some s') :
    ∃ now, s' = { s with server := s.server.pingSweep now, ping := .sleeping } := by
  cases hping : s.ping with
  | sleeping => exact absurd h (by simp only [step, hping, reduceCtorEq, not_false_eq_true])
  | sweeping now =>
      simp only [step, hping, Option.some.injEq] at h
      exact ⟨now, h.symm⟩

/-- A `recv` that returns in a handler moves that handler and nothing else. -/
theorem recv_cases {clk : LocalClock} {s s' : State} {c : Conn} {result : Recv}
    (h : step clk s (.recv c result) = some s') :
    ∃ id source pc, s.threads c = some ⟨id, .blocked source⟩ ∧
      ((∃ bytes c', result = .data bytes ∧ pc = .touch bytes ∧ source = some c') ∨
        (pc = .remove ∧ ∀ bytes, result ≠ .data bytes)) ∧
      s' = { s with threads := Function.update s.threads c (some ⟨id, pc⟩) } := by
  simp only [step] at h
  split at h
  · rename_i id source hthread
    refine ⟨id, source, ?_⟩
    -- Data goes to the handler; the end of the stream and an error end the loop.
    split at h
    · rename_i c' bytes
      by_cases hbytes : bytes ≠ [] ∧ bytes.length ≤ bufferSize - 1
      · rw [if_pos hbytes, Option.some.injEq] at h
        exact ⟨.touch bytes, hthread, Or.inl ⟨bytes, c', rfl, rfl, rfl⟩, h.symm⟩
      · rw [if_neg hbytes] at h
        exact absurd h (by simp only [reduceCtorEq, not_false_eq_true])
    · exact absurd h (by simp only [reduceCtorEq, not_false_eq_true])
    · exact absurd h (by simp only [reduceCtorEq, not_false_eq_true])
    · rw [Option.some.injEq] at h
      have hdata : ∀ bytes, Recv.closed ≠ .data bytes := fun _ => by
        simp only [ne_eq, reduceCtorEq, not_false_eq_true]
      exact ⟨.remove, hthread, Or.inr ⟨rfl, hdata⟩, h.symm⟩
    · rw [Option.some.injEq] at h
      have hdata : ∀ bytes, Recv.error ≠ .data bytes := fun _ => by
        simp only [ne_eq, reduceCtorEq, not_false_eq_true]
      exact ⟨.remove, hthread, Or.inr ⟨rfl, hdata⟩, h.symm⟩
  · exact absurd h (by simp only [reduceCtorEq, not_false_eq_true])

/-- A handler's step changes the server as `handlerStep` says and moves that
    handler; everything else stays. -/
theorem thread_cases {clk : LocalClock} {s s' : State} {c : Conn}
    (h : step clk s (.thread c) = some s') :
    ∃ id pc server pc', s.threads c = some ⟨id, pc⟩ ∧
      handlerStep clk s.clock s.server id pc = some (server, pc') ∧
      s' = { s with
        server := server
        threads := Function.update s.threads c (some ⟨id, pc'⟩) } := by
  simp only [step] at h
  split at h
  · rename_i id pc hthread
    split at h
    · rename_i server pc' hstep
      rw [Option.some.injEq] at h
      exact ⟨id, pc, server, pc', hthread, hstep, h.symm⟩
    · exact absurd h (by simp only [reduceCtorEq, not_false_eq_true])
  · exact absurd h (by simp only [reduceCtorEq, not_false_eq_true])

/-- The events of a connection that is registered without interruption: it
    gets the number `d`, sends a name, passes the check of all slots, and its
    handler is started. -/
def joining (d : Fd) (name : Bytes) : List Event :=
  [.accept (some d), .recvName (.data name)] ++ List.replicate (maxClients + 4) .main

/-- The connection whose handler an event moves. -/
def Event.conn : Event → Option Conn
  | .recv c _ | .thread c => some c
  | _ => none

/-- Who takes a step: nobody with a thread of its own here, the accept loop
    starting a handler, or a handler. -/
inductive Turn (clk : LocalClock) (s : State) (e : Event) (s' : State) : Prop where
  | others (hevent : e.conn = none) (hthreads : s'.threads = s.threads)
  | spawn (c : Conn) (i : Slot) (hevent : e = .main) (hmain : s.main = .spawn c i)
      (heq : s' = { s with
        threads := Function.update s.threads c (some ⟨i, .test⟩), main := .accept })
  | recv (c : Conn) (result : Recv) (id : Slot) (source : Option Conn) (pc : Pc)
      (hevent : e = .recv c result) (hthread : s.threads c = some ⟨id, .blocked source⟩)
      (hpc : (∃ bytes c', result = .data bytes ∧ pc = .touch bytes ∧ source = some c') ∨
        (pc = .remove ∧ ∀ bytes, result ≠ .data bytes))
      (heq : s' = { s with threads := Function.update s.threads c (some ⟨id, pc⟩) })
  | handler (c : Conn) (id : Slot) (pc : Pc) (server : Server) (pc' : Pc)
      (hevent : e = .thread c) (hthread : s.threads c = some ⟨id, pc⟩)
      (hstep : handlerStep clk s.clock s.server id pc = some (server, pc'))
      (heq : s' = { s with
        server := server
        threads := Function.update s.threads c (some ⟨id, pc'⟩) })

theorem mainStep_turn {clk : LocalClock} {s s' : State} (h : mainStep s = some s') :
    Turn clk s .main s' := by
  cases mainStep_cases h with
  | spawn c i hmain heq => exact Turn.spawn c i rfl hmain heq
  | taken d c name i hmain heq => exact Turn.others rfl (by rw [heq])
  | next d c name i hmain hname heq => exact Turn.others rfl (by rw [heq])
  | checked d c name k hmain hk heq => exact Turn.others rfl (by rw [heq])
  | full d c name hmain hfree heq => exact Turn.others rfl (by rw [heq])
  | insert d c name i hmain hfree heq => exact Turn.others rfl (by rw [heq])
  | drop d c error hmain heq => exact Turn.others rfl (by rw [heq])
  | welcome d c i hmain heq => exact Turn.others rfl (by rw [heq])

theorem step_turn {clk : LocalClock} {s s' : State} {e : Event}
    (h : step clk s e = some s') : Turn clk s e s' := by
  -- Only the accept loop and the handlers change who has a handler.
  cases e with
  | time now =>
      simp only [step, Option.some.injEq] at h
      exact Turn.others rfl (by rw [← h])
  | accept result =>
      rcases (accept_cases h).2 with rfl | ⟨d, _, _, rfl⟩
      · exact Turn.others rfl rfl
      · exact Turn.others rfl rfl
  | recvName result =>
      rcases recvName_cases h with ⟨d, c, _, ⟨bytes, _, rfl⟩ | rfl⟩
      · exact Turn.others rfl rfl
      · exact Turn.others rfl rfl
  | main => exact mainStep_turn h
  | pingWake => exact Turn.others rfl (by rw [pingWake_cases h])
  | sweep =>
      rcases sweep_cases h with ⟨now, rfl⟩
      exact Turn.others rfl rfl
  | recv c result =>
      rcases recv_cases h with ⟨id, source, pc, hthread, hpc, heq⟩
      exact Turn.recv c result id source pc rfl hthread hpc heq
  | thread c =>
      rcases thread_cases h with ⟨id, pc, server, pc', hthread, hstep, heq⟩
      exact Turn.handler c id pc server pc' rfl hthread hstep heq

end Tcp

end OsLabs
