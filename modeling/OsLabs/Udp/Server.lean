import OsLabs.Library.CString
import OsLabs.Library.Slots

/-!
# The UDP Chat Server

`cw12/assignment/server.c` as a machine. One thread receives datagrams and
handles each to its end, one thread sweeps the table for silent clients.

A step is a section under `clients_mutex`, or one access to shared data made
outside it: the lookup of the sender's address, the write of `last_ping`, the
lookup of a target's name, each reading of the sender's own name, and each
reply. The sweep may run between any two of them.

A client is the address its registration came from; nothing else ties a
datagram to a slot. The log records what the program leaves no trace of: what
was sent and by which function, which address was registered, and for which
address a `QUIT` was carried out.

Left out are `addr_len`, which is the size of an IPv4 address throughout, and
the messages printed on the console.

## Main definitions

* `Client`: One entry of the table, `client_t`.
* `Server`: The table, its counter and the log.
* `findClientByAddr`, `findClientByName`, `registerClient`, `removeClient`,
  `broadcastMessage`, `sendToClient`: The functions of the same names.
* `pingSweep`: The locked section of `ping_clients`.
* `Command`, `parse`: The commands of the protocol and their recognition.
* `Pc`, `messageStep`: Where the receiving thread stands in `main` and
  `handle_message`, and its next step.
* `MessageTurn`: The branches that the receiving thread takes.
* `State`, `Event`, `step`: The whole server.

## Theorems

* `messageStep_cases`: What the steps of the receiving thread change.
* `step_cases`: What each kind of step does to the server.
-/

namespace OsLabs

namespace Udp

/-- `MAX_CLIENTS` -/
def maxClients : Nat := 50

/-- `MAX_NAME_LEN` -/
def maxNameLen : Nat := 32

/-- `BUFFER_SIZE` -/
def bufferSize : Nat := 1024

/-- `TIMEOUT_SECONDS` -/
def timeoutSeconds : Nat := 60

instance : @NeZero Nat Zero.ofOfNat0 maxClients := ⟨Nat.succ_ne_zero 49⟩

/-- An index into `clients`. -/
abbrev Slot := Fin maxClients

/-- The fields of `struct sockaddr_in` that are compared. -/
structure SockAddr where
  addr : UInt32
  port : UInt16
  deriving DecidableEq

/-- `client_t` -/
structure Client where
  addr : SockAddr
  name : CharArray maxNameLen
  active : Bool
  lastPing : Nat
  registered : Bool

/-- Where a `sendto` stands in the program. -/
inductive Via where
  | reply
  | broadcast
  | toClient
  | alive
  deriving DecidableEq

/-- What the server has done. `quit` is the return of `remove_client` for a
    `QUIT` from the address. -/
inductive Action where
  | sent (via : Via) (dst : SockAddr) (message : Bytes)
  | registered (addr : SockAddr)
  | quit (addr : SockAddr)
  deriving DecidableEq

/-- The table with its counter, and the log, latest entry first. -/
structure Server where
  clients : Slot → Client
  clientCount : Int
  log : List Action

namespace Server

def sendto (s : Server) (via : Via) (dst : SockAddr) (message : Bytes) : Server :=
  { s with log := .sent via dst message :: s.log }

def broadcastMessage (s : Server) (message : Bytes) (senderId : Slot) : Server :=
  (List.finRange maxClients).foldl (fun s i =>
    if (s.clients i).active ∧ i ≠ senderId then s.sendto .broadcast (s.clients i).addr message
    else s) s

def sendToClient (s : Server) (message : Bytes) (clientId : Slot) : Server :=
  if (s.clients clientId).active then s.sendto .toClient (s.clients clientId).addr message else s

def findClientByAddr (s : Server) (addr : SockAddr) : Option Slot :=
  scan fun i => (s.clients i).active && decide ((s.clients i).addr = addr)

def findClientByName (s : Server) (name : Bytes) : Option Slot :=
  scan fun i => (s.clients i).active && (s.clients i).name.str == name

/-- The first slot that is not active, where `register_client` inserts. -/
def freeSlot (s : Server) : Option Slot := scan fun i => !(s.clients i).active

/-- The insertion that `register_client` makes in a free slot. -/
def insertClient (s : Server) (i : Slot) (name : Bytes) (addr : SockAddr) (now : Nat) : Server :=
  { clients := Function.update s.clients i
      { addr := addr, name := (s.clients i).name.strcpyCut name, active := true, lastPing := now,
        registered := true }
    clientCount := s.clientCount + 1
    log := .registered addr :: s.log }

end Server

/-- What `register_client` returns: an index, -2 or -1. -/
inductive Registration where
  | registered (i : Slot)
  | nameUsed
  | full

namespace Server

def registerClient (s : Server) (name : Bytes) (addr : SockAddr) (now : Nat) :
    Server × Registration :=
  match s.findClientByName name with
  | some _ => (s, .nameUsed)
  | none =>
      match s.freeSlot with
      | some i => (s.insertClient i name addr now, .registered i)
      | none => (s, .full)

def removeClient (s : Server) (id : Slot) : Server :=
  if (s.clients id).active then
    { s with
      clients := Function.update s.clients id
        { s.clients id with
          active := false, registered := false, name := CharArray.zero maxNameLen }
      clientCount := s.clientCount - 1 }
  else s

/-- The write of `last_ping` that a datagram of a known sender makes. -/
def touch (s : Server) (id : Slot) (now : Nat) : Server :=
  { s with clients := Function.update s.clients id { s.clients id with lastPing := now } }

/-- One turn of the loop in `ping_clients`. -/
def sweepSlot (now : Nat) (s : Server) (i : Slot) : Server :=
  if (s.clients i).active then
    if (s.clients i).lastPing + timeoutSeconds < now then
      { s with
        clients := Function.update s.clients i
          { s.clients i with active := false, registered := false }
        clientCount := s.clientCount - 1 }
    else s.sendto .alive (s.clients i).addr (text "ALIVE")
  else s

/-- The locked section of `ping_clients`. -/
def pingSweep (now : Nat) (s : Server) : Server :=
  (List.finRange maxClients).foldl (sweepSlot now) s

/-- The `LIST` reply, built under the lock. -/
def listReply (s : Server) : Bytes :=
  (List.finRange maxClients).foldl (fun response i =>
    if (s.clients i).active then
      response ++ snprintf 64 (text "- " ++ (s.clients i).name.str ++ text "\n")
    else response) (text "Aktywni klienci:\n")

end Server

/-- The answer to a registration. -/
def Registration.response : Registration → Bytes
  | .registered _ => text "OK: Zarejestrowano pomyslnie"
  | .nameUsed => text "ERROR: Nazwa juz jest uzywana"
  | .full => text "ERROR: Serwer pelny"

/-- The text of a public message. -/
def allText (timestamp name message : Bytes) : Bytes :=
  snprintf bufferSize (text "[" ++ timestamp ++ text "] " ++ name ++ text ": " ++ message)

/-- The text of a private message. -/
def oneText (timestamp name message : Bytes) : Bytes :=
  snprintf bufferSize (text "[" ++ timestamp ++ text "] " ++ name ++ text " (prywatnie): " ++
    message)

/-- The confirmation of a private message. -/
def confirmText (targetName : Bytes) : Bytes :=
  snprintf bufferSize (text "Wiadomosc wyslana do " ++ targetName)

/-- The refusal of a private message. -/
def notFoundText (targetName : Bytes) : Bytes :=
  snprintf bufferSize (text "Klient " ++ targetName ++ text " nie zostal znaleziony")

/-- What a datagram of a known sender asks for. `ignored` covers a private
    message without a second space and everything unknown. -/
inductive Command where
  | list
  | toAll (message : Bytes)
  | toOne (targetName message : Bytes)
  | quit
  | ping
  | ignored
  deriving DecidableEq

/-- The chain of prefix tests in `handle_message`, after `REGISTER`. -/
def parse (buffer : Bytes) : Command :=
  if strncmpEq buffer (text "LIST") then .list
  else if strncmpEq buffer (text "2ALL ") then .toAll (buffer.drop 5)
  else if strncmpEq buffer (text "2ONE ") then
    match strchrSplit 32 (buffer.drop 5) with
    | some (targetName, message) => .toOne targetName message
    | none => .ignored
  else if strncmpEq buffer (text "QUIT") then .quit
  else if strncmpEq buffer (text "PING") then .ping
  else .ignored

/-- Where the receiving thread stands: in `recvfrom`, or in `handle_message`
    for a datagram from `src`, with the locals it still needs. -/
inductive Pc where
  | recvfrom
  /-- About to look up the sender. -/
  | lookup (src : SockAddr) (buffer : Bytes)
  | register (src : SockAddr) (name : Bytes)
  /-- About to write `last_ping`, then to look at the command. -/
  | touch (src : SockAddr) (id : Slot) (buffer : Bytes)
  | listing (src : SockAddr)
  | formatAll (id : Slot) (message : Bytes)
  | broadcast (id : Slot) (response : Bytes)
  | find (src : SockAddr) (id : Slot) (targetName message : Bytes)
  | formatOne (src : SockAddr) (id targetId : Slot) (targetName message : Bytes)
  | sendTo (src : SockAddr) (targetId : Slot) (targetName response : Bytes)
  /-- About to answer `QUIT`, then to call `remove_client`. -/
  | farewell (src : SockAddr) (id : Slot)
  | remove (src : SockAddr) (id : Slot)
  | reply (src : SockAddr) (response : Bytes)
  deriving DecidableEq

/-- The branch of `handle_message` that a command takes. -/
def dispatch (src : SockAddr) (id : Slot) : Command → Pc
  | .list => .listing src
  | .toAll message => .formatAll id message
  | .toOne targetName message => .find src id targetName message
  | .quit => .farewell src id
  | .ping => .reply src (text "PONG")
  | .ignored => .recvfrom

/-- The next step of the receiving thread. In `recvfrom` it waits for a
    datagram. -/
def messageStep (clk : LocalClock) (now : Nat) (s : Server) : Pc → Option (Server × Pc)
  | .recvfrom => none
  | .lookup src buffer =>
      -- The address is looked up for a registration too, and not used there.
      let clientId := s.findClientByAddr src
      if strncmpEq buffer (text "REGISTER ") then some (s, .register src (buffer.drop 9))
      else
        match clientId with
        | none => some (s, .reply src (text "ERROR: Niezarejestrowany klient"))
        | some id => some (s, .touch src id buffer)
  | .register src name =>
      let (s, result) := s.registerClient name src now
      some (s, .reply src result.response)
  | .touch src id buffer => some (s.touch id now, dispatch src id (parse buffer))
  | .listing src => some (s, .reply src s.listReply)
  | .formatAll id message =>
      some (s, .broadcast id (allText (clk.stamp now) (s.clients id).name.str message))
  | .broadcast id response => some (s.broadcastMessage response id, .recvfrom)
  | .find src id targetName message =>
      match s.findClientByName targetName with
      | some targetId => some (s, .formatOne src id targetId targetName message)
      | none => some (s, .reply src (notFoundText targetName))
  | .formatOne src id targetId targetName message =>
      some (s, .sendTo src targetId targetName
        (oneText (clk.stamp now) (s.clients id).name.str message))
  | .sendTo src targetId targetName response =>
      some (s.sendToClient response targetId, .reply src (confirmText targetName))
  | .farewell src id =>
      some (s.sendto .reply src (text "OK: Do widzenia"), .remove src id)
  | .remove src id =>
      -- The slot may have been emptied since it was looked up.
      let s := s.removeClient id
      some ({ s with log := .quit src :: s.log }, .recvfrom)
  | .reply src response => some (s.sendto .reply src response, .recvfrom)

/-- The steps of the receiving thread, with the branch that each takes. -/
inductive MessageTurn (clk : LocalClock) (now : Nat) (s : Server) : Pc → Server → Pc → Prop where
  | registration (src : SockAddr) (buffer : Bytes)
      (hregister : strncmpEq buffer (text "REGISTER ") = true) :
      MessageTurn clk now s (.lookup src buffer) s (.register src (buffer.drop 9))
  | unknown (src : SockAddr) (buffer : Bytes)
      (hregister : ¬ strncmpEq buffer (text "REGISTER ") = true)
      (hfind : s.findClientByAddr src = none) :
      MessageTurn clk now s (.lookup src buffer) s
        (.reply src (text "ERROR: Niezarejestrowany klient"))
  | known (src : SockAddr) (buffer : Bytes) (id : Slot)
      (hregister : ¬ strncmpEq buffer (text "REGISTER ") = true)
      (hfind : s.findClientByAddr src = some id) :
      MessageTurn clk now s (.lookup src buffer) s (.touch src id buffer)
  | nameUsed (src : SockAddr) (name : Bytes) (i : Slot)
      (hfind : s.findClientByName name = some i) :
      MessageTurn clk now s (.register src name) s (.reply src Registration.nameUsed.response)
  | full (src : SockAddr) (name : Bytes) (hfind : s.findClientByName name = none)
      (hfree : s.freeSlot = none) :
      MessageTurn clk now s (.register src name) s (.reply src Registration.full.response)
  | registered (src : SockAddr) (name : Bytes) (i : Slot)
      (hfind : s.findClientByName name = none) (hfree : s.freeSlot = some i) :
      MessageTurn clk now s (.register src name) (s.insertClient i name src now)
        (.reply src (Registration.registered i).response)
  | touch (src : SockAddr) (id : Slot) (buffer : Bytes) :
      MessageTurn clk now s (.touch src id buffer) (s.touch id now)
        (dispatch src id (parse buffer))
  | listing (src : SockAddr) : MessageTurn clk now s (.listing src) s (.reply src s.listReply)
  | formatAll (id : Slot) (message : Bytes) :
      MessageTurn clk now s (.formatAll id message) s
        (.broadcast id (allText (clk.stamp now) (s.clients id).name.str message))
  | broadcast (id : Slot) (response : Bytes) :
      MessageTurn clk now s (.broadcast id response) (s.broadcastMessage response id) .recvfrom
  | found (src : SockAddr) (id : Slot) (targetName message : Bytes) (targetId : Slot)
      (hfind : s.findClientByName targetName = some targetId) :
      MessageTurn clk now s (.find src id targetName message) s
        (.formatOne src id targetId targetName message)
  | notFound (src : SockAddr) (id : Slot) (targetName message : Bytes)
      (hfind : s.findClientByName targetName = none) :
      MessageTurn clk now s (.find src id targetName message) s
        (.reply src (notFoundText targetName))
  | formatOne (src : SockAddr) (id targetId : Slot) (targetName message : Bytes) :
      MessageTurn clk now s (.formatOne src id targetId targetName message) s
        (.sendTo src targetId targetName
          (oneText (clk.stamp now) (s.clients id).name.str message))
  | sendTo (src : SockAddr) (targetId : Slot) (targetName response : Bytes) :
      MessageTurn clk now s (.sendTo src targetId targetName response)
        (s.sendToClient response targetId) (.reply src (confirmText targetName))
  | farewell (src : SockAddr) (id : Slot) :
      MessageTurn clk now s (.farewell src id) (s.sendto .reply src (text "OK: Do widzenia"))
        (.remove src id)
  | remove (src : SockAddr) (id : Slot) :
      MessageTurn clk now s (.remove src id)
        { s.removeClient id with log := .quit src :: (s.removeClient id).log } .recvfrom
  | reply (src : SockAddr) (response : Bytes) :
      MessageTurn clk now s (.reply src response) (s.sendto .reply src response) .recvfrom

theorem messageStep_cases {clk : LocalClock} {now : Nat} {s server : Server} {pc pc' : Pc}
    (h : messageStep clk now s pc = some (server, pc')) : MessageTurn clk now s pc server pc' := by
  cases pc with
  | recvfrom => exact absurd h (by simp only [messageStep, reduceCtorEq, not_false_eq_true])
  | lookup src buffer =>
      simp only [messageStep] at h
      by_cases hregister : strncmpEq buffer (text "REGISTER ") = true
      · rw [if_pos hregister, Option.some.injEq, Prod.mk.injEq] at h
        rcases h with ⟨rfl, rfl⟩
        exact .registration src buffer hregister
      · rw [if_neg hregister] at h
        cases hfind : s.findClientByAddr src with
        | none =>
            simp only [hfind, Option.some.injEq, Prod.mk.injEq] at h
            rcases h with ⟨rfl, rfl⟩
            exact .unknown src buffer hregister hfind
        | some id =>
            simp only [hfind, Option.some.injEq, Prod.mk.injEq] at h
            rcases h with ⟨rfl, rfl⟩
            exact .known src buffer id hregister hfind
  | register src name =>
      simp only [messageStep, Server.registerClient] at h
      cases hfind : s.findClientByName name with
      | some i =>
          simp only [hfind, Option.some.injEq, Prod.mk.injEq] at h
          rcases h with ⟨rfl, rfl⟩
          exact .nameUsed src name i hfind
      | none =>
          cases hfree : s.freeSlot with
          | none =>
              simp only [hfind, hfree, Option.some.injEq, Prod.mk.injEq] at h
              rcases h with ⟨rfl, rfl⟩
              exact .full src name hfind hfree
          | some i =>
              simp only [hfind, hfree, Option.some.injEq, Prod.mk.injEq] at h
              rcases h with ⟨rfl, rfl⟩
              exact .registered src name i hfind hfree
  | find src id targetName message =>
      simp only [messageStep] at h
      cases hfind : s.findClientByName targetName with
      | none =>
          simp only [hfind, Option.some.injEq, Prod.mk.injEq] at h
          rcases h with ⟨rfl, rfl⟩
          exact .notFound src id targetName message hfind
      | some targetId =>
          simp only [hfind, Option.some.injEq, Prod.mk.injEq] at h
          rcases h with ⟨rfl, rfl⟩
          exact .found src id targetName message targetId hfind
  | touch | listing | formatAll | broadcast | formatOne | sendTo | farewell | remove | reply =>
      simp only [messageStep, Option.some.injEq, Prod.mk.injEq] at h
      rcases h with ⟨rfl, rfl⟩
      constructor

/-- Where the ping thread stands: asleep, or about to take the lock with the
    time it has read. -/
inductive PingPc where
  | sleeping
  | sweeping (now : Nat)

/-- The server with its threads. -/
structure State where
  server : Server
  clock : Nat
  message : Pc
  ping : PingPc

/-- The state in which the receiving loop is entered. -/
def init : State where
  server :=
    { clients := fun _ => ⟨⟨0, 0⟩, CharArray.zero maxNameLen, false, 0, false⟩
      clientCount := 0
      log := [] }
  clock := 0
  message := .recvfrom
  ping := .sleeping

/-- What happens next: the clock moves, a datagram arrives or `recvfrom`
    fails, or a thread takes its next step. -/
inductive Event where
  | time (now : Nat)
  | datagram (src : SockAddr) (bytes : Bytes)
  | recvError
  | message
  | pingWake
  | sweep

/-- One step of the server. A datagram is cut to what `recvfrom` asks for,
    and what it holds after a NUL is never read. -/
def step (clk : LocalClock) (s : State) : Event → Option State
  | .time now => some { s with clock := now }
  | .datagram src bytes =>
      match s.message with
      | .recvfrom => some { s with message := .lookup src (cstr (bytes.take (bufferSize - 1))) }
      | _ => none
  | .recvError =>
      match s.message with
      | .recvfrom => some s
      | _ => none
  | .message =>
      match messageStep clk s.clock s.server s.message with
      | some (server, pc) => some { s with server := server, message := pc }
      | none => none
  | .pingWake =>
      match s.ping with
      | .sleeping => some { s with ping := .sweeping s.clock }
      | .sweeping _ => none
  | .sweep =>
      match s.ping with
      | .sleeping => none
      | .sweeping now => some { s with server := s.server.pingSweep now, ping := .sleeping }

/-- What a step does to the server and the receiving thread: nothing to the
    server, what `messageStep` says, or a sweep. -/
theorem step_cases {clk : LocalClock} {s s' : State} {e : Event}
    (h : step clk s e = some s') :
    (e ≠ .message ∧ s'.server = s.server ∧
      (s'.message = s.message ∨ ∃ src buffer, s'.message = .lookup src buffer ∧ NulFree buffer)) ∨
    (e = .message ∧
      messageStep clk s.clock s.server s.message = some (s'.server, s'.message)) ∨
    (e ≠ .message ∧ ∃ now, s'.server = s.server.pingSweep now ∧ s'.message = s.message) := by
  cases e with
  | time now =>
      left
      simp only [step, Option.some.injEq] at h
      rw [← h]
      exact ⟨by simp only [ne_eq, reduceCtorEq, not_false_eq_true], rfl, Or.inl rfl⟩
  | datagram src bytes =>
      left
      simp only [step] at h
      split at h
      · rw [Option.some.injEq] at h
        rw [← h]
        refine ⟨by simp only [ne_eq, reduceCtorEq, not_false_eq_true], rfl, ?_⟩
        exact Or.inr ⟨src, _, rfl, nulFree_cstr _⟩
      · exact absurd h (by simp only [reduceCtorEq, not_false_eq_true])
  | recvError =>
      left
      simp only [step] at h
      split at h
      · rw [Option.some.injEq] at h
        rw [← h]
        exact ⟨by simp only [ne_eq, reduceCtorEq, not_false_eq_true], rfl, Or.inl rfl⟩
      · exact absurd h (by simp only [reduceCtorEq, not_false_eq_true])
  | message =>
      simp only [step] at h
      split at h
      · rename_i server pc hmessage
        rw [Option.some.injEq] at h
        rw [← h]
        exact Or.inr (Or.inl ⟨rfl, hmessage⟩)
      · exact absurd h (by simp only [reduceCtorEq, not_false_eq_true])
  | pingWake =>
      left
      simp only [step] at h
      split at h
      · rw [Option.some.injEq] at h
        rw [← h]
        exact ⟨by simp only [ne_eq, reduceCtorEq, not_false_eq_true], rfl, Or.inl rfl⟩
      · exact absurd h (by simp only [reduceCtorEq, not_false_eq_true])
  | sweep =>
      right; right
      simp only [step] at h
      split at h
      · exact absurd h (by simp only [reduceCtorEq, not_false_eq_true])
      · rename_i now hping
        rw [Option.some.injEq] at h
        refine ⟨by simp only [ne_eq, reduceCtorEq, not_false_eq_true], now, ?_, ?_⟩
        · rw [← h]
        · rw [← h]

end Udp

end OsLabs
