import OsLabs.Library.CString
import OsLabs.Library.Slots

/-!
# The Chat over System V Queues

`cw07/assignment`: clients send to one queue, which the server reads in
order, and each client reads a queue of its own.

The server does one thing at a time, so what it does with a message is a
function: of the registry, of the message, and of what `msgget` returns if it
is called. The `msgsnd` calls it makes are returned as a list, in order.
Where a message goes from there is not the server's business, and not this
module's.

A text is the string that the array of `MAX_TEXT` bytes holds. Both programs
set `mtype` to one and read any type, so it is left out, as are the messages
on the console.

## Main definitions

* `Message`, `Response`: What goes to the server and what comes back.
* `Server`: The registry, `clients` and `client_count`.
* `Server.broadcastMessage`: The function of the same name.
* `Server.receive`: One turn of the loop in the server's `main`.
* `initMessage`, `lineMessage`: The messages a client sends.
* `Server.Filled`: The registry is filled from the left.

## Theorems

* `receive_cases`: The ways in which the server answers a message.
* `filled_receive`: The registry stays filled from the left.
* `mem_broadcastMessage`: Who is sent a message.
-/

namespace OsLabs

namespace Sysv

/-- `MAX_CLIENTS` -/
def maxClients : Nat := 10

/-- `MAX_TEXT` -/
def maxText : Nat := 256

/-- `key_t` -/
abbrev Key := UInt32

/-- `IPC_PRIVATE` -/
def ipcPrivate : Key := 0

/-- `SERVER_QUEUE_KEY` -/
def serverQueueKey : Key := 1234

/-- What `msgget` returns. -/
abbrev QueueId := Nat

/-- `message`. A client that has an id puts it in the place of its pid. -/
structure Message where
  pid : Int
  clientQueueKey : Key
  text : Bytes
  deriving DecidableEq

/-- `response` -/
structure Response where
  clientId : Int
  text : Bytes
  deriving DecidableEq

/-- `client_info` -/
structure ClientInfo where
  clientId : Int
  queueId : QueueId
  active : Bool
  deriving DecidableEq

/-- The registry. -/
structure Server where
  clients : Fin maxClients → ClientInfo
  clientCount : Nat

/-- The registry in the beginning, with all bytes zero. -/
def Server.init : Server := ⟨fun _ => ⟨0, 0, false⟩, 0⟩

/-- What `%d` prints. -/
def decimal (n : Int) : Bytes := text (toString n)

/-- The response to everybody but the sender. -/
def chatResponse (senderId : Int) (msg : Bytes) : Response where
  clientId := senderId
  text := snprintf maxText (text "Client " ++ decimal senderId ++ text ": " ++ msg)

/-- The response to a registration. -/
def idResponse (id : Int) : Response where
  clientId := id
  text := snprintf maxText (text "Your client ID is " ++ decimal id)

/-- The word that a request begins with. -/
def initWord : Bytes := text "INIT"

/-- `strncmp(msg.text, "INIT", 4) == 0` -/
def Message.isInit (m : Message) : Bool := strncmpEq m.text initWord

/-- The message with which a client asks for an id. -/
def initMessage (pid : Nat) (key : Key) : Message := ⟨pid, key, initWord⟩

/-- The message that the input loop of a client makes of what `fgets` read. -/
def lineMessage (clientId : Int) (input : Bytes) : Message := ⟨clientId, ipcPrivate, cstr input⟩

namespace Server

def broadcastMessage (s : Server) (senderId : Int) (msg : Bytes) : List (QueueId × Response) :=
  (List.finRange maxClients).filterMap fun i =>
    if (s.clients i).active ∧ (s.clients i).clientId ≠ senderId then
      some ((s.clients i).queueId, chatResponse senderId msg)
    else none

/-- The entry that a registration fills in. -/
def register (s : Server) (i : Fin maxClients) (queueId : QueueId) : Server where
  clients := Function.update s.clients i ⟨s.clientCount + 1, queueId, true⟩
  clientCount := s.clientCount + 1

/-- One turn of the loop in `main`, with what `msgget` returns for the key of
    the message: the registry after it, and the `msgsnd` calls made. -/
def receive (s : Server) (opened : Option QueueId) (m : Message) :
    Server × List (QueueId × Response) :=
  if m.isInit then
    if h : s.clientCount < maxClients then
      match opened with
      | none => (s, [])
      | some queueId =>
          (s.register ⟨s.clientCount, h⟩ queueId, [(queueId, idResponse (s.clientCount + 1))])
    -- The request is dropped without an answer.
    else (s, [])
  else (s, s.broadcastMessage m.pid m.text)

/-- The ways in which the server answers a message. -/
inductive Answer (s : Server) (opened : Option QueueId) (m : Message) (s' : Server)
    (sends : List (QueueId × Response)) : Prop where
  | chat (hchat : m.isInit = false) (hserver : s' = s)
      (hsends : sends = s.broadcastMessage m.pid m.text)
  | full (hinit : m.isInit = true) (hfull : ¬ s.clientCount < maxClients) (hserver : s' = s)
      (hsends : sends = [])
  | unopened (hinit : m.isInit = true) (hroom : s.clientCount < maxClients)
      (hopened : opened = none) (hserver : s' = s) (hsends : sends = [])
  | registered (hinit : m.isInit = true) (hroom : s.clientCount < maxClients)
      (queueId : QueueId) (hopened : opened = some queueId)
      (hserver : s' = s.register ⟨s.clientCount, hroom⟩ queueId)
      (hsends : sends = [(queueId, idResponse (s.clientCount + 1))])

theorem receive_cases (s : Server) (opened : Option QueueId) (m : Message) :
    Answer s opened m (s.receive opened m).1 (s.receive opened m).2 := by
  unfold receive
  by_cases hinit : m.isInit = true
  · rw [if_pos hinit]
    by_cases hroom : s.clientCount < maxClients
    · rw [dif_pos hroom]
      cases hopened : opened with
      | none => exact .unopened hinit hroom rfl rfl rfl
      | some queueId => exact .registered hinit hroom queueId rfl rfl rfl
    · rw [dif_neg hroom]
      exact .full hinit hroom rfl rfl
  · rw [if_neg hinit]
    exact .chat (Bool.eq_false_of_not_eq_true hinit) rfl rfl

/-- The registry is filled from the left, and the ids count the entries. -/
structure Filled (s : Server) : Prop where
  count : s.clientCount ≤ maxClients
  active : ∀ i, (s.clients i).active = true ↔ i.val < s.clientCount
  ids : ∀ i, i.val < s.clientCount → (s.clients i).clientId = i.val + 1

theorem filled_init : Filled init where
  count := Nat.zero_le _
  active := fun i => by
    have hempty : (init.clients i).active = false := rfl
    rw [hempty]
    exact iff_of_false Bool.false_ne_true (Nat.not_lt_zero _)
  ids := fun i h => absurd h (Nat.not_lt_zero _)

theorem register_self (s : Server) (i : Fin maxClients) (queueId : QueueId) :
    (s.register i queueId).clients i = ⟨s.clientCount + 1, queueId, true⟩ :=
  Function.update_self ..

theorem register_of_ne (s : Server) {i j : Fin maxClients} (queueId : QueueId) (h : j ≠ i) :
    (s.register i queueId).clients j = s.clients j :=
  Function.update_of_ne h ..

theorem filled_register {s : Server} (h : Filled s) (hroom : s.clientCount < maxClients)
    (queueId : QueueId) : Filled (s.register ⟨s.clientCount, hroom⟩ queueId) := by
  have hcount : (s.register ⟨s.clientCount, hroom⟩ queueId).clientCount = s.clientCount + 1 := rfl
  refine ⟨hroom, fun i => ?_, fun i hi => ?_⟩
  · rw [hcount]
    by_cases hlast : i = ⟨s.clientCount, hroom⟩
    · rw [hlast, register_self]
      exact iff_of_true rfl (Nat.lt_succ_self _)
    · have hne : i.val ≠ s.clientCount := fun heq => hlast (Fin.ext heq)
      rw [register_of_ne s queueId hlast, h.active i]
      omega
  · rw [hcount] at hi
    by_cases hlast : i = ⟨s.clientCount, hroom⟩
    · rw [hlast, register_self]
    · have hne : i.val ≠ s.clientCount := fun heq => hlast (Fin.ext heq)
      rw [register_of_ne s queueId hlast]
      exact h.ids i (by omega)

theorem filled_receive {s : Server} (h : Filled s) (opened : Option QueueId) (m : Message) :
    Filled (s.receive opened m).1 := by
  cases receive_cases s opened m with
  | chat hchat hserver hsends => rwa [hserver]
  | full hinit hfull hserver hsends => rwa [hserver]
  | unopened hinit hroom hopened hserver hsends => rwa [hserver]
  | registered hinit hroom queueId hopened hserver hsends =>
      rw [hserver]
      exact filled_register h hroom queueId

/-- Two entries in use have different ids. -/
theorem Filled.id_inj {s : Server} (h : Filled s) {i j : Fin maxClients}
    (hi : (s.clients i).active = true) (hj : (s.clients j).active = true)
    (hij : (s.clients i).clientId = (s.clients j).clientId) : i = j := by
  rw [h.ids i ((h.active i).mp hi), h.ids j ((h.active j).mp hj)] at hij
  exact Fin.ext (by omega)

theorem mem_broadcastMessage {s : Server} {senderId : Int} {msg : Bytes}
    {x : QueueId × Response} : x ∈ s.broadcastMessage senderId msg ↔
      ∃ i, (s.clients i).active = true ∧ (s.clients i).clientId ≠ senderId ∧
        x = ((s.clients i).queueId, chatResponse senderId msg) := by
  unfold broadcastMessage
  simp only [List.mem_filterMap, List.mem_finRange, true_and, Option.ite_none_right_eq_some,
    Option.some.injEq, and_assoc]
  constructor
  · rintro ⟨i, hactive, hne, heq⟩
    exact ⟨i, hactive, hne, heq.symm⟩
  · rintro ⟨i, hactive, hne, heq⟩
    exact ⟨i, hactive, hne, heq.symm⟩

end Server

end Sysv

end OsLabs
