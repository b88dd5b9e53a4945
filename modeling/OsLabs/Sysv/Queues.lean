import OsLabs.Library.Machine
import OsLabs.Sysv.Order

/-!
# One Queue per Client

A client gets a queue of its own from `msgget`, with a key that `ftok` makes
of the directory and of its pid. The server gets the same queue with the same
key, which travels in the request. Of the pid, `ftok` uses the low eight bits
only, and `msgget` opens a queue that exists. So two clients can share a
queue, and then the server sends to one what the other reads.

A queue with key zero is never shared, not even with the server; and the key
of the server's own queue is an ordinary number that `ftok` might return. A
client is on its own with its queue exactly if its key is neither of the two
and no client before it had the key.

The machine has `n` clients that run at the same time, each with a pid, and
the server, which has made its queue. What is left open is `ftok`: a function
of eight bits. Both kinds of message have one size, so whoever reads the
wrong queue gets the bytes of the wrong kind.

## Main definitions

* `Os`, `msgget`, `msgsnd`: Queues, their keys and their contents.
* `World`: The queues, the server, the clients, and what they have received.
* `World.step`: One call of a client, or one turn of the server's loop.
* `OwnQueues`: Every client has a queue of its own, and gets what is its own.
* `Apart`: A queue is not asked for with a key that is in use.

## Theorems

* `msgget_opened`: The server makes queues for key zero only.
* `queues_post`: Sending adds to each queue what was put into it.
* `step_cases`: The steps of the machine.
-/

namespace OsLabs

namespace Sysv

open Machine Server

/-- What is in a queue. -/
inductive Item where
  | message (m : Message)
  | response (r : Response)
  deriving DecidableEq

/-- The bytes of a `key_t`. -/
def keyBytes (k : Key) : Bytes :=
  [k.toUInt8, (k >>> 8).toUInt8, (k >>> 16).toUInt8, (k >>> 24).toUInt8]

/-- The `key_t` that begins an array. -/
def bytesKey : Bytes → Key
  | a :: b :: c :: d :: _ =>
      a.toUInt32 ||| (b.toUInt32 <<< 8) ||| (c.toUInt32 <<< 16) ||| (d.toUInt32 <<< 24)
  | _ => 0

namespace Item

/-- What the server reads. -/
def asMessage : Item → Message
  | message m => m
  | response r => ⟨r.clientId, bytesKey r.text, r.text.drop 4⟩

/-- What a client reads. -/
def asResponse : Item → Response
  | message m => ⟨m.pid, cstr (keyBytes m.clientQueueKey ++ m.text)⟩
  | response r => r

end Item

/-- The queues that exist, and what is in them. -/
structure Os where
  byKey : Key → Option QueueId
  next : QueueId
  queues : QueueId → List Item

/-- The queue that the server has made with `SERVER_QUEUE_KEY`. -/
def serverQueueId : QueueId := 0

namespace Os

def init : Os where
  byKey := fun k => if k = serverQueueKey then some serverQueueId else none
  next := 1
  queues := fun _ => []

/-- `msgget`, with or without `IPC_CREAT`. -/
def msgget (os : Os) (create : Bool) (key : Key) : Option QueueId × Os :=
  -- With key zero the queue is new and found by nobody.
  if key = ipcPrivate then (some os.next, { os with next := os.next + 1 })
  else match os.byKey key with
    | some q => (some q, os)
    | none =>
        if create then
          (some os.next,
            { os with
              byKey := Function.update os.byKey key (some os.next)
              next := os.next + 1 })
        else (none, os)

def msgsnd (os : Os) (q : QueueId) (x : Item) : Os :=
  { os with queues := Function.update os.queues q (os.queues q ++ [x]) }

/-- The `msgsnd` calls that the server makes in one turn. -/
def post (os : Os) (sends : List (QueueId × Response)) : Os :=
  sends.foldl (fun os x => os.msgsnd x.1 (.response x.2)) os

/-- The queue without its first entry. -/
def pop (os : Os) (q : QueueId) : Os :=
  { os with queues := Function.update os.queues q (os.queues q).tail }

/-- Without `IPC_CREAT` nothing changes but for key zero. -/
structure Opened (os : Os) (key : Key) (r : Option QueueId × Os) : Prop where
  byKey : r.2.byKey = os.byKey
  queues : r.2.queues = os.queues
  next : os.next ≤ r.2.next
  found : ∀ q, r.1 = some q →
    (key = ipcPrivate ∧ q = os.next ∧ r.2.next = os.next + 1) ∨
    (key ≠ ipcPrivate ∧ os.byKey key = some q)

theorem msgget_opened (os : Os) (key : Key) : os.Opened key (os.msgget false key) := by
  unfold msgget
  by_cases hkey : key = ipcPrivate
  · rw [if_pos hkey]
    refine ⟨rfl, rfl, Nat.le_succ _, fun q hq => Or.inl ⟨hkey, ?_, rfl⟩⟩
    exact (Option.some.inj hq).symm
  · rw [if_neg hkey]
    cases hfound : os.byKey key with
    | none =>
        refine ⟨rfl, rfl, le_refl _, fun q hq => ?_⟩
        exact absurd hq (by
          simp only [Bool.false_eq_true, if_false, reduceCtorEq, not_false_eq_true])
    | some q' => exact ⟨rfl, rfl, le_refl _, fun q hq => Or.inr ⟨hkey, hfound.trans hq⟩⟩

theorem msgget_of_byKey {os : Os} {create : Bool} {key : Key} {q : QueueId}
    (hkey : key ≠ ipcPrivate) (hfound : os.byKey key = some q) :
    os.msgget create key = (some q, os) := by
  unfold msgget
  rw [if_neg hkey, hfound]

/-- The queues after a client has made one. -/
def made (os : Os) (key : Key) : Os where
  byKey := Function.update os.byKey key (some os.next)
  next := os.next + 1
  queues := os.queues

theorem msgget_of_none {os : Os} {key : Key} (hkey : key ≠ ipcPrivate)
    (hnone : os.byKey key = none) : os.msgget true key = (some os.next, os.made key) := by
  unfold msgget
  rw [if_neg hkey, hnone, if_pos rfl]
  rfl

theorem queues_msgsnd_self (os : Os) (q : QueueId) (x : Item) :
    (os.msgsnd q x).queues q = os.queues q ++ [x] :=
  Function.update_self ..

theorem queues_msgsnd_of_ne (os : Os) {q q' : QueueId} (x : Item) (h : q' ≠ q) :
    (os.msgsnd q x).queues q' = os.queues q' :=
  Function.update_of_ne h ..

theorem queues_pop_self (os : Os) (q : QueueId) : (os.pop q).queues q = (os.queues q).tail :=
  Function.update_self ..

theorem queues_pop_of_ne (os : Os) {q q' : QueueId} (h : q' ≠ q) :
    (os.pop q).queues q' = os.queues q' :=
  Function.update_of_ne h ..

theorem post_cons (os : Os) (x : QueueId × Response) (sends : List (QueueId × Response)) :
    os.post (x :: sends) = (os.msgsnd x.1 (.response x.2)).post sends := rfl

theorem byKey_post (os : Os) (sends : List (QueueId × Response)) :
    (os.post sends).byKey = os.byKey := by
  induction sends generalizing os with
  | nil => rfl
  | cons x sends ih => exact ih _

theorem next_post (os : Os) (sends : List (QueueId × Response)) :
    (os.post sends).next = os.next := by
  induction sends generalizing os with
  | nil => rfl
  | cons x sends ih => exact ih _

/-- Sending adds to each queue what was put into it. -/
theorem queues_post (os : Os) (sends : List (QueueId × Response)) (q : QueueId) :
    (os.post sends).queues q = os.queues q ++ (putInto q sends).map .response := by
  induction sends generalizing os with
  | nil => exact (List.append_nil _).symm
  | cons x sends ih =>
      have hsplit : putInto q (x :: sends) = putInto q [x] ++ putInto q sends :=
        putInto_append q [x] sends
      rw [post_cons, ih, hsplit, List.map_append, ← List.append_assoc]
      congr 1
      by_cases hq : x.1 = q
      · have hself : putInto x.1 [x] = [x.2] := putInto_self x.1 x.2
        rw [← hq, queues_msgsnd_self, hself]
        rfl
      · have hnil : putInto q [x] = [] :=
          putInto_eq_nil fun y hy => by rwa [List.mem_singleton.mp hy]
        rw [queues_msgsnd_of_ne os _ (Ne.symm hq), hnil]
        exact (List.append_nil _).symm

end Os

/-- Where a client is between its calls. -/
inductive Client where
  | starting
  | failed
  | created (q : QueueId)
  | requested (q : QueueId)
  | running (q : QueueId) (clientId : Int)
  deriving DecidableEq

/-- `client_queue_id` -/
def Client.queue : Client → Option QueueId
  | starting => none
  | failed => none
  | created q => some q
  | requested q => some q
  | running q _ => some q

/-- Something that a client has received. -/
structure Receipt (n : Nat) where
  client : Fin n
  queue : QueueId
  response : Response

structure World (n : Nat) where
  os : Os
  server : Server
  /-- The `pid` in the request that an entry of the registry was made for. -/
  registrants : Nat → Int
  clients : Fin n → Client
  received : List (Receipt n)

namespace World

variable {n : Nat}

def init (n : Nat) : World n where
  os := Os.init
  server := Server.init
  registrants := fun _ => 0
  clients := fun _ => .starting
  received := []

inductive Event (n : Nat) where
  | create (p : Fin n)
  | request (p : Fin n)
  | receive (p : Fin n)
  | line (p : Fin n) (input : Bytes)
  | serve

section Step

variable (pid : Fin n → Nat) (ftok : UInt8 → Key)

/-- The key that `ftok` returns to a client. -/
def clientKey (p : Fin n) : Key := ftok (UInt8.ofNat (pid p))

def setClient (w : World n) (p : Fin n) (c : Client) : World n :=
  { w with clients := Function.update w.clients p c }

/-- `ftok` and `msgget` in `main`. -/
def create (w : World n) (p : Fin n) : World n :=
  -- The error value of `ftok`.
  if clientKey pid ftok p = -1 then w.setClient p .failed
  else match w.os.msgget true (clientKey pid ftok p) with
    | (some q, os) => { w with os := os }.setClient p (.created q)
    | (none, os) => { w with os := os }.setClient p .failed

/-- The `msgsnd` calls of the clients. -/
def send (w : World n) (m : Message) : World n :=
  { w with os := w.os.msgsnd serverQueueId (.message m) }

/-- The client reads the first entry of its queue. -/
def read (w : World n) (p : Fin n) (q : QueueId) (x : Item) : World n :=
  { w with
    os := w.os.pop q
    received := w.received ++ [⟨p, q, x.asResponse⟩] }

/-- What `msgget` does in the server's loop, where it is called. -/
def opening (w : World n) (m : Message) : Option QueueId × Os :=
  if m.isInit = true ∧ w.server.clientCount < maxClients then
    (w.os.pop serverQueueId).msgget false m.clientQueueKey
  else (none, w.os.pop serverQueueId)

/-- One turn of the server's loop. -/
def serve (w : World n) (m : Message) : World n where
  os := (w.opening m).2.post (w.server.receive (w.opening m).1 m).2
  server := (w.server.receive (w.opening m).1 m).1
  registrants :=
    if (w.opening m).1.isSome then
      Function.update w.registrants w.server.clientCount m.pid
    else w.registrants
  clients := w.clients
  received := w.received

def step (w : World n) : Event n → Option (World n)
  | .create p =>
      match w.clients p with
      | .starting => some (w.create pid ftok p)
      | _ => none
  | .request p =>
      match w.clients p with
      | .created q =>
          some ((w.send (initMessage (pid p) (clientKey pid ftok p))).setClient p (.requested q))
      | _ => none
  | .receive p =>
      match w.clients p with
      | .requested q =>
          match w.os.queues q with
          | [] => none
          | x :: _ => some ((w.read p q x).setClient p (.running q x.asResponse.clientId))
      | .running q _ =>
          match w.os.queues q with
          | [] => none
          | x :: _ => some (w.read p q x)
      | _ => none
  | .line p input =>
      match w.clients p with
      | .running _ clientId =>
          some (w.send (lineMessage clientId input))
      | _ => none
  | .serve =>
      match w.os.queues serverQueueId with
      | [] => none
      | x :: _ => some (w.serve x.asMessage)

/-- Entry `j` of the registry has queue `q`, and was made for the request of
    client `p`. -/
structure IsEntryOf (w : World n) (j : Fin maxClients) (p : Fin n) (q : QueueId) : Prop where
  active : (w.server.clients j).active = true
  queueId : (w.server.clients j).queueId = q
  registrant : w.registrants j = pid p

/-- Every client has a queue of its own, and gets what is its own. -/
structure OwnQueues (w : World n) : Prop where
  distinct : ∀ p p' q, (w.clients p).queue = some q → (w.clients p').queue = some q → p = p'
  apart : ∀ p q, (w.clients p).queue = some q → q ≠ serverQueueId
  /-- The server finds the queue with the client's key. -/
  found : ∀ p q, (w.clients p).queue = some q →
    (w.os.msgget false (clientKey pid ftok p)).1 = some q
  /-- The id read first is the one assigned to the client. -/
  ids : ∀ p q clientId, w.clients p = .running q clientId →
    ∃ j, w.IsEntryOf pid j p q ∧ (w.server.clients j).clientId = clientId
  /-- What was sent to the queue of an entry is received by the client the
      entry was made for. -/
  received : ∀ x ∈ w.received, ∀ j, (w.server.clients j).active = true →
    (w.server.clients j).queueId = x.queue → w.registrants j = pid x.client

/-- A client does not ask for a queue with key zero, with the server's key or
    with that of another client. -/
def Apart (w : World n) : Event n → Prop
  | .create p => clientKey pid ftok p ≠ -1 → clientKey pid ftok p ≠ ipcPrivate ∧
      clientKey pid ftok p ≠ serverQueueKey ∧
      ∀ p', (w.clients p').queue ≠ none → clientKey pid ftok p' ≠ clientKey pid ftok p
  | _ => True

instance decidableApart (w : World n) : ∀ e, Decidable (w.Apart pid ftok e)
  | .create p => inferInstanceAs (Decidable (clientKey pid ftok p ≠ -1 →
      clientKey pid ftok p ≠ ipcPrivate ∧ clientKey pid ftok p ≠ serverQueueKey ∧
      ∀ p', (w.clients p').queue ≠ none → clientKey pid ftok p' ≠ clientKey pid ftok p))
  | .request _ => isTrue trivial
  | .receive _ => isTrue trivial
  | .line _ _ => isTrue trivial
  | .serve => isTrue trivial

inductive StepCases (w w' : World n) (e : Event n) : Prop where
  | create (p : Fin n) (hevent : e = .create p) (hpc : w.clients p = .starting)
      (heq : w' = w.create pid ftok p)
  | request (p : Fin n) (q : QueueId) (hevent : e = .request p) (hpc : w.clients p = .created q)
      (heq : w' = (w.send (initMessage (pid p) (clientKey pid ftok p))).setClient p (.requested q))
  | receiveId (p : Fin n) (q : QueueId) (x : Item) (rest : List Item) (hevent : e = .receive p)
      (hpc : w.clients p = .requested q) (hqueue : w.os.queues q = x :: rest)
      (heq : w' = (w.read p q x).setClient p (.running q x.asResponse.clientId))
  | receive (p : Fin n) (q : QueueId) (clientId : Int) (x : Item) (rest : List Item)
      (hevent : e = .receive p) (hpc : w.clients p = .running q clientId)
      (hqueue : w.os.queues q = x :: rest) (heq : w' = w.read p q x)
  | line (p : Fin n) (q : QueueId) (clientId : Int) (input : Bytes) (hevent : e = .line p input)
      (hpc : w.clients p = .running q clientId) (heq : w' = w.send (lineMessage clientId input))
  | serve (x : Item) (rest : List Item) (hevent : e = .serve)
      (hqueue : w.os.queues serverQueueId = x :: rest) (heq : w' = w.serve x.asMessage)

theorem step_cases {pid : Fin n → Nat} {ftok : UInt8 → Key} {w w' : World n} {e : Event n}
    (h : step pid ftok w e = some w') : StepCases pid ftok w w' e := by
  cases e with
  | create p =>
      -- Each event is possible at one place of the client only,
      cases hpc : w.clients p <;> simp only [step, hpc, Option.some.injEq, reduceCtorEq] at h
      exact .create p rfl hpc h.symm
  | request p =>
      cases hpc : w.clients p <;> simp only [step, hpc, Option.some.injEq, reduceCtorEq] at h
      exact .request p _ rfl hpc h.symm
  | receive p =>
      cases hpc : w.clients p <;> simp only [step, hpc, reduceCtorEq] at h
      · rename_i q
        -- or with something in the queue that is read.
        cases hqueue : w.os.queues q <;>
          simp only [hqueue, Option.some.injEq, reduceCtorEq] at h
        exact .receiveId p q _ _ rfl hpc hqueue h.symm
      · rename_i q clientId
        cases hqueue : w.os.queues q <;>
          simp only [hqueue, Option.some.injEq, reduceCtorEq] at h
        exact .receive p q clientId _ _ rfl hpc hqueue h.symm
  | line p input =>
      cases hpc : w.clients p <;> simp only [step, hpc, Option.some.injEq, reduceCtorEq] at h
      exact .line p _ _ input rfl hpc h.symm
  | serve =>
      cases hqueue : w.os.queues serverQueueId <;>
        simp only [step, hqueue, Option.some.injEq, reduceCtorEq] at h
      exact .serve _ _ rfl hqueue h.symm

end Step

end World

end Sysv

end OsLabs
