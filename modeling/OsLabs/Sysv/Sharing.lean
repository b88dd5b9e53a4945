import OsLabs.Sysv.Queues

/-!
# Who Shares a Queue

The hand-shake is right as long as each client asks for its queue with a key
of its own. Then the key leads the server to that queue; the entry made for
the client's request is the only one with it; and the first thing put there
is the id. What the server sends to the queue of an entry is read by nobody
but the client the entry was made for.

The first client to ask with a key that is in use shares a queue from then
on, and the property is lost at once. Two clients that run at the same time
do this if the low bytes of their pids are the same.

## Main definitions

* `Waiting`: The first thing a client will read is its id.
* `Good`: The invariant of runs in which nobody shares a queue.

## Theorems

* `good_congr`: Steps that leave queues with their owners.
* `good_create`: A key of its own gives a client a queue of its own.
* `good_quiet`, `good_registered`: A turn of the server keeps the invariant.
* `apart_of_ownQueues`: Any other key does not.
* `own_queues_iff`: Runs with keys of their own are the ones that are right.
-/

namespace OsLabs

namespace Sysv

open Machine Server

namespace World

variable {n : Nat} {pid : Fin n → Nat} {ftok : UInt8 → Key}

/-- The queue of a client that has not read its id. -/
def awaited : Client → Option QueueId
  | .created q => some q
  | .requested q => some q
  | _ => none

theorem queue_of_awaited {c : Client} {q : QueueId} (h : awaited c = some q) :
    c.queue = some q := by
  cases c with
  | created q' => exact h
  | requested q' => exact h
  | starting => exact absurd h (by simp only [awaited, reduceCtorEq, not_false_eq_true])
  | failed => exact absurd h (by simp only [awaited, reduceCtorEq, not_false_eq_true])
  | running q' clientId => exact absurd h (by simp only [awaited, reduceCtorEq, not_false_eq_true])

/-- The first thing that client `p` will read from queue `q` is its id. -/
def Waiting (pid : Fin n → Nat) (w : World n) (p : Fin n) (q : QueueId) : Prop :=
  (w.os.queues q = [] ∧
    ∀ j, (w.server.clients j).active = true → (w.server.clients j).queueId ≠ q) ∨
  ∃ j rest, w.IsEntryOf pid j p q ∧
    w.os.queues q = .response (idResponse (w.server.clients j).clientId) :: rest

/-- What waits for the server: requests of clients with their own queues, and
    lines. -/
def Genuine (pid : Fin n → Nat) (ftok : UInt8 → Key) (w : World n) (x : Item) : Prop :=
  ∃ m, x = .message m ∧ (m.clientQueueKey = ipcPrivate ∨
    ∃ p q, m = initMessage (pid p) (clientKey pid ftok p) ∧ (w.clients p).queue = some q)

/-- Nobody shares a queue. -/
structure Good (pid : Fin n → Nat) (ftok : UInt8 → Key) (w : World n) : Prop where
  filled : Filled w.server
  bound : ∀ k q, w.os.byKey k = some q → q < w.os.next
  owners : ∀ k q, w.os.byKey k = some q →
    k = serverQueueKey ∨ ∃ p, clientKey pid ftok p = k ∧ (w.clients p).queue = some q
  serverKey : w.os.byKey serverQueueKey = some serverQueueId
  keyed : ∀ p q, (w.clients p).queue = some q →
    clientKey pid ftok p ≠ ipcPrivate ∧ w.os.byKey (clientKey pid ftok p) = some q
  distinct : ∀ p p' q, (w.clients p).queue = some q → (w.clients p').queue = some q → p = p'
  apart : ∀ p q, (w.clients p).queue = some q → q ≠ serverQueueId
  inbox : ∀ x ∈ w.os.queues serverQueueId, w.Genuine pid ftok x
  entryBound : ∀ j, (w.server.clients j).active = true →
    (w.server.clients j).queueId < w.os.next ∧ (w.server.clients j).queueId ≠ serverQueueId
  entries : ∀ j, (w.server.clients j).active = true → ∀ p,
    (w.clients p).queue = some (w.server.clients j).queueId → w.registrants j = pid p
  waiting : ∀ p q, awaited (w.clients p) = some q → w.Waiting pid p q
  ids : ∀ p q clientId, w.clients p = .running q clientId →
    ∃ j, w.IsEntryOf pid j p q ∧ (w.server.clients j).clientId = clientId
  receipts : ∀ x ∈ w.received, (w.clients x.client).queue = some x.queue
  unused : ∀ q, w.os.next ≤ q → w.os.queues q = []

theorem good_init : Good pid ftok (init n) where
  filled := filled_init
  bound := by
    intro k q h
    unfold init Os.init at h
    -- At first there is the server's queue only, with the number zero.
    rcases Option.ite_none_right_eq_some.mp h with ⟨_, hq⟩
    rw [← Option.some.inj hq]
    exact Nat.zero_lt_one
  owners := fun k q h => Or.inl (Option.ite_none_right_eq_some.mp h).1
  serverKey := rfl
  keyed := fun p q h =>
    absurd h (by simp only [init, Client.queue, reduceCtorEq, not_false_eq_true])
  distinct := fun p p' q h =>
    absurd h (by simp only [init, Client.queue, reduceCtorEq, not_false_eq_true])
  apart := fun p q h =>
    absurd h (by simp only [init, Client.queue, reduceCtorEq, not_false_eq_true])
  inbox := fun x hx => absurd hx List.not_mem_nil
  entryBound := fun j h => absurd h Bool.false_ne_true
  entries := fun j h => absurd h Bool.false_ne_true
  waiting := fun p q h => absurd h (by simp only [init, awaited, reduceCtorEq, not_false_eq_true])
  ids := fun p q clientId h => absurd h (by simp only [init, reduceCtorEq, not_false_eq_true])
  receipts := fun x hx => absurd hx List.not_mem_nil
  unused := fun _ _ => rfl

theorem Good.ownQueues {w : World n} (h : Good pid ftok w) : OwnQueues pid ftok w where
  distinct := h.distinct
  apart := h.apart
  found := by
    intro p q hq
    rcases h.keyed p q hq with ⟨hkey, hfound⟩
    rw [Os.msgget_of_byKey hkey hfound]
  ids := h.ids
  received := by
    intro x hx j hactive hqueue
    refine h.entries j hactive x.client ?_
    rw [hqueue]
    exact h.receipts x hx

theorem Good.queue_lt {w : World n} (h : Good pid ftok w) {p : Fin n} {q : QueueId}
    (hq : (w.clients p).queue = some q) : q < w.os.next :=
  h.bound _ q (h.keyed p q hq).2

theorem entry_congr {w w' : World n} {j : Fin maxClients} {p : Fin n} {q : QueueId}
    (h : w.IsEntryOf pid j p q) (hentry : w'.server.clients j = w.server.clients j)
    (hregistrant : w'.registrants j = w.registrants j) : w'.IsEntryOf pid j p q where
  active := by
    rw [hentry]
    exact h.active
  queueId := by
    rw [hentry]
    exact h.queueId
  registrant := by
    rw [hregistrant]
    exact h.registrant

theorem waiting_congr {w w' : World n} {p : Fin n} {q : QueueId} (h : w.Waiting pid p q)
    (hserver : w'.server = w.server) (hregistrants : w'.registrants = w.registrants)
    (hqueue : w'.os.queues q = w.os.queues q) : w'.Waiting pid p q := by
  unfold Waiting
  rw [hserver, hqueue]
  rcases h with hnew | ⟨j, rest, hentry, hhead⟩
  · exact Or.inl hnew
  · exact Or.inr ⟨j, rest, entry_congr hentry (by rw [hserver]) (by rw [hregistrants]), hhead⟩

/-- Steps that leave the registry and the queues with their owners. -/
theorem good_congr {w w' : World n} (h : Good pid ftok w) (hserver : w'.server = w.server)
    (hregistrants : w'.registrants = w.registrants) (hbyKey : w'.os.byKey = w.os.byKey)
    (hnext : w'.os.next = w.os.next) (hqueue : ∀ p, (w'.clients p).queue = (w.clients p).queue)
    (hinbox : ∀ x ∈ w'.os.queues serverQueueId, w'.Genuine pid ftok x)
    (hwaiting : ∀ p q, awaited (w'.clients p) = some q → w'.Waiting pid p q)
    (hids : ∀ p q clientId, w'.clients p = .running q clientId →
      ∃ j, w.IsEntryOf pid j p q ∧ (w.server.clients j).clientId = clientId)
    (hreceipts : ∀ x ∈ w'.received, (w'.clients x.client).queue = some x.queue)
    (hunused : ∀ q, w.os.next ≤ q → w'.os.queues q = []) :
    Good pid ftok w' where
  filled := by
    -- The registry has not changed,
    rw [hserver]
    exact h.filled
  bound := by
    -- and neither have the keys and the owners,
    rw [hbyKey, hnext]
    exact h.bound
  owners := by
    simp only [hbyKey, hqueue]
    exact h.owners
  serverKey := by
    rw [hbyKey]
    exact h.serverKey
  keyed := by
    simp only [hbyKey, hqueue]
    exact h.keyed
  distinct := by
    simp only [hqueue]
    exact h.distinct
  apart := by
    simp only [hqueue]
    exact h.apart
  inbox := hinbox
  entryBound := by
    rw [hserver, hnext]
    exact h.entryBound
  entries := by
    simp only [hserver, hregistrants, hqueue]
    exact h.entries
  waiting := hwaiting
  ids := by
    -- so that an entry is what it was.
    intro p q clientId hrunning
    rcases hids p q clientId hrunning with ⟨j, hentry, hid⟩
    refine ⟨j, entry_congr hentry (by rw [hserver]) (by rw [hregistrants]), ?_⟩
    rw [hserver]
    exact hid
  receipts := hreceipts
  unused := by
    rw [hnext]
    exact hunused

theorem clients_setClient_self (w : World n) (p : Fin n) (c : Client) :
    (w.setClient p c).clients p = c :=
  Function.update_self ..

theorem clients_setClient_of_ne (w : World n) {p p' : Fin n} (c : Client) (h : p' ≠ p) :
    (w.setClient p c).clients p' = w.clients p' :=
  Function.update_of_ne h ..

theorem queue_setClient {w : World n} {p : Fin n} {c : Client}
    (h : c.queue = (w.clients p).queue) (p' : Fin n) :
    ((w.setClient p c).clients p').queue = (w.clients p').queue := by
  by_cases hp : p' = p
  · rw [hp, clients_setClient_self, h]
  · rw [clients_setClient_of_ne w c hp]

theorem genuine_congr {w w' : World n} {x : Item} (h : w.Genuine pid ftok x)
    (hqueue : ∀ p, (w'.clients p).queue = (w.clients p).queue) : w'.Genuine pid ftok x := by
  rcases h with ⟨m, hx, hline | ⟨p, q, hm, hq⟩⟩
  · exact ⟨m, hx, Or.inl hline⟩
  · exact ⟨m, hx, Or.inr ⟨p, q, hm, by rw [hqueue, hq]⟩⟩

theorem good_send {w : World n} (h : Good pid ftok w) {m : Message}
    (hm : w.Genuine pid ftok (.message m)) : Good pid ftok (w.send m) := by
  have hother : ∀ q, q ≠ serverQueueId → (w.send m).os.queues q = w.os.queues q :=
    fun q hq => w.os.queues_msgsnd_of_ne _ hq
  -- Only the queue of the server changes, and no client reads from it.
  refine good_congr h rfl rfl rfl rfl (fun _ => rfl) ?_ ?_ h.ids h.receipts ?_
  · intro x hx
    have hserver : (w.send m).os.queues serverQueueId
        = w.os.queues serverQueueId ++ [.message m] := w.os.queues_msgsnd_self _ _
    rw [hserver] at hx
    refine genuine_congr (w := w) ?_ fun _ => rfl
    -- What was waiting there is as genuine as before, and so is what came.
    rcases List.mem_append.mp hx with hold | hnew
    · exact h.inbox x hold
    · rwa [List.mem_singleton.mp hnew]
  -- A client that waits for its id waits in a queue of its own.
  · intro p q hq
    exact waiting_congr (h.waiting p q hq) rfl rfl (hother q (h.apart p q (queue_of_awaited hq)))
  · intro q hq
    have hserver : serverQueueId < w.os.next := h.bound _ _ h.serverKey
    rw [hother q (Nat.ne_of_gt (lt_of_lt_of_le hserver hq))]
    exact h.unused q hq

/-- A client goes on without having read anything. -/
theorem good_setClient {w : World n} (h : Good pid ftok w) {p : Fin n} {c : Client}
    (hqueue : c.queue = (w.clients p).queue)
    (hawaited : ∀ q, awaited c = some q → awaited (w.clients p) = some q)
    (hidle : ∀ q clientId, c ≠ .running q clientId) : Good pid ftok (w.setClient p c) := by
  -- Where the client stands changes, and not which queue it has.
  have hqueues := queue_setClient hqueue
  refine good_congr h rfl rfl rfl rfl hqueues ?_ ?_ ?_ ?_ h.unused
  · exact fun x hx => genuine_congr (h.inbox x hx) hqueues
  · intro p' q' hq
    refine waiting_congr (h.waiting p' q' ?_) rfl rfl rfl
    by_cases hp : p' = p
    -- This client waits for nothing new.
    · rw [hp, clients_setClient_self] at hq
      rw [hp]
      exact hawaited q' hq
    · rwa [clients_setClient_of_ne w c hp] at hq
  · intro p' q' clientId hrunning
    -- It is in its loop only with an id that it has read.
    by_cases hp : p' = p
    · rw [hp, clients_setClient_self] at hrunning
      exact absurd hrunning (hidle q' clientId)
    · rw [clients_setClient_of_ne w c hp] at hrunning
      exact h.ids p' q' clientId hrunning
  · intro x hx
    rw [hqueues]
    exact h.receipts x hx

/-- What is left to show when a client has read from its queue. -/
theorem good_read {w : World n} (h : Good pid ftok w) {p : Fin n} {q : QueueId} {x : Item}
    {clientId : Int} (hq : (w.clients p).queue = some q)
    (hids : ∃ j, w.IsEntryOf pid j p q ∧ (w.server.clients j).clientId = clientId) :
    Good pid ftok ((w.read p q x).setClient p (.running q clientId)) := by
  have hqueue := queue_setClient (w := w.read p q x) (p := p) (c := .running q clientId) hq.symm
  have hother : ∀ q', q' ≠ q → (w.read p q x).os.queues q' = w.os.queues q' :=
    fun q' hne => w.os.queues_pop_of_ne hne
  -- Only the queue of the client changes, and nobody else reads from it.
  refine good_congr h rfl rfl rfl rfl hqueue ?_ ?_ ?_ ?_ ?_
  -- The server's queue is not the one that was read from.
  · intro y hy
    have hsame : ((w.read p q x).setClient p (.running q clientId)).os.queues serverQueueId
        = w.os.queues serverQueueId := hother _ (h.apart p q hq).symm
    rw [hsame] at hy
    exact genuine_congr (h.inbox y hy) hqueue
  · intro p' q' hq'
    by_cases hp : p' = p
    -- The one that has read waits for no id any more.
    · rw [hp, clients_setClient_self] at hq'
      exact absurd hq' (by simp only [awaited, reduceCtorEq, not_false_eq_true])
    · rw [clients_setClient_of_ne _ _ hp] at hq'
      refine waiting_congr (h.waiting p' q' hq') rfl rfl (hother q' fun heq => hp ?_)
      rw [heq] at hq'
      exact h.distinct p' p q (queue_of_awaited hq') hq
  · intro p' q' clientId' hrunning
    by_cases hp : p' = p
    · rw [hp, clients_setClient_self] at hrunning
      -- This is the id that it has just read, or that it has had before.
      rcases Client.running.inj hrunning with ⟨rfl, rfl⟩
      rw [hp]
      exact hids
    · rw [clients_setClient_of_ne _ _ hp] at hrunning
      exact h.ids p' q' clientId' hrunning
  · intro y hy
    rw [hqueue]
    rcases List.mem_append.mp hy with hold | hnew
    · exact h.receipts y hold
    · rw [List.mem_singleton.mp hnew]
      exact hq
  · intro q' hq'
    -- A queue with a lower number than the next exists already.
    have hlt := h.queue_lt hq
    have hsame : ((w.read p q x).setClient p (.running q clientId)).os.queues q'
        = w.os.queues q' := hother q' (Nat.ne_of_gt (lt_of_lt_of_le hlt hq'))
    rw [hsame]
    exact h.unused q' hq'

/-- The first thing read is the id. -/
theorem id_of_waiting {w : World n} {p : Fin n} {q : QueueId} {x : Item} {rest : List Item}
    (h : w.Waiting pid p q) (hqueue : w.os.queues q = x :: rest) :
    ∃ j, w.IsEntryOf pid j p q ∧ (w.server.clients j).clientId = x.asResponse.clientId := by
  rcases h with ⟨hempty, _⟩ | ⟨j, rest', hentry, hhead⟩
  · rw [hempty] at hqueue
    exact absurd hqueue (List.cons_ne_nil _ _).symm
  · rw [hhead] at hqueue
    refine ⟨j, hentry, ?_⟩
    rw [← (List.cons.inj hqueue).1]
    rfl

/-- The world after a client has made a queue. -/
def created (w : World n) (key : Key) (p : Fin n) : World n :=
  { w with os := w.os.made key }.setClient p (.created w.os.next)

theorem clients_created_of_ne (w : World n) (key : Key) {p p' : Fin n} (h : p' ≠ p) :
    (w.created key p).clients p' = w.clients p' :=
  clients_setClient_of_ne _ _ h

theorem clients_created_self (w : World n) (key : Key) (p : Fin n) :
    (w.created key p).clients p = .created w.os.next :=
  clients_setClient_self ..

/-- Who has a queue has the new one, or is another client. -/
theorem owner_created {w : World n} {key : Key} {p p' : Fin n} {q : QueueId}
    (h : ((w.created key p).clients p').queue = some q) :
    (p' = p ∧ q = w.os.next) ∨ (p' ≠ p ∧ (w.clients p').queue = some q) := by
  by_cases hp : p' = p
  · rw [hp, clients_created_self] at h
    exact Or.inl ⟨hp, (Option.some.inj h).symm⟩
  · rw [clients_created_of_ne w key hp] at h
    exact Or.inr ⟨hp, h⟩

/-- Who had a queue keeps it. -/
theorem queue_created {w : World n} (key : Key) {p p' : Fin n} {q : QueueId}
    (hpc : w.clients p = .starting) (h : (w.clients p').queue = some q) :
    ((w.created key p).clients p').queue = some q := by
  have hp : p' ≠ p := by
    intro hp
    rw [hp, hpc] at h
    exact absurd h (by simp only [Client.queue, reduceCtorEq, not_false_eq_true])
  rw [clients_created_of_ne w key hp]
  exact h

theorem good_created {w : World n} (h : Good pid ftok w) {p : Fin n}
    (hpc : w.clients p = .starting) (hkey : clientKey pid ftok p ≠ ipcPrivate)
    (hserver : clientKey pid ftok p ≠ serverQueueKey)
    (hothers : ∀ p', (w.clients p').queue ≠ none → clientKey pid ftok p' ≠ clientKey pid ftok p) :
    Good pid ftok (w.created (clientKey pid ftok p) p) := by
  have hnext : (w.created (clientKey pid ftok p) p).os.next = w.os.next + 1 := rfl
  have hbyKey : ∀ k, k ≠ clientKey pid ftok p →
      (w.created (clientKey pid ftok p) p).os.byKey k = w.os.byKey k :=
    fun k hk => Function.update_of_ne hk ..
  have hbyKey' : (w.created (clientKey pid ftok p) p).os.byKey (clientKey pid ftok p)
      = some w.os.next := Function.update_self ..
  have hserverLt : serverQueueId < w.os.next := h.bound _ _ h.serverKey
  refine ⟨h.filled, ?_, ?_, ?_, ?_, ?_, ?_, ?_, ?_, ?_, ?_, ?_, ?_, ?_⟩
  · -- The numbers of queues stay below the next one.
    intro k q hq
    rw [hnext]
    by_cases hk : k = clientKey pid ftok p
    -- The key of the client leads to the new queue, and other keys where they did.
    · rw [hk, hbyKey'] at hq
      rw [← Option.some.inj hq]
      exact Nat.lt_succ_self _
    · rw [hbyKey k hk] at hq
      exact Nat.lt_succ_of_lt (h.bound k q hq)
  · intro k q hq
    by_cases hk : k = clientKey pid ftok p
    · rw [hk, hbyKey'] at hq
      -- The new queue is the client's own.
      refine Or.inr ⟨p, hk.symm, ?_⟩
      rw [clients_created_self]
      exact hq
    · rw [hbyKey k hk] at hq
      rcases h.owners k q hq with heq | ⟨p', hp', hq'⟩
      · exact Or.inl heq
      · exact Or.inr ⟨p', hp', queue_created _ hpc hq'⟩
  -- The key of the server is another one.
  · rw [hbyKey _ hserver.symm]
    exact h.serverKey
  · intro p' q hq
    -- The client has a key that is not taken and not the private one.
    rcases owner_created hq with ⟨hp, hnew⟩ | ⟨_, hold⟩
    · rw [hp, hnew]
      exact ⟨hkey, hbyKey'⟩
    · rw [hbyKey _ (hothers p' (by rw [hold]; exact Option.some_ne_none q))]
      exact h.keyed p' q hold
  · -- A queue that somebody had is not the new one.
    intro p₁ p₂ q h₁ h₂
    rcases owner_created h₁ with ⟨hp₁, hnew⟩ | ⟨_, hold₁⟩
    · rcases owner_created h₂ with ⟨hp₂, _⟩ | ⟨_, hold₂⟩
      · rw [hp₁, hp₂]
      · exact absurd (h.queue_lt hold₂) hnew.not_lt
    · rcases owner_created h₂ with ⟨_, hnew⟩ | ⟨_, hold₂⟩
      · exact absurd (h.queue_lt hold₁) hnew.not_lt
      · exact h.distinct p₁ p₂ q hold₁ hold₂
  · intro p' q hq
    rcases owner_created hq with ⟨_, hnew⟩ | ⟨_, hold⟩
    -- It has a number above the server's.
    · exact hnew ▸ Nat.ne_of_gt hserverLt
    · exact h.apart p' q hold
  · intro x hx
    -- A request that waits is of a client that has its queue already.
    rcases h.inbox x hx with ⟨m, hm, hline | ⟨p', q, hinit, hq⟩⟩
    · exact ⟨m, hm, Or.inl hline⟩
    · exact ⟨m, hm, Or.inr ⟨p', q, hinit, queue_created _ hpc hq⟩⟩
  · intro j hactive
    -- The entries are older than the new queue.
    rcases h.entryBound j hactive with ⟨hlt, hne⟩
    exact ⟨Nat.lt_succ_of_lt hlt, hne⟩
  · -- No entry has the new queue yet.
    intro j hactive p' hq
    rcases owner_created hq with ⟨_, hnew⟩ | ⟨_, hold⟩
    · exact absurd (h.entryBound j hactive).1 hnew.not_lt
    · exact h.entries j hactive p' hold
  · intro p' q hq
    by_cases hp : p' = p
    · -- The new queue is empty, and no entry has it.
      rw [hp, clients_created_self] at hq
      rw [← Option.some.inj hq]
      refine Or.inl ⟨h.unused _ (le_refl _), fun j hactive heq => ?_⟩
      exact absurd (h.entryBound j hactive).1 heq.not_lt
    · rw [clients_created_of_ne _ _ hp] at hq
      exact waiting_congr (h.waiting p' q hq) rfl rfl rfl
  · intro p' q clientId hrunning
    -- The client has read no id so far.
    have hp : p' ≠ p := fun hp => by
      rw [hp, clients_created_self] at hrunning
      exact Client.noConfusion hrunning
    rw [clients_created_of_ne _ _ hp] at hrunning
    rcases h.ids p' q clientId hrunning with ⟨j, hentry, hid⟩
    exact ⟨j, entry_congr hentry rfl rfl, hid⟩
  · exact fun x hx => queue_created _ hpc (h.receipts x hx)
  · exact fun q hq => h.unused q (Nat.le_of_succ_le hq)

/-- A client whose key nobody has gets a queue that nobody has. -/
theorem good_create {w : World n} (h : Good pid ftok w) {p : Fin n}
    (hpc : w.clients p = .starting) (hapart : w.Apart pid ftok (.create p)) :
    Good pid ftok (w.create pid ftok p) := by
  unfold create
  by_cases hfailed : clientKey pid ftok p = -1
  -- A client that gets no key ends without a queue.
  · rw [if_pos hfailed]
    refine good_setClient h (by rw [hpc]; rfl) (fun q hq => ?_) fun q clientId heq => ?_
    · exact absurd hq (by simp only [awaited, reduceCtorEq, not_false_eq_true])
    · exact Client.noConfusion heq
  · rcases hapart hfailed with ⟨hkey, hserver, hothers⟩
    have hnone : w.os.byKey (clientKey pid ftok p) = none := by
      -- A key that leads to a queue is the server's, or of a client that has it.
      cases hfound : w.os.byKey (clientKey pid ftok p) with
      | none => rfl
      | some q =>
          rcases h.owners _ q hfound with heq | ⟨p', hp', hq⟩
          · exact absurd heq hserver
          · exact absurd hp' (hothers p' (by rw [hq]; exact Option.some_ne_none q))
    rw [if_neg hfailed, Os.msgget_of_none hkey hnone]
    exact good_created h hpc hkey hserver hothers

/-- The `msgsnd` calls of the server's turn. -/
def sends (w : World n) (m : Message) : List (QueueId × Response) :=
  (w.server.receive (w.opening m).1 m).2

theorem queues_serve (w : World n) (m : Message) (q : QueueId) :
    (w.serve m).os.queues q
      = (w.os.pop serverQueueId).queues q ++ (putInto q (w.sends m)).map .response := by
  have hopened : (w.opening m).2.queues = (w.os.pop serverQueueId).queues := by
    unfold opening
    by_cases hcall : m.isInit = true ∧ w.server.clientCount < maxClients
    · rw [if_pos hcall]
      exact (Os.msgget_opened _ _).queues
    · rw [if_neg hcall]
  rw [← hopened]
  exact Os.queues_post ..

theorem byKey_serve (w : World n) (m : Message) : (w.serve m).os.byKey = w.os.byKey := by
  have hpost : (w.serve m).os.byKey = (w.opening m).2.byKey := Os.byKey_post ..
  rw [hpost]
  unfold opening
  by_cases hcall : m.isInit = true ∧ w.server.clientCount < maxClients
  · rw [if_pos hcall]
    exact (Os.msgget_opened _ _).byKey
  · rw [if_neg hcall]
    rfl

theorem next_serve (w : World n) (m : Message) : (w.serve m).os.next = (w.opening m).2.next :=
  Os.next_post ..

theorem next_le_opening (w : World n) (m : Message) : w.os.next ≤ (w.opening m).2.next := by
  unfold opening
  by_cases hcall : m.isInit = true ∧ w.server.clientCount < maxClients
  · rw [if_pos hcall]
    exact (Os.msgget_opened (w.os.pop serverQueueId) _).next
  · rw [if_neg hcall]
    exact le_refl _

/-- What the server opens is the queue of the client that asks, or new. -/
theorem opening_queue {w : World n} (h : Good pid ftok w) {m : Message}
    (hm : w.Genuine pid ftok (.message m)) {q : QueueId} (hq : (w.opening m).1 = some q) :
    q < (w.opening m).2.next ∧ q ≠ serverQueueId ∧
      ∀ p, (w.clients p).queue = some q → m.pid = pid p := by
  have hserver : serverQueueId < w.os.next := h.bound _ _ h.serverKey
  have hle := next_le_opening w m
  unfold opening at hq hle ⊢
  by_cases hcall : m.isInit = true ∧ w.server.clientCount < maxClients
  · rw [if_pos hcall] at hq hle ⊢
    -- A request with the private key makes a queue, any other finds one.
    rcases (Os.msgget_opened _ _).found q hq with ⟨_, hnew, hnext⟩ | ⟨hkey, hfound⟩
    · have hnew' : q = w.os.next := hnew
      refine ⟨?_, ?_, fun p hp => absurd (h.queue_lt hp) hnew'.not_lt⟩
      · rw [hnext, hnew]
        exact Nat.lt_succ_self _
      · rw [hnew']
        exact Nat.ne_of_gt hserver
    -- A line has the private key and would have made one.
    · rcases hm with ⟨m', heq, hline | ⟨p₀, q₀, hinit, hq₀⟩⟩
      · cases heq
        exact absurd hline hkey
      · cases heq
        -- The key in the request leads to the queue of the client that asked.
        have hkeyed := (h.keyed p₀ q₀ hq₀).2
        rw [hinit] at hfound
        have hsame : q = q₀ := Option.some.inj (hfound.symm.trans hkeyed)
        rw [hsame]
        refine ⟨lt_of_lt_of_le (h.queue_lt hq₀) hle, h.apart p₀ q₀ hq₀, fun p hp => ?_⟩
        rw [h.distinct p p₀ q₀ hp hq₀, hinit]
        rfl
  -- For anything but a request that is granted, nothing is opened.
  · rw [if_neg hcall] at hq
    exact absurd hq (by simp only [reduceCtorEq, not_false_eq_true])

/-- What a turn of the server does to the registry. -/
inductive Served (w : World n) (m : Message) : Prop where
  | quiet (hserver : (w.serve m).server = w.server)
      (hregistrants : (w.serve m).registrants = w.registrants)
      (hsends : ∀ q, (∀ j, (w.server.clients j).active = true →
        (w.server.clients j).queueId ≠ q) → putInto q (w.sends m) = [])
  | registered (q : QueueId) (hroom : w.server.clientCount < maxClients)
      (hopened : (w.opening m).1 = some q)
      (hserver : (w.serve m).server = w.server.register ⟨w.server.clientCount, hroom⟩ q)
      (hregistrants : (w.serve m).registrants
        = Function.update w.registrants w.server.clientCount m.pid)
      (hsends : w.sends m = [(q, idResponse (w.server.clientCount + 1))])

theorem served (w : World n) (m : Message) : Served w m := by
  -- Who is registered changes only with what was opened.
  have hclosed : (w.opening m).1 = none → (w.serve m).registrants = w.registrants := by
    intro hnone
    unfold serve
    rw [hnone]
    rfl
  have huncalled : ¬ (m.isInit = true ∧ w.server.clientCount < maxClients) →
      (w.opening m).1 = none := by
    intro hcall
    unfold opening
    rw [if_neg hcall]
  cases receive_cases w.server (w.opening m).1 m with
  -- A line is sent to entries in use only.
  | chat hchat hserver hsent =>
      refine .quiet hserver (hclosed (huncalled fun hcall => ?_)) fun q halone => ?_
      · exact Bool.noConfusion (hchat.symm.trans hcall.1)
      · refine putInto_eq_nil fun x hx => ?_
        unfold sends at hx
        rw [hsent] at hx
        rcases mem_broadcastMessage.mp hx with ⟨j, hactive, _, heq⟩
        rw [heq]
        exact halone j hactive
  -- Without room, or without a queue, the request is passed over.
  | full hinit hfull hserver hsent =>
      refine .quiet hserver (hclosed (huncalled fun hcall => hfull hcall.2)) fun q _ => ?_
      unfold sends
      rw [hsent]
      rfl
  | unopened hinit hroom hopened hserver hsent =>
      refine .quiet hserver (hclosed hopened) fun q _ => ?_
      unfold sends
      rw [hsent]
      rfl
  -- Otherwise the request gets an entry and an answer.
  | registered hinit hroom q hopened hserver hsent =>
      refine .registered q hroom hopened hserver ?_ hsent
      unfold serve
      rw [hopened]
      rfl

/-- What is left to show when the server has had a turn. -/
theorem good_served {w : World n} (h : Good pid ftok w) {x : Item} {rest : List Item} {m : Message}
    (hqueue : w.os.queues serverQueueId = x :: rest) (hfilled : Filled (w.serve m).server)
    (hsent : ∀ q, putInto q (w.sends m) ≠ [] → q < (w.opening m).2.next ∧ q ≠ serverQueueId)
    (hentryBound : ∀ j, ((w.serve m).server.clients j).active = true →
      ((w.serve m).server.clients j).queueId < (w.opening m).2.next ∧
      ((w.serve m).server.clients j).queueId ≠ serverQueueId)
    (hentries : ∀ j, ((w.serve m).server.clients j).active = true → ∀ p,
      (w.clients p).queue = some ((w.serve m).server.clients j).queueId →
        (w.serve m).registrants j = pid p)
    (hstays : ∀ j, (w.server.clients j).active = true →
      (w.serve m).server.clients j = w.server.clients j ∧
      (w.serve m).registrants j = w.registrants j)
    (hnew : ∀ p q, awaited (w.clients p) = some q → w.os.queues q = [] →
      (∀ j, (w.server.clients j).active = true → (w.server.clients j).queueId ≠ q) →
        (w.serve m).Waiting pid p q) : Good pid ftok (w.serve m) := by
  have hle := next_le_opening w m
  have hserverLt : serverQueueId < w.os.next := h.bound _ _ h.serverKey
  -- Other queues only grow at their end, and only by what was sent.
  have hold : ∀ q, q ≠ serverQueueId → (w.serve m).os.queues q
      = w.os.queues q ++ (putInto q (w.sends m)).map .response := by
    intro q hq
    rw [queues_serve, w.os.queues_pop_of_ne hq]
  refine ⟨hfilled, ?_, ?_, ?_, ?_, h.distinct, h.apart, ?_, ?_, hentries, ?_, ?_, h.receipts, ?_⟩
  -- Keys may be added for a private queue only, and they lead where they did.
  · intro k q hq
    rw [byKey_serve] at hq
    rw [next_serve]
    exact lt_of_lt_of_le (h.bound k q hq) hle
  · intro k q hq
    rw [byKey_serve] at hq
    exact h.owners k q hq
  · rw [byKey_serve]
    exact h.serverKey
  · intro p q hq
    rw [byKey_serve]
    exact h.keyed p q hq
  · -- Nothing is put into the server's queue, and one message is taken out.
    intro y hy
    have hnil : putInto serverQueueId (w.sends m) = [] := by
      by_contra hput
      exact (hsent _ hput).2 rfl
    rw [queues_serve, w.os.queues_pop_self, hqueue, hnil, List.map_nil, List.append_nil,
      List.tail_cons] at hy
    exact h.inbox y (by rw [hqueue]; exact List.mem_cons_of_mem x hy)
  · intro j hactive
    rw [next_serve]
    exact hentryBound j hactive
  · -- An id that waits goes on waiting in front.
    intro p q hq
    rcases h.waiting p q hq with ⟨hempty, halone⟩ | ⟨j, tail, hentry, hhead⟩
    · exact hnew p q hq hempty halone
    · rcases hstays j hentry.active with ⟨hsame, hregistrant⟩
      refine Or.inr ⟨j, tail ++ (putInto q (w.sends m)).map .response,
        entry_congr hentry hsame hregistrant, ?_⟩
      rw [hold q (h.apart p q (queue_of_awaited hq)), hhead, hsame]
      rfl
  -- An id that was read stays that of its entry.
  · intro p q clientId hrunning
    rcases h.ids p q clientId hrunning with ⟨j, hentry, hid⟩
    rcases hstays j hentry.active with ⟨hsame, hregistrant⟩
    refine ⟨j, entry_congr hentry hsame hregistrant, ?_⟩
    rw [hsame]
    exact hid
  · -- A queue that does not exist yet is not sent to.
    intro q hq
    rw [next_serve] at hq
    have hnil : putInto q (w.sends m) = [] := by
      by_contra hput
      exact absurd (hsent q hput).1 (not_lt_of_ge hq)
    have hunused := h.unused q (le_trans hle hq)
    rw [hold q (Nat.ne_of_gt (lt_of_lt_of_le hserverLt (le_trans hle hq))), hunused, hnil]
    rfl

/-- A turn in which nobody is registered. -/
theorem good_quiet {w : World n} (h : Good pid ftok w) {x : Item} {rest : List Item} {m : Message}
    (hqueue : w.os.queues serverQueueId = x :: rest) (hserver : (w.serve m).server = w.server)
    (hregistrants : (w.serve m).registrants = w.registrants)
    (hsends : ∀ q, (∀ j, (w.server.clients j).active = true →
      (w.server.clients j).queueId ≠ q) → putInto q (w.sends m) = []) :
    Good pid ftok (w.serve m) := by
  have hbound : ∀ j, (w.server.clients j).active = true →
      (w.server.clients j).queueId < (w.opening m).2.next ∧
      (w.server.clients j).queueId ≠ serverQueueId := by
    intro j hactive
    rcases h.entryBound j hactive with ⟨hlt, hne⟩
    exact ⟨lt_of_lt_of_le hlt (next_le_opening w m), hne⟩
  refine good_served h hqueue (filled_receive h.filled _ _) ?_ ?_ ?_ ?_ ?_
  · -- Everybody that is sent to is in the registry.
    intro q hput
    by_contra hout
    exact hput (hsends q fun j hactive heq => hout (heq ▸ hbound j hactive))
  -- The registry is the one from before.
  · rw [hserver]
    exact hbound
  · rw [hserver, hregistrants]
    exact h.entries
  · rw [hserver, hregistrants]
    exact fun _ _ => ⟨rfl, rfl⟩
  -- A client without an entry finds its queue as it was.
  · intro p q hq hempty halone
    refine Or.inl ⟨?_, by rwa [hserver]⟩
    rw [queues_serve, w.os.queues_pop_of_ne (h.apart p q (queue_of_awaited hq)), hempty,
      hsends q halone]
    rfl

/-- A turn in which a request is granted. The entry goes to the client that
    asked, and the id is the first thing in its queue. -/
theorem good_registered {w : World n} (h : Good pid ftok w) {x : Item} {rest : List Item}
    {m : Message} (hqueue : w.os.queues serverQueueId = x :: rest)
    (hm : w.Genuine pid ftok (.message m)) {q₁ : QueueId}
    (hroom : w.server.clientCount < maxClients) (hopened : (w.opening m).1 = some q₁)
    (hserver : (w.serve m).server = w.server.register ⟨w.server.clientCount, hroom⟩ q₁)
    (hregistrants : (w.serve m).registrants
      = Function.update w.registrants w.server.clientCount m.pid)
    (hsends : w.sends m = [(q₁, idResponse (w.server.clientCount + 1))]) :
    Good pid ftok (w.serve m) := by
  -- The queue that was opened is the one of the client that asked, or new.
  rcases opening_queue h hm hopened with ⟨hlt, hne, howner⟩
  have hput : ∀ q, q₁ ≠ q → putInto q (w.sends m) = [] := by
    intro q hq
    rw [hsends]
    exact putInto_eq_nil fun y hy => by rwa [List.mem_singleton.mp hy]
  have hlast : (w.serve m).server.clients ⟨w.server.clientCount, hroom⟩
      = ⟨w.server.clientCount + 1, q₁, true⟩ := by
    rw [hserver]
    exact register_self ..
  have hregistrant : (w.serve m).registrants w.server.clientCount = m.pid := by
    rw [hregistrants]
    exact Function.update_self ..
  have hother : ∀ j, j ≠ ⟨w.server.clientCount, hroom⟩ →
      (w.serve m).server.clients j = w.server.clients j ∧
      (w.serve m).registrants j = w.registrants j := by
    intro j hj
    rw [hserver, hregistrants]
    exact ⟨register_of_ne _ _ hj, Function.update_of_ne (fun heq => hj (Fin.ext heq)) ..⟩
  refine good_served h hqueue (filled_receive h.filled _ _) ?_ ?_ ?_ ?_ ?_
  -- Only one answer is sent, into this queue.
  · intro q hnonempty
    by_cases hq : q₁ = q
    · rw [← hq]
      exact ⟨hlt, hne⟩
    · exact absurd (hput q hq) hnonempty
  -- The new entry has this queue, the others theirs.
  · intro j hactive
    by_cases hj : j = ⟨w.server.clientCount, hroom⟩
    · rw [hj, hlast]
      exact ⟨hlt, hne⟩
    · rw [(hother j hj).1] at hactive ⊢
      rcases h.entryBound j hactive with ⟨hold, hapart⟩
      exact ⟨lt_of_lt_of_le hold (next_le_opening w m), hapart⟩
  -- Whoever has this queue is the one that asked.
  · intro j hactive p hp
    by_cases hj : j = ⟨w.server.clientCount, hroom⟩
    · rw [hj, hlast] at hp
      rw [hj, hregistrant]
      exact howner p hp
    · rw [(hother j hj).1] at hactive hp
      rw [(hother j hj).2]
      exact h.entries j hactive p hp
  · -- The entry that is filled was not in use.
    intro j hactive
    refine hother j fun hj => ?_
    rw [hj] at hactive
    exact absurd ((h.filled.active _).mp hactive) (lt_irrefl _)
  · intro p q hq hempty halone
    have hqueue' := queues_serve w m q
    rw [w.os.queues_pop_of_ne (h.apart p q (queue_of_awaited hq)), hempty,
      List.nil_append] at hqueue'
    by_cases hq₁ : q₁ = q
    · -- The client is registered now.
      refine Or.inr ⟨⟨w.server.clientCount, hroom⟩, [], ⟨?_, ?_, ?_⟩, ?_⟩
      · rw [hlast]
      · rw [hlast]
        exact hq₁
      · rw [hregistrant]
        exact howner p (by rw [hq₁]; exact queue_of_awaited hq)
      · rw [hqueue', hlast, hsends, ← hq₁, putInto_self]
        rfl
    -- Another client waits on, and the new entry is not its own.
    · refine Or.inl ⟨?_, fun j hactive => ?_⟩
      · rw [hqueue', hput q hq₁]
        rfl
      · by_cases hj : j = ⟨w.server.clientCount, hroom⟩
        · rw [hj, hlast]
          exact hq₁
        · rw [(hother j hj).1] at hactive ⊢
          exact halone j hactive

/-- A turn of the server. -/
theorem good_serve {w : World n} (h : Good pid ftok w) {x : Item} {rest : List Item}
    (hqueue : w.os.queues serverQueueId = x :: rest) : Good pid ftok (w.serve x.asMessage) := by
  have hx : w.Genuine pid ftok x := h.inbox x (by rw [hqueue]; exact List.mem_cons_self)
  have hm : w.Genuine pid ftok (.message x.asMessage) := by
    rcases hx with ⟨m, hx, hgenuine⟩
    rw [hx]
    exact ⟨m, rfl, hgenuine⟩
  cases served w x.asMessage with
  | quiet hserver hregistrants hsends => exact good_quiet h hqueue hserver hregistrants hsends
  | registered q hroom hopened hserver hregistrants hsends =>
      exact good_registered h hqueue hm hroom hopened hserver hregistrants hsends

theorem good_step {w w' : World n} {e : Event n} (h : Good pid ftok w)
    (hapart : w.Apart pid ftok e) (hstep : step pid ftok w e = some w') : Good pid ftok w' := by
  cases step_cases hstep with
  | create p hevent hpc heq =>
      rw [hevent] at hapart
      rw [heq]
      exact good_create h hpc hapart
  | request p q hevent hpc heq =>
      -- The request is genuine: the client has the queue that goes with it.
      have hq : (w.clients p).queue = some q := by
        rw [hpc]
        rfl
      have hsent := good_send h (m := initMessage (pid p) (clientKey pid ftok p))
        ⟨_, rfl, Or.inr ⟨p, q, rfl, hq⟩⟩
      have hpc' : (w.send (initMessage (pid p) (clientKey pid ftok p))).clients p = .created q :=
        hpc
      rw [heq]
      refine good_setClient hsent ?_ ?_ ?_
      · rw [hpc']
        rfl
      · rw [hpc']
        exact fun _ hq' => hq'
      · exact fun _ _ hrunning => Client.noConfusion hrunning
  | receiveId p q x rest hevent hpc hqueue heq =>
      have hq : (w.clients p).queue = some q := by
        rw [hpc]
        rfl
      have hawaited : awaited (w.clients p) = some q := by
        rw [hpc]
        rfl
      rw [heq]
      -- The first thing in its queue is the id of its entry.
      exact good_read h hq (id_of_waiting (h.waiting p q hawaited) hqueue)
  | receive p q clientId x rest hevent hpc hqueue heq =>
      have hq : (w.clients p).queue = some q := by
        rw [hpc]
        rfl
      have hread := good_read (x := x) h hq (h.ids p q clientId hpc)
      -- The client stays where it is.
      have hsame : (w.read p q x).setClient p (.running q clientId) = w.read p q x := by
        unfold setClient
        rw [← hpc]
        exact congrArg (fun cs => { w.read p q x with clients := cs })
          (Function.update_eq_self p w.clients)
      rw [heq]
      rwa [hsame] at hread
  | line p q clientId input hevent hpc heq =>
      rw [heq]
      -- A line has the private key.
      exact good_send h ⟨_, rfl, Or.inl rfl⟩
  | serve x rest hevent hqueue heq =>
      rw [heq]
      exact good_serve h hqueue

/-- A client that opens a queue has it. -/
theorem clients_create {w : World n} {p : Fin n} {q : QueueId} (hfailed : clientKey pid ftok p ≠ -1)
    (hkey : clientKey pid ftok p ≠ ipcPrivate)
    (hfound : w.os.byKey (clientKey pid ftok p) = some q) :
    (∀ p', p' ≠ p → (w.create pid ftok p).clients p' = w.clients p') ∧
      ((w.create pid ftok p).clients p).queue = some q := by
  unfold create
  rw [if_neg hfailed, Os.msgget_of_byKey hkey hfound]
  refine ⟨fun p' hp => clients_setClient_of_ne _ _ hp, ?_⟩
  have hself := clients_setClient_self { w with os := w.os } p (.created q)
  rw [hself]
  rfl

/-- With key zero the queue is new, and the server would make another one. -/
theorem key_of_ownQueues {w : World n} {p : Fin n} (hfailed : clientKey pid ftok p ≠ -1)
    (hown : OwnQueues pid ftok (w.create pid ftok p)) : clientKey pid ftok p ≠ ipcPrivate := by
  intro hkey
  have hnew : ((w.create pid ftok p).clients p).queue = some w.os.next ∧
      (w.create pid ftok p).os.next = w.os.next + 1 := by
    unfold create
    rw [if_neg hfailed]
    unfold Os.msgget
    rw [if_pos hkey]
    refine ⟨?_, rfl⟩
    exact congrArg Client.queue (clients_setClient_self { w with os := _ } p _)
  have hfound := hown.found p _ hnew.1
  unfold Os.msgget at hfound
  rw [if_pos hkey, hnew.2] at hfound
  exact absurd (Option.some.inj hfound) (Nat.succ_ne_self _)

/-- The first client to ask with another key has a queue that is not its
    own, or that the server does not find. -/
theorem apart_of_ownQueues {w w' : World n} {e : Event n} (h : Good pid ftok w)
    (hstep : step pid ftok w e = some w') (hown : OwnQueues pid ftok w') :
    w.Apart pid ftok e := by
  cases step_cases hstep with
  | create p hevent hpc heq =>
      rw [heq] at hown
      rw [hevent]
      intro hfailed
      -- A queue of its own has a key that is neither private, the server's nor another's.
      have hkey := key_of_ownQueues hfailed hown
      refine ⟨hkey, fun hserver => ?_, fun p' hp' hsame => ?_⟩
      · have hq := (clients_create hfailed hkey (by rw [hserver]; exact h.serverKey)).2
        exact hown.apart p _ hq rfl
      -- If another client had the key, both would have its queue.
      · rcases Option.ne_none_iff_exists'.mp hp' with ⟨q, hq⟩
        have hfound := (h.keyed p' q hq).2
        rw [hsame] at hfound
        rcases clients_create hfailed hkey hfound with ⟨hothers, hself⟩
        have hne : p' ≠ p := by
          intro heq'
          rw [heq', hpc] at hq
          exact absurd hq (by simp only [Client.queue, reduceCtorEq, not_false_eq_true])
        exact hne (hown.distinct p' p q (by rw [hothers p' hne]; exact hq) hself)
  | request _ _ hevent | receiveId _ _ _ _ hevent | receive _ _ _ _ _ hevent
  | line _ _ _ _ hevent | serve _ _ hevent =>
      rw [hevent]
      trivial

/-- In every run, every client has a queue of its own and gets what is its own
    exactly if each asks with a key that nobody has. -/
theorem own_queues_iff (pid : Fin n → Nat) (ftok : UInt8 → Key) (es : List (Event n))
    (w : World n) (hrun : exec (step pid ftok) (init n) es = some w) :
    Always (step pid ftok) (OwnQueues pid ftok) (init n) es ↔
      Meets (step pid ftok) (Apart pid ftok) (init n) es :=
  always_iff_meets_of_good (fun _ h => h.ownQueues) (fun _ _ _ h hC hstep => good_step h hC hstep)
    (fun _ _ _ h hstep hP => apart_of_ownQueues h hstep hP) good_init hrun

/-- `ftok` for some directory. -/
def someFtok (id : UInt8) : Key := (id.toUInt32 <<< 24) ||| 67093

/-- Two clients start before the server reads their requests. -/
def startRun : List (Event 8) := [.create 0, .create 1, .request 0, .request 1, .serve, .receive 1]

/-- The two get their own ids, and the second gets what the first types. -/
theorem own_queues_of_neighbours :
    Always (step (fun p => 1000 + p.val) someFtok) (OwnQueues (fun p => 1000 + p.val) someFtok)
      (init 8) (startRun.take 5 ++ [.serve, .receive 1, .receive 0, .line 0 (text "hello\n"),
        .serve, .receive 1]) := by
  have hend : (exec (step (fun p => 1000 + p.val) someFtok) (init 8)
      (startRun.take 5 ++ [.serve, .receive 1, .receive 0, .line 0 (text "hello\n"),
        .serve, .receive 1])).isSome = true := by decide +kernel
  rcases Option.isSome_iff_exists.mp hend with ⟨w, hrun⟩
  exact (own_queues_iff _ someFtok _ w hrun).mpr (by decide +kernel)

/-- Of two clients whose pids have one low byte, the second reads the id that
    was assigned to the first. -/
theorem id_of_another :
    ¬ ∀ (n : Nat) (pid : Fin n → Nat) (ftok : UInt8 → Key), Function.Injective pid →
      ∀ w, Reaches (step pid ftok) (init n) w → ∀ p q clientId, w.clients p = .running q clientId →
        ∃ j : Fin maxClients, w.registrants j = pid p ∧
          (w.server.clients j).clientId = clientId := by
  intro hall
  -- Eight clients whose pids differ by 256 have one low byte.
  have hinjective : Function.Injective fun p : Fin 8 => 1000 + 256 * p.val := by
    intro p p' hp
    have hval : 1000 + 256 * p.val = 1000 + 256 * p'.val := hp
    exact Fin.ext (by omega)
  have hend : (exec (step (fun p => 1000 + 256 * p.val) someFtok) (init 8) startRun).any (fun w =>
      decide (w.clients 1 = .running 1 1 ∧ ∀ j : Fin maxClients,
        ¬ (w.registrants j = 1256 ∧ (w.server.clients j).clientId = 1))) = true := by
    decide +kernel
  rcases exists_of_exec_any hend with ⟨w, hrun, hw⟩
  rcases of_decide_eq_true hw with ⟨hrunning, hnobody⟩
  rcases hall 8 _ someFtok hinjective w ⟨startRun, hrun⟩ 1 1 1 hrunning with ⟨j, hentry⟩
  exact hnobody j hentry

end World

end Sysv

end OsLabs
