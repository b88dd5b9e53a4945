import OsLabs.Tcp.Server

/-!
# The Registry of Sessions

What the table of the TCP server is for, apart from how it is stored: it
assigns slots to named sessions and keeps one open descriptor for each of
them. `Registry` is that assignment. A session enters an empty slot, is
evicted from a full one, and that is all that can happen to it.

The functions of the server are then read as operations on the registry.
`removeClient` evicts and a sweep is a series of evictions; every other
function, the unlocked accesses among them, leaves the registry alone. A
handler that works on a slot index long after its session is gone evicts
whatever session it finds there, so its damage is done within the rules.

## Main definitions

* `Entry`, `Registry`: A session in a slot, and the assignment of slots.
* `Server.registry`: The registry that a server's state stores.
* `Registry.evict`, `Registry.enter`: The two changes to a slot.

## Theorems

* `registry_removeClient`, `registry_sweepSlot`, `registry_register`: The
  functions of the server as operations on the registry.
* `handlerStep_registry`: A handler's step evicts or leaves alone.
-/

namespace OsLabs

namespace Tcp

/-- A session in a slot: its name, its descriptor and its connection. -/
@[ext]
structure Entry where
  name : Bytes
  socket : Fd
  conn : Conn

/-- The assignment of slots to sessions, and the descriptors. `numbers` is the
    descriptor number written in each slot, which an empty slot keeps. -/
@[ext]
structure Registry where
  slots : Slot → Option Entry
  numbers : Slot → Fd
  count : Int
  fds : Fd → Option Conn
  closes : Conn → Nat
  badCloses : Nat

namespace Registry

def close (r : Registry) (d : Fd) : Registry :=
  match r.fds d with
  | none => { r with badCloses := r.badCloses + 1 }
  | some c =>
      { r with
        fds := Function.update r.fds d none
        closes := Function.update r.closes c (r.closes c + 1) }

/-- Take the session out of a slot and close its descriptor. -/
def evict (r : Registry) (i : Slot) : Registry :=
  match r.slots i with
  | none => r
  | some e => { r.close e.socket with slots := OsLabs.clear r.slots i, count := r.count - 1 }

/-- Put a session into a slot. -/
def enter (r : Registry) (i : Slot) (e : Entry) : Registry :=
  { r with
    slots := put r.slots i e
    numbers := Function.update r.numbers i e.socket
    count := r.count + 1 }

/-- Open a descriptor for a new connection. -/
def connect (r : Registry) (d : Fd) (c : Conn) : Registry :=
  { r with fds := Function.update r.fds d (some c) }

theorem evict_of_none {r : Registry} {i : Slot} (h : r.slots i = none) : r.evict i = r := by
  simp only [evict, h]

theorem evict_of_some {r : Registry} {i : Slot} {e : Entry} (h : r.slots i = some e) :
    r.evict i = { r.close e.socket with
      slots := OsLabs.clear r.slots i, count := r.count - 1 } := by
  simp only [evict, h]

theorem slots_close (r : Registry) (d : Fd) : (r.close d).slots = r.slots := by
  unfold close
  cases r.fds d <;> rfl

/-- Evictions only empty slots. -/
theorem slots_evict {r : Registry} {i j : Slot} {e : Entry}
    (h : (r.evict i).slots j = some e) : r.slots j = some e := by
  cases hi : r.slots i with
  | none => rwa [evict_of_none hi] at h
  | some _ =>
      rw [evict_of_some hi] at h
      exact (clear_eq_some.mp h).2

theorem numbers_evict (r : Registry) (i : Slot) : (r.evict i).numbers = r.numbers := by
  cases hi : r.slots i with
  | none => rw [evict_of_none hi]
  | some e =>
      rw [evict_of_some hi]
      unfold close
      cases r.fds e.socket <;> rfl

/-- Evictions only close descriptors. -/
theorem fds_evict {r : Registry} {i : Slot} {d : Fd} {c : Conn}
    (h : (r.evict i).fds d = some c) : r.fds d = some c := by
  cases hi : r.slots i with
  | none => rwa [evict_of_none hi] at h
  | some e =>
      rw [evict_of_some hi] at h
      unfold close at h
      cases hfd : r.fds e.socket with
      | none => rwa [hfd] at h
      | some _ =>
          rw [hfd] at h
          exact (clear_eq_some.mp h).2

theorem numbers_evictions (r : Registry) (is : List Slot) :
    (is.foldl evict r).numbers = r.numbers := by
  induction is generalizing r with
  | nil => rfl
  | cons i is ih => exact (ih (r.evict i)).trans (numbers_evict r i)

theorem fds_evictions {r : Registry} {is : List Slot} {d : Fd} {c : Conn}
    (h : (is.foldl evict r).fds d = some c) : r.fds d = some c := by
  induction is generalizing r with
  | nil => exact h
  | cons i is ih => exact fds_evict (ih h)

theorem slots_evictions {r : Registry} {is : List Slot} {j : Slot} {e : Entry}
    (h : (is.foldl evict r).slots j = some e) : r.slots j = some e := by
  induction is generalizing r with
  | nil => exact h
  | cons i is ih => exact slots_evict (ih h)

end Registry

/-- The registry that a server's state stores. -/
def Server.registry (s : Server) : Registry where
  slots := fun i =>
    if (s.clients i).active then
      some ⟨(s.clients i).name.str, (s.clients i).socket, s.session i⟩
    else none
  numbers := fun i => (s.clients i).socket
  count := s.clientCount
  fds := s.fds
  closes := s.closes
  badCloses := s.badCloses

namespace Server

theorem slots_eq_some {s : Server} {i : Slot} {e : Entry} :
    s.registry.slots i = some e ↔ (s.clients i).active = true ∧
      e = ⟨(s.clients i).name.str, (s.clients i).socket, s.session i⟩ := by
  simp only [registry]
  by_cases h : (s.clients i).active = true
  · rw [if_pos h, Option.some.injEq]
    simp only [h, true_and]
    exact eq_comm
  · rw [if_neg h]
    simp only [reduceCtorEq, h, false_and]

theorem slots_eq_none {s : Server} {i : Slot} :
    s.registry.slots i = none ↔ (s.clients i).active = false := by
  simp only [registry]
  by_cases h : (s.clients i).active = true
  · rw [if_pos h]
    simp only [reduceCtorEq, h, Bool.true_eq_false]
  · rw [if_neg h]
    simp only [true_iff]
    exact Bool.not_eq_true _ ▸ h

/-- The slot view of a table with one client changed. -/
theorem slots_update (s : Server) (i : Slot) (client : Client) (session : Slot → Conn)
    (hsession : ∀ j, j ≠ i → session j = s.session j) :
    (fun j => if (Function.update s.clients i client j).active then
        some (⟨(Function.update s.clients i client j).name.str,
          (Function.update s.clients i client j).socket, session j⟩ : Entry)
      else none)
      = Function.update s.registry.slots i (if client.active then
        some ⟨client.name.str, client.socket, session i⟩ else none) := by
  funext j
  by_cases hji : j = i
  · subst hji
    simp only [Function.update_self]
  · simp only [Function.update_of_ne hji, registry, hsession j hji]

/-- The same for the descriptor numbers. -/
theorem numbers_update (s : Server) (i : Slot) (client : Client) :
    (fun j => (Function.update s.clients i client j).socket)
      = Function.update s.registry.numbers i client.socket := by
  funext j
  by_cases hji : j = i
  · subst hji
    simp only [Function.update_self]
  · simp only [Function.update_of_ne hji, registry]

theorem registry_send (s : Server) (d : Fd) (message : Bytes) :
    (s.send d message).registry = s.registry := rfl

theorem registry_close (s : Server) (d : Fd) : (s.close d).registry = s.registry.close d := by
  unfold close Registry.close
  -- Both closes look at the same descriptors.
  have hfds : s.registry.fds d = s.fds d := rfl
  rw [hfds]
  cases s.fds d <;> rfl

theorem registry_touch (s : Server) (id : Slot) (now : Nat) :
    (s.touch id now).registry = s.registry := by
  have hslots := slots_update s id { s.clients id with lastPing := now } s.session
    (fun _ _ => rfl)
  unfold touch
  ext1
  · refine hslots.trans ?_
    exact Function.update_eq_self id s.registry.slots
  · refine (numbers_update s id _).trans ?_
    exact Function.update_eq_self id s.registry.numbers
  all_goals rfl

theorem registry_broadcastMessage (s : Server) (message : Bytes) (senderId : Slot) :
    (s.broadcastMessage message senderId).registry = s.registry := by
  unfold broadcastMessage
  refine List.foldlRecOn (motive := fun t : Server => t.registry = s.registry) _ _ rfl
    (fun t ht i _ => ?_)
  by_cases h : (t.clients i).active ∧ i ≠ senderId
  · rw [if_pos h]
    exact ht
  · rw [if_neg h]
    exact ht

theorem registry_sendToClient (s : Server) (message : Bytes) (clientId : Slot) :
    (s.sendToClient message clientId).registry = s.registry := by
  unfold sendToClient
  by_cases h : (s.clients clientId).active = true
  · rw [if_pos h]
    rfl
  · rw [if_neg h]

theorem close_clients (s : Server) (d : Fd) : (s.close d).clients = s.clients := by
  unfold close
  cases s.fds d <;> rfl

theorem close_session (s : Server) (d : Fd) : (s.close d).session = s.session := by
  unfold close
  cases s.fds d <;> rfl

theorem close_clientCount (s : Server) (d : Fd) : (s.close d).clientCount = s.clientCount := by
  unfold close
  cases s.fds d <;> rfl

/-- Closing a slot's descriptor and writing an inactive entry, in either
    order, is an eviction. -/
theorem registry_deactivate {s : Server} {i : Slot} (hactive : (s.clients i).active = true)
    (client : Client) (hclient : client.active = false)
    (hsocket : client.socket = (s.clients i).socket) :
    ({ s.close (s.clients i).socket with
        clients := Function.update s.clients i client
        clientCount := s.clientCount - 1 } : Server).registry
      = s.registry.evict i := by
  have hslot : s.registry.slots i
      = some ⟨(s.clients i).name.str, (s.clients i).socket, s.session i⟩ :=
    slots_eq_some.mpr ⟨hactive, rfl⟩
  -- The entry written is inactive, so the slot it leaves behind is empty.
  have hslots := slots_update s i client s.session (fun _ _ => rfl)
  rw [hclient] at hslots
  have hclose := registry_close s (s.clients i).socket
  rw [Registry.evict_of_some hslot, ← hclose]
  ext1
  · simp only [registry, close_session]
    exact hslots
  · refine (numbers_update s i client).trans ?_
    simp only [registry, close_clients, hsocket]
    exact Function.update_eq_self i s.registry.numbers
  all_goals rfl

theorem registry_removeClient (s : Server) (id : Slot) :
    (s.removeClient id).registry = s.registry.evict id := by
  unfold removeClient
  by_cases hactive : (s.clients id).active = true
  · rw [if_pos hactive]
    simp only [close_clients, close_clientCount]
    exact registry_deactivate hactive _ rfl rfl
  · rw [if_neg hactive, Registry.evict_of_none]
    rw [slots_eq_none]
    exact Bool.not_eq_true _ ▸ hactive

/-- A turn of the sweep evicts the slot or leaves the registry alone. -/
theorem registry_sweepSlot (now : Nat) (s : Server) (i : Slot) :
    (sweepSlot now s i).registry = s.registry.evict i ∨
      (sweepSlot now s i).registry = s.registry := by
  unfold sweepSlot
  by_cases hactive : (s.clients i).active = true
  · rw [if_pos hactive]
    by_cases hlate : (s.clients i).lastPing + 60 < now
    · left
      rw [if_pos hlate, ← registry_deactivate hactive { s.clients i with active := false } rfl rfl]
      -- The sweep clears the flag first; `close` does not look at it.
      simp only [Function.update_self, close]
      cases s.fds (s.clients i).socket <;> rfl
    · right
      rw [if_neg hlate]
      rfl
  · right
    rw [if_neg hactive]

/-- A sweep is a series of evictions. -/
theorem registry_pingSweep (now : Nat) (s : Server) :
    ∃ is : List Slot, (s.pingSweep now).registry = is.foldl Registry.evict s.registry := by
  unfold pingSweep
  refine List.foldlRecOn
    (motive := fun t : Server => ∃ is : List Slot, t.registry = is.foldl Registry.evict s.registry)
    _ _ ⟨[], rfl⟩ (fun t ht i _ => ?_)
  rcases ht with ⟨is, his⟩
  rcases registry_sweepSlot now t i with hevict | hsame
  · refine ⟨is ++ [i], ?_⟩
    rw [hevict, his, List.foldl_append]
    rfl
  · exact ⟨is, by rw [hsame, his]⟩

theorem registry_register (s : Server) (i : Slot) (d : Fd) (c : Conn) {name : Bytes}
    (hname : NulFree name) (now : Nat) :
    (s.register i d c name now).registry
      = s.registry.enter i ⟨name.take (maxNameLen - 1), d, c⟩ := by
  have hslots := slots_update s i
    { socket := d, name := (s.clients i).name.strcpyCut name, active := true, lastPing := now }
    (Function.update s.session i c) (fun j hji => Function.update_of_ne hji ..)
  unfold register
  ext1
  · refine hslots.trans ?_
    rw [if_pos rfl, Function.update_self, CharArray.str_strcpyCut _ hname (by decide)]
    rfl
  · exact numbers_update s i _
  all_goals rfl

end Server

/-- A handler's step evicts the slot it was started for, when it leaves, and
    otherwise does not change the registry. -/
theorem handlerStep_registry {clk : LocalClock} {now : Nat} {s server : Server} {id : Slot}
    {pc pc' : Pc} (h : handlerStep clk now s id pc = some (server, pc')) :
    server.registry = s.registry ∨
      (pc = .remove ∧ pc' = .exited ∧ server.registry = s.registry.evict id) := by
  cases handlerStep_cases h with
  | touch buffer => exact Or.inl (Server.registry_touch s id now)
  | broadcast response => exact Or.inl (Server.registry_broadcastMessage s response id)
  | sendTo targetId targetName response =>
      exact Or.inl (Server.registry_sendToClient s response targetId)
  | sendReply d response => exact Or.inl (Server.registry_send s d response)
  | remove => exact Or.inr ⟨rfl, rfl, Server.registry_removeClient s id⟩
  | goOn | leave | load | recv | listing | formatAll | found | notFound | formatOne | reply =>
      exact Or.inl rfl

end Tcp

end OsLabs
