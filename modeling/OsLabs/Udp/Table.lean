import OsLabs.Library.Machine
import OsLabs.Udp.Server

/-!
# The Table of the UDP Server

The table as a roster of registered addresses and names, and what each step
of the server does to it. A datagram is handled in several steps, between any
two of which the sweep may empty the slot that was looked up. The roster does
not mind: `remove_client` looks at the flag again under the lock, so it is an
eviction, and evicting an empty slot changes nothing.

`step_move` classifies the steps. Most of them evict, often nobody; a
registration enters; and the end of a `QUIT` evicts and is entered in the
log. Everything sent in the meantime is a reply or goes to the address of a
full slot, which is all that the later modules need to know about it.

## Main definitions

* `Entry`, `Server.roster`: The roster that a server's table stores.
* `Delivers`: Everything sent is a reply or goes to a registered address.
* `State.accepts`: The registration that the next step carries out.
* `Move`: The changes one step of the server makes to its roster and log.
* `TableSound`: The table in the words of the program.

## Theorems

* `roster_removeClient`, `pingSweep_log`, `roster_insertClient`: The
  functions of the server as operations on the roster.
* `step_move`: Every step of the server is a move.
* `table_consistent`: The table in every reachable state.
-/

namespace OsLabs

namespace Udp

open Machine

/-- What a slot registers: an address under a name. -/
@[ext]
structure Entry where
  addr : SockAddr
  name : Bytes

/-- The roster that a server's table stores. -/
def Server.roster (s : Server) : Roster Slot Entry where
  slots := fun i =>
    if (s.clients i).active then some ⟨(s.clients i).addr, (s.clients i).name.str⟩ else none
  count := s.clientCount

/-- Everything sent is a reply or goes to the address of a full slot. -/
def Delivers (r : Roster Slot Entry) (acts : List Action) : Prop :=
  ∀ a ∈ acts, ∃ via dst message, a = .sent via dst message ∧
    (via = .reply ∨ ∃ i e, r.slots i = some e ∧ e.addr = dst)

theorem delivers_nil (r : Roster Slot Entry) : Delivers r [] :=
  fun _ ha => absurd ha List.not_mem_nil

theorem delivers_cons {r : Roster Slot Entry} {a : Action} {acts : List Action}
    (ha : Delivers r [a]) (h : Delivers r acts) : Delivers r (a :: acts) := by
  intro b hb
  rcases List.mem_cons.mp hb with heq | hmem
  · exact ha b (List.mem_singleton.mpr heq)
  · exact h b hmem

theorem delivers_reply (r : Roster Slot Entry) (dst : SockAddr) (message : Bytes) :
    Delivers r [.sent .reply dst message] := by
  intro a ha
  exact ⟨.reply, dst, message, List.mem_singleton.mp ha, Or.inl rfl⟩

/-- What goes to the slots of a later roster goes to slots of an earlier one. -/
theorem delivers_of_subset {r r' : Roster Slot Entry} {acts : List Action}
    (hsub : ∀ i e, r'.slots i = some e → r.slots i = some e) (h : Delivers r' acts) :
    Delivers r acts := by
  intro a ha
  rcases h a ha with ⟨via, dst, message, heq, hvia⟩
  refine ⟨via, dst, message, heq, ?_⟩
  rcases hvia with hreply | ⟨i, e, hi, he⟩
  · exact Or.inl hreply
  · exact Or.inr ⟨i, e, hsub i e hi, he⟩

namespace Server

theorem slots_eq_some {s : Server} {i : Slot} {e : Entry} :
    s.roster.slots i = some e ↔ (s.clients i).active = true ∧
      e = ⟨(s.clients i).addr, (s.clients i).name.str⟩ := by
  simp only [roster]
  by_cases h : (s.clients i).active = true
  · rw [if_pos h, Option.some.injEq]
    simp only [h, true_and]
    exact eq_comm
  · rw [if_neg h]
    simp only [reduceCtorEq, h, false_and]

theorem slots_of_active {s : Server} {i : Slot} (h : (s.clients i).active = true) :
    s.roster.slots i = some ⟨(s.clients i).addr, (s.clients i).name.str⟩ :=
  slots_eq_some.mpr ⟨h, rfl⟩

theorem slots_eq_none {s : Server} {i : Slot} :
    s.roster.slots i = none ↔ (s.clients i).active = false := by
  simp only [roster]
  by_cases h : (s.clients i).active = true
  · rw [if_pos h]
    simp only [reduceCtorEq, h, Bool.true_eq_false]
  · rw [if_neg h]
    simp only [true_iff]
    exact Bool.not_eq_true _ ▸ h

theorem occupied_slots (s : Server) : occupied s.roster.slots = tally Client.active s.clients := by
  unfold occupied
  refine tally_congr (fun i => ?_)
  cases hactive : (s.clients i).active with
  | false => rw [slots_eq_none.mpr hactive, Option.isSome_none]
  | true => rw [slots_of_active hactive, Option.isSome_some]

/-- The slot view of a table with one client changed. -/
theorem slots_update (s : Server) (i : Slot) (client : Client) :
    (fun j => if (Function.update s.clients i client j).active then
        some (⟨(Function.update s.clients i client j).addr,
          (Function.update s.clients i client j).name.str⟩ : Entry)
      else none)
      = Function.update s.roster.slots i
          (if client.active then some ⟨client.addr, client.name.str⟩ else none) := by
  funext j
  by_cases hji : j = i
  · subst hji
    simp only [Function.update_self]
  · simp only [Function.update_of_ne hji, roster]

theorem roster_touch (s : Server) (id : Slot) (now : Nat) :
    (s.touch id now).roster = s.roster := by
  have hslots := slots_update s id { s.clients id with lastPing := now }
  unfold touch
  ext1
  · exact hslots.trans (Function.update_eq_self id s.roster.slots)
  · rfl

/-- Writing an inactive entry over an active one is an eviction. -/
theorem roster_deactivate {s : Server} {i : Slot} (hactive : (s.clients i).active = true)
    (client : Client) (hclient : client.active = false) :
    ({ s with
        clients := Function.update s.clients i client
        clientCount := s.clientCount - 1 } : Server).roster = s.roster.evict i := by
  have hslots := slots_update s i client
  rw [hclient] at hslots
  rw [Roster.evict_of_some (slots_of_active hactive)]
  ext1
  · exact hslots
  · rfl

theorem roster_removeClient (s : Server) (id : Slot) :
    (s.removeClient id).roster = s.roster.evict id := by
  unfold removeClient
  by_cases hactive : (s.clients id).active = true
  · rw [if_pos hactive]
    exact roster_deactivate hactive _ rfl
  · rw [if_neg hactive, Roster.evict_of_none]
    rw [slots_eq_none]
    exact Bool.not_eq_true _ ▸ hactive

theorem log_removeClient (s : Server) (id : Slot) : (s.removeClient id).log = s.log := by
  unfold removeClient
  by_cases hactive : (s.clients id).active = true
  · rw [if_pos hactive]
  · rw [if_neg hactive]

theorem roster_insertClient (s : Server) (i : Slot) {name : Bytes} (hname : NulFree name)
    (addr : SockAddr) (now : Nat) :
    (s.insertClient i name addr now).roster
      = s.roster.enter i ⟨addr, name.take (maxNameLen - 1)⟩ := by
  have hslots := slots_update s i
    { addr := addr, name := (s.clients i).name.strcpyCut name, active := true, lastPing := now,
      registered := true }
  unfold insertClient
  ext1
  · refine hslots.trans ?_
    rw [if_pos rfl, CharArray.str_strcpyCut _ hname (by decide)]
    rfl
  · rfl

theorem delivers_active {s : Server} {i : Slot} (hactive : (s.clients i).active = true)
    (via : Via) (message : Bytes) :
    Delivers s.roster [.sent via (s.clients i).addr message] := by
  intro a ha
  exact ⟨via, _, message, List.mem_singleton.mp ha, Or.inr ⟨i, _, slots_of_active hactive, rfl⟩⟩

/-- A locked send goes to active slots only. -/
theorem sendToClient_log (s : Server) (message : Bytes) (clientId : Slot) :
    (s.sendToClient message clientId).roster = s.roster ∧
      ∃ acts, (s.sendToClient message clientId).log = acts ++ s.log ∧ Delivers s.roster acts := by
  unfold sendToClient
  by_cases hactive : (s.clients clientId).active = true
  · rw [if_pos hactive]
    exact ⟨rfl, _, List.singleton_append.symm, delivers_active hactive _ _⟩
  · rw [if_neg hactive]
    exact ⟨rfl, [], rfl, delivers_nil _⟩

theorem broadcastMessage_log (s : Server) (message : Bytes) (senderId : Slot) :
    (s.broadcastMessage message senderId).roster = s.roster ∧
      ∃ acts, (s.broadcastMessage message senderId).log = acts ++ s.log ∧
        Delivers s.roster acts := by
  unfold broadcastMessage
  refine List.foldlRecOn (motive := fun t : Server => t.roster = s.roster ∧
    ∃ acts, t.log = acts ++ s.log ∧ Delivers s.roster acts) _ _ ⟨rfl, [], rfl, delivers_nil _⟩
    (fun t ht i _ => ?_)
  rcases ht with ⟨hroster, acts, hlog, hacts⟩
  by_cases h : (t.clients i).active ∧ i ≠ senderId
  · rw [if_pos h]
    refine ⟨hroster, .sent .broadcast (t.clients i).addr message :: acts, ?_, ?_⟩
    · simp only [sendto, hlog, List.cons_append]
    · rw [← hroster] at hacts ⊢
      exact delivers_cons (delivers_active h.1 _ _) hacts
  · rw [if_neg h]
    exact ⟨hroster, acts, hlog, hacts⟩

/-- A turn of the sweep evicts the slot, or sends it a probe, or finds it
    empty. -/
theorem sweepSlot_log (now : Nat) (s : Server) (i : Slot) :
    ((sweepSlot now s i).roster = s.roster.evict i ∧ (sweepSlot now s i).log = s.log) ∨
      ((sweepSlot now s i).roster = s.roster ∧
        ∃ acts, (sweepSlot now s i).log = acts ++ s.log ∧ Delivers s.roster acts) := by
  unfold sweepSlot
  by_cases hactive : (s.clients i).active = true
  · rw [if_pos hactive]
    by_cases hlate : (s.clients i).lastPing + timeoutSeconds < now
    · rw [if_pos hlate]
      exact Or.inl ⟨roster_deactivate hactive _ rfl, rfl⟩
    · rw [if_neg hlate]
      exact Or.inr ⟨rfl, _, List.singleton_append.symm, delivers_active hactive _ _⟩
  · rw [if_neg hactive]
    exact Or.inr ⟨rfl, [], rfl, delivers_nil _⟩

/-- A sweep is a series of evictions, and probes go to slots that were full
    when it began. -/
theorem pingSweep_log (now : Nat) (s : Server) :
    ∃ (is : List Slot) (acts : List Action),
      (s.pingSweep now).roster = is.foldl Roster.evict s.roster ∧
        (s.pingSweep now).log = acts ++ s.log ∧ Delivers s.roster acts := by
  unfold pingSweep
  refine List.foldlRecOn (motive := fun t : Server => ∃ (is : List Slot) (acts : List Action),
    t.roster = is.foldl Roster.evict s.roster ∧ t.log = acts ++ s.log ∧ Delivers s.roster acts)
    _ _ ⟨[], [], rfl, rfl, delivers_nil _⟩ (fun t ht i _ => ?_)
  rcases ht with ⟨is, acts, his, hlog, hacts⟩
  rcases sweepSlot_log now t i with ⟨hroster, hsame⟩ | ⟨hroster, acts', hlog', hacts'⟩
  · refine ⟨is ++ [i], acts, ?_, by rw [hsame, hlog], hacts⟩
    rw [hroster, his, List.foldl_append]
    rfl
  · refine ⟨is, acts' ++ acts, by rw [hroster, his], ?_, ?_⟩
    · rw [hlog', hlog, List.append_assoc]
    · rw [his] at hacts'
      -- A slot full now was full when the sweep began.
      have hfirst := delivers_of_subset (fun _ _ => Roster.slots_evictions) hacts'
      intro a ha
      rcases List.mem_append.mp ha with hmem | hmem
      · exact hfirst a hmem
      · exact hacts a hmem

end Server

/-- The registration that the next step of the receiving thread carries out:
    the slot it fills, the address and the name. -/
def State.accepts (s : State) : Option (Slot × SockAddr × Bytes) :=
  match s.message with
  | .register src name =>
      match s.server.findClientByName name with
      | some _ => none
      | none => s.server.freeSlot.map fun i => (i, src, name)
  | _ => none

theorem State.accepts_eq_some {s : State} {i : Slot} {src : SockAddr} {name : Bytes} :
    s.accepts = some (i, src, name) ↔ s.message = .register src name ∧
      s.server.findClientByName name = none ∧ s.server.freeSlot = some i := by
  unfold State.accepts
  cases hmessage : s.message with
  | register src' name' =>
      simp only [Pc.register.injEq]
      cases hfind : s.server.findClientByName name' with
      | some j =>
          -- A name in use is refused before a slot is looked for.
          simp only [reduceCtorEq, false_iff, not_and, and_imp]
          intro _ hname hnone
          rw [← hname, hfind] at hnone
          exact absurd hnone (by simp only [reduceCtorEq, not_false_eq_true])
      | none =>
          simp only [Option.map_eq_some_iff, Prod.mk.injEq]
          constructor
          · rintro ⟨j, hfree, rfl, rfl, rfl⟩
            exact ⟨⟨rfl, rfl⟩, hfind, hfree⟩
          · rintro ⟨⟨rfl, rfl⟩, _, hfree⟩
            exact ⟨i, hfree, rfl, rfl, rfl⟩
  | _ => simp only [reduceCtorEq, false_and]

/-- The changes one step of the server makes to its roster and log. -/
inductive Move (s : State) (e : Event) (s' : State) : Prop where
  | evictions (is : List Slot) (acts : List Action)
      (hidle : e = .message → s.accepts = none)
      (hroster : s'.server.roster = is.foldl Roster.evict s.server.roster)
      (hlog : s'.server.log = acts ++ s.server.log) (hacts : Delivers s.server.roster acts)
  | enter (i : Slot) (src : SockAddr) (name : Bytes) (hevent : e = .message)
      (haccepts : s.accepts = some (i, src, name))
      (hroster : s'.server.roster
        = s.server.roster.enter i ⟨src, name.take (maxNameLen - 1)⟩)
      (hlog : s'.server.log = .registered src :: s.server.log)
  | quit (src : SockAddr) (id : Slot) (hevent : e = .message)
      (hmessage : s.message = .remove src id)
      (hroster : s'.server.roster = s.server.roster.evict id)
      (hlog : s'.server.log = .quit src :: s.server.log)

/-- The strings that the receiving thread compares and stores have no NUL. -/
def Pc.Clean : Pc → Prop
  | .lookup _ buffer => NulFree buffer
  | .register _ name => NulFree name
  | _ => True

theorem messageStep_clean {clk : LocalClock} {now : Nat} {s server : Server} {pc pc' : Pc}
    (hpc : pc.Clean) (h : messageStep clk now s pc = some (server, pc')) : pc'.Clean := by
  cases messageStep_cases h with
  | registration src buffer hregister => exact nulFree_drop 9 hpc
  | touch src id buffer => cases parse buffer <;> trivial
  | _ => trivial

/-- Outside of `register_client` and `remove_client` the receiving thread
    leaves the roster alone. -/
theorem messageStep_idle {clk : LocalClock} {now : Nat} {s server : Server} {pc pc' : Pc}
    (hregister : ∀ src name, pc ≠ .register src name) (hremove : ∀ src id, pc ≠ .remove src id)
    (h : messageStep clk now s pc = some (server, pc')) :
    server.roster = s.roster ∧
      ∃ acts, server.log = acts ++ s.log ∧ Delivers s.roster acts := by
  cases messageStep_cases h with
  | nameUsed src name | full src name | registered src name => exact absurd rfl (hregister src name)
  | remove src id => exact absurd rfl (hremove src id)
  | touch src id buffer => exact ⟨Server.roster_touch s id now, [], rfl, delivers_nil _⟩
  | broadcast id response => exact Server.broadcastMessage_log s response id
  | sendTo src targetId targetName response => exact Server.sendToClient_log s response targetId
  | farewell src id =>
      exact ⟨rfl, _, List.singleton_append.symm, delivers_reply _ src (text "OK: Do widzenia")⟩
  | reply src response =>
      exact ⟨rfl, _, List.singleton_append.symm, delivers_reply _ src response⟩
  | registration | unknown | known | listing | formatAll | found | notFound | formatOne =>
      exact ⟨rfl, [], rfl, delivers_nil _⟩

theorem messageStep_move {clk : LocalClock} {s s' : State} (hclean : s.message.Clean)
    (h : messageStep clk s.clock s.server s.message = some (s'.server, s'.message)) :
    Move s .message s' := by
  by_cases hregister : ∃ src name, s.message = .register src name
  · rcases hregister with ⟨src, name, hmessage⟩
    rw [hmessage] at h hclean
    simp only [messageStep, Server.registerClient] at h
    -- The three results of `register_client`; only the last one enters.
    cases hfind : s.server.findClientByName name with
    | some j =>
        simp only [hfind, Option.some.injEq, Prod.mk.injEq] at h
        refine Move.evictions [] [] (fun _ => ?_) ?_ ?_ (delivers_nil _)
        · simp only [State.accepts, hmessage, hfind]
        · rw [h.1, List.foldl_nil]
        · rw [h.1, List.nil_append]
    | none =>
        cases hfree : s.server.freeSlot with
        | none =>
            simp only [hfind, hfree, Option.some.injEq, Prod.mk.injEq] at h
            refine Move.evictions [] [] (fun _ => ?_) ?_ ?_ (delivers_nil _)
            · simp only [State.accepts, hmessage, hfind, hfree, Option.map_none]
            · rw [h.1, List.foldl_nil]
            · rw [h.1, List.nil_append]
        | some i =>
            simp only [hfind, hfree, Option.some.injEq, Prod.mk.injEq] at h
            refine Move.enter i src name rfl ?_ ?_ ?_
            · exact State.accepts_eq_some.mpr ⟨hmessage, hfind, hfree⟩
            · rw [← h.1, Server.roster_insertClient _ _ hclean]
            · rw [← h.1]
              rfl
  -- `remove_client` is the other step that changes the table.
  · by_cases hremove : ∃ src id, s.message = .remove src id
    · rcases hremove with ⟨src, id, hmessage⟩
      rw [hmessage] at h
      simp only [messageStep, Option.some.injEq, Prod.mk.injEq] at h
      refine Move.quit src id rfl hmessage ?_ ?_
      · rw [← h.1, ← Server.roster_removeClient]
        rfl
      · rw [← h.1, Server.log_removeClient]
    -- All other steps leave it, and send what they send.
    · have hno : ∀ src name, s.message ≠ .register src name :=
        fun src name heq => hregister ⟨src, name, heq⟩
      rcases messageStep_idle hno (fun src id heq => hremove ⟨src, id, heq⟩) h with
        ⟨hroster, acts, hlog, hacts⟩
      refine Move.evictions [] acts (fun _ => ?_) hroster hlog hacts
      unfold State.accepts
      split
      · rename_i src name hmessage
        exact absurd hmessage (hno src name)
      · rfl

/-- Every step of the server is a move, whoever takes it. -/
theorem step_move {clk : LocalClock} {s s' : State} {e : Event} (hclean : s.message.Clean)
    (h : step clk s e = some s') : Move s e s' := by
  rcases step_cases h with ⟨he, hserver, _⟩ | ⟨he, hmessage⟩ | ⟨he, now, hserver, _⟩
  · refine Move.evictions [] [] (fun heq => absurd heq he) ?_ ?_ (delivers_nil _)
    · rw [hserver, List.foldl_nil]
    · rw [hserver, List.nil_append]
  · subst he
    exact messageStep_move hclean hmessage
  · rcases Server.pingSweep_log now s.server with ⟨is, acts, hroster, hlog, hacts⟩
    rw [← hserver] at hroster hlog
    exact Move.evictions is acts (fun heq => absurd heq he) hroster hlog hacts

theorem clean_step {clk : LocalClock} {s s' : State} {e : Event} (hclean : s.message.Clean)
    (h : step clk s e = some s') : s'.message.Clean := by
  rcases step_cases h with ⟨_, _, hsame | ⟨src, buffer, hlookup, hbuffer⟩⟩ | ⟨_, hmessage⟩ |
    ⟨_, _, _, hsame⟩
  · rwa [hsame]
  · rw [hlookup]
    exact hbuffer
  · exact messageStep_clean hclean hmessage
  · rwa [hsame]

/-- What every entry of the table satisfies, full or empty. -/
def Client.Ok (c : Client) : Prop := c.registered = c.active ∧ (0 : UInt8) ∈ c.name.bytes

namespace Server

def Ok (s : Server) : Prop := ∀ i, (s.clients i).Ok

theorem ok_update {s : Server} (h : s.Ok) (i : Slot) {client : Client} (hclient : client.Ok)
    (j : Slot) : (Function.update s.clients i client j).Ok := by
  by_cases hji : j = i
  · rw [hji, Function.update_self]
    exact hclient
  · rw [Function.update_of_ne hji]
    exact h j

theorem ok_removeClient {s : Server} (h : s.Ok) (id : Slot) : (s.removeClient id).Ok := by
  unfold removeClient
  by_cases hactive : (s.clients id).active = true
  · rw [if_pos hactive]
    refine ok_update h id ⟨rfl, ?_⟩
    exact List.mem_replicate.mpr ⟨by decide, rfl⟩
  · rwa [if_neg hactive]

theorem ok_insertClient {s : Server} (h : s.Ok) (i : Slot) (name : Bytes) (addr : SockAddr)
    (now : Nat) : (s.insertClient i name addr now).Ok :=
  ok_update h i ⟨rfl, CharArray.nul_mem_strcpyCut _ _ (by decide)⟩

theorem ok_touch {s : Server} (h : s.Ok) (id : Slot) (now : Nat) : (s.touch id now).Ok :=
  ok_update h id ⟨(h id).1, (h id).2⟩

theorem ok_sweepSlot {s : Server} (h : s.Ok) (now : Nat) (i : Slot) : (sweepSlot now s i).Ok := by
  unfold sweepSlot
  by_cases hactive : (s.clients i).active = true
  · rw [if_pos hactive]
    by_cases hlate : (s.clients i).lastPing + timeoutSeconds < now
    · rw [if_pos hlate]
      exact ok_update h i ⟨rfl, (h i).2⟩
    · rw [if_neg hlate]
      exact h
  · rwa [if_neg hactive]

theorem ok_pingSweep {s : Server} (h : s.Ok) (now : Nat) : (s.pingSweep now).Ok :=
  List.foldlRecOn (motive := Ok) _ _ h (fun _ ht i _ => ok_sweepSlot ht now i)

theorem ok_broadcastMessage {s : Server} (h : s.Ok) (message : Bytes) (senderId : Slot) :
    (s.broadcastMessage message senderId).Ok := by
  refine List.foldlRecOn (motive := Ok) _ _ h (fun t ht i _ => ?_)
  by_cases hsend : (t.clients i).active ∧ i ≠ senderId
  · rw [if_pos hsend]
    exact ht
  · rwa [if_neg hsend]

theorem ok_sendToClient {s : Server} (h : s.Ok) (message : Bytes) (clientId : Slot) :
    (s.sendToClient message clientId).Ok := by
  unfold sendToClient
  by_cases hactive : (s.clients clientId).active = true
  · rw [if_pos hactive]
    exact h
  · rwa [if_neg hactive]

end Server

theorem ok_messageStep {clk : LocalClock} {now : Nat} {s server : Server} {pc pc' : Pc}
    (hs : s.Ok) (h : messageStep clk now s pc = some (server, pc')) : server.Ok := by
  cases messageStep_cases h with
  | registered src name i hfind hfree => exact Server.ok_insertClient hs i name src now
  | touch src id buffer => exact Server.ok_touch hs id now
  | broadcast id response => exact Server.ok_broadcastMessage hs response id
  | sendTo src targetId targetName response => exact Server.ok_sendToClient hs response targetId
  | remove src id => exact Server.ok_removeClient hs id
  | registration | unknown | known | nameUsed | full | listing | formatAll | found | notFound
  | formatOne | farewell | reply => exact hs

/-- The invariant of the server's table. -/
structure Inv (s : State) : Prop where
  clean : s.message.Clean
  counted : s.server.roster.Counted
  ok : s.server.Ok

theorem inv_init : Inv init where
  clean := trivial
  counted := by
    have hempty : init.server.roster.slots = fun _ => none := rfl
    unfold Roster.Counted
    rw [hempty, occupied_empty]
    rfl
  ok := fun _ => ⟨rfl, List.mem_replicate.mpr ⟨by decide, rfl⟩⟩

/-- A slot in which `register_client` inserts is empty. -/
theorem State.slot_of_accepts {s : State} {i : Slot} {src : SockAddr} {name : Bytes}
    (h : s.accepts = some (i, src, name)) : s.server.roster.slots i = none := by
  have hfree := scan_some (State.accepts_eq_some.mp h).2.2
  rw [Server.slots_eq_none]
  simpa only [Bool.not_eq_eq_eq_not, Bool.not_true] using hfree

theorem inv_step {clk : LocalClock} {s s' : State} {e : Event} (h : Inv s)
    (hstep : step clk s e = some s') : Inv s' := by
  refine ⟨clean_step h.clean hstep, ?_, ?_⟩
  · cases step_move h.clean hstep with
    | evictions is acts hidle hroster hlog hacts =>
        rw [hroster]
        exact Roster.counted_evictions is h.counted
    | enter i src name hevent haccepts hroster hlog =>
        rw [hroster]
        exact Roster.counted_enter _ (State.slot_of_accepts haccepts) h.counted
    | quit src id hevent hmessage hroster hlog =>
        rw [hroster]
        exact Roster.counted_evict id h.counted
  · rcases step_cases hstep with ⟨_, hserver, _⟩ | ⟨_, hmessage⟩ | ⟨_, now, hserver, _⟩
    · rw [hserver]
      exact h.ok
    · exact ok_messageStep h.ok hmessage
    · rw [hserver]
      exact Server.ok_pingSweep h.ok now

theorem inv_reachable {clk : LocalClock} {s : State} (h : Reaches (step clk) init s) : Inv s :=
  reaches_invariant (fun _ _ _ hs hstep => inv_step hs hstep) inv_init h

/-- The table of the program. The array of a name has `MAX_NAME_LEN` bytes by
    its type. -/
structure TableSound (s : State) : Prop where
  counter : s.server.clientCount = tally Client.active s.server.clients
  counterBounds : 0 ≤ s.server.clientCount ∧ s.server.clientCount ≤ maxClients
  registered : ∀ i, (s.server.clients i).registered = (s.server.clients i).active
  terminated : ∀ i, (s.server.clients i).active = true →
    (0 : UInt8) ∈ (s.server.clients i).name.bytes
  /-- A `QUIT` that finds its slot swept leaves the counter alone. -/
  lateQuit : ∀ src id, s.message = .remove src id → (s.server.clients id).active = false →
    (s.server.removeClient id).clientCount = s.server.clientCount

/-- In every state that any datagrams and sweeps reach, the counter counts the
    active slots, both flags of a slot agree, and its name is terminated. -/
theorem table_consistent (clk : LocalClock) (s : State) (h : Reaches (step clk) init s) :
    TableSound s := by
  have hinv := inv_reachable h
  have hcount : s.server.clientCount = tally Client.active s.server.clients := by
    rw [← Server.occupied_slots]
    exact hinv.counted
  have hbound : tally Client.active s.server.clients ≤ maxClients := by
    have := tally_le_card Client.active s.server.clients
    rwa [Fintype.card_fin] at this
  refine ⟨hcount, by omega, fun i => (hinv.ok i).1, fun i _ => (hinv.ok i).2, ?_⟩
  intro src id _ hinactive
  unfold Server.removeClient
  rw [hinactive, if_neg Bool.false_ne_true]

/-- A client registers and falls silent; its `QUIT` is looked up, swept, and
    only then carried out. -/
def lateQuitRun : List Event :=
  [.datagram ⟨1, 1⟩ (text "REGISTER ala"), .message, .message, .message, .time 61, .pingWake,
    .datagram ⟨1, 1⟩ (text "QUIT"), .message, .sweep, .message, .message, .message]

/-- The table is in order after a late `QUIT`. -/
theorem table_consistent_after_late_quit :
    ∃ s, exec (step stoppedClock) init lateQuitRun = some s ∧ TableSound s := by
  have hend : (exec (step stoppedClock) init lateQuitRun).any (fun s =>
      decide (s.server.clientCount = 0)) = true := by
    decide +kernel
  rcases exists_of_exec_any hend with ⟨s, hrun, _⟩
  exact ⟨s, hrun, table_consistent stoppedClock s ⟨lateQuitRun, hrun⟩⟩

end Udp

end OsLabs
