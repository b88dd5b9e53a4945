import OsLabs.Udp.Handling
import OsLabs.Udp.Table

/-!
# The Keep-Alive of the UDP Server

Who is disconnected for silence, and when. A slot is active at a time: when it
is registered, and whenever `last_ping` is written for a datagram that
`find_client_by_addr` resolved to it. The times are taken from the run and
not from the table, so that a `last_ping` left over from an earlier client, or
written to the wrong slot, would show.

Two things make the sweep stale. It reads the clock before it takes the lock,
so a slot may be younger than the time it is compared with; and the write of
`last_ping` is not locked, so it may hit a slot that the sweep has just
emptied. Neither does harm. `last_ping` of a full slot is its latest activity
in every reachable state, and the next client of an emptied slot starts with
an activity of its own.

## Main definitions

* `kept`: The slots that a sweep leaves active.
* `activity`, `resolution`: The activity of a slot, and the lookup of a
  sender, that a step is.
* `activityTime`: The time of a slot's latest activity.
* `Forward`: The clock does not go back.
* `SlotStep`: What one step does to one slot.
* `Heard`, `Pc.ResolvedBy`: The invariants.
* `QuitsSlot`, `KeepAlive`, `Lively`: The property.

## Theorems

* `clients_pingSweep`, `log_pingSweep`: What a sweep does.
* `slotStep`: Every step does one of four things to a slot.
* `heard_run`, `resolvedBy_run`: The invariants along a run.
* `keep_alive_exact`: The keep-alive, exactly.
-/

namespace OsLabs

namespace Udp

open Machine

/-- The client has been silent for too long at the time `now`. -/
def Client.late (now : Nat) (c : Client) : Bool := decide (c.lastPing + timeoutSeconds < now)

namespace Server

/-- The slots that a sweep at the time `now` leaves active. -/
def kept (now : Nat) (s : Server) : List Slot :=
  (List.finRange maxClients).filter fun i => (s.clients i).active && !(s.clients i).late now

theorem mem_kept {now : Nat} {s : Server} {i : Slot} :
    i ∈ s.kept now ↔ (s.clients i).active = true ∧ ¬ (s.clients i).late now = true := by
  simp only [kept, List.mem_filter, List.mem_finRange, true_and, Bool.and_eq_true,
    Bool.not_eq_true', Bool.not_eq_true]

/-- The entry that a sweep leaves of a client. -/
def swept (now : Nat) (c : Client) : Client :=
  if (c.active && c.late now) = true then { c with active := false, registered := false } else c

/-- A turn of the sweep concerns one slot. -/
theorem sweepSlot_eq (now : Nat) (s : Server) (i : Slot) :
    (sweepSlot now s i).clients = Function.update s.clients i (swept now (s.clients i)) ∧
      (sweepSlot now s i).log =
        (if ((s.clients i).active && !(s.clients i).late now) = true then
          [.sent .alive (s.clients i).addr (text "ALIVE")] else []) ++ s.log := by
  unfold sweepSlot swept
  cases hactive : (s.clients i).active with
  | false =>
      simp only [Bool.false_eq_true, if_false, Bool.false_and, List.nil_append, and_true]
      exact (Function.update_eq_self i s.clients).symm
  | true =>
      by_cases hlate : (s.clients i).lastPing + timeoutSeconds < now
      · have hdecide : (s.clients i).late now = true := decide_eq_true hlate
        rw [if_pos rfl, if_pos hlate, hdecide]
        exact ⟨rfl, rfl⟩
      · have hdecide : (s.clients i).late now = false := decide_eq_false hlate
        rw [if_pos rfl, if_neg hlate, hdecide]
        simp only [Bool.and_false, Bool.false_eq_true, if_false, Bool.not_false, Bool.and_true,
          if_true]
        exact ⟨(Function.update_eq_self i s.clients).symm, rfl⟩

/-- The turns of the sweep for some of the slots. -/
theorem sweepSlots_eq (now : Nat) {slots : List Slot} (hslots : slots.Nodup) (s : Server) :
    (∀ i, (slots.foldl (sweepSlot now) s).clients i
      = if i ∈ slots then swept now (s.clients i) else s.clients i) ∧
      (slots.foldl (sweepSlot now) s).log
        = ((slots.filter fun i => (s.clients i).active && !(s.clients i).late now).map
            fun i => .sent .alive (s.clients i).addr (text "ALIVE")).reverse ++ s.log := by
  induction slots generalizing s with
  | nil => exact ⟨fun i => (if_neg List.not_mem_nil).symm, rfl⟩
  | cons j slots ih =>
      rcases List.nodup_cons.mp hslots with ⟨hj, hrest⟩
      rcases sweepSlot_eq now s j with ⟨hclients, hlog⟩
      rcases ih hrest (sweepSlot now s j) with ⟨ihclients, ihlog⟩
      -- The slots that are left are not the one that was looked at.
      have hother : ∀ i ∈ slots, (sweepSlot now s j).clients i = s.clients i := by
        intro i hi
        rw [hclients]
        refine Function.update_of_ne ?_ ..
        rintro rfl
        exact hj hi
      refine ⟨fun i => ?_, ?_⟩
      · rw [List.foldl_cons, ihclients]
        by_cases hij : i = j
        · rw [hij, if_neg hj, if_pos List.mem_cons_self, hclients, Function.update_self]
        · by_cases hi : i ∈ slots
          · rw [if_pos hi, if_pos (List.mem_cons_of_mem j hi), hother i hi]
          · have hnot : i ∉ j :: slots := by
              rw [List.mem_cons]
              exact fun hmem => hmem.elim hij hi
            rw [if_neg hi, if_neg hnot, hclients, Function.update_of_ne hij]
      · rw [List.foldl_cons, ihlog, hlog, List.filter_cons]
        have hfilter : slots.filter (fun i => ((sweepSlot now s j).clients i).active &&
              !((sweepSlot now s j).clients i).late now)
            = slots.filter fun i => (s.clients i).active && !(s.clients i).late now :=
          List.filter_congr fun i hi => by rw [hother i hi]
        have hmap : ∀ l : List Slot, (∀ i ∈ l, i ∈ slots) →
            l.map (fun i => Action.sent .alive ((sweepSlot now s j).clients i).addr (text "ALIVE"))
              = l.map fun i => .sent .alive (s.clients i).addr (text "ALIVE") :=
          fun l hl => List.map_congr_left fun i hi => by rw [hother i (hl i hi)]
        rw [hfilter, hmap _ fun i hi => (List.mem_filter.mp hi).1]
        by_cases hsend : ((s.clients j).active && !(s.clients j).late now) = true
        · rw [if_pos hsend, if_pos hsend, List.map_cons, List.reverse_cons, List.append_assoc]
        · rw [if_neg hsend, if_neg hsend, List.nil_append]

theorem clients_pingSweep (now : Nat) (s : Server) (i : Slot) :
    (s.pingSweep now).clients i = swept now (s.clients i) := by
  have h := (sweepSlots_eq now (List.nodup_finRange maxClients) s).1 i
  unfold pingSweep
  rw [h, if_pos (List.mem_finRange i)]

theorem log_pingSweep (now : Nat) (s : Server) :
    (s.pingSweep now).log
      = ((s.kept now).map fun i => .sent .alive (s.clients i).addr (text "ALIVE")).reverse
        ++ s.log := by
  have h := (sweepSlots_eq now (List.nodup_finRange maxClients) s).2
  unfold pingSweep kept
  rw [h]

theorem swept_active {now : Nat} {c : Client} :
    (swept now c).active = true ↔ c.active = true ∧ ¬ c.late now = true := by
  unfold swept
  by_cases h : (c.active && c.late now) = true
  · rw [if_pos h]
    rw [Bool.and_eq_true] at h
    simp only [Bool.false_eq_true, h.2, not_true_eq_false, and_false]
  · rw [if_neg h]
    rw [Bool.and_eq_true, not_and] at h
    exact ⟨fun hactive => ⟨hactive, h hactive⟩, fun hboth => hboth.1⟩

theorem swept_lastPing (now : Nat) (c : Client) : (swept now c).lastPing = c.lastPing := by
  unfold swept
  by_cases h : (c.active && c.late now) = true
  · rw [if_pos h]
  · rw [if_neg h]

end Server

/-- The activity that the next step is: a registration, or the write of
    `last_ping` for a datagram that was resolved to the slot. -/
def activity (s : State) : Event → Option (Slot × Nat)
  | .message =>
      match s.message with
      | .register _ _ => s.accepts.map fun p => (p.1, s.clock)
      | .touch _ id _ => some (id, s.clock)
      | _ => none
  | _ => none

/-- The sender that the next step resolves to a slot, with its datagram. -/
def resolution (s : State) : Event → Option (SockAddr × Bytes × Slot)
  | .message =>
      match s.message with
      | .lookup src buffer =>
          if strncmpEq buffer (text "REGISTER ") then none
          else (s.server.findClientByAddr src).map fun id => (src, buffer, id)
      | _ => none
  | _ => none

/-- The time of the latest activity of a slot. -/
def activityTime (acts : List (Slot × Nat)) (i : Slot) : Option Nat :=
  ((acts.filter fun p => p.1 = i).getLast?).map Prod.snd

/-- The clock does not go back. -/
def Forward (s : State) : Event → Prop
  | .time now => s.clock ≤ now
  | _ => True

instance (s : State) (e : Event) : Decidable (Forward s e) :=
  match e with
  | .time now => inferInstanceAs (Decidable (s.clock ≤ now))
  | .datagram _ _ => isTrue trivial
  | .recvError => isTrue trivial
  | .message => isTrue trivial
  | .pingWake => isTrue trivial
  | .sweep => isTrue trivial

theorem activityTime_append (acts : List (Slot × Nat)) (i j : Slot) (now : Nat) :
    activityTime (acts ++ [(j, now)]) i = if j = i then some now else activityTime acts i := by
  unfold activityTime
  rw [List.filter_append, List.filter_singleton]
  by_cases hj : j = i
  · simp only [hj, decide_true, cond_true, List.getLast?_append, List.getLast?_singleton,
      Option.some_or, Option.map_some, if_true]
  · simp only [hj, decide_false, cond_false, List.append_nil, if_false]

theorem activityTime_mem {acts : List (Slot × Nat)} {i : Slot} {a : Nat}
    (h : activityTime acts i = some a) : (i, a) ∈ acts := by
  unfold activityTime at h
  rw [Option.map_eq_some_iff] at h
  rcases h with ⟨⟨j, b⟩, hlast, rfl⟩
  have hmem := List.mem_of_getLast? hlast
  rw [List.mem_filter, decide_eq_true_eq] at hmem
  rcases hmem with ⟨hmem, rfl⟩
  exact hmem

/-- What one step does to a slot: nothing, an activity, the end of a `QUIT`
    that was resolved to it, or a sweep. -/
inductive SlotStep (s : State) (e : Event) (s' : State) (i : Slot) : Prop where
  | other (hclient : s'.server.clients i = s.server.clients i)
      (hactivity : ∀ now, activity s e ≠ some (i, now))
  | active (hactivity : activity s e = some (i, s.clock))
      (hping : (s'.server.clients i).lastPing = s.clock)
      (hstays : (s.server.clients i).active = true → (s'.server.clients i).active = true)
  | removed (src : SockAddr) (hevent : e = .message) (hmessage : s.message = .remove src i)
      (hping : (s'.server.clients i).lastPing = (s.server.clients i).lastPing)
      (hactive : (s'.server.clients i).active = false)
  | swept (now : Nat) (hevent : e = .sweep) (hping : s.ping = .sweeping now)
      (hclient : s'.server.clients i = Server.swept now (s.server.clients i))

/-- The events that leave the server alone: the clock, a datagram on its way,
    and the ping thread reading the clock. -/
def Event.idle : Event → Bool
  | .message | .sweep => false
  | _ => true

theorem step_idle {clk : LocalClock} {s s' : State} {e : Event} (h : step clk s e = some s')
    (he : e.idle = true) : s'.server = s.server := by
  cases e with
  | message | sweep => exact absurd he Bool.false_ne_true
  | time now =>
      rw [step, Option.some.injEq] at h
      rw [← h]
  | datagram | recvError | pingWake =>
      simp only [step] at h
      split at h
      · rw [Option.some.injEq] at h
        rw [← h]
      · exact absurd h (by simp only [reduceCtorEq, not_false_eq_true])

theorem activity_sweep (s : State) : activity s .sweep = none := rfl

theorem activity_of_accepts {s : State} {p : Slot × SockAddr × Bytes} (h : s.accepts = some p) :
    activity s .message = some (p.1, s.clock) := by
  rcases State.accepts_eq_some.mp h with ⟨hmessage, _⟩
  simp only [activity, hmessage, h, Option.map_some]

/-- A step of the receiving thread, slot by slot. -/
theorem slotStep_message {clk : LocalClock} {s s' : State} (i : Slot)
    (h : messageStep clk s.clock s.server s.message = some (s'.server, s'.message)) :
    SlotStep s .message s' i := by
  have hturn := messageStep_cases h
  generalize hpc : s.message = pc at hturn
  generalize hserver : s'.server = server at hturn
  generalize s'.message = pc' at hturn
  -- Where the slots stay as they are, there is no activity either.
  have hquiet : server.clients i = s.server.clients i → activity s .message = none →
      SlotStep s .message s' i := by
    intro hclient hactivity
    refine .other (by rw [hserver, hclient]) fun now hnow => ?_
    rw [hactivity] at hnow
    exact absurd hnow (by simp only [reduceCtorEq, not_false_eq_true])
  cases hturn with
  | nameUsed src name j hfind =>
      refine hquiet rfl ?_
      simp only [activity, State.accepts, hpc, hfind, Option.map_none]
  | full src name hfind hfree =>
      refine hquiet rfl ?_
      simp only [activity, State.accepts, hpc, hfind, hfree, Option.map_none]
  | registered src name j hfind hfree =>
      have hactivity := activity_of_accepts (State.accepts_eq_some.mpr ⟨hpc, hfind, hfree⟩)
      by_cases hij : i = j
      · subst hij
        refine .active hactivity ?_ fun _ => ?_
        · simp only [hserver, Server.insertClient, Function.update_self]
        · simp only [hserver, Server.insertClient, Function.update_self]
      · refine .other (by rw [hserver]; exact Function.update_of_ne hij ..) fun now hnow => ?_
        rw [hactivity, Option.some.injEq, Prod.mk.injEq] at hnow
        exact hij hnow.1.symm
  | touch src id buffer =>
      have hactivity : activity s .message = some (id, s.clock) := by
        simp only [activity, hpc]
      by_cases hij : i = id
      · subst hij
        refine .active hactivity ?_ fun hactive => ?_
        · simp only [hserver, Server.clients_touch, if_true]
        · simpa only [hserver, Server.clients_touch] using hactive
      · refine .other ?_ fun now hnow => ?_
        · simp only [hserver, Server.clients_touch, if_neg hij]
        · rw [hactivity, Option.some.injEq, Prod.mk.injEq] at hnow
          exact hij hnow.1.symm
  | remove src id =>
      by_cases hactive : (s.server.clients id).active = true
      · by_cases hij : i = id
        · subst hij
          refine .removed src rfl hpc ?_ ?_
          · simp only [hserver, Server.removeClient, if_pos hactive, Function.update_self]
          · simp only [hserver, Server.removeClient, if_pos hactive, Function.update_self]
        · refine hquiet ?_ (by simp only [activity, hpc])
          simp only [Server.removeClient, if_pos hactive, Function.update_of_ne hij]
      · refine hquiet ?_ (by simp only [activity, hpc])
        simp only [Server.removeClient, if_neg hactive]
  | broadcast id response =>
      refine hquiet ?_ (by simp only [activity, hpc])
      rw [Server.broadcastMessage_eq]
  | sendTo src targetId targetName response =>
      refine hquiet ?_ (by simp only [activity, hpc])
      unfold Server.sendToClient
      by_cases hactive : (s.server.clients targetId).active = true
      · rw [if_pos hactive]
        rfl
      · rw [if_neg hactive]
  | registration | unknown | known | listing | formatAll | found | notFound | formatOne | farewell
  | reply => exact hquiet rfl (by simp only [activity, hpc])

theorem slotStep {clk : LocalClock} {s s' : State} {e : Event} (i : Slot)
    (h : step clk s e = some s') : SlotStep s e s' i := by
  cases e with
  | message =>
      simp only [step] at h
      split at h
      · rename_i server pc hmessage
        rw [Option.some.injEq] at h
        subst h
        exact slotStep_message i hmessage
      · exact absurd h (by simp only [reduceCtorEq, not_false_eq_true])
  | sweep =>
      simp only [step] at h
      split at h
      · exact absurd h (by simp only [reduceCtorEq, not_false_eq_true])
      · rename_i now hping
        rw [Option.some.injEq] at h
        subst h
        refine .swept now rfl hping ?_
        simp only [Server.clients_pingSweep]
  | time | datagram | recvError | pingWake =>
      refine .other ?_ fun now hnow => absurd hnow (by simp only [activity, reduceCtorEq,
        not_false_eq_true])
      rw [step_idle h rfl]

/-- The clock and the sample of the ping thread. -/
theorem clock_step {clk : LocalClock} {s s' : State} {e : Event} (hC : Forward s e)
    (hsample : ∀ now, s.ping = .sweeping now → now ≤ s.clock) (h : step clk s e = some s') :
    s.clock ≤ s'.clock ∧ ∀ now, s'.ping = .sweeping now → now ≤ s'.clock := by
  cases e with
  | time now =>
      rw [step, Option.some.injEq] at h
      rw [← h]
      exact ⟨hC, fun sample hping => le_trans (hsample sample hping) hC⟩
  | pingWake =>
      simp only [step] at h
      split at h
      · rw [Option.some.injEq] at h
        rw [← h]
        refine ⟨le_refl _, fun now hping => ?_⟩
        rw [PingPc.sweeping.injEq] at hping
        rw [hping]
      · exact absurd h (by simp only [reduceCtorEq, not_false_eq_true])
  | sweep =>
      simp only [step] at h
      split at h
      · exact absurd h (by simp only [reduceCtorEq, not_false_eq_true])
      · rw [Option.some.injEq] at h
        rw [← h]
        exact ⟨le_refl _, fun now hping => absurd hping (by simp only [reduceCtorEq,
          not_false_eq_true])⟩
  | datagram | recvError | message =>
      simp only [step] at h
      split at h
      · rw [Option.some.injEq] at h
        rw [← h]
        exact ⟨le_refl _, hsample⟩
      · exact absurd h (by simp only [reduceCtorEq, not_false_eq_true])

theorem activity_clock {s : State} {e : Event} {p : Slot × Nat} (h : activity s e = some p) :
    p.2 = s.clock := by
  cases e with
  | message =>
      simp only [activity] at h
      split at h
      · rw [Option.map_eq_some_iff] at h
        rcases h with ⟨q, _, rfl⟩
        rfl
      · rw [Option.some.injEq] at h
        rw [← h]
      · exact absurd h (by simp only [reduceCtorEq, not_false_eq_true])
  | time | datagram | recvError | pingWake | sweep =>
      exact absurd h (by simp only [activity, reduceCtorEq, not_false_eq_true])

/-- What the table knows of the activities of a run. -/
structure Heard (s : State) (acts : List (Slot × Nat)) : Prop where
  time : ∀ i, (s.server.clients i).active = true →
    activityTime acts i = some (s.server.clients i).lastPing
  latest : ∀ p ∈ acts, p.2 ≤ (s.server.clients p.1).lastPing
  past : ∀ p ∈ acts, p.2 ≤ s.clock
  sample : ∀ now, s.ping = .sweeping now → now ≤ s.clock

theorem heard_init : Heard init [] where
  time := fun _ h => absurd h Bool.false_ne_true
  latest := fun _ h => absurd h List.not_mem_nil
  past := fun _ h => absurd h List.not_mem_nil
  sample := fun _ h => absurd h (by simp only [init, reduceCtorEq, not_false_eq_true])

/-- An activity of another slot, or none, is not seen. -/
theorem activityTime_other {s : State} {e : Event} {i : Slot} (acts : List (Slot × Nat))
    (h : ∀ now, activity s e ≠ some (i, now)) :
    activityTime (acts ++ (activity s e).toList) i = activityTime acts i := by
  cases hactivity : activity s e with
  | none => rw [Option.toList_none, List.append_nil]
  | some p =>
      rcases p with ⟨j, now⟩
      have hj : j ≠ i := by
        rintro rfl
        exact h now hactivity
      rw [Option.toList_some, activityTime_append, if_neg hj]

theorem heard_step {clk : LocalClock} {s s' : State} {e : Event} {acts : List (Slot × Nat)}
    (h : Heard s acts) (hC : Forward s e) (hstep : step clk s e = some s') :
    Heard s' (acts ++ (activity s e).toList) := by
  rcases clock_step hC h.sample hstep with ⟨hclock, hsample⟩
  refine ⟨fun i hactive => ?_, fun p hp => ?_, fun p hp => ?_, hsample⟩
  · cases slotStep i hstep with
    | other hclient hactivity =>
        rw [hclient] at hactive ⊢
        rw [activityTime_other acts hactivity]
        exact h.time i hactive
    | active hactivity hping =>
        rw [hactivity, Option.toList_some, activityTime_append, if_pos rfl, hping]
    | removed src hevent hmessage hping hremoved =>
        rw [hremoved] at hactive
        exact absurd hactive Bool.false_ne_true
    | swept now hevent hping hclient =>
        rw [hclient, Server.swept_active] at hactive
        rw [hclient, Server.swept_lastPing, hevent, activity_sweep, Option.toList_none,
          List.append_nil]
        exact h.time i hactive.1
  · -- A slot's own activity is the latest there can be; the others are older.
    have hold : ∀ q ∈ acts, q.2 ≤ (s'.server.clients q.1).lastPing := by
      intro q hq
      cases slotStep q.1 hstep with
      | other hclient => rw [hclient]; exact h.latest q hq
      | active hactivity hping => rw [hping]; exact h.past q hq
      | removed src hevent hmessage hping => rw [hping]; exact h.latest q hq
      | swept now hevent hping hclient =>
          rw [hclient, Server.swept_lastPing]
          exact h.latest q hq
    rcases List.mem_append.mp hp with hmem | hmem
    · exact hold p hmem
    · rw [Option.mem_toList] at hmem
      have hnow := activity_clock hmem
      cases slotStep p.1 hstep with
      | active hactivity hping => rw [hping, hnow]
      | other hclient hactivity => exact absurd hmem (hactivity p.2)
      | removed src hevent hmessage =>
          rw [hevent, activity, hmessage] at hmem
          exact absurd hmem (by simp only [reduceCtorEq, not_false_eq_true])
      | swept now hevent =>
          rw [hevent, activity_sweep] at hmem
          exact absurd hmem (by simp only [reduceCtorEq, not_false_eq_true])
  · rcases List.mem_append.mp hp with hmem | hmem
    · exact le_trans (h.past p hmem) hclock
    · rw [Option.mem_toList] at hmem
      rwa [activity_clock hmem]

theorem heard_run {clk : LocalClock} {es : List Event} {s : State}
    (hC : Meets (step clk) Forward init es) (hrun : exec (step clk) init es = some s) :
    Heard s (record (step clk) activity init es) := by
  have h := exec_record_of_meets (o := activity) (I := Heard)
    (fun _ _ _ _ => heard_step) heard_init hC hrun
  rwa [List.nil_append] at h

/-- The datagram that the receiving thread is handling was resolved to the slot
    that it works on, and is a `QUIT` if the slot is to be removed. -/
def Pc.ResolvedBy (found : List (SockAddr × Bytes × Slot)) : Pc → Prop
  | .touch src id buffer => found.getLast? = some (src, buffer, id)
  | .farewell src id | .remove src id => ∃ buffer, found.getLast? = some (src, buffer, id) ∧
      strncmpEq buffer (text "QUIT") = true
  | _ => True

/-- Only the receiving thread looks anybody up. -/
theorem resolution_of_ne (s : State) {e : Event} (he : e ≠ .message) : resolution s e = none := by
  cases e with
  | message => exact absurd rfl he
  | _ => rfl

theorem resolvedBy_step {clk : LocalClock} {s s' : State} {e : Event}
    {found : List (SockAddr × Bytes × Slot)} (h : s.message.ResolvedBy found)
    (hstep : step clk s e = some s') :
    s'.message.ResolvedBy (found ++ (resolution s e).toList) := by
  rcases step_cases hstep with ⟨he, _, hsame | ⟨src, buffer, hlookup, _⟩⟩ | ⟨he, hmessage⟩ |
    ⟨he, _, _, hsame⟩
  · rw [resolution_of_ne s he, Option.toList_none, List.append_nil, hsame]
    exact h
  · rw [hlookup]
    trivial
  -- By the turn: `QUIT` is known only after the address has been resolved.
  · subst he
    have hturn := messageStep_cases hmessage
    generalize hpc : s.message = pc at hturn h
    generalize s'.server = server at hturn
    generalize s'.message = pc' at hturn
    cases hturn with
    -- The lookup is recorded at this step, so it is the last one.
    | known src buffer id hregister hfind =>
        have hfound : resolution s .message = some (src, buffer, id) := by
          simp only [resolution, hpc, if_neg hregister, hfind, Option.map_some]
        rw [hfound, Option.toList_some]
        exact List.getLast?_concat
    | touch src id buffer =>
        have hnone : resolution s .message = none := by
          simp only [resolution, hpc]
        rw [hnone, Option.toList_none, List.append_nil]
        -- The slot to remove comes from this buffer.
        cases hparse : parse buffer with
        | quit => exact ⟨buffer, h, parse_eq_quit.mp hparse⟩
        | list | toAll | toOne | ping | ignored => trivial
    | farewell src id =>
        have hnone : resolution s .message = none := by
          simp only [resolution, hpc]
        rw [hnone, Option.toList_none, List.append_nil]
        exact h
    | registration | unknown | nameUsed | full | registered | listing | formatAll | broadcast
    | found | notFound | formatOne | sendTo | remove | reply => trivial
  · rw [resolution_of_ne s he, Option.toList_none, List.append_nil, hsame]
    exact h

theorem resolvedBy_run {clk : LocalClock} {es : List Event} {s : State}
    (hrun : exec (step clk) init es = some s) :
    s.message.ResolvedBy (record (step clk) resolution init es) := by
  have h := exec_record_of_meets (o := resolution) (C := fun _ _ => True)
    (I := fun (s : State) found => s.message.ResolvedBy found) (s := init) (l := [])
    (fun _ _ _ _ h _ => resolvedBy_step h) trivial (meets_of_forall (fun _ _ => trivial) init es)
    hrun
  rwa [List.nil_append] at h

/-- The next step carries out a `QUIT` that was resolved to the slot. -/
def QuitsSlot (found : List (SockAddr × Bytes × Slot)) (s : State) (e : Event) (i : Slot) :
    Prop :=
  e = .message ∧ ∃ src buffer, s.message = .remove src i ∧
    found.getLast? = some (src, buffer, i) ∧ strncmpEq buffer (text "QUIT") = true

/-- The keep-alive in the state `s` that a run leads to, with the activities of
    the run and the senders that were resolved. -/
structure KeepAlive (clk : LocalClock) (s : State) (acts : List (Slot × Nat))
    (found : List (SockAddr × Bytes × Slot)) : Prop where
  /-- The sweep deactivates the slots that were silent for too long, -/
  exact : ∀ now, s.ping = .sweeping now → ∀ i, (s.server.clients i).active = true →
    ∃ a, activityTime acts i = some a ∧
      (((s.server.pingSweep now).clients i).active = false ↔ a + timeoutSeconds < now)
  /-- and sends one probe to each of the others. -/
  probes : ∀ now, s.ping = .sweeping now →
    ∃ others : List Slot, others.Nodup ∧
      (∀ i, i ∈ others ↔ (s.server.clients i).active = true ∧
        ∃ a, activityTime acts i = some a ∧ ¬ a + timeoutSeconds < now) ∧
      (s.server.pingSweep now).log
        = (others.map fun i => .sent .alive (s.server.clients i).addr (text "ALIVE")).reverse
          ++ s.server.log
  /-- Who is left was active a short time ago. -/
  recent : ∀ now, s.ping = .sweeping now → ∀ i,
    ((s.server.pingSweep now).clients i).active = true →
      ∃ a, activityTime acts i = some a ∧ now ≤ a + timeoutSeconds
  /-- A step that is no activity of the slot leaves its `last_ping` alone. -/
  others : ∀ e s' i, step clk s e = some s' → (∀ now, activity s e ≠ some (i, now)) →
    (s'.server.clients i).lastPing = (s.server.clients i).lastPing
  /-- A slot is deactivated by a `QUIT` resolved to it, or for its silence. -/
  leaves : ∀ e s' i, step clk s e = some s' → (s.server.clients i).active = true →
    (s'.server.clients i).active = false → QuitsSlot found s e i ∨
      ∃ now, e = .sweep ∧ s.ping = .sweeping now ∧
        ∀ a, (i, a) ∈ acts → a + timeoutSeconds < now

theorem late_iff {now : Nat} {c : Client} :
    c.late now = true ↔ c.lastPing + timeoutSeconds < now := by
  rw [Client.late, decide_eq_true_eq]

theorem keepAlive_of_heard {clk : LocalClock} {s : State} {acts : List (Slot × Nat)}
    {found : List (SockAddr × Bytes × Slot)} (h : Heard s acts)
    (hfound : s.message.ResolvedBy found) : KeepAlive clk s acts found where
  exact := by
    intro now hping i hactive
    refine ⟨_, h.time i hactive, ?_⟩
    rw [Server.clients_pingSweep, ← Bool.not_eq_true, Server.swept_active, not_and, not_not,
      late_iff]
    exact ⟨fun hlate => hlate hactive, fun hlate _ => hlate⟩
  probes := by
    intro now hping
    -- Each kept slot is probed once, as the loop visits every slot once.
    refine ⟨s.server.kept now, (List.nodup_finRange maxClients).filter _, fun i => ?_,
      Server.log_pingSweep now s.server⟩
    rw [Server.mem_kept, late_iff]
    constructor
    · rintro ⟨hactive, hlate⟩
      exact ⟨hactive, _, h.time i hactive, hlate⟩
    · rintro ⟨hactive, a, ha, hlate⟩
      rw [h.time i hactive, Option.some.injEq] at ha
      rw [ha]
      exact ⟨hactive, hlate⟩
  recent := by
    intro now hping i hkept
    rw [Server.clients_pingSweep, Server.swept_active, late_iff] at hkept
    exact ⟨_, h.time i hkept.1, Nat.not_lt.mp hkept.2⟩
  others := by
    intro e s' i hstep hother
    cases slotStep i hstep with
    | other hclient => rw [hclient]
    | active hactivity => exact absurd hactivity (hother _)
    | removed src hevent hmessage hping => exact hping
    | swept now hevent hping hclient => rw [hclient, Server.swept_lastPing]
  leaves := by
    -- Either its own step left it, or a sweep did.
    intro e s' i hstep hactive hinactive
    cases slotStep i hstep with
    | other hclient =>
        rw [hclient, hactive] at hinactive
        exact absurd hinactive.symm Bool.false_ne_true
    | active hactivity hping hstays =>
        rw [hstays hactive] at hinactive
        exact absurd hinactive.symm Bool.false_ne_true
    | removed src hevent hmessage =>
        rw [hmessage] at hfound
        rcases hfound with ⟨buffer, hlast, hquit⟩
        exact Or.inl ⟨hevent, src, buffer, hmessage, hlast, hquit⟩
    -- Swept: its last activity is too old, and with it all earlier ones.
    | swept now hevent hping hclient =>
        rw [hclient, ← Bool.not_eq_true, Server.swept_active, not_and, not_not, late_iff]
          at hinactive
        have hlate := hinactive hactive
        refine Or.inr ⟨now, hevent, hping, fun a ha => ?_⟩
        have hold : a ≤ (s.server.clients i).lastPing := h.latest _ ha
        omega

/-- From its first activity on, the slot has one in every window of
    `TIMEOUT_SECONDS`. -/
def Lively (acts : List (Slot × Nat)) (clock : Nat) (i : Slot) : Prop :=
  ∀ start, (∃ a, (i, a) ∈ acts ∧ a ≤ start) → start + timeoutSeconds ≤ clock →
    ∃ a, (i, a) ∈ acts ∧ start ≤ a ∧ a < start + timeoutSeconds

/-- What comes later in a run is active later. -/
theorem record_activity_clock {clk : LocalClock} {s t : State} {es : List Event}
    (hsample : ∀ now, s.ping = .sweeping now → now ≤ s.clock)
    (hC : Meets (step clk) Forward s es) (hrun : exec (step clk) s es = some t) :
    s.clock ≤ t.clock ∧ ∀ p ∈ record (step clk) activity s es, s.clock ≤ p.2 := by
  have h := exec_record_of_meets (o := activity) (l := [])
    (I := fun (t : State) acts => (∀ now, t.ping = .sweeping now → now ≤ t.clock) ∧
      s.clock ≤ t.clock ∧ ∀ p ∈ acts, s.clock ≤ p.2)
    (fun t e t' acts ht hCe hstep => by
      rcases clock_step hCe ht.1 hstep with ⟨hclock, hsample'⟩
      refine ⟨hsample', le_trans ht.2.1 hclock, fun p hp => ?_⟩
      rcases List.mem_append.mp hp with hmem | hmem
      · exact ht.2.2 p hmem
      · rw [activity_clock (Option.mem_toList.mp hmem)]
        exact ht.2.1)
    ⟨hsample, le_refl _, fun p hp => absurd hp List.not_mem_nil⟩ hC hrun
  exact h.2

/-- Along every run with a clock that does not go back, a sweep disconnects
    the clients that were silent for more than `TIMEOUT_SECONDS`, and probes
    the others; and a client that is heard of in every window of that length
    is disconnected by its own `QUIT` only. -/
theorem keep_alive_exact (clk : LocalClock) (es : List Event) (s : State)
    (hC : Meets (step clk) Forward init es) (hrun : exec (step clk) init es = some s) :
    KeepAlive clk s (record (step clk) activity init es) (record (step clk) resolution init es) ∧
      ∀ i, Lively (record (step clk) activity init es) s.clock i →
        ∀ pre e post t t', es = pre ++ e :: post → exec (step clk) init pre = some t →
          step clk t e = some t' → (t.server.clients i).active = true →
            (t'.server.clients i).active = false →
              QuitsSlot (record (step clk) resolution init pre) t e i := by
  refine ⟨keepAlive_of_heard (heard_run hC hrun) (resolvedBy_run hrun), ?_⟩
  intro i hlively pre e post t t' hes hpre hstep hactive hinactive
  -- Cut the run where the client leaves; up to there `KeepAlive` holds as well.
  subst hes
  rcases exec_append.mp hrun with ⟨t₁, hpre₁, hpost⟩
  rw [hpre, Option.some.injEq] at hpre₁
  subst hpre₁
  rcases (meets_append hpre).mp hC with ⟨hCpre, hCpost⟩
  have hheard := heard_run hCpre hpre
  have hkeep : KeepAlive clk t _ _ := keepAlive_of_heard hheard (resolvedBy_run hpre)
  -- It quits, or it was swept, which the windows exclude.
  rcases hkeep.leaves e t' i hstep hactive hinactive with hquit | ⟨now, _, hping, hsilent⟩
  · exact hquit
  · exfalso
    -- The window that ends with the sample has no activity, early or late.
    rcases record_activity_clock hheard.sample hCpost hpost with ⟨hclock, hlater⟩
    have hnow := hheard.sample now hping
    have hlast := activityTime_mem (hheard.time i hactive)
    have hlate := hsilent _ hlast
    rw [record_append _ hpre] at hlively
    have hwindow := hlively (now - timeoutSeconds)
      ⟨_, List.mem_append_left _ hlast, by omega⟩ (by omega)
    rcases hwindow with ⟨a, ha, hstart, hend⟩
    rcases List.mem_append.mp ha with hearly | hlate'
    · have := hsilent a hearly
      omega
    · have : t.clock ≤ a := hlater _ hlate'
      omega

/-- Two clients register and one falls silent. The other is heard of while the
    sweep already waits for the lock with an older time. -/
def silentRun : List Event :=
  [.datagram ⟨1, 1⟩ (text "REGISTER ala"), .message, .message, .message,
    .datagram ⟨2, 2⟩ (text "REGISTER ola"), .message, .message, .message, .time 50,
    .datagram ⟨1, 1⟩ (text "PING"), .message, .message, .message, .time 70, .pingWake, .time 80,
    .datagram ⟨1, 1⟩ (text "PING"), .message, .message, .sweep, .message]

/-- The sweep has disconnected the silent client only. -/
theorem keep_alive_after_silence :
    ∃ s, exec (step stoppedClock) init silentRun = some s ∧
      s.server.findClientByAddr ⟨2, 2⟩ = none ∧ s.server.clientCount = 1 ∧
        KeepAlive stoppedClock s (record (step stoppedClock) activity init silentRun)
          (record (step stoppedClock) resolution init silentRun) := by
  have hend : (exec (step stoppedClock) init silentRun).any (fun s =>
      decide (s.server.findClientByAddr ⟨2, 2⟩ = none) && decide (s.server.clientCount = 1))
        = true := by
    decide +kernel
  rcases exists_of_exec_any hend with ⟨s, hrun, hs⟩
  rw [Bool.and_eq_true, decide_eq_true_eq, decide_eq_true_eq] at hs
  have hforward : Meets (step stoppedClock) Forward init silentRun := by decide +kernel
  exact ⟨s, hrun, hs.1, hs.2, (keep_alive_exact stoppedClock silentRun s hforward hrun).1⟩

end Udp

end OsLabs
