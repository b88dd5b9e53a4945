import OsLabs.Tcp.Table

/-!
# Private Messages

A private message is delivered in two steps. The handler looks the name up
without the lock and keeps the slot index; then it formats the text and sends
it to that slot, where `send_to_client` only looks whether the slot is
active. Between the two a sweep or another handler can empty the slot and the
accept loop can fill it again, under another name.

Filling is the only way to go wrong. An emptied slot receives nothing, so the
text stays private as long as the accept loop does not put a different name
into a slot that some handler has looked up and not yet sent to. `NoRename`
says this of one step. A session that takes the slot under the looked-up name
itself is allowed, being a client registered under that name.

## Main definitions

* `State.targeting`: The name that a handler has looked up for a slot.
* `NoRename`: The condition on a step.
* `PrivateToNamed`: A private text goes to the client of that name.
* `TargetOk`, `Addressed`: The invariant.

## Theorems

* `targetOk_evictions`: Evictions do not redirect a message.
* `addressed_step`: A step that renames no target keeps the invariant.
* `private_to_named`: Private texts go to the named client in every run that
  renames no target.
* `renamed_target_receives`: A run in which another client receives one.
-/

namespace OsLabs

namespace Tcp

open Machine

/-- The name under which the handler of session `t` has found slot `i`, from
    the lookup until the send. -/
def State.targeting (s : State) (t : Conn) (i : Slot) : Option Bytes :=
  match s.threads t with
  | some ⟨_, .formatOne i' n _⟩ => if i' = i then some n else none
  | some ⟨_, .sendTo i' n _⟩ => if i' = i then some n else none
  | _ => none

/-- The step does not put a new name into a slot that a handler has looked up
    under another one. -/
def NoRename (s : State) : Event → Prop
  | .main => ∀ p ∈ s.fills, ∀ t < s.accepted, ∀ n ∈ s.targeting t p.1, n = p.2
  | _ => True

instance (s : State) (e : Event) : Decidable (NoRename s e) := by
  unfold NoRename
  split <;> infer_instance

/-- When a handler that has looked up `n` is at the locked send of its private
    text, and the send goes out on descriptor `d`, then exactly one active
    slot has that descriptor, and its name is `n`. -/
def PrivateToNamed (s : State) : Prop :=
  ∀ t id i n response d message, s.threads t = some ⟨id, .sendTo i n response⟩ →
    (s.server.sendToClient response i).sent = s.server.sent ++ [(d, message)] →
    ∃ j, (s.server.clients j).active = true ∧ (s.server.clients j).socket = d ∧
      (s.server.clients j).name.str = n ∧
      ∀ k, (s.server.clients k).active = true → (s.server.clients k).socket = d → k = j

/-- The slot a thread will send a private text to is empty or has the name. -/
structure TargetOk (slots : Slot → Option Entry) (pc : Pc) : Prop where
  formatting : ∀ i n m, pc = .formatOne i n m → ∀ e, slots i = some e → e.name = n
  sending : ∀ i n r, pc = .sendTo i n r → ∀ e, slots i = some e → e.name = n

/-- The invariant: the table is sound and no thread has a wrong target. -/
structure Addressed (s : State) : Prop where
  inv : Inv s
  known : Known s
  targets : ∀ t id pc, s.threads t = some ⟨id, pc⟩ → TargetOk s.server.registry.slots pc

theorem addressed_init : Addressed init where
  inv := inv_init
  known := known_init
  targets := fun t id pc h => absurd h (by simp only [init, reduceCtorEq, not_false_eq_true])

theorem targetOk_mono {slots slots' : Slot → Option Entry} {pc : Pc}
    (hsub : ∀ i e, slots' i = some e → slots i = some e) (h : TargetOk slots pc) :
    TargetOk slots' pc where
  formatting := fun i n m hpc e he => h.formatting i n m hpc e (hsub i e he)
  sending := fun i n r hpc e he => h.sending i n r hpc e (hsub i e he)

/-- A slot emptied under a message makes it undeliverable, not misdirected. -/
theorem targetOk_evictions {r : Registry} {pc : Pc} (is : List Slot) (h : TargetOk r.slots pc) :
    TargetOk (is.foldl Registry.evict r).slots pc :=
  targetOk_mono (fun _ _ hi => Registry.slots_evictions hi) h

theorem targeting_of_formatting {s : State} {t : Conn} {id i : Slot} {n m : Bytes}
    (h : s.threads t = some ⟨id, .formatOne i n m⟩) : n ∈ s.targeting t i := by
  unfold State.targeting
  simp only [h, if_true, Option.mem_some]

theorem targeting_of_sending {s : State} {t : Conn} {id i : Slot} {n r : Bytes}
    (h : s.threads t = some ⟨id, .sendTo i n r⟩) : n ∈ s.targeting t i := by
  unfold State.targeting
  simp only [h, if_true, Option.mem_some]

/-- A session that enters a slot has the name that threads have looked up for
    that slot. -/
theorem targetOk_enter {s : State} {t : Conn} {id : Slot} {pc : Pc} {i : Slot} {e : Entry}
    (hthread : s.threads t = some ⟨id, pc⟩) (hname : ∀ n ∈ s.targeting t i, n = e.name)
    (h : TargetOk s.server.registry.slots pc) :
    TargetOk (s.server.registry.enter i e).slots pc := by
  refine ⟨?_, ?_⟩
  · intro i' n m hpc e' he'
    subst hpc
    rcases put_eq_some.mp he' with ⟨hi, he⟩ | ⟨_, hold⟩
    · subst hi
      rw [he]
      exact (hname n (targeting_of_formatting hthread)).symm
    · exact h.formatting i' n m rfl e' hold
  · intro i' n r hpc e' he'
    subst hpc
    rcases put_eq_some.mp he' with ⟨hi, he⟩ | ⟨_, hold⟩
    · subst hi
      rw [he]
      exact (hname n (targeting_of_sending hthread)).symm
    · exact h.sending i' n r rfl e' hold

/-- Steps that move no thread: only an insertion concerns the targets. -/
theorem targets_others {s s' : State} {e : Event} (hC : NoRename s e) (hmove : Move s e s')
    (hthreads : s'.threads = s.threads) (h : Addressed s) :
    ∀ t id pc, s'.threads t = some ⟨id, pc⟩ → TargetOk s'.server.registry.slots pc := by
  rw [hthreads]
  cases hmove with
  | evictions is hmain haccepted hregistry =>
      rw [hregistry]
      exact fun t id pc ht => targetOk_evictions is (h.targets t id pc ht)
  | connect d hevent hmain hclosed hmain' haccepted hregistry =>
      rw [hregistry]
      exact h.targets
  | advance hheld hhanded haccepted hregistry hchecked =>
      rw [hregistry]
      exact h.targets
  | enter d c name i hevent hmain hfirst hfree hmain' haccepted hregistry =>
      subst hevent
      -- The name has been checked and fits, so it is stored as it is.
      have hchecked := h.inv.checked
      rw [hmain] at hchecked
      rcases hchecked with ⟨hnul, hlen, _⟩
      rw [hregistry hnul, List.take_of_length_le hlen]
      intro t id pc ht
      exact targetOk_enter ht (hC (i, name) (State.mem_fills hmain hfirst) t
        (h.known.threads t _ ht)) (h.targets t id pc ht)
  | close d c error hmain hmain' haccepted hregistry =>
      rw [hregistry, Registry.slots_close]
      exact h.targets

/-- A handler has a target only after finding the name there. -/
theorem targetOk_handlerStep {clk : LocalClock} {s : State} {t : Conn} {id : Slot}
    {pc pc' : Pc} {server : Server} (h : Addressed s) (hthread : s.threads t = some ⟨id, pc⟩)
    (hstep : handlerStep clk s.clock s.server id pc = some (server, pc')) :
    TargetOk s.server.registry.slots pc' := by
  rcases handlerStep_pc hstep with ⟨_, _, _, hfind, hformat⟩
  refine ⟨?_, ?_⟩
  · intro i n m hpc e he
    -- The lookup has just compared the name of this slot.
    have hfound := scan_some (hfind i n m hpc)
    rw [Bool.and_eq_true, beq_iff_eq] at hfound
    rcases Server.slots_eq_some.mp he with ⟨_, heq⟩
    rw [heq]
    exact hfound.2
  · intro i n r hpc e he
    rcases hformat i n r hpc with ⟨m, hpcformat⟩
    exact (h.targets t id pc hthread).formatting i n m hpcformat e he

/-- After a step of one handler all targets are right if its own is. -/
theorem targets_update {s : State} {t : Conn} {id : Slot} {pc : Pc} {r : Registry}
    (his : ∃ is : List Slot, r = is.foldl Registry.evict s.server.registry)
    (hpc : TargetOk s.server.registry.slots pc) (h : Addressed s) :
    ∀ t' id' pc', Function.update s.threads t (some ⟨id, pc⟩) t' = some ⟨id', pc'⟩ →
      TargetOk r.slots pc' := by
  rcases his with ⟨is, hr⟩
  rw [hr]
  intro t' id' pc' ht'
  refine targetOk_evictions is ?_
  rcases put_eq_some.mp ht' with ⟨_, hth⟩ | ⟨_, hold⟩
  · rw [Thread.mk.injEq] at hth
    rw [hth.2]
    exact hpc
  · exact h.targets t' id' pc' hold

theorem addressed_step {clk : LocalClock} {s s' : State} {e : Event} (h : Addressed s)
    (hC : NoRename s e) (hstep : step clk s e = some s') : Addressed s' := by
  refine ⟨inv_step h.inv hstep, known_step h.inv h.known hstep, ?_⟩
  cases step_turn hstep with
  | others hevent hthreads => exact targets_others hC (step_move hstep) hthreads h
  | spawn c i hevent hmain heq =>
      subst heq
      refine targets_update ⟨[], rfl⟩ ⟨?_, ?_⟩ h
      · intro i' n m hpc
        exact absurd hpc (by simp only [reduceCtorEq, not_false_eq_true])
      · intro i' n r hpc
        exact absurd hpc (by simp only [reduceCtorEq, not_false_eq_true])
  | recv c result id source pc hevent hthread hpc heq =>
      subst heq
      refine targets_update ⟨[], rfl⟩ ⟨?_, ?_⟩ h
      · intro i n m hpc'
        subst hpc'
        simp only [reduceCtorEq, false_and, and_false, exists_false, or_false] at hpc
      · intro i n r hpc'
        subst hpc'
        simp only [reduceCtorEq, false_and, and_false, exists_false, or_false] at hpc
  | handler c id pc server pc' hevent hthread hhandler heq =>
      subst heq
      refine targets_update ?_ (targetOk_handlerStep h hthread hhandler) h
      rcases handlerStep_registry hhandler with hsame | ⟨_, _, hevict⟩
      · exact ⟨[], hsame⟩
      · exact ⟨[id], hevict⟩

/-- A send that goes out at all goes to the slot it was addressed to. -/
theorem sendToClient_sent {s : Server} {response message : Bytes} {i : Slot} {d : Fd}
    (h : (s.sendToClient response i).sent = s.sent ++ [(d, message)]) :
    (s.clients i).active = true ∧ (s.clients i).socket = d := by
  unfold Server.sendToClient at h
  by_cases hactive : (s.clients i).active = true
  · rw [if_pos hactive] at h
    simp only [Server.send, List.append_cancel_left_eq, List.cons.injEq, Prod.mk.injEq,
      and_true] at h
    exact ⟨hactive, h.1⟩
  · rw [if_neg hactive] at h
    exact absurd h (by simp only [List.self_eq_append_right, reduceCtorEq, not_false_eq_true])

theorem privateToNamed_of_addressed {s : State} (h : Addressed s) : PrivateToNamed s := by
  intro t id i n response d message hthread hsent
  rcases sendToClient_sent hsent with ⟨hactive, hsocket⟩
  have hslot := Server.slots_of_active hactive
  have hname := (h.targets t id _ hthread).sending i n response rfl _ hslot
  refine ⟨i, hactive, hsocket, hname, ?_⟩
  intro k hk hsocketk
  -- One descriptor stands for one connection, which one slot holds.
  have hslotk := Server.slots_of_active hk
  have hopen := h.inv.sound.isOpen i _ hslot
  have hopenk := h.inv.sound.isOpen k _ hslotk
  simp only [hsocket] at hopen
  simp only [hsocketk, hopen, Option.some.injEq] at hopenk
  exact h.inv.sound.conns k i _ _ hslotk hslot hopenk.symm

/-- In every run that puts no other name into a slot between its lookup and
    the send, every private text goes to the client it was meant for. -/
theorem private_to_named (clk : LocalClock) (es : List Event)
    (hC : Meets (step clk) NoRename init es) : Always (step clk) PrivateToNamed init es :=
  always_of_meets (fun _ _ _ hs hCs hstep => addressed_step hs hCs hstep)
    (fun _ hs => privateToNamed_of_addressed hs) addressed_init hC

/-- "ala" looks up "ola"; before she sends, "ula" is swept and "ela" gets the
    slot. Then the text goes out. -/
def deliveredRun : List Event :=
  joining 4 (text "ula") ++ [.time 61] ++ joining 5 (text "ola") ++ joining 6 (text "ala") ++
    [.thread 2, .thread 2, .thread 2, .recv 2 (.data (text "2ONE ola tajne")), .thread 2,
      .thread 2, .pingWake, .sweep] ++
    joining 7 (text "ela") ++ [.thread 2, .thread 2]

/-- A slot that nobody has looked up may get another name between the lookup and
    the send. -/
theorem private_to_named_of_swept_slot :
    (exec (step stoppedClock) init deliveredRun).any (fun s =>
      decide (s.server.sent.getLast? = some (5, text "[00:00:00] ala (prywatnie): tajne\n") ∧
        (s.server.clients 0).name.str = text "ela" ∧
        (s.server.clients 1).name.str = text "ola")) = true ∧
      Always (step stoppedClock) PrivateToNamed init deliveredRun :=
  ⟨by decide +kernel, private_to_named stoppedClock deliveredRun (by decide +kernel)⟩

/-- "ala" looks up "ola"; before she sends, "ola" is swept and "ula" gets the
    slot. -/
def renamedRun : List Event :=
  joining 4 (text "ola") ++ [.time 61] ++ joining 5 (text "ala") ++
    [.thread 1, .thread 1, .thread 1, .recv 1 (.data (text "2ONE ola tajne")), .thread 1,
      .thread 1, .pingWake, .sweep] ++
    joining 6 (text "ula") ++ [.thread 1]

/-- The text for "ola" is about to be sent to "ula". -/
theorem renamed_target_receives :
    ¬ ∀ clk s, Reaches (step clk) init s → PrivateToNamed s := by
  intro hall
  have hend : (exec (step stoppedClock) init renamedRun).any (fun s =>
      decide ((s.threads 1).map Thread.pc = some (.sendTo 0 (text "ola")
          (oneText (text "00:00:00") (text "ala") (text "tajne"))) ∧
        (s.server.clients 0).active = true ∧
        (s.server.clients 0).name.str = text "ula")) = true := by
    decide +kernel
  rcases exists_of_exec_any hend with ⟨s, hrun, hs⟩
  rcases of_decide_eq_true hs with ⟨hpc, hactive, hname⟩
  rcases Option.map_eq_some_iff.mp hpc with ⟨⟨id, pc⟩, hthread, hpc'⟩
  simp only at hpc'
  subst hpc'
  have hsent : (s.server.sendToClient (oneText (text "00:00:00") (text "ala") (text "tajne"))
      0).sent = s.server.sent ++ [((s.server.clients 0).socket,
        oneText (text "00:00:00") (text "ala") (text "tajne"))] := by
    unfold Server.sendToClient
    rw [if_pos hactive]
    rfl
  rcases hall stoppedClock s ⟨renamedRun, hrun⟩ 1 id 0 _ _ _ _ hthread hsent with
    ⟨j, _, _, hnamej, huniq⟩
  -- The slot with that descriptor is slot 0, and its name is another.
  rw [← huniq 0 hactive rfl, hname] at hnamej
  exact absurd hnamej (by decide)

end Tcp

end OsLabs
