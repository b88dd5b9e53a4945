import OsLabs.Tcp.Table

/-!
# Session Ownership

A handler knows its session only as a slot index, and reads from it only
through a descriptor number that it copied out of the slot. Both are names
that the server hands out again: a sweep empties the slot while the handler
is inside `recv`, the accept loop fills it with the next session, and the
handler that comes back removes that one.

So the handlers do not own their sessions in every run. They do in every run
in which no name is given out again while the handler that had it before is
still running: the accept loop fills no slot of a live handler (`live`), and
`accept` returns no number that a handler has loaded, or is about to load
from its emptied slot (`loaded`). `NoReuse` says this of one step, looking
only at the state before it.

The invariant is about one thread at a time. What a thread may rely on,
`ThreadOk`, mentions the registry only through what its slot and its
descriptor number stand for, so it survives evictions and is threatened by
exactly the two kinds of reuse.

## Main definitions

* `State.live`: A handler of a slot that has not returned.
* `State.loaded`: A handler about to enter `recv` on a descriptor number.
* `NoReuse`: The condition on a step.
* `OwnSession`: Handlers receive from and remove their own sessions only.
* `ThreadOk`, `Owned`: The invariant.

## Theorems

* `threadOk_evictions`: Evictions do not disturb a thread.
* `owned_step`: A step that reuses nothing keeps the invariant.
* `own_session`: Handlers own their sessions in every run without reuse.
* `stale_handler_removes`: A run in which a handler removes another session.
-/

namespace OsLabs

namespace Tcp

open Machine

/-- The handler of session `t` was started for slot `i` and has not returned. -/
def State.live (s : State) (t : Conn) (i : Slot) : Bool :=
  match s.threads t with
  | some th => decide (th.clientId = i) && decide (th.pc ≠ .exited)
  | none => false

/-- The handler of session `t` is about to enter `recv` on the number `d`, or
    about to read that number from its slot. -/
def State.loaded (s : State) (t : Conn) (d : Fd) : Bool :=
  match s.threads t with
  | some ⟨_, .recv d'⟩ => d' == d
  | some ⟨id, .load⟩ => (s.server.clients id).socket == d
  | _ => false

/-- The step does not give out a slot or a descriptor number that a running
    handler still uses. -/
def NoReuse (s : State) : Event → Prop
  | .main => ∀ p ∈ s.fills, ∀ t < s.accepted, s.live t p.1 = false
  | .accept (some d) => ∀ t < s.accepted, s.loaded t d = false
  | _ => True

instance (s : State) (e : Event) : Decidable (NoReuse s e) := by
  unfold NoReuse
  split <;> infer_instance

/-- Every handler receives from the connection of its own session, and removes
    a session only when the slot still holds its own. -/
structure OwnSession (s : State) : Prop where
  receives : ∀ t id c, s.threads t = some ⟨id, .blocked (some c)⟩ → c = t
  removes : ∀ t id, s.threads t = some ⟨id, .remove⟩ → (s.server.clients id).active = true →
    s.server.session id = t ∧ s.server.fds (s.server.clients id).socket = some t

/-- What the handler of session `t` for slot `id` relies on. -/
structure ThreadOk (r : Registry) (t : Conn) (id : Slot) (pc : Pc) : Prop where
  slot : pc ≠ .exited → ∀ e, r.slots id = some e → e.conn = t
  loading : pc = .load → ∀ c, r.fds (r.numbers id) = some c → c = t
  entering : ∀ d, pc = .recv d → ∀ c, r.fds d = some c → c = t
  inside : ∀ c, pc = .blocked (some c) → c = t

/-- A registry with fewer sessions and fewer open descriptors. -/
theorem threadOk_mono {r r' : Registry} {t : Conn} {id : Slot} {pc : Pc}
    (hslots : ∀ i e, r'.slots i = some e → r.slots i = some e)
    (hnumbers : r'.numbers = r.numbers)
    (hfds : ∀ d c, r'.fds d = some c → r.fds d = some c) (h : ThreadOk r t id pc) :
    ThreadOk r' t id pc where
  slot := fun hpc e he => h.slot hpc e (hslots id e he)
  loading := fun hpc c hc => h.loading hpc c (by
    rw [hnumbers] at hc
    exact hfds _ c hc)
  entering := fun d hpc c hc => h.entering d hpc c (hfds d c hc)
  inside := h.inside

theorem threadOk_evictions {r : Registry} {t : Conn} {id : Slot} {pc : Pc} (is : List Slot)
    (h : ThreadOk r t id pc) : ThreadOk (is.foldl Registry.evict r) t id pc :=
  threadOk_mono (fun _ _ hi => Registry.slots_evictions hi) (Registry.numbers_evictions r is)
    (fun _ _ hfd => Registry.fds_evictions hfd) h

/-- The invariant: the table is sound, every thread belongs to a session and
    has what it relies on, and so will the thread about to be started. -/
structure Owned (s : State) : Prop where
  inv : Inv s
  known : Known s
  threads : ∀ t id pc, s.threads t = some ⟨id, pc⟩ → ThreadOk s.server.registry t id pc
  handed : ∀ c i, s.main.handed = some (c, i) →
    ∀ e, s.server.registry.slots i = some e → e.conn = c

theorem owned_init : Owned init where
  inv := inv_init
  known := known_init
  threads := fun t id pc h => absurd h (by simp only [init, reduceCtorEq, not_false_eq_true])
  handed := fun c i h => absurd h (by
    simp only [init, MainPc.handed, reduceCtorEq, not_false_eq_true])

theorem live_of_thread {s : State} {t : Conn} {i : Slot} {pc : Pc}
    (h : s.threads t = some ⟨i, pc⟩) (hpc : pc ≠ .exited) : s.live t i = true := by
  unfold State.live
  simp only [h, hpc, ne_eq, not_false_eq_true, decide_true, Bool.and_self]

/-- A new connection disturbs only the threads that have its number. -/
theorem threadOk_connect {s : State} {t : Conn} {id : Slot} {pc : Pc} {d : Fd} {c : Conn}
    (hthread : s.threads t = some ⟨id, pc⟩) (hloaded : s.loaded t d = false)
    (h : ThreadOk s.server.registry t id pc) :
    ThreadOk (s.server.registry.connect d c) t id pc where
  slot := h.slot
  inside := h.inside
  loading := by
    rintro rfl c' hc'
    unfold State.loaded at hloaded
    simp only [hthread, beq_eq_false_iff_ne] at hloaded
    rcases put_eq_some.mp hc' with ⟨hd, _⟩ | ⟨_, hc⟩
    · exact absurd hd hloaded
    · exact h.loading rfl c' hc
  entering := by
    rintro d' rfl c' hc'
    unfold State.loaded at hloaded
    simp only [hthread, beq_eq_false_iff_ne] at hloaded
    rcases put_eq_some.mp hc' with ⟨hd, _⟩ | ⟨_, hc⟩
    · exact absurd hd hloaded
    · exact h.entering d' rfl c' hc

/-- A new session disturbs only the threads of its slot. -/
theorem threadOk_enter {s : State} {t : Conn} {id : Slot} {pc : Pc} {i : Slot} {e : Entry}
    (hthread : s.threads t = some ⟨id, pc⟩) (hlive : s.live t i = false)
    (h : ThreadOk s.server.registry t id pc) :
    ThreadOk (s.server.registry.enter i e) t id pc := by
  have hid : pc ≠ .exited → id ≠ i := by
    rintro hpc rfl
    rw [live_of_thread hthread hpc] at hlive
    exact absurd hlive (by simp only [Bool.true_eq_false, not_false_eq_true])
  refine ⟨?_, ?_, h.entering, h.inside⟩
  · intro hpc e' he'
    rcases put_eq_some.mp he' with ⟨hi, _⟩ | ⟨_, he⟩
    · exact absurd hi (hid hpc)
    · exact h.slot hpc e' he
  · rintro rfl c hc
    have hne : id ≠ i := hid (by simp only [ne_eq, reduceCtorEq, not_false_eq_true])
    simp only [Registry.enter, Function.update_of_ne hne] at hc
    exact h.loading rfl c hc

/-- Steps that move no thread: the accept loop and the sweeps. -/
theorem owned_others {s s' : State} {e : Event} (hC : NoReuse s e) (hmove : Move s e s')
    (hthreads : s'.threads = s.threads) (hknown : Known s') (h : Owned s) : Owned s' := by
  have hinv := inv_move hmove h.inv
  cases hmove with
  | evictions is hmain haccepted hregistry =>
      refine ⟨hinv, hknown, ?_, ?_⟩
      · rw [hthreads, hregistry]
        exact fun t id pc ht => threadOk_evictions is (h.threads t id pc ht)
      · rw [hmain, hregistry]
        exact fun c i hc e he => h.handed c i hc e (Registry.slots_evictions he)
  | connect d hevent hmain hclosed hmain' haccepted hregistry =>
      subst hevent
      refine ⟨hinv, hknown, ?_, ?_⟩
      · rw [hthreads, hregistry]
        exact fun t id pc ht =>
          threadOk_connect ht (hC t (h.known.threads t _ ht)) (h.threads t id pc ht)
      · rw [hmain']
        intro c i hc
        exact absurd hc (by simp only [MainPc.handed, reduceCtorEq, not_false_eq_true])
  | advance hheld hhanded haccepted hregistry hchecked =>
      refine ⟨hinv, hknown, ?_, ?_⟩
      · rw [hthreads, hregistry]
        exact h.threads
      · rw [hregistry]
        intro c i hc
        rcases hhanded with hsame | hnone
        · exact h.handed c i (by rw [← hsame, hc])
        · rw [hnone] at hc
          exact absurd hc (by simp only [reduceCtorEq, not_false_eq_true])
  | enter d c name i hevent hmain hfirst hfree hmain' haccepted hregistry =>
      subst hevent
      have hchecked := h.inv.checked
      rw [hmain] at hchecked
      -- The slot that is filled has no live handler, by the condition.
      have hfills := State.mem_fills hmain hfirst
      refine ⟨hinv, hknown, ?_, ?_⟩
      · rw [hthreads, hregistry hchecked.1]
        exact fun t id pc ht =>
          threadOk_enter ht (hC (i, name) hfills t (h.known.threads t _ ht)) (h.threads t id pc ht)
      · rw [hmain', hregistry hchecked.1]
        intro c' i' hc' e he
        simp only [MainPc.handed, Option.some.injEq, Prod.mk.injEq] at hc'
        rcases hc' with ⟨rfl, rfl⟩
        rcases put_eq_some.mp he with ⟨_, rfl⟩ | ⟨hne, _⟩
        · rfl
        · exact absurd rfl hne
  | close d c error hmain hmain' haccepted hregistry =>
      refine ⟨hinv, hknown, ?_, ?_⟩
      · rw [hthreads, hregistry]
        intro t id pc ht
        -- The descriptor closed was in nobody's slot; others only see it close.
        have hopen := h.inv.sound.heldOpen d c (by rw [hmain]; rfl)
        rw [Registry.close_of_open hopen]
        exact threadOk_mono (r := s.server.registry) (fun _ _ hi => hi) rfl
          (fun _ _ hfd => (Registry.fds_update_none hfd).2) (h.threads t id pc ht)
      · rw [hmain']
        intro c' i hc'
        exact absurd hc' (by simp only [MainPc.handed, reduceCtorEq, not_false_eq_true])

/-- A step of one handler: it has what it relies on afterwards, and nobody
    else is disturbed. -/
theorem owned_thread {s s' : State} {t : Conn} {id : Slot} {pc : Pc} (hinv : Inv s')
    (hknown : Known s') (hthreads : s'.threads = Function.update s.threads t (some ⟨id, pc⟩))
    (hhanded : s'.main.handed = s.main.handed ∨
      s'.main.handed = none)
    (his : ∃ is : List Slot, s'.server.registry = is.foldl Registry.evict s.server.registry)
    (hpc : ThreadOk s.server.registry t id pc) (h : Owned s) : Owned s' := by
  rcases his with ⟨is, hregistry⟩
  refine ⟨hinv, hknown, ?_, ?_⟩
  · rw [hthreads, hregistry]
    intro t' id' pc' ht'
    refine threadOk_evictions is ?_
    -- Either it is the handler that moved, or one whose place is as before.
    rcases put_eq_some.mp ht' with ⟨rfl, hth⟩ | ⟨_, hold⟩
    · rw [Thread.mk.injEq] at hth
      rw [hth.1, hth.2]
      exact hpc
    · exact h.threads t' id' pc' hold
  · rw [hregistry]
    intro c i hc
    rcases hhanded with hsame | hnone
    · exact fun e he => h.handed c i (by rw [← hsame, hc]) e (Registry.slots_evictions he)
    · rw [hnone] at hc
      exact absurd hc (by simp only [reduceCtorEq, not_false_eq_true])

/-- Where a handler's step leads, it finds what it relies on. -/
theorem threadOk_handlerStep {clk : LocalClock} {s : State} {t : Conn} {id : Slot}
    {pc pc' : Pc} {server : Server} (h : Owned s) (hthread : s.threads t = some ⟨id, pc⟩)
    (hstep : handlerStep clk s.clock s.server id pc = some (server, pc')) :
    ThreadOk s.server.registry t id pc' := by
  have hok := h.threads t id pc hthread
  rcases handlerStep_pc hstep with ⟨hload, hrecv, hblocked, _, _⟩
  -- A handler that has returned takes no step.
  have hpc : pc ≠ .exited := by
    rintro rfl
    cases handlerStep_cases hstep
  refine ⟨fun _ => hok.slot hpc, ?_, ?_, ?_⟩
  · -- The slot was found active, so it is the session's own, and its number too.
    intro hpc' c hc
    have hslot := Server.slots_of_active (hload hpc')
    have hconn := hok.slot hpc _ hslot
    have hopen := h.inv.sound.isOpen id _ hslot
    have hc' : s.server.registry.fds (s.server.clients id).socket = some c := hc
    rw [hopen, Option.some.injEq] at hc'
    exact hc'.symm.trans hconn
  · intro d hpc' c hc
    rcases hrecv d hpc' with ⟨hpcload, rfl⟩
    exact hok.loading hpcload c hc
  · intro c hpc'
    rcases hblocked (some c) hpc' with ⟨d, hpcrecv, hsource⟩
    exact hok.entering d hpcrecv c hsource.symm

theorem owned_step {clk : LocalClock} {s s' : State} {e : Event} (h : Owned s)
    (hC : NoReuse s e) (hstep : step clk s e = some s') : Owned s' := by
  have hinv := inv_step h.inv hstep
  have hknown := known_step h.inv h.known hstep
  cases step_turn hstep with
  | others hevent hthreads => exact owned_others hC (step_move hstep) hthreads hknown h
  | spawn c i hevent hmain heq =>
      subst heq
      have hslot := h.handed c i (by rw [hmain]; rfl)
      refine owned_thread hinv hknown rfl (Or.inr rfl) ⟨[], rfl⟩ ⟨fun _ => hslot, ?_, ?_, ?_⟩ h
      · intro hpc
        exact absurd hpc (by simp only [reduceCtorEq, not_false_eq_true])
      · intro d hpc
        exact absurd hpc (by simp only [reduceCtorEq, not_false_eq_true])
      · intro c' hpc
        exact absurd hpc (by simp only [reduceCtorEq, not_false_eq_true])
  | recv c result id source pc hevent hthread hpc heq =>
      subst heq
      have hok := h.threads c id _ hthread
      have hslot := hok.slot (by simp only [ne_eq, reduceCtorEq, not_false_eq_true])
      refine owned_thread hinv hknown rfl (Or.inl rfl) ⟨[], rfl⟩ ⟨fun _ => hslot, ?_, ?_, ?_⟩ h
      · rintro rfl
        simp only [reduceCtorEq, false_and, and_false, exists_false, or_false] at hpc
      · rintro d rfl
        simp only [reduceCtorEq, false_and, and_false, exists_false, or_false] at hpc
      · rintro c' rfl
        simp only [reduceCtorEq, false_and, and_false, exists_false, or_false] at hpc
  | handler c id pc server pc' hevent hthread hhandler heq =>
      subst heq
      refine owned_thread hinv hknown rfl (Or.inl rfl) ?_
        (threadOk_handlerStep h hthread hhandler) h
      rcases handlerStep_registry hhandler with hsame | ⟨_, _, hevict⟩
      · exact ⟨[], hsame⟩
      · exact ⟨[id], hevict⟩

theorem ownSession_of_owned {s : State} (h : Owned s) : OwnSession s where
  receives := fun t id c ht => (h.threads t id _ ht).inside c rfl
  removes := by
    intro t id ht hactive
    have hslot := Server.slots_of_active hactive
    have hconn := (h.threads t id _ ht).slot
      (by simp only [ne_eq, reduceCtorEq, not_false_eq_true]) _ hslot
    have hopen := h.inv.sound.isOpen id _ hslot
    refine ⟨hconn, ?_⟩
    rw [← hconn]
    exact hopen

/-- In every run in which no slot and no descriptor number is given out again
    while a running handler still uses it, every handler receives from its
    own session and removes no other, in every state on the way. -/
theorem own_session (clk : LocalClock) (es : List Event)
    (hC : Meets (step clk) NoReuse init es) : Always (step clk) OwnSession init es :=
  always_of_meets (fun _ _ _ hs hCs hstep => owned_step hs hCs hstep)
    (fun _ hs => ownSession_of_owned hs) owned_init hC

/-- Two sessions of which the first one hangs up. Its handler removes it, and
    the slot goes to the next session; then the second one leaves. -/
def tidyRun : List Event :=
  joining 4 (text "ala") ++ joining 5 (text "ola") ++
    [.thread 0, .thread 0, .thread 0, .thread 1, .thread 1, .thread 1, .recv 0 .closed,
      .thread 0] ++
    joining 4 (text "ula") ++ [.recv 1 (.data (text "STOP")), .thread 1, .thread 1]

/-- A slot may be given out again when its handler has returned. -/
theorem own_session_in_tidy_run :
    (exec (step stoppedClock) init tidyRun).any (fun s =>
      decide (s.threads 0 = some ⟨0, .exited⟩ ∧ s.threads 1 = some ⟨1, .exited⟩ ∧
        s.server.session 0 = 2 ∧ (s.server.clients 0).active = true)) = true ∧
      Always (step stoppedClock) OwnSession init tidyRun :=
  ⟨by decide +kernel, own_session stoppedClock tidyRun (by decide +kernel)⟩

/-- One session's handler is inside `recv` when the sweep finds it silent and
    the next session gets its slot; then the `recv` returns. -/
def staleRun : List Event :=
  joining 4 (text "ala") ++ [.thread 0, .thread 0, .thread 0, .time 61, .pingWake, .sweep] ++
    joining 5 (text "ola") ++ [.recv 0 .closed]

/-- The handler of session 0 is about to remove session 1. -/
theorem stale_handler_removes :
    ¬ ∀ clk s, Reaches (step clk) init s → OwnSession s := by
  intro hall
  have hend : (exec (step stoppedClock) init staleRun).any (fun s =>
      decide (s.threads 0 = some ⟨0, .remove⟩ ∧ (s.server.clients 0).active = true ∧
        s.server.session 0 = 1)) = true := by
    decide +kernel
  rcases exists_of_exec_any hend with ⟨s, hrun, hs⟩
  rcases of_decide_eq_true hs with ⟨hthread, hactive, hsession⟩
  have hown := (hall stoppedClock s ⟨staleRun, hrun⟩).removes 0 0 hthread hactive
  rw [hsession] at hown
  exact absurd hown.1 (by decide)

end Tcp

end OsLabs
