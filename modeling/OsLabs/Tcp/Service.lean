import OsLabs.Tcp.Table

/-!
# What a Handler Executes

Seen from its own connection, a handler is a loop over the chunks that `recv`
returns: `handleClient`. In the server its turns are mixed with those of
everybody else, and it may be removed or fail at any moment. What it has
executed is then the beginning of what the loop makes of the chunks it was
given, and nothing else ever is.

A connection gets one handler only. The accept loop starts it, and has no
handler to start for a connection that has one (`Unstarted`). So the program
counter of the handler tells what the loop still owes (`remaining`), and a
step of the server pays exactly what it executes.

## Main definitions

* `handleClient`: The commands that the loop of `handle_client` executes.
* `received`, `executed`: What a handler receives and executes along a run.
* `Unstarted`: The connection that the accept loop works on has no handler.
* `remaining`: What is still to be executed, given the chunks still to come.
* `Pays`: What an event executes and receives, in terms of what remains.

## Theorems

* `unstarted_step`: The accept loop has no handler to start twice.
* `pays_step`: What a step executes comes off what remains.
* `left_step`: A handler that is out of its loop stays out.
* `executed_prefix`: Along a run the loop is executed from its beginning.
* `executed_of_blocked`: A handler inside `recv` has executed all it received.
-/

namespace OsLabs

namespace Tcp

open Machine

/-- The commands that `handle_client` executes for the chunks that `recv`
    returns: the string in the buffer, and what it is taken for. The loop ends
    with the command that leads to `remove_client`. -/
def handleClient : List Bytes → List (Bytes × Command)
  | [] => []
  | chunk :: chunks =>
      let buffer := cstr chunk
      (buffer, parse buffer) ::
        if dispatch (parse buffer) = .remove then [] else handleClient chunks

/-- The chunk that an event brings to the handler of a connection. -/
def receives (c : Conn) : Event → List Bytes
  | .recv c' (.data bytes) => if c' = c then [bytes] else []
  | _ => []

/-- The chunks that `recv` returns to the handler of a connection. -/
def received (c : Conn) (es : List Event) : List Bytes := es.flatMap (receives c)

/-- The command that a step executes for a connection: its handler is about to
    look at the buffer, and it is its turn. -/
def executes (c : Conn) (s : State) : Event → List (Bytes × Command)
  | .thread c' =>
      match s.threads c' with
      | some ⟨_, .touch buffer⟩ =>
          if c' = c then [(cstr buffer, parse (cstr buffer))] else []
      | _ => []
  | _ => []

/-- The commands executed for a connection along a run. -/
def executed (clk : LocalClock) (c : Conn) : State → List Event → List (Bytes × Command)
  | _, [] => []
  | s, e :: es => executes c s e ++
      match step clk s e with
      | some s' => executed clk c s' es
      | none => []

/-- The connection that the accept loop works on has no handler yet. -/
structure Unstarted (s : State) : Prop where
  held : ∀ d c, s.main.held = some (d, c) → s.threads c = none
  handed : ∀ c i, s.main.handed = some (c, i) → s.threads c = none

theorem unstarted_init : Unstarted init := ⟨fun _ _ _ => rfl, fun _ _ _ => rfl⟩

/-- The accept loop is the only one to give a connection a handler. -/
theorem thread_none_step {clk : LocalClock} {s s' : State} {e : Event} {c : Conn}
    (hstep : step clk s e = some s') (hnone : s.threads c = none) :
    s'.threads c = none ∨ ∃ i, s.main = .spawn c i ∧ s'.main = .accept := by
  -- A thread that takes a step was there before.
  have hother : ∀ {t : Conn} {th th' : Thread}, s.threads t = some th →
      Function.update s.threads t (some th') c = none := by
    intro t th th' hthread
    have hne : c ≠ t := by
      rintro rfl
      rw [hnone] at hthread
      exact absurd hthread (by simp only [reduceCtorEq, not_false_eq_true])
    rw [Function.update_of_ne hne, hnone]
  cases step_turn hstep with
  | others hevent hthreads =>
      left
      rw [hthreads, hnone]
  | spawn t i hevent hmain heq =>
      by_cases ht : c = t
      · right
        exact ⟨i, by rw [hmain, ht], by rw [heq]⟩
      · left
        simp only [heq, Function.update_of_ne ht, hnone]
  | recv t result id source pc hevent hthread hpc heq =>
      left
      rw [heq]
      exact hother hthread
  | handler t id pc server pc' hevent hthread hhandler heq =>
      left
      rw [heq]
      exact hother hthread

theorem unstarted_step {clk : LocalClock} {s s' : State} {e : Event} (hknown : Known s)
    (h : Unstarted s) (hstep : step clk s e = some s') : Unstarted s' := by
  -- Unless the accept loop has just started a handler, nobody new has one.
  have hkeep : ∀ c, s'.main ≠ .accept → s.threads c = none → s'.threads c = none := by
    intro c hmain hnone
    rcases thread_none_step hstep hnone with hnone' | ⟨_, _, haccept⟩
    · exact hnone'
    · exact absurd haccept hmain
  have hheld : ∀ {d : Fd} {c : Conn}, s'.main.held = some (d, c) → s'.main ≠ .accept := by
    intro d c hheld haccept
    rw [haccept] at hheld
    exact absurd hheld (by simp only [MainPc.held, reduceCtorEq, not_false_eq_true])
  have hhanded : ∀ {c : Conn} {i : Slot}, s'.main.handed = some (c, i) → s'.main ≠ .accept := by
    intro c i hhanded haccept
    rw [haccept] at hhanded
    exact absurd hhanded (by simp only [MainPc.handed, reduceCtorEq, not_false_eq_true])
  refine ⟨fun d c hd => hkeep c (hheld hd) ?_, fun c i hc => hkeep c (hhanded hc) ?_⟩
  · cases step_move hstep with
    | evictions is hmain haccepted hregistry => exact h.held d c (by rw [← hmain, hd])
    | connect d' hevent hmain hclosed hmain' haccepted hregistry =>
        -- The connection is new, and handlers belong to older ones.
        rw [hmain'] at hd
        simp only [MainPc.held, Option.some.injEq, Prod.mk.injEq] at hd
        rw [← hd.2]
        cases hthread : s.threads s.accepted with
        | none => rfl
        | some th => exact absurd (hknown.threads _ th hthread) (Nat.lt_irrefl _)
    | advance hsame hhanded' haccepted hregistry hchecked => exact h.held d c (by rw [← hsame, hd])
    | enter d' c' name i hevent hmain hfirst hfree hmain' haccepted hregistry =>
        rw [hmain'] at hd
        exact absurd hd (by simp only [MainPc.held, reduceCtorEq, not_false_eq_true])
    | close d' c' error hmain hmain' haccepted hregistry => exact absurd hmain' (hheld hd)
  · cases step_move hstep with
    | evictions is hmain haccepted hregistry => exact h.handed c i (by rw [← hmain, hc])
    | connect d hevent hmain hclosed hmain' haccepted hregistry =>
        rw [hmain'] at hc
        exact absurd hc (by simp only [MainPc.handed, reduceCtorEq, not_false_eq_true])
    | advance hsame hhanded' haccepted hregistry hchecked =>
        rcases hhanded' with hsame' | hnone
        · exact h.handed c i (by rw [← hsame', hc])
        · rw [hnone] at hc
          exact absurd hc (by simp only [reduceCtorEq, not_false_eq_true])
    | enter d c' name i' hevent hmain hfirst hfree hmain' haccepted hregistry =>
        rw [hmain'] at hc
        simp only [MainPc.handed, Option.some.injEq, Prod.mk.injEq] at hc
        exact h.held d c (by rw [hmain, ← hc.1]; rfl)
    | close d c' error hmain hmain' haccepted hregistry => exact absurd hmain' (hhanded hc)

/-- The handler is out of its loop. -/
def Pc.left : Pc → Bool
  | .remove | .exited => true
  | _ => false

/-- What the loop executes from where it stands, given the chunks to come. -/
def Pc.remaining (chunks : List Bytes) : Pc → List (Bytes × Command)
  | .touch buffer => handleClient (buffer :: chunks)
  | .remove | .exited => []
  | _ => handleClient chunks

/-- The same for a connection, whose handler may not have been started. -/
def remaining (thread : Option Thread) (chunks : List Bytes) : List (Bytes × Command) :=
  match thread with
  | none => handleClient chunks
  | some th => th.pc.remaining chunks

theorem remaining_of_left {th : Thread} (h : th.pc.left = true) (chunks : List Bytes) :
    remaining (some th) chunks = [] := by
  cases th with
  | mk id pc =>
      cases pc with
      | remove | exited => rfl
      | _ => exact absurd h Bool.false_ne_true

/-- Looking at the buffer executes one command, and the loop goes on unless
    that was the last. -/
theorem remaining_touch (buffer : Bytes) (chunks : List Bytes) :
    (cstr buffer, parse (cstr buffer)) :: (dispatch (parse (cstr buffer))).remaining chunks
      = (Pc.touch buffer).remaining chunks := by
  simp only [Pc.remaining, handleClient, List.cons.injEq, true_and]
  cases parse (cstr buffer) <;> simp only [dispatch, reduceCtorEq, if_true, if_false]

/-- No other step of a handler executes anything: it stays in the loop, with
    the same still to come, or leaves it. -/
theorem handlerStep_remaining {clk : LocalClock} {now : Nat} {s server : Server} {id : Slot}
    {pc pc' : Pc} (h : handlerStep clk now s id pc = some (server, pc'))
    (hbuffer : ∀ buffer, pc ≠ .touch buffer) (chunks : List Bytes) :
    pc'.remaining chunks = pc.remaining chunks ∨ pc'.left = true := by
  cases handlerStep_cases h with
  | touch buffer => exact absurd rfl (hbuffer buffer)
  | leave hactive => exact Or.inr rfl
  | remove => exact Or.inr rfl
  | goOn | load | recv | listing | formatAll | broadcast | found | notFound | formatOne | sendTo
  | reply | sendReply => exact Or.inl rfl

/-- What an event pays for a connection: what it executes comes off what
    remains, and what it receives is added. A handler that leaves its loop has
    nothing left to execute. -/
def Pays (c : Conn) (s s' : State) (e : Event) (chunks : List Bytes) : Prop :=
  executes c s e ++ remaining (s'.threads c) chunks
      = remaining (s.threads c) (receives c e ++ chunks) ∨
    (executes c s e = [] ∧ ∃ th, s'.threads c = some th ∧ th.pc.left = true)

/-- An event that neither concerns the connection nor moves its handler. -/
theorem pays_other {c : Conn} {s s' : State} {e : Event} (hevent : e.conn ≠ some c)
    (hthreads : s'.threads c = s.threads c) (chunks : List Bytes) : Pays c s s' e chunks := by
  left
  rw [hthreads]
  cases e with
  | recv t result =>
      have ht : t ≠ c := fun heq => hevent (congrArg some heq)
      cases result with
      | data bytes =>
          have hreceives : receives c (.recv t (.data bytes)) = [] := if_neg ht
          rw [hreceives]
          rfl
      | closed | error => rfl
  | thread t =>
      have ht : t ≠ c := fun heq => hevent (congrArg some heq)
      have hexecutes : executes c s (.thread t) = [] := by
        simp only [executes, if_neg ht]
        split <;> rfl
      rw [hexecutes]
      rfl
  | time | accept | recvName | main | pingWake | sweep => rfl

/-- The chunk received is what the handler will look at next. -/
theorem pays_recv {c : Conn} {s s' : State} {result : Recv} {id : Slot} {source : Option Conn}
    {pc : Pc} (hthread : s.threads c = some ⟨id, .blocked source⟩)
    (hthread' : s'.threads c = some ⟨id, pc⟩)
    (hpc : (∃ bytes c', result = .data bytes ∧ pc = .touch bytes ∧ source = some c') ∨
      (pc = .remove ∧ ∀ bytes, result ≠ .data bytes)) (chunks : List Bytes) :
    Pays c s s' (.recv c result) chunks := by
  rcases hpc with ⟨bytes, c', rfl, rfl, _⟩ | ⟨rfl, _⟩
  · left
    rw [hthread, hthread']
    simp only [executes, receives, if_true, List.nil_append, List.singleton_append, remaining,
      Pc.remaining]
  · right
    exact ⟨rfl, _, hthread', rfl⟩

theorem pays_thread {clk : LocalClock} {c : Conn} {s s' : State} {id : Slot} {pc pc' : Pc}
    {server : Server} (hthread : s.threads c = some ⟨id, pc⟩)
    (hhandler : handlerStep clk s.clock s.server id pc = some (server, pc'))
    (hthread' : s'.threads c = some ⟨id, pc'⟩) (chunks : List Bytes) :
    Pays c s s' (.thread c) chunks := by
  by_cases hbuffer : ∃ buffer, pc = .touch buffer
  · rcases hbuffer with ⟨buffer, rfl⟩
    left
    have hpc' : pc' = dispatch (parse (cstr buffer)) := by
      cases handlerStep_cases hhandler with
      | touch => rfl
    have hexecutes : executes c s (.thread c) = [(cstr buffer, parse (cstr buffer))] := by
      simp only [executes, hthread, if_true]
    rw [hexecutes, hthread', hthread, hpc']
    exact remaining_touch buffer chunks
  · have hpc : ∀ buffer, pc ≠ .touch buffer := fun buffer hb => hbuffer ⟨buffer, hb⟩
    -- Only a handler with a buffer before it executes a command.
    have hexecutes : executes c s (.thread c) = [] := by
      simp only [executes, hthread]
      split
      · rename_i id' buffer hsome
        simp only [Option.some.injEq, Thread.mk.injEq] at hsome
        exact absurd hsome.2 (hpc buffer)
      · rfl
    rcases handlerStep_remaining hhandler hpc chunks with hsame | hleft
    · left
      rw [hexecutes, hthread', hthread]
      exact hsame
    · right
      exact ⟨hexecutes, _, hthread', hleft⟩

theorem pays_step {clk : LocalClock} {c : Conn} {s s' : State} {e : Event} (h : Unstarted s)
    (hstep : step clk s e = some s') (chunks : List Bytes) : Pays c s s' e chunks := by
  cases step_turn hstep with
  | others hevent hthreads =>
      refine pays_other ?_ (by rw [hthreads]) chunks
      rw [hevent]
      simp only [ne_eq, reduceCtorEq, not_false_eq_true]
  | spawn t i hevent hmain heq =>
      subst hevent heq
      by_cases ht : c = t
      · -- The handler starts with the whole loop before it.
        subst ht
        left
        have hnone : s.threads c = none := h.handed c i (by rw [hmain]; rfl)
        simp only [Function.update_self, hnone]
        rfl
      · exact pays_other (by simp only [Event.conn, ne_eq, reduceCtorEq, not_false_eq_true])
          (Function.update_of_ne ht ..) chunks
  | recv t result id source pc hevent hthread hpc heq =>
      subst hevent heq
      by_cases ht : c = t
      · subst ht
        exact pays_recv hthread (Function.update_self ..) hpc chunks
      · have hevent : Event.conn (.recv t result) ≠ some c := fun heq =>
          ht (Option.some.inj heq).symm
        exact pays_other hevent (Function.update_of_ne ht ..) chunks
  | handler t id pc server pc' hevent hthread hhandler heq =>
      subst hevent heq
      by_cases ht : c = t
      · subst ht
        exact pays_thread hthread hhandler (Function.update_self ..) chunks
      · have hevent : Event.conn (.thread t) ≠ some c := fun heq =>
          ht (Option.some.inj heq).symm
        exact pays_other hevent (Function.update_of_ne ht ..) chunks

/-- What holds of every state of a run, as far as handlers are started. -/
structure Serving (s : State) : Prop where
  inv : Inv s
  known : Known s
  unstarted : Unstarted s

theorem serving_init : Serving init := ⟨inv_init, known_init, unstarted_init⟩

theorem serving_step {clk : LocalClock} {s s' : State} {e : Event} (h : Serving s)
    (hstep : step clk s e = some s') : Serving s' where
  inv := inv_step h.inv hstep
  known := known_step h.inv h.known hstep
  unstarted := unstarted_step h.known h.unstarted hstep

/-- Along every run, the commands executed for a connection begin what
    remained at its start. -/
theorem executed_remaining {clk : LocalClock} {c : Conn} {s t : State} {es : List Event}
    (h : Serving s) (hrun : exec (step clk) s es = some t) :
    executed clk c s es <+: remaining (s.threads c) (received c es) := by
  induction es generalizing s with
  | nil => exact List.nil_prefix
  | cons e es ih =>
      rcases exec_cons.mp hrun with ⟨s', hstep, hrest⟩
      have hprefix := ih (serving_step h hstep) hrest
      simp only [executed, hstep, received, List.flatMap_cons]
      -- Either the step pays for itself, or the handler leaves and nothing follows.
      rcases pays_step h.unstarted hstep (received c es) with
        hpaid | ⟨hnothing, th, hthread, hleft⟩
      · rw [← received, ← hpaid]
        exact (List.prefix_append_right_inj _).mpr hprefix
      · rw [hthread, remaining_of_left hleft, List.prefix_nil] at hprefix
        rw [hnothing, hprefix]
        exact List.nil_prefix

/-- A handler that is out of its loop stays out. -/
theorem left_step {clk : LocalClock} {c : Conn} {s s' : State} {e : Event} {th : Thread}
    (h : Unstarted s) (hstep : step clk s e = some s') (hthread : s.threads c = some th)
    (hleft : th.pc.left = true) : ∃ th', s'.threads c = some th' ∧ th'.pc.left = true := by
  cases step_turn hstep with
  | others hevent hthreads => exact ⟨th, by rw [hthreads, hthread], hleft⟩
  | spawn t i hevent hmain heq =>
      by_cases ht : c = t
      · subst ht
        have hnone : s.threads c = none := h.handed c i (by rw [hmain]; rfl)
        rw [hthread] at hnone
        exact absurd hnone (by simp only [reduceCtorEq, not_false_eq_true])
      · exact ⟨th, by simp only [heq, Function.update_of_ne ht, hthread], hleft⟩
  | recv t result id source pc hevent hthread' hpc heq =>
      by_cases ht : c = t
      · subst ht
        rw [hthread, Option.some.injEq] at hthread'
        rw [hthread'] at hleft
        exact absurd hleft Bool.false_ne_true
      · exact ⟨th, by simp only [heq, Function.update_of_ne ht, hthread], hleft⟩
  | handler t id pc server pc' hevent hthread' hhandler heq =>
      by_cases ht : c = t
      · subst ht
        rw [hthread, Option.some.injEq] at hthread'
        rw [hthread'] at hleft
        refine ⟨⟨id, pc'⟩, by simp only [heq, Function.update_self], ?_⟩
        cases handlerStep_cases hhandler with
        | remove => rfl
        | _ => exact absurd hleft Bool.false_ne_true
      · exact ⟨th, by simp only [heq, Function.update_of_ne ht, hthread], hleft⟩

theorem left_exec {clk : LocalClock} {c : Conn} {s t : State} {es : List Event} (h : Serving s)
    (hrun : exec (step clk) s es = some t)
    (hleft : ∃ th, s.threads c = some th ∧ th.pc.left = true) :
    ∃ th, t.threads c = some th ∧ th.pc.left = true := by
  have hkeep : ∀ r e r', (Serving r ∧ ∃ th, r.threads c = some th ∧ th.pc.left = true) →
      step clk r e = some r' → Serving r' ∧ ∃ th, r'.threads c = some th ∧ th.pc.left = true := by
    rintro r e r' ⟨hr, th, hth, hleft⟩ hstep
    exact ⟨serving_step hr hstep, left_step hr.unstarted hstep hth hleft⟩
  exact (exec_invariant hkeep ⟨h, hleft⟩ hrun).2

/-- A handler in its loop has executed everything but what still remains. -/
theorem executed_append_remaining {clk : LocalClock} {c : Conn} {s t : State} {es : List Event}
    (h : Serving s) (hrun : exec (step clk) s es = some t)
    (hstay : ∀ th, t.threads c = some th → th.pc.left = false) :
    executed clk c s es ++ remaining (t.threads c) []
      = remaining (s.threads c) (received c es) := by
  induction es generalizing s with
  | nil =>
      simp only [exec, Option.some.injEq] at hrun
      rw [hrun]
      rfl
  | cons e es ih =>
      rcases exec_cons.mp hrun with ⟨s', hstep, hrest⟩
      have hserving := serving_step h hstep
      -- The rest of the run pays for what remains after the step.
      have hrun' := ih hserving hrest
      simp only [executed, hstep, received, List.flatMap_cons, List.append_assoc]
      rcases pays_step h.unstarted hstep (received c es) with
        hpaid | ⟨_, th, hthread, hleft⟩
      · rw [← received, ← hpaid, hrun']
      · -- It would have stayed out until the end.
        rcases left_exec hserving hrest ⟨th, hthread, hleft⟩ with ⟨th', hth', hleft'⟩
        rw [hstay th' hth'] at hleft'
        exact absurd hleft' Bool.false_ne_true

/-- Whatever the other threads do, the commands executed for a connection are
    the first of those that the loop makes of the chunks received on it. -/
theorem executed_prefix {clk : LocalClock} {s : State} {es : List Event} (c : Conn)
    (hrun : exec (step clk) init es = some s) :
    executed clk c init es <+: handleClient (received c es) :=
  executed_remaining serving_init hrun

/-- A handler that waits in `recv` has executed all of them. -/
theorem executed_of_blocked {clk : LocalClock} {s : State} {es : List Event} {c : Conn} {id : Slot}
    {source : Option Conn} (hrun : exec (step clk) init es = some s)
    (hthread : s.threads c = some ⟨id, .blocked source⟩) :
    executed clk c init es = handleClient (received c es) := by
  have hall := executed_append_remaining (c := c) serving_init hrun (fun th hth => by
    rw [hthread, Option.some.injEq] at hth
    rw [← hth]
    rfl)
  rw [hthread] at hall
  exact (List.append_nil _).symm.trans hall

end Tcp

end OsLabs
