import OsLabs.Print.Fifo
import Mathlib.Data.Fintype.Sum

/-!
# Starting Again

What outlives a run of the program is the shared memory and the three named
semaphores. `main` resets the indices every time. The semaphores it opens
with `O_CREAT`, which sets the value of a semaphore that did not exist and
leaves the value of one that did. So a run that was killed hands its
semaphores to the next, and the next begins in order exactly if nobody was
killed inside of `enqueue_job` or `dequeue_job` and every job that was put in
had been taken out.

Processes are killed one by one, at any moment, and those that are left keep
working until they are killed too. The mapping of the shared memory and the
reset of the indices are one step: a run killed between them has changed
nothing that is left. The cleanup at the end of `main` waits for workers that
never return, and is left out.

`view` is the queue as a starting run will find it, with every semaphore that
is still to be created at its initial value. Opening a semaphore does not
change the view, which is why the invariant of the queue can be asked of it
at any moment.

## Main definitions

* `World`, `boot`: The queue, the semaphores that exist, and who runs.
* `mainStep`: The next step of `main`.
* `worldStep`: Steps of `main` and the workers, and kills.
* `World.view`: The queue with the values the semaphores have or will have.
* `Restarted`: What a run can count on, whatever was before.
* `CleanLaunch`: `main` starts after a run that left nothing behind.

## Theorems

* `emptied_iff_outside`: What the semaphores say of those that were killed.
* `good_step`: Clean launches keep the invariant.
* `restart_safe_iff`: Runs are in order exactly after clean launches.
-/

namespace OsLabs

namespace Print

open Machine

variable {U P : Nat}

/-- A process other than `main`. -/
abbrev Worker (U P : Nat) := Fin U ⊕ Fin P

/-- Where `main` stands: not there, before a `sem_open`, or before the next
    `fork`; after the last one it waits. -/
inductive MainPc where
  | absent
  | openMutex
  | openFull
  | openEmpty
  | forking (k : Nat)
  deriving DecidableEq

/-- No worker has been forked. -/
def MainPc.isStarting : MainPc → Bool
  | .openMutex | .openFull | .openEmpty | .forking 0 => true
  | _ => false

def MainPc.pastMutex : MainPc → Bool
  | .openFull | .openEmpty | .forking _ => true
  | _ => false

def MainPc.pastFull : MainPc → Bool
  | .openEmpty | .forking _ => true
  | _ => false

def MainPc.pastEmpty : MainPc → Bool
  | .forking _ => true
  | _ => false

/-- The queue, the named semaphores that exist, and the processes that run. -/
structure World (U P : Nat) where
  queue : State U P
  madeMutex : Bool
  madeFull : Bool
  madeEmpty : Bool
  main : MainPc
  alive : Worker U P → Bool

/-- Before the first run. -/
def boot (U P : Nat) : World U P where
  queue := { fresh U P with semMutex := 0, semFull := 0, semEmpty := 0 }
  madeMutex := false
  madeFull := false
  madeEmpty := false
  main := .absent
  alive := fun _ => false

/-- `sem_open(name, O_CREAT, mode, initial)`: the value of a semaphore that
    exists stays. -/
def semOpen (made : Bool) (value initial : Nat) : Nat := if made then value else initial

/-- The queue of a new run: the indices are reset, the processes are new, and
    what was left in the slots and the semaphores stays. -/
def State.relaunch (s : State U P) : State U P :=
  { s with
    head := 0
    tail := 0
    user := fun _ => .idle
    printer := fun _ => .waitFull
    enqueued := []
    dequeued := [] }

/-- The workers in the order in which they are forked. -/
def nthWorker (U P k : Nat) : Option (Worker U P) :=
  if h : k < U then some (.inl ⟨k, h⟩)
  else if h : k - U < P then some (.inr ⟨k - U, h⟩)
  else none

/-- The next step of `main`. -/
def mainStep (w : World U P) : Option (World U P) :=
  match w.main with
  | .absent => none
  | .openMutex => some { w with
      queue := { w.queue with semMutex := semOpen w.madeMutex w.queue.semMutex 1 }
      madeMutex := true
      main := .openFull }
  | .openFull => some { w with
      queue := { w.queue with semFull := semOpen w.madeFull w.queue.semFull 0 }
      madeFull := true
      main := .openEmpty }
  | .openEmpty => some { w with
      queue := { w.queue with semEmpty := semOpen w.madeEmpty w.queue.semEmpty queueSize }
      madeEmpty := true
      main := .forking 0 }
  | .forking k => (nthWorker U P k).map fun worker =>
      { w with alive := Function.update w.alive worker true, main := .forking (k + 1) }

/-- Whose step it is. -/
def Event.worker : Event U P → Worker U P
  | .submit u _ | .user u => .inl u
  | .printer p => .inr p

/-- The program is started, `main` or a worker takes a step, or is killed. -/
inductive WorldEvent (U P : Nat) where
  | launch
  | main
  | work (e : Event U P)
  | killMain
  | kill (worker : Worker U P)

/-- The program is started when nobody of the last run is left. -/
def worldStep (w : World U P) : WorldEvent U P → Option (World U P)
  | .launch =>
      if w.main = .absent ∧ ∀ worker, w.alive worker = false then
        some { w with queue := w.queue.relaunch, main := .openMutex }
      else none
  | .main => mainStep w
  | .work e =>
      if w.alive e.worker then (step w.queue e).map fun queue => { w with queue := queue } else none
  | .killMain => some { w with main := .absent }
  | .kill worker => some { w with alive := Function.update w.alive worker false }

/-- The queue with the values that the semaphores have, or will be created
    with. -/
def World.view (w : World U P) : State U P :=
  { w.queue with
    semMutex := semOpen w.madeMutex w.queue.semMutex 1
    semFull := semOpen w.madeFull w.queue.semFull 0
    semEmpty := semOpen w.madeEmpty w.queue.semEmpty queueSize }

/-- What a run can count on: it begins with an empty queue and semaphores
    that say so, its printers get its jobs in order, and whoever finds the
    mutex taken waits for a process of the same run. -/
structure Restarted (w : World U P) : Prop where
  begins : w.main.isStarting = true → Emptied w.view ∧ w.queue.head = 0 ∧ w.queue.tail = 0
  order : w.queue.dequeued <+: w.queue.enqueued
  free : w.view.semMutex = 0 → (∃ u, (w.queue.user u).isCritical = true) ∨
    ∃ p, (w.queue.printer p).isCritical = true

/-- Has done nothing in `enqueue_job`, or is done with it. -/
def UserPc.isOutside : UserPc → Bool
  | .idle | .waitEmpty _ => true
  | _ => false

/-- Has done nothing in `dequeue_job`, or is done with it. -/
def PrinterPc.isOutside : PrinterPc → Bool
  | .waitFull => true
  | _ => false

/-- Nobody was killed inside of `enqueue_job` or `dequeue_job`, and no job was
    left in the queue. -/
structure Outside (s : State U P) : Prop where
  users : ∀ u, (s.user u).isOutside = true
  printers : ∀ p, (s.printer p).isOutside = true
  empty : s.dequeued.length = s.enqueued.length

instance (s : State U P) : Decidable (Outside s) :=
  decidable_of_iff ((∀ u, (s.user u).isOutside = true) ∧ (∀ p, (s.printer p).isOutside = true) ∧
      s.dequeued.length = s.enqueued.length)
    ⟨fun h => ⟨h.1, h.2.1, h.2.2⟩, fun h => ⟨h.users, h.printers, h.empty⟩⟩

/-- If the program is started, the run before has left nothing behind. -/
def CleanLaunch (w : World U P) : WorldEvent U P → Prop
  | .launch => Outside w.queue
  | .main | .work _ | .killMain | .kill _ => True

instance (w : World U P) : ∀ e, Decidable (CleanLaunch w e)
  | .launch => inferInstanceAs (Decidable (Outside w.queue))
  | .main | .work _ | .killMain | .kill _ => isTrue trivial

/-- A user outside holds nothing and owes nothing. -/
theorem userPc_outside (pc : UserPc) :
    pc.isOutside = true ↔ pc.hasPlace = false ∧ pc.owesFull = false := by
  cases pc <;> simp only [UserPc.isOutside, UserPc.hasPlace, UserPc.owesFull, Bool.false_eq_true,
    Bool.true_eq_false, and_self, and_false, false_and]

theorem printerPc_outside (pc : PrinterPc) :
    pc.isOutside = true ↔ pc.hasPromise = false ∧ pc.owesEmpty = false := by
  cases pc <;> simp only [PrinterPc.isOutside, PrinterPc.hasPromise, PrinterPc.owesEmpty,
    Bool.false_eq_true, Bool.true_eq_false, and_self, and_false, false_and]

theorem inside_eq_zero {s : State U P} (h : Outside s) : s.inside = 0 := by
  have husers : tally UserPc.isCritical s.user = 0 := by
    refine tally_eq_zero.mpr (fun u => ?_)
    have hout := h.users u
    cases hpc : s.user u <;> rw [hpc] at hout <;> first | rfl | exact Bool.noConfusion hout
  have hprinters : tally PrinterPc.isCritical s.printer = 0 := by
    refine tally_eq_zero.mpr (fun p => ?_)
    have hout := h.printers p
    cases hpc : s.printer p <;> rw [hpc] at hout <;> first | rfl | exact Bool.noConfusion hout
  unfold State.inside
  omega

/-- The semaphores have their initial values exactly if nobody is inside and
    the ring is empty. -/
theorem emptied_iff_outside {s : State U P} (h : Counts s) : Emptied s ↔ Outside s := by
  have hmutex := h.mutex
  have hplaces := h.places
  have hpromises := h.promises
  constructor
  · intro hsems
    have hfull := hsems.full
    have hempty := hsems.empty
    -- Both sums leave nothing for those that are inside.
    have hplace : tally UserPc.hasPlace s.user = 0 := by omega
    have howesFull : tally UserPc.owesFull s.user = 0 := by omega
    have hpromise : tally PrinterPc.hasPromise s.printer = 0 := by omega
    have howesEmpty : tally PrinterPc.owesEmpty s.printer = 0 := by omega
    refine ⟨fun u => ?_, fun p => ?_, by omega⟩
    · exact (userPc_outside _).mpr ⟨tally_eq_zero.mp hplace u, tally_eq_zero.mp howesFull u⟩
    · exact (printerPc_outside _).mpr ⟨tally_eq_zero.mp hpromise p, tally_eq_zero.mp howesEmpty p⟩
  · intro hout
    have hinside := inside_eq_zero hout
    -- Outside, nobody has a place or a promise, and nobody owes one.
    have hplace : tally UserPc.hasPlace s.user = 0 :=
      tally_eq_zero.mpr (fun u => ((userPc_outside _).mp (hout.users u)).1)
    have howesFull : tally UserPc.owesFull s.user = 0 :=
      tally_eq_zero.mpr (fun u => ((userPc_outside _).mp (hout.users u)).2)
    have hpromise : tally PrinterPc.hasPromise s.printer = 0 :=
      tally_eq_zero.mpr (fun p => ((printerPc_outside _).mp (hout.printers p)).1)
    have howesEmpty : tally PrinterPc.owesEmpty s.printer = 0 :=
      tally_eq_zero.mpr (fun p => ((printerPc_outside _).mp (hout.printers p)).2)
    have hleft := hout.empty
    exact ⟨by omega, by omega, by omega⟩

/-- What is true of every world: what `main` has opened exists, workers run
    only after that, and a run that is starting has not done anything. -/
structure Shape (w : World U P) : Prop where
  mutex : w.main.pastMutex = true → w.madeMutex = true
  full : w.main.pastFull = true → w.madeFull = true
  empty : w.main.pastEmpty = true → w.madeEmpty = true
  working : ∀ worker, w.alive worker = true →
    w.madeMutex = true ∧ w.madeFull = true ∧ w.madeEmpty = true
  starting : w.main.isStarting = true → Start w.queue ∧ ∀ worker, w.alive worker = false

/-- The state of a world whose runs have all begun in order. -/
structure Good (w : World U P) : Prop where
  shape : Shape w
  counts : Counts w.view
  ring : Ring w.view

/-- The values of the semaphores do not say how far a run is. -/
theorem start_semaphores {s : State U P} (h : Start s) (semMutex semFull semEmpty : Nat) :
    Start { s with semMutex := semMutex, semFull := semFull, semEmpty := semEmpty } :=
  ⟨h.users, h.printers, h.enqueued, h.dequeued, h.head, h.tail⟩

theorem start_relaunch (s : State U P) : Start s.relaunch :=
  ⟨fun _ => rfl, fun _ => rfl, rfl, rfl, rfl, rfl⟩

theorem good_boot : Good (boot U P) where
  shape := by
    refine ⟨?_, ?_, ?_, ?_, ?_⟩
    · exact fun h => absurd h Bool.false_ne_true
    · exact fun h => absurd h Bool.false_ne_true
    · exact fun h => absurd h Bool.false_ne_true
    · exact fun _ h => absurd h Bool.false_ne_true
    · exact fun h => absurd h Bool.false_ne_true
  counts := counts_start (start_semaphores start_fresh _ _ _) ⟨rfl, rfl, rfl⟩
  ring := ring_start (start_semaphores start_fresh _ _ _)

/-- What a step of the world does. -/
inductive WorldTurn (w : World U P) (w' : World U P) : WorldEvent U P → Prop where
  | launch (habsent : w.main = .absent) (hnobody : ∀ worker, w.alive worker = false)
      (heq : w' = { w with queue := w.queue.relaunch, main := .openMutex }) :
      WorldTurn w w' .launch
  | openMutex (hpc : w.main = .openMutex)
      (heq : w' = { w with
        queue := { w.queue with semMutex := semOpen w.madeMutex w.queue.semMutex 1 }
        madeMutex := true, main := .openFull }) : WorldTurn w w' .main
  | openFull (hpc : w.main = .openFull)
      (heq : w' = { w with
        queue := { w.queue with semFull := semOpen w.madeFull w.queue.semFull 0 }
        madeFull := true, main := .openEmpty }) : WorldTurn w w' .main
  | openEmpty (hpc : w.main = .openEmpty)
      (heq : w' = { w with
        queue := { w.queue with semEmpty := semOpen w.madeEmpty w.queue.semEmpty queueSize }
        madeEmpty := true, main := .forking 0 }) : WorldTurn w w' .main
  | fork (k : Nat) (worker : Worker U P) (hpc : w.main = .forking k)
      (heq : w' = { w with
        alive := Function.update w.alive worker true, main := .forking (k + 1) }) :
      WorldTurn w w' .main
  | work (e : Event U P) (queue : State U P) (halive : w.alive e.worker = true)
      (hstep : step w.queue e = some queue) (heq : w' = { w with queue := queue }) :
      WorldTurn w w' (.work e)
  | killMain (heq : w' = { w with main := .absent }) : WorldTurn w w' .killMain
  | kill (worker : Worker U P)
      (heq : w' = { w with alive := Function.update w.alive worker false }) :
      WorldTurn w w' (.kill worker)

theorem worldStep_cases {w w' : World U P} {e : WorldEvent U P} (h : worldStep w e = some w') :
    WorldTurn w w' e := by
  cases e with
  | launch =>
      -- `main` starts where nobody of the last run is alive.
      simp only [worldStep, Option.ite_none_right_eq_some, Option.some.injEq] at h
      exact .launch h.1.1 h.1.2 h.2.symm
  | main =>
      simp only [worldStep, mainStep] at h
      cases hpc : w.main with
      | absent =>
          rw [hpc] at h
          -- A `main` that was killed does nothing.
          exact absurd h (by simp only [reduceCtorEq, not_false_eq_true])
      | openMutex =>
          rw [hpc, Option.some.injEq] at h
          exact .openMutex hpc h.symm
      | openFull =>
          rw [hpc, Option.some.injEq] at h
          exact .openFull hpc h.symm
      | openEmpty =>
          rw [hpc, Option.some.injEq] at h
          exact .openEmpty hpc h.symm
      | forking k =>
          rw [hpc] at h
          rcases Option.map_eq_some_iff.mp h with ⟨worker, _, heq⟩
          exact .fork k worker hpc heq.symm
  | work e =>
      -- A worker that was killed does nothing either.
      simp only [worldStep, Option.ite_none_right_eq_some, Option.map_eq_some_iff] at h
      rcases h with ⟨halive, queue, hstep, heq⟩
      exact .work e queue halive hstep heq.symm
  | killMain =>
      rw [worldStep, Option.some.injEq] at h
      exact .killMain h.symm
  | kill worker =>
      rw [worldStep, Option.some.injEq] at h
      exact .kill worker h.symm

/-- A forked worker has all semaphores. -/
theorem alive_update {alive : Worker U P → Bool} {made : Prop} (worker : Worker U P) (b : Bool)
    (hmade : b = true → made) (h : ∀ other, alive other = true → made) (other : Worker U P)
    (hother : Function.update alive worker b other = true) : made := by
  by_cases hsame : other = worker
  · rw [hsame, Function.update_self] at hother
    exact hmade hother
  · rw [Function.update_of_ne hsame] at hother
    exact h other hother

theorem shape_step {w w' : World U P} {e : WorldEvent U P} (h : Shape w)
    (hstep : worldStep w e = some w') : Shape w' := by
  cases worldStep_cases hstep with
  | launch habsent hnobody heq =>
      rw [heq]
      -- Nothing has been opened by the new `main`, and nobody works yet.
      refine ⟨fun hpast => Bool.noConfusion hpast, fun hpast => Bool.noConfusion hpast,
        fun hpast => Bool.noConfusion hpast, h.working, fun _ => ⟨start_relaunch _, hnobody⟩⟩
  | openMutex hpc heq =>
      rcases h.starting (by rw [hpc]; rfl) with ⟨hstart, hnobody⟩
      rw [heq]
      -- What has been opened is there from now on; nobody works before all three are.
      refine ⟨fun _ => rfl, fun hpast => Bool.noConfusion hpast,
        fun hpast => Bool.noConfusion hpast, fun worker halive => ?_,
        fun _ => ⟨start_semaphores hstart _ _ _, hnobody⟩⟩
      exact ⟨rfl, (h.working worker halive).2⟩
  | openFull hpc heq =>
      rcases h.starting (by rw [hpc]; rfl) with ⟨hstart, hnobody⟩
      rw [heq]
      refine ⟨fun _ => h.mutex (by rw [hpc]; rfl), fun _ => rfl,
        fun hpast => Bool.noConfusion hpast, fun worker halive => ?_,
        fun _ => ⟨start_semaphores hstart _ _ _, hnobody⟩⟩
      exact ⟨(h.working worker halive).1, rfl, (h.working worker halive).2.2⟩
  | openEmpty hpc heq =>
      rcases h.starting (by rw [hpc]; rfl) with ⟨hstart, hnobody⟩
      rw [heq]
      refine ⟨fun _ => h.mutex (by rw [hpc]; rfl), fun _ => h.full (by rw [hpc]; rfl),
        fun _ => rfl, fun worker halive => ?_,
        fun _ => ⟨start_semaphores hstart _ _ _, hnobody⟩⟩
      exact ⟨(h.working worker halive).1, (h.working worker halive).2.1, rfl⟩
  | fork k worker hpc heq =>
      have hmutex := h.mutex (by rw [hpc]; rfl)
      have hfull := h.full (by rw [hpc]; rfl)
      have hempty := h.empty (by rw [hpc]; rfl)
      rw [heq]
      -- The worker that is forked finds the three semaphores open.
      exact ⟨fun _ => hmutex, fun _ => hfull, fun _ => hempty,
        alive_update worker true (fun _ => ⟨hmutex, hfull, hempty⟩) h.working,
        fun hstarting => Bool.noConfusion hstarting⟩
  | work e queue halive hwork heq =>
      rw [heq]
      refine ⟨h.mutex, h.full, h.empty, h.working, fun hstarting => ?_⟩
      -- Nobody works while the run is starting.
      rw [(h.starting hstarting).2 e.worker] at halive
      exact Bool.noConfusion halive
  | killMain heq =>
      rw [heq]
      -- With `main` gone there is nothing it has opened; its workers may go on.
      exact ⟨fun hpast => Bool.noConfusion hpast, fun hpast => Bool.noConfusion hpast,
        fun hpast => Bool.noConfusion hpast, h.working, fun hpast => Bool.noConfusion hpast⟩
  | kill worker heq =>
      rw [heq]
      refine ⟨h.mutex, h.full, h.empty,
        alive_update worker false (fun hfalse => Bool.noConfusion hfalse) h.working,
        fun hstarting => ⟨(h.starting hstarting).1, fun other => ?_⟩⟩
      -- Who is killed was not alive while the run was starting.
      rw [← Bool.not_eq_true]
      intro hother
      refine alive_update worker false (fun hfalse => Bool.noConfusion hfalse)
        (fun other halive => ?_) other hother
      rw [(h.starting hstarting).2 other] at halive
      exact Bool.noConfusion halive

/-- With all semaphores open the view is the queue. -/
theorem view_of_made {w : World U P}
    (h : w.madeMutex = true ∧ w.madeFull = true ∧ w.madeEmpty = true) : w.view = w.queue := by
  unfold World.view
  rw [h.1, h.2.1, h.2.2]
  rfl

/-- The invariant of the queue is about the view only. -/
theorem good_of_view {w w' : World U P} (h : Good w) (hshape : Shape w')
    (hview : w'.view = w.view) : Good w' := by
  refine ⟨hshape, ?_, ?_⟩
  · rw [hview]
    exact h.counts
  · rw [hview]
    exact h.ring

/-- A run that is started after a clean one begins in order, and every other
    step keeps the view or is a step of the queue. -/
theorem good_step {w w' : World U P} {e : WorldEvent U P} (h : Good w) (hclean : CleanLaunch w e)
    (hstep : worldStep w e = some w') : Good w' := by
  have hshape := shape_step h.shape hstep
  cases worldStep_cases hstep with
  | launch habsent hnobody heq =>
      -- The semaphores that the last run leaves are those of an empty ring.
      have hout : Outside w.view := ⟨hclean.users, hclean.printers, hclean.empty⟩
      have hsems := (emptied_iff_outside h.counts).mpr hout
      have hstart : Start w'.view := by
        rw [heq]
        exact start_semaphores (start_relaunch _) _ _ _
      have hsems' : Emptied w'.view := by
        rw [heq]
        exact ⟨hsems.mutex, hsems.full, hsems.empty⟩
      exact ⟨hshape, counts_start hstart hsems', ring_start hstart⟩
  | openMutex hpc heq | openFull hpc heq | openEmpty hpc heq =>
      -- Opening a semaphore that is there leaves its value alone.
      exact good_of_view h hshape (by rw [heq]; rfl)
  | fork k worker hpc heq =>
      exact good_of_view h hshape (by rw [heq]; rfl)
  | work e queue halive hwork heq =>
      -- Who works has all semaphores, so the step is one of the queue.
      have hmade := h.shape.working _ halive
      have hview := view_of_made hmade
      have hview' : w'.view = queue := by
        rw [heq]
        exact view_of_made hmade
      have hcounts := h.counts
      have hring := h.ring
      rw [hview] at hcounts hring
      rw [← hview'] at hwork
      exact ⟨hshape, counts_step hcounts hwork, ring_step hcounts hring hwork⟩
  | killMain heq =>
      exact good_of_view h hshape (by rw [heq]; rfl)
  | kill worker heq =>
      exact good_of_view h hshape (by rw [heq]; rfl)

theorem restarted_of_good {w : World U P} (h : Good w) : Restarted w where
  begins := by
    intro hstarting
    rcases h.shape.starting hstarting with ⟨hstart, _⟩
    refine ⟨(emptied_iff_outside h.counts).mpr ⟨?_, ?_, ?_⟩, hstart.head, hstart.tail⟩
    -- All users begin outside,
    · intro u
      have hidle : w.view.user u = .idle := hstart.users u
      rw [hidle]
      rfl
    -- and so do all printers,
    · intro p
      have hwait : w.view.printer p = .waitFull := hstart.printers p
      rw [hwait]
      rfl
    -- and as many jobs are out as were put in.
    · exact congrArg List.length (hstart.dequeued.trans hstart.enqueued.symm)
  order := (fifo_of_ring h.counts h.ring).order
  free := by
    intro hzero
    have hmutex := h.counts.mutex
    rw [hzero, Nat.zero_add] at hmutex
    -- Somebody of this run accounts for the one that is missing.
    by_cases husers : 0 < tally UserPc.isCritical w.view.user
    · exact Or.inl (tally_pos.mp husers)
    · unfold State.inside at hmutex
      have hprinters : 0 < tally PrinterPc.isCritical w.view.printer := by omega
      exact Or.inr (tally_pos.mp hprinters)

/-- A run begins in order only after one that left nothing behind. -/
theorem clean_of_restarted {w w' : World U P} {e : WorldEvent U P} (h : Good w)
    (hstep : worldStep w e = some w') (hrestarted : Restarted w') : CleanLaunch w e := by
  cases worldStep_cases hstep with
  | launch habsent hnobody heq =>
      rcases hrestarted.begins (by rw [heq]; rfl) with ⟨hsems, _, _⟩
      rw [heq] at hsems
      -- A new run has the semaphores of the old one.
      have hsems' : Emptied w.view := ⟨hsems.mutex, hsems.full, hsems.empty⟩
      have hout := (emptied_iff_outside h.counts).mp hsems'
      exact ⟨hout.users, hout.printers, hout.empty⟩
  | _ => trivial

/-- For any history of runs killed at any point, every run begins in order,
    gets its own jobs in order and is not blocked by what was before, exactly
    if the program is only started after runs that left nothing behind. -/
theorem restart_safe_iff (es : List (WorldEvent U P)) (t : World U P)
    (hrun : exec worldStep (boot U P) es = some t) :
    Always worldStep Restarted (boot U P) es ↔ Meets worldStep CleanLaunch (boot U P) es :=
  always_iff_meets_of_good (fun _ h => restarted_of_good h)
    (fun _ _ _ h hclean hstep => good_step h hclean hstep)
    (fun _ _ _ h hstep hrestarted => clean_of_restarted h hstep hrestarted) good_boot hrun

/-- The first of some processes. -/
def first {n : Nat} : Fin (n + 1) := ⟨0, Nat.succ_pos n⟩

/-- The first user puts a job in, and the first printer takes it out. -/
def printJob (job : Job) : List (WorldEvent 3 2) :=
  .work (.submit first job) :: (List.replicate 6 (.work (.user first)) ++
    List.replicate 6 (.work (.printer first)))

/-- The program prints a job, is killed with all its workers and started again,
    and prints another one. -/
def cleanRun : List (WorldEvent 3 2) :=
  .launch :: (List.replicate 8 .main ++ printJob plainJob ++
    (List.finRange 3).map (fun u => .kill (.inl u)) ++
    (List.finRange 2).map (fun p => .kill (.inr p)) ++
    [.killMain, .launch] ++ List.replicate 8 .main ++ printJob otherJob)

theorem restart_safe_in_cleanRun :
    (exec worldStep (boot 3 2) cleanRun).any (fun w =>
      decide (w.queue.enqueued = [otherJob.bytes] ∧ w.queue.dequeued = [otherJob.bytes])) = true ∧
      Always worldStep Restarted (boot 3 2) cleanRun := by
  have hend : (exec worldStep (boot 3 2) cleanRun).any (fun w =>
      decide (w.queue.enqueued = [otherJob.bytes] ∧
        w.queue.dequeued = [otherJob.bytes])) = true := by
    decide +kernel
  rcases exists_of_exec_any hend with ⟨t, hrun, _⟩
  exact ⟨hend, (restart_safe_iff cleanRun t hrun).mpr (by decide +kernel)⟩

/-- Of three users, as in the program, the first puts a job in; then everybody
    is killed, and the program is started again. -/
def leftoverRun : List (WorldEvent 3 2) :=
  [.launch, .main, .main, .main, .main, .work (.submit first plainJob), .work (.user first),
    .work (.user first), .work (.user first), .work (.user first), .work (.user first),
    .work (.user first), .kill (.inl first), .killMain, .launch, .main, .main, .main]

/-- The second run begins with an empty queue and `sem_full` at one. -/
theorem leftover_job :
    ¬ ∀ w : World 3 2, Reaches worldStep (boot 3 2) w → Restarted w := by
  intro hall
  have hend : (exec worldStep (boot 3 2) leftoverRun).any (fun w =>
      decide (w.main = .forking 0 ∧ w.view.semFull = 1)) = true := by
    decide +kernel
  rcases exists_of_exec_any hend with ⟨w, hrun, hw⟩
  rcases of_decide_eq_true hw with ⟨hpc, hfull⟩
  have hbegins := (hall w ⟨leftoverRun, hrun⟩).begins (by rw [hpc]; rfl)
  rw [hbegins.1.full] at hfull
  exact absurd hfull Nat.zero_ne_one

end Print

end OsLabs
