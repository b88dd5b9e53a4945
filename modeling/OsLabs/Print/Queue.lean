import OsLabs.Library.CString
import OsLabs.Library.Machine
import OsLabs.Library.Semaphore

/-!
# The Print Queue

`cw08/assignment/main.c`, without its `main`: `U` users and `P` printers
share a ring of `QUEUE_SIZE` jobs, guarded by three semaphores.

A step is one operation on a semaphore or one statement of a critical
section. The order in which jobs go through the queue is the order of the
`strcpy` calls, and two logs record it: what was copied into the ring, and
what was copied out.

The ring is an unbounded array here, so that an index past its end would be
noticed. Left out are what the processes print and how long they sleep, and a
`sem_wait` that a signal interrupts.

## Main definitions

* `Job`: A job, ten letters.
* `UserPc`, `PrinterPc`: Where a process stands.
* `State`, `fresh`: The shared memory, the semaphores, the processes, the logs.
* `userStep`: The next step in `enqueue_job`.
* `printerStep`: The next step in `dequeue_job`.
* `Event`, `step`: The steps of all processes.

## Theorems

* `userStep_cases`, `printerStep_cases`: What the steps do.
-/

namespace OsLabs

namespace Print

/-- `QUEUE_SIZE` -/
def queueSize : Nat := 7

/-- `JOB_LENGTH` -/
def jobLength : Nat := 10

/-- What `user_process` makes up: `JOB_LENGTH` letters. -/
structure Job where
  bytes : Bytes
  length_bytes : bytes.length = jobLength
  letters : ∀ b ∈ bytes, 97 ≤ b ∧ b ≤ 122

/-- Where a user stands: between two jobs, or in `enqueue_job` before the
    operation named. -/
inductive UserPc where
  | idle
  | waitEmpty (job : Job)
  | waitMutex (job : Job)
  | copy (job : Job)
  | advance
  | postMutex
  | postFull

/-- Where a printer stands: about to call `dequeue_job`, which begins with
    `sem_wait(sem_full)`, or in it before the operation named. -/
inductive PrinterPc where
  | waitFull
  | waitMutex
  | copy
  | advance
  | postMutex
  | postEmpty
  deriving DecidableEq

/-- The ring with its indices, the values of the semaphores, the processes,
    and the jobs in the order in which they were copied in and out. -/
structure State (U P : Nat) where
  jobs : Nat → Bytes
  head : Nat
  tail : Nat
  semMutex : Nat
  semFull : Nat
  semEmpty : Nat
  user : Fin U → UserPc
  printer : Fin P → PrinterPc
  enqueued : List Bytes
  dequeued : List Bytes

/-- What `main` sets up when nothing was there before. -/
def fresh (U P : Nat) : State U P where
  jobs := fun _ => []
  head := 0
  tail := 0
  semMutex := 1
  semFull := 0
  semEmpty := queueSize
  user := fun _ => .idle
  printer := fun _ => .waitFull
  enqueued := []
  dequeued := []

variable {U P : Nat}

namespace State

def setUser (s : State U P) (u : Fin U) (pc : UserPc) : State U P :=
  { s with user := Function.update s.user u pc }

def setPrinter (s : State U P) (p : Fin P) (pc : PrinterPc) : State U P :=
  { s with printer := Function.update s.printer p pc }

/-- `strcpy(queue->jobs[queue->tail], job)` -/
def copyIn (s : State U P) (job : Job) : State U P :=
  { s with
    jobs := Function.update s.jobs s.tail job.bytes
    enqueued := s.enqueued ++ [job.bytes] }

/-- `strcpy(job_buf, queue->jobs[queue->head])` -/
def copyOut (s : State U P) : State U P :=
  { s with dequeued := s.dequeued ++ [s.jobs s.head] }

end State

/-- The next step of a user in `enqueue_job`. -/
def userStep (s : State U P) (u : Fin U) : Option (State U P) :=
  match s.user u with
  | .idle => none
  | .waitEmpty job =>
      (semWait s.semEmpty).map fun v => { s with semEmpty := v }.setUser u (.waitMutex job)
  | .waitMutex job =>
      (semWait s.semMutex).map fun v => { s with semMutex := v }.setUser u (.copy job)
  | .copy job => some ((s.copyIn job).setUser u .advance)
  | .advance => some ({ s with tail := (s.tail + 1) % queueSize }.setUser u .postMutex)
  | .postMutex => some ({ s with semMutex := semPost s.semMutex }.setUser u .postFull)
  | .postFull => some ({ s with semFull := semPost s.semFull }.setUser u .idle)

/-- The next step of a printer in `dequeue_job`. -/
def printerStep (s : State U P) (p : Fin P) : Option (State U P) :=
  match s.printer p with
  | .waitFull =>
      (semWait s.semFull).map fun v => { s with semFull := v }.setPrinter p .waitMutex
  | .waitMutex =>
      (semWait s.semMutex).map fun v => { s with semMutex := v }.setPrinter p .copy
  | .copy => some (s.copyOut.setPrinter p .advance)
  | .advance => some ({ s with head := (s.head + 1) % queueSize }.setPrinter p .postMutex)
  | .postMutex => some ({ s with semMutex := semPost s.semMutex }.setPrinter p .postEmpty)
  | .postEmpty => some ({ s with semEmpty := semPost s.semEmpty }.setPrinter p .waitFull)

/-- A user makes up a job and calls `enqueue_job`, or a process takes its
    next step. -/
inductive Event (U P : Nat) where
  | submit (u : Fin U) (job : Job)
  | user (u : Fin U)
  | printer (p : Fin P)

def step (s : State U P) : Event U P → Option (State U P)
  | .submit u job =>
      match s.user u with
      | .idle => some (s.setUser u (.waitEmpty job))
      | _ => none
  | .user u => userStep s u
  | .printer p => printerStep s p

/-- What the step of a user does. -/
inductive UserTurn (s : State U P) (u : Fin U) (s' : State U P) : Prop where
  | waitEmpty (job : Job) (v : Nat) (hpc : s.user u = .waitEmpty job) (hv : s.semEmpty = v + 1)
      (heq : s' = { s with semEmpty := v }.setUser u (.waitMutex job))
  | waitMutex (job : Job) (v : Nat) (hpc : s.user u = .waitMutex job) (hv : s.semMutex = v + 1)
      (heq : s' = { s with semMutex := v }.setUser u (.copy job))
  | copy (job : Job) (hpc : s.user u = .copy job) (heq : s' = (s.copyIn job).setUser u .advance)
  | advance (hpc : s.user u = .advance)
      (heq : s' = { s with tail := (s.tail + 1) % queueSize }.setUser u .postMutex)
  | postMutex (hpc : s.user u = .postMutex)
      (heq : s' = { s with semMutex := s.semMutex + 1 }.setUser u .postFull)
  | postFull (hpc : s.user u = .postFull)
      (heq : s' = { s with semFull := s.semFull + 1 }.setUser u .idle)

theorem userStep_cases {s s' : State U P} {u : Fin U} (h : userStep s u = some s') :
    UserTurn s u s' := by
  unfold userStep at h
  cases hpc : s.user u with
  | idle =>
      rw [hpc] at h
      -- There is nothing to do without a job.
      exact absurd h (by simp only [reduceCtorEq, not_false_eq_true])
  | waitEmpty job =>
      rw [hpc] at h
      rcases Option.map_eq_some_iff.mp h with ⟨v, hv, heq⟩
      -- The two waits pass only where the semaphore lets them.
      exact .waitEmpty job v hpc (semWait_eq_some.mp hv) heq.symm
  | waitMutex job =>
      rw [hpc] at h
      rcases Option.map_eq_some_iff.mp h with ⟨v, hv, heq⟩
      exact .waitMutex job v hpc (semWait_eq_some.mp hv) heq.symm
  | copy job =>
      -- The rest goes through in any case.
      rw [hpc, Option.some.injEq] at h
      exact .copy job hpc h.symm
  | advance =>
      rw [hpc, Option.some.injEq] at h
      exact .advance hpc h.symm
  | postMutex =>
      rw [hpc, Option.some.injEq] at h
      exact .postMutex hpc h.symm
  | postFull =>
      rw [hpc, Option.some.injEq] at h
      exact .postFull hpc h.symm

/-- What the step of a printer does. -/
inductive PrinterTurn (s : State U P) (p : Fin P) (s' : State U P) : Prop where
  | waitFull (v : Nat) (hpc : s.printer p = .waitFull) (hv : s.semFull = v + 1)
      (heq : s' = { s with semFull := v }.setPrinter p .waitMutex)
  | waitMutex (v : Nat) (hpc : s.printer p = .waitMutex) (hv : s.semMutex = v + 1)
      (heq : s' = { s with semMutex := v }.setPrinter p .copy)
  | copy (hpc : s.printer p = .copy) (heq : s' = s.copyOut.setPrinter p .advance)
  | advance (hpc : s.printer p = .advance)
      (heq : s' = { s with head := (s.head + 1) % queueSize }.setPrinter p .postMutex)
  | postMutex (hpc : s.printer p = .postMutex)
      (heq : s' = { s with semMutex := s.semMutex + 1 }.setPrinter p .postEmpty)
  | postEmpty (hpc : s.printer p = .postEmpty)
      (heq : s' = { s with semEmpty := s.semEmpty + 1 }.setPrinter p .waitFull)

theorem printerStep_cases {s s' : State U P} {p : Fin P} (h : printerStep s p = some s') :
    PrinterTurn s p s' := by
  unfold printerStep at h
  cases hpc : s.printer p with
  | waitFull =>
      rw [hpc] at h
      rcases Option.map_eq_some_iff.mp h with ⟨v, hv, heq⟩
      -- As for the user, two waits and four operations that do not wait.
      exact .waitFull v hpc (semWait_eq_some.mp hv) heq.symm
  | waitMutex =>
      rw [hpc] at h
      rcases Option.map_eq_some_iff.mp h with ⟨v, hv, heq⟩
      exact .waitMutex v hpc (semWait_eq_some.mp hv) heq.symm
  | copy =>
      rw [hpc, Option.some.injEq] at h
      exact .copy hpc h.symm
  | advance =>
      rw [hpc, Option.some.injEq] at h
      exact .advance hpc h.symm
  | postMutex =>
      rw [hpc, Option.some.injEq] at h
      exact .postMutex hpc h.symm
  | postEmpty =>
      rw [hpc, Option.some.injEq] at h
      exact .postEmpty hpc h.symm

theorem submit_cases {s s' : State U P} {u : Fin U} {job : Job}
    (h : step s (.submit u job) = some s') :
    s.user u = .idle ∧ s' = s.setUser u (.waitEmpty job) := by
  simp only [step] at h
  cases hpc : s.user u with
  | idle =>
      rw [hpc, Option.some.injEq] at h
      exact ⟨rfl, h.symm⟩
  | _ =>
      rw [hpc] at h
      exact absurd h (by simp only [reduceCtorEq, not_false_eq_true])

end Print

end OsLabs
