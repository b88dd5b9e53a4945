import Mathlib.Logic.Function.Basic

/-!
# A Program that Reaps its Threads

`Funkcje/Mutex/main.c`: the main thread creates `n` threads, each of which ends
some time later, and joins them as they end. How many have ended and were not
joined yet is a counter under a mutex, and a condition variable says that it
has grown.

A step is a section under the mutex, or the part of one up to a call that
blocks, or a call. While the main thread has the mutex no other section takes
place. The main thread may be woken by nobody.

Left out are the time that the threads live, the messages, and failing calls.

## Main definitions

* `Place`, `ThreadState`, `Thread`: A thread, with how often it was joined.
* `MainPc`, `State`, `step`: The main thread, and the program.

## Theorems

* `step_move`: The steps, by what they do.
-/

namespace OsLabs

namespace Mutex

/-- Where a thread is: before its section under the mutex, before and after its
    broadcast, or at its end. -/
inductive Place where
  | uncreated
  | working
  | broadcasting
  | returning
  | exited
  deriving DecidableEq

/-- `enum tstate` -/
inductive ThreadState where
  | alive
  | terminated
  | joined
  deriving DecidableEq

/-- An entry of `thread`, with the place of the thread and the number of
    successful calls of `pthread_join` for it. -/
structure Thread where
  place : Place
  state : ThreadState
  joins : Nat

/-- Where the main thread is. -/
inductive MainPc (n : Nat) where
  /-- In the loop that creates the threads. -/
  | creating (idx : Nat)
  /-- At the test of the outer loop. -/
  | testing
  | locking
  /-- At the test of the inner loop, with the mutex. -/
  | checking
  /-- Asleep on `threadDied`. -/
  | asleep
  | woken
  /-- In the loop over the threads, with the mutex. -/
  | scanning (idx : Nat)
  /-- In `pthread_join`, with the mutex. -/
  | joining (i : Fin n)
  | unlocking
  | finished
  deriving DecidableEq

/-- The main thread has the mutex. -/
def MainPc.holds {n : Nat} : MainPc n → Bool
  | .checking | .scanning _ | .joining _ | .unlocking => true
  | _ => false

/-- The main thread has set `numLive`. -/
def MainPc.counted {n : Nat} : MainPc n → Bool
  | .creating _ => false
  | _ => true

/-- The threads and the shared variables. -/
structure State (n : Nat) where
  main : MainPc n
  threads : Fin n → Thread
  totThreads : Nat
  numLive : Int
  numUnjoined : Int

/-- The array is all zero in the beginning. -/
def init (n : Nat) : State n := ⟨.creating 0, fun _ => ⟨.uncreated, .alive, 0⟩, 0, 0, 0⟩

variable {n : Nat}

namespace State

/-- A thread comes to another place. -/
def moved (s : State n) (i : Fin n) (place : Place) : Fin n → Thread :=
  Function.update s.threads i { s.threads i with place }

/-- Thread `i` counts itself as ended. -/
def terminated (s : State n) (i : Fin n) : State n :=
  { s with
    threads := Function.update s.threads i
      { s.threads i with place := .broadcasting, state := .terminated }
    numUnjoined := s.numUnjoined + 1 }

/-- Thread `i` was joined, and is counted as joined. -/
def reaped (s : State n) (i : Fin n) : State n :=
  { s with
    threads := Function.update s.threads i
      { s.threads i with state := .joined, joins := (s.threads i).joins + 1 }
    numLive := s.numLive - 1
    numUnjoined := s.numUnjoined - 1 }

/-- The next step of the main thread. -/
def mainStep (s : State n) : Option (State n) :=
  match s.main with
  | .creating idx =>
      if h : idx < n then
        some { s with
          main := .creating (idx + 1)
          threads := Function.update s.threads ⟨idx, h⟩
            { s.threads ⟨idx, h⟩ with place := .working, state := .alive } }
      else some { s with main := .testing, totThreads := n, numLive := n }
  | .testing => some { s with main := if 0 < s.numLive then .locking else .finished }
  | .locking => some { s with main := .checking }
  | .checking => some { s with main := if s.numUnjoined = 0 then .asleep else .scanning 0 }
  | .asleep => none
  | .woken => some { s with main := .checking }
  | .scanning idx =>
      if idx < s.totThreads then
        if h : idx < n then
          some { s with
            main := if (s.threads ⟨idx, h⟩).state = .terminated then .joining ⟨idx, h⟩
              else .scanning (idx + 1) }
        else none
      else some { s with main := .unlocking }
  | .joining i =>
      if (s.threads i).place = .exited then
        some { s.reaped i with main := .scanning (i.val + 1) }
      else none
  | .unlocking => some { s with main := .testing }
  | .finished => none

/-- `threadFunc` -/
def threadStep (s : State n) (i : Fin n) : Option (State n) :=
  match (s.threads i).place with
  | .uncreated => none
  | .working =>
      if s.main.holds then none else some (s.terminated i)
  | .broadcasting =>
      some { s with
        main := if s.main = .asleep then .woken else s.main
        threads := s.moved i .returning }
  | .returning => some { s with threads := s.moved i .exited }
  | .exited => none

end State

inductive Event (n : Nat) where
  | main
  | thread (i : Fin n)
  /-- `pthread_cond_wait` returns without a broadcast. -/
  | spurious
  deriving DecidableEq

/-- A step of the main thread, or of another. -/
def step (s : State n) : Event n → Option (State n)
  | .main => s.mainStep
  | .thread i => s.threadStep i
  | .spurious => if s.main = .asleep then some { s with main := .woken } else none

/-- Where the main thread goes without changing anything. -/
inductive Goes (s : State n) : MainPc n → Prop where
  | enter (hmain : s.main = .testing) (hlive : 0 < s.numLive) : Goes s .locking
  | leave (hmain : s.main = .testing) (hlive : ¬ 0 < s.numLive) : Goes s .finished
  | lock (hmain : s.main = .locking) : Goes s .checking
  | sleep (hmain : s.main = .checking) (hnone : s.numUnjoined = 0) : Goes s .asleep
  | wake (hmain : s.main = .woken) : Goes s .checking
  | begin (hmain : s.main = .checking) (hsome : s.numUnjoined ≠ 0) : Goes s (.scanning 0)
  | pick (i : Fin n) (hmain : s.main = .scanning i) (hlt : i.val < s.totThreads)
      (hstate : (s.threads i).state = .terminated) : Goes s (.joining i)
  | skip (i : Fin n) (hmain : s.main = .scanning i) (hlt : i.val < s.totThreads)
      (hstate : (s.threads i).state ≠ .terminated) : Goes s (.scanning (i.val + 1))
  | complete (idx : Nat) (hmain : s.main = .scanning idx) (hge : ¬ idx < s.totThreads) :
      Goes s .unlocking
  | unlock (hmain : s.main = .unlocking) : Goes s .testing

/-- The steps, by what they do. -/
inductive Move (s : State n) : Event n → State n → Prop where
  | goes (pc : MainPc n) (h : Goes s pc) : Move s .main { s with main := pc }
  | create (i : Fin n) (hmain : s.main = .creating i) :
      Move s .main { s with
        main := .creating (i.val + 1)
        threads := Function.update s.threads i
          { s.threads i with place := .working, state := .alive } }
  | count (idx : Nat) (hmain : s.main = .creating idx) (hge : ¬ idx < n) :
      Move s .main { s with main := .testing, totThreads := n, numLive := n }
  | join (i : Fin n) (hmain : s.main = .joining i) (hexited : (s.threads i).place = .exited) :
      Move s .main { s.reaped i with main := .scanning (i.val + 1) }
  | spurious (hmain : s.main = .asleep) : Move s .spurious { s with main := .woken }
  | terminate (i : Fin n) (hplace : (s.threads i).place = .working)
      (hfree : s.main.holds = false) : Move s (.thread i) (s.terminated i)
  | broadcast (i : Fin n) (hplace : (s.threads i).place = .broadcasting) :
      Move s (.thread i) { s with
        main := if s.main = .asleep then .woken else s.main
        threads := s.moved i .returning }
  | exit (i : Fin n) (hplace : (s.threads i).place = .returning) :
      Move s (.thread i) { s with threads := s.moved i .exited }

theorem mainStep_move {s s' : State n} (h : s.mainStep = some s') : Move s .main s' := by
  rw [State.mainStep] at h
  split at h
  case h_1 idx hmain =>
    -- Creating, or counting what has been created.
    split at h
    · rename_i hlt
      rw [← Option.some.inj h]
      exact .create ⟨idx, hlt⟩ hmain
    · rename_i hge
      rw [← Option.some.inj h]
      exact .count idx hmain hge
  case h_2 hmain =>
    rw [← Option.some.inj h]
    -- The two loops test their counters each on entry and after every turn.
    by_cases hlive : 0 < s.numLive
    · rw [if_pos hlive]
      exact .goes _ (.enter hmain hlive)
    · rw [if_neg hlive]
      exact .goes _ (.leave hmain hlive)
  case h_3 hmain =>
    rw [← Option.some.inj h]
    exact .goes _ (.lock hmain)
  case h_4 hmain =>
    rw [← Option.some.inj h]
    -- With nobody to join it sleeps, and otherwise it goes over the threads.
    by_cases hnone : s.numUnjoined = 0
    · rw [if_pos hnone]
      exact .goes _ (.sleep hmain hnone)
    · rw [if_neg hnone]
      exact .goes _ (.begin hmain hnone)
  case h_5 => cases h
  case h_6 hmain =>
    rw [← Option.some.inj h]
    exact .goes _ (.wake hmain)
  case h_7 idx hmain =>
    split at h
    · rename_i hlt
      split at h
      · rename_i hbound
        rw [← Option.some.inj h]
        -- A thread that has terminated is joined, any other passed over.
        by_cases hstate : (s.threads ⟨idx, hbound⟩).state = .terminated
        · rw [if_pos hstate]
          exact .goes _ (.pick ⟨idx, hbound⟩ hmain hlt hstate)
        · rw [if_neg hstate]
          exact .goes _ (.skip ⟨idx, hbound⟩ hmain hlt hstate)
      · cases h
    · rename_i hge
      rw [← Option.some.inj h]
      exact .goes _ (.complete idx hmain hge)
  case h_8 i hmain =>
    split at h
    -- The join waits until the thread has exited.
    · rename_i hexited
      rw [← Option.some.inj h]
      exact .join i hmain hexited
    · cases h
  case h_9 hmain =>
    rw [← Option.some.inj h]
    exact .goes _ (.unlock hmain)
  case h_10 => cases h

theorem threadStep_move {s s' : State n} {i : Fin n} (h : s.threadStep i = some s') :
    Move s (.thread i) s' := by
  rw [State.threadStep] at h
  split at h
  case h_1 => cases h
  case h_2 hplace =>
    split at h
    · cases h
    -- The section is entered only while the main thread does not hold the mutex.
    · rename_i hfree
      rw [← Option.some.inj h]
      exact .terminate i hplace (eq_false_of_ne_true hfree)
  case h_3 hplace =>
    rw [← Option.some.inj h]
    exact .broadcast i hplace
  case h_4 hplace =>
    rw [← Option.some.inj h]
    exact .exit i hplace
  case h_5 => cases h

theorem step_move {s s' : State n} {e : Event n} (h : step s e = some s') : Move s e s' := by
  cases e with
  | main => exact mainStep_move h
  | thread i => exact threadStep_move h
  | spurious =>
      rw [step] at h
      split at h
      · rename_i hmain
        rw [← Option.some.inj h]
        exact .spurious hmain
      · cases h

end Mutex

end OsLabs
