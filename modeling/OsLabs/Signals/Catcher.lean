import OsLabs.Library.Machine
import Mathlib.Logic.Function.Basic

/-!
# Signals with Values

`cw05/assignment/catcher.c` and `sender.c`. A sender sends a number with
`sigqueue` and waits in `pause` for a signal in return. The catcher acts on the
number in its handler, and the handler answers.

`SIGUSR1` is a standard signal. One instance of it can be pending for a
process, with the value and the sender it came with; another one that is sent
meanwhile is dropped, and `sigqueue` reports success all the same. While its
handler runs the signal is blocked, so it stays pending until the handler has
returned.

The statements between which a signal can be delivered are steps of their own:
a sender sends, prints and pauses, and its handler may run in between; the
handler of the catcher is called, acts, and answers. A catcher that has called
`exit` still exists until its parent has waited for it, and still receives
signals.

Left out are what the programs print, the `main` of the catcher, which a
handler interrupts wherever it is, and the `SIGINT` that the catcher can be
told to ignore.

## Main definitions

* `Disposition`, `Life`, `Handler`, `Catcher`: The catcher.
* `SenderPc`, `Sender`: A sender.
* `State`, `State.start`: Both programs, and what is remembered of the signals.
* `sigHandler`: The handler of the catcher.
* `sigqueue`, `kill`: Sending a value, and the answer.
* `Event`, `step`: The steps of all processes.
* `Move`: The steps, by what they do.
* `Engaged`: A sender has one signal at most that is not answered.

## Theorems

* `step_move`: Every step is a move.
* `engaged_step`: Senders stay engaged.
-/

namespace OsLabs

namespace Signals

/-- What a process does with `SIGINT`. -/
inductive Disposition where
  | default
  | ignore
  | intHandler
  deriving DecidableEq

/-- Whether a process runs, has exited, or is gone for good. -/
inductive Life where
  | running
  | zombie
  | gone
  deriving DecidableEq

/-- Where the handler of the catcher stands: it does not run, it has been
    called, or it is about to answer. -/
inductive Handler (ι : Type) where
  | idle
  | called (sender : ι) (val : Int)
  | answering (sender : ι) (val : Int)
  deriving DecidableEq

/-- The variables of the catcher, the signal that is pending for it, and its
    handler. -/
structure Catcher (ι : Type) where
  changes : Nat
  currentType : Int
  timerRunning : Bool
  onInterrupt : Disposition
  pending : Option (ι × Int)
  handler : Handler ι
  life : Life

/-- Where a sender stands: in `scanf`, before `sigqueue`, before `printf`,
    before `pause`, in it, or at the end. -/
inductive SenderPc where
  | reading
  | sending (val : Int)
  | printing
  | pausing
  | paused
  | finished
  deriving DecidableEq

/-- A sender: whether an answer is pending for it, how often it has called
    `sigqueue` and how often its handler has run. -/
structure Sender where
  pc : SenderPc
  answer : Bool
  queued : Nat
  received : Nat

/-- The catcher and the senders, and the signals in the order in which
    `sigqueue` has accepted them, the handler was called with them, and it
    answered them. -/
structure State (ι : Type) where
  catcher : Catcher ι
  senders : ι → Sender
  accepted : List (ι × Int)
  handled : List (ι × Int)
  answered : List (ι × Int)

variable {ι : Type}

/-- All programs have been started. -/
def State.start : State ι where
  catcher := ⟨0, 0, false, .default, none, .idle, .running⟩
  senders := fun _ => ⟨.reading, false, 0, 0⟩
  accepted := []
  handled := []
  answered := []

/-- `if (val != current_type)` -/
def changeType (c : Catcher ι) (val : Int) : Catcher ι :=
  if val ≠ c.currentType then
    { c with currentType := val, changes := c.changes + 1, timerRunning := decide (val = 2) }
  else c

/-- `sig_handler` of the catcher, up to the answer. Exiting takes what is
    pending with it. -/
def sigHandler (c : Catcher ι) (sender : ι) (val : Int) : Catcher ι :=
  let c := changeType c val
  if c.currentType = 3 then { c with onInterrupt := .ignore, handler := .answering sender val }
  else if c.currentType = 4 then
    { c with onInterrupt := .intHandler, handler := .answering sender val }
  else if c.currentType = 5 then { c with life := .zombie, handler := .idle, pending := none }
  else { c with handler := .answering sender val }

variable [DecidableEq ι]

def State.setSender (s : State ι) (i : ι) (a : Sender) : State ι :=
  { s with senders := Function.update s.senders i a }

def State.setPc (s : State ι) (i : ι) (pc : SenderPc) : State ι :=
  s.setSender i { s.senders i with pc := pc }

/-- `sigqueue`: the value is pending, or dropped if one is pending already. To
    a catcher that does not exist any more nothing is sent. -/
def sigqueue (s : State ι) (i : ι) (val : Int) : State ι :=
  match s.catcher.life with
  | .running =>
      { s with
        catcher := { s.catcher with pending := s.catcher.pending.or (some (i, val)) }
        accepted := s.accepted ++ [(i, val)] }
  | .zombie => { s with accepted := s.accepted ++ [(i, val)] }
  | .gone => s

/-- `kill(sender_pid, SIGUSR1)`, which nobody gets who has finished. -/
def kill (s : State ι) (i : ι) (val : Int) : State ι :=
  if (s.senders i).pc = .finished then s
  else
    { s.setSender i { s.senders i with answer := true } with answered := s.answered ++ [(i, val)] }

/-- What can happen: a sender reads a value or the end of its input, goes
    through its loop, or runs its handler; the handler of the catcher is
    called, acts, or answers; and an exited catcher is waited for. -/
inductive Event (ι : Type) where
  | type (i : ι) (val : Int)
  | eof (i : ι)
  | queue (i : ι)
  | print (i : ι)
  | pause (i : ι)
  | receive (i : ι)
  | deliver
  | act
  | answer
  | reap

/-- A step of one of the processes. -/
def step (s : State ι) : Event ι → Option (State ι)
  | .type i val => match (s.senders i).pc with
    | .reading => some (s.setPc i (if val < 1 ∨ val > 5 then .reading else .sending val))
    | _ => none
  | .eof i => match (s.senders i).pc with
    | .reading => some (s.setPc i .finished)
    | _ => none
  | .queue i => match (s.senders i).pc with
    | .sending val =>
        some ((sigqueue s i val).setSender i
          { s.senders i with pc := .printing, queued := (s.senders i).queued + 1 })
    | _ => none
  | .print i => match (s.senders i).pc with
    | .printing => some (s.setPc i .pausing)
    | _ => none
  | .pause i => match (s.senders i).pc with
    | .pausing => some (s.setPc i .paused)
    | _ => none
  | .receive i =>
      if (s.senders i).answer ∧ (s.senders i).pc ≠ .finished then
        some (s.setSender i { s.senders i with
          answer := false
          received := (s.senders i).received + 1
          pc := if (s.senders i).pc = .paused then .reading else (s.senders i).pc })
      else none
  | .deliver => match s.catcher.life, s.catcher.handler, s.catcher.pending with
    | .running, .idle, some (i, val) =>
        some { s with
          catcher := { s.catcher with pending := none, handler := .called i val }
          handled := s.handled ++ [(i, val)] }
    | _, _, _ => none
  | .act => match s.catcher.handler with
    | .called i val => some { s with catcher := sigHandler s.catcher i val }
    | _ => none
  | .answer => match s.catcher.handler with
    | .answering i val =>
        some { kill s i val with catcher := { s.catcher with handler := .idle } }
    | _ => none
  | .reap => match s.catcher.life with
    | .zombie => some { s with catcher := { s.catcher with life := .gone } }
    | _ => none

/-- The steps, by what they do. -/
inductive Move (s : State ι) : Event ι → State ι → Prop where
  | type (i : ι) (val : Int) (hpc : (s.senders i).pc = .reading) :
      Move s (.type i val) (s.setPc i (if val < 1 ∨ val > 5 then .reading else .sending val))
  | eof (i : ι) (hpc : (s.senders i).pc = .reading) : Move s (.eof i) (s.setPc i .finished)
  | queue (i : ι) (val : Int) (hpc : (s.senders i).pc = .sending val) :
      Move s (.queue i) ((sigqueue s i val).setSender i
        { s.senders i with pc := .printing, queued := (s.senders i).queued + 1 })
  | print (i : ι) (hpc : (s.senders i).pc = .printing) : Move s (.print i) (s.setPc i .pausing)
  | pause (i : ι) (hpc : (s.senders i).pc = .pausing) : Move s (.pause i) (s.setPc i .paused)
  | receive (i : ι) (hanswer : (s.senders i).answer = true)
      (hpc : (s.senders i).pc ≠ .finished) :
      Move s (.receive i) (s.setSender i { s.senders i with
        answer := false
        received := (s.senders i).received + 1
        pc := if (s.senders i).pc = .paused then .reading else (s.senders i).pc })
  | deliver (i : ι) (val : Int) (hlife : s.catcher.life = .running)
      (hidle : s.catcher.handler = .idle) (hpending : s.catcher.pending = some (i, val)) :
      Move s .deliver { s with
        catcher := { s.catcher with pending := none, handler := .called i val }
        handled := s.handled ++ [(i, val)] }
  | act (i : ι) (val : Int) (hcalled : s.catcher.handler = .called i val) :
      Move s .act { s with catcher := sigHandler s.catcher i val }
  | answer (i : ι) (val : Int) (hanswering : s.catcher.handler = .answering i val) :
      Move s .answer { kill s i val with catcher := { s.catcher with handler := .idle } }
  | reap (hlife : s.catcher.life = .zombie) :
      Move s .reap { s with catcher := { s.catcher with life := .gone } }

theorem step_move {s s' : State ι} {e : Event ι} (h : step s e = some s') : Move s e s' := by
  cases e with
  | type i val =>
      -- A value outside 1 to 5 is refused, and asked for again.
      simp only [step] at h
      -- Each step below is possible at one place only, and the match says at which.
      split at h
      · rename_i hpc
        rw [← Option.some.inj h]
        exact .type i val hpc
      · exact absurd h (by simp only [reduceCtorEq, not_false_eq_true])
  | eof i =>
      simp only [step] at h
      split at h
      · rename_i hpc
        rw [← Option.some.inj h]
        exact .eof i hpc
      · exact absurd h (by simp only [reduceCtorEq, not_false_eq_true])
  | queue i =>
      -- `sigqueue` returns in any case, whether the value was kept or not.
      simp only [step] at h
      split at h
      · rename_i val hpc
        rw [← Option.some.inj h]
        exact .queue i val hpc
      · exact absurd h (by simp only [reduceCtorEq, not_false_eq_true])
  | print i =>
      simp only [step] at h
      split at h
      · rename_i hpc
        rw [← Option.some.inj h]
        exact .print i hpc
      · exact absurd h (by simp only [reduceCtorEq, not_false_eq_true])
  | pause i =>
      simp only [step] at h
      split at h
      · rename_i hpc
        rw [← Option.some.inj h]
        exact .pause i hpc
      · exact absurd h (by simp only [reduceCtorEq, not_false_eq_true])
  | receive i =>
      -- The handler runs wherever the sender stands, and wakes it if it is paused.
      simp only [step] at h
      by_cases hready : (s.senders i).answer ∧ (s.senders i).pc ≠ .finished
      · rw [if_pos hready, Option.some.injEq] at h
        rw [← h]
        exact .receive i hready.1 hready.2
      · rw [if_neg hready] at h
        exact absurd h (by simp only [reduceCtorEq, not_false_eq_true])
  | deliver =>
      -- The catcher runs, is in no handler, and something is pending.
      simp only [step] at h
      split at h
      · rename_i i val hlife hidle hpending
        rw [← Option.some.inj h]
        exact .deliver i val hlife hidle hpending
      · exact absurd h (by simp only [reduceCtorEq, not_false_eq_true])
  | act =>
      simp only [step] at h
      split at h
      · rename_i i val hcalled
        rw [← Option.some.inj h]
        exact .act i val hcalled
      · exact absurd h (by simp only [reduceCtorEq, not_false_eq_true])
  | answer =>
      simp only [step] at h
      split at h
      · rename_i i val hanswering
        rw [← Option.some.inj h]
        exact .answer i val hanswering
      · exact absurd h (by simp only [reduceCtorEq, not_false_eq_true])
  | reap =>
      simp only [step] at h
      split at h
      · rename_i hlife
        rw [← Option.some.inj h]
        exact .reap hlife
      · exact absurd h (by simp only [reduceCtorEq, not_false_eq_true])

omit [DecidableEq ι] in
theorem changeType_fields (c : Catcher ι) (val : Int) :
    (changeType c val).currentType = val ∧ (changeType c val).life = c.life ∧
      (changeType c val).pending = c.pending := by
  unfold changeType
  by_cases hval : val ≠ c.currentType
  · rw [if_pos hval]
    exact ⟨rfl, rfl, rfl⟩
  · rw [if_neg hval]
    exact ⟨(not_not.mp hval).symm, rfl, rfl⟩

omit [DecidableEq ι] in
/-- What the handler does for a 5, and what it does otherwise. -/
theorem sigHandler_cases (c : Catcher ι) (i : ι) (val : Int) :
    (val = 5 ∧ (sigHandler c i val).life = .zombie ∧ (sigHandler c i val).handler = .idle ∧
        (sigHandler c i val).pending = none) ∨
      (val ≠ 5 ∧ (sigHandler c i val).life = c.life ∧
        (sigHandler c i val).handler = .answering i val ∧
        (sigHandler c i val).pending = c.pending) := by
  have ⟨htype, hlife, hpending⟩ := changeType_fields c val
  unfold sigHandler
  -- With the type set to `val` the cases are those of `switch` in the source.
  simp only [htype]
  by_cases h5 : val = 5
  · rw [if_neg (by omega), if_neg (by omega), if_pos h5]
    exact .inl ⟨h5, rfl, rfl, rfl⟩
  · rw [if_neg h5]
    refine .inr ⟨h5, ?_⟩
    -- 3 and 4 set what is done with `SIGINT`; both answer like the rest.
    split
    · exact ⟨hlife, rfl, hpending⟩
    · split
      · exact ⟨hlife, rfl, hpending⟩
      · exact ⟨hlife, rfl, hpending⟩

/-- The handler has been called with a signal of this sender. -/
def Handler.serves (i : ι) : Handler ι → Bool
  | .idle => false
  | .called j _ => decide (i = j)
  | .answering j _ => decide (i = j)

/-- The signal of this sender is pending. -/
def Catcher.holds (c : Catcher ι) (i : ι) : Bool := c.pending.any fun p => decide (i = p.1)

/-- How many signals are under way between a sender and the catcher: pending,
    in the handler, or answered with the answer pending. -/
def State.outstanding (s : State ι) (i : ι) : Nat :=
  (s.catcher.holds i).toNat + (s.catcher.handler.serves i).toNat + (s.senders i).answer.toNat

/-- How many there may be, where the sender stands. -/
def SenderPc.room : SenderPc → Nat
  | .printing => 1
  | .pausing => 1
  | .paused => 1
  | _ => 0

theorem SenderPc.room_le_one (pc : SenderPc) : pc.room ≤ 1 := by
  cases pc <;> simp only [SenderPc.room, Nat.zero_le, Nat.le_refl]

/-- A sender has one signal under way at most, and none when it is about to
    send the next; and nothing is pending for a catcher that has exited. -/
structure Engaged (s : State ι) : Prop where
  outstanding : ∀ i, s.outstanding i ≤ (s.senders i).pc.room
  exited : s.catcher.life ≠ .running → s.catcher.handler = .idle ∧ s.catcher.pending = none

theorem engaged_start : Engaged (State.start : State ι) :=
  ⟨fun _ => Nat.le_refl _, fun h => absurd rfl h⟩

theorem senders_setSender_self (s : State ι) (i : ι) (a : Sender) :
    (s.setSender i a).senders i = a := by
  simp only [State.setSender, Function.update_self]

theorem senders_setSender_of_ne (s : State ι) {i j : ι} (a : Sender) (hij : j ≠ i) :
    (s.setSender i a).senders j = s.senders j := by
  simp only [State.setSender, ne_eq, hij, not_false_eq_true, Function.update_of_ne]

theorem catcher_setSender (s : State ι) (i : ι) (a : Sender) :
    (s.setSender i a).catcher = s.catcher :=
  rfl

/-- Being answered moves nobody. -/
theorem pc_kill (s : State ι) (i : ι) (val : Int) (j : ι) :
    ((kill s i val).senders j).pc = (s.senders j).pc := by
  unfold kill
  split
  · rfl
  -- Only the flag of the answer has changed, in the one that it is sent to.
  · by_cases hij : j = i
    · simp only [State.setSender, hij, Function.update_self]
    · simp only [State.setSender, ne_eq, hij, not_false_eq_true, Function.update_of_ne]

/-- A step of a sender concerns this sender. -/
theorem outstanding_setSender (s : State ι) (i : ι) (a : Sender) (j : ι) :
    (s.setSender i a).outstanding j =
      if j = i then (s.catcher.holds i).toNat + (s.catcher.handler.serves i).toNat + a.answer.toNat
      else s.outstanding j := by
  -- The catcher is the same, so only the flag of this sender can differ.
  by_cases hij : j = i
  · rw [if_pos hij, hij, State.outstanding, senders_setSender_self, catcher_setSender]
  · rw [if_neg hij, State.outstanding, senders_setSender_of_ne s a hij, catcher_setSender,
      State.outstanding]

theorem outstanding_setPc (s : State ι) (i : ι) (pc : SenderPc) (j : ι) :
    (s.setPc i pc).outstanding j = s.outstanding j := by
  rw [State.setPc, outstanding_setSender]
  by_cases hij : j = i
  · rw [if_pos hij, hij]
    rfl
  · rw [if_neg hij]

theorem engaged_setPc {s : State ι} {i : ι} {pc : SenderPc} (h : Engaged s)
    (hroom : (s.senders i).pc.room ≤ pc.room) : Engaged (s.setPc i pc) := by
  refine ⟨fun j => ?_, h.exited⟩
  rw [outstanding_setPc]
  refine Nat.le_trans (h.outstanding j) ?_
  -- The sender that moved has the room of its new place, the others theirs.
  by_cases hij : j = i
  · rw [hij, State.setPc, senders_setSender_self]
    exact hroom
  · have hsame : (s.setPc i pc).senders j = s.senders j := senders_setSender_of_ne s _ hij
    exact Nat.le_of_eq (by rw [hsame])

/-- A sender with room for none has none under way. -/
theorem Engaged.outstanding_eq_zero {s : State ι} (h : Engaged s) {i : ι}
    (hroom : (s.senders i).pc.room = 0) : s.outstanding i = 0 :=
  Nat.eq_zero_of_le_zero (hroom ▸ h.outstanding i)

omit [DecidableEq ι] in
theorem senders_sigqueue (s : State ι) (i : ι) (val : Int) :
    (sigqueue s i val).senders = s.senders := by
  unfold sigqueue
  split <;> rfl

/-- One more signal is under way than before at most, and it is the sender's
    own. -/
theorem outstanding_sigqueue (s : State ι) (i : ι) (val : Int) (j : ι) :
    (sigqueue s i val).outstanding j =
      if j = i ∧ s.catcher.life = .running ∧ s.catcher.pending = none then s.outstanding j + 1
      else s.outstanding j := by
  unfold sigqueue
  -- Only a catcher that runs keeps anything, and only in an empty slot.
  cases hlife : s.catcher.life with
  | running =>
      cases hpending : s.catcher.pending with
      | none =>
          by_cases hij : j = i
          · rw [if_pos ⟨hij, rfl, rfl⟩]
            simp only [State.outstanding, Catcher.holds, hpending, Option.none_or, Option.any_some,
              Option.any_none, hij, decide_true, Bool.toNat_true, Bool.toNat_false]
            omega
          · rw [if_neg (fun hall => hij hall.1)]
            simp only [State.outstanding, Catcher.holds, hpending, Option.none_or, Option.any_some,
              Option.any_none, hij, decide_false]
      | some p =>
          -- The slot is taken: the value is dropped, and nothing is under way but what was.
          rw [if_neg (fun hall => absurd hall.2.2 (Option.some_ne_none p))]
          simp only [State.outstanding, Catcher.holds, hpending, Option.some_or]
  | zombie =>
      rw [if_neg (fun hall => by cases hall.2.1)]
      rfl
  | gone => rw [if_neg (fun hall => by cases hall.2.1)]

theorem outstanding_queue (s : State ι) (i : ι) (val : Int) (j : ι) :
    ((sigqueue s i val).setSender i
        { s.senders i with pc := .printing, queued := (s.senders i).queued + 1 }).outstanding j =
      if j = i ∧ s.catcher.life = .running ∧ s.catcher.pending = none then s.outstanding j + 1
      else s.outstanding j := by
  rw [outstanding_setSender, ← outstanding_sigqueue s i val j]
  by_cases hij : j = i
  · rw [if_pos hij, hij, State.outstanding, senders_sigqueue]
  · rw [if_neg hij]

/-- The answer is under way no longer when the sender has received it. -/
theorem outstanding_receive (s : State ι) {i : ι} (n : Nat) (pc : SenderPc)
    (hanswer : (s.senders i).answer = true) (j : ι) :
    (s.setSender i ⟨pc, false, (s.senders i).queued, n⟩).outstanding j
        + (if j = i then 1 else 0) = s.outstanding j := by
  rw [outstanding_setSender]
  by_cases hij : j = i
  · rw [if_pos hij, if_pos hij, hij, State.outstanding, hanswer]
    rfl
  · rw [if_neg hij, if_neg hij, Nat.add_zero]

/-- A signal that is delivered stays under way. -/
theorem outstanding_deliver {s : State ι} {i : ι} {val : Int} (hidle : s.catcher.handler = .idle)
    (hpending : s.catcher.pending = some (i, val)) (j : ι) :
    State.outstanding { s with
        catcher := { s.catcher with pending := none, handler := .called i val }
        handled := s.handled ++ [(i, val)] } j = s.outstanding j := by
  simp only [State.outstanding, Catcher.holds, hpending, hidle, Handler.serves, Option.any_none,
    Option.any_some, Bool.toNat_false]
  omega

/-- A 5 is under way no longer when the handler acts on it, and neither is
    what was pending then. -/
theorem outstanding_act {s : State ι} {i : ι} {val : Int}
    (hcalled : s.catcher.handler = .called i val) (j : ι) :
    State.outstanding { s with catcher := sigHandler s.catcher i val } j =
      if val = 5 then (s.senders j).answer.toNat else s.outstanding j := by
  -- Exiting takes the pending one too, so only answers are left.
  rcases sigHandler_cases s.catcher i val with ⟨h5, _, hidle, hnone⟩ | ⟨h5, _, hanswering, hsame⟩
  · rw [if_pos h5]
    simp only [State.outstanding, Catcher.holds, hidle, hnone, Handler.serves, Option.any_none,
      Bool.toNat_false, Nat.zero_add]
  · rw [if_neg h5]
    simp only [State.outstanding, Catcher.holds, hanswering, hsame, hcalled, Handler.serves]

/-- The sender whose signal is in the handler is there to be answered, and no
    answer is pending for it. -/
theorem Engaged.served {s : State ι} (h : Engaged s) {i : ι}
    (hserves : s.catcher.handler.serves i = true) :
    (s.senders i).pc.room = 1 ∧ (s.senders i).answer = false ∧ s.catcher.holds i = false := by
  -- One for the handler, and one is all there may be: the other two are zero.
  have hle := h.outstanding i
  have hroom := SenderPc.room_le_one (s.senders i).pc
  rw [State.outstanding, hserves, Bool.toNat_true] at hle
  refine ⟨by omega, ?_, ?_⟩
  · cases hanswer : (s.senders i).answer with
    | false => rfl
    | true =>
        rw [hanswer, Bool.toNat_true] at hle
        omega
  · cases hholds : s.catcher.holds i with
    | false => rfl
    | true =>
        rw [hholds, Bool.toNat_true] at hle
        omega

/-- So the answer gets through. -/
theorem Engaged.kill_eq {s : State ι} (h : Engaged s) {i : ι} {val : Int}
    (hanswering : s.catcher.handler = .answering i val) :
    kill s i val = { s.setSender i { s.senders i with answer := true } with
      answered := s.answered ++ [(i, val)] } := by
  -- The sender of a signal in the handler still waits, so it has not finished.
  have hserved := h.served (i := i) (by rw [hanswering]; exact decide_eq_true rfl)
  refine if_neg fun hfinished => ?_
  rw [hfinished] at hserved
  exact absurd hserved.1 (by decide)

theorem outstanding_answer {s : State ι} (h : Engaged s) {i : ι} {val : Int}
    (hanswering : s.catcher.handler = .answering i val) (j : ι) :
    State.outstanding { kill s i val with catcher := { s.catcher with handler := .idle } } j
      = s.outstanding j := by
  have hserves : s.catcher.handler.serves i = true := by
    rw [hanswering]
    exact decide_eq_true rfl
  rw [h.kill_eq hanswering]
  -- For this sender the signal leaves the handler and comes back as an answer.
  by_cases hij : j = i
  · rw [hij, State.outstanding, State.outstanding, hserves, (h.served hserves).2.1]
    simp only [senders_setSender_self, Catcher.holds, Handler.serves, Bool.toNat_true,
      Bool.toNat_false]
  · simp only [State.outstanding, senders_setSender_of_ne s _ hij, hanswering, Catcher.holds,
      Handler.serves, hij, decide_false]

omit [DecidableEq ι] in
/-- What is sent to a catcher that has exited does not become pending. -/
theorem catcher_sigqueue (s : State ι) (i : ι) (val : Int) (hexited : s.catcher.life ≠ .running) :
    (sigqueue s i val).catcher = s.catcher := by
  unfold sigqueue
  split
  · rename_i hlife
    exact absurd hlife hexited
  · rfl
  · rfl

omit [DecidableEq ι] in
theorem life_sigqueue (s : State ι) (i : ι) (val : Int) :
    (sigqueue s i val).catcher.life = s.catcher.life := by
  unfold sigqueue
  split <;> rfl

/-- Sending: nothing was under way, and one signal may be now. -/
theorem engaged_queue {s : State ι} {i : ι} {val : Int} (h : Engaged s)
    (hpc : (s.senders i).pc = .sending val) :
    Engaged ((sigqueue s i val).setSender i
      { s.senders i with pc := .printing, queued := (s.senders i).queued + 1 }) := by
  refine ⟨fun j => ?_, fun hexited => ?_⟩
  · rw [outstanding_queue]
    -- This sender had none under way, so it has one now at most.
    by_cases hij : j = i
    · have hzero := h.outstanding_eq_zero (i := i) (by rw [hpc]; rfl)
      rw [hij, hzero, senders_setSender_self]
      split
      · exact Nat.le_refl 1
      · exact Nat.zero_le 1
    · rw [if_neg (fun hall => hij hall.1), senders_setSender_of_ne _ _ hij, senders_sigqueue]
      exact h.outstanding j
  -- To one that has exited nothing is added.
  · rw [catcher_setSender] at hexited ⊢
    rw [life_sigqueue] at hexited
    rw [catcher_sigqueue s i val hexited]
    exact h.exited hexited

/-- Receiving: the answer was the only one. -/
theorem engaged_receive {s : State ι} {i : ι} (h : Engaged s)
    (hanswer : (s.senders i).answer = true) (n : Nat) (pc : SenderPc) :
    Engaged (s.setSender i ⟨pc, false, (s.senders i).queued, n⟩) := by
  refine ⟨fun j => ?_, h.exited⟩
  have hle := h.outstanding j
  rw [outstanding_setSender]
  -- The answer was all that this sender had under way.
  by_cases hij : j = i
  · have hroom := SenderPc.room_le_one (s.senders i).pc
    rw [hij, State.outstanding, hanswer, Bool.toNat_true] at hle
    rw [if_pos hij, hij, senders_setSender_self, Bool.toNat_false]
    omega
  · rw [if_neg hij, senders_setSender_of_ne s _ hij]
    exact hle

/-- Acting on a signal: exiting takes everything with it. -/
theorem engaged_act {s : State ι} {i : ι} {val : Int} (h : Engaged s)
    (hcalled : s.catcher.handler = .called i val) :
    Engaged { s with catcher := sigHandler s.catcher i val } := by
  -- A catcher that has exited is in no handler.
  have hlife : s.catcher.life = .running := by
    by_contra hexited
    have hidle := (h.exited hexited).1
    rw [hcalled] at hidle
    exact absurd hidle (by simp only [reduceCtorEq, not_false_eq_true])
  refine ⟨fun j => ?_, fun hexited => ?_⟩
  · rw [outstanding_act hcalled]
    -- For a 5 only the answers stay, and otherwise all does.
    refine Nat.le_trans ?_ (h.outstanding j)
    split
    · exact Nat.le_add_left _ _
    · exact Nat.le_refl _
  · rcases sigHandler_cases s.catcher i val with ⟨_, _, hidle, hnone⟩ | ⟨_, hsame, _, _⟩
    · exact ⟨hidle, hnone⟩
    · exact absurd (hsame.trans hlife) hexited

theorem engaged_step {s s' : State ι} {e : Event ι} (h : Engaged s) (hstep : step s e = some s') :
    Engaged s' := by
  cases step_move hstep with
  | type i val hpc =>
      refine engaged_setPc h ?_
      -- A sender that reads has no room, and so nothing under way.
      rw [hpc]
      exact Nat.zero_le _
  | eof i hpc =>
      refine engaged_setPc h ?_
      rw [hpc]
      exact Nat.zero_le _
  | queue i val hpc => exact engaged_queue h hpc
  | print i hpc =>
      -- These two keep their room.
      refine engaged_setPc h ?_
      rw [hpc]
      exact Nat.le_refl _
  | pause i hpc =>
      refine engaged_setPc h ?_
      rw [hpc]
      exact Nat.le_refl _
  | receive i hanswer hpc => exact engaged_receive h hanswer _ _
  | deliver i val hlife hidle hpending =>
      -- What was pending is in the handler.
      refine ⟨fun j => ?_, fun hexited => absurd hlife hexited⟩
      rw [outstanding_deliver hidle hpending]
      exact h.outstanding j
  | act i val hcalled => exact engaged_act h hcalled
  | answer i val hanswering =>
      refine ⟨fun j => ?_, fun hexited => ?_⟩
      · rw [outstanding_answer h hanswering, pc_kill]
        exact h.outstanding j
      -- The handler is through, and nothing becomes pending by that.
      · exact ⟨rfl, (h.exited hexited).2⟩
  | reap hlife =>
      refine ⟨h.outstanding, fun _ => h.exited ?_⟩
      rw [hlife]
      exact by decide

end Signals

end OsLabs
