import OsLabs.Semafor.Completion

/-!
# The Variant with a POSIX Semaphore

`Funkcje/Semafor POSIX/main.c` writes the same two logs. It prints the value of
the semaphore four times in each turn, before and after `sem_wait` and before
and after `sem_post`, and once before the `fork`. `print_sem_value` asks for the
value and then prints it, and in between the other process may have gone on.

Forgetting what is printed, and the two calls that print it, leaves the program
with the semaphore of System V. So what holds there of the logs and of the end
of the program holds here. What is new is what the printed values are. The one
printed inside is always zero, since it was asked for by the one that holds the
semaphore, and outside it is zero or one.

Standard output is taken to be a terminal, so that every line is written when
it is printed. `sem_unlink` takes away the name of the semaphore. The semaphore
stays for those that have it open, which is nobody but the parent then.

## Main definitions

* `Spot`: Where in the loop the value is printed.
* `Output`: What is written to standard output at once.
* `step`, `start`: The program.
* `State.toSysv`: What it looks like with the printing forgotten.
* `Shows`: What the printed values are.

## Theorems

* `step_simulates`: A step is one of the other program, or prints.
* `shows_step`: The values that are printed.
* `refines_of_reaches`: Both, for what can be reached.
* `completes_of_toSysv`: The program ends, with all entries written.
-/

namespace OsLabs

namespace Semafor

namespace Posix

open Machine

/-- The four calls of `print_sem_value` in the loop. -/
inductive Spot where
  | beforeWait
  | afterWait
  | beforePost
  | afterPost
  deriving DecidableEq

/-- The call that comes next. `getvalue` and `printf` are the two of
    `print_sem_value`. -/
inductive Place where
  | whileTest
  /-- `rand` and `sleep`. -/
  | sleep
  | getvalue (spot : Spot)
  | printf (spot : Spot)
  | semWait
  | sprintf
  /-- `write` to `common.txt`. -/
  | writeFd
  /-- `write` to standard output. -/
  | writeStdout
  | semPost
  | waitpid
  | semClose
  | semUnlink
  /-- No call: the process has ended. -/
  | ended
  deriving DecidableEq

/-- The variables of a process, with `sem_val` of its last
    `print_sem_value`. -/
structure Locals where
  place : Place
  counter : Int32
  s : Int32
  buf : Bytes
  semVal : Nat

/-- What is written to standard output at once: a line with a value of the
    semaphore, and where in the loop it was printed, or an entry. Before the
    loop it was printed nowhere in it. -/
inductive Output where
  | value (spot : Option Spot) (semVal : Nat)
  | entry (buf : Bytes)
  deriving DecidableEq

/-- The bytes. -/
def Output.bytes : Output → Bytes
  | .value _ semVal => text "Current sem value: " ++ Sysv.decimal semVal ++ text "\n"
  | .entry buf => buf

/-- What of them is an entry. -/
def Output.entryBytes : Output → Bytes
  | .value _ _ => []
  | .entry buf => buf

/-- The value of the semaphore, whether its name is there, the two processes,
    and what was written to `common.txt` and to standard output. -/
structure State where
  value : Nat
  linked : Bool
  procs : Process → Locals
  common : Bytes
  stdout : List Output

/-- The state with other variables for a process. -/
def State.put (st : State) (p : Process) (l : Locals) : State :=
  { st with procs := Function.update st.procs p l }

/-- The call after the loop. -/
def afterLoop : Process → Place
  | .parent => .waitpid
  | .child => .ended

/-- `while (counter--)`, with a counter that wraps around as in the other
    program. -/
def Locals.whileTest (p : Process) (l : Locals) : Locals :=
  { l with
    counter := l.counter - 1
    place := if l.counter = 0 then afterLoop p else .sleep }

/-- `int s = rand() % max_sleep_time + 1`, and the sleep. There is no remainder
    by zero. -/
def Locals.sleep (maxSleepTime rand : Int32) (l : Locals) : Locals :=
  if maxSleepTime = 0 then { l with place := .ended }
  else { l with s := rand % maxSleepTime + 1, place := .getvalue .beforeWait }

/-- The call after `print_sem_value`. -/
def Spot.next : Spot → Place
  | .beforeWait => .semWait
  | .afterWait => .sprintf
  | .beforePost => .semPost
  | .afterPost => .whileTest

/-- `sem_getvalue(sem, &sem_val)` -/
def State.getvalue (st : State) (p : Process) (spot : Spot) : State :=
  st.put p { st.procs p with semVal := st.value, place := .printf spot }

/-- `printf("Current sem value: %d\n", sem_val)` -/
def State.printf (st : State) (p : Process) (spot : Spot) : State :=
  { st.put p { st.procs p with place := spot.next } with
    stdout := st.stdout ++ [.value (some spot) (st.procs p).semVal] }

/-- `sem_wait(sem_id)` -/
def State.semWait (st : State) (p : Process) : Option State :=
  (OsLabs.semWait st.value).map fun value' =>
    { st.put p { st.procs p with place := .getvalue .afterWait } with value := value' }

/-- `sprintf` -/
def Locals.sprintf (p : Process) (l : Locals) : Locals :=
  { l with
    buf := (Entry.mk p l.counter l.s).line
    place := .writeFd }

/-- `write(fd, buf, strlen(buf))` -/
def State.writeFd (st : State) (p : Process) : State :=
  { st.put p { st.procs p with place := .writeStdout } with
    common := st.common ++ (st.procs p).buf }

/-- `write(1, buf, strlen(buf))` -/
def State.writeStdout (st : State) (p : Process) : State :=
  { st.put p { st.procs p with place := .getvalue .beforePost } with
    stdout := st.stdout ++ [.entry (st.procs p).buf] }

/-- `sem_post(sem_id)` -/
def State.semPost (st : State) (p : Process) : State :=
  { st.put p { st.procs p with place := .getvalue .afterPost } with
    value := OsLabs.semPost st.value }

/-- `waitpid(childPid, &status, 0)` -/
def State.waitpid (st : State) (p : Process) : Option State :=
  if (st.procs .child).place = .ended then some (st.put p { st.procs p with place := .semClose })
  else none

/-- `sem_unlink(SEM_NAME)`, and the end. -/
def State.semUnlink (st : State) (p : Process) : State :=
  { st.put p { st.procs p with place := .ended } with linked := false }

/-- The next call of a process, unless it has to wait. `rand` returns no
    negative numbers. -/
def step (maxSleepTime : Int32) (st : State) (t : Turn) : Option State :=
  match (st.procs t.who).place with
  | .whileTest => some (st.put t.who ((st.procs t.who).whileTest t.who))
  | .sleep =>
      if 0 ≤ t.rand then some (st.put t.who ((st.procs t.who).sleep maxSleepTime t.rand)) else none
  | .getvalue spot => some (st.getvalue t.who spot)
  | .printf spot => some (st.printf t.who spot)
  | .semWait => st.semWait t.who
  | .sprintf => some (st.put t.who ((st.procs t.who).sprintf t.who))
  | .writeFd => some (st.writeFd t.who)
  | .writeStdout => some (st.writeStdout t.who)
  | .semPost => some (st.semPost t.who)
  | .waitpid => st.waitpid t.who
  | .semClose => some (st.put t.who { st.procs t.who with place := .semUnlink })
  | .semUnlink => some (st.semUnlink t.who)
  | .ended => none

/-- The state after the `fork`, with the value printed that the semaphore was
    created with. -/
def start (counts : Process → Int32) (buf : Bytes) : State where
  value := 1
  linked := true
  procs p := ⟨.whileTest, counts p, 0, buf, 0⟩
  common := []
  stdout := [.value none 1]

section Forgetting

/-- What comes after the printing. -/
def Spot.toSysv : Spot → Semafor.Place
  | .beforeWait => .semLock
  | .afterWait => .sprintf
  | .beforePost => .semUnlock
  | .afterPost => .whileTest

/-- The place in the program that does not print. -/
def Place.toSysv : Place → Semafor.Place
  | .whileTest => .whileTest
  | .sleep => .sleep
  | .getvalue spot | .printf spot => spot.toSysv
  | .semWait => .semLock
  | .sprintf => .sprintf
  | .writeFd => .writeFd
  | .writeStdout => .writeStdout
  | .semPost => .semUnlock
  | .waitpid => .waitpid
  | .semClose | .semUnlink => .rmid
  | .ended => .ended

def Locals.toSysv (l : Locals) : Semafor.Locals := ⟨l.place.toSysv, l.counter, l.s, l.buf⟩

/-- The state of the program that does not print. -/
def State.toSysv (st : State) : Semafor.State where
  sem := if st.linked then some st.value else none
  procs p := (st.procs p).toSysv
  common := st.common
  stdout := st.stdout.flatMap Output.entryBytes

end Forgetting

variable {counts : Process → Int32} {entries : List Entry} {st st' : State} {p : Process}
  {maxSleepTime : Int32}

section Simulation

@[simp] theorem put_self (st : State) (p : Process) (l : Locals) : (st.put p l).procs p = l :=
  Function.update_self ..

theorem put_of_ne (st : State) {p q : Process} (l : Locals) (h : q ≠ p) :
    (st.put p l).procs q = st.procs q :=
  Function.update_of_ne h ..

/-- What goes on in one process, goes on in it without the printing. -/
theorem toSysv_of_procs {l : Locals} (hprocs : st'.procs = (st.put p l).procs) :
    st'.toSysv = { st.toSysv.put p l.toSysv with
      sem := st'.toSysv.sem, common := st'.common, stdout := st'.toSysv.stdout } := by
  have hsame : st'.toSysv.procs = (st.toSysv.put p l.toSysv).procs := by
    funext q
    change (st'.procs q).toSysv = _
    rw [hprocs]
    by_cases hq : q = p
    · rw [hq, put_self, Semafor.put_self]
    · rw [put_of_ne st l hq, Semafor.put_of_ne _ _ hq]
      rfl
  exact congrArg (fun procs => { st'.toSysv with procs := procs }) hsame

theorem toSysv_put (st : State) (p : Process) (l : Locals) :
    (st.put p l).toSysv = st.toSysv.put p l.toSysv :=
  toSysv_of_procs rfl

theorem toSysv_place {place : Place} (hplace : (st.procs p).place = place) :
    (st.toSysv.procs p).place = place.toSysv :=
  congrArg Place.toSysv hplace

/-- Staying at the same place, as far as the other program has it. -/
theorem toSysv_put_self {l : Locals} (hl : l.toSysv = (st.procs p).toSysv) :
    (st.put p l).toSysv = st.toSysv := by
  rw [toSysv_put, hl]
  exact congrArg (fun procs => { st.toSysv with procs := procs }) (Function.update_eq_self p _)

theorem toSysv_whileTest (l : Locals) :
    l.toSysv.whileTest p = (l.whileTest p).toSysv := by
  unfold Semafor.Locals.whileTest Locals.whileTest
  by_cases hzero : l.counter = 0
  · rw [if_pos hzero, if_pos (show l.toSysv.counter = 0 from hzero)]
    cases p <;> rfl
  · rw [if_neg hzero, if_neg (show ¬ l.toSysv.counter = 0 from hzero)]
    rfl

theorem toSysv_sleep (maxSleepTime rand : Int32) (l : Locals) :
    l.toSysv.sleep maxSleepTime rand = (l.sleep maxSleepTime rand).toSysv := by
  unfold Semafor.Locals.sleep Locals.sleep
  by_cases hzero : maxSleepTime = 0
  · rw [if_pos hzero, if_pos hzero]
    rfl
  · rw [if_neg hzero, if_neg hzero]
    rfl

theorem toSysv_next (spot : Spot) : spot.next.toSysv = spot.toSysv := by
  cases spot <;> rfl

theorem toSysv_printf {spot : Spot} (hplace : (st.procs p).place = .printf spot) :
    (st.printf p spot).toSysv = st.toSysv := by
  have hsame : Locals.toSysv { st.procs p with place := spot.next } = (st.procs p).toSysv := by
    change Semafor.Locals.mk _ _ _ _ = Semafor.Locals.mk (st.procs p).place.toSysv _ _ _
    rw [hplace]
    exact congrArg (Semafor.Locals.mk · _ _ _) (toSysv_next spot)
  have hput := toSysv_put_self hsame
  -- The line is no entry.
  have hstdout : (st.printf p spot).toSysv.stdout = st.toSysv.stdout :=
    (List.flatMap_append ..).trans (List.append_nil _)
  rw [← hput]
  exact congrArg (fun stdout => { (st.put p { st.procs p with place := spot.next }).toSysv with
    stdout := stdout }) hstdout

theorem toSysv_writeFd : (st.writeFd p).toSysv = st.toSysv.writeFd p :=
  toSysv_of_procs (l := { st.procs p with place := .writeStdout }) rfl

theorem toSysv_writeStdout : (st.writeStdout p).toSysv = st.toSysv.writeStdout p := by
  have hmove : (st.writeStdout p).procs =
      (st.put p { st.procs p with place := .getvalue .beforePost }).procs := rfl
  have hstdout : (st.writeStdout p).toSysv.stdout = st.toSysv.stdout ++ (st.procs p).buf :=
    (List.flatMap_append ..).trans (congrArg _ (List.append_nil _))
  rw [toSysv_of_procs hmove, hstdout]
  rfl

theorem toSysv_semPost : (st.semPost p).toSysv = st.toSysv.semUnlock p := by
  have hmove : (st.semPost p).procs =
      (st.put p { st.procs p with place := .getvalue .afterPost }).procs := rfl
  have hsem : (st.semPost p).toSysv.sem = st.toSysv.sem.map OsLabs.semPost := by
    change (if st.linked then some (OsLabs.semPost st.value) else none) =
      (if st.linked then some st.value else none).map OsLabs.semPost
    -- Without the name there is no semaphore for the other program, with or without the post.
    by_cases hlinked : st.linked
    · rw [if_pos hlinked, if_pos hlinked, Option.map_some]
    · rw [if_neg hlinked, if_neg hlinked, Option.map_none]
  rw [toSysv_of_procs hmove, hsem]
  rfl

theorem toSysv_semUnlink : (st.semUnlink p).toSysv = st.toSysv.rmid p :=
  toSysv_of_procs (l := { st.procs p with place := .ended }) rfl

/-- With the name gone everybody has ended, so it is there for those who have
    not. -/
theorem linked_of_live (h : Inv counts entries st.toSysv)
    (hlive : (st.toSysv.procs p).place ≠ .ended) : st.toSysv.sem = some st.value := by
  rcases h.exists_sem hlive with ⟨value, hsem⟩
  by_cases hlinked : st.linked
  -- For the other program it is there, which says that the name is.
  · exact if_pos hlinked
  · have hnone : st.toSysv.sem = none := if_neg hlinked
    rw [hnone] at hsem
    cases hsem

/-- Waiting for a semaphore that is there. -/
theorem toSysv_semWait (hsem : st.toSysv.sem = some st.value) (hwait : st.semWait p = some st') :
    st.toSysv.semLock p = some st'.toSysv := by
  rcases Option.map_eq_some_iff.mp hwait with ⟨value', hvalue, hst'⟩
  have hlinked : st.linked := by
    by_contra hnot
    rw [State.toSysv, if_neg hnot] at hsem
    cases hsem
  have hsem' : st'.toSysv.sem = some value' := by
    rw [← hst']
    exact if_pos hlinked
  have hprocs : st'.procs = (st.put p { st.procs p with place := .getvalue .afterWait }).procs := by
    rw [← hst']
  -- Both count down what they find there.
  rw [toSysv_of_procs hprocs, hsem', Semafor.State.semLock, hsem, ← hst']
  exact congrArg (Option.map _) hvalue

/-- A step is a step of the program that does not print, of the same process,
    or one that this program does not see. -/
theorem step_simulates {t : Turn} (h : Inv counts entries st.toSysv)
    (hstep : step maxSleepTime st t = some st') : st'.toSysv = st.toSysv ∨
      Semafor.step maxSleepTime st.toSysv t = some st'.toSysv := by
  rcases t with ⟨p, rand⟩
  unfold step at hstep
  unfold Semafor.step
  dsimp only at hstep ⊢
  cases hplace : (st.procs p).place with
  | whileTest =>
      rw [hplace, Option.some.injEq] at hstep
      rw [toSysv_place hplace, ← hstep, toSysv_put]
      -- A loop's test: the same counter, and the same place behind it.
      refine .inr (congrArg (fun l => some (st.toSysv.put p l)) ?_)
      exact toSysv_whileTest _
  | sleep =>
      rw [hplace] at hstep
      rcases Option.ite_none_right_eq_some.mp hstep with ⟨hrand, hst'⟩
      rw [toSysv_place hplace, ← Option.some.inj hst', toSysv_put]
      -- The same draw. What comes next is the printing here, and the lock there.
      refine .inr ((if_pos hrand).trans (congrArg (fun l => some (st.toSysv.put p l)) ?_))
      exact toSysv_sleep maxSleepTime rand _
  | getvalue spot =>
      rw [hplace, Option.some.injEq] at hstep
      rw [← hstep]
      -- Asking for the value moves nothing that the other program has.
      refine .inl (toSysv_put_self ?_)
      change Semafor.Locals.mk _ _ _ _ = Semafor.Locals.mk (st.procs p).place.toSysv _ _ _
      rw [hplace]
      rfl
  | printf spot =>
      rw [hplace, Option.some.injEq] at hstep
      rw [← hstep]
      exact .inl (toSysv_printf hplace)
  | semWait =>
      rw [hplace] at hstep
      -- The one that waits has not ended, so the semaphore is there for the other program.
      have hsem := linked_of_live h (p := p) (by rw [toSysv_place hplace]; decide)
      rw [toSysv_place hplace]
      exact .inr (toSysv_semWait hsem hstep)
  | sprintf =>
      rw [hplace, Option.some.injEq] at hstep
      rw [toSysv_place hplace, ← hstep, toSysv_put]
      exact .inr rfl
  | writeFd =>
      rw [hplace, Option.some.injEq] at hstep
      rw [toSysv_place hplace, ← hstep, toSysv_writeFd]
      exact .inr rfl
  | writeStdout =>
      rw [hplace, Option.some.injEq] at hstep
      rw [toSysv_place hplace, ← hstep, toSysv_writeStdout]
      exact .inr rfl
  | semPost =>
      rw [hplace, Option.some.injEq] at hstep
      rw [toSysv_place hplace, ← hstep, toSysv_semPost]
      exact .inr rfl
  | waitpid =>
      rw [hplace] at hstep
      rcases Option.ite_none_right_eq_some.mp hstep with ⟨hended, hst'⟩
      rw [toSysv_place hplace, ← Option.some.inj hst', toSysv_put]
      -- The child has ended for both.
      exact .inr (if_pos (toSysv_place hended))
  | semClose =>
      rw [hplace, Option.some.injEq] at hstep
      rw [← hstep]
      -- Closing belongs to what the other program does in one call with the removal.
      refine .inl (toSysv_put_self ?_)
      change Semafor.Locals.mk _ _ _ _ = Semafor.Locals.mk (st.procs p).place.toSysv _ _ _
      rw [hplace]
      rfl
  | semUnlink =>
      rw [hplace, Option.some.injEq] at hstep
      rw [toSysv_place hplace, ← hstep, toSysv_semUnlink]
      exact .inr rfl
  | ended =>
      rw [hplace] at hstep
      cases hstep

end Simulation

section Showing

/-- A value that can be printed there. -/
def Possible (spot : Option Spot) (semVal : Nat) : Prop :=
  semVal ≤ 1 ∧ (spot = some .afterWait ∨ spot = some .beforePost → semVal = 0)

/-- The values printed, and those about to be, are possible. -/
structure Shows (st : State) : Prop where
  printing : ∀ p spot, (st.procs p).place = .printf spot → Possible (some spot) (st.procs p).semVal
  printed : ∀ spot semVal, Output.value spot semVal ∈ st.stdout → Possible spot semVal

/-- A process goes on. Only `sem_getvalue` leads to printing. -/
theorem Shows.put {l : Locals} (h : Shows st) (hprocs : st'.procs = (st.put p l).procs)
    (hl : ∀ spot, l.place = .printf spot → Possible (some spot) l.semVal)
    (hout : ∀ spot semVal, Output.value spot semVal ∈ st'.stdout →
      Output.value spot semVal ∈ st.stdout ∨ Possible spot semVal) : Shows st' where
  printing q spot hplace := by
    rw [hprocs] at hplace ⊢
    -- The others print what they were going to print.
    by_cases hq : q = p
    · rw [hq, put_self] at hplace ⊢
      exact hl spot hplace
    · rw [put_of_ne st l hq] at hplace ⊢
      exact h.printing q spot hplace
  printed spot semVal hmem := (hout spot semVal hmem).elim (h.printed spot semVal) id

/-- A process goes on that has nothing to print and prints nothing. -/
theorem Shows.quiet {l : Locals} (h : Shows st) (hprocs : st'.procs = (st.put p l).procs)
    (hl : ∀ spot, l.place ≠ .printf spot) (hout : st'.stdout = st.stdout) : Shows st' := by
  refine h.put hprocs (fun spot hplace => absurd hplace (hl spot)) fun spot semVal hmem => .inl ?_
  rwa [hout] at hmem

/-- The value that a process is told, which is zero if it is inside. -/
theorem possible_getvalue {spot : Spot} (h : Inv counts entries st.toSysv)
    (hplace : (st.procs p).place = .getvalue spot) : Possible (some spot) st.value := by
  have hplace' : (st.toSysv.procs p).place = spot.toSysv := toSysv_place hplace
  have hsem := linked_of_live h (p := p) (by rw [hplace']; cases spot <;> decide)
  have hguards := h.guarded st.value hsem
  -- The value is at most one, and a semaphore with somebody inside is at zero.
  refine ⟨hguards.le_one, fun hspot => ?_⟩
  -- Behind the wait and before the post the process is inside.
  have hin : (st.toSysv.procs p).Inside := by
    rw [Option.some.injEq, Option.some.injEq] at hspot
    unfold Semafor.Locals.Inside
    rw [hplace']
    rcases hspot with hspot | hspot <;> rw [hspot] <;> decide
  exact (hguards.of_in hin).1

/-- What the step of one process does to the values that are printed. -/
theorem shows_step {t : Turn} (h : Inv counts entries st.toSysv) (hshows : Shows st)
    (hstep : step maxSleepTime st t = some st') : Shows st' := by
  rcases t with ⟨p, rand⟩
  unfold step at hstep
  dsimp only at hstep
  cases hplace : (st.procs p).place with
  | whileTest =>
      rw [hplace, Option.some.injEq] at hstep
      rw [← hstep]
      refine hshows.quiet rfl (fun spot => ?_) rfl
      unfold Locals.whileTest
      -- A turn begins with a sleep, and the loop ends in a wait: no value is printed at once.
      by_cases hzero : (st.procs p).counter = 0
      · rw [if_pos hzero]
        cases p <;> exact nofun
      · rw [if_neg hzero]
        exact nofun
  | sleep =>
      rw [hplace] at hstep
      rcases Option.ite_none_right_eq_some.mp hstep with ⟨_, hst'⟩
      rw [← Option.some.inj hst']
      refine hshows.quiet rfl (fun spot => ?_) rfl
      unfold Locals.sleep
      by_cases hzero : maxSleepTime = 0
      · rw [if_pos hzero]
        exact nofun
      · rw [if_neg hzero]
        exact nofun
  | getvalue spot =>
      rw [hplace, Option.some.injEq] at hstep
      rw [← hstep]
      refine hshows.put (l := { st.procs p with semVal := st.value, place := .printf spot }) rfl
        (fun spot' hspot => ?_) fun _ _ hmem => .inl hmem
      -- What is told here is printed by the next call.
      cases hspot
      exact possible_getvalue h hplace
  | printf spot =>
      rw [hplace, Option.some.injEq] at hstep
      rw [← hstep]
      refine hshows.put (l := { st.procs p with place := spot.next }) rfl (fun spot' hspot => ?_)
        fun spot' semVal hmem => ?_
      -- No printing follows upon another.
      · cases spot <;> cases hspot
      · -- The line that is added has the value that the process was told.
        rcases List.mem_append.mp hmem with hold | hnew
        · exact .inl hold
        · rw [List.mem_singleton, Output.value.injEq] at hnew
          rw [hnew.1, hnew.2]
          exact .inr (hshows.printing p spot hplace)
  | semWait =>
      rw [hplace] at hstep
      rcases Option.map_eq_some_iff.mp hstep with ⟨value', _, hst'⟩
      rw [← hst']
      exact hshows.quiet (l := { st.procs p with place := .getvalue .afterWait }) rfl
        (fun _ => nofun) rfl
  | sprintf =>
      rw [hplace, Option.some.injEq] at hstep
      rw [← hstep]
      exact hshows.quiet (l := (st.procs p).sprintf p) rfl (fun _ => nofun) rfl
  | writeFd =>
      rw [hplace, Option.some.injEq] at hstep
      rw [← hstep]
      exact hshows.quiet (l := { st.procs p with place := .writeStdout }) rfl (fun _ => nofun) rfl
  | writeStdout =>
      rw [hplace, Option.some.injEq] at hstep
      rw [← hstep]
      refine hshows.put (l := { st.procs p with place := .getvalue .beforePost }) rfl
        (fun _ => nofun) fun spot semVal hmem => .inl ?_
      -- What is written here is an entry, and no value.
      rcases List.mem_append.mp hmem with hold | hnew
      · exact hold
      · rw [List.mem_singleton] at hnew
        cases hnew
  | semPost =>
      rw [hplace, Option.some.injEq] at hstep
      rw [← hstep]
      exact hshows.quiet (l := { st.procs p with place := .getvalue .afterPost }) rfl
        (fun _ => nofun) rfl
  | waitpid =>
      rw [hplace] at hstep
      rcases Option.ite_none_right_eq_some.mp hstep with ⟨_, hst'⟩
      rw [← Option.some.inj hst']
      exact hshows.quiet (l := { st.procs p with place := .semClose }) rfl (fun _ => nofun) rfl
  | semClose =>
      rw [hplace, Option.some.injEq] at hstep
      rw [← hstep]
      exact hshows.quiet (l := { st.procs p with place := .semUnlink }) rfl (fun _ => nofun) rfl
  | semUnlink =>
      rw [hplace, Option.some.injEq] at hstep
      rw [← hstep]
      exact hshows.quiet (l := { st.procs p with place := .ended }) rfl (fun _ => nofun) rfl
  | ended =>
      rw [hplace] at hstep
      cases hstep

/-- The invariant of the other program, along a run of this one. -/
theorem inv_toSysv {t : Turn} (h : Inv counts entries st.toSysv)
    (hstep : step maxSleepTime st t = some st') : ∃ entries', Inv counts entries' st'.toSysv := by
  -- A step that the other program does not see leaves its state, and so the invariant.
  rcases step_simulates h hstep with hsame | hmove
  · rw [hsame]
    exact ⟨entries, h⟩
  · exact inv_step h hmove

theorem shows_start (counts : Process → Int32) (buf : Bytes) : Shows (start counts buf) where
  printing p spot hplace := nomatch hplace
  printed spot semVal hmem := by
    rw [start, List.mem_singleton, Output.value.injEq] at hmem
    rw [hmem.1, hmem.2]
    -- The value printed before the fork is one, and it is printed outside.
    exact ⟨Nat.le_refl 1, fun hspot => by rcases hspot with hspot | hspot <;> cases hspot⟩

/-- Whatever the schedule, the program does what the one with the semaphore of
    System V can do, so that the logs agree as they do there, and what it
    prints of its semaphore is zero inside and zero or one outside. -/
theorem refines_of_reaches {buf : Bytes}
    (hreaches : Reaches (step maxSleepTime) (start counts buf) st) :
    Reaches (Semafor.step maxSleepTime) (Semafor.start counts buf) st.toSysv ∧
      Agrees counts st.toSysv ∧ Shows st := by
  have hsim : ∀ st t st', (∃ entries, Inv counts entries (State.toSysv st)) →
      step maxSleepTime st t = some st' → st'.toSysv = st.toSysv ∨
        Semafor.step maxSleepTime st.toSysv t = some st'.toSysv :=
    fun _ _ _ ⟨_, h⟩ hstep => step_simulates h hstep
  have hbegin : ∃ entries, Inv counts entries (start counts buf).toSysv :=
    ⟨[], inv_start counts buf⟩
  have hkeep : ∀ st t st', (∃ entries, Inv counts entries st) →
      Semafor.step maxSleepTime st t = some st' → ∃ entries, Inv counts entries st' :=
    fun _ _ _ ⟨_, h⟩ hstep => inv_step h hstep
  have hrefines := reaches_of_simulates hkeep hsim hbegin hreaches
  have hinv : (∃ entries, Inv counts entries st.toSysv) ∧ Shows st :=
    reaches_invariant (I := fun st => (∃ entries, Inv counts entries st.toSysv) ∧ Shows st)
      (fun _ _ _ ⟨⟨_, h⟩, hshows⟩ hstep => ⟨inv_toSysv h hstep, shows_step h hshows hstep⟩)
      ⟨hbegin, shows_start counts buf⟩ hreaches
  rcases hinv with ⟨⟨entries, h⟩, hshows⟩
  exact ⟨hrefines, h.agrees, hshows⟩

/-- The child is inside, and both see it. -/
theorem refines_child_inside :
    ∃ st, (Reaches (Semafor.step 3) (Semafor.start (fun _ => 1) []) st.toSysv ∧
      Agrees (fun _ => 1) st.toSysv ∧ Shows st) ∧
      st.stdout = [.value none 1, .value (some .beforeWait) 1, .value (some .afterWait) 0,
        .value (some .beforeWait) 0] := by
  have hrun : (exec (step 3) (start (fun _ => 1) [])
      [⟨.child, 0⟩, ⟨.child, 5⟩, ⟨.child, 0⟩, ⟨.child, 0⟩, ⟨.child, 0⟩, ⟨.child, 0⟩, ⟨.child, 0⟩,
        ⟨.parent, 0⟩, ⟨.parent, 7⟩, ⟨.parent, 0⟩, ⟨.parent, 0⟩]).any
      (fun st => decide (st.stdout = [.value none 1, .value (some .beforeWait) 1,
        .value (some .afterWait) 0, .value (some .beforeWait) 0])) = true := by
    decide +kernel
  rcases exists_of_exec_any hrun with ⟨st, hst, htest⟩
  exact ⟨st, refines_of_reaches ⟨_, hst⟩, of_decide_eq_true htest⟩

end Showing

section Ending

/-- How many calls are still to come if no further turn begins, at most. -/
def Place.rank : Place → Nat
  | .whileTest => 4
  | .sleep => 18
  | .getvalue .beforeWait => 17
  | .printf .beforeWait => 16
  | .semWait => 15
  | .getvalue .afterWait => 14
  | .printf .afterWait => 13
  | .sprintf => 12
  | .writeFd => 11
  | .writeStdout => 10
  | .getvalue .beforePost => 9
  | .printf .beforePost => 8
  | .semPost => 7
  | .getvalue .afterPost => 6
  | .printf .afterPost => 5
  | .waitpid => 3
  | .semClose => 2
  | .semUnlink => 1
  | .ended => 0

/-- A turn of the loop has fifteen calls. -/
def Locals.rank (l : Locals) : Nat := 15 * l.counter.toInt.toNat + l.place.rank

def State.rank (st : State) : Nat := (st.procs .parent).rank + (st.procs .child).rank

theorem rank_put {l : Locals} (hprocs : st'.procs = (st.put p l).procs)
    (hl : l.rank < (st.procs p).rank) : st'.rank < st.rank := by
  have hself : st'.procs p = l := by
    rw [hprocs, put_self]
  have hother : ∀ q, q ≠ p → st'.procs q = st.procs q := by
    intro q hq
    rw [hprocs, put_of_ne st l hq]
  unfold State.rank
  cases p with
  | parent =>
      rw [hself, hother .child (by decide)]
      omega
  | child =>
      rw [hself, hother .parent (by decide)]
      omega

/-- A call that leaves the counter alone. -/
theorem rank_stay {l : Locals} (place place' : Place) (hplace : (st.procs p).place = place)
    (hplace' : l.place = place') (hcounter : l.counter = (st.procs p).counter)
    (hlt : place'.rank < place.rank) (hprocs : st'.procs = (st.put p l).procs) :
    st'.rank < st.rank := by
  refine rank_put hprocs ?_
  rw [Locals.rank, Locals.rank, hplace, hplace', hcounter]
  omega

/-- The test pays for the calls of a turn with one from the counter. -/
theorem rank_whileTest {l : Locals} (hpos : 0 ≤ l.counter.toInt) (hplace : l.place = .whileTest) :
    (l.whileTest p).rank < l.rank := by
  have hcounter : (l.whileTest p).counter.toInt = l.counter.toInt - 1 := toInt_sub_one hpos
  have hwhile : Place.whileTest.rank = 4 := rfl
  rw [Locals.rank, Locals.rank, hcounter, hplace, hwhile]
  -- With the counter at zero three calls are left, and otherwise a turn is begun and paid for.
  by_cases hzero : l.counter = 0
  · have hplace' : (l.whileTest p).place = afterLoop p := if_pos hzero
    have hafter : (afterLoop p).rank ≤ 3 := by
      cases p <;> decide
    rw [hplace']
    omega
  · have hplace' : (l.whileTest p).place = .sleep := if_neg hzero
    have hsleep : Place.sleep.rank = 18 := rfl
    have hne : l.counter.toInt ≠ 0 := fun heq => hzero (Int32.toInt_inj.mp heq)
    rw [hplace', hsleep]
    omega

/-- Every call brings the end nearer, those that print too. -/
theorem rank_lt_of_step {t : Turn} (hmax : maxSleepTime ≠ 0)
    (hcounted : Counted counts entries st.toSysv) (hstep : step maxSleepTime st t = some st') :
    st'.rank < st.rank := by
  rcases t with ⟨p, rand⟩
  unfold step at hstep
  dsimp only at hstep
  cases hplace : (st.procs p).place with
  | whileTest =>
      rw [hplace, Option.some.injEq] at hstep
      rw [← hstep]
      -- At the test the counter is not negative, as long as the loop goes on.
      refine rank_put rfl (rank_whileTest ((hcounted.procs p).looping ?_) hplace)
      rw [toSysv_place hplace]
      decide
  | sleep =>
      rw [hplace] at hstep
      rcases Option.ite_none_right_eq_some.mp hstep with ⟨_, hst'⟩
      -- A remainder there is, so the process does not end here.
      have hsleep : (st.procs p).sleep maxSleepTime rand = { st.procs p with
        s := rand % maxSleepTime + 1, place := .getvalue .beforeWait } := if_neg hmax
      rw [← Option.some.inj hst']
      refine rank_stay .sleep (.getvalue .beforeWait) hplace ?_ ?_ (by decide) rfl
      · rw [hsleep]
      · rw [hsleep]
  | getvalue spot =>
      rw [hplace, Option.some.injEq] at hstep
      rw [← hstep]
      exact rank_stay (.getvalue spot) (.printf spot) hplace
        (l := { st.procs p with semVal := st.value, place := .printf spot }) rfl rfl
        -- It costs one call at each of the four spots.
        (by cases spot <;> decide) rfl
  | printf spot =>
      rw [hplace, Option.some.injEq] at hstep
      rw [← hstep]
      exact rank_stay (.printf spot) spot.next hplace (l := { st.procs p with place := spot.next })
        rfl rfl (by cases spot <;> decide) rfl
  | semWait =>
      rw [hplace] at hstep
      rcases Option.map_eq_some_iff.mp hstep with ⟨value', _, hst'⟩
      rw [← hst']
      exact rank_stay .semWait (.getvalue .afterWait) hplace
        (l := { st.procs p with place := .getvalue .afterWait }) rfl rfl (by decide) rfl
  | sprintf =>
      rw [hplace, Option.some.injEq] at hstep
      rw [← hstep]
      exact rank_stay .sprintf .writeFd hplace (l := (st.procs p).sprintf p) rfl rfl (by decide) rfl
  | writeFd =>
      rw [hplace, Option.some.injEq] at hstep
      rw [← hstep]
      exact rank_stay .writeFd .writeStdout hplace (l := { st.procs p with place := .writeStdout })
        rfl rfl (by decide) rfl
  | writeStdout =>
      rw [hplace, Option.some.injEq] at hstep
      rw [← hstep]
      exact rank_stay .writeStdout (.getvalue .beforePost) hplace
        (l := { st.procs p with place := .getvalue .beforePost }) rfl rfl (by decide) rfl
  | semPost =>
      rw [hplace, Option.some.injEq] at hstep
      rw [← hstep]
      exact rank_stay .semPost (.getvalue .afterPost) hplace
        (l := { st.procs p with place := .getvalue .afterPost }) rfl rfl (by decide) rfl
  | waitpid =>
      rw [hplace] at hstep
      rcases Option.ite_none_right_eq_some.mp hstep with ⟨_, hst'⟩
      rw [← Option.some.inj hst']
      exact rank_stay .waitpid .semClose hplace (l := { st.procs p with place := .semClose }) rfl
        rfl (by decide) rfl
  | semClose =>
      rw [hplace, Option.some.injEq] at hstep
      rw [← hstep]
      exact rank_stay .semClose .semUnlink hplace (l := { st.procs p with place := .semUnlink }) rfl
        rfl (by decide) rfl
  | semUnlink =>
      rw [hplace, Option.some.injEq] at hstep
      rw [← hstep]
      exact rank_stay .semUnlink .ended hplace (l := { st.procs p with place := .ended }) rfl rfl
        (by decide) rfl
  | ended =>
      rw [hplace] at hstep
      cases hstep

/-- Where nobody can go on, nobody can without the printing either: printing
    waits for nothing. -/
theorem stuck_toSysv (h : Inv counts entries st.toSysv) (hstuck : Stuck (step maxSleepTime) st) :
    Stuck (Semafor.step maxSleepTime) st.toSysv := by
  rintro ⟨p, rand⟩
  have hnone := hstuck ⟨p, 0⟩
  unfold step at hnone
  unfold Semafor.step
  dsimp only at hnone ⊢
  cases hplace : (st.procs p).place with
  | semWait =>
      rw [hplace] at hnone
      -- The same semaphore: it is zero for both.
      have hsem := linked_of_live h (p := p) (by rw [toSysv_place hplace]; decide)
      rw [toSysv_place hplace]
      change st.toSysv.semLock p = none
      rw [Semafor.State.semLock, hsem]
      exact Option.map_eq_none_iff.mpr (Option.map_eq_none_iff.mp hnone)
  | waitpid =>
      rw [hplace] at hnone
      rw [toSysv_place hplace]
      -- The child has ended there exactly if it has ended here.
      refine if_neg fun hended => ?_
      have hchild : (st.procs .child).place = .ended := by
        cases hwhere : (st.procs .child).place with
        | ended => rfl
        -- In front of these calls it stands inside its loop in the other program too.
        | getvalue spot | printf spot =>
            rw [toSysv_place hwhere] at hended
            cases spot <;> cases hended
        | _ =>
            rw [toSysv_place hwhere] at hended
            cases hended
      dsimp only [State.waitpid] at hnone
      rw [if_pos hchild] at hnone
      cases hnone
  | ended => rw [toSysv_place hplace]; rfl
  | sleep =>
      rw [hplace] at hnone
      dsimp only at hnone
      -- There is always a number that `rand` may return.
      rw [if_pos (by decide)] at hnone
      cases hnone
  | _ =>
      -- Nothing else waits.
      rw [hplace] at hnone
      cases hnone

/-- Under every schedule this program comes to its end too, with the same
    logs. -/
theorem completes_of_toSysv (buf : Bytes) (hmax : maxSleepTime ≠ 0)
    (hcounts : ∀ p, 0 ≤ (counts p).toInt) :
    Completes (step maxSleepTime) (start counts buf)
      (15 * ((counts .parent).toInt.toNat + (counts .child).toInt.toNat) + 8)
      fun st => Finished counts st.toSysv := by
  have hkeep : ∀ st t st',
      (∃ entries, Inv counts entries (State.toSysv st) ∧ Counted counts entries st.toSysv) →
      step maxSleepTime st t = some st' →
      ∃ entries, Inv counts entries st'.toSysv ∧ Counted counts entries st'.toSysv := by
    rintro st t st' ⟨entries, h, hcounted⟩ hstep
    -- A call that only prints leaves both invariants as they are.
    rcases step_simulates h hstep with hsame | hmove
    · rw [hsame]
      exact ⟨entries, h, hcounted⟩
    · exact inv_call hmax h hcounted (call_of_step h hmove)
  have hlower : ∀ st t st',
      (∃ entries, Inv counts entries (State.toSysv st) ∧ Counted counts entries st.toSysv) →
      step maxSleepTime st t = some st' → st'.rank < st.rank :=
    fun _ _ _ ⟨_, _, hcounted⟩ hstep => rank_lt_of_step hmax hcounted hstep
  have hbegin : ∃ entries, Inv counts entries (start counts buf).toSysv ∧
      Counted counts entries (start counts buf).toSysv :=
    ⟨[], inv_start counts buf, counted_start buf hcounts⟩
  have hcompletes := completes_of_rank hkeep hlower
    (fun _ ⟨_, h, hcounted⟩ hstuck =>
      finished_of_stuck h hcounted hcounts (stuck_toSysv h hstuck)) hbegin
  -- Fifteen calls a turn, and four more for each of the two processes.
  have hrank : (start counts buf).rank =
      15 * ((counts .parent).toInt.toNat + (counts .child).toInt.toNat) + 8 := by
    change 15 * _ + 4 + (15 * _ + 4) = _
    dsimp only [start]
    omega
  rwa [hrank] at hcompletes

/-- One entry each, and eight values. -/
theorem completes_toSysv_one_each :
    Completes (step 3) (start (fun _ => 1) []) 38 fun st => Finished (fun _ => 1) st.toSysv :=
  completes_of_toSysv [] (by decide) fun _ => by decide

end Ending

end Posix

end Semafor

end OsLabs
