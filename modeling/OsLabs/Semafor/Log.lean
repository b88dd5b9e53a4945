import Mathlib.Data.Nat.Digits.Defs
import Mathlib.Logic.Function.Basic
import OsLabs.Library.Semaphore
import OsLabs.Sysv.Server

/-!
# Two Logs under a Semaphore

`Funkcje/Semafor SysV/main.c`: a program and its child write entries to
`common.txt` and to standard output, as many as they are told to. An entry goes
to the one and then to the other, by two calls of `write`, and a semaphore of
System V is to keep the two calls together.

A step is a call, or the test of a loop. `common.txt` was opened before the
`fork`, so that the two share their position in it, and what a `write` writes
is whole and comes at the end.

`semop` fails once the semaphore is removed, and the program goes on all the
same. Dividing by zero ends the process that does it, which may leave the
semaphore behind, or the parent without a child that writes.

Left out are the creation of the semaphore, of the file and of the child, the
time slept, and calls that fail for other reasons.

## Main definitions

* `Process`, `Place`, `Locals`: A process, where it is, and what it has.
* `Entry`: An entry of the log.
* `State`, `step`: The program.
* `start`: The state after the `fork`.
* `Inside`: Between `lock` and `unlock`.

## Theorems

* `length_line_lt`: Every entry fits the buffer.
* `put_self`, `put_of_ne`: The variables of one process and of the other.
-/

namespace OsLabs

namespace Semafor

/-- The two processes. -/
inductive Process where
  | parent
  | child
  deriving DecidableEq

/-- The call that comes next. -/
inductive Place where
  /-- The test of the loop. -/
  | whileTest
  /-- `rand` and `sleep`. -/
  | sleep
  | semLock
  | sprintf
  /-- `write` to `common.txt`. -/
  | writeFd
  /-- `write` to standard output. -/
  | writeStdout
  | semUnlock
  | waitpid
  /-- `semctl` with `IPC_RMID`. -/
  | rmid
  /-- No call: the process has ended. -/
  | ended
  deriving DecidableEq

/-- The variables of a process: its loop counter, the time slept, and the
    string in `buf`. -/
structure Locals where
  place : Place
  counter : Int32
  s : Int32
  buf : Bytes

/-- An entry, by who wrote it, in which turn of his loop, and how long he
    slept. -/
structure Entry where
  who : Process
  petla : Int32
  spalem : Int32

/-- How the entries of a process begin. -/
def Process.wpis : Process → Bytes
  | .parent => text "Wpis rodzica. Petla "
  | .child => text "Wpis dziecka. Petla "

/-- The text of an entry, as `sprintf` puts it into `buf`. -/
def Entry.line (e : Entry) : Bytes :=
  e.who.wpis ++ Sysv.decimal e.petla.toInt ++ text ". Spalem " ++ Sysv.decimal e.spalem.toInt ++
    text "\n"

/-- The semaphore, if it is there, the two processes, and what was written to
    `common.txt` and to standard output. -/
structure State where
  sem : Option Nat
  procs : Process → Locals
  common : Bytes
  stdout : Bytes

/-- The state with other variables for a process. -/
def State.put (st : State) (p : Process) (l : Locals) : State :=
  { st with procs := Function.update st.procs p l }

/-- The call after the loop. -/
def Process.afterLoop : Process → Place
  | .parent => .waitpid
  | .child => .ended

/-- `while (counter--)`. The counter wraps around at the least `int`, where the
    decrement overflows in C. -/
def Locals.whileTest (p : Process) (l : Locals) : Locals :=
  { l with
    counter := l.counter - 1
    place := if l.counter = 0 then p.afterLoop else .sleep }

/-- `int s = rand() % max_sleep_time + 1`, and the sleep. There is no remainder
    by zero. -/
def Locals.sleep (maxSleepTime rand : Int32) (l : Locals) : Locals :=
  if maxSleepTime = 0 then { l with place := .ended }
  else { l with s := rand % maxSleepTime + 1, place := .semLock }

/-- `semop(sem_id, &sem_lock, 1)`, which fails if the semaphore is removed and
    otherwise waits. -/
def State.semLock (st : State) (p : Process) : Option State :=
  let inside := st.put p { st.procs p with place := .sprintf }
  match st.sem with
  | none => some inside
  | some value => (semWait value).map fun value' => { inside with sem := some value' }

/-- `sprintf` -/
def Locals.sprintf (p : Process) (l : Locals) : Locals :=
  { l with
    buf := (Entry.mk p l.counter l.s).line
    place := .writeFd }

/-- `write(fd, buf, strlen(buf))` -/
def State.writeFd (st : State) (p : Process) : State :=
  { st.put p { st.procs p with place := .writeStdout } with
    common := st.common ++ (st.procs p).buf }

/-- `write(1, buf, strlen(buf))` -/
def State.writeStdout (st : State) (p : Process) : State :=
  { st.put p { st.procs p with place := .semUnlock } with
    stdout := st.stdout ++ (st.procs p).buf }

/-- `semop(sem_id, &sem_unlock, 1)` -/
def State.semUnlock (st : State) (p : Process) : State :=
  { st.put p { st.procs p with place := .whileTest } with sem := st.sem.map semPost }

/-- `waitpid(childPid, &status, 0)` -/
def State.waitpid (st : State) (p : Process) : Option State :=
  if (st.procs .child).place = .ended then some (st.put p { st.procs p with place := .rmid })
  else none

/-- `semctl(sem_id, 0, IPC_RMID)`, and the end. -/
def State.rmid (st : State) (p : Process) : State :=
  { st.put p { st.procs p with place := .ended } with sem := none }

/-- Which process goes on, and what `rand` returns if it is called. -/
structure Turn where
  who : Process
  rand : Int32

/-- The next call of a process, unless it has to wait. `rand` returns no
    negative numbers. -/
def step (maxSleepTime : Int32) (st : State) (t : Turn) : Option State :=
  match (st.procs t.who).place with
  | .whileTest => some (st.put t.who ((st.procs t.who).whileTest t.who))
  | .sleep =>
      if 0 ≤ t.rand then some (st.put t.who ((st.procs t.who).sleep maxSleepTime t.rand)) else none
  | .semLock => st.semLock t.who
  | .sprintf => some (st.put t.who ((st.procs t.who).sprintf t.who))
  | .writeFd => some (st.writeFd t.who)
  | .writeStdout => some (st.writeStdout t.who)
  | .semUnlock => some (st.semUnlock t.who)
  | .waitpid => st.waitpid t.who
  | .rmid => some (st.rmid t.who)
  | .ended => none

/-- The state after the `fork`. Nothing is known of the buffer. -/
def start (counts : Process → Int32) (buf : Bytes) : State where
  sem := some 1
  procs p := ⟨.whileTest, counts p, 0, buf⟩
  common := []
  stdout := []

/-- The process is between its `lock` and its `unlock`. -/
def Locals.Inside (l : Locals) : Prop :=
  l.place = .sprintf ∨ l.place = .writeFd ∨ l.place = .writeStdout ∨ l.place = .semUnlock

instance (l : Locals) : Decidable l.Inside := inferInstanceAs (Decidable (_ ∨ _ ∨ _ ∨ _))

/-- No character has more than four bytes. -/
theorem length_text_le (str : String) : (text str).length ≤ 4 * str.length := by
  rw [text, List.length_flatMap, ← String.length_toList]
  induction str.toList with
  | nil => exact Nat.le_refl 0
  | cons c cs ih =>
      rw [List.map_cons, List.sum_cons, List.length_cons, String.length_utf8EncodeChar]
      have hc := c.utf8Size_le_four
      omega

/-- A number of 32 bits has at most ten digits and a sign. -/
theorem length_decimal_le (n : Int32) : (Sysv.decimal n.toInt).length ≤ 44 := by
  have hlow := n.le_toInt
  have hhigh := n.toInt_lt
  refine Nat.le_trans (length_text_le _) (Nat.mul_le_mul_left 4 (m := 11) ?_)
  cases hn : n.toInt with
  | ofNat k =>
      rw [hn, Int.ofNat_eq_natCast] at hhigh
      have hrepr := Nat.repr_length k 10 (by decide) (by omega)
      exact Nat.le_succ_of_le hrepr
  | negSucc k =>
      rw [hn] at hlow
      have hrepr := Nat.repr_length (k + 1) 10 (by decide) (by omega)
      have hsign : "-".length = 1 := by decide
      change ("-" ++ Nat.repr (k + 1)).length ≤ 11
      rw [String.length_append]
      omega

/-- Every entry fits the 128 bytes of the buffer, with its NUL. -/
theorem length_line_lt (e : Entry) : e.line.length < 128 := by
  have hwho : e.who.wpis.length = 20 := by
    cases e.who <;> decide
  have hpetla := length_decimal_le e.petla
  have hspalem := length_decimal_le e.spalem
  have hmiddle : (text ". Spalem ").length = 9 := by decide
  have hend : (text "\n").length = 1 := by decide
  simp only [Entry.line, List.length_append]
  omega

@[simp] theorem put_self (st : State) (p : Process) (l : Locals) : (st.put p l).procs p = l :=
  Function.update_self ..

theorem put_of_ne (st : State) {p q : Process} (l : Locals) (h : q ≠ p) :
    (st.put p l).procs q = st.procs q :=
  Function.update_of_ne h ..

end Semafor

end OsLabs
