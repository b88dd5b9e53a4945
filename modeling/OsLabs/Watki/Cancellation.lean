import OsLabs.Library.Completion
import OsLabs.Library.Slots

/-!
# Threads that are Cancelled

`Funkcje/Watki/main.c`: the main thread starts `n` threads that greet without
end, greets a number of times itself, and then cancels and joins them one after
another.

A thread gets its number in memory of its own, which it reads and gives back
before it does anything else. Cancellation is deferred: a request waits until
the thread comes to a cancellation point, and there is none before it has given
the memory back. At `sleep` and at `pthread_testcancel` a thread with a request
ends for certain; `printf` may be a cancellation point, so there it may end or
go on.

The threads do not end by themselves, so runs need not end. But the main thread
takes boundedly many steps, and so does a thread once it has been cancelled, and
one of these can always take place until the program is through. A run in which
they are not put off for ever is through some time, with all memory given back
once, and `DONE` as the last that is printed.

If a thread cannot be started the program returns at once, which ends the
threads there are. The calls that set the state and the type of cancellation
set what is set already. Left out is the time spent in `sleep`. The number of
repetitions is taken to be below `INT_MAX`: with that one itself `i++` would
overflow before the loop of `main` is over.

## Main definitions

* `Thread`, `hello`, `canceled`: A thread and its steps.
* `State`, `mainStep`, `step`: The program.
* `greetings`: What a thread has to say.
* `Inv`: Who has been started and cancelled, and what was printed.
* `rank`: The steps of the main thread and of cancelled threads that are left.
* `Orderly`, `Through`: What is printed, and what holds in the end.

## Theorems

* `sound_hello`, `sound_canceled`: A thread greets in turns, and frees its
  memory once.
* `inv_step`: The invariant.
* `orderly_of_reaches`: What holds in every run.
* `completes_through`: The program comes to its end.
-/

namespace OsLabs

namespace Watki

open Machine

section Program

/-- The memory with the number of a thread. -/
inductive Cell where
  | unallocated
  | holds (v : Nat)
  | freed
  deriving DecidableEq

/-- The next call of a thread. -/
inductive Place where
  | uncreated
  | load
  | free
  | sleep1
  | setState
  | setType
  | hello
  | testCancel
  | again
  | sleep2
  | ended
  deriving DecidableEq

/-- A thread, with its argument, `thread_num` once it is set, and whether it
    has been cancelled. -/
structure Thread where
  place : Place
  arg : Cell
  num : Nat
  request : Bool
  deriving DecidableEq

/-- What is printed. -/
inductive Line where
  | hello (num : Nat)
  | again (num : Nat)
  | main (i : Nat)
  | done
  deriving DecidableEq

/-- Where the main thread is: in one of its loops, or behind them. -/
inductive MainPlace where
  | creating (i : Nat)
  | greeting (i : Nat)
  | canceling (i : Nat)
  | joining (i : Nat)
  | free
  | printDone
  | returned
  /-- After a `pthread_create` that failed. -/
  | failed (i : Nat)
  deriving DecidableEq

structure State (n : Nat) where
  threads : Fin n → Thread
  main : MainPlace
  output : List Line

inductive Event (n : Nat) where
  | main
  /-- A thread cannot be started. -/
  | createFails
  | thread (t : Fin n)
  /-- A thread ends at a cancellation point. -/
  | canceled (t : Fin n)

variable {n : Nat}

def init (n : Nat) : State n := ⟨fun _ => ⟨.uncreated, .unallocated, 0, false⟩, .creating 0, []⟩

/-- A step of `hello`, with what is printed. Memory that is not there can be
    neither read nor freed, and a thread with a request does not come past a
    `sleep` or `pthread_testcancel`. -/
def hello (th : Thread) : Option (Thread × List Line) :=
  match th.place with
  | .uncreated | .ended => none
  | .load =>
      match th.arg with
      | .holds v => some ({ th with num := v, place := .free }, [])
      | _ => none
  | .free =>
      match th.arg with
      | .holds _ => some ({ th with arg := .freed, place := .sleep1 }, [])
      | _ => none
  | .sleep1 => if th.request then none else some ({ th with place := .setState }, [])
  | .setState => some ({ th with place := .setType }, [])
  | .setType => some ({ th with place := .hello }, [])
  | .hello => some ({ th with place := .testCancel }, [.hello th.num])
  | .testCancel => if th.request then none else some ({ th with place := .again }, [])
  | .again => some ({ th with place := .sleep2 }, [.again th.num])
  | .sleep2 => if th.request then none else some ({ th with place := .hello }, [])

/-- A request may take effect in these calls. -/
def Place.cancelable : Place → Bool
  | .sleep1 | .hello | .testCancel | .again | .sleep2 => true
  | .uncreated | .load | .free | .setState | .setType | .ended => false

/-- The request of a thread takes effect. -/
def canceled (th : Thread) : Option Thread :=
  if th.request ∧ th.place.cancelable then some { th with place := .ended } else none

def State.setThread (s : State n) (t : Fin n) (th : Thread) : State n :=
  { s with threads := Function.update s.threads t th }

/-- `main`, with `reps` for the second argument. -/
def mainStep (reps : Int) (s : State n) : Option (State n) :=
  match s.main with
  | .creating i =>
      if h : i < n then
        some { s.setThread ⟨i, h⟩ ⟨.load, .holds (i + 1), 0, false⟩ with main := .creating (i + 1) }
      else some { s with main := .greeting 0 }
  | .greeting i =>
      if (i : Int) < reps then
        some { s with main := .greeting (i + 1), output := s.output ++ [.main (i + 1)] }
      else some { s with main := .canceling 0 }
  | .canceling i =>
      if h : i < n then
        some { s.setThread ⟨i, h⟩ { s.threads ⟨i, h⟩ with request := true } with
          main := .joining i }
      else some { s with main := .free }
  | .joining i =>
      if h : i < n then
        if (s.threads ⟨i, h⟩).place = .ended then some { s with main := .canceling (i + 1) }
        else none
      else none
  | .free => some { s with main := .printDone }
  | .printDone => some { s with main := .returned, output := s.output ++ [.done] }
  | .returned | .failed _ => none

/-- The program is over, and with it all threads. -/
def MainPlace.over : MainPlace → Bool
  | .returned | .failed _ => true
  | _ => false

def step (reps : Int) (s : State n) (e : Event n) : Option (State n) :=
  if s.main.over then none
  else
    match e with
    | .main => mainStep reps s
    | .createFails =>
        match s.main with
        | .creating i => if i < n then some { s with main := .failed i } else none
        | _ => none
    | .thread t =>
        (hello (s.threads t)).map fun r =>
          { s.setThread t r.1 with output := s.output ++ r.2 }
    | .canceled t => (canceled (s.threads t)).map fun th => s.setThread t th

/-- The main thread takes a step, or a thread that has been cancelled. -/
def awaited (s : State n) : Event n → Bool
  | .main | .createFails => true
  | .thread t | .canceled t => (s.threads t).request

end Program

section Statement

variable {n : Nat}

/-- The greeting of a thread that comes after `j` others. -/
def greeting (num j : Nat) : Line := if j % 2 = 0 then .hello num else .again num

/-- The first greetings of a thread. -/
def greetings (num m : Nat) : List Line := (List.range m).map (greeting num)

/-- The thread that prints a line. -/
def Line.author : Line → Option Nat
  | .hello num | .again num => some num
  | .main _ | .done => none

def Line.isMain : Line → Bool
  | .main _ => true
  | _ => false

/-- What the main thread has to say. -/
def mainLines (m : Nat) : List Line := (List.range m).map fun j => .main (j + 1)

/-- Everybody says what they have to say, in order, and uses their own number.
    No thread ends before the main thread has said everything. -/
structure Orderly (reps : Int) (s : State n) : Prop where
  threads : ∀ t : Fin n, ∃ m, s.output.filter (fun l => l.author = some (t.val + 1))
    = greetings (t.val + 1) m
  main : ∃ m ≤ reps.toNat, s.output.filter Line.isMain = mainLines m
  numbers : ∀ l ∈ s.output, ∀ num, l.author = some num → 1 ≤ num ∧ num ≤ n
  late : (∃ t, (s.threads t).place = .ended) → s.output.filter Line.isMain = mainLines reps.toNat
  freed : ∀ t, (s.threads t).place = .ended → (s.threads t).arg = .freed

/-- The program has come to its end: all threads have ended and have given
    their memory back, and `DONE` was printed last, or a thread could not be
    started. -/
def Through (reps : Int) (s : State n) : Prop :=
  (∃ i, s.main = .failed i) ∨
  s.main = .returned ∧ (∀ t, (s.threads t).place = .ended ∧ (s.threads t).arg = .freed) ∧
    ∃ lines, s.output = lines ++ [.done] ∧ .done ∉ lines ∧
      lines.filter Line.isMain = mainLines reps.toNat

end Statement

section Greetings

theorem greetings_succ (num m : Nat) :
    greetings num (m + 1) = greetings num m ++ [greeting num m] := by
  unfold greetings
  rw [List.range_succ, List.map_append, List.map_singleton]

theorem mainLines_succ (m : Nat) : mainLines (m + 1) = mainLines m ++ [.main (m + 1)] := by
  unfold mainLines
  rw [List.range_succ, List.map_append, List.map_singleton]

/-- A thread with this number, after so many greetings. -/
def Thread.Sound (num m : Nat) (th : Thread) : Prop :=
  match th.place with
  | .uncreated => m = 0
  | .load => th.arg = .holds num ∧ m = 0
  | .free => th.arg = .holds num ∧ th.num = num ∧ m = 0
  | .sleep1 | .setState | .setType => th.arg = .freed ∧ th.num = num ∧ m = 0
  | .hello | .sleep2 => th.arg = .freed ∧ th.num = num ∧ m % 2 = 0
  | .testCancel | .again => th.arg = .freed ∧ th.num = num ∧ m % 2 = 1
  | .ended => th.arg = .freed

/-- What a step of a thread does to it, and what it prints. -/
structure Greets (num m : Nat) (th th' : Thread) (out : List Line) : Prop where
  sound : ∃ m', greetings num m ++ out = greetings num m' ∧ th'.Sound num m'
  author : ∀ l ∈ out, l.author = some num
  started : th.place ≠ .uncreated ∧ th'.place ≠ .uncreated
  going : th'.place ≠ .ended
  request : th'.request = th.request

/-- A step without a greeting. -/
theorem greets_nil {num m : Nat} {th th' : Thread} (hsound : th'.Sound num m)
    (hstarted : th.place ≠ .uncreated ∧ th'.place ≠ .uncreated) (hgoing : th'.place ≠ .ended)
    (hrequest : th'.request = th.request) : Greets num m th th' [] where
  sound := ⟨m, List.append_nil _, hsound⟩
  author := fun _ hl => absurd hl List.not_mem_nil
  started := hstarted
  going := hgoing
  request := hrequest

theorem greets_single {num m : Nat} {th th' : Thread} {l : Line} (hl : greeting num m = l)
    (hauthor : l.author = some num) (hsound : th'.Sound num (m + 1))
    (hstarted : th.place ≠ .uncreated ∧ th'.place ≠ .uncreated) (hgoing : th'.place ≠ .ended)
    (hrequest : th'.request = th.request) : Greets num m th th' [l] where
  sound := ⟨m + 1, by rw [greetings_succ, hl], hsound⟩
  author := fun l' hl' => by rwa [List.mem_singleton.mp hl']
  started := hstarted
  going := hgoing
  request := hrequest

theorem greets_of_hello {num m : Nat} {th th' : Thread} {out : List Line} (h : th.Sound num m)
    (hstep : hello th = some (th', out)) : Greets num m th th' out := by
  rcases th with ⟨place, arg, tnum, request⟩
  cases place with
  | uncreated | ended => cases hstep
  | load =>
      -- The number is read from memory that the main thread has filled.
      rcases h with ⟨harg, hm⟩
      dsimp only at harg
      subst harg
      cases hstep
      exact greets_nil ⟨rfl, rfl, hm⟩ (by simp) (by simp) rfl
  | free =>
      -- The memory goes back here, with its number read.
      rcases h with ⟨harg, hnum, hm⟩
      dsimp only at harg
      subst harg
      cases hstep
      exact greets_nil ⟨rfl, hnum, hm⟩ (by simp) (by simp) rfl
  | sleep1 | testCancel | sleep2 =>
      -- Before these a thread with a request ends, so it has none if it goes on.
      simp only [hello] at hstep
      split at hstep
      · cases hstep
      · cases hstep
        exact greets_nil h (by simp) (by simp) rfl
  | setState =>
      cases hstep
      exact greets_nil h (by simp) (by simp) rfl
  | setType =>
      -- The first greeting is an even one, and none has been said yet.
      rcases h with ⟨harg, hnum, hm⟩
      cases hstep
      exact greets_nil ⟨harg, hnum, by omega⟩ (by simp) (by simp) rfl
  | hello =>
      -- An even number of greetings so far: the next one is the first of a turn.
      rcases h with ⟨harg, hnum, hm⟩
      dsimp only at hnum
      subst hnum
      cases hstep
      exact greets_single (if_pos hm) rfl ⟨harg, rfl, by omega⟩ (by simp) (by simp) rfl
  | again =>
      -- An odd number: the second of a turn.
      rcases h with ⟨harg, hnum, hm⟩
      dsimp only at hnum
      subst hnum
      cases hstep
      exact greets_single (if_neg (by omega)) rfl ⟨harg, rfl, by omega⟩ (by simp) (by simp) rfl

/-- Where a request can take effect the memory has been given back. -/
theorem sound_canceled {num m : Nat} {th th' : Thread} (h : th.Sound num m)
    (hstep : canceled th = some th') :
    th'.Sound num m ∧ th.request = true ∧ th' = { th with place := .ended } ∧
      th.place ≠ .uncreated := by
  rcases th with ⟨place, arg, tnum, request⟩
  unfold canceled at hstep
  split at hstep
  -- Between the start of a thread and `free` there is no cancellation point.
  · rename_i hcan
    cases hstep
    cases place with
    | uncreated | load | free | setState | setType | ended => simp [Place.cancelable] at hcan
    | sleep1 | hello | testCancel | again | sleep2 => exact ⟨h.1, hcan.1, rfl, by simp⟩
  · cases hstep

/-- A thread that has not ended can go on, or end. -/
theorem goes_on {num m : Nat} {th : Thread} (h : th.Sound num m) (hstarted : th.place ≠ .uncreated)
    (hgoing : th.place ≠ .ended) (hrequest : th.request = true) :
    hello th ≠ none ∨ canceled th ≠ none := by
  rcases th with ⟨place, arg, tnum, request⟩
  dsimp only at hrequest
  subst hrequest
  cases place with
  | uncreated => exact absurd rfl hstarted
  | ended => exact absurd rfl hgoing
  -- Without a cancellation point the thread itself goes on, if its number is there to be read.
  | load | free =>
      have harg : arg = .holds num := h.1
      rw [harg]
      exact Or.inl (Option.some_ne_none _)
  | setState | setType => exact Or.inl (Option.some_ne_none _)
  -- Everywhere else the request can take effect.
  | sleep1 | hello | testCancel | again | sleep2 => exact Or.inr (Option.some_ne_none _)

end Greetings

section Invariant

variable {n : Nat} {reps : Int} {s s' : State n}

/-- How many threads have been started. -/
def MainPlace.started (n : Nat) : MainPlace → Nat
  | .creating i | .failed i => i
  | .greeting _ | .canceling _ | .joining _ | .free | .printDone | .returned => n

/-- How many have been cancelled, and how many joined. -/
def MainPlace.requested (n : Nat) : MainPlace → Nat
  | .creating _ | .failed _ | .greeting _ => 0
  | .canceling i => i
  | .joining i => i + 1
  | .free | .printDone | .returned => n

def MainPlace.joined (n : Nat) : MainPlace → Nat
  | .creating _ | .failed _ | .greeting _ => 0
  | .canceling i | .joining i => i
  | .free | .printDone | .returned => n

/-- How often the main thread has greeted. -/
def MainPlace.greeted (reps : Int) : MainPlace → Nat
  | .creating _ | .failed _ => 0
  | .greeting i => i
  | .canceling _ | .joining _ | .free | .printDone | .returned => reps.toNat

/-- What is printed at the very end. -/
def MainPlace.last : MainPlace → List Line
  | .returned => [.done]
  | _ => []

theorem last_of_ne {main : MainPlace} (h : main ≠ .returned) : main.last = [] := by
  cases main with
  | returned => exact absurd rfl h
  | _ => rfl

/-- What a thread has printed. -/
def ownLines (t : Fin n) (output : List Line) : List Line :=
  output.filter fun l => l.author = some (t.val + 1)

/-- A thread is where the main thread has put it. -/
structure Thread.Stands (main : MainPlace) (t : Fin n) (th : Thread) : Prop where
  started : th.place = .uncreated ↔ main.started n ≤ t.val
  requested : th.request = true ↔ t.val < main.requested n
  ended : th.place = .ended → th.request = true
  joined : t.val < main.joined n → th.place = .ended

/-- Who has been started and cancelled, and what was printed. -/
structure Inv (reps : Int) (s : State n) : Prop where
  stands : ∀ t, (s.threads t).Stands s.main t
  threads : ∀ t, ∃ m, ownLines t s.output = greetings (t.val + 1) m ∧
    (s.threads t).Sound (t.val + 1) m
  main : s.output.filter Line.isMain = mainLines (s.main.greeted reps)
  greets : ∀ i, s.main = .greeting i → i ≤ reps.toNat
  joins : ∀ i, s.main = .joining i → i < n
  numbers : ∀ l ∈ s.output, ∀ num, l.author = some num → 1 ≤ num ∧ num ≤ n
  done : ∃ lines, s.output = lines ++ s.main.last ∧ .done ∉ lines

theorem inv_init : Inv reps (init n) where
  stands := fun _ => {
    started := iff_of_true rfl (Nat.zero_le _)
    requested := iff_of_false Bool.false_ne_true (Nat.not_lt_zero _)
    ended := fun h => by cases h
    joined := fun h => absurd h (Nat.not_lt_zero _) }
  threads := fun _ => ⟨0, rfl, rfl⟩
  main := rfl
  greets := fun _ h => by cases h
  joins := fun _ h => by cases h
  numbers := fun _ h => absurd h List.not_mem_nil
  done := ⟨[], rfl, List.not_mem_nil⟩

theorem ownLines_append_of_ne (t : Fin n) {output out : List Line}
    (h : ∀ l ∈ out, l.author ≠ some (t.val + 1)) :
    ownLines t (output ++ out) = ownLines t output := by
  have hnil : out.filter (fun l => l.author = some (t.val + 1)) = [] :=
    List.filter_eq_nil_iff.mpr fun l hl => by simpa using h l hl
  rw [ownLines, List.filter_append, hnil, List.append_nil, ownLines]

theorem ownLines_append_own (t : Fin n) {output out : List Line}
    (h : ∀ l ∈ out, l.author = some (t.val + 1)) :
    ownLines t (output ++ out) = ownLines t output ++ out := by
  have hall : out.filter (fun l => l.author = some (t.val + 1)) = out :=
    List.filter_eq_self.mpr fun l hl => by simpa using h l hl
  rw [ownLines, List.filter_append, hall, ownLines]

/-- What a thread says is nothing that the main thread says. -/
theorem not_main_of_author {num : Nat} {out : List Line} (h : ∀ l ∈ out, l.author = some num) :
    out.filter Line.isMain = [] ∧ .done ∉ out := by
  constructor
  · rw [List.filter_eq_nil_iff]
    intro l hl
    have hauthor := h l hl
    cases l with
    | hello | again => simp [Line.isMain]
    | main | done => cases hauthor
  · intro hl
    cases h _ hl

/-- A thread takes a step and greets. -/
theorem inv_hello (h : Inv reps s) (hopen : s.main ≠ .returned) {t : Fin n} {th : Thread}
    {out : List Line} (hstep : hello (s.threads t) = some (th, out)) :
    Inv reps { s.setThread t th with output := s.output ++ out } := by
  rcases h.threads t with ⟨m, hown, hsound⟩
  have hgreets := greets_of_hello hsound hstep
  have hstands := h.stands t
  rcases not_main_of_author hgreets.author with ⟨hmain, hdone⟩
  -- The thread itself stands as before: it had been started, and does not end.
  have hthread : th.Stands s.main t := by
    refine ⟨iff_of_false hgreets.started.2 (mt hstands.started.mpr hgreets.started.1), ?_,
      fun hended => absurd hended hgreets.going, fun hjoined => ?_⟩
    · rw [hgreets.request]
      exact hstands.requested
    · have hended := hstands.joined hjoined
      unfold hello at hstep
      rw [hended] at hstep
      cases hstep
  refine ⟨?_, fun t' => ?_, ?_, h.greets, h.joins, fun l hl num hnum => ?_, ?_⟩
  -- The others have not moved.
  · rw [State.setThread, Function.forall_update_iff s.threads fun t' th' => th'.Stands s.main t']
    exact ⟨hthread, fun t' _ => h.stands t'⟩
  -- Its lines grow by what it has just said, and theirs do not.
  · by_cases ht : t' = t
    · subst ht
      rcases hgreets.sound with ⟨m', hm', hsound'⟩
      refine ⟨m', by rw [ownLines_append_own t' hgreets.author, hown, hm'], ?_⟩
      simpa only [State.setThread, Function.update_self] using hsound'
    · rcases h.threads t' with ⟨m', hown', hsound'⟩
      refine ⟨m', ?_, ?_⟩
      · rw [ownLines_append_of_ne t' fun l hl heq => ?_, hown']
        rw [hgreets.author l hl, Option.some.injEq, Nat.add_right_cancel_iff] at heq
        exact ht (Fin.ext heq.symm)
      · simpa only [State.setThread, Function.update_of_ne ht] using hsound'
  -- It says nothing that is counted for the main thread,
  · rw [List.filter_append, hmain, List.append_nil]
    exact h.main
  -- and puts its own number under it.
  · rcases List.mem_append.mp hl with hold | hnew
    · exact h.numbers l hold num hnum
    · rw [hgreets.author l hnew, Option.some.injEq] at hnum
      omega
  -- `DONE` is not there, since the main thread has not returned.
  · rcases h.done with ⟨lines, hlines, hnot⟩
    rw [last_of_ne hopen, List.append_nil] at hlines
    refine ⟨lines ++ out, ?_, ?_⟩
    · rw [State.setThread, last_of_ne hopen, List.append_nil, hlines]
    · rw [List.mem_append, not_or]
      exact ⟨hnot, hdone⟩

theorem inv_canceled (h : Inv reps s) {t : Fin n} {th : Thread}
    (hstep : canceled (s.threads t) = some th) : Inv reps (s.setThread t th) := by
  rcases h.threads t with ⟨m, hown, hsound⟩
  rcases sound_canceled hsound hstep with ⟨hsound', hrequest, rfl, hstarted⟩
  have hstands := h.stands t
  refine ⟨?_, fun t' => ?_, h.main, h.greets, h.joins, h.numbers, h.done⟩
  -- A request was there before, and now it has taken effect.
  · rw [State.setThread, Function.forall_update_iff s.threads fun t' th' => th'.Stands s.main t']
    exact ⟨⟨iff_of_false (by simp) (mt hstands.started.mpr hstarted), hstands.requested,
      fun _ => hrequest, fun _ => rfl⟩, fun t' _ => h.stands t'⟩
  -- Nothing is printed, so the lines are those of before.
  · by_cases ht : t' = t
    · subst ht
      exact ⟨m, hown, by simpa only [State.setThread, Function.update_self] using hsound'⟩
    · simpa only [State.setThread, Function.update_of_ne ht] using h.threads t'

/-- The main thread goes on, and says nothing. -/
theorem inv_goes (h : Inv reps s) {threads : Fin n → Thread} {main : MainPlace}
    (hstands : ∀ t, (threads t).Stands main t)
    (hsound : ∀ t m, (s.threads t).Sound (t.val + 1) m → (threads t).Sound (t.val + 1) m)
    (hgreeted : s.main.greeted reps = main.greeted reps)
    (hgreets : ∀ i, main = .greeting i → i ≤ reps.toNat) (hjoins : ∀ i, main = .joining i → i < n)
    (hold : s.main ≠ .returned) (hnew : main ≠ .returned) :
    Inv reps { s with threads, main } where
  stands := hstands
  threads := fun t => by
    rcases h.threads t with ⟨m, hown, hm⟩
    exact ⟨m, hown, hsound t m hm⟩
  main := h.main.trans (congrArg mainLines hgreeted)
  greets := hgreets
  joins := hjoins
  numbers := h.numbers
  done := by
    rcases h.done with ⟨lines, hlines, hdone⟩
    rw [last_of_ne hold] at hlines
    exact ⟨lines, by rw [hlines, last_of_ne hnew], hdone⟩

/-- It goes on, and says something. -/
theorem inv_says (h : Inv reps s) {main : MainPlace} {l : Line}
    (hstands : ∀ t, (s.threads t).Stands main t) (hauthor : l.author = none)
    (hmain : (s.output ++ [l]).filter Line.isMain = mainLines (main.greeted reps))
    (hgreets : ∀ i, main = .greeting i → i ≤ reps.toNat) (hjoins : ∀ i, main ≠ .joining i)
    (hold : s.main ≠ .returned) (hnew : l = .done ↔ main = .returned) :
    Inv reps { s with main, output := s.output ++ [l] } where
  stands := hstands
  threads := fun t => by
    rcases h.threads t with ⟨m, hown, hm⟩
    refine ⟨m, ?_, hm⟩
    -- The line has no author among the threads.
    rw [ownLines_append_of_ne t fun l' hl' => ?_, hown]
    rw [List.mem_singleton.mp hl', hauthor]
    exact (Option.some_ne_none _).symm
  main := hmain
  greets := hgreets
  joins := fun i hi => absurd hi (hjoins i)
  numbers := fun l' hl' num hnum => by
    rcases List.mem_append.mp hl' with hin | hlast
    · exact h.numbers l' hin num hnum
    · rw [List.mem_singleton.mp hlast, hauthor] at hnum
      cases hnum
  done := by
    rcases h.done with ⟨lines, hlines, hdone⟩
    rw [last_of_ne hold, List.append_nil] at hlines
    -- If the line is `DONE`, it is the last, and otherwise it comes before.
    by_cases hl : l = .done
    · exact ⟨lines, by rw [hlines, hnew.mp hl, hl, MainPlace.last], hdone⟩
    · refine ⟨lines ++ [l], by rw [hlines, last_of_ne (mt hnew.mpr hl), List.append_nil], ?_⟩
      rw [List.mem_append, List.mem_singleton, not_or]
      exact ⟨hdone, fun heq => hl heq.symm⟩

/-- A thread that the main thread leaves alone. -/
theorem Thread.Stands.congr {main main' : MainPlace} {t : Fin n} {th : Thread}
    (h : th.Stands main t) (hstarted : main.started n ≤ t.val ↔ main'.started n ≤ t.val)
    (hrequested : t.val < main.requested n ↔ t.val < main'.requested n)
    (hjoined : t.val < main'.joined n → t.val < main.joined n ∨ th.place = .ended) :
    th.Stands main' t where
  started := h.started.trans hstarted
  requested := h.requested.trans hrequested
  ended := h.ended
  joined := fun ht => (hjoined ht).elim h.joined id

theorem inv_mainStep (h : Inv reps s) (hstep : mainStep reps s = some s') : Inv reps s' := by
  rcases s with ⟨threads, main, output⟩
  cases main with
  | returned | failed => cases hstep
  | creating i =>
      -- Either the next thread is started, or all have been.
      simp only [mainStep] at hstep
      split at hstep
      · rename_i hi
        rw [← Option.some.inj hstep]
        refine inv_goes h ?_ (fun t m hsound => ?_) rfl (by simp) (by simp) (by simp) (by simp)
        -- The new thread stands where one stands that was just started; the others do not notice.
        · rw [State.setThread, Function.forall_update_iff threads fun t th => th.Stands _ t]
          refine ⟨⟨by simp [MainPlace.started], by simp [MainPlace.requested], by simp,
            by simp [MainPlace.joined]⟩, fun t ht => ?_⟩
          have hne : t.val ≠ i := fun heq => ht (Fin.ext heq)
          refine (h.stands t).congr ?_ Iff.rfl Or.inl
          simp only [MainPlace.started]
          omega
        · by_cases ht : t = ⟨i, hi⟩
          · -- It has not been there before, and has not said anything.
            have hplace : (threads t).place = .uncreated :=
              (h.stands t).started.mpr (by rw [ht]; exact Nat.le_refl i)
            simp only [Thread.Sound, hplace] at hsound
            rw [ht]
            simp only [State.setThread, Function.update_self]
            exact ⟨rfl, hsound⟩
          · simpa only [State.setThread, Function.update_of_ne ht] using hsound
      · rename_i hi
        rw [← Option.some.inj hstep]
        refine inv_goes h (fun t => (h.stands t).congr ?_ Iff.rfl Or.inl) (fun _ _ => id) rfl
          (by simp) (by simp) (by simp) (by simp)
        have ht := t.isLt
        simp only [MainPlace.started]
        omega
  | greeting i =>
      -- Either another greeting of the main thread, or its loop is over.
      have hle := h.greets i rfl
      simp only [mainStep] at hstep
      split at hstep
      · rename_i hlt
        rw [← Option.some.inj hstep]
        refine inv_says h (fun t => (h.stands t).congr Iff.rfl Iff.rfl Or.inl) rfl ?_
          (fun j hj => ?_) (by simp) (by simp) (by simp)
        · rw [List.filter_append, h.main]
          exact (mainLines_succ i).symm
        · rw [MainPlace.greeting.injEq] at hj
          omega
      · rename_i hge
        rw [← Option.some.inj hstep]
        refine inv_goes h (fun t => (h.stands t).congr Iff.rfl Iff.rfl Or.inl) (fun _ _ => id) ?_
          (by simp) (by simp) (by simp) (by simp)
        simp only [MainPlace.greeted]
        omega
  | canceling i =>
      -- Either the next thread gets its request, or all have ended.
      simp only [mainStep] at hstep
      split at hstep
      · rename_i hi
        rw [← Option.some.inj hstep]
        refine inv_goes h ?_ (fun t m hsound => ?_) rfl (by simp) (fun j hj => ?_) (by simp)
          (by simp)
        -- The request is there for one thread more.
        · rw [State.setThread, Function.forall_update_iff threads fun t th => th.Stands _ t]
          refine ⟨⟨(h.stands _).started, by simp [MainPlace.requested], fun _ => rfl,
            by simp [MainPlace.joined]⟩, fun t ht => ?_⟩
          have hne : t.val ≠ i := fun heq => ht (Fin.ext heq)
          refine (h.stands t).congr Iff.rfl ?_ Or.inl
          simp only [MainPlace.requested]
          omega
        · by_cases ht : t = ⟨i, hi⟩
          · rw [ht] at hsound ⊢
            simp only [State.setThread, Function.update_self]
            exact hsound
          · simpa only [State.setThread, Function.update_of_ne ht] using hsound
        · rw [MainPlace.joining.injEq] at hj
          omega
      · rename_i hi
        rw [← Option.some.inj hstep]
        refine inv_goes h (fun t => (h.stands t).congr Iff.rfl ?_ fun _ => Or.inl ?_)
          (fun _ _ => id) rfl (by simp) (by simp) (by simp) (by simp)
        · have ht := t.isLt
          simp only [MainPlace.requested]
          omega
        · exact Nat.lt_of_lt_of_le t.isLt (Nat.not_lt.mp hi)
  | joining i =>
      -- The join comes back when the thread has ended, so one more has been joined.
      simp only [mainStep] at hstep
      split at hstep
      · rename_i hi
        split at hstep
        · rename_i hended
          rw [← Option.some.inj hstep]
          refine inv_goes h (fun t => (h.stands t).congr Iff.rfl Iff.rfl fun ht => ?_)
            (fun _ _ => id) rfl (by simp) (by simp) (by simp) (by simp)
          rcases Nat.lt_succ_iff_lt_or_eq.mp ht with hlt | heq
          · exact Or.inl hlt
          · have htend : t = ⟨i, hi⟩ := Fin.ext heq
            exact Or.inr (htend ▸ hended)
        · cases hstep
      · cases hstep
  | free =>
      rw [← Option.some.inj hstep]
      exact inv_goes h (fun t => (h.stands t).congr Iff.rfl Iff.rfl Or.inl) (fun _ _ => id) rfl
        (by simp) (by simp) (by simp) (by simp)
  | printDone =>
      rw [← Option.some.inj hstep]
      refine inv_says h (fun t => (h.stands t).congr Iff.rfl Iff.rfl Or.inl) rfl ?_ (by simp)
        (by simp) (by simp) (by simp)
      rw [List.filter_append, h.main]
      exact List.append_nil _

theorem inv_step {e : Event n} (h : Inv reps s) (hstep : step reps s e = some s') :
    Inv reps s' := by
  unfold step at hstep
  split at hstep
  · cases hstep
  · rename_i hover
    -- Nobody takes a step once the main thread has returned.
    have hopen : s.main ≠ .returned := by
      intro heq
      rw [heq] at hover
      exact hover rfl
    cases e with
    | main => exact inv_mainStep h hstep
    -- Where a thread is not created, those that were stay as they are.
    | createFails =>
        dsimp only at hstep
        split at hstep
        · rename_i i hmain
          split at hstep
          · rw [← Option.some.inj hstep]
            refine inv_goes h (fun t => ?_) (fun _ _ => id) (by rw [hmain]; rfl) (by simp) (by simp)
              hopen (by simp)
            have hstands := h.stands t
            rw [hmain] at hstands
            exact hstands.congr Iff.rfl Iff.rfl Or.inl
          · cases hstep
        · cases hstep
    | thread t =>
        rcases Option.map_eq_some_iff.mp hstep with ⟨⟨th, out⟩, hhello, rfl⟩
        exact inv_hello h hopen hhello
    | canceled t =>
        rcases Option.map_eq_some_iff.mp hstep with ⟨th, hcanceled, rfl⟩
        exact inv_canceled h hcanceled

end Invariant

section Rank

variable {n : Nat} {reps : Int} {s s' : State n}

/-- How many steps a thread takes until it ends, at most, if it has to. -/
def Place.left : Place → Nat
  | .uncreated | .ended => 0
  | .sleep1 | .testCancel | .sleep2 => 1
  | .free | .hello | .again => 2
  | .load | .setType => 3
  | .setState => 4

def Thread.left (th : Thread) : Nat := if th.request then th.place.left else 0

/-- How many steps the main thread takes, with those that it makes the threads
    take. -/
def MainPlace.left (n : Nat) (reps : Int) : MainPlace → Nat
  | .returned | .failed _ => 0
  | .printDone => 1
  | .free => 2
  | .canceling i => 6 * (n - i) + 3
  | .joining i => 6 * (n - i) - 2
  | .greeting i => (reps - i).toNat + 6 * n + 4
  | .creating i => (n - i) + reps.toNat + 6 * n + 5

/-- How many steps are left that have to be waited for. -/
def rank (reps : Int) (s : State n) : Nat := (∑ t, (s.threads t).left) + s.main.left n reps

theorem left_le (th : Thread) : th.left ≤ 4 := by
  unfold Thread.left
  split
  · cases th.place <;> decide
  · exact Nat.zero_le 4

/-- A thread that has to end comes nearer to it, and others do not matter. -/
theorem left_hello {th th' : Thread} {out : List Line} (hstep : hello th = some (th', out)) :
    th'.left + (if th.request then 1 else 0) ≤ th.left := by
  rcases th with ⟨place, arg, num, request⟩
  cases request with
  | false =>
      -- Nobody waits for it: nothing counts.
      cases place <;> cases arg <;> cases hstep <;> exact Nat.le_refl 0
  | true =>
      -- Every step of `hello` is one of those that are counted.
      cases place <;> cases arg <;> cases hstep <;> exact Nat.le_refl _

theorem left_canceled {th th' : Thread} (hstep : canceled th = some th') :
    th'.left + (if th.request then 1 else 0) ≤ th.left := by
  rcases th with ⟨place, arg, num, request⟩
  unfold canceled at hstep
  split at hstep
  · rename_i hcan
    rcases hcan with ⟨hrequest, hplace⟩
    dsimp only at hrequest hplace
    subst hrequest
    cases hstep
    cases place with
    | uncreated | load | free | setState | setType | ended => cases hplace
    | sleep1 | hello | testCancel | again | sleep2 => exact Nat.succ_le_succ (Nat.zero_le _)
  · cases hstep

theorem rank_setThread (reps : Int) (s : State n) (t : Fin n) (th : Thread) (main : MainPlace)
    (output : List Line) :
    rank reps ⟨(s.setThread t th).threads, main, output⟩ + (s.threads t).left + s.main.left n reps
      = rank reps s + th.left + main.left n reps := by
  have hsum := sum_move Thread.left s.threads t th
  simp only [rank, State.setThread]
  omega

theorem rank_mainStep (hstep : mainStep reps s = some s') : rank reps s' + 1 ≤ rank reps s := by
  rcases s with ⟨threads, main, output⟩
  cases main with
  | returned | failed => cases hstep
  | creating i =>
      simp only [mainStep] at hstep
      split at hstep
      -- A new thread has no request yet, and counts nothing.
      · rename_i hi
        have hset := rank_setThread reps ⟨threads, .creating i, output⟩ ⟨i, hi⟩
          ⟨.load, .holds (i + 1), 0, false⟩ (.creating (i + 1)) output
        rw [← Option.some.inj hstep]
        simp only [MainPlace.left, Thread.left, Bool.false_eq_true, if_false] at hset
        simp only [State.setThread] at hset ⊢
        omega
      · rw [← Option.some.inj hstep]
        simp only [rank, MainPlace.left]
        omega
  | greeting i =>
      simp only [mainStep] at hstep
      split at hstep
      · rw [← Option.some.inj hstep]
        simp only [rank, MainPlace.left]
        omega
      · rw [← Option.some.inj hstep]
        simp only [rank, MainPlace.left]
        omega
  | canceling i =>
      simp only [mainStep] at hstep
      split at hstep
      -- With the request its steps begin to count, four at most; the request pays for them.
      · rename_i hi
        have hle := left_le { threads ⟨i, hi⟩ with request := true }
        have hset := rank_setThread reps ⟨threads, .canceling i, output⟩ ⟨i, hi⟩
          { threads ⟨i, hi⟩ with request := true } (.joining i) output
        rw [← Option.some.inj hstep]
        simp only [MainPlace.left] at hset
        simp only [State.setThread] at hset hle ⊢
        omega
      · rw [← Option.some.inj hstep]
        simp only [rank, MainPlace.left]
        omega
  | joining i =>
      simp only [mainStep] at hstep
      split at hstep
      · split at hstep
        · rw [← Option.some.inj hstep]
          -- Of the six steps for a thread the join is the last.
          simp only [rank, MainPlace.left]
          omega
        · cases hstep
      · cases hstep
  | free | printDone =>
      rw [← Option.some.inj hstep]
      simp only [rank, MainPlace.left]
      omega

theorem rank_step {e : Event n} (hstep : step reps s e = some s') :
    rank reps s' + (if awaited s e then 1 else 0) ≤ rank reps s := by
  unfold step at hstep
  split at hstep
  · cases hstep
  · cases e with
    | main => exact rank_mainStep hstep
    | createFails =>
        dsimp only at hstep
        split at hstep
        · rename_i i hmain
          split at hstep
          · rw [← Option.some.inj hstep]
            simp only [rank, hmain, MainPlace.left, awaited, if_true]
            omega
          · cases hstep
        · cases hstep
    | thread t =>
        rcases Option.map_eq_some_iff.mp hstep with ⟨⟨th, out⟩, hhello, rfl⟩
        -- A thread with a request comes nearer to its end by one.
        have hleft := left_hello hhello
        have hset := rank_setThread reps s t th s.main (s.output ++ out)
        change _ + (if (s.threads t).request = true then 1 else 0) ≤ _
        simp only [State.setThread] at hset ⊢
        omega
    | canceled t =>
        rcases Option.map_eq_some_iff.mp hstep with ⟨th, hcanceled, rfl⟩
        have hleft := left_canceled hcanceled
        have hset := rank_setThread reps s t th s.main s.output
        change _ + (if (s.threads t).request = true then 1 else 0) ≤ _
        simp only [State.setThread] at hset ⊢
        omega

end Rank

section Main

variable {n : Nat} {reps : Int} {s : State n}

theorem orderly_of_inv (h : Inv reps s) : Orderly reps s where
  threads := fun t => by
    rcases h.threads t with ⟨m, hown, _⟩
    exact ⟨m, hown⟩
  main := by
    refine ⟨s.main.greeted reps, ?_, h.main⟩
    cases hmain : s.main with
    | greeting i => exact h.greets i hmain
    | creating | failed => exact Nat.zero_le _
    | canceling | joining | free | printDone | returned => exact Nat.le_refl _
  numbers := h.numbers
  late := by
    -- A thread that ended had a request, and requests come after all greetings.
    rintro ⟨t, ht⟩
    have hrequested := (h.stands t).requested.mp ((h.stands t).ended ht)
    have hmain := h.main
    revert hrequested hmain
    cases s.main with
    | creating | failed | greeting => exact fun hlt => absurd hlt (Nat.not_lt_zero _)
    | canceling | joining | free | printDone | returned => exact fun _ => id
  freed := fun t ht => by
    rcases h.threads t with ⟨m, _, hsound⟩
    rwa [Thread.Sound, ht] at hsound

/-- Whatever the order, the threads greet properly. -/
theorem orderly_of_reaches (n : Nat) (reps : Int) (s : State n)
    (hreaches : Reaches (step reps) (init n) s) : Orderly reps s :=
  orderly_of_inv (reaches_invariant (fun _ _ _ => inv_step) inv_init hreaches)

/-- Two threads, one of which is cancelled before it has said anything. -/
def shortRun : List (Event 2) :=
  let t : Fin 2 := ⟨0, Nat.two_pos⟩
  let u : Fin 2 := ⟨1, Nat.one_lt_two⟩
  [.main, .thread t, .thread t, .main, .thread t, .thread t, .thread t, .thread t, .main, .main,
    .main, .main, .canceled t, .main, .main, .thread u, .thread u, .canceled u, .main, .main,
    .main, .main]

theorem orderly_short_run : ∃ s, exec (step 1) (init 2) shortRun = some s ∧ Orderly 1 s ∧
    s.output = [.hello 1, .main 1, .done] := by
  have hend : (exec (step 1) (init 2) shortRun).any (fun s =>
      decide (s.output = [.hello 1, .main 1, .done])) = true := by
    decide +kernel
  rcases exists_of_exec_any hend with ⟨s, hrun, hs⟩
  exact ⟨s, hrun, orderly_of_reaches 2 1 s ⟨shortRun, hrun⟩, of_decide_eq_true hs⟩

/-- The thread that the main thread waits for can go on, or end. -/
theorem not_idle_of_joining (h : Inv reps s) {i : Nat} (hmain : s.main = .joining i)
    (hidle : ∀ e, awaited s e = true → step reps s e = none) (t : Fin n) (ht : t.val = i) :
    (s.threads t).place = .ended := by
  have hstands := h.stands t
  have hover : s.main.over = false := by rw [hmain]; rfl
  have hrequest : (s.threads t).request = true := by
    rw [hstands.requested, hmain]
    exact Nat.lt_succ_of_le (Nat.le_of_eq ht)
  have hstarted : (s.threads t).place ≠ .uncreated := by
    rw [Ne, hstands.started, hmain]
    exact Nat.not_le.mpr t.isLt
  -- It has a request, so it goes on or ends, which is one of the steps waited for.
  by_contra hgoing
  rcases h.threads t with ⟨m, _, hsound⟩
  rcases goes_on hsound hstarted hgoing hrequest with hhello | hcanceled
  · have hnone := hidle (.thread t) hrequest
    simp only [step, hover, Bool.false_eq_true, if_false, Option.map_eq_none_iff] at hnone
    exact hhello hnone
  · have hnone := hidle (.canceled t) hrequest
    simp only [step, hover, Bool.false_eq_true, if_false, Option.map_eq_none_iff] at hnone
    exact hcanceled hnone

/-- Where nobody that is waited for can go on, the program is through. -/
theorem through_of_idle (h : Inv reps s)
    (hidle : ∀ e, awaited s e = true → step reps s e = none) : Through reps s := by
  -- The main thread itself is always waited for, so it has to stand at a join, or be through.
  have hnone := hidle .main rfl
  cases hmain : s.main with
  | failed i => exact Or.inl ⟨i, hmain⟩
  | free | printDone =>
      simp [step, hmain, MainPlace.over, mainStep] at hnone
  | creating i | greeting i | canceling i =>
      simp only [step, hmain, MainPlace.over, mainStep, Bool.false_eq_true, if_false] at hnone
      split at hnone <;> cases hnone
  | joining i =>
      -- At a join it could go on if the thread had ended, and the thread cannot help ending.
      have hi := h.joins i hmain
      have hended := not_idle_of_joining h hmain hidle ⟨i, hi⟩ rfl
      simp [step, hmain, MainPlace.over, mainStep, hi, hended] at hnone
  | returned =>
      -- All have been joined, so all have ended and given back their memory.
      have hended : ∀ t, (s.threads t).place = .ended := fun t =>
        (h.stands t).joined (by rw [hmain]; exact t.isLt)
      rcases h.done with ⟨lines, hlines, hdone⟩
      rw [hmain] at hlines
      refine Or.inr ⟨hmain, fun t => ⟨hended t, (orderly_of_inv h).freed t (hended t)⟩, lines,
        hlines, hdone, ?_⟩
      have hgreeted := h.main
      rw [hlines, hmain, List.filter_append] at hgreeted
      exact (List.append_nil _).symm.trans hgreeted

theorem completes_through (n : Nat) (reps : Int) :
    CompletesOn (step reps) awaited (init n) (7 * n + reps.toNat + 5) (Through reps) := by
  have hrank : rank reps (init n) = 7 * n + reps.toNat + 5 := by
    simp only [rank, init, Thread.left, Bool.false_eq_true, if_false, Finset.sum_const_zero,
      MainPlace.left]
    omega
  rw [← hrank]
  exact completesOn_of_rank (fun _ _ _ => inv_step) (fun _ _ _ _ hstep => rank_step hstep)
    (fun _ h hidle => through_of_idle h hidle) inv_init

end Main

end Watki

end OsLabs
