import OsLabs.Integration.Pipes
import OsLabs.Library.Completion
import OsLabs.Library.NamedPipe

/-!
# Integration over Named Pipes

`cw06/assignment/sender.c` and `receiver.c`. The sender asks for an interval
and writes its ends into one named pipe; the receiver reads them, adds up the
rectangles, and writes the area into another, from which the sender takes it,
prints it and removes both names. Either program makes the pipes if they are
not there, so the two may be started in any order, and pipes that were left
behind do no harm.

What is typed in need not be two numbers. The sender then ends with an error
before it opens anything, and the user may start it again: the receiver still
waits in its first `open` and does not notice. So the first interval that is
typed in correctly is the one that is served, and without one the receiver
waits for good.

No program is ended by a broken pipe or finds the end of a pipe too early. The
order of the calls sees to that: the sender closes the first pipe before it
opens the second, and the receiver opens the second when it has taken all of
the first.

Numbers are exact here. Left out are the printing of prompts and errors and
failing calls of `mkfifo`, `close` and `unlink`.

## Main definitions

* `Sender`, `senderStep`, `Receiver`, `receiverStep`: The two programs.
* `State`, `step`: Both, with the pipes and what the user types.
* `Inv`: Where each is with either pipe, and what it has from there.
* `rank`: How many steps are left.
* `Outcome`: The first interval is served, or the receiver waits.

## Theorems

* `inv_sender`, `inv_receiver`, `inv_start`: The steps keep the invariant.
* `rank_step`: Every step is one of those left.
* `outcome_of_stuck`: Nobody gets stuck half-way.
* `completes_outcome`: So every run ends with the outcome.
-/

namespace OsLabs

namespace Integration

namespace Fifos

open Loop Machine NamedPipe Processes

section Programs

/-- `dx` of the receiver -/
def dx : ℚ := 1 / 1000000

/-- How many numbers a pipe takes. -/
def capacity : Nat := 8192

/-- The next call of the sender. Behind an `open` it waits there, with what it
    has seen of the other side. -/
inductive SenderPlace where
  | off
  | mkfifoIn
  | mkfifoOut
  | scanf
  | openIn
  | opensIn (seen : Option Nat)
  | writeA
  | writeB
  | closeIn
  | openOut
  | opensOut (seen : Option Nat)
  | read
  | closeOut
  | printf
  | unlinkIn
  | unlinkOut
  | abandon
  | killed
  | exited (status : Nat)
  deriving DecidableEq

/-- The sender with its variables. -/
structure Sender where
  place : SenderPlace
  fdIn : Nat
  fdOut : Nat
  a : ℚ
  b : ℚ
  result : ℚ

/-- The next call of the receiver, or a turn of the loop in `rectangle_area`. -/
inductive ReceiverPlace where
  | mkfifoIn
  | mkfifoOut
  | openIn
  | opensIn (seen : Option Nat)
  | readA
  | readB
  | closeIn
  | area (l : Locals)
  | openOut
  | opensOut (seen : Option Nat)
  | write
  | closeOut
  | abandon
  | killed
  | exited (status : Nat)

/-- The receiver with its variables. -/
structure Receiver where
  place : ReceiverPlace
  fdIn : Nat
  fdOut : Nat
  a : ℚ
  b : ℚ
  result : ℚ

/-- The two pipes, the two programs, what the user is going to type in, once
    for each start of the sender, and what the sender has printed. -/
structure State where
  inn : Fifo ℚ
  out : Fifo ℚ
  sender : Sender
  receiver : Receiver
  inputs : List (Option (ℚ × ℚ))
  printed : List (ℚ × ℚ × ℚ)

/-- A pipe left behind from before, or nothing. -/
def leftover : Bool → Fifo ℚ
  | true => ⟨some 0, [.new]⟩
  | false => ⟨none, []⟩

def init (leftIn leftOut : Bool) (inputs : List (Option (ℚ × ℚ))) : State where
  inn := leftover leftIn
  out := leftover leftOut
  sender := ⟨.off, 0, 0, 0, 0, 0⟩
  receiver := ⟨.mkfifoIn, 0, 0, 0, 0, 0⟩
  inputs := inputs
  printed := []

def State.sendAt (s : State) (place : SenderPlace) : State :=
  { s with sender := { s.sender with place } }

def State.receiveAt (s : State) (place : ReceiverPlace) : State :=
  { s with receiver := { s.receiver with place } }

/-- `write` of the sender. A pipe without a reader kills it, which closes its
    end, and a full one makes it wait. -/
def State.writeIn (s : State) (x : ℚ) (place : SenderPlace) : Option State :=
  let p := s.inn.pipe s.sender.fdIn
  if p.descriptors .read = 0 then
    some { s.sendAt .killed with inn := s.inn.put s.sender.fdIn (p.closeAt .write) }
  else if p.data.length < capacity then
    some { s.sendAt place with inn := s.inn.put s.sender.fdIn (p.push x) }
  else none

/-- `read` of the receiver. Without a writer an empty pipe is at its end. -/
def State.readIn (s : State) (store : ℚ → Receiver) : Option State :=
  let p := s.inn.pipe s.receiver.fdIn
  match p.data with
  | x :: _ => some { s with inn := s.inn.put s.receiver.fdIn p.pop, receiver := store x }
  | [] => if p.descriptors .write = 0 then some (s.receiveAt .abandon) else none

/-- `main` of the sender, from its start. -/
def senderStep (s : State) : Option State :=
  match s.sender.place with
  | .mkfifoIn => some { s.sendAt .mkfifoOut with inn := s.inn.mkfifo }
  | .mkfifoOut => some { s.sendAt .scanf with out := s.out.mkfifo }
  | .scanf =>
      match s.inputs with
      | some (a, b) :: rest =>
          some { s with sender := { s.sender with place := .openIn, a, b }, inputs := rest }
      | none :: rest => some { s.sendAt (.exited 1) with inputs := rest }
      | [] => none
  | .openIn =>
      match s.inn.named with
      | some fd =>
          let p := s.inn.pipe fd
          some { s with
            inn := s.inn.put fd (p.openAt .write)
            sender := { s.sender with place := .opensIn (p.seen .write), fdIn := fd } }
      | none => some (s.sendAt (.exited 1))
  | .opensIn seen =>
      if (s.inn.pipe s.sender.fdIn).Met .write seen then some (s.sendAt .writeA) else none
  | .writeA => s.writeIn s.sender.a .writeB
  | .writeB => s.writeIn s.sender.b .closeIn
  | .closeIn =>
      let p := s.inn.pipe s.sender.fdIn
      some { s.sendAt .openOut with inn := s.inn.put s.sender.fdIn (p.closeAt .write) }
  | .openOut =>
      match s.out.named with
      | some fd =>
          let p := s.out.pipe fd
          some { s with
            out := s.out.put fd (p.openAt .read)
            sender := { s.sender with place := .opensOut (p.seen .read), fdOut := fd } }
      | none => some (s.sendAt (.exited 1))
  | .opensOut seen =>
      if (s.out.pipe s.sender.fdOut).Met .read seen then some (s.sendAt .read) else none
  | .read =>
      let p := s.out.pipe s.sender.fdOut
      match p.data with
      | x :: _ =>
          some { s with
            out := s.out.put s.sender.fdOut p.pop
            sender := { s.sender with place := .closeOut, result := x } }
      | [] => if p.descriptors .write = 0 then some (s.sendAt .abandon) else none
  | .closeOut =>
      let p := s.out.pipe s.sender.fdOut
      some { s.sendAt .printf with out := s.out.put s.sender.fdOut (p.closeAt .read) }
  | .printf =>
      some { s.sendAt .unlinkIn with
        printed := s.printed ++ [(s.sender.a, s.sender.b, s.sender.result)] }
  | .unlinkIn => some { s.sendAt .unlinkOut with inn := s.inn.unlink }
  | .unlinkOut => some { s.sendAt (.exited 0) with out := s.out.unlink }
  | .abandon =>
      let p := s.out.pipe s.sender.fdOut
      some { s.sendAt (.exited 1) with out := s.out.put s.sender.fdOut (p.closeAt .read) }
  | .off | .killed | .exited _ => none

/-- `main` of the receiver. -/
def receiverStep (s : State) : Option State :=
  match s.receiver.place with
  | .mkfifoIn => some { s.receiveAt .mkfifoOut with inn := s.inn.mkfifo }
  | .mkfifoOut => some { s.receiveAt .openIn with out := s.out.mkfifo }
  | .openIn =>
      match s.inn.named with
      | some fd =>
          let p := s.inn.pipe fd
          some { s with
            inn := s.inn.put fd (p.openAt .read)
            receiver := { s.receiver with place := .opensIn (p.seen .read), fdIn := fd } }
      | none => some (s.receiveAt (.exited 1))
  | .opensIn seen =>
      if (s.inn.pipe s.receiver.fdIn).Met .read seen then some (s.receiveAt .readA) else none
  | .readA => s.readIn fun x => { s.receiver with place := .readB, a := x }
  | .readB => s.readIn fun x => { s.receiver with place := .closeIn, b := x }
  | .closeIn =>
      let p := s.inn.pipe s.receiver.fdIn
      some { s.receiveAt (.area ⟨s.receiver.a, 0⟩) with
        inn := s.inn.put s.receiver.fdIn (p.closeAt .read) }
  | .area l =>
      if l.x < s.receiver.b then some (s.receiveAt (.area (body dx l)))
      else some { s with receiver := { s.receiver with place := .openOut, result := l.sum } }
  | .openOut =>
      match s.out.named with
      | some fd =>
          let p := s.out.pipe fd
          some { s with
            out := s.out.put fd (p.openAt .write)
            receiver := { s.receiver with place := .opensOut (p.seen .write), fdOut := fd } }
      | none => some (s.receiveAt (.exited 1))
  | .opensOut seen =>
      if (s.out.pipe s.receiver.fdOut).Met .write seen then some (s.receiveAt .write) else none
  | .write =>
      let p := s.out.pipe s.receiver.fdOut
      if p.descriptors .read = 0 then
        some { s.receiveAt .killed with out := s.out.put s.receiver.fdOut (p.closeAt .write) }
      else if p.data.length < capacity then
        some { s.receiveAt .closeOut with
          out := s.out.put s.receiver.fdOut (p.push s.receiver.result) }
      else none
  | .closeOut =>
      let p := s.out.pipe s.receiver.fdOut
      some { s.receiveAt (.exited 0) with out := s.out.put s.receiver.fdOut (p.closeAt .write) }
  | .abandon =>
      let p := s.inn.pipe s.receiver.fdIn
      some { s.receiveAt (.exited 1) with inn := s.inn.put s.receiver.fdIn (p.closeAt .read) }
  | .killed | .exited _ => none

/-- The user starts the sender, again if it has ended with an error. -/
def start (s : State) : Option State :=
  if (s.sender.place = .off ∨ s.sender.place = .exited 1) ∧ s.inputs ≠ [] then
    some (s.sendAt .mkfifoIn)
  else none

inductive Event where
  | start
  | sender
  | receiver
  deriving DecidableEq

def step (s : State) : Event → Option State
  | .start => start s
  | .sender => senderStep s
  | .receiver => receiverStep s

end Programs

section Outcome

/-- The area of the interval has been printed, and the pipes are gone. -/
structure Served (a b : ℚ) (s : State) : Prop where
  printed : ∃ result, s.printed = [(a, b, result)] ∧ rectangleArea a b dx = Part.some result
  sender : s.sender.place = .exited 0
  receiver : s.receiver.place = .exited 0
  inn : s.inn.named = none
  out : s.out.named = none

/-- The receiver waits for a sender that does not come. -/
structure Waiting (s : State) : Prop where
  printed : s.printed = []
  sender : s.sender.place = .off ∨ s.sender.place = .exited 1
  receiver : ∃ seen, s.receiver.place = .opensIn seen
  inn : s.inn.named ≠ none
  out : s.out.named ≠ none

/-- The first interval that is typed in. -/
def firstInterval (inputs : List (Option (ℚ × ℚ))) : Option (ℚ × ℚ) := inputs.findSome? id

def Outcome (inputs : List (Option (ℚ × ℚ))) (s : State) : Prop :=
  match firstInterval inputs with
  | some (a, b) => Served a b s
  | none => Waiting s

end Outcome

section Invariant

/-- The ends of the sender. -/
def SenderPlace.inEnd : SenderPlace → End
  | .off | .mkfifoIn | .mkfifoOut | .scanf | .openIn | .exited (_ + 1) => .unopened
  | .opensIn seen => .opening seen
  | .writeA | .writeB | .closeIn => .opened
  | .openOut | .opensOut _ | .read | .closeOut | .printf | .unlinkIn | .unlinkOut | .abandon
    | .killed | .exited 0 => .closed

def SenderPlace.outEnd : SenderPlace → End
  | .off | .mkfifoIn | .mkfifoOut | .scanf | .openIn | .opensIn _ | .writeA | .writeB | .closeIn
    | .openOut | .killed | .exited (_ + 1) => .unopened
  | .opensOut seen => .opening seen
  | .read | .closeOut | .abandon => .opened
  | .printf | .unlinkIn | .unlinkOut | .exited 0 => .closed

/-- What it has written into the one pipe, and has read from the other. -/
def Sender.given (p : Sender) : List ℚ :=
  match p.place with
  | .off | .mkfifoIn | .mkfifoOut | .scanf | .openIn | .opensIn _ | .writeA | .exited (_ + 1) => []
  | .writeB => [p.a]
  | .closeIn | .openOut | .opensOut _ | .read | .closeOut | .printf | .unlinkIn | .unlinkOut
    | .abandon | .killed | .exited 0 => [p.a, p.b]

def Sender.taken (p : Sender) : List ℚ :=
  match p.place with
  | .closeOut | .printf | .unlinkIn | .unlinkOut | .exited 0 => [p.result]
  | _ => []

/-- It has got two numbers from the user. -/
def SenderPlace.Typed : SenderPlace → Prop
  | .off | .mkfifoIn | .mkfifoOut | .scanf | .exited (_ + 1) => False
  | _ => True

/-- It has not been through the `mkfifo` of the pipe. -/
def SenderPlace.UnmadeIn : SenderPlace → Prop
  | .off | .mkfifoIn => True
  | _ => False

def SenderPlace.UnmadeOut : SenderPlace → Prop
  | .off | .mkfifoIn | .mkfifoOut => True
  | _ => False

/-- It has removed the name of the pipe. -/
def SenderPlace.RemovedIn : SenderPlace → Prop
  | .unlinkOut | .exited 0 => True
  | _ => False

def SenderPlace.RemovedOut : SenderPlace → Prop
  | .exited 0 => True
  | _ => False

/-- It is going to ask. -/
def SenderPlace.Asks : SenderPlace → Prop
  | .mkfifoIn | .mkfifoOut | .scanf => True
  | _ => False

/-- What it has printed. -/
def Sender.prints (p : Sender) : List (ℚ × ℚ × ℚ) :=
  match p.place with
  | .unlinkIn | .unlinkOut | .exited 0 => [(p.a, p.b, p.result)]
  | _ => []

/-- The places where it has ended otherwise than it should. -/
def SenderPlace.Broken : SenderPlace → Prop
  | .abandon | .killed | .exited (_ + 2) => True
  | _ => False

def ReceiverPlace.inEnd : ReceiverPlace → End
  | .mkfifoIn | .mkfifoOut | .openIn => .unopened
  | .opensIn seen => .opening seen
  | .readA | .readB | .closeIn | .abandon => .opened
  | .area _ | .openOut | .opensOut _ | .write | .closeOut | .killed | .exited _ => .closed

def ReceiverPlace.outEnd : ReceiverPlace → End
  | .mkfifoIn | .mkfifoOut | .openIn | .opensIn _ | .readA | .readB | .closeIn | .abandon
    | .area _ | .openOut | .killed | .exited (_ + 1) => .unopened
  | .opensOut seen => .opening seen
  | .write | .closeOut => .opened
  | .exited 0 => .closed

def Receiver.taken (p : Receiver) : List ℚ :=
  match p.place with
  | .mkfifoIn | .mkfifoOut | .openIn | .opensIn _ | .readA | .abandon => []
  | .readB => [p.a]
  | .closeIn | .area _ | .openOut | .opensOut _ | .write | .closeOut | .killed | .exited _ =>
      [p.a, p.b]

def Receiver.given (p : Receiver) : List ℚ :=
  match p.place with
  | .closeOut | .exited 0 => [p.result]
  | _ => []

def ReceiverPlace.UnmadeIn : ReceiverPlace → Prop
  | .mkfifoIn => True
  | _ => False

def ReceiverPlace.UnmadeOut : ReceiverPlace → Prop
  | .mkfifoIn | .mkfifoOut => True
  | _ => False

def ReceiverPlace.Broken : ReceiverPlace → Prop
  | .abandon | .killed | .exited (_ + 1) => True
  | _ => False

/-- What it has computed is the area, or what is left of its loop leads there. -/
def Receiver.Computes (p : Receiver) : Prop :=
  match p.place with
  | .area l => (loop (fun l => l.x < p.b) (body dx) l).map Locals.sum = rectangleArea p.a p.b dx
  | .openOut | .opensOut _ | .write | .closeOut | .exited _ =>
      rectangleArea p.a p.b dx = Part.some p.result
  | _ => True

/-- Where the two are with the pipes, and what each of them has. -/
structure Inv (inputs : List (Option (ℚ × ℚ))) (stageIn stageOut : Stage) (s : State) : Prop where
  inn : s.inn.Shared stageIn (ends s.receiver.place.inEnd s.sender.place.inEnd) s.receiver.taken
    s.sender.given
  out : s.out.Shared stageOut (ends s.sender.place.outEnd s.receiver.place.outEnd) s.sender.taken
    s.receiver.given
  madeIn : stageIn = .missing → s.sender.place.UnmadeIn ∧ s.receiver.place.UnmadeIn
  madeOut : stageOut = .missing → s.sender.place.UnmadeOut ∧ s.receiver.place.UnmadeOut
  removedIn : stageIn = .removed ↔ s.sender.place.RemovedIn
  removedOut : stageOut = .removed ↔ s.sender.place.RemovedOut
  senderFds : s.sender.fdIn = 0 ∧ s.sender.fdOut = 0
  receiverFds : s.receiver.fdIn = 0 ∧ s.receiver.fdOut = 0
  computes : s.receiver.Computes
  typed : s.sender.place.Typed → firstInterval inputs = some (s.sender.a, s.sender.b)
  untyped : ¬ s.sender.place.Typed → firstInterval s.inputs = firstInterval inputs
  asks : s.sender.place.Asks → s.inputs ≠ []
  printed : s.printed = s.sender.prints
  sender : ¬ s.sender.place.Broken
  receiver : ¬ s.receiver.place.Broken

end Invariant

section Steps

variable {inputs : List (Option (ℚ × ℚ))} {stageIn stageOut : Stage} {s s' : State}

/-- When the names are gone, the receiver has given its result. -/
theorem Inv.not_removed (h : Inv inputs stageIn stageOut s) (hgiven : s.receiver.given = []) :
    stageIn ≠ .removed ∧ stageOut ≠ .removed := by
  have htaken : s.sender.taken = [] := by
    -- What was taken and what is in the pipe make up what was given, which is nothing.
    have hconserved := h.out.joined.conserved
    rw [hgiven] at hconserved
    exact (List.append_eq_nil_iff.mp hconserved).1
  have hplace : ¬ s.sender.place.RemovedIn ∧ ¬ s.sender.place.RemovedOut := by
    -- The names are removed behind `closeOut`, where a result has been taken.
    revert htaken
    unfold Sender.taken
    cases s.sender.place with
    | exited status => cases status <;> simp [SenderPlace.RemovedIn, SenderPlace.RemovedOut]
    | _ => simp [SenderPlace.RemovedIn, SenderPlace.RemovedOut]
  exact ⟨fun hin => hplace.1 (h.removedIn.mp hin), fun hout => hplace.2 (h.removedOut.mp hout)⟩

/-- The receiver closes the first pipe when it has taken two numbers. -/
theorem length_taken_of_closed {p : Receiver} (hclosed : p.place.inEnd = .closed) :
    p.taken.length = 2 := by
  revert hclosed
  unfold Receiver.taken
  cases p.place <;> simp [ReceiverPlace.inEnd]

/-- It closes the second when it has given one. -/
theorem length_given_of_closed {p : Receiver} (hclosed : p.place.outEnd = .closed) :
    p.given.length = 1 := by
  revert hclosed
  unfold Receiver.given
  cases p.place with
  | exited status => cases status <;> simp [ReceiverPlace.outEnd]
  | _ => simp [ReceiverPlace.outEnd]

theorem length_given_le (p : Receiver) : p.given.length ≤ 1 := by
  unfold Receiver.given
  split <;> simp

theorem Inv.reader_open (h : Inv inputs stageIn stageOut s) (hlt : s.sender.given.length < 2) :
    s.receiver.place.inEnd ≠ .closed := by
  intro hclosed
  -- Nobody takes more than was given, and it closes with two taken.
  have hle := h.inn.joined.length_le
  rw [length_taken_of_closed hclosed] at hle
  omega

theorem inv_sender (h : Inv inputs stageIn stageOut s) (hstep : senderStep s = some s') :
    ∃ stageIn stageOut, Inv inputs stageIn stageOut s' := by
  rcases s with ⟨inn, out, ⟨place, fdIn, fdOut, a, b, result⟩, receiver, typed, printed⟩
  rcases h.senderFds with ⟨rfl, rfl⟩
  cases place with
  | off | killed | exited => cases hstep
  -- It only leaves this way at the end of a pipe that has no writer, which does not happen.
  | abandon => exact absurd trivial h.sender
  | mkfifoIn =>
      -- The names are removed at the end, and the sender is at its beginning.
      have hkept : stageIn ≠ .removed := fun hin => h.removedIn.mp hin
      rw [← Option.some.inj hstep]
      exact ⟨.there, stageOut, { h with
        inn := h.inn.mkfifo hkept
        madeIn := fun hmissing => absurd hmissing (by decide)
        removedIn := iff_of_false (by decide) id }⟩
  | mkfifoOut =>
      have hkept : stageOut ≠ .removed := fun hout => h.removedOut.mp hout
      rw [← Option.some.inj hstep]
      exact ⟨stageIn, .there, { h with
        out := h.out.mkfifo hkept
        madeOut := fun hmissing => absurd hmissing (by decide)
        removedOut := iff_of_false (by decide) id }⟩
  | scanf =>
      -- What was typed so far was no interval, so the first one is still to come.
      have huntyped := h.untyped id
      cases typed with
      | nil => cases hstep
      | cons input rest =>
          cases input with
          | none =>
              rw [← Option.some.inj hstep]
              -- No two numbers: the sender ends, and what comes later may be the first interval.
              exact ⟨stageIn, stageOut, { h with
                untyped := fun _ => huntyped
                asks := False.elim }⟩
          | some interval =>
              rw [← Option.some.inj hstep]
              -- This is the first interval.
              exact ⟨stageIn, stageOut, { h with
                typed := fun _ => huntyped.symm
                untyped := fun hnot => absurd trivial hnot
                asks := False.elim }⟩
  | openIn =>
      -- Both have been through `mkfifo`, and nobody has removed the name.
      have hmade : stageIn ≠ .missing := fun hin => (h.madeIn hin).1
      have hkept : stageIn ≠ .removed := fun hin => h.removedIn.mp hin
      have hnamed : inn.named = some 0 := h.inn.named.trans (if_pos (Stage.eq_there hmade hkept))
      simp only [senderStep, hnamed] at hstep
      rw [← Option.some.inj hstep]
      exact ⟨stageIn, stageOut, { h with inn := h.inn.put hmade (h.inn.joined.openAt rfl rfl rfl) }⟩
  | opensIn seen =>
      simp only [senderStep] at hstep
      split at hstep
      -- The other side has come, or has been there already.
      · rename_i hmet
        rw [← Option.some.inj hstep]
        exact ⟨stageIn, stageOut, { h with
          inn := ⟨h.inn.named, h.inn.length, h.inn.joined.goesOn rfl hmet rfl rfl⟩ }⟩
      · cases hstep
  | writeA =>
      have hmade : stageIn ≠ .missing := fun hin => (h.madeIn hin).1
      -- The reader has taken less than two numbers, so it has not closed its end.
      have hreader := h.inn.joined.reader rfl (h.reader_open Nat.two_pos)
      simp only [senderStep, State.writeIn, if_neg hreader] at hstep
      split at hstep
      · rw [← Option.some.inj hstep]
        exact ⟨stageIn, stageOut, { h with inn := h.inn.put hmade (h.inn.joined.write a) }⟩
      · cases hstep
  | writeB =>
      have hmade : stageIn ≠ .missing := fun hin => (h.madeIn hin).1
      -- Only one number has been given so far.
      have hreader := h.inn.joined.reader rfl (h.reader_open Nat.one_lt_two)
      simp only [senderStep, State.writeIn, if_neg hreader] at hstep
      split at hstep
      · rw [← Option.some.inj hstep]
        exact ⟨stageIn, stageOut, { h with inn := h.inn.put hmade (h.inn.joined.write b) }⟩
      · cases hstep
  | closeIn =>
      have hmade : stageIn ≠ .missing := fun hin => (h.madeIn hin).1
      -- What is left in the pipe can still be read: with two taken there is nothing left.
      have hkept := h.inn.joined.kept rfl fun hclosed => (length_taken_of_closed hclosed).ge
      rw [← Option.some.inj hstep]
      exact ⟨stageIn, stageOut, { h with
        inn := h.inn.put hmade (h.inn.joined.closeAt rfl hkept rfl rfl) }⟩
  | openOut =>
      -- As for the first pipe.
      have hmade : stageOut ≠ .missing := fun hout => (h.madeOut hout).1
      have hkept : stageOut ≠ .removed := fun hout => h.removedOut.mp hout
      have hnamed : out.named = some 0 := h.out.named.trans (if_pos (Stage.eq_there hmade hkept))
      simp only [senderStep, hnamed] at hstep
      rw [← Option.some.inj hstep]
      exact ⟨stageIn, stageOut, { h with
        out := h.out.put hmade (h.out.joined.openAt rfl rfl rfl) }⟩
  | opensOut seen =>
      simp only [senderStep] at hstep
      split at hstep
      · rename_i hmet
        rw [← Option.some.inj hstep]
        exact ⟨stageIn, stageOut, { h with
          out := ⟨h.out.named, h.out.length, h.out.joined.goesOn rfl hmet rfl rfl⟩ }⟩
      · cases hstep
  | read =>
      have hmade : stageOut ≠ .missing := fun hout => (h.madeOut hout).1
      -- The receiver closes its end after it has written, so an end without data does not come.
      have hmore : receiver.place.outEnd = .closed → 0 < receiver.given.length :=
        fun hclosed => (length_given_of_closed hclosed).ge
      simp only [senderStep] at hstep
      split at hstep
      · rename_i x rest hdata
        rw [← Option.some.inj hstep]
        exact ⟨stageIn, stageOut, { h with out := h.out.put hmade (h.out.joined.read hdata) }⟩
      · rename_i hdata
        rw [if_neg (h.out.joined.not_at_end rfl hmore hdata)] at hstep
        cases hstep
  | closeOut =>
      have hmade : stageOut ≠ .missing := fun hout => (h.madeOut hout).1
      -- One number was given at most, and it has been taken.
      have htaken := h.out.joined.taken_eq (length_given_le receiver)
      rw [← Option.some.inj hstep]
      exact ⟨stageIn, stageOut, { h with
        out := h.out.put hmade (h.out.joined.closeAt rfl (Or.inl htaken) rfl rfl) }⟩
  | printf =>
      -- This is the first line that is printed.
      rw [← Option.some.inj hstep]
      exact ⟨stageIn, stageOut, { h with printed := congrArg (· ++ [(a, b, result)]) h.printed }⟩
  | unlinkIn =>
      have hmade : stageIn ≠ .missing := fun hin => (h.madeIn hin).1
      have hkept : stageIn ≠ .removed := fun hin => h.removedIn.mp hin
      -- From here on the name is gone, but the pipe stays for those that have it open.
      have hthere := Stage.eq_there hmade hkept
      subst hthere
      rw [← Option.some.inj hstep]
      exact ⟨.removed, stageOut, { h with
        inn := h.inn.unlink
        madeIn := fun hmissing => absurd hmissing (by decide)
        removedIn := iff_of_true rfl trivial }⟩
  | unlinkOut =>
      have hmade : stageOut ≠ .missing := fun hout => (h.madeOut hout).1
      have hkept : stageOut ≠ .removed := fun hout => h.removedOut.mp hout
      have hthere := Stage.eq_there hmade hkept
      subst hthere
      rw [← Option.some.inj hstep]
      exact ⟨stageIn, .removed, { h with
        out := h.out.unlink
        madeOut := fun hmissing => absurd hmissing (by decide)
        removedOut := iff_of_true rfl trivial }⟩

/-- The sender closes the first pipe when it has given two numbers. -/
theorem length_given_of_closed_in {p : Sender} (hclosed : p.place.inEnd = .closed) :
    p.given.length = 2 := by
  revert hclosed
  unfold Sender.given
  cases p.place with
  | exited status => cases status <;> simp [SenderPlace.inEnd]
  | _ => simp [SenderPlace.inEnd]

theorem length_given_in_le (p : Sender) : p.given.length ≤ 2 := by
  unfold Sender.given
  split <;> simp

/-- It closes the second when it has taken one. -/
theorem length_taken_of_closed_out {p : Sender} (hclosed : p.place.outEnd = .closed) :
    p.taken.length = 1 := by
  revert hclosed
  unfold Sender.taken
  cases p.place with
  | exited status => cases status <;> simp [SenderPlace.outEnd]
  | _ => simp [SenderPlace.outEnd]

theorem inv_receiver (h : Inv inputs stageIn stageOut s) (hstep : receiverStep s = some s') :
    ∃ stageIn stageOut, Inv inputs stageIn stageOut s' := by
  -- While the receiver has not given its result, no name is removed.
  have hnot := h.not_removed
  rcases s with ⟨inn, out, sender, ⟨place, fdIn, fdOut, a, b, result⟩, typed, printed⟩
  rcases h.receiverFds with ⟨rfl, rfl⟩
  cases place with
  | killed | exited => cases hstep
  -- As for the sender: the pipe is never found at its end.
  | abandon => exact absurd trivial h.receiver
  | mkfifoIn =>
      rw [← Option.some.inj hstep]
      exact ⟨.there, stageOut, { h with
        inn := h.inn.mkfifo (hnot rfl).1
        madeIn := fun hmissing => absurd hmissing (by decide)
        removedIn := iff_of_false (by decide) (mt h.removedIn.mpr (hnot rfl).1) }⟩
  | mkfifoOut =>
      rw [← Option.some.inj hstep]
      exact ⟨stageIn, .there, { h with
        out := h.out.mkfifo (hnot rfl).2
        madeOut := fun hmissing => absurd hmissing (by decide)
        removedOut := iff_of_false (by decide) (mt h.removedOut.mpr (hnot rfl).2) }⟩
  | openIn =>
      have hmade : stageIn ≠ .missing := fun hin => (h.madeIn hin).2
      have hnamed : inn.named = some 0 :=
        -- The name is there, since the sender is not through.
        h.inn.named.trans (if_pos (Stage.eq_there hmade (hnot rfl).1))
      simp only [receiverStep, hnamed] at hstep
      rw [← Option.some.inj hstep]
      exact ⟨stageIn, stageOut, { h with inn := h.inn.put hmade (h.inn.joined.openAt rfl rfl rfl) }⟩
  | opensIn seen =>
      simp only [receiverStep] at hstep
      split at hstep
      · rename_i hmet
        rw [← Option.some.inj hstep]
        exact ⟨stageIn, stageOut, { h with
          inn := ⟨h.inn.named, h.inn.length, h.inn.joined.goesOn rfl hmet rfl rfl⟩ }⟩
      · cases hstep
  | readA =>
      have hmade : stageIn ≠ .missing := fun hin => (h.madeIn hin).2
      -- A sender that has closed its end has given two numbers, one of which is still there.
      have hmore : sender.place.inEnd = .closed → 0 < sender.given.length :=
        fun hclosed => Nat.lt_of_lt_of_le Nat.two_pos (length_given_of_closed_in hclosed).ge
      simp only [receiverStep, State.readIn] at hstep
      split at hstep
      · rename_i x rest hdata
        rw [← Option.some.inj hstep]
        exact ⟨stageIn, stageOut, { h with inn := h.inn.put hmade (h.inn.joined.read hdata) }⟩
      · rename_i hdata
        rw [if_neg (h.inn.joined.not_at_end rfl hmore hdata)] at hstep
        cases hstep
  | readB =>
      have hmade : stageIn ≠ .missing := fun hin => (h.madeIn hin).2
      -- The second of them is still there.
      have hmore : sender.place.inEnd = .closed → 1 < sender.given.length :=
        fun hclosed => (length_given_of_closed_in hclosed).ge
      simp only [receiverStep, State.readIn] at hstep
      split at hstep
      · rename_i x rest hdata
        rw [← Option.some.inj hstep]
        exact ⟨stageIn, stageOut, { h with inn := h.inn.put hmade (h.inn.joined.read hdata) }⟩
      · rename_i hdata
        rw [if_neg (h.inn.joined.not_at_end rfl hmore hdata)] at hstep
        cases hstep
  | closeIn =>
      have hmade : stageIn ≠ .missing := fun hin => (h.madeIn hin).2
      -- With two taken there is nothing left to take.
      have htaken := h.inn.joined.taken_eq (length_given_in_le sender)
      rw [← Option.some.inj hstep]
      exact ⟨stageIn, stageOut, { h with
        inn := h.inn.put hmade (h.inn.joined.closeAt rfl (Or.inl htaken) rfl rfl)
        computes := rfl }⟩
  | area l =>
      -- The loop from here on leads to the area, turn by turn.
      have hcomputes : (loop (fun l => l.x < b) (body dx) l).map Locals.sum
        = rectangleArea a b dx := h.computes
      simp only [receiverStep] at hstep
      split at hstep
      · rename_i hlt
        have hturn : loop (fun l : Locals => l.x < b) (body dx) (body dx l)
            = loop (fun l => l.x < b) (body dx) l := loop_body hlt
        rw [← Option.some.inj hstep]
        refine ⟨stageIn, stageOut, { h with computes := ?_ }⟩
        exact (congrArg (Part.map Locals.sum) hturn).trans hcomputes
      · rename_i hge
        -- The loop is over, and what it has summed up is the area.
        rw [← Option.some.inj hstep]
        refine ⟨stageIn, stageOut, { h with computes := ?_ }⟩
        have hend : loop (fun l : Locals => l.x < b) (body dx) l = Part.some l :=
          loop_of_not_guard hge
        rw [hend, Part.map_some] at hcomputes
        exact hcomputes.symm
  | openOut =>
      have hmade : stageOut ≠ .missing := fun hout => (h.madeOut hout).2
      have hnamed : out.named = some 0 :=
        h.out.named.trans (if_pos (Stage.eq_there hmade (hnot rfl).2))
      simp only [receiverStep, hnamed] at hstep
      rw [← Option.some.inj hstep]
      exact ⟨stageIn, stageOut, { h with
        out := h.out.put hmade (h.out.joined.openAt rfl rfl rfl) }⟩
  | opensOut seen =>
      simp only [receiverStep] at hstep
      split at hstep
      · rename_i hmet
        rw [← Option.some.inj hstep]
        exact ⟨stageIn, stageOut, { h with
          out := ⟨h.out.named, h.out.length, h.out.joined.goesOn rfl hmet rfl rfl⟩ }⟩
      · cases hstep
  | write =>
      have hmade : stageOut ≠ .missing := fun hout => (h.madeOut hout).2
      -- A sender that has closed its end has taken a number, and none was given.
      have hopen : sender.place.outEnd ≠ .closed := by
        intro hclosed
        have hle : sender.taken.length ≤ 0 := h.out.joined.length_le
        rw [length_taken_of_closed_out hclosed] at hle
        exact Nat.not_succ_le_zero 0 hle
      have hreader := h.out.joined.reader rfl hopen
      simp only [receiverStep, if_neg hreader] at hstep
      split at hstep
      · rw [← Option.some.inj hstep]
        exact ⟨stageIn, stageOut, { h with out := h.out.put hmade (h.out.joined.write result) }⟩
      · cases hstep
  | closeOut =>
      have hmade : stageOut ≠ .missing := fun hout => (h.madeOut hout).2
      -- The result stays in the pipe for the sender.
      have hkept := h.out.joined.kept rfl fun hclosed => (length_taken_of_closed_out hclosed).ge
      rw [← Option.some.inj hstep]
      exact ⟨stageIn, stageOut, { h with
        out := h.out.put hmade (h.out.joined.closeAt rfl hkept rfl rfl) }⟩

theorem inv_start (h : Inv inputs stageIn stageOut s) (hstep : start s = some s') :
    ∃ stageIn stageOut, Inv inputs stageIn stageOut s' := by
  rcases s with ⟨inn, out, ⟨place, fdIn, fdOut, a, b, result⟩, receiver, typed, printed⟩
  simp only [start] at hstep
  split at hstep
  · rename_i hcan
    rcases hcan with ⟨hplace, hasks⟩
    rw [← Option.some.inj hstep]
    -- It is started for the first time, or once more after it has failed to read two numbers.
    rcases hplace with rfl | rfl
    · exact ⟨stageIn, stageOut, { h with asks := fun _ => hasks }⟩
    -- It had been through both calls of `mkfifo` before.
    · have hmadeIn : stageIn ≠ .missing := fun hin => (h.madeIn hin).1
      have hmadeOut : stageOut ≠ .missing := fun hout => (h.madeOut hout).1
      exact ⟨stageIn, stageOut, { h with
        madeIn := fun hin => absurd hin hmadeIn
        madeOut := fun hout => absurd hout hmadeOut
        asks := fun _ => hasks }⟩
  · cases hstep

end Steps

section Rank

/-- How many steps the sender has left, until it ends or the user has typed
    something. -/
def SenderPlace.left : SenderPlace → ℕ
  | .scanf => 0
  | .mkfifoOut => 1
  | .mkfifoIn => 2
  | .off | .killed | .exited _ => 3
  | .abandon | .unlinkOut => 4
  | .unlinkIn => 5
  | .printf => 6
  | .closeOut => 7
  | .read => 8
  | .opensOut _ => 9
  | .openOut => 10
  | .closeIn => 11
  | .writeB => 12
  | .writeA => 13
  | .opensIn _ => 14
  | .openIn => 15

/-- How many rectangles the area of the first interval has. -/
def rectangles (inputs : List (Option (ℚ × ℚ))) : ℕ :=
  match firstInterval inputs with
  | some (a, b) => turns a b dx
  | none => 0

/-- How many steps the receiver has left, for an area of so many rectangles. -/
def Receiver.left (total : ℕ) (p : Receiver) : ℕ :=
  match p.place with
  | .exited _ | .killed => 0
  | .abandon | .closeOut => 1
  | .write => 2
  | .opensOut _ => 3
  | .openOut => 4
  | .area l => turns l.x p.b dx + 5
  | .closeIn => total + 6
  | .readB => total + 7
  | .readA => total + 8
  | .opensIn _ => total + 9
  | .openIn => total + 10
  | .mkfifoOut => total + 11
  | .mkfifoIn => total + 12

theorem dx_pos : 0 < dx := by norm_num [dx]

/-- How many steps are left. Whatever the user types in pays for what the
    sender does with it. -/
def rank (inputs : List (Option (ℚ × ℚ))) (s : State) : ℕ :=
  16 * s.inputs.length + s.sender.place.left + s.receiver.left (rectangles inputs)

variable {inputs : List (Option (ℚ × ℚ))} {stageIn stageOut : Stage} {s s' : State}

/-- A step of the sender that takes nothing from the user. -/
theorem rank_lt_of_place (hreceiver : s'.receiver = s.receiver) (hinputs : s'.inputs = s.inputs)
    (hplace : s'.sender.place.left < s.sender.place.left) : rank inputs s' < rank inputs s := by
  -- The receiver and the inputs count as before.
  unfold rank
  rw [hreceiver, hinputs]
  omega

theorem rank_writeIn {x : ℚ} {place : SenderPlace} (hstep : s.writeIn x place = some s')
    (hplace : place.left < s.sender.place.left) (hkilled : 3 < s.sender.place.left) :
    rank inputs s' < rank inputs s := by
  unfold State.writeIn at hstep
  dsimp only at hstep
  -- Killed, it has as many steps left as after any other end.
  split at hstep
  · rw [← Option.some.inj hstep]
    exact rank_lt_of_place rfl rfl hkilled
  · split at hstep
    · rw [← Option.some.inj hstep]
      exact rank_lt_of_place rfl rfl hplace
    · cases hstep

theorem rank_sender (hstep : senderStep s = some s') : rank inputs s' < rank inputs s := by
  rcases s with ⟨inn, out, ⟨place, fdIn, fdOut, a, b, result⟩, receiver, typed, printed⟩
  cases place with
  | off | killed | exited => cases hstep
  | mkfifoIn | mkfifoOut | closeIn | closeOut | printf | unlinkIn | unlinkOut | abandon =>
      rw [← Option.some.inj hstep]
      exact rank_lt_of_place rfl rfl (Nat.lt_succ_self _)
  -- There are more steps left than for one that is killed.
  | writeA | writeB => exact rank_writeIn hstep (Nat.lt_succ_self _) (by simp [SenderPlace.left])
  | opensIn seen | opensOut seen =>
      simp only [senderStep] at hstep
      split at hstep
      · rw [← Option.some.inj hstep]
        exact rank_lt_of_place rfl rfl (Nat.lt_succ_self _)
      · cases hstep
  | openIn =>
      -- Found or not, the next place is nearer to the end.
      cases hnamed : inn.named with
      | none | some fd =>
          simp only [senderStep, hnamed] at hstep
          rw [← Option.some.inj hstep]
          exact rank_lt_of_place rfl rfl (by simp [State.sendAt, SenderPlace.left])
  | openOut =>
      cases hnamed : out.named with
      | none | some fd =>
          simp only [senderStep, hnamed] at hstep
          rw [← Option.some.inj hstep]
          exact rank_lt_of_place rfl rfl (by simp [State.sendAt, SenderPlace.left])
  | read =>
      simp only [senderStep] at hstep
      split at hstep
      · rw [← Option.some.inj hstep]
        exact rank_lt_of_place rfl rfl (by simp [SenderPlace.left])
      · split at hstep
        · rw [← Option.some.inj hstep]
          exact rank_lt_of_place rfl rfl (by simp [State.sendAt, SenderPlace.left])
        · cases hstep
  | scanf =>
      -- What is typed in is used up, and it paid for all that comes now.
      cases typed with
      | nil => cases hstep
      | cons input rest =>
          cases input with
          | none | some interval =>
              rw [← Option.some.inj hstep]
              simp only [rank, State.sendAt, SenderPlace.left, List.length_cons]
              omega

theorem rank_start (hstep : start s = some s') : rank inputs s' < rank inputs s := by
  unfold start at hstep
  split at hstep
  · rename_i hcan
    rw [← Option.some.inj hstep]
    refine rank_lt_of_place rfl rfl ?_
    rcases hcan.1 with hplace | hplace <;> simp [hplace, State.sendAt, SenderPlace.left]
  · cases hstep

/-- What the receiver has taken is the interval that was typed in first. -/
theorem Inv.rectangles_eq (h : Inv inputs stageIn stageOut s) {p : Receiver}
    (hp : s.receiver = p) (htaken : p.taken = [p.a, p.b]) :
    rectangles inputs = turns p.a p.b dx := by
  -- Two were given at most, so what was taken is all of it.
  have hle := length_given_in_le s.sender
  have hgiven := h.inn.joined.taken_eq (by rw [hp, htaken]; exact hle)
  rw [hp, htaken] at hgiven
  -- Only behind its second `write` it has given two.
  have htyped : s.sender.place.Typed ∧ s.sender.given = [s.sender.a, s.sender.b] := by
    revert hgiven
    unfold Sender.given
    cases s.sender.place with
    | exited status => cases status <;> simp [SenderPlace.Typed]
    | _ => simp [SenderPlace.Typed]
  rw [htyped.2] at hgiven
  simp only [List.cons.injEq, and_true] at hgiven
  unfold rectangles
  rw [h.typed htyped.1, hgiven.1, hgiven.2]

theorem rank_lt_of_left (hsender : s'.sender = s.sender) (hinputs : s'.inputs = s.inputs)
    (hleft : s'.receiver.left (rectangles inputs) < s.receiver.left (rectangles inputs)) :
    rank inputs s' < rank inputs s := by
  unfold rank
  rw [hsender, hinputs]
  omega

theorem rank_receiver (h : Inv inputs stageIn stageOut s) (hstep : receiverStep s = some s') :
    rank inputs s' < rank inputs s := by
  -- With two numbers taken the rectangles are those of the first interval.
  have hrectangles := fun p => h.rectangles_eq (p := p)
  rcases s with ⟨inn, out, sender, ⟨place, fdIn, fdOut, a, b, result⟩, typed, printed⟩
  cases place with
  | killed | exited => cases hstep
  | mkfifoIn | mkfifoOut | closeOut | abandon =>
      rw [← Option.some.inj hstep]
      exact rank_lt_of_left rfl rfl (Nat.lt_succ_self _)
  | opensIn seen | opensOut seen =>
      simp only [receiverStep] at hstep
      split at hstep
      · rw [← Option.some.inj hstep]
        exact rank_lt_of_left rfl rfl (Nat.lt_succ_self _)
      · cases hstep
  | openIn =>
      cases hnamed : inn.named with
      | none | some fd =>
          simp only [receiverStep, hnamed] at hstep
          rw [← Option.some.inj hstep]
          exact rank_lt_of_left rfl rfl (by simp only [State.receiveAt, Receiver.left]; omega)
  | openOut =>
      cases hnamed : out.named with
      | none | some fd =>
          simp only [receiverStep, hnamed] at hstep
          rw [← Option.some.inj hstep]
          exact rank_lt_of_left rfl rfl (by simp only [State.receiveAt, Receiver.left]; omega)
  | readA | readB =>
      simp only [receiverStep, State.readIn] at hstep
      split at hstep
      · rw [← Option.some.inj hstep]
        exact rank_lt_of_left rfl rfl (Nat.lt_succ_self _)
      · split at hstep
        · rw [← Option.some.inj hstep]
          exact rank_lt_of_left rfl rfl (by simp only [State.receiveAt, Receiver.left]; omega)
        · cases hstep
  | write =>
      simp only [receiverStep] at hstep
      split at hstep
      · rw [← Option.some.inj hstep]
        exact rank_lt_of_left rfl rfl (by simp [State.receiveAt, Receiver.left])
      · split at hstep
        · rw [← Option.some.inj hstep]
          exact rank_lt_of_left rfl rfl (by simp [State.receiveAt, Receiver.left])
        · cases hstep
  | closeIn =>
      -- From here on they are counted by what the receiver has taken.
      have htotal := hrectangles _ rfl rfl
      rw [← Option.some.inj hstep]
      refine rank_lt_of_left rfl rfl ?_
      rw [htotal]
      exact Nat.lt_succ_self _
  | area l =>
      simp only [receiverStep] at hstep
      split at hstep
      · rename_i hlt
        -- One turn of the loop is one rectangle less.
        have hturn := turns_body dx_pos hlt
        rw [← Option.some.inj hstep]
        exact rank_lt_of_left rfl rfl (Nat.add_lt_add_right hturn 5)
      · rw [← Option.some.inj hstep]
        refine rank_lt_of_left rfl rfl ?_
        simp only [Receiver.left]
        omega

end Rank

section Progress

variable {inputs : List (Option (ℚ × ℚ))} {stageIn stageOut : Stage} {s : State}

/-- There is always room in the pipes. -/
theorem length_data_lt {p : Pipe ℚ} {es : Mode → End} {taken given : List ℚ}
    (h : p.Joined es taken given) (hgiven : given.length ≤ 2) : p.data.length < capacity := by
  have hlength := congrArg List.length h.conserved
  rw [List.length_append] at hlength
  unfold capacity
  omega

theorem writeIn_ne_none {x : ℚ} {place : SenderPlace} (hfd : s.sender.fdIn = 0)
    (h : Inv inputs stageIn stageOut s) : s.writeIn x place ≠ none := by
  have hroom := length_data_lt h.inn.joined (length_given_in_le s.sender)
  unfold State.writeIn
  rw [hfd]
  simp only [if_pos hroom]
  split <;> simp

/-- Where the sender stands if it cannot go on. -/
inductive SenderWaits (s : State) : Prop where
  | ended (hplace : s.sender.place = .off ∨ s.sender.place = .exited 1) (hinputs : s.inputs = [])
  | opensIn (seen : Option Nat) (hplace : s.sender.place = .opensIn seen)
      (hreceiver : s.receiver.place.inEnd = .unopened)
  | opensOut (seen : Option Nat) (hplace : s.sender.place = .opensOut seen)
      (hreceiver : s.receiver.place.outEnd = .unopened)
  | read (hplace : s.sender.place = .read) (hreceiver : s.receiver.given = [])
  | exited (hplace : s.sender.place = .exited 0)

theorem sender_of_stuck (h : Inv inputs stageIn stageOut s) (hstuck : Stuck step s) :
    SenderWaits s := by
  have hsender : senderStep s = none := hstuck .sender
  have hstart : start s = none := hstuck .start
  rcases s with ⟨inn, out, ⟨place, fdIn, fdOut, a, b, result⟩, receiver, typed, printed⟩
  rcases h.senderFds with ⟨rfl, rfl⟩
  cases place with
  -- These calls come back in any case.
  | mkfifoIn | mkfifoOut | closeIn | closeOut | printf | unlinkIn | unlinkOut => cases hsender
  | abandon | killed => exact absurd trivial h.sender
  | off =>
      -- It has not been started, so it could be if there were something to type.
      refine .ended (Or.inl rfl) ?_
      by_contra hasks
      simp [start, hasks] at hstart
  | exited status =>
      cases status with
      | zero => exact .exited rfl
      | succ n =>
          cases n with
          | succ n => exact absurd trivial h.sender
          | zero =>
              -- It has ended for want of numbers, and could be started once more.
              refine .ended (Or.inr rfl) ?_
              by_contra hasks
              simp [start, hasks] at hstart
  | scanf =>
      -- It asks, so there is something to read.
      have hasks := h.asks trivial
      cases typed with
      | nil => exact absurd rfl hasks
      | cons input rest => cases input <;> cases hsender
  | openIn =>
      -- With the name or without it, `open` makes a step.
      simp only [senderStep] at hsender
      split at hsender <;> cases hsender
  | openOut =>
      simp only [senderStep] at hsender
      split at hsender <;> cases hsender
  | opensIn seen =>
      simp only [senderStep] at hsender
      split at hsender
      · cases hsender
      -- It waits in `open`, so nobody has come to the other end.
      · rename_i hwaits
        exact .opensIn seen rfl (h.inn.joined.unopened_of_waits rfl hwaits)
  | opensOut seen =>
      simp only [senderStep] at hsender
      split at hsender
      · cases hsender
      · rename_i hwaits
        exact .opensOut seen rfl (h.out.joined.unopened_of_waits rfl hwaits)
  -- There is always room for two numbers, or nobody to read them.
  | writeA | writeB => exact absurd hsender (writeIn_ne_none rfl h)
  | read =>
      simp only [senderStep] at hsender
      split at hsender
      · cases hsender
      -- An empty pipe that still has a writer.
      · rename_i hnil
        have hconserved : [] ++ (out.pipe 0).data = receiver.given := h.out.joined.conserved
        rw [hnil] at hconserved
        exact .read rfl hconserved.symm

/-- Where the receiver stands if it cannot go on. -/
inductive ReceiverWaits (s : State) : Prop where
  | opensIn (seen : Option Nat) (hplace : s.receiver.place = .opensIn seen)
      (hsender : s.sender.place.inEnd = .unopened)
  | read (hplace : s.receiver.place = .readA ∨ s.receiver.place = .readB)
      (hsender : s.sender.given.length < 2)
  | opensOut (seen : Option Nat) (hplace : s.receiver.place = .opensOut seen)
      (hsender : s.sender.place.outEnd = .unopened)
  | exited (hplace : s.receiver.place = .exited 0)

theorem receiver_of_stuck (h : Inv inputs stageIn stageOut s) (hstuck : Stuck step s) :
    ReceiverWaits s := by
  have hreceiver : receiverStep s = none := hstuck .receiver
  rcases s with ⟨inn, out, sender, ⟨place, fdIn, fdOut, a, b, result⟩, typed, printed⟩
  rcases h.receiverFds with ⟨rfl, rfl⟩
  cases place with
  -- Likewise.
  | mkfifoIn | mkfifoOut | closeIn | closeOut => cases hreceiver
  | abandon | killed => exact absurd trivial h.receiver
  | exited status =>
      cases status with
      | zero => exact .exited rfl
      | succ n => exact absurd trivial h.receiver
  | openIn =>
      simp only [receiverStep] at hreceiver
      split at hreceiver <;> cases hreceiver
  | openOut =>
      simp only [receiverStep] at hreceiver
      split at hreceiver <;> cases hreceiver
  -- A turn of the loop, or its end.
  | area l =>
      simp only [receiverStep] at hreceiver
      split at hreceiver <;> cases hreceiver
  | opensIn seen =>
      simp only [receiverStep] at hreceiver
      split at hreceiver
      · cases hreceiver
      -- It waits in `open`, so the sender has not come to this pipe.
      · rename_i hwaits
        exact .opensIn seen rfl (h.inn.joined.unopened_of_waits rfl hwaits)
  | opensOut seen =>
      simp only [receiverStep] at hreceiver
      split at hreceiver
      · cases hreceiver
      · rename_i hwaits
        exact .opensOut seen rfl (h.out.joined.unopened_of_waits rfl hwaits)
  | readA =>
      simp only [receiverStep, State.readIn] at hreceiver
      split at hreceiver
      · cases hreceiver
      -- Nothing was given that is not taken already.
      · rename_i hnil
        have hconserved : [] ++ (inn.pipe 0).data = sender.given := h.inn.joined.conserved
        rw [hnil] at hconserved
        exact .read (Or.inl rfl) (hconserved ▸ Nat.two_pos)
  | readB =>
      simp only [receiverStep, State.readIn] at hreceiver
      split at hreceiver
      · cases hreceiver
      · rename_i hnil
        -- One number was taken, and it was all that had been given.
        have hconserved : [a] ++ (inn.pipe 0).data = sender.given := h.inn.joined.conserved
        rw [hnil] at hconserved
        exact .read (Or.inr rfl) (hconserved ▸ Nat.one_lt_two)
  | write =>
      -- There is room for one number.
      have hroom := length_data_lt h.out.joined (Nat.le_succ_of_le (length_given_le _))
      simp only [receiverStep, if_pos hroom] at hreceiver
      split at hreceiver <;> cases hreceiver

theorem served_of_exited (h : Inv inputs stageIn stageOut s) (hsender : s.sender.place = .exited 0)
    (hreceiver : s.receiver.place = .exited 0) :
    firstInterval inputs = some (s.sender.a, s.sender.b) ∧ Served s.sender.a s.sender.b s := by
  rcases s with ⟨inn, out, ⟨place, fdIn, fdOut, a, b, result⟩,
    ⟨rplace, rfdIn, rfdOut, ra, rb, rresult⟩, typed, printed⟩
  dsimp only at hsender hreceiver
  subst hsender hreceiver
  -- All that was given has been taken, on both sides.
  have hin : [ra, rb] = [a, b] := h.inn.joined.taken_eq (Nat.le_refl 2)
  have hout : [result] = [rresult] := h.out.joined.taken_eq (Nat.le_refl 1)
  have harea : rectangleArea ra rb dx = Part.some rresult := h.computes
  simp only [List.cons.injEq, and_true] at hin hout
  rw [hin.1, hin.2, ← hout] at harea
  have hremovedIn := h.removedIn.mpr trivial
  have hremovedOut := h.removedOut.mpr trivial
  subst hremovedIn hremovedOut
  exact ⟨h.typed trivial, ⟨⟨result, h.printed, harea⟩, rfl, rfl, h.inn.named, h.out.named⟩⟩

theorem waiting_of_ended (h : Inv inputs stageIn stageOut s)
    (hsender : s.sender.place = .off ∨ s.sender.place = .exited 1) (hinputs : s.inputs = [])
    {seen : Option Nat} (hreceiver : s.receiver.place = .opensIn seen) :
    firstInterval inputs = none ∧ Waiting s := by
  -- A sender that has not started, or has not got numbers, has done nothing with the pipes.
  have huntyped : ¬ s.sender.place.Typed := by
    rcases hsender with hplace | hplace <;> simp [hplace, SenderPlace.Typed]
  have hkept : ¬ s.sender.place.RemovedIn ∧ ¬ s.sender.place.RemovedOut := by
    rcases hsender with hplace | hplace <;>
      simp [hplace, SenderPlace.RemovedIn, SenderPlace.RemovedOut]
  have hprints : s.sender.prints = [] := by
    rcases hsender with hplace | hplace <;> simp [hplace, Sender.prints]
  have hmade : ¬ s.receiver.place.UnmadeIn ∧ ¬ s.receiver.place.UnmadeOut := by
    simp [hreceiver, ReceiverPlace.UnmadeIn, ReceiverPlace.UnmadeOut]
  -- The receiver has made both, and nobody has removed them.
  have hin := Stage.eq_there (fun hin => hmade.1 (h.madeIn hin).2) (mt h.removedIn.mp hkept.1)
  have hout := Stage.eq_there (fun hout => hmade.2 (h.madeOut hout).2) (mt h.removedOut.mp hkept.2)
  refine ⟨?_, ⟨by rw [h.printed, hprints], hsender, ⟨seen, hreceiver⟩, ?_, ?_⟩⟩
  · rw [← h.untyped huntyped, hinputs]
    rfl
  · rw [h.inn.named, if_pos hin]
    exact Option.some_ne_none 0
  · rw [h.out.named, if_pos hout]
    exact Option.some_ne_none 0

/-- With the sender at its second pipe, nothing keeps the receiver. -/
theorem exited_of_through (h : Inv inputs stageIn stageOut s) (hstuck : Stuck step s)
    (hin : s.sender.place.inEnd = .closed) (hout : s.sender.place.outEnd ≠ .unopened) :
    s.receiver.place = .exited 0 := by
  cases receiver_of_stuck h hstuck with
  | opensIn seen hreceiver hsender =>
      -- The sender has been at the first pipe,
      rw [hin] at hsender
      cases hsender
  | read hreceiver hsender =>
      -- has given both numbers,
      rw [length_given_of_closed_in hin] at hsender
      exact absurd hsender (Nat.lt_irrefl 2)
  -- and is at the second pipe.
  | opensOut seen hreceiver hsender => exact absurd hsender hout
  | exited hreceiver => exact hreceiver

/-- Who waits, waits for somebody who has not come so far, and that is not
    somebody who waits for them. -/
theorem outcome_of_stuck (h : Inv inputs stageIn stageOut s) (hstuck : Stuck step s) :
    Outcome inputs s := by
  have hmetIn : s.receiver.place.inEnd.Met → s.sender.place.inEnd ≠ .unopened :=
    h.inn.joined.met .read
  have hmetOut : s.receiver.place.outEnd.Met → s.sender.place.outEnd ≠ .unopened :=
    h.out.joined.met .write
  unfold Outcome
  cases sender_of_stuck h hstuck with
  -- A sender that got no numbers has opened nothing, so the receiver cannot have got through.
  | ended hplace hinputs =>
      have hunopened : s.sender.place.inEnd = .unopened ∧ s.sender.place.outEnd = .unopened := by
        rcases hplace with hplace | hplace <;> simp [hplace, SenderPlace.inEnd, SenderPlace.outEnd]
      cases receiver_of_stuck h hstuck with
      | opensIn seen hreceiver hsender =>
          rcases waiting_of_ended h hplace hinputs hreceiver with ⟨hnone, hwaiting⟩
          rw [hnone]
          exact hwaiting
      | read hreceiver hsender =>
          refine absurd hunopened.1 (hmetIn ?_)
          rcases hreceiver with hreceiver | hreceiver <;>
            simp [hreceiver, ReceiverPlace.inEnd, End.Met]
      | opensOut seen hreceiver hsender =>
          refine absurd hunopened.1 (hmetIn ?_)
          simp [hreceiver, ReceiverPlace.inEnd, End.Met]
      | exited hreceiver =>
          refine absurd hunopened.2 (hmetOut ?_)
          simp [hreceiver, ReceiverPlace.outEnd, End.Met]
  | opensIn seen hplace hreceiver =>
      -- The sender has come to a receiver that has not: but that one waits for nobody else.
      cases receiver_of_stuck h hstuck with
      | opensIn _ hwaits | opensOut _ hwaits | exited hwaits =>
          simp [hwaits, ReceiverPlace.inEnd] at hreceiver
      | read hwaits =>
          rcases hwaits with hwaits | hwaits <;> simp [hwaits, ReceiverPlace.inEnd] at hreceiver
  | opensOut seen hplace hreceiver =>
      -- The receiver has been through the second pipe, so the sender is not alone there.
      have hexited := exited_of_through h hstuck (by rw [hplace]; rfl)
        (by simp [hplace, SenderPlace.outEnd])
      simp [hexited, ReceiverPlace.outEnd] at hreceiver
  | read hplace hgiven =>
      -- It has also written, so there is something to read.
      have hexited := exited_of_through h hstuck (by rw [hplace]; rfl)
        (by simp [hplace, SenderPlace.outEnd])
      simp [hexited, Receiver.given] at hgiven
  | exited hplace =>
      -- Both have ended as they should.
      have hexited := exited_of_through h hstuck (by rw [hplace]; rfl)
        (by simp [hplace, SenderPlace.outEnd])
      rcases served_of_exited h hplace hexited with ⟨hfirst, hserved⟩
      rw [hfirst]
      exact hserved

end Progress

theorem shared_leftover (there : Bool) :
    (leftover there).Shared (if there then .there else .missing) (ends .unopened .unopened) []
      [] := by
  cases there <;> exact ⟨rfl, rfl, joined_new⟩

theorem inv_init (leftIn leftOut : Bool) (inputs : List (Option (ℚ × ℚ))) :
    Inv inputs (if leftIn then .there else .missing) (if leftOut then .there else .missing)
      (init leftIn leftOut inputs) where
  inn := shared_leftover leftIn
  out := shared_leftover leftOut
  madeIn := fun _ => ⟨trivial, trivial⟩
  madeOut := fun _ => ⟨trivial, trivial⟩
  removedIn := iff_of_false (by cases leftIn <;> decide) id
  removedOut := iff_of_false (by cases leftOut <;> decide) id
  senderFds := ⟨rfl, rfl⟩
  receiverFds := ⟨rfl, rfl⟩
  computes := trivial
  typed := False.elim
  untyped := fun _ => rfl
  asks := False.elim
  printed := rfl
  sender := id
  receiver := id

/-- Whatever the user types in, whoever comes first, and whatever pipes there
    were before, the programs come to an end, with the area of the first
    interval, or with the receiver waiting for one. -/
theorem completes_outcome (leftIn leftOut : Bool) (inputs : List (Option (ℚ × ℚ))) :
    Completes step (init leftIn leftOut inputs) (16 * inputs.length + rectangles inputs + 15)
      (Outcome inputs) := by
  have hkeep : ∀ s e s', (∃ stageIn stageOut, Inv inputs stageIn stageOut s) →
      step s e = some s' → ∃ stageIn stageOut, Inv inputs stageIn stageOut s' := by
    rintro s e s' ⟨stageIn, stageOut, h⟩ hstep
    cases e with
    | start => exact inv_start h hstep
    | sender => exact inv_sender h hstep
    | receiver => exact inv_receiver h hstep
  have hlower : ∀ s e s', (∃ stageIn stageOut, Inv inputs stageIn stageOut s) →
      step s e = some s' → rank inputs s' < rank inputs s := by
    rintro s e s' ⟨stageIn, stageOut, h⟩ hstep
    cases e with
    | start => exact rank_start hstep
    | sender => exact rank_sender hstep
    | receiver => exact rank_receiver h hstep
  have hrank : rank inputs (init leftIn leftOut inputs)
      = 16 * inputs.length + rectangles inputs + 15 := by
    simp only [rank, init, SenderPlace.left, Receiver.left]
    omega
  rw [← hrank]
  refine completes_of_rank hkeep hlower ?_ ⟨_, _, inv_init leftIn leftOut inputs⟩
  rintro s ⟨stageIn, stageOut, h⟩ hstuck
  exact outcome_of_stuck h hstuck

end Fifos

end Integration

end OsLabs
