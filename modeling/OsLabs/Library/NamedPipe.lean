import Mathlib.Data.List.GetD
import Mathlib.Logic.Function.Basic

/-!
# Named Pipes

A pipe with a name in the file system, which one program opens for reading and
another for writing. An `open` waits until the other side has been opened, now
or since; after that a `read` waits for something to take, and finds the end
only when there is no writer left, and a `write` needs a reader.

The name and the pipe are two things: a pipe that has lost its name stays for
those who have it open. What was not taken is lost with the last descriptor.

For one reader and one writer, each of which opens the pipe once, the pipe is
known from where the two are and from what they have given and taken. From that
the calls can be told that do not go wrong: a writer meets a reader that has
not closed yet, and a reader that has not taken everything does not find the
end.

## Main definitions

* `Pipe`, `Fifo`: A pipe, and a path that leads to one.
* `End`: Where a program is with its end of the pipe.
* `Pipe.Joined`, `Fifo.Shared`: The pipe of one reader and one writer.

## Theorems

* `Pipe.Joined.openAt`, `goesOn`, `closeAt`, `write`, `read`: What keeps it so.
* `Pipe.Joined.unopened_of_waits`: Whom an `open` waits for.
* `Pipe.Joined.reader`, `not_at_end`: No broken pipe, and no early end.
* `Pipe.Joined.kept`: Nothing is lost.
* `Fifo.Shared.mkfifo`, `unlink`, `put`: The path.
-/

namespace OsLabs

namespace NamedPipe

variable {α : Type*}

/-- The access that a descriptor gives. -/
inductive Mode where
  | read
  | write
  deriving DecidableEq

def Mode.other : Mode → Mode
  | .read => .write
  | .write => .read

/-- A pipe, with the descriptors there are on either side, and how often it has
    been opened on either side. -/
structure Pipe (α : Type*) where
  data : List α
  descriptors : Mode → Nat
  opened : Mode → Nat

def Pipe.new : Pipe α := ⟨[], fun _ => 0, fun _ => 0⟩

/-- An `open` that has found nobody on the other side waits until that side has
    been opened more often than it had been then. -/
def Pipe.seen (p : Pipe α) (m : Mode) : Option Nat :=
  if p.descriptors m.other = 0 then some (p.opened m.other) else none

/-- The `open` comes to its end. -/
def Pipe.Met (p : Pipe α) (m : Mode) (seen : Option Nat) : Prop :=
  ∀ n ∈ seen, n ≠ p.opened m.other

instance (p : Pipe α) (m : Mode) (seen : Option Nat) : Decidable (p.Met m seen) :=
  match seen with
  | none => .isTrue (fun _ h => by cases h)
  | some n => decidable_of_iff (n ≠ p.opened m.other)
      (by simp only [Pipe.Met, Option.mem_some_iff, forall_eq'])

/-- `open` -/
def Pipe.openAt (p : Pipe α) (m : Mode) : Pipe α where
  data := p.data
  descriptors := Function.update p.descriptors m (p.descriptors m + 1)
  opened := Function.update p.opened m (p.opened m + 1)

/-- `close` -/
def Pipe.closeAt (p : Pipe α) (m : Mode) : Pipe α where
  data := if p.descriptors m - 1 = 0 ∧ p.descriptors m.other = 0 then [] else p.data
  descriptors := Function.update p.descriptors m (p.descriptors m - 1)
  opened := p.opened

/-- `write` -/
def Pipe.push (p : Pipe α) (x : α) : Pipe α := { p with data := p.data ++ [x] }

/-- `read` -/
def Pipe.pop (p : Pipe α) : Pipe α := { p with data := p.data.tail }

/-- A path, and the pipes that there have been under it. -/
structure Fifo (α : Type*) where
  named : Option Nat
  pipes : List (Pipe α)

/-- The pipe of a descriptor. -/
def Fifo.pipe (f : Fifo α) (fd : Nat) : Pipe α := f.pipes.getD fd .new

def Fifo.put (f : Fifo α) (fd : Nat) (p : Pipe α) : Fifo α := ⟨f.named, f.pipes.set fd p⟩

/-- `mkfifo`, which fails if there is something under the path. -/
def Fifo.mkfifo (f : Fifo α) : Fifo α :=
  match f.named with
  | some _ => f
  | none => ⟨some f.pipes.length, f.pipes ++ [.new]⟩

/-- `unlink` -/
def Fifo.unlink (f : Fifo α) : Fifo α := { f with named := none }

/-- Where a program is with its end of a pipe. In `open`, with what it has seen
    of the other side. -/
inductive End where
  | unopened
  | opening (seen : Option Nat)
  | opened
  | closed
  deriving DecidableEq

def End.descriptors : End → Nat
  | .unopened | .closed => 0
  | .opening _ | .opened => 1

def End.timesOpened : End → Nat
  | .unopened => 0
  | .opening _ | .opened | .closed => 1

/-- The other side is known to have been opened. -/
def End.Met : End → Prop
  | .unopened | .opening (some _) => False
  | .opening none | .opened | .closed => True

/-- The two ends of a pipe. -/
def ends (reader writer : End) : Mode → End
  | .read => reader
  | .write => writer

/-- A pipe with one reader and one writer, where either has opened it once at
    most. -/
structure Pipe.Joined (p : Pipe α) (es : Mode → End) (taken given : List α) : Prop where
  descriptors : ∀ m, p.descriptors m = (es m).descriptors
  opened : ∀ m, p.opened m = (es m).timesOpened
  met : ∀ m, (es m).Met → es m.other ≠ .unopened
  seen : ∀ m n, es m = .opening (some n) → n = 0
  conserved : taken ++ p.data = given

section Joined

variable {p : Pipe α} {es es' : Mode → End} {taken given : List α} {m : Mode}

theorem Mode.other_ne (m : Mode) : m.other ≠ m := by cases m <;> decide

theorem Mode.eq_or_other (m m' : Mode) : m' = m ∨ m' = m.other := by
  cases m <;> cases m' <;> decide

theorem Mode.other_other (m : Mode) : m.other.other = m := by cases m <;> rfl

/-- What is to be shown of both sides is shown of either. -/
theorem Mode.forall_iff {P : Mode → Prop} (m : Mode) : (∀ m', P m') ↔ P m ∧ P m.other := by
  refine ⟨fun h => ⟨h m, h m.other⟩, fun h m' => ?_⟩
  rcases m.eq_or_other m' with rfl | rfl
  · exact h.1
  · exact h.2

theorem joined_new : (Pipe.new : Pipe α).Joined (ends .unopened .unopened) [] [] where
  descriptors := fun m => by cases m <;> rfl
  opened := fun m => by cases m <;> rfl
  met := fun m h => by cases m <;> exact h.elim
  seen := fun m n h => by cases m <;> cases h
  conserved := rfl

theorem unopened_iff {e : End} : e.timesOpened = 0 ↔ e = .unopened := by
  cases e <;> simp [End.timesOpened]

namespace Pipe.Joined

/-- Nobody on the other side, so far: it has not been opened, since whoever has
    closed it has met somebody here. -/
theorem unopened_of_alone (h : p.Joined es taken given) (hm : es m = .unopened)
    (hnone : p.descriptors m.other = 0) : es m.other = .unopened := by
  rw [h.descriptors] at hnone
  have hmet := h.met m.other
  rw [m.other_other, hm] at hmet
  cases hother : es m.other with
  | unopened => rfl
  | opening seen | opened =>
      rw [hother] at hnone
      cases hnone
  | closed =>
      rw [hother] at hmet
      exact absurd rfl (hmet trivial)

theorem openAt (h : p.Joined es taken given) (hm : es m = .unopened)
    (hm' : es' m = .opening (p.seen m)) (hother : es' m.other = es m.other) :
    (p.openAt m).Joined es' taken given where
  descriptors := by
    rw [Mode.forall_iff m, hm', hother]
    simp [Pipe.openAt, m.other_ne, h.descriptors, hm, End.descriptors]
  opened := by
    rw [Mode.forall_iff m, hm', hother]
    simp [Pipe.openAt, m.other_ne, h.opened, hm, End.timesOpened]
  -- If the side that opens now meets the other at once, that one has been opened.
  met := by
    rw [Mode.forall_iff m, m.other_other, hm', hother]
    refine ⟨fun hmet hun => ?_, fun _ => by simp only [ne_eq, reduceCtorEq, not_false_eq_true]⟩
    rw [Pipe.seen, if_pos (by rw [h.descriptors, hun]; rfl)] at hmet
    exact hmet
  seen := by
    -- Whoever finds nobody on the other side has counted no opening of it.
    rw [Mode.forall_iff m, hm', hother]
    refine ⟨fun n hn => ?_, h.seen m.other⟩
    by_cases hnone : p.descriptors m.other = 0
    · rw [Pipe.seen, if_pos hnone, h.opened, h.unopened_of_alone hm hnone] at hn
      exact (Option.some.inj (End.opening.inj hn)).symm
    · rw [Pipe.seen, if_neg hnone] at hn
      cases hn
  conserved := h.conserved

/-- An `open` that waits, waits for the other side to be opened at all. -/
theorem unopened_of_waits {seen : Option Nat} (h : p.Joined es taken given)
    (hm : es m = .opening seen) (hwaits : ¬ p.Met m seen) : es m.other = .unopened := by
  cases seen with
  | none => exact absurd (fun _ hn => by cases hn) hwaits
  | some n =>
      have hn := h.seen m n hm
      simp only [Pipe.Met, Option.mem_some_iff, forall_eq', not_not] at hwaits
      rw [← unopened_iff, ← h.opened, ← hwaits, hn]

theorem goesOn {seen : Option Nat} (h : p.Joined es taken given) (hm : es m = .opening seen)
    (hmet : p.Met m seen) (hm' : es' m = .opened) (hother : es' m.other = es m.other) :
    p.Joined es' taken given where
  descriptors := by
    rw [Mode.forall_iff m, hm', hother]
    exact ⟨by rw [h.descriptors, hm]; rfl, h.descriptors _⟩
  opened := by
    rw [Mode.forall_iff m, hm', hother]
    exact ⟨by rw [h.opened, hm]; rfl, h.opened _⟩
  met := by
    rw [Mode.forall_iff m, m.other_other, hm', hother]
    refine ⟨fun _ hun => ?_, fun _ => by simp only [ne_eq, reduceCtorEq, not_false_eq_true]⟩
    -- The other side is there, or has been opened since.
    cases seen with
    | none =>
        refine h.met m ?_ hun
        rw [hm]
        trivial
    | some n =>
        refine hmet n rfl ?_
        rw [h.opened, hun, h.seen m n hm]
        rfl
  seen := by
    rw [Mode.forall_iff m, hm', hother]
    refine ⟨fun n hn => ?_, h.seen m.other⟩
    cases hn
  conserved := h.conserved

/-- Nothing is lost if all has been taken, or somebody is there to take it. -/
theorem closeAt (h : p.Joined es taken given) (hm : es m = .opened)
    (hkept : taken = given ∨ (es m.other).descriptors ≠ 0) (hm' : es' m = .closed)
    (hother : es' m.other = es m.other) : (p.closeAt m).Joined es' taken given where
  descriptors := by
    rw [Mode.forall_iff m, hm', hother]
    simp [Pipe.closeAt, m.other_ne, h.descriptors, hm, End.descriptors]
  opened := by
    rw [Mode.forall_iff m, hm', hother]
    exact ⟨by rw [Pipe.closeAt, h.opened, hm]; rfl, h.opened _⟩
  met := by
    rw [Mode.forall_iff m, m.other_other, hm', hother]
    refine ⟨fun _ => h.met m ?_, fun _ => by simp only [ne_eq, reduceCtorEq, not_false_eq_true]⟩
    rw [hm]
    trivial
  seen := by
    rw [Mode.forall_iff m, hm', hother]
    refine ⟨fun n hn => ?_, h.seen m.other⟩
    cases hn
  conserved := by
    -- Closing drops what is in the pipe only if no descriptor is left.
    rw [Pipe.closeAt]
    dsimp only
    rcases hkept with hall | hthere
    · have hnil : p.data = [] := by
        have hconserved := h.conserved
        rw [hall] at hconserved
        exact List.append_right_eq_self.mp hconserved
      rw [hnil, ite_self, List.append_nil, hall]
    · rw [if_neg (fun hnone => hthere (by rw [← h.descriptors]; exact hnone.2))]
      exact h.conserved

/-- A writer that has opened its end has a reader, until that has closed. -/
theorem reader (h : p.Joined es taken given) (hm : es .write = .opened)
    (hopen : es .read ≠ .closed) : p.descriptors .read ≠ 0 := by
  have hmet := h.met .write (by rw [hm]; trivial)
  rw [h.descriptors]
  change es .read ≠ .unopened at hmet
  cases hread : es .read with
  | unopened => exact absurd hread hmet
  | opening seen | opened => exact Nat.one_ne_zero
  | closed => exact absurd hread hopen

theorem write (h : p.Joined es taken given) (x : α) :
    (p.push x).Joined es taken (given ++ [x]) where
  descriptors := h.descriptors
  opened := h.opened
  met := h.met
  seen := h.seen
  conserved := by rw [Pipe.push, ← List.append_assoc, h.conserved]

theorem read {x : α} {rest : List α} (h : p.Joined es taken given) (hdata : p.data = x :: rest) :
    p.pop.Joined es (taken ++ [x]) given where
  descriptors := h.descriptors
  opened := h.opened
  met := h.met
  seen := h.seen
  conserved := by
    rw [Pipe.pop, hdata, List.tail_cons, List.append_assoc, List.singleton_append, ← hdata,
      h.conserved]

theorem length_le (h : p.Joined es taken given) : taken.length ≤ given.length := by
  rw [← h.conserved, List.length_append]
  exact Nat.le_add_right _ _

/-- A reader that has taken as much as was given has taken that. -/
theorem taken_eq (h : p.Joined es taken given) (hle : given.length ≤ taken.length) :
    taken = given := by
  refine List.IsPrefix.eq_of_length ⟨p.data, h.conserved⟩ ?_
  exact Nat.le_antisymm h.length_le hle

/-- A writer may close, if its reader does not close before it has taken
    everything. -/
theorem kept (h : p.Joined es taken given) (hm : es .write = .opened)
    (hall : es .read = .closed → given.length ≤ taken.length) :
    taken = given ∨ (es Mode.write.other).descriptors ≠ 0 := by
  by_cases hread : es .read = .closed
  · exact Or.inl (h.taken_eq (hall hread))
  · have hreader := h.reader hm hread
    rw [h.descriptors] at hreader
    exact Or.inr hreader

/-- A reader does not find the end, if its writer does not close before it has
    given more than was taken. -/
theorem not_at_end (h : p.Joined es taken given) (hm : es .read = .opened)
    (hmore : es .write = .closed → taken.length < given.length) (hnil : p.data = []) :
    p.descriptors .write ≠ 0 := by
  have hmet := h.met .read (by rw [hm]; trivial)
  rw [h.descriptors]
  change es .write ≠ .unopened at hmet
  cases hwrite : es .write with
  | unopened => exact absurd hwrite hmet
  | opening seen | opened => exact Nat.one_ne_zero
  | closed =>
      have hlt := hmore hwrite
      rw [← h.conserved, hnil, List.append_nil] at hlt
      exact absurd hlt (Nat.lt_irrefl _)

end Pipe.Joined

end Joined

/-- Whether the pipe has been made, and has its name still. -/
inductive Stage where
  | missing
  | there
  | removed
  deriving DecidableEq

theorem Stage.eq_there {stage : Stage} (hmade : stage ≠ .missing) (hkept : stage ≠ .removed) :
    stage = .there := by
  cases stage with
  | missing => exact absurd rfl hmade
  | there => rfl
  | removed => exact absurd rfl hkept

/-- The only pipe that there is under a path, with one reader and one writer. -/
structure Fifo.Shared (f : Fifo α) (stage : Stage) (es : Mode → End) (taken given : List α) :
    Prop where
  named : f.named = if stage = .there then some 0 else none
  length : f.pipes.length = if stage = .missing then 0 else 1
  joined : (f.pipe 0).Joined es taken given

namespace Fifo.Shared

variable {f : Fifo α} {stage : Stage} {es es' : Mode → End} {taken given taken' given' : List α}

theorem mkfifo (h : f.Shared stage es taken given) (hstage : stage ≠ .removed) :
    f.mkfifo.Shared .there es taken given := by
  cases stage with
  | removed => exact absurd rfl hstage
  | there =>
      have hnamed : f.named = some 0 := h.named
      rwa [Fifo.mkfifo, hnamed]
  | missing =>
      have hnamed : f.named = none := h.named
      have hnil : f.pipes = [] := List.eq_nil_of_length_eq_zero h.length
      have hjoined := h.joined
      rw [Fifo.pipe, hnil] at hjoined
      rw [Fifo.mkfifo, hnamed, hnil]
      exact ⟨rfl, rfl, hjoined⟩

theorem unlink (h : f.Shared .there es taken given) : f.unlink.Shared .removed es taken given :=
  ⟨rfl, h.length, h.joined⟩

/-- A call on the pipe. -/
theorem put {p : Pipe α} (h : f.Shared stage es taken given) (hstage : stage ≠ .missing)
    (hp : p.Joined es' taken' given') : (f.put 0 p).Shared stage es' taken' given' := by
  have hlength := h.length
  rw [if_neg hstage] at hlength
  refine ⟨h.named, ?_, ?_⟩
  · rw [Fifo.put, List.length_set, if_neg hstage, hlength]
  · have hpipe : (f.put 0 p).pipe 0 = p := by
      rw [Fifo.pipe, Fifo.put, List.getD_eq_getElem _ _ (by rw [List.length_set]; omega),
        List.getElem_set_self]
    rwa [hpipe]

end Fifo.Shared

end NamedPipe

end OsLabs
