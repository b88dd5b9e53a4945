import OsLabs.Library.Completion
import OsLabs.Print.Fifo

/-!
# What the Printers Print

`user_process` and `printer_process` of `cw08/assignment/main.c`, around the
queue: a user says which job it sends before it puts it into the queue, and a
printer prints the job that it took out, letter by letter, between a first and a
last line. A printer takes no other job in between.

What is printed is followed job by job. A job that was sent is with its user,
in the queue, with a printer, or printed, and each of these moves on: so many
times a text was sent, so many times it is in these places together. When
nobody can do anything but send a new job, the users have nothing left to put
into the queue, which the printers have emptied, and so all that was sent has
been printed, in whole printouts.

Standard output is taken to be a terminal, so that every line comes out when it
is printed.

## Main definitions

* `Line`: A line on standard output.
* `Printing`: Where a printer is in its printout.
* `Office`, `officeStep`, `opened`: The program.
* `printout`, `linesOf`: The lines of one job, and of one printer.
* `Prints`, `Books`: The invariants.
* `Office.rank`: The steps still to come.
* `Quiet`, `Drained`: Nobody can go on, and all that was sent is printed.

## Theorems

* `prints_step`: The lines of a printer are whole printouts, and a part of one.
* `books_step`: Where the jobs are that were sent.
* `prints_of_reaches`: Both, for what can be reached.
* `rank_step`: How a step brings the end nearer.
* `drained_of_quiet`: With nobody able to go on, everything is printed.
* `completes_of_sent`: How long that takes.
-/

namespace OsLabs

namespace Print

open Machine

/-- A line on standard output. -/
inductive Line (U P : Nat) where
  | sends (u : Fin U) (job : Bytes)
  | starts (p : Fin P) (job : Bytes)
  | letter (p : Fin P) (c : UInt8)
  | finished (p : Fin P)
  deriving DecidableEq

/-- Where a printer is: in `dequeue_job`, before the first line, before the
    letter with this index, or, with all letters printed, before the last
    line. -/
inductive Printing where
  | dequeuing
  | starts
  | letters (i : Nat)
  deriving DecidableEq

/-- The queue with its processes, the local `job` of each printer and where it
    is in its printout, standard output, and the jobs that each printer has
    printed. -/
structure Office (U P : Nat) where
  queue : State U P
  job : Fin P → Bytes
  place : Fin P → Printing
  stdout : List (Line U P)
  printed : Fin P → List Bytes

/-- A step in the queue, or a printer's next line. -/
inductive Action (U P : Nat) where
  | queue (e : Event U P)
  | print (p : Fin P)

def Action.isSubmit {U P : Nat} : Action U P → Bool
  | .queue (.submit _ _) => true
  | _ => false

variable {U P : Nat}

/-- What `main` sets up when nothing was there before. -/
def opened (U P : Nat) : Office U P where
  queue := fresh U P
  job := fun _ => []
  place := fun _ => .dequeuing
  stdout := []
  printed := fun _ => []

namespace Office

/-- The printer's step in `dequeue_job`, which copies the job and after its
    last operation returns. -/
def dequeue (s : Office U P) (p : Fin P) (queue : State U P) : Office U P :=
  { s with
    queue := queue
    job := if s.queue.printer p = .copy then
      Function.update s.job p (s.queue.jobs s.queue.head) else s.job
    place := if s.queue.printer p = .postEmpty then
      Function.update s.place p .starts else s.place }

/-- `printf("Printer %d: starts printing \"%s\"\n", id, job)` -/
def printStarts (s : Office U P) (p : Fin P) : Office U P :=
  { s with
    stdout := s.stdout ++ [.starts p (s.job p)]
    place := Function.update s.place p (.letters 0) }

/-- `printf("Printer %d: %c\n", id, job[i])` -/
def printLetter (s : Office U P) (p : Fin P) (i : Nat) : Office U P :=
  { s with
    stdout := s.stdout ++ [.letter p ((s.job p).getD i 0)]
    place := Function.update s.place p (.letters (i + 1)) }

/-- `printf("Printer %d: finished printing\n", id)` -/
def printFinished (s : Office U P) (p : Fin P) : Office U P :=
  { s with
    stdout := s.stdout ++ [.finished p]
    place := Function.update s.place p .dequeuing
    printed := Function.update s.printed p (s.printed p ++ [s.job p]) }

/-- The next line of a printer. -/
def print (s : Office U P) (p : Fin P) : Option (Office U P) :=
  match s.place p with
  | .dequeuing => none
  | .starts => some (s.printStarts p)
  | .letters i => if i < jobLength then some (s.printLetter p i) else some (s.printFinished p)

end Office

/-- A user prints what it sends and calls `enqueue_job`, or a process takes its
    next step. -/
def officeStep (s : Office U P) : Action U P → Option (Office U P)
  | .queue (.submit u job) => (step s.queue (.submit u job)).map fun queue =>
      { s with queue := queue, stdout := s.stdout ++ [.sends u job.bytes] }
  | .queue (.user u) => (step s.queue (.user u)).map fun queue => { s with queue := queue }
  | .queue (.printer p) =>
      if s.place p = .dequeuing then (step s.queue (.printer p)).map (s.dequeue p) else none
  | .print p => s.print p

/-- The job of the line, if it is one that a user prints. -/
def Line.sent? : Line U P → Option Bytes
  | .sends _ job => some job
  | _ => none

/-- The printer whose line it is. -/
def Line.printer? : Line U P → Option (Fin P)
  | .sends _ _ => none
  | .starts p _ | .letter p _ | .finished p => some p

/-- The lines of a printout of the job, up to its letter `i`. -/
def printoutTo (p : Fin P) (job : Bytes) (i : Nat) : List (Line U P) :=
  .starts p job :: (job.take i).map (.letter p)

/-- The lines of a whole printout. -/
def printout (p : Fin P) (job : Bytes) : List (Line U P) :=
  printoutTo p job job.length ++ [.finished p]

/-- The lines of a printer. -/
def linesOf (p : Fin P) (lines : List (Line U P)) : List (Line U P) :=
  lines.filter (·.printer? = some p)

/-- The lines of the printout that a printer is at. -/
def Printing.lines (p : Fin P) (job : Bytes) : Printing → List (Line U P)
  | .dequeuing | .starts => []
  | .letters i => printoutTo p job i

/-- What a user has sent and not copied into the ring. -/
def UserPc.pending : UserPc → List Bytes
  | .waitEmpty job | .waitMutex job | .copy job => [job.bytes]
  | _ => []

namespace Office

/-- The jobs that were sent, in the order in which this was printed. -/
def sent (s : Office U P) : List Bytes := s.stdout.filterMap Line.sent?

/-- The job that a printer has copied out of the ring and not printed. -/
def holding (s : Office U P) (p : Fin P) : List Bytes :=
  if (s.queue.printer p).owesEmpty = true ∨ s.place p ≠ .dequeuing then [s.job p] else []

end Office

/-- The lines of a printer, whose job has ten letters while it has one. -/
structure Prints (s : Office U P) : Prop where
  lines : ∀ p, linesOf p s.stdout =
    (s.printed p).flatMap (printout p) ++ (s.place p).lines p (s.job p)
  letters : ∀ p i, s.place p = .letters i → i ≤ jobLength
  holding : ∀ p, ∀ job ∈ s.holding p, job.length = jobLength
  enqueued : ∀ job ∈ s.queue.enqueued, job.length = jobLength
  /-- A printer with a printout in hand is not in `dequeue_job`. -/
  waiting : ∀ p, s.place p ≠ .dequeuing → s.queue.printer p = .waitFull

/-- Where the jobs are that were sent: not yet in the ring, or copied into it;
    and where those are that were copied out of it: in the hands of a printer,
    or printed. -/
structure Books (s : Office U P) : Prop where
  sent : ∀ b, s.sent.count b =
    s.queue.enqueued.count b + ∑ u, (s.queue.user u).pending.count b
  taken : ∀ b, s.queue.dequeued.count b =
    (∑ p, (s.holding p).count b) + ∑ p, (s.printed p).count b

section Queue

variable {q q' : State U P} {u : Fin U} {p : Fin P}

/-- What a user does to the ring is to move its job there. -/
theorem user_moves (hturn : UserTurn q u q') : q'.printer = q.printer ∧
    q'.dequeued = q.dequeued ∧ ∃ moved : List Bytes, q'.enqueued = q.enqueued ++ moved ∧
      (∀ job ∈ moved, job.length = jobLength) ∧
      ∀ b, (∑ v, (q'.user v).pending.count b) + moved.count b =
        ∑ v, (q.user v).pending.count b := by
  -- The sum over the users changes in the one that moves only.
  have hpending : ∀ pc : UserPc, q'.user = Function.update q.user u pc → ∀ b : Bytes,
      (∑ v, (q'.user v).pending.count b) + (q.user u).pending.count b =
        (∑ v, (q.user v).pending.count b) + pc.pending.count b := by
    intro pc huser b
    rw [huser]
    exact sum_move (fun pc : UserPc => pc.pending.count b) q.user u pc
  -- Only one of its steps copies; the job is pending until then.
  have hstay : ∀ pc : UserPc, q'.user = Function.update q.user u pc →
      pc.pending = (q.user u).pending → q'.enqueued = q.enqueued → ∃ moved : List Bytes,
      q'.enqueued = q.enqueued ++ moved ∧ (∀ job ∈ moved, job.length = jobLength) ∧
      ∀ b, (∑ v, (q'.user v).pending.count b) + moved.count b =
        ∑ v, (q.user v).pending.count b := by
    intro pc huser hsame henq
    refine ⟨[], by rw [henq, List.append_nil], fun job hjob => absurd hjob List.not_mem_nil, ?_⟩
    intro b
    have hmove := hpending pc huser b
    rw [hsame] at hmove
    rw [List.count_nil]
    omega
  cases hturn with
  | waitEmpty job v hpc _ heq =>
      subst heq
      exact ⟨rfl, rfl, hstay (.waitMutex job) rfl (by rw [hpc]; rfl) rfl⟩
  | waitMutex job v hpc _ heq =>
      subst heq
      exact ⟨rfl, rfl, hstay (.copy job) rfl (by rw [hpc]; rfl) rfl⟩
  | copy job hpc heq =>
      -- Here the job goes from the user into the ring.
      refine ⟨by rw [heq]; rfl, by rw [heq]; rfl, [job.bytes], by rw [heq]; rfl, ?_, fun b => ?_⟩
      · intro job' hjob
        rw [List.mem_singleton.mp hjob]
        exact job.length_bytes
      · have hmove := hpending .advance (by rw [heq]; rfl) b
        have hbefore : (q.user u).pending = [job.bytes] := by
          rw [hpc]
          rfl
        have hafter : UserPc.advance.pending = [] := rfl
        rw [hbefore, hafter, List.count_nil] at hmove
        omega
  | advance hpc heq =>
      subst heq
      exact ⟨rfl, rfl, hstay .postMutex rfl (by rw [hpc]; rfl) rfl⟩
  | postMutex hpc heq =>
      subst heq
      exact ⟨rfl, rfl, hstay .postFull rfl (by rw [hpc]; rfl) rfl⟩
  | postFull hpc heq =>
      subst heq
      exact ⟨rfl, rfl, hstay .idle rfl (by rw [hpc]; rfl) rfl⟩

theorem submit_moves {job : Job} (hstep : step q (.submit u job) = some q') :
    q'.printer = q.printer ∧ q'.dequeued = q.dequeued ∧ q'.enqueued = q.enqueued ∧
      ∀ b, (∑ v, (q'.user v).pending.count b) =
        (∑ v, (q.user v).pending.count b) + [job.bytes].count b := by
  rcases submit_cases hstep with ⟨hpc, heq⟩
  subst heq
  refine ⟨rfl, rfl, rfl, fun b => ?_⟩
  have hmove := sum_move (fun pc : UserPc => pc.pending.count b) q.user u (.waitEmpty job)
  have hbefore : (q.user u).pending = [] := by
    rw [hpc]
    rfl
  rw [hbefore, List.count_nil] at hmove
  exact hmove

end Queue

section Holding

variable {s : Office U P} {q : State U P} {p : Fin P}

theorem holding_of_ne {s' : Office U P} {k : Fin P}
    (hprinter : s'.queue.printer k = s.queue.printer k) (hplace : s'.place k = s.place k)
    (hjob : s'.job k = s.job k) : s'.holding k = s.holding k := by
  unfold Office.holding
  rw [hprinter, hplace, hjob]

theorem dequeue_of_ne (hturn : PrinterTurn s.queue p q) {k : Fin P} (hk : k ≠ p) :
    (s.dequeue p q).holding k = s.holding k ∧ (s.dequeue p q).place k = s.place k ∧
      (s.dequeue p q).job k = s.job k ∧ q.printer k = s.queue.printer k := by
  have hprinter : q.printer k = s.queue.printer k := by
    cases hturn with
    | waitFull v _ _ heq | waitMutex v _ _ heq => rw [heq]; exact Function.update_of_ne hk ..
    | copy _ heq | advance _ heq | postMutex _ heq | postEmpty _ heq =>
        rw [heq]
        exact Function.update_of_ne hk ..
  have hplace : (s.dequeue p q).place k = s.place k := by
    -- The place changes only where this printer leaves `dequeue_job`.
    unfold Office.dequeue
    dsimp only
    split
    · exact Function.update_of_ne hk ..
    · rfl
  have hjob : (s.dequeue p q).job k = s.job k := by
    -- And its job only where it copies one.
    unfold Office.dequeue
    dsimp only
    split
    · exact Function.update_of_ne hk ..
    · rfl
  exact ⟨holding_of_ne hprinter hplace hjob, hplace, hjob, hprinter⟩

theorem dequeue_quiet (hcopy : s.queue.printer p ≠ .copy) (hpost : s.queue.printer p ≠ .postEmpty) :
    s.dequeue p q = { s with queue := q } := by
  unfold Office.dequeue
  rw [if_neg hcopy, if_neg hpost]

/-- Between its copy and its last operation a printer keeps what it has. -/
theorem holding_quiet (pc : PrinterPc) (hcopy : s.queue.printer p ≠ .copy)
    (hpost : s.queue.printer p ≠ .postEmpty) (hpc : q.printer p = pc)
    (howes : pc.owesEmpty = (s.queue.printer p).owesEmpty) :
    (s.dequeue p q).holding p = s.holding p := by
  rw [dequeue_quiet hcopy hpost]
  unfold Office.holding
  dsimp only
  rw [hpc, howes]

/-- A printer has its job from the moment at which it copies it. -/
theorem dequeue_holding (hturn : PrinterTurn s.queue p q) (hplace : s.place p = .dequeuing) :
    (s.queue.printer p = .copy ∧ s.holding p = [] ∧
        (s.dequeue p q).holding p = [s.queue.jobs s.queue.head] ∧
        q.dequeued = s.queue.dequeued ++ [s.queue.jobs s.queue.head]) ∨
      ((s.dequeue p q).holding p = s.holding p ∧ q.dequeued = s.queue.dequeued) := by
  -- Between its copy and its last line it holds a job, and before the copy it holds none.
  have hempty : (s.queue.printer p).owesEmpty = false → s.holding p = [] := by
    intro howes
    refine if_neg ?_
    rw [howes, hplace]
    simp only [Bool.false_eq_true, ne_eq, not_true_eq_false, or_self, not_false_eq_true]
  cases hturn with
  | waitFull v hpc _ heq =>
      refine .inr ⟨?_, by rw [heq]; rfl⟩
      refine holding_quiet .waitMutex (by rw [hpc]; nofun) (by rw [hpc]; nofun) ?_
        (by rw [hpc]; rfl)
      rw [heq]
      exact Function.update_self ..
  | waitMutex v hpc _ heq =>
      refine .inr ⟨?_, by rw [heq]; rfl⟩
      refine holding_quiet .copy (by rw [hpc]; nofun) (by rw [hpc]; nofun) ?_
        (by rw [hpc]; rfl)
      rw [heq]
      exact Function.update_self ..
  | copy hpc heq =>
      -- The job at the head of the ring is copied, and held from here on.
      refine .inl ⟨hpc, hempty (by rw [hpc]; rfl), ?_, by rw [heq]; rfl⟩
      have hself : (s.dequeue p q).queue.printer p = .advance := by
        change q.printer p = _
        rw [heq]
        exact Function.update_self ..
      have hjob : (s.dequeue p q).job p = s.queue.jobs s.queue.head := by
        unfold Office.dequeue
        dsimp only
        rw [if_pos hpc]
        exact Function.update_self ..
      unfold Office.holding
      rw [hself, hjob]
      rfl
  | advance hpc heq =>
      refine .inr ⟨?_, by rw [heq]; rfl⟩
      refine holding_quiet .postMutex (by rw [hpc]; nofun) (by rw [hpc]; nofun) ?_
        (by rw [hpc]; rfl)
      rw [heq]
      exact Function.update_self ..
  | postMutex hpc heq =>
      refine .inr ⟨?_, by rw [heq]; rfl⟩
      refine holding_quiet .postEmpty (by rw [hpc]; nofun) (by rw [hpc]; nofun) ?_
        (by rw [hpc]; rfl)
      rw [heq]
      exact Function.update_self ..
  | postEmpty hpc heq =>
      -- Leaving `dequeue_job` it is at its first line.
      refine .inr ⟨?_, by rw [heq]; rfl⟩
      have hplace' : (s.dequeue p q).place p = .starts := by
        unfold Office.dequeue
        dsimp only
        rw [if_pos hpc]
        exact Function.update_self ..
      have hjob : (s.dequeue p q).job p = s.job p := by
        unfold Office.dequeue
        dsimp only
        rw [if_neg (by rw [hpc]; nofun)]
      have hafter : (s.dequeue p q).holding p = [(s.dequeue p q).job p] :=
        if_pos (.inr (by rw [hplace']; nofun))
      -- It held the job behind its copy already, and holds it still.
      have hbefore : s.holding p = [s.job p] := if_pos (.inl (by rw [hpc]; rfl))
      rw [hafter, hjob, hbefore]

end Holding

section Lines

variable {s s' : Office U P} {p : Fin P}

theorem linesOf_concat {l : Line U P} (out : List (Line U P)) (hl : l.printer? = some p) :
    linesOf p (out ++ [l]) = linesOf p out ++ [l] := by
  simp only [linesOf, List.filter_append, List.filter_cons, hl, decide_true, if_true,
    List.filter_nil]

theorem linesOf_concat_of_ne {l : Line U P} (out : List (Line U P)) (hl : l.printer? ≠ some p) :
    linesOf p (out ++ [l]) = linesOf p out := by
  simp only [linesOf, List.filter_append, List.filter_cons, hl, decide_false, Bool.false_eq_true,
    if_false, List.filter_nil, List.append_nil]

/-- One more letter. -/
theorem printoutTo_succ (p : Fin P) {job : Bytes} {i : Nat} (hi : i < job.length) :
    (printoutTo p job (i + 1) : List (Line U P)) =
      printoutTo p job i ++ [.letter p (job.getD i 0)] := by
  have hget : job.getD i 0 = job[i] := by
    rw [List.getD_eq_getElem?_getD, List.getElem?_eq_getElem hi, Option.getD_some]
  rw [printoutTo, ← List.take_append_getElem hi, List.map_append, hget]
  rfl

/-- What users do does not change what printers are about. -/
theorem Prints.frame (h : Prints s) (hlines : ∀ p, linesOf p s'.stdout = linesOf p s.stdout)
    (hprinted : s'.printed = s.printed) (hplace : s'.place = s.place) (hjob : s'.job = s.job)
    (hprinter : s'.queue.printer = s.queue.printer)
    (henq : ∀ job ∈ s'.queue.enqueued, job.length = jobLength) : Prints s' where
  lines p := by
    rw [hlines, hprinted, hplace, hjob]
    exact h.lines p
  letters p i hi := by
    rw [hplace] at hi
    exact h.letters p i hi
  holding p := by
    have hsame : s'.holding p = s.holding p :=
      holding_of_ne (congrFun hprinter p) (congrFun hplace p) (congrFun hjob p)
    rw [hsame]
    exact h.holding p
  enqueued := henq
  waiting p hp := by
    rw [hprinter]
    rw [hplace] at hp
    exact h.waiting p hp

/-- A printer in `dequeue_job` prints nothing, and gets a whole job there. -/
theorem prints_dequeue {q : State U P} (hcounts : Counts s.queue) (hring : Ring s.queue)
    (h : Prints s) (hplace : s.place p = .dequeuing) (hturn : PrinterTurn s.queue p q) :
    Prints (s.dequeue p q) := by
  -- It either stays in `dequeue_job`, or comes to its first line.
  have hplace' : (s.dequeue p q).place p = .dequeuing ∨
      (s.dequeue p q).place p = .starts ∧ q.printer p = .waitFull := by
    unfold Office.dequeue
    dsimp only
    by_cases hpost : s.queue.printer p = .postEmpty
    · rw [if_pos hpost]
      refine .inr ⟨Function.update_self .., ?_⟩
      cases hturn with
      | postEmpty _ heq =>
          rw [heq]
          exact Function.update_self ..
      | waitFull _ hpc _ _ | waitMutex _ hpc _ _ | copy hpc _ | advance hpc _ | postMutex hpc _ =>
          rw [hpc] at hpost
          cases hpost
    · rw [if_neg hpost]
      exact .inl hplace
  refine ⟨fun k => ?_, fun k i hi => ?_, fun k => ?_, ?_, fun k hk => ?_⟩
  -- Neither place has printed anything of the next job.
  · by_cases hkp : k = p
    · rw [hkp]
      have hlines := h.lines p
      rw [hplace] at hlines
      rcases hplace' with hnew | ⟨hnew, _⟩
      · rw [hnew]
        exact hlines
      · rw [hnew]
        exact hlines
    · rcases dequeue_of_ne hturn hkp with ⟨_, hsame, hjob, _⟩
      rw [hsame, hjob]
      exact h.lines k
  · by_cases hkp : k = p
    · rw [hkp] at hi
      rcases hplace' with hnew | ⟨hnew, _⟩ <;> rw [hnew] at hi <;> cases hi
    · rw [(dequeue_of_ne hturn hkp).2.1] at hi
      exact h.letters k i hi
  · by_cases hkp : k = p
    · rw [hkp]
      -- A job that is copied was put into the ring by a user, so it has its length.
      rcases dequeue_holding hturn hplace with ⟨hcopy, _, hnew, _⟩ | ⟨hsame, _⟩
      · rw [hnew]
        intro job hjob
        rw [List.mem_singleton.mp hjob]
        exact h.enqueued _ (List.mem_of_getElem? (job_of_copy hcounts hring hcopy))
      · rw [hsame]
        exact h.holding p
    · rw [(dequeue_of_ne hturn hkp).1]
      exact h.holding k
  -- Printers put nothing in.
  · have henq : q.enqueued = s.queue.enqueued := by
      cases hturn with
      | waitFull _ _ _ heq | waitMutex _ _ _ heq => rw [heq]; rfl
      | copy _ heq | advance _ heq | postMutex _ heq | postEmpty _ heq => rw [heq]; rfl
    change ∀ job ∈ q.enqueued, _
    rw [henq]
    exact h.enqueued
  -- What prints is outside `dequeue_job`, and waits for the next job there.
  · by_cases hkp : k = p
    · rw [hkp] at hk ⊢
      rcases hplace' with hnew | ⟨_, hpc⟩
      · exact absurd hnew hk
      · exact hpc
    · rcases dequeue_of_ne hturn hkp with ⟨_, hsame, _, hprinter⟩
      rw [hsame] at hk
      exact hprinter.trans (h.waiting k hk)

/-- One line of a printer. -/
theorem prints_line (l : Line U P) (place : Printing) (printed : List Bytes) (h : Prints s)
    (hl : l.printer? = some p) (hplace : s.place p ≠ .dequeuing)
    (hstdout : s'.stdout = s.stdout ++ [l])
    (hplaces : s'.place = Function.update s.place p place)
    (hprinted : s'.printed = Function.update s.printed p printed)
    (hqueue : s'.queue = s.queue) (hjob : s'.job = s.job)
    (hletters : ∀ i, place = .letters i → i ≤ jobLength)
    (hlines : (s.printed p).flatMap (printout p) ++ (s.place p).lines p (s.job p) ++ [l] =
      printed.flatMap (printout p) ++ place.lines p (s.job p)) : Prints s' := by
  have hwaiting := h.waiting p hplace
  refine ⟨fun k => ?_, fun k i hi => ?_, fun k => ?_, by rw [hqueue]; exact h.enqueued,
    fun k hk => ?_⟩
  · rw [hstdout, hplaces, hprinted, hjob]
    -- The line is one more of this printer, and of no other.
    by_cases hkp : k = p
    · rw [hkp, Function.update_self, Function.update_self, linesOf_concat _ hl, h.lines p]
      exact hlines
    · rw [Function.update_of_ne hkp, Function.update_of_ne hkp, linesOf_concat_of_ne, h.lines k]
      rw [hl]
      exact fun heq => hkp (Option.some.inj heq).symm
  · rw [hplaces] at hi
    -- A letter is printed only while there is one.
    by_cases hkp : k = p
    · rw [hkp, Function.update_self] at hi
      exact hletters i hi
    · rw [Function.update_of_ne hkp] at hi
      exact h.letters k i hi
  · -- Printing takes the job from the printer at most.
    intro job hmem
    by_cases hkp : k = p
    · refine h.holding k job ?_
      rw [hkp] at hmem ⊢
      have hbefore : s.holding p = [s.job p] := if_pos (.inr hplace)
      rw [hbefore]
      unfold Office.holding at hmem
      split at hmem
      · rwa [hjob] at hmem
      · cases hmem
    · rw [holding_of_ne (s := s) (by rw [hqueue]) (by rw [hplaces, Function.update_of_ne hkp])
        (by rw [hjob])] at hmem
      exact h.holding k job hmem
  -- The queue has not moved, and this printer was outside of it already.
  · rw [hqueue]
    by_cases hkp : k = p
    · rw [hkp]
      exact hwaiting
    · rw [hplaces, Function.update_of_ne hkp] at hk
      exact h.waiting k hk

theorem prints_print (h : Prints s) (hstep : s.print p = some s') : Prints s' := by
  unfold Office.print at hstep
  cases hplace : s.place p with
  | dequeuing =>
      rw [hplace] at hstep
      cases hstep
  | starts =>
      rw [hplace, Option.some.injEq] at hstep
      subst hstep
      -- The first line of the printout, before any letter.
      refine prints_line (.starts p (s.job p)) (.letters 0) (s.printed p) h rfl
        (by rw [hplace]; nofun) rfl rfl (Function.update_eq_self ..).symm rfl rfl ?_ ?_
      · intro i hi
        cases hi
        exact Nat.zero_le _
      · rw [hplace, Printing.lines, List.append_nil]
        rfl
  | letters i =>
      -- The job has as many letters as it should, and fewer than that are printed.
      have hi := h.letters p i hplace
      have hlength : (s.job p).length = jobLength :=
        h.holding p _ (by
          have hhold : s.holding p = [s.job p] := if_pos (.inr (by rw [hplace]; nofun))
          rw [hhold]
          exact List.mem_singleton_self _)
      rw [hplace] at hstep
      dsimp only at hstep
      by_cases hmore : i < jobLength
      · rw [if_pos hmore, Option.some.injEq] at hstep
        subst hstep
        refine prints_line (.letter p ((s.job p).getD i 0)) (.letters (i + 1)) (s.printed p) h rfl
          (by rw [hplace]; nofun) rfl rfl (Function.update_eq_self ..).symm rfl rfl ?_ ?_
        · intro k hk
          cases hk
          exact hmore
        · rw [hplace, Printing.lines, Printing.lines, List.append_assoc,
            printoutTo_succ p (by rw [hlength]; exact hmore)]
      · -- All letters are there, so the printout is whole.
        rw [if_neg hmore, Option.some.injEq] at hstep
        subst hstep
        have hall : i = (s.job p).length := by omega
        refine prints_line (.finished p) .dequeuing (s.printed p ++ [s.job p]) h rfl
          (by rw [hplace]; nofun) rfl rfl rfl rfl rfl (fun k hk => nomatch hk) ?_
        rw [hplace, Printing.lines, Printing.lines, List.append_nil, List.flatMap_append,
          List.flatMap_singleton, printout, ← hall, List.append_assoc]

/-- The lines of the printers, after a step of anybody. -/
theorem prints_step {a : Action U P} (hcounts : Counts s.queue) (hring : Ring s.queue)
    (h : Prints s) (hstep : officeStep s a = some s') : Prints s' := by
  cases a with
  | queue e =>
      cases e with
      | submit u job =>
          rcases Option.map_eq_some_iff.mp hstep with ⟨q, hq, heq⟩
          rcases submit_moves hq with ⟨hprinter, _, henq, _⟩
          -- A user that sends prints a line of its own, which is none of the printers'.
          rw [← heq]
          refine h.frame (fun p => linesOf_concat_of_ne _ nofun) rfl rfl rfl hprinter ?_
          change ∀ job ∈ q.enqueued, _
          rw [henq]
          exact h.enqueued
      | user u =>
          rcases Option.map_eq_some_iff.mp hstep with ⟨q, hq, heq⟩
          rcases user_moves (userStep_cases hq) with ⟨hprinter, _, moved, henq, hmoved, _⟩
          rw [← heq]
          -- What it moves into the ring has the length of a job.
          refine h.frame (fun _ => rfl) rfl rfl rfl hprinter ?_
          change ∀ job ∈ q.enqueued, _
          rw [henq]
          exact fun job hjob => (List.mem_append.mp hjob).elim (h.enqueued job) (hmoved job)
      | printer p =>
          rcases Option.ite_none_right_eq_some.mp hstep with ⟨hplace, hrest⟩
          rcases Option.map_eq_some_iff.mp hrest with ⟨q, hq, heq⟩
          rw [← heq]
          -- In `dequeue_job` nothing is printed.
          exact prints_dequeue hcounts hring h hplace (printerStep_cases hq)
  | print p => exact prints_print h hstep

/-- In the queue nothing happens but steps of the queue. -/
theorem queue_step {a : Action U P} (hstep : officeStep s a = some s') :
    s'.queue = s.queue ∨ ∃ e, step s.queue e = some s'.queue := by
  cases a with
  | queue e =>
      refine .inr ⟨e, ?_⟩
      cases e with
      | submit u job =>
          rcases Option.map_eq_some_iff.mp hstep with ⟨q, hq, heq⟩
          rw [← heq]
          exact hq
      | user u =>
          rcases Option.map_eq_some_iff.mp hstep with ⟨q, hq, heq⟩
          rw [← heq]
          exact hq
      | printer p =>
          rcases Option.ite_none_right_eq_some.mp hstep with ⟨_, hrest⟩
          rcases Option.map_eq_some_iff.mp hrest with ⟨q, hq, heq⟩
          rw [← heq]
          exact hq
  | print p =>
      -- Printing leaves the queue alone.
      left
      change s.print p = some s' at hstep
      unfold Office.print at hstep
      cases hplace : s.place p with
      | dequeuing =>
          rw [hplace] at hstep
          cases hstep
      | starts =>
          rw [hplace, Option.some.injEq] at hstep
          rw [← hstep]
          rfl
      | letters i =>
          rw [hplace] at hstep
          dsimp only at hstep
          split at hstep
          · rw [← Option.some.inj hstep]
            rfl
          · rw [← Option.some.inj hstep]
            rfl

end Lines

section Bookkeeping

variable {s s' : Office U P} {p : Fin P}

/-- Printing a line changes what is in a printer's hands after the last one
    only. -/
theorem books_line {l : Line U P} {place : Printing} (h : Books s) (hl : l.sent? = none)
    (hplace : s.place p ≠ .dequeuing) (hnext : place ≠ .dequeuing)
    (hstdout : s'.stdout = s.stdout ++ [l]) (hplaces : s'.place = Function.update s.place p place)
    (hprinted : s'.printed = s.printed) (hqueue : s'.queue = s.queue) (hjob : s'.job = s.job) :
    Books s' := by
  -- The line tells of no job that is sent.
  have hsent : s'.sent = s.sent := by
    rw [Office.sent, hstdout, List.filterMap_append, List.filterMap_cons_none hl,
      List.filterMap_nil, List.append_nil, Office.sent]
  have hholding : ∀ k, s'.holding k = s.holding k := by
    intro k
    by_cases hkp : k = p
    -- It prints before and after, so it has its job before and after.
    · have hafter : s'.place p ≠ .dequeuing := by
        rw [hplaces, Function.update_self]
        exact hnext
      rw [hkp, Office.holding, if_pos (.inr hafter), hjob, Office.holding, if_pos (.inr hplace)]
    · exact holding_of_ne (by rw [hqueue]) (by rw [hplaces, Function.update_of_ne hkp])
        (by rw [hjob])
  refine ⟨fun b => ?_, fun b => ?_⟩
  · rw [hsent, hqueue]
    exact h.sent b
  · simp only [hholding, hprinted, hqueue]
    exact h.taken b

/-- With the last line the job goes to those that are printed. -/
theorem books_printFinished (h : Books s) (hplace : s.place p ≠ .dequeuing)
    (hpc : s.queue.printer p = .waitFull) : Books (s.printFinished p) := by
  refine ⟨fun b => ?_, fun b => ?_⟩
  · have hsent : (s.printFinished p).sent = s.sent := by
      rw [Office.sent, Office.printFinished, List.filterMap_append, List.filterMap_cons_none rfl,
        List.filterMap_nil, List.append_nil, Office.sent]
    rw [hsent]
    exact h.sent b
  -- It gives away the job that it had.
  · have hbefore : s.holding p = [s.job p] := if_pos (.inr hplace)
    have hafter : (s.printFinished p).holding p = [] := by
      refine if_neg ?_
      have hself : (s.printFinished p).place p = .dequeuing := Function.update_self ..
      have howes : ((s.printFinished p).queue.printer p).owesEmpty = false :=
        congrArg PrinterPc.owesEmpty hpc
      rw [hself, howes]
      simp only [Bool.false_eq_true, ne_eq, not_true_eq_false, or_self, not_false_eq_true]
    -- The hands of the others are as full as before.
    have hholding := sum_of_ne (f := fun k => (s.holding k).count b)
      (g := fun k => ((s.printFinished p).holding k).count b) (i := p) fun k hk =>
        congrArg (List.count b) (holding_of_ne rfl (Function.update_of_ne hk ..) rfl)
    -- Among the printed jobs it is one more of this printer.
    have hprinted := sum_move (List.count b) s.printed p (s.printed p ++ [s.job p])
    have hlast : (s.printed p ++ [s.job p]).count b = (s.printed p).count b + [s.job p].count b :=
      List.count_append
    have htaken := h.taken b
    change s.queue.dequeued.count b = (∑ k, ((s.printFinished p).holding k).count b) +
      ∑ k, (Function.update s.printed p (s.printed p ++ [s.job p]) k).count b
    rw [hbefore, hafter, List.count_nil] at hholding
    omega

theorem books_print (hprints : Prints s) (h : Books s) (hstep : s.print p = some s') :
    Books s' := by
  unfold Office.print at hstep
  cases hplace : s.place p with
  | dequeuing =>
      rw [hplace] at hstep
      cases hstep
  | starts =>
      rw [hplace, Option.some.injEq] at hstep
      subst hstep
      exact books_line (l := .starts p (s.job p)) h rfl (by rw [hplace]; nofun)
        (show Printing.letters 0 ≠ .dequeuing from nofun) rfl rfl rfl rfl rfl
  | letters i =>
      rw [hplace] at hstep
      dsimp only at hstep
      by_cases hmore : i < jobLength
      · rw [if_pos hmore, Option.some.injEq] at hstep
        subst hstep
        exact books_line (l := .letter p ((s.job p).getD i 0)) h rfl (by rw [hplace]; nofun)
          (show Printing.letters (i + 1) ≠ .dequeuing from nofun) rfl rfl rfl rfl rfl
      · rw [if_neg hmore, Option.some.injEq] at hstep
        subst hstep
        exact books_printFinished h (by rw [hplace]; nofun)
          (hprints.waiting p (by rw [hplace]; nofun))

/-- A job that is copied out of the ring goes to the printer that copies it. -/
theorem books_dequeue {q : State U P} (h : Books s) (hplace : s.place p = .dequeuing)
    (hturn : PrinterTurn s.queue p q) : Books (s.dequeue p q) := by
  -- Neither what was put in nor what is pending changes.
  have hsame : q.enqueued = s.queue.enqueued ∧ q.user = s.queue.user := by
    cases hturn with
    | waitFull _ _ _ heq | waitMutex _ _ _ heq => rw [heq]; exact ⟨rfl, rfl⟩
    | copy _ heq | advance _ heq | postMutex _ heq | postEmpty _ heq => rw [heq]; exact ⟨rfl, rfl⟩
  refine ⟨fun b => ?_, fun b => ?_⟩
  · change s.sent.count b = q.enqueued.count b + ∑ u, (q.user u).pending.count b
    rw [hsame.1, hsame.2]
    exact h.sent b
  · have hholding := sum_of_ne (f := fun k => (s.holding k).count b)
      (g := fun k => ((s.dequeue p q).holding k).count b) (i := p) fun k hk =>
        congrArg (List.count b) (dequeue_of_ne hturn hk).1
    have htaken := h.taken b
    change q.dequeued.count b = (∑ k, ((s.dequeue p q).holding k).count b) +
      ∑ k, (s.printed k).count b
    -- What leaves the ring comes into the hands of the printer, or nothing leaves it.
    rcases dequeue_holding hturn hplace with ⟨_, hbefore, hafter, hdeq⟩ | ⟨hkeep, hdeq⟩
    · rw [hbefore, hafter, List.count_nil] at hholding
      rw [hdeq, List.count_append]
      omega
    · rw [hkeep] at hholding
      rw [hdeq]
      omega

/-- The jobs that were sent are where the sums say, after a step of anybody. -/
theorem books_step {a : Action U P} (hprints : Prints s) (h : Books s)
    (hstep : officeStep s a = some s') : Books s' := by
  cases a with
  | queue e =>
      cases e with
      | submit u job =>
          rcases Option.map_eq_some_iff.mp hstep with ⟨q, hq, heq⟩
          rcases submit_moves hq with ⟨hprinter, hdeq, henq, hpending⟩
          subst heq
          refine ⟨fun b => ?_, fun b => ?_⟩
          -- The job is sent, and pending with its user.
          · have hsent : Office.sent
                { s with queue := q, stdout := s.stdout ++ [.sends u job.bytes] } =
                  s.sent ++ [job.bytes] :=
              List.filterMap_append ..
            have hold := h.sent b
            have hnew := hpending b
            rw [hsent, List.count_append]
            dsimp only
            rw [henq]
            omega
          · have hholding : ∀ k, Office.holding
                { s with queue := q, stdout := s.stdout ++ [.sends u job.bytes] } k = s.holding k :=
              fun k => holding_of_ne (congrFun hprinter k) rfl rfl
            simp only [hholding, hdeq]
            exact h.taken b
      | user u =>
          rcases Option.map_eq_some_iff.mp hstep with ⟨q, hq, heq⟩
          rcases user_moves (userStep_cases hq) with ⟨hprinter, hdeq, moved, henq, _, hpending⟩
          subst heq
          refine ⟨fun b => ?_, fun b => ?_⟩
          -- What was pending is in the ring now, or nothing has moved.
          · have hold := h.sent b
            have hnew := hpending b
            change s.sent.count b = q.enqueued.count b + _
            rw [henq, List.count_append]
            dsimp only
            omega
          · have hholding : ∀ k, Office.holding { s with queue := q } k = s.holding k :=
              fun k => holding_of_ne (congrFun hprinter k) rfl rfl
            simp only [hholding, hdeq]
            exact h.taken b
      | printer p =>
          rcases Option.ite_none_right_eq_some.mp hstep with ⟨hplace, hrest⟩
          rcases Option.map_eq_some_iff.mp hrest with ⟨q, hq, heq⟩
          rw [← heq]
          -- The users' side is as before, and the printer takes what leaves the ring.
          exact books_dequeue h hplace (printerStep_cases hq)
  | print p => exact books_print hprints h hstep

end Bookkeeping

section Runs

variable {s s' : Office U P}

/-- The invariants of the queue and of what is printed. -/
structure Inv (s : Office U P) : Prop where
  counts : Counts s.queue
  ring : Ring s.queue
  prints : Prints s
  books : Books s

theorem inv_step {a : Action U P} (h : Inv s) (hstep : officeStep s a = some s') : Inv s' := by
  have hqueue : Counts s'.queue ∧ Ring s'.queue := by
    rcases queue_step hstep with hsame | ⟨e, hmove⟩
    · rw [hsame]
      exact ⟨h.counts, h.ring⟩
    · exact ⟨counts_step h.counts hmove, ring_step h.counts h.ring hmove⟩
  exact ⟨hqueue.1, hqueue.2, prints_step h.counts h.ring h.prints hstep,
    books_step h.prints h.books hstep⟩

theorem inv_opened : Inv (opened U P) where
  counts := counts_start start_fresh emptied_fresh
  ring := ring_start start_fresh
  prints := by
    refine ⟨fun p => rfl, fun p i hi => (nomatch hi), fun p job hjob => ?_,
      fun job hjob => absurd hjob List.not_mem_nil, fun p hp => absurd rfl hp⟩
    exact absurd hjob List.not_mem_nil
  books := by
    refine ⟨fun b => ?_, fun b => ?_⟩
    · change 0 = 0 + ∑ _u : Fin U, 0
      rw [Finset.sum_const_zero, Nat.add_zero]
    · change 0 = (∑ _p : Fin P, 0) + ∑ _p : Fin P, 0
      rw [Finset.sum_const_zero, Nat.add_zero]

/-- For any number of users and printers and any order of their steps, the lines
    of each printer are whole printouts of the jobs that it has printed, and the
    beginning of one, and no job is lost or doubled on its way there. -/
theorem prints_of_reaches (U P : Nat) (s : Office U P)
    (h : Reaches officeStep (opened U P) s) : Prints s ∧ Books s ∧ Fifo s.queue := by
  have hinv := reaches_invariant (fun _ _ _ h hstep => inv_step h hstep) inv_opened h
  exact ⟨hinv.prints, hinv.books, fifo_of_ring hinv.counts hinv.ring⟩

/-- A user sends a job, and one of two printers prints it. -/
def printedRun : List (Action 2 2) :=
  let u : Fin 2 := ⟨0, by decide⟩
  let p : Fin 2 := ⟨1, by decide⟩
  .queue (.submit u plainJob) :: List.replicate 6 (.queue (.user u)) ++
    List.replicate 6 (.queue (.printer p)) ++ List.replicate 12 (.print p)

/-- With three letters on paper. -/
theorem prints_three_letters :
    ∃ s : Office 2 2, s.place 1 = .letters 3 ∧ Prints s ∧ Books s ∧ Fifo s.queue := by
  have hend : (exec officeStep (opened 2 2) (printedRun.take 17)).any (fun s =>
      decide (s.place 1 = .letters 3)) = true := by
    decide +kernel
  rcases exists_of_exec_any hend with ⟨s, hrun, hs⟩
  exact ⟨s, of_decide_eq_true hs, prints_of_reaches 2 2 s ⟨_, hrun⟩⟩

/-- How many steps a job is from its end, while a user has it. -/
def UserPc.rank : UserPc → Nat
  | .idle => 0
  | .waitEmpty _ => 24
  | .waitMutex _ => 23
  | .copy _ => 22
  | .advance => 21
  | .postMutex => 20
  | .postFull => 19

/-- The same for a job that was promised to a printer. -/
def PrinterPc.rank : PrinterPc → Nat
  | .waitFull => 0
  | .waitMutex => 17
  | .copy => 16
  | .advance => 15
  | .postMutex => 14
  | .postEmpty => 13

/-- How many lines a printer has before it. -/
def Printing.rank : Printing → Nat
  | .dequeuing => 0
  | .starts => 12
  | .letters i => 11 - i

/-- How many steps are to come before all that was sent is printed. -/
def Office.rank (s : Office U P) : Nat :=
  (∑ u, (s.queue.user u).rank) + 18 * s.queue.semFull + (∑ p, (s.queue.printer p).rank) +
    ∑ p, (s.place p).rank

/-- A user that moves, with what it does to `sem_full`. -/
theorem rank_setUser {q : State U P} {u : Fin U} (pc : UserPc)
    (huser : q.user = Function.update s.queue.user u pc) (hprinter : q.printer = s.queue.printer)
    (hrank : pc.rank + 18 * q.semFull < (s.queue.user u).rank + 18 * s.queue.semFull) :
    Office.rank { s with queue := q } < s.rank := by
  have hmove := sum_move UserPc.rank s.queue.user u pc
  unfold Office.rank
  dsimp only
  rw [huser, hprinter]
  omega

theorem rank_user {q : State U P} {u : Fin U} (hturn : UserTurn s.queue u q) :
    Office.rank { s with queue := q } < s.rank := by
  cases hturn with
  | waitEmpty job v hpc _ heq =>
      subst heq
      refine rank_setUser (.waitMutex job) rfl rfl ?_
      rw [hpc]
      -- Each operation brings the user nearer to the end of `enqueue_job`.
      change 23 + 18 * s.queue.semFull < 24 + 18 * s.queue.semFull
      omega
  | waitMutex job v hpc _ heq =>
      subst heq
      refine rank_setUser (.copy job) rfl rfl ?_
      rw [hpc]
      change 22 + 18 * s.queue.semFull < 23 + 18 * s.queue.semFull
      omega
  | copy job hpc heq =>
      subst heq
      refine rank_setUser .advance rfl rfl ?_
      rw [hpc]
      change 21 + 18 * s.queue.semFull < 22 + 18 * s.queue.semFull
      omega
  | advance hpc heq =>
      subst heq
      refine rank_setUser .postMutex rfl rfl ?_
      rw [hpc]
      change 20 + 18 * s.queue.semFull < 21 + 18 * s.queue.semFull
      omega
  | postMutex hpc heq =>
      subst heq
      refine rank_setUser .postFull rfl rfl ?_
      rw [hpc]
      change 19 + 18 * s.queue.semFull < 20 + 18 * s.queue.semFull
      omega
  | postFull hpc heq =>
      subst heq
      refine rank_setUser .idle rfl rfl ?_
      rw [hpc]
      -- The last one puts a job at the printers' disposal, and was worth as much.
      change 0 + 18 * (s.queue.semFull + 1) < 19 + 18 * s.queue.semFull
      omega

/-- A printer that moves in `dequeue_job`, with what it does to `sem_full`. -/
theorem rank_setPrinter {q : State U P} {p : Fin P} (pc : PrinterPc) (place : Printing)
    (hprinter : q.printer = Function.update s.queue.printer p pc) (huser : q.user = s.queue.user)
    (hplace : (s.dequeue p q).place = Function.update s.place p place)
    (hrank : pc.rank + place.rank + 18 * q.semFull <
      (s.queue.printer p).rank + (s.place p).rank + 18 * s.queue.semFull) :
    (s.dequeue p q).rank < s.rank := by
  have hmove := sum_move PrinterPc.rank s.queue.printer p pc
  have hplaces := sum_move Printing.rank s.place p place
  change (∑ u, (q.user u).rank) + 18 * q.semFull + (∑ k, (q.printer k).rank) +
    (∑ k, ((s.dequeue p q).place k).rank) < _
  unfold Office.rank
  rw [huser, hprinter, hplace]
  omega

theorem rank_printer {q : State U P} {p : Fin P} (hplace : s.place p = .dequeuing)
    (hturn : PrinterTurn s.queue p q) : (s.dequeue p q).rank < s.rank := by
  -- It stays in `dequeue_job` until its last operation there.
  have hstay : s.queue.printer p ≠ .postEmpty →
      (s.dequeue p q).place = Function.update s.place p .dequeuing := by
    intro hpost
    rw [← hplace, Function.update_eq_self, Office.dequeue, if_neg hpost]
  have hzero : (s.place p).rank = 0 := by
    rw [hplace]
    rfl
  cases hturn with
  | waitFull v hpc hv heq =>
      subst heq
      refine rank_setPrinter .waitMutex .dequeuing rfl rfl (hstay (by rw [hpc]; nofun)) ?_
      rw [hpc, hzero, hv]
      -- The printer takes a job, and with it what was put by for it.
      change 17 + 0 + 18 * v < 0 + 0 + 18 * (v + 1)
      omega
  | waitMutex v hpc _ heq =>
      subst heq
      refine rank_setPrinter .copy .dequeuing rfl rfl (hstay (by rw [hpc]; nofun)) ?_
      rw [hpc, hzero]
      change 16 + 0 + 18 * s.queue.semFull < 17 + 0 + 18 * s.queue.semFull
      omega
  | copy hpc heq =>
      subst heq
      refine rank_setPrinter .advance .dequeuing rfl rfl (hstay (by rw [hpc]; nofun)) ?_
      rw [hpc, hzero]
      change 15 + 0 + 18 * s.queue.semFull < 16 + 0 + 18 * s.queue.semFull
      omega
  | advance hpc heq =>
      subst heq
      refine rank_setPrinter .postMutex .dequeuing rfl rfl (hstay (by rw [hpc]; nofun)) ?_
      rw [hpc, hzero]
      change 14 + 0 + 18 * s.queue.semFull < 15 + 0 + 18 * s.queue.semFull
      omega
  | postMutex hpc heq =>
      subst heq
      refine rank_setPrinter .postEmpty .dequeuing rfl rfl (hstay (by rw [hpc]; nofun)) ?_
      rw [hpc, hzero]
      change 13 + 0 + 18 * s.queue.semFull < 14 + 0 + 18 * s.queue.semFull
      omega
  | postEmpty hpc heq =>
      subst heq
      refine rank_setPrinter .waitFull .starts rfl rfl ?_ ?_
      · rw [Office.dequeue, if_pos hpc]
      · rw [hpc, hzero]
        -- Leaving `dequeue_job` it has twelve lines to print.
        change 0 + 12 + 18 * s.queue.semFull < 13 + 0 + 18 * s.queue.semFull
        omega

/-- A printer that prints a line. -/
theorem rank_line {p : Fin P} (place : Printing) (hqueue : s'.queue = s.queue)
    (hplace : s'.place = Function.update s.place p place) (hrank : place.rank < (s.place p).rank) :
    s'.rank < s.rank := by
  have hmove := sum_move Printing.rank s.place p place
  unfold Office.rank
  rw [hqueue, hplace]
  omega

theorem rank_print {p : Fin P} (h : Prints s) (hstep : s.print p = some s') :
    s'.rank < s.rank := by
  unfold Office.print at hstep
  cases hplace : s.place p with
  | dequeuing =>
      rw [hplace] at hstep
      cases hstep
  | starts =>
      rw [hplace, Option.some.injEq] at hstep
      subst hstep
      -- The first line,
      exact rank_line (.letters 0) rfl rfl (by rw [hplace]; decide)
  | letters i =>
      have hi := h.letters p i hplace
      have hten : jobLength = 10 := rfl
      rw [hplace] at hstep
      dsimp only at hstep
      by_cases hmore : i < jobLength
      · rw [if_pos hmore, Option.some.injEq] at hstep
        subst hstep
        -- one letter,
        refine rank_line (.letters (i + 1)) rfl rfl ?_
        rw [hplace, Printing.rank, Printing.rank]
        omega
      · rw [if_neg hmore, Option.some.injEq] at hstep
        subst hstep
        -- and the last line.
        refine rank_line .dequeuing rfl rfl ?_
        rw [hplace, Printing.rank, Printing.rank]
        omega

/-- Steps lower the rank; a job that is sent raises it by the steps that the job
    takes. -/
theorem rank_step {a : Action U P} (h : Inv s) (hstep : officeStep s a = some s') :
    s'.rank + 1 ≤ s.rank + if a.isSubmit then 24 + 1 else 0 := by
  cases a with
  | queue e =>
      cases e with
      | submit u job =>
          rcases Option.map_eq_some_iff.mp hstep with ⟨q, hq, heq⟩
          rcases submit_cases hq with ⟨hpc, hqueue⟩
          subst heq
          subst hqueue
          have hmove := sum_move UserPc.rank s.queue.user u (.waitEmpty job)
          have hidle : UserPc.idle.rank = 0 := rfl
          -- A job costs twenty-four steps from here on.
          have hbegin : (UserPc.waitEmpty job).rank = 24 := rfl
          rw [hpc, hidle, hbegin] at hmove
          change (∑ v, (Function.update s.queue.user u (.waitEmpty job) v).rank) +
            18 * s.queue.semFull + (∑ p, (s.queue.printer p).rank) + (∑ p, (s.place p).rank) + 1 ≤
            s.rank + (24 + 1)
          unfold Office.rank
          omega
      | user u =>
          rcases Option.map_eq_some_iff.mp hstep with ⟨q, hq, heq⟩
          rw [← heq]
          exact rank_user (userStep_cases hq)
      | printer p =>
          rcases Option.ite_none_right_eq_some.mp hstep with ⟨hplace, hrest⟩
          rcases Option.map_eq_some_iff.mp hrest with ⟨q, hq, heq⟩
          rw [← heq]
          exact rank_printer hplace (printerStep_cases hq)
  | print p => exact rank_print h.prints hstep

theorem rank_opened : (opened U P).rank = 0 := by
  have husers : (∑ u : Fin U, ((opened U P).queue.user u).rank) = 0 := Finset.sum_const_zero
  have hprinters : (∑ p : Fin P, ((opened U P).queue.printer p).rank) = 0 := Finset.sum_const_zero
  have hplaces : (∑ p : Fin P, ((opened U P).place p).rank) = 0 := Finset.sum_const_zero
  have hfull : (opened U P).queue.semFull = 0 := rfl
  unfold Office.rank
  omega

/-- Users and printers are where they begin, and what was sent is printed: every
    text as often as it was sent, in whole printouts. -/
structure Drained (s : Office U P) : Prop where
  users : ∀ u, s.queue.user u = .idle
  printers : ∀ p, s.queue.printer p = .waitFull ∧ s.place p = .dequeuing
  lines : ∀ p, linesOf p s.stdout = (s.printed p).flatMap (printout p)
  printed : ∀ b, (∑ p, (s.printed p).count b) = s.sent.count b

/-- Nobody can do anything but send a new job. -/
def Quiet (s : Office U P) : Prop := ∀ a, Action.isSubmit a = false → officeStep s a = none

theorem Quiet.place (h : Quiet s) (p : Fin P) : s.place p = .dequeuing := by
  have hnone : s.print p = none := h (.print p) rfl
  unfold Office.print at hnone
  cases hplace : s.place p with
  | dequeuing => rfl
  | starts =>
      rw [hplace] at hnone
      cases hnone
  | letters i =>
      rw [hplace] at hnone
      dsimp only at hnone
      split at hnone <;> cases hnone

theorem Quiet.user (h : Quiet s) (u : Fin U) : userStep s.queue u = none :=
  Option.map_eq_none_iff.mp (h (.queue (.user u)) rfl)

theorem Quiet.printer (h : Quiet s) (p : Fin P) : printerStep s.queue p = none := by
  have hnone : (if s.place p = .dequeuing then (step s.queue (.printer p)).map (s.dequeue p)
    else none) = none := h (.queue (.printer p)) rfl
  rw [if_pos (h.place p)] at hnone
  exact Option.map_eq_none_iff.mp hnone

/-- Where nobody can go on, nobody has the mutex, so nobody waits for it. -/
theorem Quiet.mutex (h : Quiet s) (hcounts : Counts s.queue) : s.queue.semMutex = 1 := by
  have husers : ∀ u, (s.queue.user u).isCritical = false := by
    intro u
    have hnone := h.user u
    unfold userStep at hnone
    cases hpc : s.queue.user u with
    | idle | waitEmpty _ | waitMutex _ | postFull => rfl
    -- In the critical section nothing is waited for.
    | copy _ | advance | postMutex =>
        rw [hpc] at hnone
        cases hnone
  have hprinters : ∀ p, (s.queue.printer p).isCritical = false := by
    intro p
    have hnone := h.printer p
    unfold printerStep at hnone
    cases hpc : s.queue.printer p with
    | waitFull | waitMutex | postEmpty => rfl
    | copy | advance | postMutex =>
        rw [hpc] at hnone
        cases hnone
  -- With nobody inside the mutex is free.
  have hmutex := hcounts.mutex
  rwa [State.inside, tally_const_false husers, tally_const_false hprinters] at hmutex

theorem Quiet.printers (h : Quiet s) (hcounts : Counts s.queue) (p : Fin P) :
    s.queue.printer p = .waitFull := by
  have hnone := h.printer p
  unfold printerStep at hnone
  cases hpc : s.queue.printer p with
  | waitFull => rfl
  | waitMutex =>
      rw [hpc, h.mutex hcounts] at hnone
      cases hnone
  | copy | advance | postMutex | postEmpty =>
      rw [hpc] at hnone
      cases hnone

/-- With all printers waiting for a job, there is none in the ring. -/
theorem Quiet.empty (hP : 0 < P) (h : Quiet s) (hcounts : Counts s.queue) :
    s.queue.semFull = 0 := by
  have hnone := h.printer ⟨0, hP⟩
  unfold printerStep at hnone
  rw [h.printers hcounts] at hnone
  have hblocked : semWait s.queue.semFull = none := Option.map_eq_none_iff.mp hnone
  unfold semWait at hblocked
  by_contra hpos
  rw [if_pos (Nat.pos_of_ne_zero hpos)] at hblocked
  cases hblocked

/-- The ring being empty, the users have put in all that they have. -/
theorem Quiet.users (hP : 0 < P) (h : Quiet s) (hcounts : Counts s.queue) (u : Fin U) :
    s.queue.user u = .idle := by
  -- Only a place in the ring can be waited for.
  have hrest : ∀ v, s.queue.user v = .idle ∨ ∃ job, s.queue.user v = .waitEmpty job := by
    intro v
    have hnone := h.user v
    unfold userStep at hnone
    cases hpc : s.queue.user v with
    | idle => exact .inl rfl
    | waitEmpty job => exact .inr ⟨job, rfl⟩
    | waitMutex job =>
        rw [hpc, h.mutex hcounts] at hnone
        cases hnone
    | copy _ | advance | postMutex | postFull =>
        rw [hpc] at hnone
        cases hnone
  -- All places are free then, and nobody waits for one.
  have hempty : s.queue.semEmpty = queueSize := by
    have hplaces := hcounts.places
    have hpromises := hcounts.promises
    have hplace : tally UserPc.hasPlace s.queue.user = 0 :=
      tally_const_false fun v => by rcases hrest v with h | ⟨job, h⟩ <;> rw [h] <;> rfl
    have hfull : tally UserPc.owesFull s.queue.user = 0 :=
      tally_const_false fun v => by rcases hrest v with h | ⟨job, h⟩ <;> rw [h] <;> rfl
    have howes : tally PrinterPc.owesEmpty s.queue.printer = 0 :=
      tally_const_false fun p => by rw [h.printers hcounts]; rfl
    have hpromise : tally PrinterPc.hasPromise s.queue.printer = 0 :=
      tally_const_false fun p => by rw [h.printers hcounts]; rfl
    have hzero := h.empty hP hcounts
    omega
  -- A user that waits would find a place, and so go on.
  rcases hrest u with hidle | ⟨job, hwait⟩
  · exact hidle
  · have hnone := h.user u
    unfold userStep at hnone
    rw [hwait, hempty] at hnone
    cases hnone

theorem drained_of_quiet (hP : 0 < P) (h : Inv s) (hquiet : Quiet s) : Drained s := by
  have husers := hquiet.users hP h.counts
  have hprinters := hquiet.printers h.counts
  refine ⟨husers, fun p => ⟨hprinters p, hquiet.place p⟩, fun p => ?_, fun b => ?_⟩
  · have hlines := h.prints.lines p
    rwa [hquiet.place p, Printing.lines, List.append_nil] at hlines
  · -- The sums have nothing left but what was sent and what is printed.
    have hsent := h.books.sent b
    have htaken := h.books.taken b
    -- Nobody has a job pending,
    have hpending : (∑ u, (s.queue.user u).pending.count b) = 0 :=
      Finset.sum_eq_zero fun u _ => by rw [husers u]; rfl
    -- and no printer has one in hand.
    have hholding : (∑ p, (s.holding p).count b) = 0 := by
      refine Finset.sum_eq_zero fun p _ => ?_
      unfold Office.holding
      rw [hprinters p, hquiet.place p]
      rfl
    -- What was put in has been taken out.
    have hlength : s.queue.dequeued.length = s.queue.enqueued.length := by
      have hpromises := h.counts.promises
      have hfull : tally UserPc.owesFull s.queue.user = 0 :=
        tally_const_false fun u => by rw [husers u]; rfl
      have hpromise : tally PrinterPc.hasPromise s.queue.printer = 0 :=
        tally_const_false fun p => by rw [hprinters p]; rfl
      have hzero := hquiet.empty hP h.counts
      omega
    have hall : s.queue.dequeued = s.queue.enqueued := by
      rw [h.ring.order, hlength, List.take_length]
    rw [hall] at htaken
    omega

/-- With a printer at least, in every schedule the processes have 25 steps at
    most for each job that is sent, and when they have nothing left to do all
    that was sent is printed. -/
theorem completes_of_sent (U P : Nat) (hP : 0 < P) (as : List (Action U P)) (s : Office U P)
    (hrun : exec officeStep (opened U P) as = some s) :
    as.length ≤ 25 * as.countP Action.isSubmit ∧ (Quiet s → Drained s) := by
  have hinv := exec_invariant (fun _ _ _ h hstep => inv_step h hstep) inv_opened hrun
  have hlength := exec_length_le_add (fun _ _ _ h hstep => inv_step h hstep)
    (fun _ _ _ h hstep => rank_step h hstep) inv_opened hrun
  rw [rank_opened] at hlength
  refine ⟨?_, drained_of_quiet hP hinv⟩
  omega

theorem completes_printed_run :
    ∃ s, exec officeStep (opened 2 2) printedRun = some s ∧ Drained s ∧
      s.printed 1 = [plainJob.bytes] := by
  have hend : (exec officeStep (opened 2 2) printedRun).any (fun s =>
      decide ((∀ u, (officeStep s (.queue (.user u))).isNone = true) ∧
        (∀ p, (officeStep s (.queue (.printer p))).isNone = true) ∧
        (∀ p, (officeStep s (.print p)).isNone = true) ∧
        s.printed 1 = [plainJob.bytes])) = true := by
    decide +kernel
  rcases exists_of_exec_any hend with ⟨s, hrun, hs⟩
  rcases of_decide_eq_true hs with ⟨husers, hprinters, hprints, hprinted⟩
  have hquiet : Quiet s := by
    intro a ha
    cases a with
    | queue e =>
        cases e with
        | submit u job => cases ha
        | user u => exact Option.isNone_iff_eq_none.mp (husers u)
        | printer p => exact Option.isNone_iff_eq_none.mp (hprinters p)
    | print p => exact Option.isNone_iff_eq_none.mp (hprints p)
  exact ⟨s, hrun, (completes_of_sent 2 2 (by decide) printedRun s hrun).2 hquiet, hprinted⟩

end Runs

end Print

end OsLabs
