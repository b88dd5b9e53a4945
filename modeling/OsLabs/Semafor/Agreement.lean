import Mathlib.Logic.Function.Iterate
import OsLabs.Library.Machine
import OsLabs.Semafor.Log

/-!
# The Two Logs Agree

`Funkcje/Semafor SysV/main.c`. What the semaphore guards is that the two logs
are the same. Who is inside breaks this by his first `write` and mends it by
his second, with what he has in his buffer, and nobody else is inside at the
time.

The order of the entries of a process has nothing to do with the semaphore. Its
loop counter goes down by one each time round, from the number that it was
started with and on through the negative ones, so the number of entries and the
counter determine each other.

The semaphore has to be there as long as somebody may use it. The parent removes
it after it has waited for the child, and a process that has ended does nothing.

## Main definitions

* `written`, `turns`, `countdown`: A list of entries as it is written, and in
  whose turns.
* `InOrder`: The entries of a process are those of its turns so far.
* `Agreed`, `Holds`: The logs outside, and as a process has them inside.
* `Inv`: The invariant.
* `Agrees`: What the semaphore is for.

## Theorems

* `Inv.put`: Steps outside.
* `Inv.enter`, `Inv.work`, `Inv.leave`: Into the section, in it and out of it.
* `inv_step`: A step keeps the invariant.
* `agrees_of_reaches`: The logs agree in all states that can be reached.
-/

namespace OsLabs

namespace Semafor

open Machine

/-- The entries, one after another. -/
def written (entries : List Entry) : Bytes := entries.flatMap Entry.line

/-- The turns that the entries of a process are from, in order. -/
def turns (p : Process) (entries : List Entry) : List Int32 :=
  (entries.filter (·.who = p)).map Entry.petla

/-- What a loop counter is after `k` more turns. -/
def down (count : Int32) (k : Nat) : Int32 := (fun c => c - 1)^[k] count

/-- The loop counter in the first `k` turns. -/
def countdown (count : Int32) (k : Nat) : List Int32 :=
  (List.range k).map fun i => down count (i + 1)

/-- A turn has begun: the loop counter is that of an entry still to come. -/
def Locals.begun (l : Locals) : Nat := if l.place = .whileTest then 0 else 1

/-- The entries of a process are those of its first turns, without gaps, and
    its loop counter is where these end. -/
structure InOrder (count : Int32) (ts : List Int32) (l : Locals) : Prop where
  gapless : ts = countdown count ts.length
  counter : l.counter = down count (ts.length + l.begun)

/-- Both logs are these entries. -/
structure Agreed (entries : List Entry) (st : State) : Prop where
  common : st.common = written entries
  stdout : st.stdout = written entries

/-- The entry that a process writes in this turn. -/
def Locals.entry (p : Process) (l : Locals) : Entry := ⟨p, l.counter, l.s⟩

/-- What the process has written to `common.txt` in this turn. -/
def Locals.inFile (l : Locals) : Bytes :=
  if l.place = .writeStdout ∨ l.place = .semUnlock then l.buf else []

/-- What it has written to standard output. -/
def Locals.onStdout (l : Locals) : Bytes := if l.place = .semUnlock then l.buf else []

/-- The logs as a process has them that is inside. -/
structure Holds (entries : List Entry) (st : State) (p : Process) : Prop where
  buf : (st.procs p).place ≠ .sprintf → (st.procs p).buf = ((st.procs p).entry p).line
  common : st.common = written entries ++ (st.procs p).inFile
  stdout : st.stdout = written entries ++ (st.procs p).onStdout

/-- The semaphore guards the logs as long as it is there, and it is there as
    long as a process has not ended. -/
structure Inv (counts : Process → Int32) (entries : List Entry) (st : State) : Prop where
  order : ∀ p, InOrder (counts p) (turns p entries) (st.procs p)
  guarded : ∀ value, st.sem = some value →
    Guards (fun p => (st.procs p).Inside) (Agreed entries st) (Holds entries st) value
  removed : st.sem = none → Agreed entries st ∧ ∀ p, (st.procs p).place = .ended
  reaping : ∀ p, (st.procs p).place = .waitpid → p = .parent
  reaped : ∀ p, (st.procs p).place = .rmid → p = .parent ∧ (st.procs .child).place = .ended

variable {counts : Process → Int32} {entries : List Entry} {st st' : State} {p : Process}
  {l : Locals}

theorem not_inside_of (place : Place) (h : l.place = place)
    (hplace : ¬ (place = .sprintf ∨ place = .writeFd ∨ place = .writeStdout ∨ place = .semUnlock)) :
    ¬ l.Inside := by
  rw [Locals.Inside, h]
  exact hplace

theorem not_ended_of_inside (h : l.Inside) : l.place ≠ .ended :=
  fun hended => not_inside_of .ended hended (by decide) h

/-- The order of the entries only asks about the counter and whether a turn has
    begun. -/
theorem InOrder.congr {count : Int32} {ts : List Int32} {l' : Locals} (h : InOrder count ts l)
    (hcounter : l'.counter = l.counter) (hbegun : l'.begun = l.begun) : InOrder count ts l' where
  gapless := h.gapless
  counter := by rw [hcounter, hbegun, h.counter]

theorem down_succ (count : Int32) (k : Nat) : down count (k + 1) = down count k - 1 :=
  Function.iterate_succ_apply' ..

theorem countdown_succ (count : Int32) (k : Nat) :
    countdown count (k + 1) = countdown count k ++ [down count (k + 1)] := by
  rw [countdown, List.range_succ, List.map_append, List.map_singleton, countdown]

/-- A process that has not ended finds the semaphore there. -/
theorem Inv.exists_sem (h : Inv counts entries st) (hlive : (st.procs p).place ≠ .ended) :
    ∃ value, st.sem = some value := by
  cases hsem : st.sem with
  | none => exact absurd ((h.removed hsem).2 p) hlive
  | some value => exact ⟨value, rfl⟩

/-- What goes on in one process leaves what is known of the other alone. -/
theorem forall_put {P : Process → Locals → Prop} (hp : P p l)
    (hother : ∀ q, q ≠ p → P q (st.procs q)) (q : Process) : P q ((st.put p l).procs q) := by
  by_cases hq : q = p
  · rw [hq, put_self]
    exact hp
  · rw [put_of_ne st l hq]
    exact hother q hq

theorem Inv.order_put (h : Inv counts entries st)
    (horder : InOrder (counts p) (turns p entries) l) (q : Process) :
    InOrder (counts q) (turns q entries) ((st.put p l).procs q) :=
  forall_put (P := fun q l => InOrder (counts q) (turns q entries) l) horder
    (fun q _ => h.order q) q

theorem Inv.reaping_put (h : Inv counts entries st) (hl : l.place = .waitpid → p = .parent)
    (q : Process) : ((st.put p l).procs q).place = .waitpid → q = .parent :=
  forall_put (P := fun q l => l.place = .waitpid → q = .parent) hl (fun q _ => h.reaping q) q

/-- The child stays at its end: it is not the one that goes on. -/
theorem Inv.reaped_put (h : Inv counts entries st) (hlive : (st.procs p).place ≠ .ended)
    (hl : l.place = .rmid → p = .parent ∧ (st.procs .child).place = .ended) (q : Process) :
    ((st.put p l).procs q).place = .rmid →
      q = .parent ∧ ((st.put p l).procs .child).place = .ended := by
  have hchild : (st.procs .child).place = .ended → ((st.put p l).procs .child).place = .ended := by
    -- The one that goes on has not ended, so it is not the child.
    intro hended
    have hne : Process.child ≠ p := by
      rintro rfl
      exact hlive hended
    rwa [put_of_ne st l hne]
  intro hrmid
  -- The one that goes on may come to the removal by this step, the other stood there before.
  by_cases hq : q = p
  · rw [hq, put_self] at hrmid
    rw [hq]
    exact (hl hrmid).imp id hchild
  · rw [put_of_ne st l hq] at hrmid
    exact (h.reaped q hrmid).imp id hchild

/-- A process that stays outside. -/
theorem Inv.put (h : Inv counts entries st) (hlive : (st.procs p).place ≠ .ended)
    (hout : ¬ (st.procs p).Inside) (hout' : ¬ l.Inside)
    (horder : InOrder (counts p) (turns p entries) l)
    (hwait : l.place = .waitpid → p = .parent)
    (hrmid : l.place = .rmid → p = .parent ∧ (st.procs .child).place = .ended) :
    Inv counts entries (st.put p l) where
  order := h.order_put horder
  guarded value hsem := by
    refine (h.guarded value hsem).frame (fun q => ?_) (fun hfree => ⟨hfree.1, hfree.2⟩)
      fun q hin hheld => ?_
    · by_cases hq : q = p
      · rw [hq, put_self]
        exact iff_of_false hout' hout
      · rw [put_of_ne st l hq]
    · -- Who is inside is the other one, and has not moved.
      have hq : q ≠ p := by
        rintro rfl
        exact hout hin
      refine ⟨?_, ?_, ?_⟩
      · rw [put_of_ne st l hq]
        exact hheld.buf
      · rw [put_of_ne st l hq]
        exact hheld.common
      · rw [put_of_ne st l hq]
        exact hheld.stdout
  removed hsem := absurd ((h.removed hsem).2 p) hlive
  reaping := h.reaping_put hwait
  -- Nobody is at the removal but the parent, after the child.
  reaped := h.reaped_put hlive hrmid

theorem inside_of_put {q : Process} (hq : q ≠ p) (hin : ((st.put p l).procs q).Inside) :
    (st.procs q).Inside := by
  rwa [put_of_ne st l hq] at hin

/-- A process that gets the semaphore, and with it the logs. -/
theorem Inv.enter {value value' : Nat} (h : Inv counts entries st)
    (hplace : (st.procs p).place = .semLock) (hsem : st.sem = some value)
    (hwait : semWait value = some value') :
    Inv counts entries { st.put p { st.procs p with place := .sprintf } with sem := some value' }
    where
  -- Entering does not change which turn it is.
  order := h.order_put ((h.order p).congr rfl (by simp only [Locals.begun, hplace, reduceCtorEq]))
  guarded value'' hsem' := by
    rw [Option.some.injEq] at hsem'
    rw [← hsem']
    refine (h.guarded value hsem).enter hwait ?_ (fun q hq => inside_of_put hq) fun hfree => ?_
    · rw [put_self]
      exact .inl rfl
    · -- Nothing is written yet, and the buffer may still be an old one.
      refine ⟨?_, ?_, ?_⟩
      · rw [put_self]
        exact fun hne => absurd rfl hne
      · rw [put_self]
        exact hfree.common.trans (List.append_nil _).symm
      · rw [put_self]
        exact hfree.stdout.trans (List.append_nil _).symm
  -- The semaphore is there.
  removed hsem' := by cases hsem'
  reaping := h.reaping_put fun hwaiting => by cases hwaiting
  reaped := by
    have hlive : (st.procs p).place ≠ .ended := by
      rw [hplace]
      decide
    exact h.reaped_put hlive fun hrmid => by cases hrmid

/-- A process that goes on inside. What it does to the logs is up to it. -/
theorem Inv.work (h : Inv counts entries st) (hin : (st.procs p).Inside) (hin' : l.Inside)
    (hcounter : l.counter = (st.procs p).counter) (hprocs : st'.procs = (st.put p l).procs)
    (hsem : st'.sem = st.sem) (hholds : Holds entries st p → Holds entries st' p) :
    Inv counts entries st' := by
  have hlive : (st.procs p).place ≠ .ended := not_ended_of_inside hin
  have hbegun : ∀ {l : Locals}, l.Inside → l.begun = 1 := by
    intro l hl
    -- Inside, the place is none of the loop test's.
    rw [Locals.begun, if_neg]
    rcases hl with h | h | h | h <;> rw [h] <;> decide
  -- Inside, a turn has begun, and the end of the program is still to come.
  have hplace : l.place ≠ .waitpid ∧ l.place ≠ .rmid := by
    rcases hin' with h | h | h | h <;> rw [h] <;> decide
  refine ⟨?_, ?_, ?_, ?_, ?_⟩
  · rw [hprocs]
    exact h.order_put ((h.order p).congr hcounter (by rw [hbegun hin, hbegun hin']))
  · intro value hvalue
    rw [hsem] at hvalue
    refine (h.guarded value hvalue).work hin ?_ (fun q hq hq' => ?_) hholds
    · rw [hprocs, put_self]
      exact hin'
    · rw [hprocs] at hq'
      exact inside_of_put hq hq'
  · intro hnone
    -- Without the semaphore everybody has ended, and this one has not.
    rw [hsem] at hnone
    exact absurd ((h.removed hnone).2 p) hlive
  · rw [hprocs]
    exact h.reaping_put fun hwaiting => absurd hwaiting hplace.1
  · rw [hprocs]
    exact h.reaped_put hlive fun hrmid => absurd hrmid hplace.2

theorem written_concat (entries : List Entry) (e : Entry) :
    written (entries ++ [e]) = written entries ++ e.line := by
  rw [written, List.flatMap_append, List.flatMap_singleton, written]

theorem turns_concat (entries : List Entry) (l : Locals) :
    turns p (entries ++ [l.entry p]) = turns p entries ++ [l.counter] := by
  simp only [turns, List.filter_append, List.map_append, Locals.entry, decide_true,
    List.filter_cons_of_pos, List.filter_nil, List.map_cons, List.map_nil]

theorem turns_concat_of_ne {q : Process} (entries : List Entry) (l : Locals) (h : q ≠ p) :
    turns q (entries ++ [l.entry p]) = turns q entries := by
  have hother : decide ((l.entry p).who = q) = false := decide_eq_false (Ne.symm h)
  rw [turns, List.filter_append, List.filter_cons_of_neg, List.filter_nil, List.append_nil, turns]
  rw [hother]
  exact Bool.false_ne_true

/-- With its entry written the process is one turn further. -/
theorem InOrder.concat {count : Int32} {ts : List Int32} {l' : Locals} (h : InOrder count ts l)
    (hbegun : l.begun = 1) (hcounter : l'.counter = l.counter) (hbegun' : l'.begun = 0) :
    InOrder count (ts ++ [l.counter]) l' := by
  have hlength : (ts ++ [l.counter]).length = ts.length + 1 := List.length_append
  have hlast := h.counter
  rw [hbegun] at hlast
  refine ⟨?_, ?_⟩
  · rw [hlength, countdown_succ, ← h.gapless, hlast]
  · rw [hlength, hcounter, hbegun', hlast]

/-- A process that hands the semaphore back, and the logs with one more
    entry. -/
theorem Inv.leave {value : Nat} (h : Inv counts entries st)
    (hplace : (st.procs p).place = .semUnlock) (hsem : st.sem = some value) :
    Inv counts (entries ++ [(st.procs p).entry p]) (st.semUnlock p) := by
  have hin : (st.procs p).Inside := .inr (.inr (.inr hplace))
  have hlive : (st.procs p).place ≠ .ended := not_ended_of_inside hin
  refine ⟨fun q => ?_, fun value' hsem' => ?_, fun hnone => ?_, ?_, ?_⟩
  -- The entry counts for the one that wrote it, and its turn is over.
  · refine forall_put (P := fun q l =>
      InOrder (counts q) (turns q (entries ++ [(st.procs p).entry p])) l) ?_ (fun q hq => ?_) q
    · rw [turns_concat]
      refine (h.order p).concat ?_ rfl rfl
      rw [Locals.begun, hplace]
      exact if_neg (by decide)
    · rw [turns_concat_of_ne entries _ hq]
      exact h.order q
  · rw [State.semUnlock, hsem, Option.map_some, Option.some.injEq] at hsem'
    rw [← hsem']
    refine (h.guarded value hsem).leave hin ?_ (fun q hq => inside_of_put hq) fun hheld => ?_
    · change ¬ ((st.put p { st.procs p with place := .whileTest }).procs p).Inside
      rw [put_self]
      exact not_inside_of .whileTest rfl (by decide)
    · -- Both writes are done, with the entry of this turn.
      have hbuf := hheld.buf (by rw [hplace]; decide)
      have hcommon := hheld.common
      have hstdout := hheld.stdout
      rw [Locals.inFile, if_pos (.inr hplace), hbuf, ← written_concat] at hcommon
      rw [Locals.onStdout, if_pos hplace, hbuf, ← written_concat] at hstdout
      exact ⟨hcommon, hstdout⟩
  · rw [State.semUnlock, hsem, Option.map_some] at hnone
    cases hnone
  · exact h.reaping_put fun hwaiting => by cases hwaiting
  · exact h.reaped_put hlive fun hrmid => by cases hrmid

/-- The parent removes the semaphore after the child has ended. Nobody is
    inside then. -/
theorem Inv.rmid {value : Nat} (h : Inv counts entries st)
    (hplace : (st.procs p).place = .rmid) (hsem : st.sem = some value) :
    Inv counts entries (st.rmid p) := by
  have hlive : (st.procs p).place ≠ .ended := by
    rw [hplace]
    decide
  have hended : ∀ q, q ≠ p → (st.procs q).place = .ended := by
    -- The process that removes the semaphore is the parent, the other the child.
    intro q hq
    rcases h.reaped p hplace with ⟨hparent, hchild⟩
    cases q with
    | parent => exact absurd hparent.symm hq
    | child => exact hchild
  have hout : ∀ q, ¬ (st.procs q).Inside := by
    intro q
    by_cases hq : q = p
    · rw [hq]
      exact not_inside_of .rmid hplace (by decide)
    · exact not_inside_of .ended (hended q hq) (by decide)
  -- With nobody inside the logs are complete.
  have hagreed := (h.guarded value hsem).free_of_out hout
  refine ⟨?_, fun value' hsem' => (nomatch hsem'),
    fun _ => ⟨⟨hagreed.common, hagreed.stdout⟩, fun q => ?_⟩, ?_, ?_⟩
  · refine h.order_put ((h.order p).congr rfl ?_)
    simp only [Locals.begun, hplace, reduceCtorEq]
  · exact forall_put (P := fun _ l => l.place = .ended) rfl hended q
  · exact h.reaping_put fun hwaiting => by cases hwaiting
  · exact h.reaped_put hlive fun hrmid => by cases hrmid

/-- Where the test of the loop leads. -/
theorem place_whileTest (p : Process) (l : Locals) :
    (l.whileTest p).place = .sleep ∨ p = .parent ∧ (l.whileTest p).place = .waitpid ∨
      p = .child ∧ (l.whileTest p).place = .ended := by
  unfold Locals.whileTest
  by_cases hzero : l.counter = 0
  · cases p with
    | parent => exact .inr (.inl ⟨rfl, if_pos hzero⟩)
    | child => exact .inr (.inr ⟨rfl, if_pos hzero⟩)
  · exact .inl (if_neg hzero)

/-- The counter is lowered by the test, whatever comes of it. -/
theorem Inv.whileTest (h : Inv counts entries st) (hplace : (st.procs p).place = .whileTest) :
    Inv counts entries (st.put p ((st.procs p).whileTest p)) := by
  have hlive : (st.procs p).place ≠ .ended := by
    rw [hplace]
    decide
  have horder : InOrder (counts p) (turns p entries) ((st.procs p).whileTest p) := by
    have hold := (h.order p).counter
    rw [Locals.begun, if_pos hplace] at hold
    have hbegun : ((st.procs p).whileTest p).begun = 1 := by
      rw [Locals.begun, if_neg]
      rcases place_whileTest p (st.procs p) with h | ⟨_, h⟩ | ⟨_, h⟩ <;> rw [h] <;> decide
    refine ⟨(h.order p).gapless, ?_⟩
    -- No entry was added, but the turn counts from now on.
    rw [hbegun, down_succ, ← Nat.add_zero (turns p entries).length, ← hold]
    rfl
  have hout := not_inside_of .whileTest hplace (by decide)
  -- The child ends after its loop, so only the parent gets to `waitpid`.
  rcases place_whileTest p (st.procs p) with hnext | ⟨hparent, hnext⟩ | ⟨_, hnext⟩
  · refine h.put hlive hout (not_inside_of .sleep hnext (by decide)) horder ?_ ?_
    · exact fun hwaiting => nomatch hnext.symm.trans hwaiting
    · exact fun hrmid => nomatch hnext.symm.trans hrmid
  · refine h.put hlive hout (not_inside_of .waitpid hnext (by decide)) horder ?_ ?_
    · exact fun _ => hparent
    · exact fun hrmid => nomatch hnext.symm.trans hrmid
  · refine h.put hlive hout (not_inside_of .ended hnext (by decide)) horder ?_ ?_
    · exact fun hwaiting => nomatch hnext.symm.trans hwaiting
    · exact fun hrmid => nomatch hnext.symm.trans hrmid

theorem Inv.sleep (h : Inv counts entries st) (maxSleepTime rand : Int32)
    (hplace : (st.procs p).place = .sleep) :
    Inv counts entries (st.put p ((st.procs p).sleep maxSleepTime rand)) := by
  have hlive : (st.procs p).place ≠ .ended := by
    rw [hplace]
    decide
  have hout := not_inside_of .sleep hplace (by decide)
  have horder : ∀ place l', l' = { st.procs p with place := place, s := l'.s } →
      place ≠ .whileTest → InOrder (counts p) (turns p entries) l' := by
    intro place l' hl' hne
    refine (h.order p).congr ?_ ?_
    · rw [hl']
    · rw [hl', Locals.begun, Locals.begun, hplace]
      exact if_neg hne
  unfold Locals.sleep
  by_cases hzero : maxSleepTime = 0
  -- Without a remainder the process ends here, outside as before.
  · rw [if_pos hzero]
    refine h.put hlive hout (not_inside_of .ended rfl (by decide))
      (horder .ended _ rfl (by decide)) ?_ ?_
    · exact fun hwaiting => nomatch hwaiting
    · exact fun hrmid => nomatch hrmid
  · rw [if_neg hzero]
    refine h.put hlive hout (not_inside_of .semLock rfl (by decide))
      (horder .semLock _ rfl (by decide)) ?_ ?_
    · exact fun hwaiting => nomatch hwaiting
    · exact fun hrmid => nomatch hrmid

/-- The parent goes on after the child has ended. -/
theorem Inv.waitpid (h : Inv counts entries st) (hplace : (st.procs p).place = .waitpid)
    (hended : (st.procs .child).place = .ended) :
    Inv counts entries (st.put p { st.procs p with place := .rmid }) := by
  have hlive : (st.procs p).place ≠ .ended := by
    rw [hplace]
    decide
  refine h.put hlive (not_inside_of .waitpid hplace (by decide))
    (not_inside_of .rmid rfl (by decide)) ?_ ?_ ?_
  · refine (h.order p).congr rfl ?_
    simp only [Locals.begun, hplace, reduceCtorEq]
  · exact fun hwaiting => nomatch hwaiting
  · exact fun _ => ⟨h.reaping p hplace, hended⟩

/-- With the entry in the buffer, the process has written nothing of it. -/
theorem Inv.sprintf (h : Inv counts entries st) (hplace : (st.procs p).place = .sprintf) :
    Inv counts entries (st.put p ((st.procs p).sprintf p)) := by
  refine h.work (l := (st.procs p).sprintf p) (.inl hplace) (.inr (.inl rfl)) rfl rfl rfl
    fun hheld => ?_
  have hcommon := hheld.common
  have hstdout := hheld.stdout
  -- Nothing of the new entry is in the logs so far.
  rw [Locals.inFile, hplace] at hcommon
  rw [Locals.onStdout, hplace] at hstdout
  refine ⟨?_, ?_, ?_⟩
  · rw [put_self]
    exact fun _ => rfl
  · rw [put_self]
    exact hcommon
  · rw [put_self]
    exact hstdout

theorem Inv.writeFd (h : Inv counts entries st) (hplace : (st.procs p).place = .writeFd) :
    Inv counts entries (st.writeFd p) := by
  refine h.work (l := { st.procs p with place := .writeStdout }) (.inr (.inl hplace))
    (.inr (.inr (.inl rfl))) rfl rfl rfl fun hheld => ?_
  have hbuf := hheld.buf (by rw [hplace]; decide)
  have hcommon := hheld.common
  have hstdout := hheld.stdout
  rw [Locals.inFile, hplace] at hcommon
  rw [Locals.onStdout, hplace] at hstdout
  have hself : (st.writeFd p).procs p = { st.procs p with place := .writeStdout } := put_self ..
  refine ⟨?_, ?_, ?_⟩
  · rw [hself]
    exact fun _ => hbuf
  · rw [hself]
    -- In the file it is, on standard output it is not.
    change st.common ++ (st.procs p).buf = _
    rw [hcommon]
    exact congrArg (· ++ (st.procs p).buf) (List.append_nil _)
  · rw [hself]
    exact hstdout

theorem Inv.writeStdout (h : Inv counts entries st) (hplace : (st.procs p).place = .writeStdout) :
    Inv counts entries (st.writeStdout p) := by
  refine h.work (l := { st.procs p with place := .semUnlock }) (.inr (.inr (.inl hplace)))
    (.inr (.inr (.inr rfl))) rfl rfl rfl fun hheld => ?_
  have hbuf := hheld.buf (by rw [hplace]; decide)
  have hcommon := hheld.common
  have hstdout := hheld.stdout
  rw [Locals.inFile, hplace] at hcommon
  rw [Locals.onStdout, hplace] at hstdout
  have hself : (st.writeStdout p).procs p = { st.procs p with place := .semUnlock } := put_self ..
  refine ⟨?_, ?_, ?_⟩
  · rw [hself]
    exact fun _ => hbuf
  · rw [hself]
    exact hcommon
  · rw [hself]
    -- Now it is on both.
    change st.stdout ++ (st.procs p).buf = _
    rw [hstdout]
    exact congrArg (· ++ (st.procs p).buf) (List.append_nil _)

/-- A step keeps the invariant, with one more entry if it is an `unlock`. The
    semaphore is there, so `semop` does not fail. -/
theorem inv_step {maxSleepTime : Int32} {t : Turn} (h : Inv counts entries st)
    (hstep : step maxSleepTime st t = some st') : ∃ entries', Inv counts entries' st' := by
  rcases t with ⟨p, rand⟩
  unfold step at hstep
  dsimp only at hstep
  cases hplace : (st.procs p).place with
  | whileTest =>
      rw [hplace, Option.some.injEq] at hstep
      rw [← hstep]
      exact ⟨entries, h.whileTest hplace⟩
  | sleep =>
      rw [hplace] at hstep
      dsimp only at hstep
      by_cases hrand : 0 ≤ rand
      · rw [if_pos hrand, Option.some.injEq] at hstep
        rw [← hstep]
        exact ⟨entries, h.sleep maxSleepTime rand hplace⟩
      · rw [if_neg hrand] at hstep
        cases hstep
  | semLock =>
      rw [hplace] at hstep
      rcases h.exists_sem (p := p) (by rw [hplace]; decide) with ⟨value, hsem⟩
      -- With the semaphore there, `semop` waits for it and does not fail.
      simp only [State.semLock, hsem, Option.map_eq_some_iff] at hstep
      rcases hstep with ⟨value', hwait, hst'⟩
      rw [← hst']
      exact ⟨entries, h.enter hplace hsem hwait⟩
  | sprintf =>
      rw [hplace, Option.some.injEq] at hstep
      rw [← hstep]
      exact ⟨entries, h.sprintf hplace⟩
  | writeFd =>
      rw [hplace, Option.some.injEq] at hstep
      rw [← hstep]
      exact ⟨entries, h.writeFd hplace⟩
  | writeStdout =>
      rw [hplace, Option.some.injEq] at hstep
      rw [← hstep]
      exact ⟨entries, h.writeStdout hplace⟩
  | semUnlock =>
      rw [hplace, Option.some.injEq] at hstep
      rcases h.exists_sem (p := p) (by rw [hplace]; decide) with ⟨value, hsem⟩
      rw [← hstep]
      -- This is the call that adds an entry.
      exact ⟨_, h.leave hplace hsem⟩
  | waitpid =>
      rw [hplace] at hstep
      dsimp only [State.waitpid] at hstep
      -- The wait is over when the child has ended.
      by_cases hended : (st.procs .child).place = .ended
      · rw [if_pos hended, Option.some.injEq] at hstep
        rw [← hstep]
        exact ⟨entries, h.waitpid hplace hended⟩
      · rw [if_neg hended] at hstep
        cases hstep
  | rmid =>
      rw [hplace, Option.some.injEq] at hstep
      rcases h.exists_sem (p := p) (by rw [hplace]; decide) with ⟨value, hsem⟩
      rw [← hstep]
      exact ⟨entries, h.rmid hplace hsem⟩
  | ended =>
      rw [hplace] at hstep
      cases hstep

theorem inv_start (counts : Process → Int32) (buf : Bytes) : Inv counts [] (start counts buf) where
  order p := ⟨rfl, rfl⟩
  guarded value hsem := by
    rw [start, Option.some.injEq] at hsem
    rw [← hsem]
    exact .free (fun p => not_inside_of .whileTest rfl (by decide)) ⟨rfl, rfl⟩
  removed hsem := nomatch hsem
  reaping p hwaiting := nomatch hwaiting
  reaped p hrmid := nomatch hrmid

/-- What the semaphore is for. Nobody is inside together with another. The
    semaphore is removed only after the child has ended. And with nobody inside
    both logs are the same whole entries, those of each process from all its
    turns so far, in order. -/
structure Agrees (counts : Process → Int32) (st : State) : Prop where
  exclusive : ∀ p q, (st.procs p).Inside → (st.procs q).Inside → p = q
  removed : st.sem = none → (st.procs .child).place = .ended
  logs : (∀ p, ¬ (st.procs p).Inside) → ∃ entries, st.common = written entries ∧
    st.stdout = written entries ∧ ∀ p, InOrder (counts p) (turns p entries) (st.procs p)

theorem Inv.agrees (h : Inv counts entries st) : Agrees counts st where
  exclusive p q hp hq := by
    rcases h.exists_sem (not_ended_of_inside hp) with ⟨value, hsem⟩
    exact (h.guarded value hsem).unique hp hq
  removed hsem := (h.removed hsem).2 .child
  logs hout := by
    have hagreed : Agreed entries st := by
      cases hsem : st.sem with
      | none => exact (h.removed hsem).1
      | some value => exact (h.guarded value hsem).free_of_out hout
    exact ⟨entries, hagreed.common, hagreed.stdout, h.order⟩

/-- For all numbers of entries, times and interleavings. -/
theorem agrees_of_reaches {maxSleepTime : Int32} {buf : Bytes}
    (hreaches : Reaches (step maxSleepTime) (start counts buf) st) : Agrees counts st := by
  have hinv : ∃ entries, Inv counts entries st :=
    reaches_invariant (I := fun st => ∃ entries, Inv counts entries st)
      (fun _ _ _ ⟨_, h⟩ hstep => inv_step h hstep) ⟨[], inv_start counts buf⟩ hreaches
  rcases hinv with ⟨entries, h⟩
  exact h.agrees

/-- One entry each, the child's first, and the semaphore removed. -/
theorem agrees_one_each :
    ∃ st, Reaches (step 3) (start (fun _ => 1) []) st ∧ Agrees (fun _ => 1) st ∧ st.sem = none ∧
      st.common = text "Wpis dziecka. Petla 0. Spalem 3\nWpis rodzica. Petla 0. Spalem 1\n" := by
  have hrun : (exec (step 3) (start (fun _ => 1) [])
      [⟨.parent, 0⟩, ⟨.child, 0⟩, ⟨.child, 5⟩, ⟨.parent, 6⟩, ⟨.child, 0⟩, ⟨.child, 0⟩, ⟨.child, 0⟩,
        ⟨.child, 0⟩, ⟨.child, 0⟩, ⟨.parent, 0⟩, ⟨.parent, 0⟩, ⟨.parent, 0⟩, ⟨.parent, 0⟩,
        ⟨.parent, 0⟩, ⟨.parent, 0⟩, ⟨.child, 0⟩, ⟨.parent, 0⟩, ⟨.parent, 0⟩]).any
      (fun st => decide (st.sem = none ∧ st.common
        = text "Wpis dziecka. Petla 0. Spalem 3\nWpis rodzica. Petla 0. Spalem 1\n")) = true := by
    decide +kernel
  rcases exists_of_exec_any hrun with ⟨st, hst, htest⟩
  have hreaches : Reaches (step 3) (start (fun _ => 1) []) st := ⟨_, hst⟩
  exact ⟨st, hreaches, agrees_of_reaches hreaches, of_decide_eq_true htest⟩

end Semafor

end OsLabs
