import OsLabs.Library.Completion
import OsLabs.Semafor.Agreement

/-!
# All Entries Are Written

`Funkcje/Semafor SysV/main.c`, from the `fork` to its end. A process leaves its
loop when the counter is zero at the test, so one that was told to write `n`
entries writes `n` of them, numbered from `n - 1` down to zero. A negative
number would count down to the smallest one and beyond it, which C leaves
undefined.

There are two places to wait at. At `semop` a process waits for the other to
come out, and who is inside never waits for anybody. At `waitpid` the parent
waits for a child that waits for nobody else. So one of the two can always go
on, until both have ended.

## Main definitions

* `Call`: What the next call of a process does.
* `AfterLoop`: A process has left its loop.
* `Counted`: How the counter and the entries that are written add up.
* `rank`: How many calls are still to come, at most.
* `Finished`: Both have ended, and both logs are complete.

## Theorems

* `call_of_step`: What a step does, as long as the semaphore guards the logs.
* `inv_call`: The invariant, with the entries counted.
* `rank_lt_of_call`: Every call brings the end nearer.
* `ended_of_stuck`: There is no deadlock.
* `completes_of_counts`: The program ends, with all entries written.
-/

namespace OsLabs

namespace Semafor

open Machine

/-- What the next call of a process does, with the semaphore in place. -/
inductive Call (maxSleepTime : Int32) (st : State) (p : Process) : State → Prop where
  | whileTest (hplace : (st.procs p).place = .whileTest) :
      Call maxSleepTime st p (st.put p ((st.procs p).whileTest p))
  | sleep (rand : Int32) (hplace : (st.procs p).place = .sleep) :
      Call maxSleepTime st p (st.put p ((st.procs p).sleep maxSleepTime rand))
  | semLock {value value' : Nat} (hplace : (st.procs p).place = .semLock)
      (hsem : st.sem = some value) (hwait : semWait value = some value') :
      Call maxSleepTime st p
        { st.put p { st.procs p with place := .sprintf } with sem := some value' }
  | sprintf (hplace : (st.procs p).place = .sprintf) :
      Call maxSleepTime st p (st.put p ((st.procs p).sprintf p))
  | writeFd (hplace : (st.procs p).place = .writeFd) : Call maxSleepTime st p (st.writeFd p)
  | writeStdout (hplace : (st.procs p).place = .writeStdout) :
      Call maxSleepTime st p (st.writeStdout p)
  | semUnlock {value : Nat} (hplace : (st.procs p).place = .semUnlock)
      (hsem : st.sem = some value) : Call maxSleepTime st p (st.semUnlock p)
  | waitpid (hplace : (st.procs p).place = .waitpid)
      (hended : (st.procs .child).place = .ended) :
      Call maxSleepTime st p (st.put p { st.procs p with place := .rmid })
  | rmid {value : Nat} (hplace : (st.procs p).place = .rmid) (hsem : st.sem = some value) :
      Call maxSleepTime st p (st.rmid p)

/-- A process has left its loop. -/
def Place.AfterLoop (place : Place) : Prop :=
  place = .waitpid ∨ place = .rmid ∨ place = .ended

instance (place : Place) : Decidable place.AfterLoop :=
  inferInstanceAs (Decidable (_ ∨ _ ∨ _))

/-- How the counter of a process and the entries that it has written add up. It
    is negative after the loop and not before. -/
structure Locals.Counted (count : Int32) (written : Nat) (l : Locals) : Prop where
  total : l.counter.toInt + written + l.begun = count.toInt
  looping : ¬ l.place.AfterLoop → 0 ≤ l.counter.toInt
  left : l.place.AfterLoop → l.counter.toInt = -1

/-- Both processes count, and the parent removes the semaphore before it ends. -/
structure Counted (counts : Process → Int32) (entries : List Entry) (st : State) : Prop where
  procs : ∀ p, (st.procs p).Counted (counts p) (turns p entries).length
  removed : (st.procs .parent).place = .ended → st.sem = none

/-- How many calls are still to come if no further turn begins, at most. -/
def Place.rank : Place → Nat
  | .whileTest => 3
  | .sleep => 9
  | .semLock => 8
  | .sprintf => 7
  | .writeFd => 6
  | .writeStdout => 5
  | .semUnlock => 4
  | .waitpid => 2
  | .rmid => 1
  | .ended => 0

/-- A turn of the loop has seven calls. -/
def Locals.rank (l : Locals) : Nat := 7 * l.counter.toInt.toNat + l.place.rank

def State.rank (st : State) : Nat := (st.procs .parent).rank + (st.procs .child).rank

/-- Both have ended, the semaphore is removed, and both logs are the same
    entries: those of each process are as many as it was told to write, and
    numbered downwards to zero. -/
structure Finished (counts : Process → Int32) (st : State) : Prop where
  ended : ∀ p, (st.procs p).place = .ended
  removed : st.sem = none
  logs : ∃ entries, st.common = written entries ∧ st.stdout = written entries ∧
    ∀ p, (turns p entries).map Int32.toInt =
      ((List.range (counts p).toInt.toNat).map Int.ofNat).reverse

variable {counts : Process → Int32} {entries : List Entry} {st st' : State} {p : Process}
  {l : Locals} {maxSleepTime : Int32}

section Calls

/-- The semaphore is there for those who have not ended, so a process is let in
    by it and by nothing else. -/
theorem call_of_step {t : Turn} (h : Inv counts entries st)
    (hstep : step maxSleepTime st t = some st') : Call maxSleepTime st t.who st' := by
  rcases t with ⟨p, rand⟩
  unfold step at hstep
  dsimp only at hstep ⊢
  cases hplace : (st.procs p).place with
  | whileTest =>
      rw [hplace, Option.some.injEq] at hstep
      rw [← hstep]
      exact .whileTest hplace
  | sleep =>
      rw [hplace] at hstep
      rcases Option.ite_none_right_eq_some.mp hstep with ⟨_, hst'⟩
      rw [← Option.some.inj hst']
      exact .sleep rand hplace
  | semLock =>
      rw [hplace] at hstep
      -- A process that has not ended finds the semaphore, so it is let in or waits.
      rcases h.exists_sem (p := p) (by rw [hplace]; decide) with ⟨value, hsem⟩
      simp only [State.semLock, hsem, Option.map_eq_some_iff] at hstep
      rcases hstep with ⟨value', hwait, hst'⟩
      rw [← hst']
      exact .semLock hplace hsem hwait
  | sprintf =>
      rw [hplace, Option.some.injEq] at hstep
      rw [← hstep]
      exact .sprintf hplace
  | writeFd =>
      rw [hplace, Option.some.injEq] at hstep
      rw [← hstep]
      exact .writeFd hplace
  | writeStdout =>
      rw [hplace, Option.some.injEq] at hstep
      rw [← hstep]
      exact .writeStdout hplace
  | semUnlock =>
      rw [hplace, Option.some.injEq] at hstep
      rcases h.exists_sem (p := p) (by rw [hplace]; decide) with ⟨value, hsem⟩
      rw [← hstep]
      exact .semUnlock hplace hsem
  | waitpid =>
      rw [hplace] at hstep
      rcases Option.ite_none_right_eq_some.mp hstep with ⟨hended, hst'⟩
      rw [← Option.some.inj hst']
      exact .waitpid hplace hended
  | rmid =>
      rw [hplace, Option.some.injEq] at hstep
      rcases h.exists_sem (p := p) (by rw [hplace]; decide) with ⟨value, hsem⟩
      rw [← hstep]
      exact .rmid hplace hsem
  | ended =>
      rw [hplace] at hstep
      cases hstep

end Calls

section Counting

theorem toInt_sub_one {c : Int32} (h : 0 ≤ c.toInt) : (c - 1).toInt = c.toInt - 1 := by
  have hlt := c.toInt_lt
  have hone : (1 : Int32).toInt = 1 := by decide
  rw [Int32.toInt_sub, hone, Int.bmod_eq_of_le (by omega) (by omega)]

/-- What is counted is the same throughout a turn. -/
theorem Locals.Counted.congr {count : Int32} {n : Nat} {l' : Locals} (h : l.Counted count n)
    (hcounter : l'.counter = l.counter) (hbegun : l'.begun = l.begun)
    (hafter : l'.place.AfterLoop ↔ l.place.AfterLoop) : l'.Counted count n where
  total := by
    rw [hcounter, hbegun]
    exact h.total
  looping hin := by
    rw [hcounter]
    exact h.looping fun hout => hin (hafter.mpr hout)
  left hout := by
    rw [hcounter]
    exact h.left (hafter.mp hout)

theorem afterLoop_whileTest : (l.whileTest p).place.AfterLoop ↔ l.counter = 0 := by
  change Place.AfterLoop (if l.counter = 0 then p.afterLoop else .sleep) ↔ _
  by_cases hzero : l.counter = 0
  · rw [if_pos hzero]
    refine iff_of_true ?_ hzero
    cases p <;> decide
  · rw [if_neg hzero]
    exact iff_of_false (by decide) hzero

/-- The test begins a turn with the counter lowered, or it leaves the loop with
    the counter below zero. -/
theorem Locals.Counted.whileTest {count : Int32} {n : Nat} (h : l.Counted count n)
    (hplace : l.place = .whileTest) : (l.whileTest p).Counted count n := by
  have hin : ¬ l.place.AfterLoop := by
    rw [hplace]
    decide
  have hcounter : (l.whileTest p).counter.toInt = l.counter.toInt - 1 :=
    -- The counter is not negative in the loop, so lowering it does not wrap around.
    toInt_sub_one (h.looping hin)
  have hbegun : (l.whileTest p).begun = 1 := by
    rw [Locals.begun, if_neg]
    rcases place_whileTest p l with h | ⟨_, h⟩ | ⟨_, h⟩ <;> rw [h] <;> decide
  have htotal := h.total
  rw [Locals.begun, if_pos hplace] at htotal
  -- What was told is the entries written, the turn begun, and what the counter has left.
  refine ⟨?_, ?_, ?_⟩
  · rw [hcounter, hbegun]
    omega
  · -- The loop goes on, so the counter was not zero.
    intro hnext
    have hpos := h.looping hin
    have hne : l.counter.toInt ≠ 0 :=
      fun heq => hnext (afterLoop_whileTest.mpr (Int32.toInt_inj.mp heq))
    rw [hcounter]
    omega
  · intro hnext
    -- It has left the loop with the counter at zero, and lowered once more.
    rw [hcounter, afterLoop_whileTest.mp hnext]
    decide

/-- A process goes on, with the semaphore there. -/
theorem Counted.put (h : Counted counts entries st) {value : Nat} (hsem : st.sem = some value)
    (hl : l.Counted (counts p) (turns p entries).length)
    (hend : p = .parent → l.place = .ended → st'.sem = none)
    (hprocs : st'.procs = (st.put p l).procs) : Counted counts entries st' where
  procs := by
    rw [hprocs]
    exact forall_put (P := fun q l => l.Counted (counts q) (turns q entries).length) hl
      fun q _ => h.procs q
  removed := by
    rw [hprocs]
    -- The parent removes the semaphore as the last of all, and it is still there.
    by_cases hp : Process.parent = p
    · rw [← hp, put_self]
      exact hend hp.symm
    · rw [put_of_ne st l hp]
      intro hended
      rw [h.removed hended] at hsem
      cases hsem

/-- With its entry written a process has begun no turn. -/
theorem Counted.leave (h : Counted counts entries st) {value : Nat} (hsem : st.sem = some value)
    (hplace : (st.procs p).place = .semUnlock) :
    Counted counts (entries ++ [(st.procs p).entry p]) (st.semUnlock p) where
  procs q := by
    refine forall_put (P := fun q l => l.Counted (counts q)
      (turns q (entries ++ [(st.procs p).entry p])).length) ?_ (fun q hq => ?_) q
    · have hold := h.procs p
      have hin : ¬ (st.procs p).place.AfterLoop := by
        rw [hplace]
        decide
      have htotal := hold.total
      rw [Locals.begun, hplace, if_neg (by decide)] at htotal
      have hloop : ¬ Place.AfterLoop .whileTest := by decide
      -- The turn that was begun is an entry now.
      refine ⟨?_, fun _ => hold.looping hin, fun hout => absurd hout hloop⟩
      rw [turns_concat, List.length_append, List.length_singleton, Locals.begun, if_pos rfl]
      dsimp only
      omega
    -- The other process has written nothing.
    · rw [turns_concat_of_ne entries _ hq]
      exact h.procs q
  removed hended := by
    by_cases hp : Process.parent = p
    · have hself : (st.semUnlock p).procs p = { st.procs p with place := .whileTest } :=
        put_self ..
      rw [hp, hself] at hended
      cases hended
    -- If the parent had ended, there would be no semaphore to unlock.
    · have hother : (st.semUnlock p).procs .parent = st.procs .parent := put_of_ne st _ hp
      rw [hother] at hended
      rw [h.removed hended] at hsem
      cases hsem

/-- A process that goes on within its turn, or after its loop. -/
theorem Counted.stay (h : Counted counts entries st) {value : Nat} (hsem : st.sem = some value)
    (place place' : Place) (hplace : (st.procs p).place = place) (hplace' : l.place = place')
    (hcounter : l.counter = (st.procs p).counter) (hwhile : place ≠ .whileTest)
    (hwhile' : place' ≠ .whileTest) (hafter : place'.AfterLoop ↔ place.AfterLoop)
    (hend : p = .parent → l.place = .ended → st'.sem = none)
    (hprocs : st'.procs = (st.put p l).procs) : Counted counts entries st' := by
  refine h.put hsem ((h.procs p).congr hcounter ?_ ?_) hend hprocs
  · rw [Locals.begun, Locals.begun, hplace, hplace', if_neg hwhile, if_neg hwhile']
  · rw [hplace, hplace']
    exact hafter

/-- The invariant, with the entries counted. -/
theorem inv_call (hmax : maxSleepTime ≠ 0) (h : Inv counts entries st)
    (hcounted : Counted counts entries st) (hcall : Call maxSleepTime st p st') :
    ∃ entries', Inv counts entries' st' ∧ Counted counts entries' st' := by
  have hlive : ∀ place, (st.procs p).place = place → place ≠ .ended →
      ∃ value, st.sem = some value := by
    intro place hplace hne
    rw [← hplace] at hne
    exact h.exists_sem hne
  cases hcall with
  | whileTest hplace =>
      rcases hlive _ hplace (by decide) with ⟨value, hsem⟩
      refine ⟨entries, h.whileTest hplace,
        hcounted.put hsem ((hcounted.procs p).whileTest hplace) ?_ rfl⟩
      -- The parent goes from the loop to `waitpid`.
      rintro rfl hended
      rcases place_whileTest .parent (st.procs .parent) with hnext | ⟨_, hnext⟩ | ⟨hchild, _⟩
      · exact nomatch hnext.symm.trans hended
      · exact nomatch hnext.symm.trans hended
      · cases hchild
  | sleep rand hplace =>
      rcases hlive _ hplace (by decide) with ⟨value, hsem⟩
      -- A remainder there is, so the sleep does not end the process.
      have hsleep : (st.procs p).sleep maxSleepTime rand =
          { st.procs p with s := rand % maxSleepTime + 1, place := .semLock } := if_neg hmax
      refine ⟨entries, h.sleep maxSleepTime rand hplace, ?_⟩
      rw [hsleep]
      exact hcounted.stay hsem .sleep .semLock hplace
        (l := { st.procs p with s := rand % maxSleepTime + 1, place := .semLock }) rfl rfl
        (by decide) (by decide) (by decide) (fun _ hended => nomatch hended) rfl
  | semLock hplace hsem hwait =>
      exact ⟨entries, h.enter hplace hsem hwait, hcounted.stay hsem .semLock .sprintf hplace
        (l := { st.procs p with place := .sprintf }) rfl rfl (by decide) (by decide) (by decide)
        (fun _ hended => nomatch hended) rfl⟩
  | sprintf hplace =>
      rcases hlive _ hplace (by decide) with ⟨value, hsem⟩
      exact ⟨entries, h.sprintf hplace, hcounted.stay hsem .sprintf .writeFd hplace
        (l := (st.procs p).sprintf p) rfl rfl (by decide) (by decide) (by decide)
        (fun _ hended => nomatch hended) rfl⟩
  | writeFd hplace =>
      rcases hlive _ hplace (by decide) with ⟨value, hsem⟩
      exact ⟨entries, h.writeFd hplace, hcounted.stay hsem .writeFd .writeStdout hplace
        (l := { st.procs p with place := .writeStdout }) rfl rfl (by decide) (by decide) (by decide)
        (fun _ hended => nomatch hended) rfl⟩
  | writeStdout hplace =>
      rcases hlive _ hplace (by decide) with ⟨value, hsem⟩
      exact ⟨entries, h.writeStdout hplace, hcounted.stay hsem .writeStdout .semUnlock hplace
        (l := { st.procs p with place := .semUnlock }) rfl rfl (by decide) (by decide) (by decide)
        (fun _ hended => nomatch hended) rfl⟩
  -- Only here an entry is added.
  | semUnlock hplace hsem => exact ⟨_, h.leave hplace hsem, hcounted.leave hsem hplace⟩
  | waitpid hplace hended =>
      rcases hlive _ hplace (by decide) with ⟨value, hsem⟩
      exact ⟨entries, h.waitpid hplace hended, hcounted.stay hsem .waitpid .rmid hplace
        (l := { st.procs p with place := .rmid }) rfl rfl (by decide) (by decide) (by decide)
        (fun _ hend => nomatch hend) rfl⟩
  | rmid hplace hsem =>
      exact ⟨entries, h.rmid hplace hsem, hcounted.stay hsem .rmid .ended hplace
        (l := { st.procs p with place := .ended }) rfl rfl (by decide) (by decide) (by decide)
        -- With the last call of the parent the semaphore is gone.
        (fun _ _ => rfl) rfl⟩

end Counting

section Ending

theorem rank_put (hprocs : st'.procs = (st.put p l).procs) (hl : l.rank < (st.procs p).rank) :
    st'.rank < st.rank := by
  have hself : st'.procs p = l := by
    rw [hprocs, put_self]
  have hother : ∀ q, q ≠ p → st'.procs q = st.procs q := by
    intro q hq
    rw [hprocs, put_of_ne st l hq]
  unfold State.rank
  cases p with
  | parent =>
      rw [hself, hother .child (by decide)]
      omega
  | child =>
      rw [hself, hother .parent (by decide)]
      omega

/-- A call that leaves the counter alone. -/
theorem rank_stay (place place' : Place) (hplace : (st.procs p).place = place)
    (hplace' : l.place = place') (hcounter : l.counter = (st.procs p).counter)
    (hlt : place'.rank < place.rank) (hprocs : st'.procs = (st.put p l).procs) :
    st'.rank < st.rank := by
  refine rank_put hprocs ?_
  rw [Locals.rank, Locals.rank, hplace, hplace', hcounter]
  omega

/-- The test pays for the calls of a turn with one from the counter. -/
theorem rank_whileTest {count : Int32} {n : Nat} (hcounted : l.Counted count n)
    (hplace : l.place = .whileTest) : (l.whileTest p).rank < l.rank := by
  have hin : ¬ l.place.AfterLoop := by
    rw [hplace]
    decide
  have hnonneg := hcounted.looping hin
  have hcounter : (l.whileTest p).counter.toInt = l.counter.toInt - 1 := toInt_sub_one hnonneg
  have hwhile : Place.whileTest.rank = 3 := rfl
  rw [Locals.rank, Locals.rank, hcounter, hplace, hwhile]
  -- Nine calls of the next turn at most, against the seven of the counter and three for the test.
  by_cases hzero : l.counter = 0
  · have hplace' : (l.whileTest p).place = p.afterLoop := if_pos hzero
    have hafter : p.afterLoop.rank ≤ 2 := by
      cases p <;> decide
    rw [hplace']
    omega
  · have hplace' : (l.whileTest p).place = .sleep := if_neg hzero
    have hsleep : Place.sleep.rank = 9 := rfl
    have hne : l.counter.toInt ≠ 0 := fun heq => hzero (Int32.toInt_inj.mp heq)
    rw [hplace', hsleep]
    omega

/-- Every call brings the end nearer. -/
theorem rank_lt_of_call (hmax : maxSleepTime ≠ 0) (hcounted : Counted counts entries st)
    (hcall : Call maxSleepTime st p st') : st'.rank < st.rank := by
  cases hcall with
  | whileTest hplace => exact rank_put rfl (rank_whileTest (hcounted.procs p) hplace)
  | sleep rand hplace =>
      -- As for the invariant, the process does not end here.
      have hsleep : (st.procs p).sleep maxSleepTime rand =
          { st.procs p with s := rand % maxSleepTime + 1, place := .semLock } := if_neg hmax
      rw [hsleep]
      exact rank_stay .sleep .semLock hplace
        (l := { st.procs p with s := rand % maxSleepTime + 1, place := .semLock }) rfl rfl
        (by decide) rfl
  | semLock hplace _ _ =>
      exact rank_stay .semLock .sprintf hplace (l := { st.procs p with place := .sprintf }) rfl rfl
        (by decide) rfl
  | sprintf hplace =>
      exact rank_stay .sprintf .writeFd hplace (l := (st.procs p).sprintf p) rfl rfl (by decide) rfl
  | writeFd hplace =>
      exact rank_stay .writeFd .writeStdout hplace (l := { st.procs p with place := .writeStdout })
        rfl rfl (by decide) rfl
  | writeStdout hplace =>
      exact rank_stay .writeStdout .semUnlock hplace
        (l := { st.procs p with place := .semUnlock }) rfl rfl (by decide) rfl
  | semUnlock hplace _ =>
      exact rank_stay .semUnlock .whileTest hplace
        (l := { st.procs p with place := .whileTest }) rfl rfl (by decide) rfl
  | waitpid hplace _ =>
      exact rank_stay .waitpid .rmid hplace (l := { st.procs p with place := .rmid }) rfl rfl
        (by decide) rfl
  | rmid hplace _ =>
      exact rank_stay .rmid .ended hplace (l := { st.procs p with place := .ended }) rfl rfl
        (by decide) rfl

/-- Nobody is inside where nobody can go on. -/
theorem not_inside_of_stuck (hstuck : Stuck (step maxSleepTime) st) (p : Process) :
    ¬ (st.procs p).Inside := by
  have hnone := hstuck ⟨p, 0⟩
  unfold step at hnone
  dsimp only at hnone
  rintro (h | h | h | h) <;> rw [h] at hnone <;> cases hnone

/-- With nobody inside, only `waitpid` keeps a process from going on. -/
theorem waiting_of_stuck (h : Inv counts entries st) (hstuck : Stuck (step maxSleepTime) st)
    (p : Process) : (st.procs p).place = .ended ∨
      (st.procs p).place = .waitpid ∧ (st.procs .child).place ≠ .ended := by
  have hnone := hstuck ⟨p, 0⟩
  have hout := not_inside_of_stuck hstuck
  unfold step at hnone
  dsimp only at hnone
  cases hplace : (st.procs p).place with
  | ended => exact .inl rfl
  | waitpid =>
      -- It waits as long as the child has not ended.
      refine .inr ⟨rfl, fun hended => ?_⟩
      rw [hplace] at hnone
      dsimp only [State.waitpid] at hnone
      rw [if_pos hended] at hnone
      cases hnone
  | semLock =>
      -- The semaphore is free, so the process is let in.
      rw [hplace] at hnone
      rcases h.exists_sem (p := p) (by rw [hplace]; decide) with ⟨value, hsem⟩
      cases h.guarded value hsem with
      | free _ _ =>
          simp only [State.semLock, hsem] at hnone
          cases hnone
      | held q hin _ _ => exact absurd hin (hout q)
  | sprintf => exact absurd (.inl hplace) (hout p)
  | writeFd => exact absurd (.inr (.inl hplace)) (hout p)
  | writeStdout => exact absurd (.inr (.inr (.inl hplace))) (hout p)
  | semUnlock => exact absurd (.inr (.inr (.inr hplace))) (hout p)
  | sleep =>
      rw [hplace] at hnone
      dsimp only at hnone
      -- There is always a number that `rand` may return.
      rw [if_pos (by decide)] at hnone
      cases hnone
  | whileTest =>
      rw [hplace] at hnone
      cases hnone
  | rmid =>
      rw [hplace] at hnone
      cases hnone

/-- There is no deadlock: the child does not wait for the parent. -/
theorem ended_of_stuck (h : Inv counts entries st) (hstuck : Stuck (step maxSleepTime) st)
    (p : Process) : (st.procs p).place = .ended := by
  have hchild : (st.procs .child).place = .ended := by
    rcases waiting_of_stuck h hstuck .child with hended | ⟨hwait, _⟩
    · exact hended
    -- It is the parent that waits, so the child has ended.
    · cases h.reaping .child hwait
  rcases waiting_of_stuck h hstuck p with hended | ⟨_, hne⟩
  · exact hended
  · exact absurd hchild hne

/-- The counter in turn `k` of those that a process was told to do. -/
theorem toInt_down (count : Int32) {k : Nat} (hk : (k : Int) ≤ count.toInt) :
    (down count k).toInt = count.toInt - k := by
  induction k with
  | zero => exact (Int.sub_zero _).symm
  | succ k ih =>
      -- The counter before was at least one, so it has not wrapped around.
      have hprev := ih (by omega)
      rw [down_succ, toInt_sub_one (by omega), hprev]
      omega

/-- The numbers of the entries, from the last to zero. -/
theorem toInt_countdown (count : Int32) (hcount : 0 ≤ count.toInt) :
    (countdown count count.toInt.toNat).map Int32.toInt =
      ((List.range count.toInt.toNat).map Int.ofNat).reverse := by
  refine List.ext_getElem ?_ fun i hi _ => ?_
  · simp only [countdown, List.length_map, List.length_range, List.length_reverse]
  · simp only [countdown, List.length_map, List.length_range] at hi
    simp only [countdown, List.getElem_map, List.getElem_range, List.getElem_reverse,
      List.length_map, List.length_range]
    rw [toInt_down count (by omega)]
    simp only [Int.ofNat_eq_natCast]
    omega

theorem finished_of_stuck (h : Inv counts entries st) (hcounted : Counted counts entries st)
    (hcounts : ∀ p, 0 ≤ (counts p).toInt) (hstuck : Stuck (step maxSleepTime) st) :
    Finished counts st := by
  -- Both have ended, the parent last, so the semaphore is gone and the logs agree.
  have hended := ended_of_stuck h hstuck
  have hsem := hcounted.removed (hended .parent)
  have hagreed := (h.removed hsem).1
  refine ⟨hended, hsem, entries, hagreed.common, hagreed.stdout, fun p => ?_⟩
  -- The counter is below zero, so all turns that were asked for are done.
  have hlength : (turns p entries).length = (counts p).toInt.toNat := by
    have htotal := (hcounted.procs p).total
    have hleft := (hcounted.procs p).left (by rw [hended p]; decide)
    rw [Locals.begun, hended p, if_neg (by decide), hleft] at htotal
    omega
  rw [(h.order p).gapless, hlength]
  exact toInt_countdown _ (hcounts p)

theorem counted_start (buf : Bytes) (hcounts : ∀ p, 0 ≤ (counts p).toInt) :
    Counted counts [] (start counts buf) where
  procs p := by
    have hloop : ¬ Place.AfterLoop .whileTest := by decide
    refine ⟨?_, fun _ => hcounts p, fun hout => absurd hout hloop⟩
    simp only [start, turns, Locals.begun, List.filter_nil, List.map_nil, List.length_nil,
      if_true, Int.natCast_zero, Int.add_zero]
  removed hended := nomatch hended

/-- Under every schedule the program comes to its end, where both logs have all
    the entries that were asked for. -/
theorem completes_of_counts (buf : Bytes) (hmax : maxSleepTime ≠ 0)
    (hcounts : ∀ p, 0 ≤ (counts p).toInt) :
    Completes (step maxSleepTime) (start counts buf)
      (7 * ((counts .parent).toInt.toNat + (counts .child).toInt.toNat) + 6) (Finished counts) := by
  have hkeep : ∀ st t st', (∃ entries, Inv counts entries st ∧ Counted counts entries st) →
      step maxSleepTime st t = some st' →
      ∃ entries, Inv counts entries st' ∧ Counted counts entries st' :=
    fun _ _ _ ⟨_, h, hcounted⟩ hstep => inv_call hmax h hcounted (call_of_step h hstep)
  have hlower : ∀ st t st', (∃ entries, Inv counts entries st ∧ Counted counts entries st) →
      step maxSleepTime st t = some st' → st'.rank < st.rank :=
    fun _ _ _ ⟨_, h, hcounted⟩ hstep => rank_lt_of_call hmax hcounted (call_of_step h hstep)
  have hcompletes := completes_of_rank hkeep hlower
    (fun _ ⟨_, h, hcounted⟩ hstuck => finished_of_stuck h hcounted hcounts hstuck)
    ⟨[], inv_start counts buf, counted_start buf hcounts⟩
  have hrank : (start counts buf).rank =
      7 * ((counts .parent).toInt.toNat + (counts .child).toInt.toNat) + 6 := by
    -- Seven calls a turn, and three more for each of the two processes.
    change 7 * _ + 3 + (7 * _ + 3) = _
    dsimp only [start]
    omega
  rwa [hrank] at hcompletes

/-- Two entries each, on less than 35 calls. -/
theorem completes_two_each :
    Completes (step 3) (start (fun _ => 2) []) 34 (Finished fun _ => 2) :=
  completes_of_counts [] (by decide) fun _ => by decide

end Ending

end Semafor

end OsLabs
