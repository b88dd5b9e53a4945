import OsLabs.Library.Slots

/-!
# Condition Variables

Threads that share a mutex, seen at the moments when nobody holds it. A
thread is where its program counter says, one of which stands for being
asleep on a condition variable and one for having been woken from it and not
yet having the mutex again.

`signal` wakes one sleeper, and which one is not the program's choice, so it
is an argument: a schedule chooses it, and a choice that is not a sleeper is
no schedule. With nobody asleep a signal is lost. `broadcast` wakes all. Both
move threads from one place to another and nowhere else, so a tally that does
not tell the two places apart does not notice.

## Main definitions

* `signal`: Waking the chosen sleeper, if there is one.
* `broadcast`: Waking every sleeper.

## Theorems

* `signal_cases`: Either a sleeper is woken or there was none.
* `exists_signal`: There is always a way to signal.
* `signal_apply`, `broadcast_apply`: What does not notice.
* `tally_signal`, `tally_broadcast`: Tallies that do not notice.
-/

namespace OsLabs

section CondVar

variable {ι τ : Type*} [Fintype ι] [DecidableEq ι] [DecidableEq τ]

/-- `pthread_cond_signal`: the chosen sleeper is woken; nobody may be chosen
    only when nobody sleeps. -/
def signal (asleep woken : τ) (chosen : Option ι) (threads : ι → τ) : Option (ι → τ) :=
  match chosen with
  | some i => if threads i = asleep then some (Function.update threads i woken) else none
  | none => if ∀ i, threads i ≠ asleep then some threads else none

omit [Fintype ι] [DecidableEq ι] in
/-- `pthread_cond_broadcast` -/
def broadcast (asleep woken : τ) (threads : ι → τ) (i : ι) : τ :=
  if threads i = asleep then woken else threads i

theorem signal_cases {asleep woken : τ} {chosen : Option ι} {threads threads' : ι → τ}
    (h : signal asleep woken chosen threads = some threads') :
    (∃ i, threads i = asleep ∧ threads' = Function.update threads i woken) ∨
      ((∀ i, threads i ≠ asleep) ∧ threads' = threads) := by
  cases chosen with
  | some i =>
      simp only [signal] at h
      by_cases hi : threads i = asleep
      · rw [if_pos hi, Option.some.injEq] at h
        exact Or.inl ⟨i, hi, h.symm⟩
      · rw [if_neg hi] at h
        exact absurd h (by simp only [reduceCtorEq, not_false_eq_true])
  | none =>
      simp only [signal] at h
      -- The schedule may choose nobody only if nobody sleeps.
      by_cases hnone : ∀ i, threads i ≠ asleep
      · rw [if_pos hnone, Option.some.injEq] at h
        exact Or.inr ⟨hnone, h.symm⟩
      · rw [if_neg hnone] at h
        exact absurd h (by simp only [reduceCtorEq, not_false_eq_true])

theorem exists_signal (asleep woken : τ) (threads : ι → τ) :
    ∃ chosen threads', signal asleep woken chosen threads = some threads' := by
  by_cases hnone : ∀ i, threads i ≠ asleep
  · exact ⟨none, threads, if_pos hnone⟩
  · have hsome : ∃ i, threads i = asleep := by
      by_contra hno
      exact hnone (fun i hi => hno ⟨i, hi⟩)
    rcases hsome with ⟨i, hi⟩
    exact ⟨some i, _, if_pos hi⟩

/-- What does not tell a sleeper from a woken thread does not notice a signal. -/
theorem signal_apply {β : Type*} {asleep woken : τ} {chosen : Option ι} {threads threads' : ι → τ}
    {p : τ → β} (hp : p woken = p asleep)
    (h : signal asleep woken chosen threads = some threads') (i : ι) :
    p (threads' i) = p (threads i) := by
  rcases signal_cases h with ⟨j, hj, hthreads⟩ | ⟨_, hthreads⟩
  · rw [hthreads]
    by_cases hij : i = j
    · rw [hij, Function.update_self, hp, hj]
    · rw [Function.update_of_ne hij]
  · rw [hthreads]

omit [Fintype ι] [DecidableEq ι] in
theorem broadcast_apply {β : Type*} {asleep woken : τ} {threads : ι → τ} {p : τ → β}
    (hp : p woken = p asleep) (i : ι) : p (broadcast asleep woken threads i) = p (threads i) := by
  unfold broadcast
  by_cases hi : threads i = asleep
  · rw [if_pos hi, hi, hp]
  · rw [if_neg hi]

theorem tally_signal {asleep woken : τ} {chosen : Option ι} {threads threads' : ι → τ}
    {p : τ → Bool} (hp : p woken = p asleep)
    (h : signal asleep woken chosen threads = some threads') :
    tally p threads' = tally p threads :=
  tally_congr (fun i => signal_apply hp h i)

omit [DecidableEq ι] in
theorem tally_broadcast {asleep woken : τ} {threads : ι → τ} {p : τ → Bool}
    (hp : p woken = p asleep) :
    tally p (broadcast asleep woken threads) = tally p threads :=
  tally_congr (fun i => broadcast_apply hp i)

omit [Fintype ι] [DecidableEq ι] in
/-- After a broadcast nobody sleeps. -/
theorem broadcast_ne {asleep woken : τ} (hne : woken ≠ asleep) (threads : ι → τ) (i : ι) :
    broadcast asleep woken threads i ≠ asleep := by
  unfold broadcast
  by_cases hi : threads i = asleep
  · rwa [if_pos hi]
  · rwa [if_neg hi]

omit [Fintype ι] [DecidableEq ι] in
theorem broadcast_of_ne {asleep woken place : τ} {threads : ι → τ} {i : ι} (hne : place ≠ woken)
    (hi : broadcast asleep woken threads i = place) : threads i = place := by
  unfold broadcast at hi
  by_cases hasleep : threads i = asleep
  · rw [if_pos hasleep] at hi
    exact absurd hi.symm hne
  · rwa [if_neg hasleep] at hi

end CondVar

end OsLabs
