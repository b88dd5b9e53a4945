import Mathlib.Algebra.BigOperators.Fin
import OsLabs.Integration.Threads
import OsLabs.Library.ForkJoin

/-!
# The Threads and Their Results

The `main` function of `cw09/assignment/main.c` with its threads. It starts
them, joins them in order, and adds up what they have left in `results`. A step
of a thread is a turn of its loop, or the write of its sum to its place. The
threads take their steps in any order, and the first may have ended before the
last is started.

No thread reads what another one writes, and each writes once, to a place of
its own. So what `main` finds there is what the functions compute, and the sum
that it prints is the sum over the rectangles in order, for any number of
threads and any schedule. The number of steps is known as well.

## Main definitions

* `Work`, `crew`: The threads.
* `Computes`: What a thread has come to.
* `Summed`: The program is through, and prints the sum.

## Theorems

* `steady_computes`: The threads do not disturb each other.
* `sum_turns`: Together they take a turn for each rectangle.
* `completes_of_accepted`: The program ends with the sum.
-/

namespace OsLabs

namespace Integration

namespace Joining

open ForkJoin Loop Machine

/-- A thread: in its loop, or after the write of its sum. -/
inductive Work where
  | running (l : Locals)
  | ended

def Work.ended? : Work → Bool
  | .running _ => false
  | .ended => true

/-- A turn of the loop of `thread_function`, or its end. -/
def threadStep (data : ThreadData) {k : ℕ} (i : Fin k) (results : Fin k → ℚ) :
    Work → Option ((Fin k → ℚ) × Work)
  | .running l =>
      if l.i < data.stop then some (results, .running (data.body l))
      else some (Function.update results i l.localSum, .ended)
  | .ended => none

/-- The steps of a thread, by what they do. -/
inductive Turn (data : ThreadData) {k : ℕ} (i : Fin k) (results : Fin k → ℚ) :
    Work → (Fin k → ℚ) → Work → Prop where
  | turn (l : Locals) (hlt : l.i < data.stop) :
      Turn data i results (.running l) results (.running (data.body l))
  | stop (l : Locals) (hge : ¬ l.i < data.stop) :
      Turn data i results (.running l) (Function.update results i l.localSum) .ended

theorem threadStep_turn {data : ThreadData} {k : ℕ} {i : Fin k} {results results' : Fin k → ℚ}
    {w w' : Work} (h : threadStep data i results w = some (results', w')) :
    Turn data i results w results' w' := by
  cases w with
  | ended => cases h
  | running l =>
      simp only [threadStep] at h
      split at h
      · rename_i hlt
        rcases Prod.mk.inj (Option.some.inj h) with ⟨rfl, rfl⟩
        exact .turn l hlt
      · rename_i hge
        rcases Prod.mk.inj (Option.some.inj h) with ⟨rfl, rfl⟩
        exact .stop l hge

/-- A thread that has not ended can go on. -/
theorem threadStep_isSome (data : ThreadData) {k : ℕ} (i : Fin k) (results : Fin k → ℚ)
    {w : Work} (h : w.ended? = false) : (threadStep data i results w).isSome = true := by
  cases w with
  | ended => cases h
  | running l =>
      simp only [threadStep]
      split
      · rfl
      · rfl

/-- The threads that `main` starts for `n` rectangles. -/
def crew (dx : ℚ) (k : ℕ) (n : ℤ) : Crew k (Fin k → ℚ) Work where
  enter := fun i => .running (threadData dx k n i).enter
  step := fun i => threadStep (threadData dx k n i) i
  ended := Work.ended?

/-- How far a thread has come, and what it has written when it is through. -/
def Computes (data : ThreadData) (result : ℚ) : Work → Prop
  | .running l => ∃ m, (∀ j < m, (data.body^[j] data.enter).i < data.stop) ∧
      data.body^[m] data.enter = l
  | .ended => data.threadFunction = Part.some result

/-- Every thread computes its part. -/
def Inv (dx : ℚ) {k : ℕ} (n : ℤ) (results : Fin k → ℚ) (threads : Fin k → Option Work) : Prop :=
  ∀ i w, threads i = some w → Computes (threadData dx k n i) (results i) w

section Steps

variable {dx : ℚ} {k : ℕ} {n : ℤ}

theorem computes_enter (data : ThreadData) (result : ℚ) :
    Computes data result (.running data.enter) :=
  ⟨0, fun j hj => absurd hj (Nat.not_lt_zero j), rfl⟩

theorem computes_turn {data : ThreadData} {result : ℚ} {l : Locals}
    (h : Computes data result (.running l)) (hlt : l.i < data.stop) :
    Computes data result (.running (data.body l)) := by
  rcases h with ⟨m, hbefore, hl⟩
  refine ⟨m + 1, fun j hj => ?_, ?_⟩
  · rcases Nat.lt_succ_iff_lt_or_eq.mp hj with hearlier | hnow
    · exact hbefore j hearlier
    · rw [hnow, hl]
      exact hlt
  · rw [Function.iterate_succ_apply', hl]

theorem computes_end {data : ThreadData} {result : ℚ} {l : Locals}
    (h : Computes data result (.running l)) (hge : ¬ l.i < data.stop) :
    Computes data l.localSum .ended := by
  rcases h with ⟨m, hbefore, hl⟩
  have hends : Ends (fun l : Locals => l.i < data.stop) data.body data.enter m :=
    ⟨hbefore, by rwa [hl]⟩
  rw [Computes, ThreadData.threadFunction, loop_eq_some hends, Part.map_some, hl]

/-- A thread that takes a step, among the others. -/
theorem inv_update {results results' : Fin k → ℚ} {threads : Fin k → Option Work} {i : Fin k}
    {w : Work} (h : Inv dx n results threads) (hothers : ∀ j, j ≠ i → results' j = results j)
    (hw : Computes (threadData dx k n i) (results' i) w) :
    Inv dx n results' (Function.update threads i (some w)) := by
  intro j w' hj
  by_cases hji : j = i
  · rw [hji, Function.update_self, Option.some.injEq] at hj
    rw [← hj, hji]
    exact hw
  · rw [Function.update_of_ne hji] at hj
    rw [hothers j hji]
    exact h j w' hj

/-- The threads do not disturb each other, and none waits. -/
theorem steady_computes : Steady (crew dx k n) (Inv dx n) where
  create := fun results threads i h _ => inv_update h (fun _ _ => rfl) (computes_enter _ _)
  work := by
    intro results threads i w results' w' h hthread _ hstep
    have hw := h i w hthread
    cases threadStep_turn hstep with
    | turn l hlt => exact inv_update h (fun _ _ => rfl) (computes_turn hw hlt)
    | stop l hge =>
        refine inv_update h (fun j hj => Function.update_of_ne hj ..) ?_
        rw [Function.update_self]
        exact computes_end hw hge
  progress := fun results threads i w _ hthread hended =>
    ⟨i, w, hthread, hended, threadStep_isSome _ i results hended⟩

/-- The steps that a thread has left: its turns and its end. -/
def rank (dx : ℚ) (k : ℕ) (n : ℤ) (i : Fin k) : Work → ℕ
  | .running l => ((threadData dx k n i).stop - l.i).toNat + 1
  | .ended => 0

theorem rank_step {i : Fin k} {results results' : Fin k → ℚ} {w w' : Work}
    (hstep : (crew dx k n).step i results w = some (results', w')) :
    rank dx k n i w' < rank dx k n i w := by
  cases threadStep_turn hstep with
  | turn l hlt =>
      simp only [rank, ThreadData.body]
      omega
  | stop l hge => exact Nat.succ_pos _

/-- Together the threads take a turn for each rectangle. -/
theorem sum_turns (dx : ℚ) (hn : 0 ≤ n) (hk : 1 ≤ k) :
    ∑ i : Fin k, ((threadData dx k n i).stop - (threadData dx k n i).start).toNat = n.toNat := by
  have hindices : (List.range k).flatMap (fun i => Int.range (threadData dx k n i).start
      (threadData dx k n i).stop) = Int.range 0 n := flatMap_indices hn hk
  have hlength := congrArg List.length hindices
  have hrange : ∀ a b, (Int.range a b).length = (b - a).toNat := fun a b => by
    rw [Int.range, List.length_map, List.length_range]
  rw [List.length_flatMap, hrange, Int.sub_zero] at hlength
  rw [Fin.sum_univ_def, ← hlength, ← List.map_coe_finRange_eq_range, List.map_map]
  simp only [hrange, Function.comp_def]

end Steps

/-- The threads have ended, and `main` adds up what they have left. -/
structure Summed (dx : ℚ) (k : ℕ) (n : ℤ) (s : State k (Fin k → ℚ) Work) : Prop where
  main : s.main = .joining k
  threads : ∀ i, s.threads i = some .ended
  total : (List.ofFn s.shared).foldl (· + ·) 0
    = ((Int.range 0 n).map fun i : ℤ => f (i * dx) * dx).sum

/-- What is left in `results` is what the functions compute. -/
theorem total_of_inv {dx : ℚ} {k : ℕ} {n : ℤ} {results : Fin k → ℚ}
    {threads : Fin k → Option Work} (h : Inv dx n results threads)
    (hended : ∀ i, threads i = some .ended) :
    total dx k n = Part.some ((List.ofFn results).foldl (· + ·) 0) := by
  have hresults : Integration.results dx k n = Part.some (List.ofFn results) := by
    have hg : List.ofFn results
        = (List.range k).map fun i => if hi : i < k then results ⟨i, hi⟩ else 0 := by
      rw [List.ofFn_eq_map, ← List.map_coe_finRange_eq_range, List.map_map]
      refine List.map_congr_left fun i _ => ?_
      rw [Function.comp_apply, dif_pos i.isLt]
    rw [Integration.results, hg]
    refine mapM_eq_some fun i hi => ?_
    rw [dif_pos (List.mem_range.mp hi)]
    exact h ⟨i, List.mem_range.mp hi⟩ .ended (hended _)
  rw [total, hresults, Part.map_some]

/-- For the arguments that `main` goes on with, every schedule ends with the
    sum over the rectangles in order. -/
theorem completes_of_accepted {dx : ℚ} {k : ℕ} (h : Accepted dx k) :
    Completes (step (crew dx k (numIntervals dx))) (start fun _ => 0)
      ((numIntervals dx).toNat + 3 * k + 1) (Summed dx k (numIntervals dx)) := by
  have hn : 0 ≤ numIntervals dx := by
    have hone := one_le_numIntervals h.pos h.le_one
    omega
  have hinit : Inv dx (numIntervals dx) (fun _ : Fin k => 0) (fun _ => none) := nofun
  have hcompletes := completes_of_steady steady_computes (fun _ _ _ _ _ => rank_step) hinit
  -- Every thread has one step for each of its rectangles and one to return.
  have hbound : (∑ i, rank dx k (numIntervals dx) i ((crew dx k (numIntervals dx)).enter i))
      + (2 * k + 1) = (numIntervals dx).toNat + 3 * k + 1 := by
    have hsum : ∀ i, rank dx k (numIntervals dx) i ((crew dx k (numIntervals dx)).enter i)
        = ((threadData dx k (numIntervals dx) i).stop
            - (threadData dx k (numIntervals dx) i).start).toNat + 1 := fun _ => rfl
    simp only [hsum]
    rw [Finset.sum_add_distrib, sum_turns dx hn h.threads, Finset.sum_const, Finset.card_univ,
      Fintype.card_fin, smul_eq_mul]
    omega
  rw [hbound] at hcompletes
  refine ⟨hcompletes.length_le, fun s hs hstuck => ?_⟩
  -- At the end all have been joined, and the sum is that over the results.
  rcases hcompletes.of_stuck s hs hstuck with ⟨hmain, hthreads, hinv⟩
  have hended : ∀ i, s.threads i = some .ended := by
    intro i
    rcases hthreads i with ⟨w, hthread, hw⟩
    cases w with
    | running l => cases hw
    | ended => exact hthread
  have htotal := total_of_inv hinv hended
  rw [total_eq hn h.threads] at htotal
  exact ⟨hmain, hended, (Part.some_inj.mp htotal).symm⟩

/-- Three threads add up five rectangles. -/
theorem completes_five_rectangles : Completes (step (crew (1 / 5) 3 (numIntervals (1 / 5))))
    (start fun _ => 0) ((numIntervals (1 / 5)).toNat + 3 * 3 + 1)
      (Summed (1 / 5) 3 (numIntervals (1 / 5))) :=
  completes_of_accepted ⟨by norm_num, by norm_num, by norm_num, by norm_num⟩

end Joining

end Integration

end OsLabs
