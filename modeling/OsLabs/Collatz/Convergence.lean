import Mathlib.Algebra.Ring.Int.Parity
import Mathlib.Data.Int.Order.Basic
import OsLabs.Library.Loop

/-!
# The Collatz Test

`cw02/assignment/collatz.c`. `test_collatz_convergence` follows the trajectory
of a number into an array until it comes to 1 or the array is full, and returns
the number of steps, or 0. Numbers are unbounded here, and the array has a place
for every integer, so that a write outside it would be seen.

The counter is one ahead of the number of steps, and the two ways out of the
loop may be taken at once. Neither does any harm. What does is that 0 is a
number of steps too: it is the right one for 1, and the caller takes it for a
failure.

The program that prints the steps, and loads the function from a library if it
is built so, is left out.

## Main definitions

* `collatzConjecture`, `testCollatzConvergence`: The program.
* `T`: The Collatz step.
* `MeetsSpec`: What the test is for.

## Theorems

* `collatzConjecture_eq`: The program takes Collatz steps.
* `iterate_turn`: The loop in closed form.
* `exists_run`: What the test returns and writes.
* `meetsSpec_iff`: The number for which it does not meet its specification.
-/

namespace OsLabs

namespace Collatz

open Loop

/-- `collatz_conjecture` -/
def collatzConjecture (input : ℤ) : ℤ :=
  if input.tmod 2 = 0 then input.tdiv 2 else 3 * input + 1

/-- The variables of `test_collatz_convergence`, and what it has written to
    the array. -/
structure Locals where
  input : ℤ
  cnt : ℤ
  steps : ℤ → Option ℤ

/-- The variables before the first turn. -/
def Locals.enter (input : ℤ) : Locals := ⟨input, 1, Function.update (fun _ => none) 0 (some input)⟩

/-- `input > 1 && cnt < max_iter` -/
def Locals.Goes (maxIter : ℤ) (l : Locals) : Prop := 1 < l.input ∧ l.cnt < maxIter

instance (maxIter : ℤ) : DecidablePred (Locals.Goes maxIter) :=
  fun l => inferInstanceAs (Decidable (1 < l.input ∧ l.cnt < maxIter))

/-- A turn of the loop. -/
def Locals.turn (l : Locals) : Locals where
  input := collatzConjecture l.input
  cnt := l.cnt + 1
  steps := Function.update l.steps l.cnt (some (collatzConjecture l.input))

/-- What is returned after the loop, with the array. -/
def Locals.result (l : Locals) : ℤ × (ℤ → Option ℤ) :=
  (if l.input = 1 then l.cnt - 1 else 0, l.steps)

/-- `test_collatz_convergence` -/
def testCollatzConvergence (input maxIter : ℤ) : Part (ℤ × (ℤ → Option ℤ)) :=
  (loop (Locals.Goes maxIter) Locals.turn (.enter input)).map Locals.result

/-- The Collatz step. -/
def T (n : ℤ) : ℤ := if Even n then n / 2 else 3 * n + 1

/-- Dividing an even number is exact, whichever way it is rounded. -/
theorem collatzConjecture_eq (n : ℤ) : collatzConjecture n = T n := by
  unfold collatzConjecture T
  by_cases heven : Even n
  · have hdvd : (2 : ℤ) ∣ n := even_iff_two_dvd.mp heven
    rw [if_pos heven, if_pos (Int.tmod_eq_zero_of_dvd hdvd), Int.tdiv_eq_ediv_of_dvd hdvd]
  · have hodd : n.tmod 2 ≠ 0 := fun h => heven (even_iff_two_dvd.mpr (Int.dvd_of_tmod_eq_zero h))
    rw [if_neg heven, if_neg hodd]

theorem one_le_T {n : ℤ} (h : 1 ≤ n) : 1 ≤ T n := by
  unfold T
  by_cases heven : Even n
  · rw [if_pos heven]
    have hmod := Int.even_iff.mp heven
    omega
  · rw [if_neg heven]
    omega

theorem one_le_iterate {n : ℤ} (h : 1 ≤ n) (j : ℕ) : 1 ≤ T^[j] n := by
  induction j with
  | zero => exact h
  | succ j ih =>
      rw [Function.iterate_succ_apply']
      exact one_le_T ih

/-- The array with the first values of the trajectory, up to number `j`. -/
def written (n : ℤ) (j : ℕ) : ℤ → Option ℤ :=
  fun i => if 0 ≤ i ∧ i ≤ j then some (T^[i.toNat] n) else none

theorem written_zero (n : ℤ) : written n 0 = Function.update (fun _ => none) 0 (some n) := by
  ext1 i
  by_cases hi : i = 0
  · rw [hi, Function.update_self]
    rfl
  · rw [Function.update_of_ne hi, written, if_neg (by omega)]

theorem written_succ (n : ℤ) (j : ℕ) :
    written n (j + 1) = Function.update (written n j) (j + 1) (some (T^[j + 1] n)) := by
  ext1 i
  by_cases hi : i = j + 1
  · rw [hi, Function.update_self, written, if_pos (by omega)]
    rfl
  · rw [Function.update_of_ne hi, written, written]
    by_cases hold : 0 ≤ i ∧ i ≤ j
    · rw [if_pos hold, if_pos (by omega)]
    · rw [if_neg hold, if_neg (by omega)]

/-- The variables after `j` turns, whether the loop goes that far or not. -/
theorem iterate_turn (n : ℤ) (j : ℕ) :
    Locals.turn^[j] (.enter n) = ⟨T^[j] n, j + 1, written n j⟩ := by
  induction j with
  | zero =>
      rw [written_zero]
      rfl
  | succ j ih =>
      rw [Function.iterate_succ_apply', ih, Locals.turn, collatzConjecture_eq, written_succ,
        Function.iterate_succ_apply']
      rfl

/-- The loop is left at the first 1, or with the array full. -/
theorem exists_ends {n m : ℤ} (hn : 1 ≤ n) (hm : 1 ≤ m) :
    ∃ k : ℕ, Ends (Locals.Goes m) Locals.turn (.enter n) k ∧ k < m ∧ (∀ j < k, T^[j] n ≠ 1) ∧
      (T^[k] n ≠ 1 → m = k + 1) := by
  -- After `m - 1` turns the array is full, if the loop is not left before.
  have hlast : ¬ Locals.Goes m (Locals.turn^[(m - 1).toNat] (.enter n)) := by
    rw [iterate_turn]
    rintro ⟨_, hroom⟩
    dsimp only at hroom
    omega
  have hdom : (loop (Locals.Goes m) Locals.turn (.enter n)).Dom := ⟨_, hlast⟩
  rcases dom_loop_iff.mp hdom with ⟨k, hends⟩
  have hturns : ∀ j < k, 1 < T^[j] n ∧ (j : ℤ) + 1 < m := by
    intro j hj
    have hgoes := hends.turns j hj
    rw [iterate_turn] at hgoes
    exact hgoes
  have hstops : ¬ (1 < T^[k] n ∧ (k : ℤ) + 1 < m) := by
    have hleft := hends.stops
    rw [iterate_turn] at hleft
    exact hleft
  have hk : (k : ℤ) < m := by
    cases k with
    | zero => omega
    | succ k =>
        have hroom := (hturns k (Nat.lt_succ_self k)).2
        omega
  refine ⟨k, hends, hk, fun j hj => ?_, fun hne => ?_⟩
  · have hbig := (hturns j hj).1
    omega
  · have hone := one_le_iterate hn k
    omega

/-- What the test returns and writes: the values up to number `k`, which is the
    first 1 or fills the array. -/
theorem exists_run {n m : ℤ} (hn : 1 ≤ n) (hm : 1 ≤ m) :
    ∃ k : ℕ, testCollatzConvergence n m
        = Part.some (if T^[k] n = 1 then (k : ℤ) else 0, written n k) ∧
      k < m ∧ (∀ j < k, T^[j] n ≠ 1) ∧ (T^[k] n ≠ 1 → m = k + 1) := by
  rcases exists_ends hn hm with ⟨k, hends, hk, hbefore, hfull⟩
  refine ⟨k, ?_, hk, hbefore, hfull⟩
  rw [testCollatzConvergence, loop_eq_some hends, iterate_turn, Part.map_some, Locals.result]
  dsimp only
  rw [add_sub_cancel_right]

/-- What the test is for. It writes inside the array. It returns 0 if there is
    no 1 among the first `m` values of the trajectory, and only then. If there
    is one, it returns the number of the first, and the array has the values up
    to there. -/
structure MeetsSpec (n m : ℤ) : Prop where
  ends : (testCollatzConvergence n m).Dom
  inside : ∀ r ∈ testCollatzConvergence n m, ∀ i v, r.2 i = some v → 0 ≤ i ∧ i < m
  zero_iff : ∀ r ∈ testCollatzConvergence n m, r.1 = 0 ↔ ∀ j : ℕ, (j : ℤ) < m → T^[j] n ≠ 1
  first : ∀ r ∈ testCollatzConvergence n m, ∀ j : ℕ, (j : ℤ) < m → T^[j] n = 1 →
    (∀ i < j, T^[i] n ≠ 1) → r.1 = j ∧ ∀ i ≤ j, r.2 i = some (T^[i] n)

theorem written_inside {n m : ℤ} {k : ℕ} (hk : (k : ℤ) < m) {i v : ℤ}
    (h : written n k i = some v) : 0 ≤ i ∧ i < m := by
  unfold written at h
  by_cases hi : 0 ≤ i ∧ i ≤ k
  · omega
  · rw [if_neg hi] at h
    cases h

/-- For 1 the test returns 0, which is what it returns on failure. -/
theorem not_meetsSpec_of_reached {m : ℤ} (hm : 1 ≤ m) : ¬ MeetsSpec 1 m := by
  intro hspec
  rcases exists_run (Int.le_refl 1) hm with ⟨k, hrun, _, hbefore, _⟩
  have hzero : k = 0 := by
    by_contra hpos
    exact hbefore 0 (Nat.pos_of_ne_zero hpos) rfl
  have hnever := (hspec.zero_iff _ (hrun ▸ Part.mem_some _)).mp (by rw [hzero]; rfl)
  exact hnever 0 (by omega) rfl

/-- The test meets its specification for every number but 1. -/
theorem meetsSpec_iff {n m : ℤ} (hn : 1 ≤ n) (hm : 1 ≤ m) : MeetsSpec n m ↔ n ≠ 1 := by
  constructor
  · rintro hspec rfl
    exact not_meetsSpec_of_reached hm hspec
  · intro hne
    rcases exists_run hn hm with ⟨k, hrun, hk, hbefore, hfull⟩
    have hmem : ∀ r ∈ testCollatzConvergence n m,
        r = (if T^[k] n = 1 then (k : ℤ) else 0, written n k) := by
      intro r hr
      rw [hrun, Part.mem_some_iff] at hr
      exact hr
    refine ⟨?_, ?_, ?_, ?_⟩
    · rw [hrun]
      exact trivial
    · intro r hr i v hv
      rw [hmem r hr] at hv
      exact written_inside hk hv
    · intro r hr
      rw [hmem r hr]
      by_cases hone : T^[k] n = 1
      · -- The first 1 is not at number 0, where the trajectory has `n`.
        rw [if_pos hone]
        refine iff_of_false (fun hzero => hne ?_) fun hnever => hnever k hk hone
        rw [Int.natCast_eq_zero.mp hzero] at hone
        exact hone
      · rw [if_neg hone]
        refine iff_of_true rfl fun j hj => ?_
        by_cases hjk : j < k
        · exact hbefore j hjk
        · -- The array is full, so `k` is the last number asked about.
          have hlast := hfull hone
          have hj' : j = k := by omega
          rwa [hj']
    · intro r hr j hj hone hfirst
      -- The first 1 that there is room for is where the loop is left.
      have hjk : j = k := by
        by_contra hother
        rcases Nat.lt_or_gt_of_ne hother with hlt | hgt
        · exact hbefore j hlt hone
        · have hlast := hfull (hfirst k hgt)
          omega
      rw [hmem r hr, ← hjk, if_pos hone]
      refine ⟨rfl, fun i hi => ?_⟩
      change written n j i = _
      rw [written, if_pos (by omega)]
      rfl

/-- The trajectory of 6, with room for all of it. -/
theorem meetsSpec_six : (1 : ℤ) ≤ 6 ∧ (1 : ℤ) ≤ 300 ∧ MeetsSpec 6 300 :=
  ⟨by decide, by decide, (meetsSpec_iff (by decide) (by decide)).mpr (by decide)⟩

/-- 1 is reached at once, and that is returned as a failure. -/
theorem not_meetsSpec_one : ¬ MeetsSpec 1 300 :=
  not_meetsSpec_of_reached (by decide)

end Collatz

end OsLabs
