import OsLabs.Collatz.Convergence

/-!
# The Collatz Test in 32 Bits

`cw02/assignment/collatz.c` with the arithmetic of `int`. An operation whose
result does not fit has no result, and the test ends without one.

Only one operation is in danger, tripling an odd number. How large the numbers
of a trajectory get cannot be read off the first one, so the condition speaks
about the trajectory: no odd number above a third of the greatest `int` among
those that are followed. After the first 1 there is none, and that is why the
condition need not say where the trajectory ends.

## Main definitions

* `intMax`, `int`: The range of the type.
* `collatzConjecture32`, `testCollatzConvergence32`: The program.
* `Exact`: It computes what it computes in unbounded arithmetic.

## Theorems

* `collatzConjecture32_eq`, `collatzConjecture32_eq_none`: When a step overflows.
* `iterate_le_four`: The trajectory after its first 1.
* `exact_iff_forall_turns`: The turns decide.
* `small_of_exact`, `exact_iff`: The trajectories that are followed exactly.
-/

namespace OsLabs

namespace Collatz

open Loop

/-- The greatest value of `int`. -/
def intMax : ℤ := 2 ^ 31 - 1

/-- A value that does not fit into `int` is not computed. -/
def int (z : ℤ) : Option ℤ := if -intMax - 1 ≤ z ∧ z ≤ intMax then some z else none

/-- `collatz_conjecture` in 32 bits. The product and the sum are two
    operations. -/
def collatzConjecture32 (input : ℤ) : Option ℤ :=
  if input.tmod 2 = 0 then int (input.tdiv 2)
  else (int (3 * input)).bind fun triple => int (triple + 1)

/-- A turn of the loop in 32 bits. -/
def Locals.turn32 (l : Locals) : Option Locals :=
  (collatzConjecture32 l.input).bind fun input =>
    (int (l.cnt + 1)).map fun cnt => ⟨input, cnt, Function.update l.steps l.cnt (some input)⟩

/-- What is returned after the loop, in 32 bits. -/
def Locals.result32 (l : Locals) : Option (ℤ × (ℤ → Option ℤ)) :=
  if l.input = 1 then (int (l.cnt - 1)).map fun steps => (steps, l.steps) else some (0, l.steps)

/-- `test_collatz_convergence` in 32 bits. -/
def testCollatzConvergence32 (input maxIter : ℤ) : Part (Option (ℤ × (ℤ → Option ℤ))) :=
  (loop (Survives (Locals.Goes maxIter)) (fun o => o.bind Locals.turn32)
    (some (.enter input))).map fun o => o.bind Locals.result32

/-- No operation overflows, and the result and the array are the ones of
    unbounded arithmetic. -/
def Exact (n m : ℤ) : Prop :=
  testCollatzConvergence32 n m = (testCollatzConvergence n m).map some

theorem int_eq_some {z : ℤ} (hz : 0 ≤ z) (hle : z ≤ intMax) : int z = some z := by
  unfold int intMax at *
  exact if_pos ⟨by omega, hle⟩

theorem int_eq_none {z : ℤ} (h : intMax < z) : int z = none :=
  if_neg fun hrange => Int.not_le.mpr h hrange.2

/-- A step that does not overflow is a Collatz step. -/
theorem collatzConjecture32_eq {n : ℤ} (hn : 1 ≤ n) (hle : n ≤ intMax)
    (hodd : Odd n → n ≤ 715827882) : collatzConjecture32 n = some (T n) := by
  rw [← collatzConjecture_eq]
  unfold collatzConjecture32 collatzConjecture
  by_cases heven : n.tmod 2 = 0
  · rw [if_pos heven, if_pos heven]
    have hdvd := Int.dvd_of_tmod_eq_zero heven
    rw [Int.tdiv_eq_ediv_of_dvd hdvd]
    exact int_eq_some (by omega) (by omega)
  · rw [if_neg heven, if_neg heven]
    have hsmall := hodd (Int.not_even_iff_odd.mp fun h =>
      heven (Int.tmod_eq_zero_of_dvd (even_iff_two_dvd.mp h)))
    have hmax : intMax = 2147483647 := rfl
    rw [int_eq_some (z := 3 * n) (by omega) (by omega), Option.bind_some]
    exact int_eq_some (by omega) (by omega)

/-- The greatest odd number whose step fits is a third of what fits. -/
theorem collatzConjecture32_eq_none {n : ℤ} (hodd : Odd n) (hbig : 715827882 < n) :
    collatzConjecture32 n = none := by
  have hnot : n.tmod 2 ≠ 0 := fun h =>
    Int.not_even_iff_odd.mpr hodd (even_iff_two_dvd.mpr (Int.dvd_of_tmod_eq_zero h))
  have hmax : intMax = 2147483647 := rfl
  rw [collatzConjecture32, if_neg hnot, int_eq_none (by omega), Option.bind_none]

theorem int_eq_none_or (z : ℤ) : int z = none ∨ int z = some z := by
  unfold int
  by_cases hrange : -intMax - 1 ≤ z ∧ z ≤ intMax
  · rw [if_pos hrange]
    exact .inr rfl
  · rw [if_neg hrange]
    exact .inl rfl

/-- What a step computes, if anything. -/
theorem collatzConjecture32_eq_none_or (n : ℤ) :
    collatzConjecture32 n = none ∨ collatzConjecture32 n = some (T n) := by
  rw [← collatzConjecture_eq]
  unfold collatzConjecture32 collatzConjecture
  by_cases heven : n.tmod 2 = 0
  · rw [if_pos heven, if_pos heven]
    exact int_eq_none_or _
  · rw [if_neg heven, if_neg heven]
    rcases int_eq_none_or (3 * n) with hnone | hsome
    · rw [hnone]
      exact .inl rfl
    · rw [hsome, Option.bind_some]
      exact int_eq_none_or _

theorem turn32_eq_none_or (n : ℤ) (j : ℕ) :
    (Locals.turn^[j] (.enter n)).turn32 = none ∨
      (Locals.turn^[j] (.enter n)).turn32 = some (Locals.turn^[j + 1] (.enter n)) := by
  rw [Function.iterate_succ_apply', Locals.turn32, Locals.turn, collatzConjecture_eq]
  rcases collatzConjecture32_eq_none_or (Locals.turn^[j] (.enter n)).input with hnone | hsome
  · rw [hnone, Option.bind_none]
    exact .inl rfl
  · rw [hsome, Option.bind_some]
    rcases int_eq_none_or ((Locals.turn^[j] (.enter n)).cnt + 1) with hfull | hcnt
    · rw [hfull, Option.map_none]
      exact .inl rfl
    · rw [hcnt, Option.map_some]
      exact .inr rfl

/-- A number that fits, and whose step does not overflow, has a successor that
    fits. -/
theorem T_le_intMax {n : ℤ} (hn : 1 ≤ n) (hle : n ≤ intMax) (hodd : Odd n → n ≤ 715827882) :
    T n ≤ intMax := by
  have hmax : intMax = 2147483647 := rfl
  unfold T
  by_cases heven : Even n
  · rw [if_pos heven]
    omega
  · rw [if_neg heven]
    have hsmall := hodd (Int.not_even_iff_odd.mp heven)
    omega

theorem iterate_le_intMax {n : ℤ} {j : ℕ} (hn : 1 ≤ n) (hle : n ≤ intMax)
    (hodd : ∀ i < j, Odd (T^[i] n) → T^[i] n ≤ 715827882) : T^[j] n ≤ intMax := by
  induction j with
  | zero => exact hle
  | succ j ih =>
      rw [Function.iterate_succ_apply']
      have hbefore := ih fun i hi => hodd i (Nat.lt_succ_of_lt hi)
      exact T_le_intMax (one_le_iterate hn j) hbefore (hodd j (Nat.lt_succ_self j))

/-- 1, 4 and 2 follow each other for ever. -/
theorem iterate_le_four (j : ℕ) : T^[j] 1 = 1 ∨ T^[j] 1 = 2 ∨ T^[j] 1 = 4 := by
  induction j with
  | zero => exact .inl rfl
  | succ j ih =>
      rw [Function.iterate_succ_apply']
      rcases ih with hone | htwo | hfour
      · rw [hone]
        exact .inr (.inr rfl)
      · rw [htwo]
        exact .inl rfl
      · rw [hfour]
        exact .inr (.inl rfl)

/-- The turns that do not overflow are those of a number that is even or small
    enough. -/
theorem turn32_ne_none_iff {n : ℤ} {j : ℕ} (hn : 1 ≤ n) (hle : T^[j] n ≤ intMax)
    (hj : (j : ℤ) + 2 ≤ intMax) :
    (Locals.turn^[j] (.enter n)).turn32 ≠ none ↔ (Odd (T^[j] n) → T^[j] n ≤ 715827882) := by
  rw [iterate_turn, Locals.turn32]
  dsimp only
  constructor
  · intro hturn hodd
    by_contra hbig
    rw [collatzConjecture32_eq_none hodd (Int.not_le.mp hbig), Option.bind_none] at hturn
    exact hturn rfl
  · intro hodd
    rw [collatzConjecture32_eq (one_le_iterate hn j) hle hodd, Option.bind_some,
      int_eq_some (by omega) (by omega), Option.map_some]
    exact Option.some_ne_none _

/-- The test is exact if no turn of its loop overflows, and only then. -/
theorem exact_iff_forall_turns {n m : ℤ} {k : ℕ}
    (hends : Ends (Locals.Goes m) Locals.turn (.enter n) k) (hk : (k : ℤ) ≤ intMax) :
    Exact n m ↔ ∀ j < k, (Locals.turn^[j] (.enter n)).turn32 ≠ none := by
  have hexact : (testCollatzConvergence n m).map some
      = Part.some (some (Locals.turn^[k] (.enter n)).result) := by
    rw [testCollatzConvergence, loop_eq_some hends, Part.map_some, Part.map_some]
  have hcheck := fun j (_ : j < k) => turn32_eq_none_or n j
  rw [Exact, hexact, testCollatzConvergence32]
  by_cases hall : ∀ j < k, (Locals.turn^[j] (.enter n)).turn32 ≠ none
  · refine iff_of_true ?_ hall
    have hloop := loop_bind_of_forall hends fun j hj => (hcheck j hj).resolve_left (hall j hj)
    rw [hloop, Part.map_some, Option.bind_some, iterate_turn, Locals.result32, Locals.result]
    dsimp only
    rw [add_sub_cancel_right, int_eq_some (Int.natCast_nonneg k) hk]
    by_cases hone : T^[k] n = 1
    · rw [if_pos hone, if_pos hone, Option.map_some]
    · rw [if_neg hone, if_neg hone]
  · -- Some turn fails, and then there is no result at all.
    refine iff_of_false (fun hsame => ?_) hall
    simp only [ne_eq, not_forall, not_not, exists_prop] at hall
    rw [loop_bind_of_exists hends hcheck hall, Part.map_some, Option.bind_none,
      Part.some_inj] at hsame
    cases hsame

/-- With a number on the way that is odd and too large the test is not exact. By
    induction no earlier one overflows, so that the test gets there. -/
theorem small_of_exact {n m : ℤ} (hn : 1 ≤ n) (hnmax : n ≤ intMax) (hm : 1 ≤ m) (hmmax : m ≤ intMax)
    (hexact : Exact n m) (j : ℕ) (hj : (j : ℤ) + 1 < m) :
    Odd (T^[j] n) → T^[j] n ≤ 715827882 := by
  rcases exists_ends hn hm with ⟨k, hends, hk, _, hfull⟩
  have hturns := (exact_iff_forall_turns hends (by omega)).mp hexact
  -- The steps before are small by induction, so that none of them overflows.
  induction j using Nat.strong_induction_on with
  | h j ih =>
      by_cases hjk : j < k
      · -- The numbers before were small enough, so this one fits.
        have hle : T^[j] n ≤ intMax :=
          iterate_le_intMax hn hnmax fun i hi => ih i hi (by omega)
        exact (turn32_ne_none_iff hn hle (by omega)).mp (hturns j hjk)
      · -- The loop was left before, and not because the array was full.
        have hone : T^[k] n = 1 := by
          by_contra hother
          have hlast := hfull hother
          omega
        have hafter : T^[j] n = T^[j - k] 1 := by
          rw [← hone, ← Function.iterate_add_apply]
          congr 1
          omega
        intro _
        rw [hafter]
        have hcycle := iterate_le_four (j - k)
        omega

/-- The test is exact exactly if no odd number among those it follows is over a
    third of the greatest `int`. -/
theorem exact_iff {n m : ℤ} (hn : 1 ≤ n) (hnmax : n ≤ intMax) (hm : 1 ≤ m) (hmmax : m ≤ intMax) :
    Exact n m ↔ ∀ j : ℕ, (j : ℤ) + 1 < m → Odd (T^[j] n) → T^[j] n ≤ 715827882 := by
  constructor
  · exact small_of_exact hn hnmax hm hmmax
  · intro hcond
    rcases exists_ends hn hm with ⟨k, hends, hk, _, _⟩
    refine (exact_iff_forall_turns hends (by omega)).mpr fun j hjk => ?_
    have hle : T^[j] n ≤ intMax :=
      iterate_le_intMax hn hnmax fun i hi => hcond i (by omega)
    exact (turn32_ne_none_iff hn hle (by omega)).mpr (hcond j (by omega))

/-- The trajectory of 6. -/
theorem exact_six :
    (1 : ℤ) ≤ 6 ∧ 6 ≤ intMax ∧ (1 : ℤ) ≤ 9 ∧ 9 ≤ intMax ∧ Exact 6 9 := by
  refine ⟨by decide, by decide, by decide, by decide,
    (exact_iff (by decide) (by decide) (by decide) (by decide)).mpr fun j hj => ?_⟩
  have hsteps : ∀ i < 8, T^[i] 6 ≤ 715827882 := by decide
  exact fun _ => hsteps j (by omega)

/-- The first number with a trajectory that is too large. It comes to 1 after
    247 steps. -/
theorem not_exact_113383 : ¬ Exact 113383 300 := by
  have hlarge : T^[119] 113383 = 827370449 := by decide +kernel
  intro hexact
  have hsmall := small_of_exact (by decide) (by decide) (by decide) (by decide) hexact 119
    (by decide)
  rw [hlarge] at hsmall
  exact absurd (hsmall (by decide)) (by decide)

end Collatz

end OsLabs
