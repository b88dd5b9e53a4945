import Mathlib.Algebra.BigOperators.Intervals
import Mathlib.Algebra.Order.BigOperators.Group.Finset
import Mathlib.Data.Rat.Floor
import Mathlib.Tactic.FieldSimp
import Mathlib.Tactic.Linarith
import Mathlib.Tactic.Ring
import OsLabs.Library.Loop
import OsLabs.Library.Machine

/-!
# Integration by Processes

`cw06/assignment/zad1.c`. The interval from 0 to 1 is cut into parts of one
length, and each part is left to a process, which starts a grid of its own at
the beginning of its part. Numbers are exact here.

The last rectangle of a part may reach beyond its end, into the next part,
where the next process starts afresh. So a part costs one rectangle more than
its share, unless the width divides the length of the parts, and since the
integrand decreases the sum is greater then, strictly.

The width is not checked. With one that is not positive the variable of the
loop never reaches the end.

Left out are the failures of `pipe` and `fork`, and the time that is measured.
So is what standard output holds at a `fork`: where it is no terminal, the lines
printed before are still in the buffer, and each child writes its copy of them
once more at its `exit`. What `main` adds up comes through the pipes alone.

## Main definitions

* `rectangleArea`: The function of the same name.
* `step`, `partials`, `total`: What `main` adds up for a number of processes.

## Theorems

* `rectangleArea_eq`: What the loop adds up.
* `dom_rectangleArea_iff`: When it ends.
* `total_eq_iff`: When the result does not depend on the number of processes.
-/

namespace OsLabs

namespace Integration

namespace Processes

open Loop

/-- `f` -/
def f (x : ℚ) : ℚ := 4 / (x * x + 1)

/-- The variables of the loop in `rectangle_area`. -/
structure Locals where
  x : ℚ
  sum : ℚ

/-- A turn of the loop, with the increment. -/
def body (dx : ℚ) (l : Locals) : Locals := ⟨l.x + dx, l.sum + f l.x * dx⟩

/-- `rectangle_area` -/
def rectangleArea (start stop dx : ℚ) : Part ℚ :=
  (loop (fun l => l.x < stop) (body dx) ⟨start, 0⟩).map Locals.sum

/-- `step` -/
def step (k : ℕ) : ℚ := 1 / k

/-- What the processes write into their pipes. -/
def partials (dx : ℚ) (k : ℕ) : Part (List ℚ) :=
  (List.range k).mapM fun i : ℕ => rectangleArea (i * step k) ((i + 1) * step k) dx

/-- `total` -/
def total (dx : ℚ) (k : ℕ) : Part ℚ := (partials dx k).map (List.foldl (· + ·) 0)

section Area

variable {start stop dx : ℚ}

theorem iterate_body (dx start : ℚ) (m : ℕ) : (body dx)^[m] ⟨start, 0⟩ =
    ⟨start + m * dx, ∑ j ∈ Finset.range m, f (start + j * dx) * dx⟩ := by
  induction m with
  | zero => simp only [Function.iterate_zero, id_eq, Nat.cast_zero, zero_mul, add_zero,
      Finset.range_zero, Finset.sum_empty]
  | succ m ih =>
      rw [Function.iterate_succ_apply', ih, body, Locals.mk.injEq, Finset.sum_range_succ]
      exact ⟨by push_cast; ring, rfl⟩

/-- How many rectangles fit, the last of them perhaps not whole. -/
def turns (start stop dx : ℚ) : ℕ := ⌈(stop - start) / dx⌉₊

theorem lt_iff_lt_turns (hdx : 0 < dx) (start stop : ℚ) (m : ℕ) :
    start + m * dx < stop ↔ m < turns start stop dx := by
  rw [turns, Nat.lt_ceil, lt_div_iff₀ hdx]
  constructor
  · intro h
    linarith
  · intro h
    linarith

theorem ends_body (hdx : 0 < dx) : Ends (fun l : Locals => l.x < stop) (body dx) ⟨start, 0⟩
    (turns start stop dx) where
  turns := by
    intro m hm
    rw [iterate_body]
    exact (lt_iff_lt_turns hdx _ _ m).mpr hm
  stops := by
    rw [iterate_body]
    exact fun h => lt_irrefl _ ((lt_iff_lt_turns hdx _ _ _).mp h)

theorem rectangleArea_eq (hdx : 0 < dx) : rectangleArea start stop dx
    = Part.some (∑ j ∈ Finset.range (turns start stop dx), f (start + j * dx) * dx) := by
  rw [rectangleArea, loop_eq_some (ends_body hdx), Part.map_some, iterate_body]

/-- The loop ends if there is nothing to do or the width is positive. -/
theorem dom_rectangleArea_iff : (rectangleArea start stop dx).Dom ↔ stop ≤ start ∨ 0 < dx := by
  constructor
  · intro h
    have hloop : (loop (fun l : Locals => l.x < stop) (body dx) ⟨start, 0⟩).Dom := h
    rcases dom_loop_iff.mp hloop with ⟨n, hends⟩
    by_contra hnot
    rw [not_or, not_le, not_lt] at hnot
    refine hends.stops ?_
    rw [iterate_body]
    have hle : n * dx ≤ 0 := mul_nonpos_of_nonneg_of_nonpos (Nat.cast_nonneg n) hnot.2
    change start + n * dx < stop
    linarith
  · rintro (hempty | hdx)
    · exact ⟨0, not_lt.mpr hempty⟩
    · rw [rectangleArea_eq hdx]
      trivial

end Area

section Total

variable {dx : ℚ} {k : ℕ}

theorem f_pos (x : ℚ) : 0 < f x := by
  unfold f
  have hsq := mul_self_nonneg x
  exact div_pos (by norm_num) (by linarith)

/-- The integrand decreases. -/
theorem f_lt_f {x y : ℚ} (hx : 0 ≤ x) (hxy : x < y) : f y < f x := by
  unfold f
  have hsq : x * x < y * y := mul_self_lt_mul_self hx hxy
  have hx' := mul_self_nonneg x
  exact div_lt_div_of_pos_left (by norm_num) (by linarith) (by linarith)

theorem f_le_f {x y : ℚ} (hx : 0 ≤ x) (hxy : x ≤ y) : f y ≤ f x := by
  rcases eq_or_lt_of_le hxy with heq | hlt
  · rw [heq]
  · exact le_of_lt (f_lt_f hx hlt)

/-- All parts have the same number of rectangles. -/
def share (dx : ℚ) (k : ℕ) : ℕ := turns 0 (step k) dx

theorem turns_part (i : ℕ) : turns (i * step k) ((i + 1) * step k) dx = share dx k := by
  unfold share turns
  congr 2
  ring

/-- What the processes add up together. -/
def partsSum (dx : ℚ) (k : ℕ) : ℚ :=
  ∑ i ∈ Finset.range k, ∑ j ∈ Finset.range (share dx k), f (i * step k + j * dx) * dx

theorem total_eq (hdx : 0 < dx) (k : ℕ) : total dx k = Part.some (partsSum dx k) := by
  unfold total partials
  simp only [rectangleArea_eq hdx, turns_part]
  have hmap := List.mapM_pure (m := Part) (l := List.range k) (f := fun i : ℕ =>
    ∑ j ∈ Finset.range (share dx k), f (i * step k + j * dx) * dx)
  refine ((congrArg (Part.map (List.foldl (· + ·) 0)) hmap).trans (Part.map_some _ _)).trans ?_
  rw [← List.sum_eq_foldl]
  rfl

/-- The grid of the run with one process, cut into pieces of one length. -/
theorem sum_pieces (m k : ℕ) (g : ℕ → ℚ) : ∑ q ∈ Finset.range (k * m), g q
    = ∑ i ∈ Finset.range k, ∑ j ∈ Finset.range m, g (i * m + j) := by
  induction k with
  | zero => simp only [Nat.zero_mul, Finset.range_zero, Finset.sum_empty]
  | succ k ih => rw [Nat.succ_mul, Finset.sum_range_add, ih, Finset.sum_range_succ]

/-- The sum of the run with one process, for a number of rectangles. -/
def gridSum (dx : ℚ) (n : ℕ) : ℚ := ∑ q ∈ Finset.range n, f (q * dx) * dx

theorem rectangleArea_whole (hdx : 0 < dx) :
    rectangleArea 0 1 dx = Part.some (gridSum dx (turns 0 1 dx)) := by
  rw [rectangleArea_eq hdx]
  simp only [zero_add]
  rfl

theorem step_pos (hk : 1 ≤ k) : 0 < step k := by
  have hcast : (0 : ℚ) < k := by exact_mod_cast hk
  exact one_div_pos.mpr hcast

theorem mul_step (hk : 1 ≤ k) : (k : ℚ) * step k = 1 := by
  have hne : (k : ℚ) ≠ 0 := by
    have hpos : k ≠ 0 := by omega
    exact_mod_cast hpos
  rw [step, mul_one_div_cancel hne]

/-- A part ends with its last rectangle, or before it. -/
theorem step_le_share (hdx : 0 < dx) : step k ≤ share dx k * dx := by
  by_contra hlt
  rw [not_le] at hlt
  have hturns := (lt_iff_lt_turns hdx 0 (step k) (share dx k)).mp (by linarith)
  exact lt_irrefl _ hturns

theorem share_pos (hdx : 0 < dx) (hk : 1 ≤ k) : 0 < share dx k := by
  have hpos := step_pos hk
  refine (lt_iff_lt_turns hdx 0 (step k) 0).mp ?_
  rw [Nat.cast_zero]
  linarith

/-- The rectangles of the parts are enough for the whole. -/
theorem turns_le_share (hdx : 0 < dx) (hk : 1 ≤ k) : turns 0 1 dx ≤ k * share dx k := by
  by_contra hlt
  have hbefore := (lt_iff_lt_turns hdx 0 1 (k * share dx k)).mpr
    (Nat.lt_of_not_le hlt)
  have hreach : (k : ℚ) * step k ≤ k * (share dx k * dx) :=
    mul_le_mul_of_nonneg_left (step_le_share hdx) (Nat.cast_nonneg k)
  rw [mul_step hk] at hreach
  push_cast at hbefore
  linarith

theorem gridSum_mono (hdx : 0 < dx) {n n' : ℕ} (h : n ≤ n') : gridSum dx n ≤ gridSum dx n' :=
  Finset.sum_le_sum_of_subset_of_nonneg (Finset.range_mono h)
    (fun _ _ _ => le_of_lt (mul_pos (f_pos _) hdx))

theorem gridSum_pieces (k : ℕ) : gridSum dx (k * share dx k)
    = ∑ i ∈ Finset.range k, ∑ j ∈ Finset.range (share dx k),
        f ((i * share dx k + j : ℕ) * dx) * dx :=
  sum_pieces (share dx k) k fun q => f (q * dx) * dx

/-- Each part starts its grid no later than the undivided grid comes there. -/
theorem place_le (hdx : 0 < dx) (i j : ℕ) :
    i * step k + j * dx ≤ (i * share dx k + j : ℕ) * dx := by
  have hmul : (i : ℚ) * step k ≤ i * (share dx k * dx) :=
    mul_le_mul_of_nonneg_left (step_le_share hdx) (Nat.cast_nonneg i)
  push_cast
  linarith

theorem place_nonneg (hdx : 0 < dx) (hk : 1 ≤ k) (i j : ℕ) : 0 ≤ i * step k + j * dx :=
  add_nonneg (mul_nonneg (Nat.cast_nonneg i) (le_of_lt (step_pos hk)))
    (mul_nonneg (Nat.cast_nonneg j) (le_of_lt hdx))

/-- A part that reaches beyond its end makes the sum greater. -/
theorem gridSum_lt_partsSum (hdx : 0 < dx) (hk : 2 ≤ k) (hlt : step k < share dx k * dx) :
    gridSum dx (k * share dx k) < partsSum dx k := by
  have hk1 : 1 ≤ k := Nat.le_of_succ_le hk
  have hterm : ∀ i j : ℕ, f ((i * share dx k + j : ℕ) * dx) * dx ≤ f (i * step k + j * dx) * dx :=
    fun i j => mul_le_mul_of_nonneg_right (f_le_f (place_nonneg hdx hk1 i j) (place_le hdx i j))
      (le_of_lt hdx)
  rw [gridSum_pieces, partsSum]
  refine Finset.sum_lt_sum (fun i _ => Finset.sum_le_sum fun j _ => hterm i j) ?_
  -- The first rectangle of the second part is one that is greater.
  refine ⟨1, Finset.mem_range.mpr hk, Finset.sum_lt_sum (fun j _ => hterm 1 j) ?_⟩
  refine ⟨0, Finset.mem_range.mpr (share_pos hdx hk1), ?_⟩
  refine mul_lt_mul_of_pos_right (f_lt_f (place_nonneg hdx hk1 1 0) ?_) hdx
  push_cast
  linarith

/-- Parts that end with their last rectangles make up the undivided grid. -/
theorem partsSum_eq (hdx : 0 < dx) (hk : 1 ≤ k) (heq : step k = share dx k * dx) :
    partsSum dx k = gridSum dx (turns 0 1 dx) := by
  have hturns : turns 0 1 dx = k * share dx k := by
    refine Nat.le_antisymm (turns_le_share hdx hk) ?_
    by_contra hlt
    have hafter := mt (lt_iff_lt_turns hdx 0 1 (turns 0 1 dx)).mp
      (lt_irrefl _)
    have hone := mul_step hk
    rw [heq] at hone
    have hcast : ((turns 0 1 dx + 1 : ℕ) : ℚ) ≤ (k * share dx k : ℕ) := by
      exact_mod_cast Nat.lt_of_not_le hlt
    have hmul := mul_le_mul_of_nonneg_right hcast (le_of_lt hdx)
    push_cast at hmul
    linarith
  rw [hturns, gridSum_pieces, partsSum]
  refine Finset.sum_congr rfl fun i _ => Finset.sum_congr rfl fun j _ => ?_
  rw [heq]
  push_cast
  ring_nf

/-- The result is that of one process exactly if there is one, or if the width
    divides the length of the parts. -/
theorem total_eq_iff (hdx : 0 < dx) (hk : 1 ≤ k) :
    total dx k = rectangleArea 0 1 dx ↔ k = 1 ∨ ∃ m : ℕ, m * (k * dx) = 1 := by
  rw [total_eq hdx, rectangleArea_whole hdx, Part.some_inj]
  have hone := mul_step hk
  -- The shares cover at least what there is to cover.
  constructor
  · intro heq
    by_contra hnot
    rw [not_or] at hnot
    -- A part that is no multiple of the width is overrun by its last rectangle.
    have hlt : step k < share dx k * dx := by
      refine lt_of_le_of_ne (step_le_share hdx) fun hshare => hnot.2 ⟨share dx k, ?_⟩
      rw [hshare] at hone
      linarith
    have hmore := gridSum_lt_partsSum hdx (by omega) hlt
    have hless := gridSum_mono hdx (turns_le_share hdx hk)
    linarith
  -- One process has the whole interval.
  · rintro (rfl | ⟨m, hm⟩)
    · rw [Nat.cast_one, one_mul] at hone
      unfold partsSum share gridSum
      rw [hone, Finset.sum_range_one]
      simp only [Nat.cast_zero, zero_mul, zero_add]
    -- Otherwise each part has the same number of rectangles, and none is left over.
    · refine partsSum_eq hdx hk ?_
      have hpart : step k = m * dx := by
        have hk0 : (k : ℚ) ≠ 0 := by
          have hpos : k ≠ 0 := by omega
          exact_mod_cast hpos
        refine mul_left_cancel₀ hk0 ?_
        rw [hone, ← hm]
        ring
      have hshare : share dx k = m := by
        unfold share turns
        rw [hpart, sub_zero, mul_div_cancel_right₀ _ (ne_of_gt hdx), Nat.ceil_natCast]
      rw [hshare, hpart]

/-- Four processes and a width that divides a quarter. -/
theorem total_of_four : total (1 / 1000) 4 = rectangleArea 0 1 (1 / 1000) :=
  (total_eq_iff (by norm_num) (by norm_num)).mpr (Or.inr ⟨250, by norm_num⟩)

/-- With the width 1, two processes add up two rectangles. -/
theorem total_of_two : total 1 2 ≠ rectangleArea 0 1 1 := by
  have hshare : share 1 2 = 1 := by
    rw [share, turns, step, Nat.ceil_eq_iff (by norm_num)]
    norm_num
  have hwhole : turns 0 1 1 = 1 := by
    rw [turns, Nat.ceil_eq_iff (by norm_num)]
    norm_num
  have htwo : partsSum 1 2 = 36 / 5 := by
    rw [partsSum, hshare]
    norm_num [Finset.sum_range_succ, f, step]
  have hone : gridSum 1 (turns 0 1 1) = 4 := by
    rw [gridSum, hwhole]
    norm_num [f]
  rw [total_eq (by norm_num), rectangleArea_whole (by norm_num), Ne, Part.some_inj, htwo, hone]
  norm_num

end Total

end Processes

end Integration

end OsLabs
