import Mathlib.Data.Rat.Floor
import Mathlib.Tactic.FieldSimp
import OsLabs.Library.Loop
import OsLabs.Library.Tiling

/-!
# Integration by Threads

`cw09/assignment/main.c`. The interval of integration is cut into rectangles
of the width that was asked for, and the rectangles are shared out between
threads. Numbers are exact here: `long double` is a rational, and `long long`
an integer unless the range of the type is what is asked about.

How the rectangles are shared out is right for any numbers. The boundary of a
thread's range is a quotient, and it is the same quotient that the next thread
starts from, so nothing is left out and nothing is added up twice.

What is shared out need not be what was asked for. The number of rectangles is
converted to `long long` and multiplied by the number of a thread, and the
width is only bounded from above. And it is rounded down, so that the last
rectangle ends before 1 unless the width divides 1.

Left out are the creation and joining of the threads, which write to places of
their own, and the time that is measured.

## Main definitions

* `ThreadData`, `Locals`, `threadFunction`: A thread.
* `numIntervals`, `results`, `total`: The `main` function.
* `Accepted`: The arguments that `main` goes on with.
* `SplitExact`: The work is split exactly.
* `range64`, `RangesExact`: The arithmetic in 64 bits.
* `rectangles`: What is added up.

## Theorems

* `iterate_body`, `ends_body`: The loop of a thread in closed form.
* `flatMap_indices`: The ranges of the threads make one range.
* `split_exact`: The result does not depend on the number of threads.
* `ranges_exact_iff`: When the arithmetic stays in range.
* `rectangles_tile_iff`: When the rectangles fill the interval.
-/

namespace OsLabs

namespace Integration

open Loop

/-- `f` -/
def f (x : ℚ) : ℚ := 4 / (x * x + 1)

/-- `ThreadData`, without the place for the result. -/
structure ThreadData where
  threadId : ℤ
  numThreads : ℤ
  dx : ℚ
  numIntervals : ℤ

/-- The variables of the loop in `thread_function`. -/
structure Locals where
  i : ℤ
  x : ℚ
  localSum : ℚ

namespace ThreadData

/-- `start` -/
def start (data : ThreadData) : ℤ := (data.threadId * data.numIntervals).tdiv data.numThreads

/-- `end` -/
def stop (data : ThreadData) : ℤ := ((data.threadId + 1) * data.numIntervals).tdiv data.numThreads

/-- The variables before the first turn. -/
def enter (data : ThreadData) : Locals := ⟨data.start, data.start * data.dx, 0⟩

/-- A turn of the loop, with the increment. -/
def body (data : ThreadData) (l : Locals) : Locals where
  i := l.i + 1
  x := l.x + data.dx
  localSum := l.localSum + f l.x * data.dx

/-- The variables in every turn. -/
def turns (data : ThreadData) : Part (List Locals) :=
  visited (fun l => l.i < data.stop) data.body data.enter

/-- `thread_function`, with what it writes to its place in `results`. -/
def threadFunction (data : ThreadData) : Part ℚ :=
  (loop (fun l => l.i < data.stop) data.body data.enter).map Locals.localSum

/-- The rectangles that a thread adds up. -/
def rectangles (data : ThreadData) : Part (List (ℚ × ℚ)) :=
  data.turns.map (List.map fun l => (l.x, l.x + data.dx))

end ThreadData

/-- The conversion to an integer type, which drops the fraction. -/
def truncate (q : ℚ) : ℤ := q.num.tdiv q.den

/-- `num_intervals` -/
def numIntervals (dx : ℚ) : ℤ := truncate (1 / dx)

/-- `thread_data[i]` -/
def threadData (dx : ℚ) (numThreads : ℕ) (n : ℤ) (i : ℕ) : ThreadData := ⟨i, numThreads, dx, n⟩

/-- `results`, when all threads have been joined. -/
def results (dx : ℚ) (numThreads : ℕ) (n : ℤ) : Part (List ℚ) :=
  (List.range numThreads).mapM fun i => (threadData dx numThreads n i).threadFunction

/-- `total` -/
def total (dx : ℚ) (numThreads : ℕ) (n : ℤ) : Part ℚ :=
  (results dx numThreads n).map (List.foldl (· + ·) 0)

/-- The arguments that `main` goes on with. -/
structure Accepted (dx : ℚ) (numThreads : ℕ) : Prop where
  pos : 0 < dx
  le_one : dx ≤ 1
  threads : 1 ≤ numThreads
  threads_le : numThreads ≤ 1024

section Thread

variable (data : ThreadData)

/-- The value added in the turn with the given index. -/
def term (dx : ℚ) (i : ℤ) : ℚ := f (i * dx) * dx

/-- The variables after a number of turns. -/
theorem iterate_body (m : ℕ) : data.body^[m] data.enter =
    ⟨data.start + m, (data.start + m : ℤ) * data.dx,
      ((List.range m).map fun j : ℕ => term data.dx (data.start + j)).sum⟩ := by
  induction m with
  | zero => simp only [Function.iterate_zero, id_eq, ThreadData.enter, Nat.cast_zero, add_zero,
      List.range_zero, List.map_nil, List.sum_nil]
  | succ m ih =>
      rw [Function.iterate_succ_apply', ih, ThreadData.body, Locals.mk.injEq]
      refine ⟨by push_cast; ring, by push_cast; ring, ?_⟩
      rw [List.range_succ, List.map_append, List.sum_append, List.map_singleton,
        List.sum_singleton]
      rfl

/-- The loop takes a turn for each index of the range. -/
theorem ends_body : Ends (fun l : Locals => l.i < data.stop) data.body data.enter
    (data.stop - data.start).toNat where
  turns := by
    intro m hm
    rw [iterate_body]
    change data.start + m < data.stop
    omega
  stops := by
    rw [iterate_body]
    change ¬ data.start + ((data.stop - data.start).toNat : ℤ) < data.stop
    omega

theorem turns_eq : data.turns = Part.some ((List.range (data.stop - data.start).toNat).map
    fun m => data.body^[m] data.enter) :=
  visited_eq_some (ends_body data)

/-- The indices of the turns are those of the range. -/
theorem indices_turns : (List.range (data.stop - data.start).toNat).map
    (fun m => (data.body^[m] data.enter).i) = Int.range data.start data.stop := by
  simp only [iterate_body]
  rfl

theorem threadFunction_eq : data.threadFunction
    = Part.some ((Int.range data.start data.stop).map (term data.dx)).sum := by
  rw [ThreadData.threadFunction, loop_eq_some (ends_body data), Part.map_some, iterate_body,
    Int.range, List.map_map]
  rfl

theorem rectangles_eq : data.rectangles = Part.some ((Int.range data.start data.stop).map
    fun i : ℤ => (i * data.dx, i * data.dx + data.dx)) := by
  rw [ThreadData.rectangles, turns_eq, Part.map_some, List.map_map, Int.range, List.map_map]
  simp only [Function.comp_def, iterate_body]

end Thread

section Split

variable {dx : ℚ} {numThreads : ℕ} {n : ℤ}

/-- The boundaries of the ranges. -/
def boundary (numThreads : ℕ) (n : ℤ) (i : ℕ) : ℤ := (i * n).tdiv numThreads

theorem start_threadData (i : ℕ) :
    (threadData dx numThreads n i).start = boundary numThreads n i :=
  rfl

/-- A thread stops where the next one starts. -/
theorem stop_threadData (i : ℕ) :
    (threadData dx numThreads n i).stop = boundary numThreads n (i + 1) := by
  rw [ThreadData.stop, boundary, Nat.cast_succ]
  rfl

theorem boundary_zero : boundary numThreads n 0 = 0 := by
  rw [boundary, Nat.cast_zero, Int.zero_mul, Int.zero_tdiv]

theorem boundary_last (hk : 1 ≤ numThreads) : boundary numThreads n numThreads = n := by
  have hne : (numThreads : ℤ) ≠ 0 := by omega
  exact Int.mul_tdiv_cancel_left n hne

theorem boundary_eq_ediv (hn : 0 ≤ n) (i : ℕ) : boundary numThreads n i = i * n / numThreads :=
  Int.tdiv_eq_ediv_of_nonneg (Int.mul_nonneg (Int.natCast_nonneg i) hn)

theorem boundary_le (hn : 0 ≤ n) (hk : 1 ≤ numThreads) (i : ℕ) :
    boundary numThreads n i ≤ boundary numThreads n (i + 1) := by
  have hpos : (0 : ℤ) < numThreads := by omega
  have hmul : (i : ℤ) * n ≤ ((i + 1 : ℕ) : ℤ) * n :=
    Int.mul_le_mul_of_nonneg_right (by omega) hn
  rw [boundary_eq_ediv hn, boundary_eq_ediv hn]
  exact Int.ediv_le_ediv hpos hmul

/-- The ranges of the threads follow on each other and make one range. -/
theorem flatMap_indices (hn : 0 ≤ n) (hk : 1 ≤ numThreads) :
    (List.range numThreads).flatMap (fun i => Int.range (threadData dx numThreads n i).start
      (threadData dx numThreads n i).stop) = Int.range 0 n := by
  have hranges := flatMap_range (boundary_le hn hk) numThreads
  rw [boundary_zero, boundary_last hk] at hranges
  rw [← hranges]
  simp only [start_threadData, stop_threadData]

theorem results_eq : results dx numThreads n = Part.some ((List.range numThreads).map fun i =>
    ((Int.range (threadData dx numThreads n i).start (threadData dx numThreads n i).stop).map
      (term dx)).sum) := by
  unfold results
  simp only [threadFunction_eq]
  exact List.mapM_pure

theorem total_eq (hn : 0 ≤ n) (hk : 1 ≤ numThreads) :
    total dx numThreads n = Part.some ((Int.range 0 n).map (term dx)).sum := by
  rw [total, results_eq, Part.map_some, ← List.sum_eq_foldl, ← flatMap_indices hn hk,
    List.map_flatMap, List.flatMap_def, List.sum_flatten, List.map_map]
  rfl

/-- The work is split exactly, whatever the number of threads: the ranges make
    up the indices in order, the running `x` is the place of the index, and
    the total is what a single thread computes. -/
structure SplitExact (dx : ℚ) (numThreads : ℕ) (n : ℤ) : Prop where
  ranges : (List.range numThreads).flatMap (fun i => Int.range (threadData dx numThreads n i).start
    (threadData dx numThreads n i).stop) = Int.range 0 n
  turns : ∀ i < numThreads, ∃ ls ∈ (threadData dx numThreads n i).turns,
    ls.map Locals.i = Int.range (threadData dx numThreads n i).start
      (threadData dx numThreads n i).stop ∧ ∀ l ∈ ls, l.x = l.i * dx
  total : total dx numThreads n = Part.some ((Int.range 0 n).map fun i : ℤ => f (i * dx) * dx).sum
  single : Integration.total dx numThreads n = Integration.total dx 1 n

theorem split_exact (dx : ℚ) {n : ℤ} {numThreads : ℕ} (hn : 0 ≤ n) (hk : 1 ≤ numThreads) :
    SplitExact dx numThreads n where
  ranges := flatMap_indices hn hk
  turns := by
    intro i _
    refine ⟨_, Part.eq_some_iff.mp (turns_eq _), ?_, ?_⟩
    · rw [List.map_map]
      exact indices_turns _
    · intro l hl
      rcases List.mem_map.mp hl with ⟨m, _, rfl⟩
      rw [iterate_body]
      rfl
  total := total_eq hn hk
  single := by
    rw [total_eq hn hk, total_eq hn (Nat.le_refl 1)]

/-- Five rectangles and eight threads. -/
theorem split_exact_of_few : SplitExact (1 / 5) 8 5 := split_exact (1 / 5) (by decide) (by decide)

end Split

theorem truncate_eq_floor {q : ℚ} (hq : 0 ≤ q) : truncate q = ⌊q⌋ := by
  rw [truncate, Rat.floor_def', Int.tdiv_eq_ediv_of_nonneg (Rat.num_nonneg.mpr hq)]

theorem numIntervals_eq_floor {dx : ℚ} (hdx : 0 < dx) : numIntervals dx = ⌊1 / dx⌋ :=
  truncate_eq_floor (le_of_lt (one_div_pos.mpr hdx))

/-- A width that is accepted gives a rectangle at least. -/
theorem one_le_numIntervals {dx : ℚ} (hpos : 0 < dx) (hle : dx ≤ 1) : 1 ≤ numIntervals dx := by
  rw [numIntervals_eq_floor hpos, Int.le_floor, Int.cast_one]
  exact (one_le_div hpos).mpr hle

section Machine

/-- The greatest value of `long long`. -/
def longLongMax : ℤ := 2 ^ 63 - 1

/-- A value that does not fit into `long long` is not computed. -/
def longLong (z : ℤ) : Option ℤ := if -longLongMax - 1 ≤ z ∧ z ≤ longLongMax then some z else none

/-- `num_intervals` in 64 bits. -/
def numIntervals64 (dx : ℚ) : Option ℤ := longLong (truncate (1 / dx))

/-- `start` and `end` in 64 bits. -/
def ThreadData.range64 (data : ThreadData) : Option (ℤ × ℤ) :=
  match longLong (data.threadId * data.numIntervals),
    longLong ((data.threadId + 1) * data.numIntervals) with
  | some a, some b => some (a.tdiv data.numThreads, b.tdiv data.numThreads)
  | _, _ => none

/-- The number of rectangles and the ranges of all threads are computed in 64
    bits as they are in exact arithmetic. -/
def RangesExact (dx : ℚ) (numThreads : ℕ) : Prop :=
  numIntervals64 dx = some (numIntervals dx) ∧ ∀ i < numThreads,
    (threadData dx numThreads (numIntervals dx) i).range64
      = some ((threadData dx numThreads (numIntervals dx) i).start,
          (threadData dx numThreads (numIntervals dx) i).stop)

theorem longLong_eq_some_iff {z : ℤ} (hz : 0 ≤ z) : longLong z = some z ↔ z ≤ longLongMax := by
  unfold longLong longLongMax
  constructor
  · intro h
    by_contra hbig
    rw [if_neg (fun hrange => hbig hrange.2)] at h
    cases h
  · intro h
    exact if_pos ⟨by omega, h⟩

/-- Both products of a thread have to fit. -/
theorem range64_eq_iff {data : ThreadData} (hid : 0 ≤ data.threadId)
    (hn : 0 ≤ data.numIntervals) :
    data.range64 = some (data.start, data.stop) ↔
      (data.threadId + 1) * data.numIntervals ≤ longLongMax := by
  have hstart : 0 ≤ data.threadId * data.numIntervals := Int.mul_nonneg hid hn
  have hle : data.threadId * data.numIntervals ≤ (data.threadId + 1) * data.numIntervals :=
    Int.mul_le_mul_of_nonneg_right (by omega) hn
  rw [← longLong_eq_some_iff (Int.le_trans hstart hle)]
  constructor
  · intro h
    unfold ThreadData.range64 at h
    split at h
    · rename_i a b _ hb
      rw [hb]
      unfold longLong at hb
      split at hb
      · exact hb.symm
      · cases hb
    · cases h
  · intro h
    have hfits := (longLong_eq_some_iff (Int.le_trans hstart hle)).mp h
    have h' := (longLong_eq_some_iff hstart).mpr (Int.le_trans hle hfits)
    rw [ThreadData.range64, h, h']
    rfl

/-- The greatest product is the last one. -/
theorem ranges_exact_iff_product {dx : ℚ} {numThreads : ℕ} (h : Accepted dx numThreads) :
    RangesExact dx numThreads ↔ numThreads * numIntervals dx ≤ longLongMax := by
  have hn : 1 ≤ numIntervals dx := one_le_numIntervals h.pos h.le_one
  have hk := h.threads
  have hn0 : 0 ≤ numIntervals dx := by omega
  have hrange : ∀ i : ℕ, (threadData dx numThreads (numIntervals dx) i).range64
      = some ((threadData dx numThreads (numIntervals dx) i).start,
          (threadData dx numThreads (numIntervals dx) i).stop) ↔
        ((i : ℤ) + 1) * numIntervals dx ≤ longLongMax :=
    fun i => range64_eq_iff (Int.natCast_nonneg i) hn0
  constructor
  · intro hexact
    have hlast := (hrange (numThreads - 1)).mp (hexact.2 (numThreads - 1) (by omega))
    have hcast : ((numThreads - 1 : ℕ) : ℤ) + 1 = numThreads := by omega
    rwa [hcast] at hlast
  · intro hfits
    refine ⟨?_, fun i hi => (hrange i).mpr ?_⟩
    · refine (longLong_eq_some_iff hn0).mpr (Int.le_trans ?_ hfits)
      exact le_mul_of_one_le_left hn0 (by omega)
    · refine Int.le_trans ?_ hfits
      exact Int.mul_le_mul_of_nonneg_right (by omega) hn0

/-- The arithmetic stays in range exactly if the width is not too small for
    the number of threads. -/
theorem ranges_exact_iff {dx : ℚ} {numThreads : ℕ} (h : Accepted dx numThreads) :
    RangesExact dx numThreads ↔ 1 < dx * ((longLongMax / numThreads + 1 : ℤ) : ℚ) := by
  have hk : (0 : ℤ) < numThreads := by exact_mod_cast h.threads
  rw [ranges_exact_iff_product h, Int.mul_comm, ← Int.le_ediv_iff_mul_le hk,
    ← Int.lt_add_one_iff, numIntervals_eq_floor h.pos, Int.floor_lt, div_lt_iff₀ h.pos, mul_comm dx]

/-- The width of the task and the greatest number of threads. -/
theorem ranges_exact_usual : RangesExact (1 / 1000000000) 1024 :=
  (ranges_exact_iff ⟨by norm_num, by norm_num, by norm_num, by norm_num⟩).mpr (by
    norm_num [longLongMax])

/-- A width for which the number of rectangles fits, and the product does
    not. -/
theorem product_overflows : Accepted (1 / 10 ^ 18) 1024 ∧ ¬ RangesExact (1 / 10 ^ 18) 1024 := by
  have haccepted : Accepted (1 / 10 ^ 18) 1024 :=
    ⟨by norm_num, by norm_num, by norm_num, by norm_num⟩
  refine ⟨haccepted, ?_⟩
  rw [ranges_exact_iff_product haccepted, numIntervals_eq_floor haccepted.pos, one_div_one_div]
  have hfloor : ⌊(10 ^ 18 : ℚ)⌋ = 10 ^ 18 := by
    rw [Int.floor_eq_iff]
    norm_num
  rw [hfloor]
  decide

end Machine

section Rectangles

/-- The rectangles that all threads add up. -/
def rectangles (dx : ℚ) (numThreads : ℕ) : Part (List (ℚ × ℚ)) :=
  ((List.range numThreads).mapM fun i =>
    (threadData dx numThreads (numIntervals dx) i).rectangles).map List.flatten

/-- All threads together add up equally wide rectangles from 0 on. -/
theorem rectangles_all {dx : ℚ} {numThreads : ℕ} (hn : 0 ≤ numIntervals dx)
    (hk : 1 ≤ numThreads) : rectangles dx numThreads = Part.some
      ((Int.range 0 (numIntervals dx)).map fun i : ℤ => (i * dx, i * dx + dx)) := by
  unfold rectangles
  simp only [rectangles_eq]
  rw [← @flatMap_indices dx _ _ hn hk, List.map_flatMap, List.flatMap_def]
  have hmap := List.mapM_pure (m := Part) (l := List.range numThreads) (f := fun i =>
    (Int.range (threadData dx numThreads (numIntervals dx) i).start
      (threadData dx numThreads (numIntervals dx) i).stop).map
        fun j : ℤ => ((j * dx, j * dx + dx) : ℚ × ℚ))
  exact (congrArg (Part.map List.flatten) hmap).trans (Part.map_some _ _)

theorem tiles_rectangles {dx : ℚ} (hdx : 0 < dx) {n : ℤ} (hn : 0 ≤ n) :
    Tiles 0 ((Int.range 0 n).map fun i : ℤ => (i * dx, i * dx + dx)) (n * dx) := by
  have hgrid := tiles_grid hdx 0 n.toNat
  have hcast : ((n.toNat : ℕ) : ℚ) = n := by exact_mod_cast Int.toNat_of_nonneg hn
  rw [hcast, zero_add] at hgrid
  rw [Int.range, List.map_map, Int.sub_zero]
  simpa only [Function.comp_def, zero_add, Int.cast_natCast] using hgrid

/-- Where the last rectangle ends. -/
theorem rectangles_end_iff {dx : ℚ} {numThreads : ℕ} (hpos : 0 < dx) (hle : dx ≤ 1)
    (hk : 1 ≤ numThreads) :
    (∃ rs ∈ rectangles dx numThreads, Tiles 0 rs 1) ↔ numIntervals dx * dx = 1 := by
  have hn : 0 ≤ numIntervals dx := Int.le_trans (by decide) (one_le_numIntervals hpos hle)
  have htiles := tiles_rectangles hpos hn
  simp only [rectangles_all hn hk, Part.mem_some_iff, exists_eq_left]
  constructor
  · intro hone
    exact htiles.unique hone
  · intro hend
    rwa [hend] at htiles

/-- The rectangles fill the interval of integration exactly if its length is a
    multiple of the width. -/
theorem rectangles_tile_iff {dx : ℚ} {numThreads : ℕ} (hpos : 0 < dx) (hle : dx ≤ 1)
    (hk : 1 ≤ numThreads) :
    (∃ rs ∈ rectangles dx numThreads, Tiles 0 rs 1) ↔ ∃ m : ℕ, m * dx = 1 := by
  have hn := one_le_numIntervals hpos hle
  rw [rectangles_end_iff hpos hle hk]
  constructor
  · intro hend
    refine ⟨(numIntervals dx).toNat, ?_⟩
    have hcast : (((numIntervals dx).toNat : ℕ) : ℚ) = numIntervals dx := by
      exact_mod_cast Int.toNat_of_nonneg (Int.le_trans (by decide) hn)
    rwa [hcast]
  · rintro ⟨m, hm⟩
    have hdiv : 1 / dx = (m : ℤ) := by
      rw [← hm, mul_div_cancel_right₀ _ (ne_of_gt hpos), Int.cast_natCast]
    rw [numIntervals_eq_floor hpos, hdiv, Int.floor_intCast, Int.cast_natCast, hm]

/-- The width of the task. -/
theorem rectangles_tile_usual : ∃ rs ∈ rectangles (1 / 1000) 4, Tiles 0 rs 1 :=
  (rectangles_tile_iff (by norm_num) (by norm_num) (by norm_num)).mpr ⟨1000, by norm_num⟩

/-- With a width of two thirds there is one rectangle, and the last third is
    left out. -/
theorem rectangles_leave_gap : Accepted (2 / 3) 4 ∧
    ¬ ∃ rs ∈ rectangles (2 / 3) 4, Tiles 0 rs 1 := by
  have haccepted : Accepted (2 / 3) 4 := ⟨by norm_num, by norm_num, by norm_num, by norm_num⟩
  refine ⟨haccepted, ?_⟩
  rw [rectangles_end_iff haccepted.pos haccepted.le_one haccepted.threads]
  intro hend
  have hint : numIntervals (2 / 3) * 2 = 3 := by
    have hmul : (numIntervals (2 / 3) : ℚ) * 2 = 3 := by linarith
    exact_mod_cast hmul
  omega

end Rectangles

end Integration

end OsLabs
