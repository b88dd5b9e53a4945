import Mathlib.Algebra.Order.Ring.Defs
import Mathlib.Data.Int.Range
import Mathlib.Tactic.Linarith
import Mathlib.Tactic.Ring

/-!
# Cutting and Tiling

Half-open intervals that follow on each other. A list of them tiles the
interval from `a` to `b` if the first begins at `a`, each begins where the
one before it ends, and the last ends at `b`.

Ranges of integers are cut the same way: boundaries that do not decrease cut a
range into consecutive ones, some of which may be empty.

## Main definitions

* `Tiles`: A list of intervals tiles an interval.

## Theorems

* `Tiles.append`: Tilings are put side by side.
* `Tiles.unique`: A list of intervals tiles one interval only.
* `tiles_grid`: Equally wide intervals.
* `range_append_range`, `flatMap_range`: Consecutive ranges make one range.
-/

namespace OsLabs

section Tiles

variable {α : Type*} [LinearOrder α] {a b c : α} {rs rs' : List (α × α)}

/-- The intervals follow on each other from the first point to the second. -/
inductive Tiles : α → List (α × α) → α → Prop where
  | nil (a : α) : Tiles a [] a
  | cons {a b c : α} {rs : List (α × α)} (hlt : a < b) (hrest : Tiles b rs c) :
      Tiles a ((a, b) :: rs) c

theorem Tiles.append (h : Tiles a rs b) (h' : Tiles b rs' c) : Tiles a (rs ++ rs') c := by
  induction h with
  | nil a => exact h'
  | cons hlt _ ih => exact .cons hlt (ih h')

theorem Tiles.unique (h : Tiles a rs b) (h' : Tiles a rs c) : b = c := by
  induction h with
  | nil a =>
      cases h' with
      | nil => rfl
  | cons hlt _ ih =>
      cases h' with
      | cons _ hrest => exact ih hrest

end Tiles

section Grid

variable {α : Type*} [CommRing α] [LinearOrder α] [IsStrictOrderedRing α]

/-- Equally wide intervals. -/
theorem tiles_grid {d : α} (hd : 0 < d) (a : α) (n : Nat) :
    Tiles a ((List.range n).map fun m : Nat => (a + m * d, a + m * d + d)) (a + n * d) := by
  induction n with
  | zero =>
      rw [Nat.cast_zero, zero_mul, add_zero]
      exact .nil a
  | succ n ih =>
      have hlast : Tiles (a + n * d) [(a + n * d, a + n * d + d)] (a + n * d + d) :=
        .cons (by linarith) (.nil _)
      have hend : a + (n + 1 : Nat) * d = a + n * d + d := by
        push_cast
        ring
      rw [List.range_succ, List.map_append, hend]
      exact ih.append hlast

end Grid

section Ranges

theorem range_self (a : ℤ) : Int.range a a = [] := by
  rw [Int.range, Int.sub_self]
  rfl

/-- A range is cut at any point of it. -/
theorem range_append_range {a b c : ℤ} (hab : a ≤ b) (hbc : b ≤ c) :
    Int.range a b ++ Int.range b c = Int.range a c := by
  unfold Int.range
  have hlength : (c - a).toNat = (b - a).toNat + (c - b).toNat := by omega
  have hshift : (fun r : Nat => b + (r : ℤ)) = fun r => a + ((b - a).toNat + r : Nat) := by
    ext r
    omega
  rw [hlength, List.range_add, List.map_append, List.map_map, hshift]
  rfl

/-- Boundaries that do not decrease cut a range into consecutive ranges. -/
theorem flatMap_range {g : Nat → ℤ} (hg : ∀ i, g i ≤ g (i + 1)) (k : Nat) :
    (List.range k).flatMap (fun i => Int.range (g i) (g (i + 1))) = Int.range (g 0) (g k) := by
  have hmono : ∀ i, g 0 ≤ g i := by
    intro i
    induction i with
    | zero => exact Int.le_refl _
    | succ i ih => exact Int.le_trans ih (hg i)
  induction k with
  | zero => exact (range_self _).symm
  | succ k ih =>
      rw [List.range_succ, List.flatMap_append, ih, List.flatMap_singleton]
      exact range_append_range (hmono k) (hg k)

end Ranges

end OsLabs
