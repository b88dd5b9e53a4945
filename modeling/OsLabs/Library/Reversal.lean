import Mathlib.Data.List.Basic
import Mathlib.Logic.Basic

/-!
# Reversal in Place

The loop that swaps the ends of an array and moves both ends inwards. Its
indices are signed, as they are in C, so that an empty array is the case in
which the right end starts below the left one.

What the loop does is said entry by entry: between the two ends it mirrors,
outside it changes nothing. Started at the left end of an array it reverses a
prefix, which is the whole array only if the right end was computed from the
right length.

## Main definitions

* `swap`: Two entries exchanged.
* `reverseLoop`: The loop.
* `reversePrefix`: A list with its first entries reversed.

## Theorems

* `getElem?_reverseLoop`: The loop, entry by entry.
* `reverseLoop_eq`: Started at zero it reverses a prefix.
* `reversePrefix_reversePrefix`: Doing so twice changes nothing.
* `reversePrefix_perm`: Nothing is lost.
-/

namespace OsLabs

section Reversal

variable {α : Type*}

/-- Two entries exchanged, if they are there. -/
def swap (xs : List α) (i j : Nat) : List α :=
  match xs[i]?, xs[j]? with
  | some a, some b => (xs.set i b).set j a
  | _, _ => xs

/-- `for (; i < j; i++, j--)` with the entries at `i` and `j` swapped. -/
def reverseLoop (xs : List α) (i j : Int) : List α :=
  if i < j then reverseLoop (swap xs i.toNat j.toNat) (i + 1) (j - 1) else xs
termination_by (j - i).toNat
decreasing_by omega

/-- A list with its first `n` entries reversed. -/
def reversePrefix (n : Nat) (xs : List α) : List α := (xs.take n).reverse ++ xs.drop n

theorem length_swap (xs : List α) (i j : Nat) : (swap xs i j).length = xs.length := by
  unfold swap
  split
  · rw [List.length_set, List.length_set]
  · rfl

theorem getElem?_swap {xs : List α} {i j : Nat} (hi : i < xs.length) (hj : j < xs.length)
    (k : Nat) : (swap xs i j)[k]? = if k = j then xs[i]? else if k = i then xs[j]? else xs[k]? := by
  have hswap : swap xs i j = (xs.set i xs[j]).set j xs[i] := by
    simp only [swap, List.getElem?_eq_getElem hi, List.getElem?_eq_getElem hj]
  rw [hswap]
  by_cases hkj : k = j
  · rw [if_pos hkj, hkj, List.getElem?_set_self (by rwa [List.length_set]),
      List.getElem?_eq_getElem hi]
  · rw [if_neg hkj, List.getElem?_set_ne (Ne.symm hkj)]
    by_cases hki : k = i
    · rw [if_pos hki, hki, List.getElem?_set_self hi, List.getElem?_eq_getElem hj]
    · rw [if_neg hki, List.getElem?_set_ne (Ne.symm hki)]

/-- Between the ends the loop mirrors, outside it changes nothing. -/
theorem getElem?_reverseLoop {xs : List α} {i j : Int} (hi : 0 ≤ i) (hj : j < xs.length)
    (k : Nat) : (reverseLoop xs i j)[k]?
      = if i ≤ k ∧ (k : Int) ≤ j then xs[(i + j - k).toNat]? else xs[k]? := by
  induction xs, i, j using reverseLoop.induct with
  | case1 xs i j hlt ih =>
      rw [reverseLoop, if_pos hlt, ih (by omega) (by rw [length_swap]; omega)]
      have hilt : i.toNat < xs.length := by omega
      have hjlt : j.toNat < xs.length := by omega
      -- The ends are mirrored by the swap, the rest by the turns that follow.
      by_cases hinner : i + 1 ≤ k ∧ (k : Int) ≤ j - 1
      · rw [if_pos hinner, if_pos (by omega), getElem?_swap hilt hjlt, if_neg (by omega),
          if_neg (by omega)]
        congr 2
        omega
      · rw [if_neg hinner, getElem?_swap hilt hjlt]
        by_cases hkj : k = j.toNat
        · rw [if_pos hkj, if_pos (by omega)]
          congr 1
          omega
        · rw [if_neg hkj]
          by_cases hki : k = i.toNat
          · rw [if_pos hki, if_pos (by omega)]
            congr 1
            omega
          · rw [if_neg hki, if_neg (by omega)]
  | case2 xs i j hge =>
      rw [reverseLoop, if_neg hge]
      by_cases hk : i ≤ k ∧ (k : Int) ≤ j
      · -- A single entry is its own mirror image.
        rw [if_pos hk]
        congr 1
        omega
      · rw [if_neg hk]

theorem length_reversePrefix (n : Nat) (xs : List α) :
    (reversePrefix n xs).length = xs.length := by
  rw [reversePrefix, List.length_append, List.length_reverse, ← List.length_append,
    List.take_append_drop]

theorem reverseLoop_eq {xs : List α} {j : Int} (hj : j < xs.length) :
    reverseLoop xs 0 j = reversePrefix (j + 1).toNat xs := by
  have hn : (j + 1).toNat ≤ xs.length := by omega
  have htake : (xs.take (j + 1).toNat).length = (j + 1).toNat := List.length_take_of_le hn
  ext1 k
  rw [getElem?_reverseLoop (Int.le_refl 0) hj, reversePrefix]
  by_cases hk : k < (j + 1).toNat
  · rw [if_pos (by omega), List.getElem?_append_left (by rw [List.length_reverse, htake]; exact hk),
      List.getElem?_reverse (by rw [htake]; exact hk), htake, List.getElem?_take_of_lt (by omega)]
    congr 1
    omega
  · rw [if_neg (by omega), List.getElem?_append_right (by rw [List.length_reverse, htake]; omega),
      List.length_reverse, htake, List.getElem?_drop]
    congr 1
    omega

theorem reversePrefix_of_length_le {n : Nat} {xs : List α} (h : xs.length ≤ n) :
    reversePrefix n xs = xs.reverse := by
  rw [reversePrefix, List.take_of_length_le h, List.drop_of_length_le h, List.append_nil]

theorem reversePrefix_append {n : Nat} {xs : List α} (ys : List α) (h : n ≤ xs.length) :
    reversePrefix n (xs ++ ys) = reversePrefix n xs ++ ys := by
  rw [reversePrefix, reversePrefix, List.take_append_of_le_length h,
    List.drop_append_of_le_length h, List.append_assoc]

/-- A prefix reversed twice is the prefix. -/
theorem reversePrefix_reversePrefix (n : Nat) (xs : List α) :
    reversePrefix n (reversePrefix n xs) = xs := by
  by_cases h : xs.length ≤ n
  · rw [reversePrefix_of_length_le (by rwa [length_reversePrefix]), reversePrefix_of_length_le h,
      List.reverse_reverse]
  · have htake : (xs.take n).reverse.length = n := by
      rw [List.length_reverse]
      exact List.length_take_of_le (by omega)
    rw [reversePrefix, reversePrefix, List.take_left' htake, List.drop_left' htake,
      List.reverse_reverse, List.take_append_drop]

/-- Reversing a prefix only moves entries. -/
theorem reversePrefix_perm (n : Nat) (xs : List α) : (reversePrefix n xs).Perm xs := by
  have hfront : ((xs.take n).reverse ++ xs.drop n).Perm (xs.take n ++ xs.drop n) :=
    (List.reverse_perm _).append_right _
  rwa [List.take_append_drop] at hfront

theorem mem_reversePrefix {n : Nat} {xs : List α} {a : α} :
    a ∈ reversePrefix n xs ↔ a ∈ xs :=
  (reversePrefix_perm n xs).mem_iff

end Reversal

end OsLabs
