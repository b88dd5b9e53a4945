import OsLabs.Library.CString
import Mathlib.Algebra.BigOperators.Fin

/-!
# Texts Put Together in a Loop

A loop over an array that appends a line with `strcat` for each entry that
passes a test. `strcat` does not know how large the buffer is, so what is
asked of such a loop is that the text fits after every turn. Since the text
only grows, that is a question about the text at the end, and its length is a
sum over the array.

## Main definitions

* `catLines`: The buffer after the loop.

## Theorems

* `catLines_eq`: The loop appends the lines of the entries that pass.
* `length_catLines`: The length of the text at the end.
* `catLines_fits_iff`: The text fits after every turn if it fits at the end.
-/

namespace OsLabs

section Strcat

variable {ι : Type*} {p : ι → Bool} {line : ι → Bytes}

/-- The buffer after a loop over the entries. -/
def catLines (p : ι → Bool) (line : ι → Bytes) (buffer : Bytes) (l : List ι) : Bytes :=
  l.foldl (fun buffer i => if p i then buffer ++ line i else buffer) buffer

/-- The loop appends the lines of the entries that pass. -/
theorem catLines_eq (buffer : Bytes) (l : List ι) :
    catLines p line buffer l = buffer ++ (l.filter p).flatMap line := by
  unfold catLines
  induction l generalizing buffer with
  | nil => exact (List.append_nil buffer).symm
  | cons i l ih =>
      rw [List.foldl_cons, ih, List.filter_cons]
      by_cases hp : p i = true
      · rw [if_pos hp, if_pos hp, List.flatMap_cons, List.append_assoc]
      · rw [if_neg hp, if_neg hp]

/-- The text only grows. -/
theorem catLines_take_length_le (buffer : Bytes) (l : List ι) (k : Nat) :
    (catLines p line buffer (l.take k)).length ≤ (catLines p line buffer l).length := by
  -- The lines of the first entries begin the lines of all.
  have hsplit : (l.filter p).flatMap line
      = ((l.take k).filter p).flatMap line ++ ((l.drop k).filter p).flatMap line := by
    rw [← List.flatMap_append, ← List.filter_append, List.take_append_drop]
  rw [catLines_eq, catLines_eq, hsplit, List.length_append, List.length_append, List.length_append]
  omega

/-- The length of the text at the end. -/
theorem length_catLines {n : Nat} {p : Fin n → Bool} {line : Fin n → Bytes} (buffer : Bytes) :
    (catLines p line buffer (List.finRange n)).length
      = buffer.length + ∑ i, if p i then (line i).length else 0 := by
  have hlength : ∀ l : List (Fin n), ((l.filter p).flatMap line).length
      = (l.map fun i => if p i then (line i).length else 0).sum := by
    intro l
    induction l with
    | nil => rfl
    | cons i l ih =>
        rw [List.filter_cons, List.map_cons, List.sum_cons]
        by_cases hp : p i = true
        · rw [if_pos hp, if_pos hp, List.flatMap_cons, List.length_append, ih]
        · rw [if_neg hp, if_neg hp, ih, Nat.zero_add]
  rw [catLines_eq, List.length_append, hlength, Fin.sum_univ_def]

/-- The text fits after every turn exactly if it fits at the end. -/
theorem catLines_fits_iff {n : Nat} (p : Fin n → Bool) (line : Fin n → Bytes) (buffer : Bytes)
    (size : Nat) :
    (∀ k ≤ n, (catLines p line buffer ((List.finRange n).take k)).length < size) ↔
      buffer.length + (∑ i, if p i then (line i).length else 0) < size := by
  rw [← length_catLines]
  constructor
  · intro h
    have hlast := h n (le_refl n)
    rwa [List.take_of_length_le (le_of_eq (List.length_finRange))] at hlast
  · exact fun h k _ => lt_of_le_of_lt (catLines_take_length_le buffer _ k) h

end Strcat

end OsLabs
