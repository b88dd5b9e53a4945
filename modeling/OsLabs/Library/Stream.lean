import Mathlib.Data.List.Flatten
import Mathlib.Data.List.Infix

/-!
# Streams Cut into Chunks

A byte stream keeps the order of what is written to it and nothing else. The
reader gets it in chunks of the network's choosing, so what is known of the
chunks is their concatenation, and what is asked is whether the pieces that
were written can be told apart again.

Two ways of reading are treated. A reader that takes every chunk for a piece
recovers the pieces only if the chunks are the pieces
(`eq_of_prefix_of_flatten`). A reader that sorts chunks into two kinds by a
test recovers the two halves of the stream only if no chunk mixes them
(`pure_of_filter_flatten`), and that is also enough
(`filter_flatten_of_pure`).

## Main definitions

* `Interleaved`: A list made of two others, each in its order.

## Theorems

* `interleaved_mem`: The elements come from the two lists.
* `eq_of_prefix_of_flatten`: Pieces that begin the chunks and have the same
  concatenation are all of them.
* `pure_of_filter_flatten`, `filter_flatten_of_pure`: Sorting by chunks sorts
  the stream exactly when chunks are pure.
* `length_flatten_of_forall`: Pieces of one length.
* `length_eq_of_flatten_le`: Long pieces with a short concatenation.
-/

namespace OsLabs

section Stream

variable {α : Type*}

/-- A list made of the elements of two others, each in its own order. -/
inductive Interleaved : List α → List α → List α → Prop where
  | nil : Interleaved [] [] []
  | left {x : α} {xs ys zs : List α} (h : Interleaved xs ys zs) : Interleaved (x :: xs) ys (x :: zs)
  | right {y : α} {xs ys zs : List α} (h : Interleaved xs ys zs) :
      Interleaved xs (y :: ys) (y :: zs)

theorem interleaved_mem {xs ys zs : List α} (h : Interleaved xs ys zs) {z : α} (hz : z ∈ zs) :
    z ∈ xs ∨ z ∈ ys := by
  induction h with
  | nil => exact absurd hz List.not_mem_nil
  | left _ ih =>
      rcases List.mem_cons.mp hz with heq | hmem
      · exact Or.inl (List.mem_cons.mpr (Or.inl heq))
      · exact (ih hmem).imp_left (List.mem_cons_of_mem _)
  | right _ ih =>
      rcases List.mem_cons.mp hz with heq | hmem
      · exact Or.inr (List.mem_cons.mpr (Or.inl heq))
      · exact (ih hmem).imp_right (List.mem_cons_of_mem _)

/-- Pieces that the chunks begin with and that concatenate to the same stream
    are all the chunks. -/
theorem eq_of_prefix_of_flatten {xs ys : List (List α)} (hpre : xs <+: ys)
    (hflatten : xs.flatten = ys.flatten) (hne : ∀ y ∈ ys, y ≠ []) : xs = ys := by
  rcases hpre with ⟨rest, hrest⟩
  -- Nothing is left of the stream for the chunks that follow.
  have hnil : rest.flatten = [] := by
    rw [← hrest, List.flatten_append] at hflatten
    exact List.self_eq_append_right.mp hflatten
  cases rest with
  | nil => rwa [List.append_nil] at hrest
  | cons y rest =>
      have hy : y = [] := (List.append_eq_nil_iff.mp (by rwa [List.flatten_cons] at hnil)).1
      have hmem : y ∈ ys := by
        rw [← hrest]
        exact List.mem_append_right _ List.mem_cons_self
      exact absurd hy (hne y hmem)

/-- A reader that keeps the chunks passing `p` keeps the part `q` of the
    stream only if every chunk lies on one side of `q`. -/
theorem pure_of_filter_flatten {p : List α → Bool} {q : α → Bool} {chunks : List (List α)}
    (h : (chunks.filter p).flatten = chunks.flatten.filter q) :
    ∀ chunk ∈ chunks, ∀ a ∈ chunk, q a = p chunk := by
  induction chunks with
  | nil => exact fun chunk hchunk => absurd hchunk List.not_mem_nil
  | cons c chunks ih =>
      rw [List.flatten_cons, List.filter_append] at h
      -- Everything kept is on the right side.
      have hkept : ∀ a ∈ ((c :: chunks).filter p).flatten, q a = true := by
        intro a ha
        rw [h, ← List.filter_append] at ha
        exact (List.mem_filter.mp ha).2
      have hc : (∀ a ∈ c, q a = p c) ∧
          (chunks.filter p).flatten = chunks.flatten.filter q := by
        cases hpc : p c with
        | true =>
            rw [List.filter_cons_of_pos hpc, List.flatten_cons] at h hkept
            have hall : ∀ a ∈ c, q a = true :=
              fun a ha => hkept a (List.mem_append_left _ ha)
            rw [List.filter_eq_self.mpr hall] at h
            exact ⟨hall, List.append_cancel_left h⟩
        | false =>
            have hskip : ¬ p c = true := by rw [hpc]; exact Bool.false_ne_true
            rw [List.filter_cons_of_neg hskip] at h hkept
            -- The rest cannot make up for what is missing of this chunk.
            have hsub : List.Sublist (chunks.filter p).flatten (chunks.flatten.filter q) := by
              have hflat : List.Sublist (chunks.filter p).flatten chunks.flatten :=
                List.Sublist.flatten List.filter_sublist
              have hfilter := hflat.filter q
              rwa [List.filter_eq_self.mpr hkept] at hfilter
            have hlen := hsub.length_le
            rw [h, List.length_append] at hlen
            have hnone : c.filter q = [] := List.eq_nil_of_length_eq_zero (by omega)
            rw [hnone, List.nil_append] at h
            refine ⟨?_, h⟩
            intro a ha
            rw [← Bool.not_eq_true]
            exact List.filter_eq_nil_iff.mp hnone a ha
      intro chunk hchunk
      rcases List.mem_cons.mp hchunk with heq | hmem
      · rw [heq]
        exact hc.1
      · exact ih hc.2 chunk hmem

theorem filter_flatten_of_pure {p : List α → Bool} {q : α → Bool} {chunks : List (List α)}
    (h : ∀ chunk ∈ chunks, ∀ a ∈ chunk, q a = p chunk) :
    (chunks.filter p).flatten = chunks.flatten.filter q := by
  induction chunks with
  | nil => rfl
  | cons c chunks ih =>
      have hrest := ih (fun chunk hchunk => h chunk (List.mem_cons_of_mem _ hchunk))
      have hc := h c List.mem_cons_self
      rw [List.flatten_cons, List.filter_append]
      cases hpc : p c with
      | true =>
          have hall : c.filter q = c := by
            refine List.filter_eq_self.mpr (fun a ha => ?_)
            rw [hc a ha, hpc]
          rw [List.filter_cons_of_pos hpc, List.flatten_cons, hrest, hall]
      | false =>
          have hnone : c.filter q = [] := by
            refine List.filter_eq_nil_iff.mpr (fun a ha => ?_)
            rw [hc a ha, hpc]
            exact Bool.false_ne_true
          have hskip : ¬ p c = true := by rw [hpc]; exact Bool.false_ne_true
          rw [List.filter_cons_of_neg hskip, hrest, hnone, List.nil_append]

theorem length_flatten_of_forall {k : Nat} {xs : List (List α)} (h : ∀ x ∈ xs, x.length = k) :
    xs.flatten.length = k * xs.length := by
  induction xs with
  | nil => rfl
  | cons x xs ih =>
      have hrest := ih fun y hy => h y (List.mem_cons_of_mem _ hy)
      rw [List.flatten_cons, List.length_append, hrest, h x List.mem_cons_self, List.length_cons,
        Nat.mul_succ]
      omega

/-- Pieces of at least `k` elements whose concatenation has no more than `k`
    for each have exactly `k`. -/
theorem length_eq_of_flatten_le {k : Nat} {xs : List (List α)} (hlong : ∀ x ∈ xs, k ≤ x.length)
    (htotal : xs.flatten.length ≤ k * xs.length) : ∀ x ∈ xs, x.length = k := by
  have hleast : ∀ ys : List (List α), (∀ y ∈ ys, k ≤ y.length) →
      k * ys.length ≤ ys.flatten.length := by
    intro ys
    induction ys with
    | nil => exact fun _ => Nat.zero_le _
    | cons y ys ih =>
        intro hys
        have hy := hys y List.mem_cons_self
        have hrest := ih (fun z hz => hys z (List.mem_cons_of_mem _ hz))
        rw [List.flatten_cons, List.length_append, List.length_cons, Nat.mul_succ]
        omega
  induction xs with
  | nil => exact fun x hx => absurd hx List.not_mem_nil
  | cons x xs ih =>
      have hx := hlong x List.mem_cons_self
      have hxs : ∀ y ∈ xs, k ≤ y.length := fun y hy => hlong y (List.mem_cons_of_mem _ hy)
      have hrest := hleast xs hxs
      rw [List.flatten_cons, List.length_append, List.length_cons, Nat.mul_succ] at htotal
      intro y hy
      rcases List.mem_cons.mp hy with heq | hmem
      · rw [heq]
        omega
      · exact ih hxs (by omega) y hmem

end Stream

end OsLabs
