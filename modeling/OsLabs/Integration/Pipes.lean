import Mathlib.Data.List.GetD
import OsLabs.Integration.Processes

/-!
# The Processes and Their Pipes

The `main` function of `cw06/assignment/zad1.c` with its children. For each
number of processes the parent forks them, each with a pipe of its own, and
then reads the pipes in order. A child takes its loop turn by turn, writes its
result and exits; until it has written, a read from its pipe blocks. The
children and the parent take their steps in any order.

What the parent prints is the sum that was computed from the functions alone,
whatever the order. Whether it comes to print everything depends on the loops
of the children only: a child that never ends blocks the parent for good.

## Main definitions

* `Child`, `Main`: The children of the present round, and the parent.
* `mainStep`: A step of the parent or of a child.
* `Sound`: What is read and printed is what the functions compute.
* `rank`: How many steps there are left.
* `Finishes`: All loops end, and so does the program.

## Theorems

* `sound_step`: The processes compute the sums.
* `rank_lt`: Every step is one of those left.
* `finishes_iff`: When the program ends.
-/

namespace OsLabs

namespace Integration

namespace Processes

open Loop Machine

/-- A child: in `rectangle_area`, or after it has written its result. -/
inductive Child where
  | running (stop : ℚ) (l : Locals)
  | exited (result : ℚ)

/-- The parent, with the children of the present round, what it has read from
    their pipes, and what it has printed. -/
structure Main where
  k : ℕ
  children : List Child
  partials : List ℚ
  outputs : List (ℕ × ℚ)

def Main.init : Main := ⟨1, [], [], []⟩

/-- The child that is forked as number `i`. -/
def newChild (k i : ℕ) : Child := .running ((i + 1) * step k) ⟨i * step k, 0⟩

/-- A turn of the loop of a child, or its end. -/
def childStep (dx : ℚ) : Child → Option Child
  | .running stop l =>
      some (if l.x < stop then .running stop (body dx l) else .exited l.sum)
  | .exited _ => none

/-- The next step of the parent: a fork, a read, or the end of the round. -/
def parentStep (maxK : ℤ) (s : Main) : Option Main :=
  if (s.k : ℤ) ≤ maxK then
    if s.children.length < s.k then
      some { s with children := s.children ++ [newChild s.k s.children.length] }
    else if s.partials.length < s.k then
      match s.children[s.partials.length]? with
      | some (.exited result) => some { s with partials := s.partials ++ [result] }
      | _ => none
    else some ⟨s.k + 1, [], [], s.outputs ++ [(s.k, s.partials.foldl (· + ·) 0)]⟩
  else none

inductive Event where
  | parent
  | child (i : ℕ)

/-- A step of the parent, or of a child. -/
def mainStep (dx : ℚ) (maxK : ℤ) (s : Main) : Event → Option Main
  | .parent => parentStep maxK s
  | .child i =>
      match s.children[i]? with
      | some c => (childStep dx c).map fun c' => { s with children := s.children.set i c' }
      | none => none

/-- The steps, by what they do. -/
inductive Move (dx : ℚ) (maxK : ℤ) (s : Main) : Event → Main → Prop where
  | fork (hk : (s.k : ℤ) ≤ maxK) (hroom : s.children.length < s.k) :
      Move dx maxK s .parent
        { s with children := s.children ++ [newChild s.k s.children.length] }
  | read (hk : (s.k : ℤ) ≤ maxK) (hall : s.k ≤ s.children.length)
      (hroom : s.partials.length < s.k) (result : ℚ)
      (hchild : s.children[s.partials.length]? = some (.exited result)) :
      Move dx maxK s .parent { s with partials := s.partials ++ [result] }
  | print (hk : (s.k : ℤ) ≤ maxK) (hread : s.k ≤ s.partials.length) :
      Move dx maxK s .parent
        ⟨s.k + 1, [], [], s.outputs ++ [(s.k, s.partials.foldl (· + ·) 0)]⟩
  | turn (i : ℕ) (stop : ℚ) (l : Locals) (hchild : s.children[i]? = some (.running stop l))
      (hlt : l.x < stop) :
      Move dx maxK s (.child i)
        { s with children := s.children.set i (.running stop (body dx l)) }
  | exit (i : ℕ) (stop : ℚ) (l : Locals) (hchild : s.children[i]? = some (.running stop l))
      (hge : ¬ l.x < stop) :
      Move dx maxK s (.child i) { s with children := s.children.set i (.exited l.sum) }

theorem step_move {dx : ℚ} {maxK : ℤ} {s s' : Main} {e : Event}
    (h : mainStep dx maxK s e = some s') : Move dx maxK s e s' := by
  cases e with
  | parent =>
      simp only [mainStep, parentStep] at h
      -- The parent forks until it has `k` children, then reads, then prints.
      split at h
      · rename_i hk
        split at h
        · rename_i hroom
          rw [← Option.some.inj h]
          exact .fork hk hroom
        · rename_i hall
          split at h
          · rename_i hroom
            -- The read waits for the child that is next in order.
            split at h
            · rename_i result hchild
              rw [← Option.some.inj h]
              exact .read hk (Nat.not_lt.mp hall) hroom result hchild
            · cases h
          · rename_i hread
            rw [← Option.some.inj h]
            exact .print hk (Nat.not_lt.mp hread)
      · cases h
  | child i =>
      simp only [mainStep] at h
      split at h
      · rename_i c hchild
        -- A child computes one rectangle more, or writes its sum and exits.
        cases c with
        | running stop l =>
            by_cases hlt : l.x < stop
            · simp only [childStep, if_pos hlt, Option.map_some, Option.some.injEq] at h
              rw [← h]
              exact .turn i stop l hchild hlt
            · simp only [childStep, if_neg hlt, Option.map_some, Option.some.injEq] at h
              rw [← h]
              exact .exit i stop l hchild hlt
        | exited result =>
            simp only [childStep, Option.map_none] at h
            cases h
      · cases h

section Sums

variable {dx : ℚ} {maxK : ℤ}

/-- The child computes the area of part `i`. -/
def Computes (dx : ℚ) (k i : ℕ) : Child → Prop
  | .running stop l => stop = (i + 1) * step k ∧
      ∃ m, (∀ j < m, ((body dx)^[j] ⟨i * step k, 0⟩).x < stop) ∧ (body dx)^[m] ⟨i * step k, 0⟩ = l
  | .exited result => rectangleArea (i * step k) ((i + 1) * step k) dx = Part.some result

/-- What is read and printed is what the functions compute. -/
structure Sound (dx : ℚ) (s : Main) : Prop where
  children : ∀ (i : ℕ) c, s.children[i]? = some c → Computes dx s.k i c
  partials : ∀ (i : ℕ) r, s.partials[i]? = some r →
    rectangleArea (i * step s.k) ((i + 1) * step s.k) dx = Part.some r
  read : s.partials.length ≤ s.k
  outputs : ∀ p ∈ s.outputs, total dx p.1 = Part.some p.2
  rounds : s.outputs.map Prod.fst = List.range' 1 (s.k - 1)
  positive : 1 ≤ s.k

theorem sound_init : Sound dx Main.init where
  children := fun i c h => by simp only [Main.init, List.getElem?_nil, reduceCtorEq] at h
  partials := fun i r h => by simp only [Main.init, List.getElem?_nil, reduceCtorEq] at h
  read := Nat.zero_le _
  outputs := fun p hp => absurd hp List.not_mem_nil
  rounds := rfl
  positive := Nat.le_refl 1

theorem computes_new (dx : ℚ) (k i : ℕ) : Computes dx k i (newChild k i) :=
  ⟨rfl, 0, fun j hj => absurd hj (Nat.not_lt_zero j), rfl⟩

theorem computes_turn {k i : ℕ} {stop : ℚ} {l : Locals} (h : Computes dx k i (.running stop l))
    (hlt : l.x < stop) : Computes dx k i (.running stop (body dx l)) := by
  rcases h with ⟨hstop, m, hbefore, hl⟩
  refine ⟨hstop, m + 1, fun j hj => ?_, ?_⟩
  · rcases Nat.lt_succ_iff_lt_or_eq.mp hj with hearlier | hnow
    · exact hbefore j hearlier
    · rw [hnow, hl]
      exact hlt
  · rw [Function.iterate_succ_apply', hl]

theorem computes_exit {k i : ℕ} {stop : ℚ} {l : Locals} (h : Computes dx k i (.running stop l))
    (hge : ¬ l.x < stop) : Computes dx k i (.exited l.sum) := by
  rcases h with ⟨hstop, m, hbefore, hl⟩
  subst hstop
  have hends : Ends (fun l : Locals => l.x < (i + 1) * step k) (body dx) ⟨i * step k, 0⟩ m :=
    ⟨hbefore, by rwa [hl]⟩
  rw [Computes, rectangleArea, loop_eq_some hends, Part.map_some, hl]

/-- A child that takes a step, among the others. -/
theorem children_set {s : Main} {i : ℕ} {c : Child} (h : Sound dx s)
    (hc : Computes dx s.k i c) (j : ℕ) (c' : Child)
    (hj : (s.children.set i c)[j]? = some c') : Computes dx s.k j c' := by
  rw [List.getElem?_set] at hj
  split at hj
  · rename_i hij
    split at hj
    · rw [← Option.some.inj hj, ← hij]
      exact hc
    · cases hj
  · exact h.children j c' hj

theorem sound_child {s : Main} {i : ℕ} {c : Child} (h : Sound dx s) (hc : Computes dx s.k i c) :
    Sound dx { s with children := s.children.set i c } where
  children := children_set h hc
  partials := h.partials
  read := h.read
  outputs := h.outputs
  rounds := h.rounds
  positive := h.positive

/-- The sum of what was read is the total. -/
theorem total_of_partials {s : Main} (h : Sound dx s) (hread : s.k ≤ s.partials.length) :
    total dx s.k = Part.some (s.partials.foldl (· + ·) 0) := by
  have hlength : s.partials.length = s.k := Nat.le_antisymm h.read hread
  have hlist : (List.range s.k).map (fun i => s.partials.getD i 0) = s.partials := by
    refine List.ext_getElem (by rw [List.length_map, List.length_range, hlength]) ?_
    intro i hi hi'
    rw [List.getElem_map, List.getElem_range, List.getD_eq_getElem _ _ hi']
  have hparts : partials dx s.k
      = Part.some ((List.range s.k).map fun i => s.partials.getD i 0) := by
    refine mapM_eq_some fun i hi => ?_
    rw [List.mem_range, ← hlength] at hi
    refine h.partials i _ ?_
    rw [List.getElem?_eq_getElem hi, List.getD_eq_getElem _ _ hi]
  rw [total, hparts, Part.map_some, hlist]

theorem sound_step {s s' : Main} {e : Event} (h : Sound dx s)
    (hstep : mainStep dx maxK s e = some s') : Sound dx s' := by
  cases step_move hstep with
  | fork hk hroom =>
      refine ⟨fun i c hi => ?_, h.partials, h.read, h.outputs, h.rounds, h.positive⟩
      -- An older child is as before, and the new one starts its range.
      rw [List.getElem?_append] at hi
      split at hi
      · exact h.children i c hi
      · rename_i hlast
        rw [List.getElem?_singleton] at hi
        split at hi
        · have hi' : i = s.children.length := by omega
          rw [← Option.some.inj hi, hi']
          exact computes_new dx s.k _
        · cases hi
  | read hk hall hroom result hchild =>
      refine ⟨h.children, fun i r hi => ?_, ?_, h.outputs, h.rounds, h.positive⟩
      -- Results are read in the order of the forks, so this one is the next child's.
      · rw [List.getElem?_append] at hi
        split at hi
        · exact h.partials i r hi
        · rename_i hlast
          rw [List.getElem?_singleton] at hi
          split at hi
          · have hi' : i = s.partials.length := by omega
            rw [← Option.some.inj hi, hi']
            exact h.children _ _ hchild
          · cases hi
      · rw [List.length_append, List.length_singleton]
        exact hroom
  | print hk hread =>
      -- A new round begins without children and without results.
      refine ⟨fun i c hi => ?_, fun i r hi => ?_, Nat.zero_le _, fun p hp => ?_, ?_,
        Nat.le_succ_of_le h.positive⟩
      · rw [List.getElem?_nil] at hi
        cases hi
      · rw [List.getElem?_nil] at hi
        cases hi
      -- The printed sum is the one of the results that were read.
      · rcases List.mem_append.mp hp with hold | hnew
        · exact h.outputs p hold
        · rw [List.mem_singleton.mp hnew]
          exact total_of_partials h hread
      -- The rounds printed so far are 1 to `k - 1`.
      · have hpositive := h.positive
        have hlength : s.k + 1 - 1 = s.k - 1 + 1 := by omega
        have hlast : 1 + (s.k - 1) = s.k := by omega
        rw [List.map_append, h.rounds, hlength, List.range'_1_concat, hlast]
        rfl
  | turn i stop l hchild hlt => exact sound_child h (computes_turn (h.children i _ hchild) hlt)
  | exit i stop l hchild hge => exact sound_child h (computes_exit (h.children i _ hchild) hge)

end Sums

section Rank

variable {dx : ℚ} {maxK : ℤ}

/-- The steps that a child has left: its turns and its end. -/
def childRank (dx : ℚ) : Child → ℕ
  | .running stop l => turns l.x stop dx + 1
  | .exited _ => 0

/-- The steps that the parent has left in a round, with those of the children
    that it has not forked. -/
def roundRank (dx : ℚ) (k forked read : ℕ) : ℕ := (k - forked) * (share dx k + 2) + (k - read) + 1

/-- The steps that are left. -/
def rank (dx : ℚ) (maxK : ℤ) (s : Main) : ℕ :=
  (s.children.map (childRank dx)).sum +
    if (s.k : ℤ) ≤ maxK then
      roundRank dx s.k s.children.length s.partials.length +
        ∑ k ∈ Finset.Ico (s.k + 1) (maxK.toNat + 1), roundRank dx k 0 0
    else 0

theorem sum_set_lt {l : List ℕ} {i a b : ℕ} (ha : l[i]? = some a) (hlt : b < a) :
    (l.set i b).sum < l.sum := by
  induction l generalizing i with
  | nil => cases ha
  | cons c l ih =>
      cases i with
      | zero =>
          rw [List.getElem?_cons_zero, Option.some.injEq] at ha
          rw [List.set_cons_zero, List.sum_cons, List.sum_cons, ha]
          exact Nat.add_lt_add_right hlt _
      | succ i =>
          rw [List.getElem?_cons_succ] at ha
          rw [List.set_cons_succ, List.sum_cons, List.sum_cons]
          exact Nat.add_lt_add_left (ih ha) _

theorem childRank_new (k i : ℕ) : childRank dx (newChild k i) = share dx k + 1 := by
  rw [newChild, childRank, turns_part]

/-- A turn takes one rectangle of those that fit. -/
theorem turns_body (hdx : 0 < dx) {stop : ℚ} {l : Locals} (hlt : l.x < stop) :
    turns (body dx l).x stop dx < turns l.x stop dx := by
  rw [← lt_iff_lt_turns hdx l.x]
  cases hturns : turns (body dx l).x stop dx with
  | zero =>
      rw [Nat.cast_zero, zero_mul, add_zero]
      exact hlt
  | succ m =>
      have hm := (lt_iff_lt_turns hdx (body dx l).x stop m).mpr (by omega)
      simp only [body] at hm
      push_cast
      linarith

theorem rank_child {s : Main} {i : ℕ} {c c' : Child} (hc : s.children[i]? = some c)
    (hlt : childRank dx c' < childRank dx c) :
    rank dx maxK { s with children := s.children.set i c' } < rank dx maxK s := by
  have hmap : (s.children.map (childRank dx))[i]? = some (childRank dx c) := by
    rw [List.getElem?_map, hc, Option.map_some]
  unfold rank
  rw [List.map_set, List.length_set]
  exact Nat.add_lt_add_right (sum_set_lt hmap hlt) _

/-- Every step is one of those left, if the width is positive. -/
theorem rank_lt (hdx : 0 < dx) {s s' : Main} {e : Event} (hstep : mainStep dx maxK s e = some s') :
    rank dx maxK s' < rank dx maxK s := by
  -- By the step: each one takes from a summand of the rank.
  cases step_move hstep with
  | fork hk hroom =>
      have hone : s.k - s.children.length = s.k - (s.children.length + 1) + 1 := by omega
      simp only [rank, if_pos hk, List.map_append, List.sum_append, List.map_singleton,
        List.sum_singleton, childRank_new, List.length_append, List.length_singleton, roundRank]
      rw [hone, Nat.succ_mul]
      omega
  | read hk hall hroom result hchild =>
      simp only [rank, if_pos hk, roundRank, List.length_append, List.length_singleton]
      omega
  | print hk hread =>
      have hround : 1 ≤ roundRank dx s.k s.children.length s.partials.length :=
        Nat.le_add_left 1 _
      simp only [rank, if_pos hk, List.map_nil, List.sum_nil, List.length_nil]
      -- Either another round follows, whose work has been counted, or that was the last one.
      by_cases hnext : ((s.k + 1 : ℕ) : ℤ) ≤ maxK
      · have hrounds : s.k + 1 < maxK.toNat + 1 := by omega
        rw [if_pos hnext, Finset.sum_eq_sum_Ico_succ_bot hrounds]
        omega
      · rw [if_neg hnext]
        omega
  | turn i stop l hchild hlt =>
      exact rank_child hchild (Nat.succ_lt_succ (turns_body hdx hlt))
  | exit i stop l hchild hge => exact rank_child hchild (Nat.succ_pos _)

/-- Who cannot take a step has printed everything. -/
theorem not_le_of_stuck {s : Main} (hstuck : ∀ e, mainStep dx maxK s e = none) :
    maxK < (s.k : ℤ) := by
  by_contra hle
  have hk : (s.k : ℤ) ≤ maxK := not_lt.mp hle
  have hparent := hstuck .parent
  simp only [mainStep, parentStep, if_pos hk] at hparent
  split at hparent
  · cases hparent
  -- Forking is always possible, so all children have been forked.
  · rename_i hall
    split at hparent
    · rename_i hroom
      -- The parent waits for a child, and the child is not waiting.
      have hlt : s.partials.length < s.children.length := by omega
      have hget := List.getElem?_eq_getElem hlt
      cases hchild : s.children[s.partials.length] with
      | running stop l =>
          have hnone := hstuck (.child s.partials.length)
          rw [hchild] at hget
          simp only [mainStep, hget, childStep, Option.map_some] at hnone
          cases hnone
      | exited result =>
          rw [hchild] at hget
          simp only [hget] at hparent
          cases hparent
    · cases hparent

/-- All calls of `rectangle_area` end; the program cannot go on for ever, and
    where it cannot go on it has printed the results for all numbers of
    processes. -/
structure Finishes (dx : ℚ) (maxK : ℤ) : Prop where
  calls : ∀ k : ℕ, 1 ≤ k → (k : ℤ) ≤ maxK → ∀ i < k,
    (rectangleArea (i * step k) ((i + 1) * step k) dx).Dom
  runs : ∃ bound, ∀ es t, exec (mainStep dx maxK) Main.init es = some t → es.length ≤ bound
  prints : ∀ t, Reaches (mainStep dx maxK) Main.init t → (∀ e, mainStep dx maxK t e = none) →
    t.outputs.map Prod.fst = List.range' 1 maxK.toNat

theorem k_le {t : Main} (hr : Reaches (mainStep dx maxK) Main.init t) : t.k ≤ maxK.toNat + 1 := by
  refine reaches_invariant (I := fun s : Main => s.k ≤ maxK.toNat + 1) ?_
    (Nat.le_add_left 1 _) hr
  intro s e s' h hstep
  cases step_move hstep with
  | fork | read | turn | exit => exact h
  | print hk hread =>
      change s.k + 1 ≤ maxK.toNat + 1
      omega

/-- A first call that does not end. -/
theorem not_finishes (hdx : dx ≤ 0) (hmax : 1 ≤ maxK) : ¬ Finishes dx maxK := by
  intro h
  have hcall := h.calls 1 (Nat.le_refl 1) hmax 0 Nat.zero_lt_one
  rw [dom_rectangleArea_iff] at hcall
  rcases hcall with hempty | hpos
  · rw [Nat.cast_zero, zero_mul, zero_add, one_mul, step, Nat.cast_one, div_one] at hempty
    exact absurd hempty (by norm_num)
  · exact absurd hpos (not_lt.mpr hdx)

/-- Where no round is begun, nothing is done. -/
theorem mainStep_init (hmax : maxK < 1) (e : Event) : mainStep dx maxK Main.init e = none := by
  cases e with
  | parent => exact if_neg (not_le.mpr hmax)
  | child i => rfl

theorem exec_init (hmax : maxK < 1) {es : List Event} {t : Main}
    (hrun : exec (mainStep dx maxK) Main.init es = some t) : es = [] := by
  cases es with
  | nil => rfl
  | cons e es =>
      rcases exec_cons.mp hrun with ⟨s, hstep, _⟩
      rw [mainStep_init hmax] at hstep
      cases hstep

/-- The program ends exactly if the width is positive, or there is no round. -/
theorem finishes_iff (dx : ℚ) (maxK : ℤ) : Finishes dx maxK ↔ 0 < dx ∨ maxK < 1 := by
  constructor
  · intro h
    by_contra hnot
    rw [not_or, not_lt, not_lt] at hnot
    exact not_finishes hnot.1 hnot.2 h
  · intro h
    -- By step: no child loops for ever, the rounds are bounded, and at the end all are printed.
    refine ⟨fun k hk hmax i _ => ?_, ?_, fun t hr hstuck => ?_⟩
    · rcases h with hdx | hempty
      · exact dom_rectangleArea_iff.mpr (Or.inr hdx)
      · omega
    · rcases h with hdx | hempty
      · refine ⟨rank dx maxK Main.init, fun es t hrun => ?_⟩
        have hlength := exec_length_le (fun s e s' => rank_lt hdx) hrun
        omega
      · refine ⟨0, fun es t hrun => ?_⟩
        rw [exec_init hempty hrun]
        exact Nat.le_refl 0
    · have hsound : Sound dx t := reaches_invariant (fun _ _ _ => sound_step) sound_init hr
      -- The parent is past the last round, and not further.
      have hlast : t.k - 1 = maxK.toNat := by
        have hbefore := k_le hr
        have hafter := not_le_of_stuck hstuck
        have hpositive := hsound.positive
        omega
      rw [hsound.rounds, hlast]

/-- A width that is no number is read as zero, and the first child does not
    end. -/
theorem zero_width : ¬ Finishes 0 1 := not_finishes (le_refl 0) (le_refl 1)

end Rank

end Processes

end Integration

end OsLabs
