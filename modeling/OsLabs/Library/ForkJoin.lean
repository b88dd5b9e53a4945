import OsLabs.Library.Completion
import OsLabs.Library.Slots

/-!
# Forking and Joining

A program that starts threads and then joins them in the same order. What the
threads do is a parameter: where one begins, what a step makes of what they
share, and when one has ended. The threads take their steps in any order, and
some may have ended before others are started.

Such a program ends if every step of a thread brings that thread nearer its
end, and if of the threads that were started one can always go on unless all
have ended. Nothing is asked of the order, and a join never waits for ever.
When the program is through, all threads have ended, so what an invariant says
of ended threads holds of every one of them.

## Main definitions

* `Crew`: What the threads do.
* `Main`, `State`, `step`: The program.
* `Staged`: Who has been started, and who has been joined.
* `Steady`: An invariant that the threads keep, and which lets them go on.
* `Joined`: The program is through.

## Theorems

* `step_move`: The steps, by what they do.
* `staged_step`, `steady_step`: The invariants.
* `inv_of_reaches`: What the threads keep holds in every state that is reached.
* `rank_step`: Every step brings the end nearer.
* `completes_of_steady`: The program ends.
-/

namespace OsLabs

namespace ForkJoin

open Machine

/-- What threads do with what they share. -/
structure Crew (n : Nat) (σ τ : Type*) where
  enter : Fin n → τ
  step : Fin n → σ → τ → Option (σ × τ)
  ended : τ → Bool

/-- The program: in the loop that starts the threads, or in the one that joins
    them. -/
inductive Main where
  | creating (i : Nat)
  | joining (i : Nat)
  deriving DecidableEq

structure State (n : Nat) (σ τ : Type*) where
  shared : σ
  threads : Fin n → Option τ
  main : Main

inductive Event (n : Nat) where
  | main
  | thread (i : Fin n)

variable {n : Nat} {σ τ : Type*}

/-- The program when no thread has been started. -/
def start (shared : σ) : State n σ τ where
  shared := shared
  threads := fun _ => none
  main := .creating 0

/-- A step of the program or of a thread. A join waits for the end. -/
def step (c : Crew n σ τ) (s : State n σ τ) : Event n → Option (State n σ τ)
  | .main =>
      match s.main with
      | .creating i =>
          if h : i < n then
            some { s with
              threads := Function.update s.threads ⟨i, h⟩ (some (c.enter ⟨i, h⟩))
              main := .creating (i + 1) }
          else some { s with main := .joining 0 }
      | .joining i =>
          if h : i < n then
            if (s.threads ⟨i, h⟩).any c.ended then some { s with main := .joining (i + 1) }
            else none
          else none
  | .thread i =>
      match s.threads i with
      | some l =>
          if c.ended l then none
          else
            match c.step i s.shared l with
            | some (shared, l') =>
                some { s with
                  shared := shared
                  threads := Function.update s.threads i (some l') }
            | none => none
      | none => none

variable {c : Crew n σ τ} {s s' : State n σ τ}

/-- The steps, by what they do. -/
inductive Move (c : Crew n σ τ) (s : State n σ τ) : Event n → State n σ τ → Prop where
  | create (i : Fin n) (hmain : s.main = .creating i) :
      Move c s .main { s with
        threads := Function.update s.threads i (some (c.enter i))
        main := .creating (i + 1) }
  | created (i : Nat) (hmain : s.main = .creating i) (hall : n ≤ i) :
      Move c s .main { s with main := .joining 0 }
  | join (i : Fin n) (l : τ) (hmain : s.main = .joining i) (hthread : s.threads i = some l)
      (hended : c.ended l = true) : Move c s .main { s with main := .joining (i + 1) }
  | work (i : Fin n) (l l' : τ) (shared : σ) (hthread : s.threads i = some l)
      (hended : c.ended l = false) (hstep : c.step i s.shared l = some (shared, l')) :
      Move c s (.thread i)
        { s with shared := shared, threads := Function.update s.threads i (some l') }

theorem step_move {e : Event n} (h : step c s e = some s') : Move c s e s' := by
  cases e with
  | main =>
      simp only [step] at h
      split at h
      -- The main thread creates, until all are there,
      · rename_i i hmain
        split at h
        · rename_i hi
          rw [← Option.some.inj h]
          exact .create ⟨i, hi⟩ hmain
        · rename_i hi
          rw [← Option.some.inj h]
          exact .created i hmain (Nat.not_lt.mp hi)
      -- and then joins those that have ended.
      · rename_i i hmain
        split at h
        · rename_i hi
          split at h
          · rename_i hany
            rw [Option.any_eq_true] at hany
            rcases hany with ⟨l, hthread, hended⟩
            rw [← Option.some.inj h]
            exact .join ⟨i, hi⟩ l hmain hthread hended
          · cases h
        · cases h
  | thread i =>
      simp only [step] at h
      split at h
      -- A thread that was started and has not ended does its own step.
      · rename_i l hthread
        split at h
        · cases h
        · rename_i hended
          split at h
          · rename_i shared l' hstep
            rw [← Option.some.inj h]
            exact .work i l l' shared hthread (eq_false_of_ne_true hended) hstep
          · cases h
      · cases h

/-- Who has been started, and who has been joined. -/
def Staged (c : Crew n σ τ) (s : State n σ τ) : Prop :=
  match s.main with
  | .creating k => k ≤ n ∧ ∀ i, (s.threads i).isSome = true ↔ i.val < k
  | .joining k => k ≤ n ∧ (∀ i, (s.threads i).isSome = true) ∧
      ∀ i : Fin n, i.val < k → (s.threads i).any c.ended = true

theorem staged_start (c : Crew n σ τ) (shared : σ) : Staged c (start shared) := by
  refine ⟨Nat.zero_le n, fun i => ?_⟩
  simp only [start, Option.isSome_none, Bool.false_eq_true, Nat.not_lt_zero]

/-- A thread that takes a step was started, and has not ended. -/
theorem staged_work (h : Staged c s) {i : Fin n} {l l' : τ} (shared : σ)
    (hthread : s.threads i = some l) (hended : c.ended l = false) :
    Staged c { s with shared := shared, threads := Function.update s.threads i (some l') } := by
  -- A thread that works is no more started than before.
  have hstarted : ∀ j,
      (Function.update s.threads i (some l') j).isSome = (s.threads j).isSome := by
    intro j
    by_cases hj : j = i
    · rw [hj, Function.update_self, hthread]
      rfl
    · rw [Function.update_of_ne hj]
  unfold Staged at h ⊢
  cases hmain : s.main with
  | creating k =>
      simp only [hmain, hstarted] at h ⊢
      exact h
  | joining k =>
      simp only [hmain, hstarted] at h ⊢
      refine ⟨h.1, h.2.1, fun j hj => ?_⟩
      have hold := h.2.2 j hj
      -- Those that were joined had ended, and this one has not.
      by_cases hji : j = i
      · rw [hji, hthread, Option.any_some, hended] at hold
        exact absurd hold Bool.false_ne_true
      · rwa [Function.update_of_ne hji]

theorem staged_step {e : Event n} (h : Staged c s) (hstep : step c s e = some s') :
    Staged c s' := by
  cases step_move hstep with
  | create i hmain =>
      simp only [Staged, hmain] at h ⊢
      refine ⟨i.isLt, fun j => ?_⟩
      -- One more is there, at its beginning.
      by_cases hj : j = i
      · rw [hj, Function.update_self]
        exact iff_of_true rfl (Nat.lt_succ_self _)
      · have hne : j.val ≠ i.val := fun heq => hj (Fin.ext heq)
        rw [Function.update_of_ne hj, h.2 j]
        omega
  | created k hmain hall =>
      simp only [Staged, hmain] at h ⊢
      exact ⟨Nat.zero_le n, fun j => (h.2 j).mpr (Nat.lt_of_lt_of_le j.isLt hall),
        fun j hj => absurd hj (Nat.not_lt_zero _)⟩
  | join i l hmain hthread hended =>
      simp only [Staged, hmain] at h ⊢
      refine ⟨i.isLt, h.2.1, fun j hj => ?_⟩
      -- This one has ended, so it counts among the joined.
      by_cases hji : j = i
      · rw [hji, hthread]
        exact hended
      · have hne : j.val ≠ i.val := fun heq => hji (Fin.ext heq)
        exact h.2.2 j (by omega)
  | work i l l' shared hthread hended hstep => exact staged_work h shared hthread hended

/-- An invariant of what is shared and of the threads that were started. As long
    as it holds, threads keep it, and one of those that have not ended can go
    on. -/
structure Steady (c : Crew n σ τ) (I : σ → (Fin n → Option τ) → Prop) : Prop where
  create : ∀ shared threads i, I shared threads → threads i = none →
    I shared (Function.update threads i (some (c.enter i)))
  work : ∀ shared threads i l shared' l', I shared threads → threads i = some l →
    c.ended l = false → c.step i shared l = some (shared', l') →
      I shared' (Function.update threads i (some l'))
  progress : ∀ shared threads i l, I shared threads → threads i = some l → c.ended l = false →
    ∃ j l', threads j = some l' ∧ c.ended l' = false ∧ (c.step j shared l').isSome = true

variable {I : σ → (Fin n → Option τ) → Prop}

theorem steady_step (hI : Steady c I) {e : Event n} (hstaged : Staged c s)
    (h : I s.shared s.threads) (hstep : step c s e = some s') : I s'.shared s'.threads := by
  cases step_move hstep with
  | create i hmain =>
      simp only [Staged, hmain] at hstaged
      refine hI.create _ _ i h ?_
      cases hthread : s.threads i with
      | none => rfl
      | some l =>
          have hlt := (hstaged.2 i).mp (by rw [hthread]; rfl)
          exact absurd hlt (Nat.lt_irrefl _)
  | created | join => exact h
  | work i l l' shared hthread hended hwork =>
      exact hI.work _ _ i l shared l' h hthread hended hwork

theorem inv_of_reaches (hI : Steady c I) {shared : σ} (hshared : I shared fun _ => none)
    (h : Reaches (step c) (start shared) s) : I s.shared s.threads :=
  (reaches_invariant (I := fun s => Staged c s ∧ I s.shared s.threads)
    (fun _ _ _ hs hstep => ⟨staged_step hs.1 hstep, steady_step hI hs.1 hs.2 hstep⟩)
    ⟨staged_start c shared, hshared⟩ h).2

/-- What a thread has still to do. -/
def left (c : Crew n σ τ) (rank : Fin n → τ → Nat) (threads : Fin n → Option τ) (i : Fin n) :
    Nat :=
  match threads i with
  | none => rank i (c.enter i)
  | some l => rank i l

/-- What the loops of the program have still to do. -/
def Main.left (n : Nat) : Main → Nat
  | .creating i => 2 * n + 1 - i
  | .joining i => n - i

/-- How many steps are still to come, at most. -/
def State.rank (c : Crew n σ τ) (rank : Fin n → τ → Nat) (s : State n σ τ) : Nat :=
  (∑ i, left c rank s.threads i) + s.main.left n

theorem rank_step {rank : Fin n → τ → Nat} (hrank : ∀ i shared l shared' l',
      c.step i shared l = some (shared', l') → rank i l' < rank i l)
    {e : Event n} (hstaged : Staged c s) (hstep : step c s e = some s') :
    s'.rank c rank < s.rank c rank := by
  cases step_move hstep with
  | create i hmain =>
      simp only [Staged, hmain] at hstaged
      have hleft : left c rank (Function.update s.threads i (some (c.enter i)))
          = left c rank s.threads := by
        funext j
        unfold left
        -- The thread that is created counted as a whole before, and does so now.
        by_cases hj : j = i
        · have hnone : s.threads i = none := by
            rw [← Option.not_isSome_iff_eq_none, hstaged.2 i]
            exact Nat.lt_irrefl _
          rw [hj, Function.update_self, hnone]
        · rw [Function.update_of_ne hj]
      have hi := i.isLt
      simp only [State.rank, hleft, hmain, Main.left]
      omega
  | created k hmain hall =>
      simp only [Staged, hmain] at hstaged
      -- All are created, and the joins are still to come.
      have hk := hstaged.1
      simp only [State.rank, hmain, Main.left]
      omega
  | join i l hmain =>
      have hi := i.isLt
      simp only [State.rank, hmain, Main.left]
      omega
  | work i l l' shared hthread hended hwork =>
      -- Only this thread has less left than before.
      have hsum := sum_of_ne (f := left c rank s.threads)
        (g := left c rank (Function.update s.threads i (some l'))) (i := i) fun j hj => by
          unfold left
          rw [Function.update_of_ne hj]
      have hbefore : left c rank s.threads i = rank i l := by
        unfold left
        rw [hthread]
      have hafter : left c rank (Function.update s.threads i (some l')) i = rank i l' := by
        unfold left
        rw [Function.update_self]
      have hlt := hrank i _ _ _ _ hwork
      simp only [State.rank]
      omega

/-- The program is through, and so are the threads. -/
structure Joined (c : Crew n σ τ) (I : σ → (Fin n → Option τ) → Prop) (s : State n σ τ) :
    Prop where
  main : s.main = .joining n
  threads : ∀ i, ∃ l, s.threads i = some l ∧ c.ended l = true
  inv : I s.shared s.threads

/-- Where nothing can happen, everything has been joined: a thread that has not
    ended would leave another one that can go on. -/
theorem joined_of_stuck (hI : Steady c I) (hstaged : Staged c s) (h : I s.shared s.threads)
    (hstuck : Stuck (step c) s) : Joined c I s := by
  have hended : ∀ i l, s.threads i = some l → c.ended l = true := by
    -- One that has not ended would mean one that can go on, and nobody can.
    intro i l hthread
    by_contra hrunning
    rcases hI.progress _ _ i l h hthread (eq_false_of_ne_true hrunning) with
      ⟨j, l', hj, hj', hsome⟩
    rcases Option.isSome_iff_exists.mp hsome with ⟨⟨shared, l''⟩, hwork⟩
    have hnone := hstuck (.thread j)
    simp only [step, hj, hj', hwork, Bool.false_eq_true, if_false] at hnone
    cases hnone
  have hmain := hstuck .main
  cases hs : s.main with
  -- To create a thread, or to be through with it, waits for nothing.
  | creating k =>
      by_cases hk : k < n
      · simp only [step, hs, dif_pos hk] at hmain
        cases hmain
      · simp only [step, hs, dif_neg hk] at hmain
        cases hmain
  | joining k =>
      simp only [Staged, hs] at hstaged
      have hall : ∀ i, ∃ l, s.threads i = some l ∧ c.ended l = true := by
        intro i
        rcases Option.isSome_iff_exists.mp (hstaged.2.1 i) with ⟨l, hthread⟩
        exact ⟨l, hthread, hended i l hthread⟩
      -- The next one could be joined, as all have ended.
      by_cases hk : k < n
      · rcases hall ⟨k, hk⟩ with ⟨l, hthread, hl⟩
        simp only [step, hs, dif_pos hk, hthread, Option.any_some, hl, if_true] at hmain
        cases hmain
      · have hkn : k = n := by
          have hle := hstaged.1
          omega
        exact ⟨by rw [hs, hkn], hall, h⟩

/-- The program ends, whatever the order, and all threads have ended then. -/
theorem completes_of_steady (hI : Steady c I) {rank : Fin n → τ → Nat}
    (hrank : ∀ i shared l shared' l',
      c.step i shared l = some (shared', l') → rank i l' < rank i l)
    {shared : σ} (hshared : I shared fun _ => none) :
    Completes (step c) (start shared) ((∑ i, rank i (c.enter i)) + (2 * n + 1)) (Joined c I) := by
  have hkeep : ∀ s e s', (Staged c s ∧ I s.shared s.threads) → step c s e = some s' →
      (Staged c s' ∧ I s'.shared s'.threads) :=
    fun _ _ _ hs hstep => ⟨staged_step hs.1 hstep, steady_step hI hs.1 hs.2 hstep⟩
  have hlower : ∀ s e s', (Staged c s ∧ I s.shared s.threads) → step c s e = some s' →
      s'.rank c rank < s.rank c rank :=
    fun _ _ _ hs hstep => rank_step hrank hs.1 hstep
  exact completes_of_rank hkeep hlower (fun _ hs hstuck => joined_of_stuck hI hs.1 hs.2 hstuck)
    ⟨staged_start c shared, hshared⟩

end ForkJoin

end OsLabs
