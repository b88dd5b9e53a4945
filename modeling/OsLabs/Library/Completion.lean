import OsLabs.Library.Machine

/-!
# Complete Runs

A program that comes to an end has two properties. Its runs are bounded,
whatever the schedule, so that it cannot go on for ever. And where no event can
happen any more, everything is done, so that it does not get stuck half-way. A
rank that every step lowers gives the first, and the second is about single
states. Where some steps may be repeated without end, a rank that the others
lower bounds how many of those a run has.

Where some of the parts of a program go on for ever by themselves, the same is
said of the steps of the others: there are so many of them at most, and where
none of them can happen everything is done. Runs in which they are not put off
for ever then come to an end.

Both carry over from one program to another that does the same with more steps.
The steps of the second are then steps of the first, or leave what the first
sees of the state alone.

## Main definitions

* `Stuck`: No event can happen.
* `Completes`: All runs come to an end, and everything is done there.
* `CompletesOn`: The steps of a kind come to an end, and everything is done
  there.

## Theorems

* `completes_of_rank`: From a rank, and what holds where no event can happen.
* `completesOn_of_rank`: The same for the steps of a kind.
* `record_length_le_add`: A rank bounds the steps that are observed.
* `reaches_of_simulates`: What a machine reaches that does the same with more
  steps.
-/

namespace OsLabs

namespace Machine

variable {σ τ ε : Type*} {step : σ → ε → Option σ} {step' : τ → ε → Option τ}

/-- No event can happen. -/
def Stuck (step : σ → ε → Option σ) (s : σ) : Prop := ∀ e, step s e = none

/-- All runs come to an end after so many steps at most, and where they cannot
    go on `Q` holds. -/
structure Completes (step : σ → ε → Option σ) (s : σ) (bound : Nat) (Q : σ → Prop) : Prop where
  length_le : ∀ t es, exec step s es = some t → es.length ≤ bound
  of_stuck : ∀ t, Reaches step s t → Stuck step t → Q t

theorem completes_of_rank {I Q : σ → Prop} {rank : σ → Nat} {s : σ}
    (hI : ∀ s e s', I s → step s e = some s' → I s')
    (hrank : ∀ s e s', I s → step s e = some s' → rank s' < rank s)
    (hstuck : ∀ s, I s → Stuck step s → Q s) (hs : I s) : Completes step s (rank s) Q where
  length_le t es hrun := by
    have hcount := exec_countP_le (E := fun _ => True) (D := fun _ => true) hI
      (fun s e s' _ h hstep => hrank s e s' h hstep) (fun _ _ => trivial) hs hrun
    have hall : es.countP (fun _ => true) = es.length := List.countP_eq_length.mpr fun _ _ => rfl
    omega
  of_stuck t hreaches hnone := hstuck t (reaches_invariant hI hs hreaches) hnone

/-- The steps of a kind. -/
def steps (D : σ → ε → Bool) (s : σ) (e : ε) : Option ε := if D s e then some e else none

theorem length_steps (D : σ → ε → Bool) (s : σ) (e : ε) :
    (steps D s e).toList.length = if D s e then 1 else 0 := by
  unfold steps
  split <;> rfl

/-- There are so many steps of a kind at most, whatever the others are, and
    where none of them can happen `Q` holds. -/
structure CompletesOn (step : σ → ε → Option σ) (D : σ → ε → Bool) (s : σ) (bound : Nat)
    (Q : σ → Prop) : Prop where
  length_le : ∀ t es, exec step s es = some t → (record step (steps D) s es).length ≤ bound
  of_idle : ∀ t, Reaches step s t → (∀ e, D t e = true → step t e = none) → Q t

theorem completesOn_of_rank {D : σ → ε → Bool} {I Q : σ → Prop} {rank : σ → Nat} {s : σ}
    (hI : ∀ s e s', I s → step s e = some s' → I s')
    (hrank : ∀ s e s', I s → step s e = some s' → rank s' + (if D s e then 1 else 0) ≤ rank s)
    (hidle : ∀ s, I s → (∀ e, D s e = true → step s e = none) → Q s) (hs : I s) :
    CompletesOn step D s (rank s) Q where
  length_le t es hrun := by
    induction es generalizing s with
    | nil => exact Nat.zero_le _
    | cons e es ih =>
        rcases exec_cons.mp hrun with ⟨s', hstep, hrest⟩
        have hhead := hrank s e s' hs hstep
        have htail := ih (hI s e s' hs hstep) hrest
        rw [record_cons es hstep, List.length_append, length_steps]
        omega
  of_idle t hreaches hnone := hidle t (reaches_invariant hI hs hreaches) hnone

/-- A rank that the observed steps lower and no other raises, but for those of
    one kind by no more than one, bounds how many steps are observed. -/
theorem record_length_le_add {α : Type*} {o : σ → ε → Option α} {D : ε → Bool} {rank : σ → Nat}
    (h : ∀ s e s', step s e = some s' →
      rank s' + (o s e).toList.length ≤ rank s + if D e then 1 else 0)
    {s t : σ} {es : List ε} (hrun : exec step s es = some t) :
    rank t + (record step o s es).length ≤ rank s + es.countP D := by
  induction es generalizing s with
  | nil =>
      simp only [exec, Option.some.injEq] at hrun
      rw [hrun]
      exact Nat.le_refl _
  | cons e es ih =>
      rcases exec_cons.mp hrun with ⟨s', hstep, hrest⟩
      have hhead := h s e s' hstep
      have htail := ih hrest
      rw [record_cons es hstep, List.length_append, List.countP_cons]
      omega

/-- By induction along the run. The invariant is one of the machine that is
    simulated. -/
theorem reaches_of_simulates {abs : σ → τ} {I : τ → Prop} {s t : σ}
    (hI : ∀ a e a', I a → step' a e = some a' → I a')
    (hsim : ∀ s e s', I (abs s) → step s e = some s' →
      abs s' = abs s ∨ step' (abs s) e = some (abs s'))
    (hs : I (abs s)) (hreaches : Reaches step s t) : Reaches step' (abs s) (abs t) := by
  have hboth : Reaches step' (abs s) (abs t) ∧ I (abs t) := by
    refine reaches_invariant (I := fun u => Reaches step' (abs s) (abs u) ∧ I (abs u))
      (fun u e u' hu hstep => ?_) ⟨⟨[], rfl⟩, hs⟩ hreaches
    rcases hsim u e u' hu.2 hstep with hstutter | hmove
    · rw [hstutter]
      exact hu
    · exact ⟨reaches_step hu.1 hmove, hI _ _ _ hu.2 hmove⟩
  exact hboth.1

end Machine

end OsLabs
