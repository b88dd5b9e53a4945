import Mathlib.Data.List.Induction
import Mathlib.Logic.Basic

/-!
# Labelled Machines

A machine is a partial step function: given a state and an event it returns
the next state, or nothing when the event cannot happen there. Concurrency
lives in the events. A list of events is one schedule, so a statement about
every list is a statement about every interleaving.

Three kinds of statement are made about a run. An invariant holds of the
state reached, whatever the schedule was. A conditional invariant holds of
the state reached by those schedules whose every step meets a side
condition. And a characterisation says that a property holds in every state
a schedule passes through exactly when every step of it meets the condition.

The last two differ in what they ask of a step. `exec_invariant_of_meets`
needs the condition to be enough; `always_iff_meets` needs it to be
necessary as well, which is a fact about a single step and not about runs.

## Main definitions

* `exec`: Running a list of events.
* `Reaches`: Some list of events leads from one state to another.
* `Meets`: Every step of a run meets a condition on the state before it.
* `Always`: Every state a run passes through has a property.
* `record`: What is observed of the steps of a run, in order.

## Theorems

* `forall_successor`: A step has one successor.
* `exec_cons`: A run of a longer list splits off its first step.
* `exec_append`: A run of two lists is a run of the first and then the second.
* `reaches_step`: What can be reached from what can be reached.
* `exists_of_exec_any`: A run whose end passes a test has an end.
* `exec_invariant`: What every step preserves, a run preserves.
* `exec_invariant_of_meets`: The same, for runs that meet a condition.
* `always_of_meets`: The same for every state such a run passes through.
* `meets_append`, `record_append`: Runs in two parts.
* `exec_record_of_meets`: An invariant of a state and what led to it.
* `always_mono`: What holds along a run may be weakened.
* `exec_countP_le`, `exec_length_le_add`, `exec_length_le`: A rank bounds the
  runs.
* `reaches_invariant`: What every step preserves holds of reachable states.
* `always_iff_meets_on`, `always_iff_meets`: A property kept by exactly the
  steps that meet a condition holds along exactly the runs that meet it.
* `always_iff_meets_of_good`: The same, where the property alone is not kept.
* `exec_history`, `exec_history_of_meets`: An invariant that looks back at the
  run.
* `prefixes_iff_meets`: A characterisation that looks back at the run.
-/

namespace OsLabs

namespace Machine

variable {σ ε : Type*} {step : σ → ε → Option σ}

/-- Run a list of events, or `none` if one of them cannot happen. -/
def exec (step : σ → ε → Option σ) : σ → List ε → Option σ
  | s, [] => some s
  | s, e :: es => match step s e with
    | none => none
    | some s' => exec step s' es

/-- Some schedule leads from `s` to `t`. -/
def Reaches (step : σ → ε → Option σ) (s t : σ) : Prop :=
  ∃ es, exec step s es = some t

/-- Every step of the run meets the condition on the state before it. -/
def Meets (step : σ → ε → Option σ) (C : σ → ε → Prop) : σ → List ε → Prop
  | _, [] => True
  | s, e :: es => C s e ∧ ∀ s', step s e = some s' → Meets step C s' es

/-- Every state the run passes through has the property, both ends included. -/
def Always (step : σ → ε → Option σ) (P : σ → Prop) : σ → List ε → Prop
  | s, [] => P s
  | s, e :: es => P s ∧ ∀ s', step s e = some s' → Always step P s' es

/-- What is observed of the steps of a run, in order. The run is recorded up
    to the first step that cannot happen. -/
def record {α : Type*} (step : σ → ε → Option σ) (obs : σ → ε → Option α) : σ → List ε → List α
  | _, [] => []
  | s, e :: es => match step s e with
    | none => []
    | some s' => (obs s e).toList ++ record step obs s' es

instance decidableForallSuccessor {Q : σ → Prop} [DecidablePred Q] (o : Option σ) :
    Decidable (∀ s', o = some s' → Q s') :=
  match o with
  | none => isTrue (fun _ h => absurd h (by simp only [reduceCtorEq, not_false_eq_true]))
  | some s => decidable_of_iff (Q s) (by simp only [Option.some.injEq, forall_eq'])

instance decidableMeets {C : σ → ε → Prop} [∀ s e, Decidable (C s e)] :
    ∀ (s : σ) (es : List ε), Decidable (Meets step C s es)
  | _, [] => isTrue trivial
  | s, e :: es =>
      have : ∀ s', Decidable (Meets step C s' es) := fun s' => decidableMeets s' es
      inferInstanceAs (Decidable (C s e ∧ ∀ s', step s e = some s' → Meets step C s' es))

instance decidableAlways {P : σ → Prop} [DecidablePred P] :
    ∀ (s : σ) (es : List ε), Decidable (Always step P s es)
  | s, [] => inferInstanceAs (Decidable (P s))
  | s, e :: es =>
      have : ∀ s', Decidable (Always step P s' es) := fun s' => decidableAlways s' es
      inferInstanceAs (Decidable (P s ∧ ∀ s', step s e = some s' → Always step P s' es))

/-- A step has one successor, so what holds of all of them holds of that one. -/
theorem forall_successor {Q : σ → Prop} {s s' : σ} {e : ε} (hstep : step s e = some s') :
    (∀ s'', step s e = some s'' → Q s'') ↔ Q s' := by
  simp only [hstep, Option.some.injEq, forall_eq']

theorem exec_cons {s t : σ} {e : ε} {es : List ε} :
    exec step s (e :: es) = some t ↔ ∃ s', step s e = some s' ∧ exec step s' es = some t := by
  simp only [exec]
  cases hstep : step s e with
  | none => simp only [reduceCtorEq, false_and, exists_false]
  | some s' => simp only [Option.some.injEq, exists_eq_left']

theorem exec_append {s u : σ} {es fs : List ε} :
    exec step s (es ++ fs) = some u ↔ ∃ t, exec step s es = some t ∧ exec step t fs = some u := by
  induction es generalizing s with
  | nil => simp only [List.nil_append, exec, Option.some.injEq, exists_eq_left']
  | cons e es ih =>
      rw [List.cons_append, exec_cons]
      constructor
      · rintro ⟨s', hstep, hrest⟩
        rcases ih.mp hrest with ⟨t, hrun, hlast⟩
        exact ⟨t, exec_cons.mpr ⟨s', hstep, hrun⟩, hlast⟩
      · rintro ⟨t, hrun, hlast⟩
        rcases exec_cons.mp hrun with ⟨s', hstep, hrest⟩
        exact ⟨s', hstep, ih.mpr ⟨t, hrest, hlast⟩⟩

theorem reaches_step {s t u : σ} {e : ε} (h : Reaches step s t) (hstep : step t e = some u) :
    Reaches step s u := by
  rcases h with ⟨es, hrun⟩
  exact ⟨es ++ [e], exec_append.mpr ⟨t, hrun, exec_cons.mpr ⟨u, hstep, rfl⟩⟩⟩

/-- A test of the state that a run on fixed events ends in. -/
theorem exists_of_exec_any {s : σ} {es : List ε} {p : σ → Bool}
    (h : (exec step s es).any p = true) : ∃ t, exec step s es = some t ∧ p t = true := by
  cases hrun : exec step s es with
  | none =>
      rw [hrun] at h
      exact absurd h (by simp only [Option.any_none, Bool.false_eq_true, not_false_eq_true])
  | some t =>
      rw [hrun, Option.any_some] at h
      exact ⟨t, rfl, h⟩

/-- What every step that meets the condition preserves, every run that meets
    it preserves, by induction along the run. -/
theorem exec_invariant_of_meets {C : σ → ε → Prop} {I : σ → Prop}
    (hI : ∀ s e s', I s → C s e → step s e = some s' → I s') {s t : σ} {es : List ε}
    (hs : I s) (hC : Meets step C s es) (hrun : exec step s es = some t) : I t := by
  induction es generalizing s with
  | nil =>
      simp only [exec, Option.some.injEq] at hrun
      rwa [← hrun]
  | cons e es ih =>
      rcases exec_cons.mp hrun with ⟨s', hstep, hrest⟩
      exact ih (hI s e s' hs hC.1 hstep) (hC.2 s' hstep) hrest

theorem meets_of_forall {C : σ → ε → Prop} (hC : ∀ s e, C s e) (s : σ) (es : List ε) :
    Meets step C s es := by
  induction es generalizing s with
  | nil => trivial
  | cons e es ih => exact ⟨hC s e, fun s' _ => ih s'⟩

/-- The same for every state on the way, with what the invariant implies. The
    run need not go through to its end. -/
theorem always_of_meets {C : σ → ε → Prop} {I P : σ → Prop}
    (hI : ∀ s e s', I s → C s e → step s e = some s' → I s') (hP : ∀ s, I s → P s)
    {s : σ} {es : List ε} (hs : I s) (hC : Meets step C s es) : Always step P s es := by
  induction es generalizing s with
  | nil => exact hP s hs
  | cons e es ih =>
      exact ⟨hP s hs, fun s' hstep => ih (hI s e s' hs hC.1 hstep) (hC.2 s' hstep)⟩

theorem meets_append {C : σ → ε → Prop} {s t : σ} {es fs : List ε}
    (hrun : exec step s es = some t) :
    Meets step C s (es ++ fs) ↔ Meets step C s es ∧ Meets step C t fs := by
  induction es generalizing s with
  | nil =>
      simp only [exec, Option.some.injEq] at hrun
      rw [List.nil_append, hrun]
      simp only [Meets, true_and]
  | cons e es ih =>
      rcases exec_cons.mp hrun with ⟨s', hstep, hrest⟩
      rw [List.cons_append, Meets, Meets, forall_successor hstep, forall_successor hstep, ih hrest,
        and_assoc]

section Record

variable {α : Type*} {o : σ → ε → Option α}

theorem record_cons {s s' : σ} {e : ε} (es : List ε) (hstep : step s e = some s') :
    record step o s (e :: es) = (o s e).toList ++ record step o s' es := by
  simp only [record, hstep]

theorem record_append {s t : σ} {es : List ε} (fs : List ε) (hrun : exec step s es = some t) :
    record step o s (es ++ fs) = record step o s es ++ record step o t fs := by
  induction es generalizing s with
  | nil =>
      simp only [exec, Option.some.injEq] at hrun
      subst hrun
      rfl
  | cons e es ih =>
      rcases exec_cons.mp hrun with ⟨s', hstep, hrest⟩
      rw [List.cons_append, record_cons _ hstep, record_cons _ hstep, ih hrest, List.append_assoc]

/-- What a step does to the state and to the record, a run does. -/
theorem exec_record_of_meets {C : σ → ε → Prop} {I : σ → List α → Prop}
    (hI : ∀ s e s' l, I s l → C s e → step s e = some s' → I s' (l ++ (o s e).toList))
    {s t : σ} {es : List ε} {l : List α} (hs : I s l) (hC : Meets step C s es)
    (hrun : exec step s es = some t) : I t (l ++ record step o s es) := by
  induction es generalizing s l with
  | nil =>
      simp only [exec, Option.some.injEq] at hrun
      rw [record, List.append_nil, ← hrun]
      exact hs
  | cons e es ih =>
      rcases exec_cons.mp hrun with ⟨s', hstep, hrest⟩
      rw [record_cons es hstep, ← List.append_assoc]
      exact ih (hI s e s' l hs hC.1 hstep) (hC.2 s' hstep) hrest

end Record

theorem always_mono {P Q : σ → Prop} (hPQ : ∀ s, P s → Q s) {s : σ} {es : List ε}
    (h : Always step P s es) : Always step Q s es := by
  induction es generalizing s with
  | nil => exact hPQ s h
  | cons e es ih => exact ⟨hPQ s h.1, fun s' hstep => ih (h.2 s' hstep)⟩

/-- What every step preserves, every run preserves. -/
theorem exec_invariant {I : σ → Prop} (hI : ∀ s e s', I s → step s e = some s' → I s')
    {s t : σ} {es : List ε} (hs : I s) (hrun : exec step s es = some t) : I t :=
  exec_invariant_of_meets (C := fun _ _ => True) (fun s e s' h _ hstep => hI s e s' h hstep) hs
    (meets_of_forall (fun _ _ => trivial) s es) hrun

/-- A rank that steps never raise, and those of one kind lower, bounds how many
    of them a run has. -/
theorem exec_countP_le {E : ε → Prop} {I : σ → Prop} {D : ε → Bool} {rank : σ → Nat}
    (hI : ∀ s e s', I s → step s e = some s' → I s')
    (h : ∀ s e s', E e → I s → step s e = some s' → rank s' + (if D e then 1 else 0) ≤ rank s)
    {s t : σ} {es : List ε} (hE : ∀ e ∈ es, E e) (hs : I s) (hrun : exec step s es = some t) :
    rank t + es.countP D ≤ rank s := by
  induction es generalizing s with
  | nil =>
      simp only [exec, Option.some.injEq] at hrun
      rw [hrun]
      exact Nat.le_refl _
  | cons e es ih =>
      rcases exec_cons.mp hrun with ⟨s', hstep, hrest⟩
      rw [List.forall_mem_cons] at hE
      have hhead := h s e s' hE.1 hs hstep
      have htail := ih hE.2 (hI s e s' hs hstep) hrest
      rw [List.countP_cons]
      omega

/-- A rank that every step lowers, but for those of one kind, which raise it by
    no more than `c`, bounds the runs. -/
theorem exec_length_le_add {I : σ → Prop} {D : ε → Bool} {c : Nat} {rank : σ → Nat}
    (hI : ∀ s e s', I s → step s e = some s' → I s')
    (h : ∀ s e s', I s → step s e = some s' → rank s' + 1 ≤ rank s + (if D e then c + 1 else 0))
    {s t : σ} {es : List ε} (hs : I s) (hrun : exec step s es = some t) :
    rank t + es.length ≤ rank s + (c + 1) * es.countP D := by
  -- By induction on the run: an event of the kind is one more step and `c` more of rank.
  induction es generalizing s with
  | nil =>
      simp only [exec, Option.some.injEq] at hrun
      rw [hrun, List.length_nil]
      exact Nat.le_add_right _ _
  | cons e es ih =>
      rcases exec_cons.mp hrun with ⟨s', hstep, hrest⟩
      have hhead := h s e s' hs hstep
      have htail := ih (hI s e s' hs hstep) hrest
      rw [List.countP_cons, List.length_cons, Nat.mul_add]
      cases hD : D e with
      | true =>
          rw [hD, if_pos rfl] at hhead
          rw [if_pos rfl, Nat.mul_one]
          omega
      | false =>
          rw [hD, if_neg Bool.false_ne_true] at hhead
          rw [if_neg Bool.false_ne_true, Nat.mul_zero]
          omega

/-- A rank that every step lowers bounds the runs. -/
theorem exec_length_le {rank : σ → Nat} (h : ∀ s e s', step s e = some s' → rank s' < rank s)
    {s t : σ} {es : List ε} (hrun : exec step s es = some t) : rank t + es.length ≤ rank s := by
  have hlength := exec_length_le_add (I := fun _ => True) (c := 0) (D := fun _ => false)
    (fun _ _ _ _ _ => trivial) (fun s e s' _ hstep => h s e s' hstep) trivial hrun
  simpa only [List.countP_false, Function.const_apply, Nat.mul_zero, Nat.add_zero] using hlength

theorem reaches_invariant {I : σ → Prop} (hI : ∀ s e s', I s → step s e = some s' → I s')
    {s t : σ} (hs : I s) (hr : Reaches step s t) : I t := by
  rcases hr with ⟨es, hrun⟩
  exact exec_invariant hI hs hrun

/-- A property that a step keeps exactly when it meets the condition holds
    along exactly the runs that meet the condition. The auxiliary invariant
    `I` is what every step keeps regardless; the property `P` is only asked
    about on states that have both, and only the events in `E` take place. -/
theorem always_iff_meets_on {E : ε → Prop} {C : σ → ε → Prop} {I P : σ → Prop}
    (hI : ∀ s e s', E e → I s → step s e = some s' → I s')
    (hP : ∀ s e s', E e → I s → P s → step s e = some s' → (P s' ↔ C s e)) {s t : σ} {es : List ε}
    (hE : ∀ e ∈ es, E e) (hs : I s) (hPs : P s) (hrun : exec step s es = some t) :
    Always step P s es ↔ Meets step C s es := by
  -- By induction: the first step keeps the property and the rest is a run from there.
  induction es generalizing s with
  | nil => simp only [Always, Meets, hPs]
  | cons e es ih =>
      rcases exec_cons.mp hrun with ⟨s', hstep, hrest⟩
      rw [List.forall_mem_cons] at hE
      have hkey := hP s e s' hE.1 hs hPs hstep
      simp only [Always, Meets, hPs, true_and, forall_successor hstep]
      constructor
      · intro hA
        -- Along the run the property is known of the next state, whether it is the last or not.
        have hPs' : P s' := by
          cases es with
          | nil => exact hA
          | cons _ _ => exact hA.1
        exact ⟨hkey.mp hPs', (ih hE.2 (hI s e s' hE.1 hs hstep) hPs' hrest).mp hA⟩
      · rintro ⟨hC, hM⟩
        exact (ih hE.2 (hI s e s' hE.1 hs hstep) (hkey.mpr hC) hrest).mpr hM

theorem always_iff_meets {C : σ → ε → Prop} {I P : σ → Prop}
    (hI : ∀ s e s', I s → step s e = some s' → I s')
    (hP : ∀ s e s', I s → P s → step s e = some s' → (P s' ↔ C s e)) {s t : σ} {es : List ε}
    (hs : I s) (hPs : P s) (hrun : exec step s es = some t) :
    Always step P s es ↔ Meets step C s es :=
  always_iff_meets_on (E := fun _ => True) (fun s e s' _ => hI s e s') (fun s e s' _ => hP s e s')
    (fun _ _ => trivial) hs hPs hrun

/-- The same for a property that says less than what the steps keep. A good
    state has it, a step that meets the condition leads from good states to
    good ones, and after one that does not the property is lost at once. -/
theorem always_iff_meets_of_good {C : σ → ε → Prop} {G P : σ → Prop} (hP : ∀ s, G s → P s)
    (hG : ∀ s e s', G s → C s e → step s e = some s' → G s')
    (hC : ∀ s e s', G s → step s e = some s' → P s' → C s e) {s t : σ} {es : List ε}
    (hs : G s) (hrun : exec step s es = some t) :
    Always step P s es ↔ Meets step C s es := by
  constructor
  · intro hA
    -- One way by induction, the other is the run lemma for good states.
    induction es generalizing s with
    | nil => trivial
    | cons e es ih =>
        rcases exec_cons.mp hrun with ⟨s', hstep, hrest⟩
        have hnext := hA.2 s' hstep
        have hPs' : P s' := by
          cases es with
          | nil => exact hnext
          | cons _ _ => exact hnext.1
        have hCs := hC s e s' hs hstep hPs'
        refine ⟨hCs, fun s'' hstep' => ?_⟩
        rw [hstep, Option.some.injEq] at hstep'
        rw [← hstep']
        exact ih (hG s e s' hs hCs hstep) hrest hnext
  · exact always_of_meets hG hP hs

/-- An invariant of a state and of the run that led to it. -/
theorem exec_history {I : List ε → σ → Prop} {s : σ} (hs : I [] s)
    (hI : ∀ pre u e u', I pre u → step u e = some u' → I (pre ++ [e]) u') {t : σ} {es : List ε}
    (hrun : exec step s es = some t) : I es t := by
  induction es using List.reverseRecOn generalizing t with
  | nil =>
      rw [exec, Option.some.injEq] at hrun
      rwa [← hrun]
  | append_singleton es e ih =>
      rcases exec_append.mp hrun with ⟨u, hfirst, hlast⟩
      rcases exec_cons.mp hlast with ⟨t', hstep, hnil⟩
      rw [exec, Option.some.injEq] at hnil
      rw [← hnil]
      exact hI es u e t' (ih hfirst) hstep

/-- The same, for runs whose every step meets a condition. -/
theorem exec_history_of_meets {C : σ → ε → Prop} {I : List ε → σ → Prop} {s : σ} (hs : I [] s)
    (hI : ∀ pre u e u', I pre u → C u e → step u e = some u' → I (pre ++ [e]) u') {t : σ}
    {es : List ε} (hC : Meets step C s es) (hrun : exec step s es = some t) : I es t := by
  induction es using List.reverseRecOn generalizing t with
  | nil =>
      rw [exec, Option.some.injEq] at hrun
      rwa [← hrun]
  | append_singleton es e ih =>
      rcases exec_append.mp hrun with ⟨u, hfirst, hlast⟩
      rcases exec_cons.mp hlast with ⟨t', hstep, hnil⟩
      rw [exec, Option.some.injEq] at hnil
      rcases (meets_append hfirst).mp hC with ⟨hearlier, hcond, _⟩
      rw [← hnil]
      exact hI es u e t' (ih hearlier hfirst) hcond hstep

/-- A property of a state and of the run that led to it, kept by exactly the
    steps that meet a condition. The induction is on the run from its end. -/
theorem prefixes_iff_meets {C : σ → ε → Prop} {P : List ε → σ → Prop} {s : σ} (hs : P [] s)
    (hP : ∀ pre u e u', exec step s pre = some u → P pre u → step u e = some u' →
      (P (pre ++ [e]) u' ↔ C u e)) {t : σ} {es : List ε} (hrun : exec step s es = some t) :
    (∀ pre u, pre <+: es → exec step s pre = some u → P pre u) ↔ Meets step C s es := by
  induction es using List.reverseRecOn generalizing t with
  | nil =>
      refine iff_of_true (fun pre u hpre hu => ?_) trivial
      rw [List.prefix_nil] at hpre
      rw [hpre, exec, Option.some.injEq] at hu
      rwa [hpre, ← hu]
  | append_singleton es e ih =>
      rcases exec_append.mp hrun with ⟨u, hfirst, hlast⟩
      rcases exec_cons.mp hlast with ⟨t', hstep, hnil⟩
      rw [exec, Option.some.injEq] at hnil
      subst hnil
      rw [meets_append hfirst, ← ih hfirst, Meets, forall_successor hstep, Meets, and_true]
      constructor
      -- The last state is the whole run's, the others are those of the shorter run.
      · intro hall
        have hearlier : ∀ pre v, pre <+: es → exec step s pre = some v → P pre v :=
          fun pre v hpre => hall pre v (hpre.trans (List.prefix_append es [e]))
        have hwhole := hall (es ++ [e]) t' (List.prefix_refl _) hrun
        exact ⟨hearlier, (hP es u e t' hfirst (hearlier es u (List.prefix_refl _) hfirst)
          hstep).mp hwhole⟩
      · rintro ⟨hearlier, hC⟩ pre v hpre hv
        rcases List.prefix_concat_iff.mp hpre with rfl | hshort
        · rw [hrun, Option.some.injEq] at hv
          rw [← hv]
          exact (hP es u e t' hfirst (hearlier es u (List.prefix_refl _) hfirst) hstep).mpr hC
        · exact hearlier pre v hshort hv

end Machine

end OsLabs
