import OsLabs.Hospital.Simulation

/-!
# Treated Patients

A patient leaves when it is woken, and everybody asleep on `cond_patient` is
woken by the end of any consultation. This is right only if everybody asleep
belongs to the group that is being consulted. The doctor empties the waiting
room when a consultation begins and gives up the mutex, so a patient may take
a seat in the meantime, and the broadcast then sends it home untreated.

If nobody enters during a consultation, the patients asleep are those of the
group while it is consulted, and those in the occupied seats otherwise.

## Main definitions

* `CalmEntry`: The step seats no patient during a consultation.
* `TreatedLeave`: Patients that have left were in a completed group.
* `Seated`: The invariant of calm runs.

## Theorems

* `seated_step`: Calm steps keep the invariant.
* `finished_treated`: Calm runs treat everybody who leaves.
-/

namespace OsLabs

namespace Hospital

open Machine

variable {N M : Nat}

/-- The step does not seat a patient while the doctor is consulting. -/
def CalmEntry (s : State N M) : Event N M → Prop
  | .patient p => s.patient p = .travelling → s.waitingPatients ≠ 3 →
      s.doctor.isConsulting = false
  | _ => True

instance (s : State N M) (e : Event N M) : Decidable (CalmEntry s e) := by
  unfold CalmEntry
  split <;> infer_instance

/-- Every patient that has finished its visit was in a group that the doctor
    copied and whose consultation is completed. -/
def TreatedLeave (s : State N M) : Prop :=
  ∀ p, s.patient p = .finished → ∃ g ∈ s.completed, g ∈ s.groups ∧ State.idOf p ∈ g

/-- Who is asleep in the waiting room, in runs where nobody enters during a
    consultation. -/
structure Seated (s : State N M) : Prop where
  room : s.waitingPatients ≤ 3
  consulting : ∀ ids, s.doctor = .consulting ids → ids ∈ s.groups ∧ s.waitingPatients = 0 ∧
    ∀ p, s.patient p = .waiting → State.idOf p ∈ ids
  seats : s.doctor.isConsulting = false → ∀ p, s.patient p = .waiting →
    ∃ k < s.waitingPatients, s.waitingPatientIds k = State.idOf p
  treated : ∀ p, s.patient p = .woken ∨ s.patient p = .finished →
    ∃ g ∈ s.completed, g ∈ s.groups ∧ State.idOf p ∈ g

theorem seated_init : Seated (init N M) where
  room := Nat.zero_le 3
  consulting := fun ids h => absurd h (by simp only [init, reduceCtorEq, not_false_eq_true])
  seats := fun _ p h => absurd h (by simp only [init, reduceCtorEq, not_false_eq_true])
  treated := fun p h => absurd h (by
    simp only [init, reduceCtorEq, or_self, not_false_eq_true])

theorem isConsulting_of_start {d : DoctorPc} (h : d = .start ∨ d = .woken) :
    d.isConsulting = false := by
  rcases h with h | h
  · rw [h]
    rfl
  · rw [h]
    rfl

/-- The three seats are the ones the doctor copies. -/
theorem mem_copiedIds {s : State N M} {k : Nat} (hk : k < 3) :
    s.waitingPatientIds k ∈ s.copiedIds := by
  unfold State.copiedIds
  have hcases : k = 0 ∨ k = 1 ∨ k = 2 := by omega
  rcases hcases with h | h | h
  · rw [h]
    exact List.mem_cons_self
  · rw [h]
    exact List.mem_cons_of_mem _ List.mem_cons_self
  · rw [h]
    exact List.mem_cons_of_mem _ (List.mem_cons_of_mem _ List.mem_cons_self)

/-- A step that changes nothing the invariant speaks about, except that the
    doctor may go from one place to another outside of consultations. -/
theorem seated_frame {s s' : State N M} (h : Seated s)
    (hroom : s'.waitingPatients = s.waitingPatients)
    (hids : s'.waitingPatientIds = s.waitingPatientIds) (hpatient : s'.patient = s.patient)
    (hgroups : s'.groups = s.groups) (hcompleted : s'.completed = s.completed)
    (hdoctor : s'.doctor = s.doctor ∨
      (s.doctor.isConsulting = false ∧ s'.doctor.isConsulting = false)) : Seated s' := by
  refine ⟨by rw [hroom]; exact h.room, ?_, ?_, ?_⟩
  · intro ids hids'
    rw [hgroups, hroom, hpatient]
    -- A doctor that has changed place is not consulting.
    rcases hdoctor with hsame | ⟨_, hnot⟩
    · exact h.consulting ids (by rw [← hsame, hids'])
    · rw [hids'] at hnot
      exact absurd hnot (by simp only [DoctorPc.isConsulting, Bool.true_eq_false,
        not_false_eq_true])
  · intro hnot
    rw [hroom, hids, hpatient]
    rcases hdoctor with hsame | ⟨hbefore, _⟩
    · exact h.seats (by rw [← hsame, hnot])
    · exact h.seats hbefore
  · rw [hpatient, hgroups, hcompleted]
    exact h.treated

theorem seated_doctor {s s' : State N M} (h : Seated s) (hstretch : DoctorStretch s s') :
    Seated s' := by
  cases hstretch with
  | exit hpc hall heq =>
      subst heq
      exact seated_frame h rfl rfl rfl rfl rfl (Or.inr ⟨isConsulting_of_start hpc, rfl⟩)
  | deliver hpc hleft hno hcan chosen pharmacist hsignal heq =>
      subst heq
      exact seated_frame h rfl rfl rfl rfl rfl (Or.inr ⟨isConsulting_of_start hpc, rfl⟩)
  | sleep hpc hleft hconsult hdeliver heq =>
      subst heq
      exact seated_frame h rfl rfl rfl rfl rfl (Or.inr ⟨isConsulting_of_start hpc, rfl⟩)
  | endDelivery hpc chosen pharmacist hsignal heq =>
      subst heq
      exact seated_frame h rfl rfl rfl rfl rfl (Or.inr ⟨by rw [hpc]; rfl, rfl⟩)
  | consult hpc hleft hcan chosen pharmacist hsignal heq =>
      subst heq
      refine ⟨Nat.zero_le 3, ?_, ?_, ?_⟩
      · intro ids hids
        have hcopied : s.copiedIds = ids := DoctorPc.consulting.inj hids
        rw [← hcopied]
        refine ⟨List.mem_cons_self, rfl, ?_⟩
        intro p hp
        -- Everybody asleep sits in one of the three seats.
        rcases h.seats (isConsulting_of_start hpc) p hp with ⟨k, hk, hid⟩
        rw [← hid]
        exact mem_copiedIds (Nat.lt_of_lt_of_le hk h.room)
      · intro hnot
        exact absurd hnot (by simp only [State.beginConsult, DoctorPc.isConsulting,
          Bool.true_eq_false, not_false_eq_true])
      · intro p hp
        rcases h.treated p hp with ⟨g, hg, hgroup, hid⟩
        exact ⟨g, hg, List.mem_cons_of_mem _ hgroup, hid⟩
  | endConsult ids hpc heq =>
      subst heq
      rcases h.consulting ids hpc with ⟨hgroup, hempty, hall⟩
      refine ⟨h.room, ?_, ?_, ?_⟩
      · intro ids' hids'
        exact absurd hids' (by simp only [State.endConsult, reduceCtorEq, not_false_eq_true])
      · intro _ p hp
        exact absurd hp (broadcast_ne (by simp only [ne_eq, reduceCtorEq, not_false_eq_true]) _ p)
      · intro p hp
        by_cases hwaiting : s.patient p = .waiting
        · exact ⟨ids, List.mem_cons_self, hgroup, hall p hwaiting⟩
        · have hsame : s.patient p = .woken ∨ s.patient p = .finished := by
            have hkeep : broadcast .waiting .woken s.patient p = s.patient p := if_neg hwaiting
            rw [← hkeep]
            exact hp
          rcases h.treated p hsame with ⟨g, hg, hgroup', hid⟩
          exact ⟨g, List.mem_cons_of_mem _ hg, hgroup', hid⟩

theorem enter_fields (s : State N M) (p : Fin N) :
    (s.enter p).waitingPatients = s.waitingPatients + 1 ∧
    (s.enter p).waitingPatientIds
      = Function.update s.waitingPatientIds s.waitingPatients (State.idOf p) ∧
    (s.enter p).patient = Function.update s.patient p .waiting ∧
    (s.enter p).groups = s.groups ∧ (s.enter p).completed = s.completed ∧
    (s.enter p).meds = s.meds ∧ (s.enter p).patientsTreated = s.patientsTreated ∧
    (s.enter p).pharmacist = s.pharmacist := by
  unfold State.enter
  by_cases hthird : s.waitingPatients + 1 = 3
  · simp only [hthird, if_true, State.signalDoctor, and_self]
  · simp only [hthird, if_false, and_self]

theorem enter_doctor (s : State N M) (p : Fin N) :
    (s.enter p).doctor = s.doctor ∨ (s.doctor = .waiting ∧ (s.enter p).doctor = .woken) := by
  unfold State.enter
  by_cases hthird : s.waitingPatients + 1 = 3
  · simp only [hthird, if_true]
    exact signalDoctor_doctor _
  · simp only [hthird, if_false, true_or]

theorem seated_patient {s s' : State N M} {p : Fin N} (h : Seated s)
    (hcalm : CalmEntry s (.patient p)) (hstretch : PatientStretch s p s') : Seated s' := by
  cases hstretch with
  | roam hpc hfull heq =>
      rw [heq]
      exact h
  | leave hpc heq =>
      subst heq
      -- Nobody falls asleep, and who leaves had been woken.
      have hwaiting : ∀ q, Function.update s.patient p .finished q = .waiting →
          s.patient q = .waiting := by
        intro q hq
        by_cases hqp : q = p
        · rw [hqp, Function.update_self] at hq
          exact absurd hq (by simp only [reduceCtorEq, not_false_eq_true])
        · rwa [Function.update_of_ne hqp] at hq
      refine ⟨h.room, ?_, ?_, ?_⟩
      · intro ids hids
        rcases h.consulting ids hids with ⟨hgroup, hempty, hall⟩
        exact ⟨hgroup, hempty, fun q hq => hall q (hwaiting q hq)⟩
      · intro hnot q hq
        exact h.seats hnot q (hwaiting q hq)
      · intro q hq
        by_cases hqp : q = p
        · rw [hqp]
          exact h.treated p (Or.inl hpc)
        · simp only [Function.update_of_ne hqp] at hq
          exact h.treated q hq
  | enter hpc hroom heq =>
      subst heq
      rcases enter_fields s p with ⟨hwaiting, hids, hpatient, hgroups, hcompleted, _, _, _⟩
      -- The seat is taken outside of a consultation, and stays the patient's.
      have hcalm' : s.doctor.isConsulting = false := hcalm hpc hroom
      have hnot : (s.enter p).doctor.isConsulting = false := by
        rcases enter_doctor s p with hsame | ⟨_, hwoken⟩
        · rw [hsame, hcalm']
        · rw [hwoken]
          rfl
      refine ⟨?_, ?_, ?_, ?_⟩
      · have := h.room
        omega
      · intro ids hids'
        rw [hids'] at hnot
        exact absurd hnot (by simp only [DoctorPc.isConsulting, Bool.true_eq_false,
          not_false_eq_true])
      · intro _ q hq
        rw [hpatient] at hq
        rw [hwaiting, hids]
        by_cases hqp : q = p
        · refine ⟨s.waitingPatients, Nat.lt_succ_self _, ?_⟩
          rw [Function.update_self, hqp]
        · rw [Function.update_of_ne hqp] at hq
          rcases h.seats hcalm' q hq with ⟨k, hk, hid⟩
          refine ⟨k, Nat.lt_succ_of_lt hk, ?_⟩
          rwa [Function.update_of_ne (Nat.ne_of_lt hk)]
      · intro q hq
        rw [hpatient] at hq
        rw [hgroups, hcompleted]
        by_cases hqp : q = p
        · rw [hqp, Function.update_self] at hq
          exact absurd hq (by simp only [reduceCtorEq, or_self, not_false_eq_true])
        · rw [Function.update_of_ne hqp] at hq
          exact h.treated q hq

theorem seated_step {s s' : State N M} {e : Event N M} (h : Seated s) (hcalm : CalmEntry s e)
    (hstep : step s e = some s') : Seated s' := by
  cases e with
  | doctor chosen => exact seated_doctor h (doctorStep_cases hstep)
  | patient p => exact seated_patient h hcalm (patientStep_cases hstep)
  | pharmacist j =>
      have hframe := pharmacistStep_frame hstep
      refine seated_frame h hframe.waitingPatients hframe.waitingPatientIds hframe.patient
        hframe.groups hframe.completed ?_
      rcases hframe.doctor with hsame | ⟨hwaiting, hwoken⟩
      · exact Or.inl hsame
      · right
        rw [hwaiting, hwoken]
        exact ⟨rfl, rfl⟩

/-- In every run in which nobody enters the waiting room during a
    consultation, whoever leaves has been treated. -/
theorem finished_treated (es : List (Event N M)) (hC : Meets step CalmEntry (init N M) es) :
    Always step TreatedLeave (init N M) es :=
  always_of_meets (fun _ _ _ hs hCs hstep => seated_step hs hCs hstep)
    (fun _ hs p hp => hs.treated p (Or.inr hp)) seated_init hC

/-- Three patients are consulted; before they leave, a fourth enters, and is
    consulted with the other two. -/
def calmRun : List (Event 6 1) :=
  [.patient 0, .patient 1, .patient 2, .doctor none, .doctor none, .patient 3, .patient 0,
    .patient 1, .patient 2, .patient 4, .patient 5, .doctor none, .doctor none, .patient 3,
    .patient 4, .patient 5]

/-- All six have left, after two consultations. -/
theorem finished_treated_in_calmRun :
    (exec step (init 6 1) calmRun).any (fun s =>
      decide ((∀ p, s.patient p = .finished) ∧ s.completed = [[4, 5, 6], [1, 2, 3]])) = true ∧
      Always step TreatedLeave (init 6 1) calmRun :=
  ⟨by decide +kernel, finished_treated calmRun (by decide +kernel)⟩

/-- Three patients arrive and the doctor begins to consult them; a fourth
    enters, is woken with them, and leaves. -/
def fourthRun : List (Event 6 1) :=
  [.patient 0, .patient 1, .patient 2, .doctor none, .patient 3, .doctor none, .patient 3]

/-- The fourth patient has finished and was in no group. -/
theorem fourth_untreated :
    ¬ ∀ (N M : Nat) (s : State N M), Reaches step (init N M) s → TreatedLeave s := by
  intro hall
  have hend : (exec step (init 6 1) fourthRun).any (fun s =>
      decide (s.patient 3 = .finished ∧ s.completed = [[1, 2, 3]])) = true := by
    decide +kernel
  rcases exists_of_exec_any hend with ⟨s, hrun, hs⟩
  rcases of_decide_eq_true hs with ⟨hfinished, hcompleted⟩
  rcases hall 6 1 s ⟨fourthRun, hrun⟩ 3 hfinished with ⟨g, hg, _, hid⟩
  rw [hcompleted, List.mem_singleton] at hg
  rw [hg] at hid
  exact absurd hid (by decide)

end Hospital

end OsLabs
