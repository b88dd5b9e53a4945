import OsLabs.Hospital.Treatment

/-!
# Progress of the Simulation

When no thread can take a step, has the simulation ended? Two things can
prevent it. A pharmacist that finds the stock neither full nor below a
group's need goes home without a delivery, and a delivery may fill up a stock
that was not empty, so the pharmacists can be used up before the patients.
And the doctor, on its way out, wakes the pharmacists on two of the three
condition variables they sleep on, so one that still waits for the end of its
delivery waits forever. Runs that avoid both end.

The argument is about the last pharmacist. As long as one is left that was
not called for a round, it can deliver; when there is none, the stock has to
cover everybody (`Supply`). With the stock at zero one of those left must be
on its way to the queue or in it, since every consultation wakes one
(`roused`). The doctor falls asleep only when there is nothing to do, and
whoever gives it something to do wakes it (`Duty`). Patients are counted, and
nobody sleeps on in an empty waiting room (`Room`).

Neither condition can be dropped. A pharmacist left asleep by the doctor stays
asleep, and without pharmacists a group that the stock does not cover is never
treated.

## Main definitions

* `InTime`: The step leaves somebody to deliver, and nobody asleep.
* `Stuck`, `Terminated`: No thread can take a step; all is done.
* `Room`, `Duty`, `Supply`: The invariants.
* `Unsupplied`: A group is not covered and nobody is left to deliver.

## Theorems

* `supply_enqueue`, `supply_queueLoop`, `supply_doneLoop`: What the loops of a
  pharmacist do to the supply.
* `inv_step`: Steps in time keep the invariants.
* `terminated_of_stuck`: A stuck state with the invariants is terminated.
* `not_terminated_of_left`: A pharmacist left asleep stays asleep.
* `unsupplied_of_leave`, `not_terminated_of_unsupplied`: When the last one
  that could deliver goes home, the rest is never treated.
* `no_deadlock`: Runs in time get stuck only at their end.
-/

namespace OsLabs

namespace Hospital

open Machine

variable {N M : Nat}

def PatientPc.isTravelling : PatientPc → Bool
  | .travelling => true
  | _ => false

/-- In the queue, called or not. -/
def PharmacistPc.isQueued : PharmacistPc → Bool
  | .waitQueue | .wokenQueue => true
  | _ => false

/-- In the queue, or woken to look at the stock. -/
def PharmacistPc.isRoused : PharmacistPc → Bool
  | .wokenNotFull | .waitQueue | .wokenQueue => true
  | _ => false

/-- Has not taken a delivery round and has not gone home. -/
def PharmacistPc.isUncalled : PharmacistPc → Bool
  | .travelling | .waitNotFull | .wokenNotFull | .waitQueue | .wokenQueue => true
  | _ => false

theorem isRoused_of_isQueued {pc : PharmacistPc} (h : pc.isQueued = true) :
    pc.isRoused = true := by
  cases pc with
  | waitQueue | wokenQueue => rfl
  | _ => exact absurd h Bool.false_ne_true

theorem isUncalled_of_isQueued {pc : PharmacistPc} (h : pc.isQueued = true) :
    pc.isUncalled = true := by
  cases pc with
  | waitQueue | wokenQueue => rfl
  | _ => exact absurd h Bool.false_ne_true

namespace State

/-- The stock, counted as full while a delivery is under way. -/
def stock (s : State N M) : Nat := if s.doctor.isDelivering then aptekaCapacity else s.meds

/-- The groups still to be treated that the stock does not cover. -/
def need (s : State N M) : Nat := (N - s.patientsTreated) / 3 - s.stock / 3

/-- One, while a round that was begun has not been taken. -/
def calls (s : State N M) : Nat := s.pharmacistServed.toNat

end State

/-- When a pharmacist goes home without a delivery, or a delivery begins, some
    pharmacist is left that is not called, unless the stock covers everybody.
    And the doctor does not leave while a pharmacist sleeps on
    `cond_pharmacist_done`. -/
def InTime (s : State N M) : Event N M → Prop
  | .pharmacist j =>
      (s.pharmacist j = .travelling ∨ s.pharmacist j = .wokenNotFull) → s.doneFlag = false →
        3 ≤ s.meds → s.meds ≠ aptekaCapacity →
          s.calls + 1 < tally PharmacistPc.isUncalled s.pharmacist ∨ s.need = 0
  | .doctor _ =>
      (s.doctor = .start ∨ s.doctor = .woken) →
        (N ≤ s.patientsTreated → ∀ j, s.pharmacist j ≠ .waitDone) ∧
        (s.patientsTreated < N → ¬ s.canConsult → s.canDeliver →
          1 < tally PharmacistPc.isUncalled s.pharmacist ∨
            N ≤ s.patientsTreated + aptekaCapacity)
  | .patient _ => True

instance (s : State N M) : ∀ e, Decidable (InTime s e)
  | .pharmacist _ => inferInstanceAs (Decidable (_ → _ → _ → _ → (_ < _ ∨ _ = _)))
  | .doctor _ => inferInstanceAs (Decidable (_ → ((_ → ∀ j, s.pharmacist j ≠ .waitDone) ∧
      (_ → ¬ s.canConsult → s.canDeliver → (_ < _ ∨ _ ≤ _)))))
  | .patient _ => isTrue trivial

/-- No thread can take a step. -/
def Stuck (s : State N M) : Prop := ∀ e, step s e = none

/-- Everybody has returned and everybody is treated. -/
structure Terminated (s : State N M) : Prop where
  doctor : s.doctor = .exited
  patients : ∀ p, s.patient p = .finished
  pharmacists : ∀ j, s.pharmacist j = .finished
  treated : s.patientsTreated = N

/-- The patients and the stock. -/
structure Room (s : State N M) : Prop where
  meds : s.meds = 0 ∨ s.meds = 3 ∨ s.meds = 6
  seats : s.waitingPatients ≤ 3
  groups : 3 ∣ s.patientsTreated
  everyone : s.patientsTreated + s.waitingPatients + tally PatientPc.isTravelling s.patient = N
  asleep : ∀ p, s.patient p = .waiting → 1 ≤ s.waitingPatients ∨ s.doctor.isConsulting = true

/-- The doctor. -/
structure Duty (s : State N M) : Prop where
  flag : s.doneFlag = true ↔ s.doctor = .exited
  all : s.doctor = .exited → N ≤ s.patientsTreated
  idle : s.doctor = .waiting → s.patientsTreated < N ∧ ¬ s.canConsult ∧ ¬ s.canDeliver

/-- The pharmacists while the doctor works. -/
structure Supply (s : State N M) : Prop where
  queue : s.waitingPharmacists = tally PharmacistPc.isQueued s.pharmacist
  called : s.calls ≤ tally PharmacistPc.isQueued s.pharmacist
  enough : s.calls < tally PharmacistPc.isUncalled s.pharmacist ∨ s.need = 0
  /-- With nothing in stock, somebody more than those called is on the way. -/
  roused : s.meds = 0 → s.doctor.isDelivering = false → ∀ j, s.pharmacist j = .waitNotFull →
    s.calls < tally PharmacistPc.isRoused s.pharmacist

/-- The pharmacists when the doctor has left. -/
def Released (s : State N M) : Prop :=
  ∀ j, s.pharmacist j ≠ .waitNotFull ∧ s.pharmacist j ≠ .waitQueue ∧ s.pharmacist j ≠ .waitDone

/-- The invariants of runs in time. -/
structure Inv (s : State N M) : Prop where
  room : Room s
  duty : Duty s
  supply : s.doneFlag = false → Supply s
  released : s.doneFlag = true → Released s

/-- While the doctor works there is nothing to show of its leaving. -/
theorem inv_of_working {s : State N M} (hdone : s.doneFlag = false) (hroom : Room s)
    (hduty : Duty s) (hsupply : Supply s) : Inv s := by
  refine ⟨hroom, hduty, fun _ => hsupply, fun hflag => ?_⟩
  rw [hdone] at hflag
  exact absurd hflag Bool.false_ne_true

/-- Outside of consultations somebody asleep means an occupied seat. -/
theorem Room.seat_of_asleep {s : State N M} (h : Room s) (hnot : s.doctor.isConsulting = false)
    {p : Fin N} (hp : s.patient p = .waiting) : 1 ≤ s.waitingPatients := by
  rcases h.asleep p hp with hseat | hconsulting
  · exact hseat
  · rw [hnot] at hconsulting
    exact absurd hconsulting Bool.false_ne_true

/-- A step that none of the tallies notices, apart from those roused. -/
theorem supply_congr {s s' : State N M} (h : Supply s)
    (hwaiting : s'.waitingPharmacists = s.waitingPharmacists) (hcalls : s'.calls = s.calls)
    (hneed : s'.need = s.need)
    (hqueued : tally PharmacistPc.isQueued s'.pharmacist
      = tally PharmacistPc.isQueued s.pharmacist)
    (huncalled : tally PharmacistPc.isUncalled s'.pharmacist
      = tally PharmacistPc.isUncalled s.pharmacist)
    (hroused : s'.meds = 0 → s'.doctor.isDelivering = false →
      ∀ j, s'.pharmacist j = .waitNotFull →
        s.calls < tally PharmacistPc.isRoused s'.pharmacist) : Supply s' := by
  refine ⟨?_, ?_, ?_, ?_⟩
  · rw [hwaiting, hqueued]
    exact h.queue
  · rw [hcalls, hqueued]
    exact h.called
  · rw [hneed, hcalls, huncalled]
    exact h.enough
  · rw [hcalls]
    exact hroused

theorem inv_init (hM : N / 3 ≤ M) : Inv (init N M) where
  room := by
    -- Everybody is on the way.
    have hall : tally PatientPc.isTravelling (init N M).patient = N := by
      rw [tally_const_true (fun _ => rfl), Fintype.card_fin]
    refine ⟨Or.inr (Or.inr rfl), Nat.zero_le 3, Nat.dvd_zero 3, ?_, ?_⟩
    · rw [hall]
      exact Nat.zero_add N
    · intro p hp
      exact absurd hp (by simp only [init, reduceCtorEq, not_false_eq_true])
  duty := by
    refine ⟨?_, ?_, ?_⟩
    · simp only [init, Bool.false_eq_true, reduceCtorEq]
    · intro h
      exact absurd h (by simp only [init, reduceCtorEq, not_false_eq_true])
    · intro h
      exact absurd h (by simp only [init, reduceCtorEq, not_false_eq_true])
  supply := by
    intro _
    have hqueue : tally PharmacistPc.isQueued (init N M).pharmacist = 0 :=
      tally_const_false (fun _ => rfl)
    have huncalled : tally PharmacistPc.isUncalled (init N M).pharmacist = M := by
      rw [tally_const_true (fun _ => rfl), Fintype.card_fin]
    -- The stock covers two groups, which only lowers the need.
    have hneed : (init N M).need ≤ N / 3 := Nat.sub_le _ _
    have hcalls : (init N M).calls = 0 := rfl
    refine ⟨?_, Nat.zero_le _, ?_, ?_⟩
    · rw [hqueue]
      rfl
    · rw [huncalled, hcalls]
      omega
    · intro hmeds
      exact absurd hmeds (Nat.succ_ne_zero 5)
  released := fun h => absurd h (by simp only [init, Bool.false_eq_true, not_false_eq_true])

/-- Pharmacists do not change what the waiting room is about. -/
theorem room_frame {s s' : State N M} (hframe : Frame s s') (h : Room s) : Room s' := by
  refine ⟨by rw [hframe.meds]; exact h.meds, by rw [hframe.waitingPatients]; exact h.seats,
    by rw [hframe.patientsTreated]; exact h.groups, ?_, ?_⟩
  · rw [hframe.patientsTreated, hframe.waitingPatients, hframe.patient]
    exact h.everyone
  · rw [hframe.patient, hframe.waitingPatients]
    intro p hp
    rcases h.asleep p hp with hseat | hconsulting
    · exact Or.inl hseat
    · right
      rcases hframe.doctor with hsame | ⟨hwaiting, _⟩
      · rw [hsame, hconsulting]
      · rw [hwaiting] at hconsulting
        exact absurd hconsulting Bool.false_ne_true

/-- Whoever gives a sleeping doctor something to do wakes it. -/
theorem duty_frame {s s' : State N M} (hframe : Frame s s')
    (hqueue : s'.doctor = .waiting → s'.waitingPharmacists ≤ s.waitingPharmacists)
    (h : Duty s) : Duty s' := by
  have hexited : s'.doctor = .exited ↔ s.doctor = .exited := by
    rcases hframe.doctor with hsame | ⟨hwaiting, hwoken⟩
    · rw [hsame]
    · simp only [hwaiting, hwoken, reduceCtorEq]
  refine ⟨?_, ?_, ?_⟩
  · rw [hframe.doneFlag, hexited]
    exact h.flag
  · rw [hframe.patientsTreated, hexited]
    exact h.all
  · intro hidle
    -- A step of a pharmacist does not put the doctor to sleep.
    have hbefore : s.doctor = .waiting := by
      rcases hframe.doctor with hsame | ⟨hwaiting, _⟩
      · rw [← hsame, hidle]
      · exact hwaiting
    rcases h.idle hbefore with ⟨hleft, hconsult, hdeliver⟩
    have hle := hqueue hidle
    refine ⟨by rw [hframe.patientsTreated]; exact hleft, ?_, ?_⟩
    · unfold State.canConsult
      rw [hframe.waitingPatients, hframe.meds]
      exact hconsult
    · unfold State.canDeliver at hdeliver ⊢
      rw [hframe.meds]
      omega

theorem stock_frame {s s' : State N M} (hframe : Frame s s') : s'.stock = s.stock := by
  have hdelivering : s'.doctor.isDelivering = s.doctor.isDelivering := by
    rcases hframe.doctor with hsame | ⟨hwaiting, hwoken⟩
    · rw [hsame]
    · rw [hwaiting, hwoken]
      rfl
  unfold State.stock
  rw [hdelivering, hframe.meds]

theorem need_frame {s s' : State N M} (hframe : Frame s s') : s'.need = s.need := by
  unfold State.need
  rw [stock_frame hframe, hframe.patientsTreated]

theorem isDelivering_frame {s s' : State N M} (hframe : Frame s s') :
    s'.doctor.isDelivering = s.doctor.isDelivering := by
  rcases hframe.doctor with hsame | ⟨hwaiting, hwoken⟩
  · rw [hsame]
  · rw [hwaiting, hwoken]
    rfl

section Pharmacist

variable {s : State N M} {j : Fin M}

theorem waitNotFull_of_update {pharmacist : Fin M → PharmacistPc} {k : Fin M} {pc : PharmacistPc}
    (hne : pc ≠ .waitNotFull) (hk : Function.update pharmacist j pc k = .waitNotFull) :
    pharmacist k = .waitNotFull := by
  by_cases hkj : k = j
  · rw [hkj, Function.update_self] at hk
    exact absurd hk hne
  · rwa [Function.update_of_ne hkj] at hk

/-- A pharmacist goes to sleep before a full stock. -/
theorem supply_sleepNotFull (hpc : s.pharmacist j = .travelling ∨ s.pharmacist j = .wokenNotFull)
    (hmeds : s.meds = aptekaCapacity) (h : Supply s) :
    Supply (s.setPharmacist j .waitNotFull) := by
  have hqueued : tally PharmacistPc.isQueued (Function.update s.pharmacist j .waitNotFull)
      = tally PharmacistPc.isQueued s.pharmacist :=
    tally_update_same (by rcases hpc with hpc | hpc <;> rw [hpc] <;> rfl)
  have huncalled : tally PharmacistPc.isUncalled (Function.update s.pharmacist j .waitNotFull)
      = tally PharmacistPc.isUncalled s.pharmacist :=
    tally_update_same (by rcases hpc with hpc | hpc <;> rw [hpc] <;> rfl)
  refine supply_congr h rfl rfl rfl hqueued huncalled (fun hzero => ?_)
  have hmeds' : s.meds = 0 := hzero
  rw [hmeds] at hmeds'
  exact absurd hmeds' (Nat.succ_ne_zero 5)

/-- A pharmacist that is not needed goes home. -/
theorem supply_leave (hpc : s.pharmacist j = .travelling ∨ s.pharmacist j = .wokenNotFull)
    (hmeds : s.meds ≠ 0)
    (hspare : s.calls + 1 < tally PharmacistPc.isUncalled s.pharmacist ∨ s.need = 0)
    (h : Supply s) : Supply (s.setPharmacist j .finished) := by
  have hqueued : tally PharmacistPc.isQueued (Function.update s.pharmacist j .finished)
      = tally PharmacistPc.isQueued s.pharmacist :=
    tally_update_same (by rcases hpc with hpc | hpc <;> rw [hpc] <;> rfl)
  have huncalled : tally PharmacistPc.isUncalled (Function.update s.pharmacist j .finished) + 1
      = tally PharmacistPc.isUncalled s.pharmacist :=
    tally_update_loss rfl (by rcases hpc with hpc | hpc <;> rw [hpc] <;> rfl)
  refine ⟨h.queue.trans (congrArg Nat.cast hqueued.symm), h.called.trans (le_of_eq hqueued.symm),
    ?_, fun hzero => absurd hzero hmeds⟩
  have hleft : s.calls < tally PharmacistPc.isUncalled (Function.update s.pharmacist j .finished) ∨
      s.need = 0 := by omega
  exact hleft

/-- A pharmacist queues up. -/
theorem supply_enqueue (hpc : s.pharmacist j = .travelling ∨ s.pharmacist j = .wokenNotFull)
    (h : Supply s) : Supply (s.enqueue j) := by
  have hqueued : tally PharmacistPc.isQueued (Function.update s.pharmacist j .wokenQueue)
      = tally PharmacistPc.isQueued s.pharmacist + 1 :=
    tally_update_gain rfl (by rcases hpc with hpc | hpc <;> rw [hpc] <;> rfl)
  have huncalled : tally PharmacistPc.isUncalled (Function.update s.pharmacist j .wokenQueue)
      = tally PharmacistPc.isUncalled s.pharmacist :=
    tally_update_same (by rcases hpc with hpc | hpc <;> rw [hpc] <;> rfl)
  -- One that was woken counts already, one on the way is added.
  have hroused : tally PharmacistPc.isRoused s.pharmacist
      ≤ tally PharmacistPc.isRoused (Function.update s.pharmacist j .wokenQueue) := by
    rcases hpc with hpc | hpc
    · exact le_trans (Nat.le_succ _) (le_of_eq (tally_update_gain rfl (by rw [hpc]; rfl)).symm)
    · exact le_of_eq (tally_update_same (by rw [hpc]; rfl)).symm
  have hneed := need_frame (frame_enqueue s j)
  have hdelivering := isDelivering_frame (frame_enqueue s j)
  have hpharmacist : (s.enqueue j).pharmacist = Function.update s.pharmacist j .wokenQueue := rfl
  have hwp : (s.enqueue j).waitingPharmacists = s.waitingPharmacists + 1 := rfl
  have hcalls : (s.enqueue j).calls = s.calls := rfl
  refine ⟨?_, ?_, ?_, ?_⟩
  · rw [hwp, hpharmacist, hqueued, h.queue]
    rfl
  · rw [hcalls, hpharmacist, hqueued]
    exact Nat.le_succ_of_le h.called
  · rw [hneed, hcalls, hpharmacist, huncalled]
    exact h.enough
  · intro hmeds hnot k hk
    rw [hdelivering] at hnot
    rw [hcalls, hpharmacist]
    rw [hpharmacist] at hk
    have hk' := waitNotFull_of_update (by simp only [ne_eq, reduceCtorEq, not_false_eq_true]) hk
    exact lt_of_lt_of_le (h.roused hmeds hnot k hk') hroused

/-- A pharmacist in the queue goes back to sleep there. -/
theorem supply_sleepQueue (hpc : s.pharmacist j = .wokenQueue) (h : Supply s) :
    Supply (s.setPharmacist j .waitQueue) := by
  have hqueued : tally PharmacistPc.isQueued (Function.update s.pharmacist j .waitQueue)
      = tally PharmacistPc.isQueued s.pharmacist := tally_update_same (by rw [hpc]; rfl)
  have huncalled : tally PharmacistPc.isUncalled (Function.update s.pharmacist j .waitQueue)
      = tally PharmacistPc.isUncalled s.pharmacist := tally_update_same (by rw [hpc]; rfl)
  have hroused : tally PharmacistPc.isRoused (Function.update s.pharmacist j .waitQueue)
      = tally PharmacistPc.isRoused s.pharmacist := tally_update_same (by rw [hpc]; rfl)
  refine supply_congr h rfl rfl rfl hqueued huncalled ?_
  intro hmeds hdelivering k hk
  have hk' := waitNotFull_of_update (by simp only [ne_eq, reduceCtorEq, not_false_eq_true]) hk
  exact lt_of_lt_of_eq (h.roused hmeds hdelivering k hk') hroused.symm

/-- A pharmacist takes the round that was begun: one call and one pharmacist
    less. -/
theorem supply_take (hpc : s.pharmacist j = .wokenQueue) (hserved : s.pharmacistServed = true)
    (h : Supply s) : Supply (s.take j) := by
  have hqueued : tally PharmacistPc.isQueued (Function.update s.pharmacist j .wokenDone) + 1
      = tally PharmacistPc.isQueued s.pharmacist := tally_update_loss rfl (by rw [hpc]; rfl)
  have huncalled : tally PharmacistPc.isUncalled (Function.update s.pharmacist j .wokenDone) + 1
      = tally PharmacistPc.isUncalled s.pharmacist := tally_update_loss rfl (by rw [hpc]; rfl)
  have hroused : tally PharmacistPc.isRoused (Function.update s.pharmacist j .wokenDone) + 1
      = tally PharmacistPc.isRoused s.pharmacist := tally_update_loss rfl (by rw [hpc]; rfl)
  -- The round it takes is the one that was called for.
  have hcalls : s.calls = 1 := by
    unfold State.calls
    rw [hserved]
    rfl
  have hpharmacist : (s.take j).pharmacist = Function.update s.pharmacist j .wokenDone := rfl
  have hcalls' : (s.take j).calls = 0 := rfl
  have hneed : (s.take j).need = s.need := rfl
  have hwp : (s.take j).waitingPharmacists = s.waitingPharmacists - 1 := rfl
  have hqueue := h.queue
  have henough := h.enough
  refine ⟨?_, ?_, ?_, ?_⟩
  · rw [hwp, hpharmacist]
    omega
  · rw [hcalls']
    exact Nat.zero_le _
  · rw [hneed, hcalls', hpharmacist]
    omega
  · intro hmeds hdelivering k hk
    rw [hcalls', hpharmacist]
    have hk' := waitNotFull_of_update (by simp only [ne_eq, reduceCtorEq, not_false_eq_true]) hk
    have hbefore := h.roused hmeds hdelivering k hk'
    omega

/-- A pharmacist that has taken a round counts no longer, wherever it goes. -/
theorem supply_afterTake {pc : PharmacistPc} (hpc : s.pharmacist j = .wokenDone)
    (hnew : pc = .waitDone ∨ pc = .finished) (h : Supply s) : Supply (s.setPharmacist j pc) := by
  have hqueued : tally PharmacistPc.isQueued (Function.update s.pharmacist j pc)
      = tally PharmacistPc.isQueued s.pharmacist :=
    tally_update_same (by rcases hnew with hnew | hnew <;> rw [hpc, hnew] <;> rfl)
  have huncalled : tally PharmacistPc.isUncalled (Function.update s.pharmacist j pc)
      = tally PharmacistPc.isUncalled s.pharmacist :=
    tally_update_same (by rcases hnew with hnew | hnew <;> rw [hpc, hnew] <;> rfl)
  have hroused : tally PharmacistPc.isRoused (Function.update s.pharmacist j pc)
      = tally PharmacistPc.isRoused s.pharmacist :=
    tally_update_same (by rcases hnew with hnew | hnew <;> rw [hpc, hnew] <;> rfl)
  have hne : pc ≠ .waitNotFull := by
    rcases hnew with hnew | hnew <;> rw [hnew] <;>
      simp only [ne_eq, reduceCtorEq, not_false_eq_true]
  refine supply_congr h rfl rfl rfl hqueued huncalled ?_
  intro hmeds hdelivering k hk
  exact lt_of_lt_of_eq (h.roused hmeds hdelivering k (waitNotFull_of_update hne hk)) hroused.symm

theorem supply_doneLoop (hpc : s.pharmacist j = .wokenDone) (hdone : s.doneFlag = false)
    (h : Supply s) : Supply (s.doneLoop j) := by
  unfold State.doneLoop
  by_cases hsleep : s.pharmacistDone = false ∧ s.doneFlag = false
  · rw [if_pos hsleep]
    exact supply_afterTake hpc (Or.inl rfl) h
  · rw [if_neg hsleep, hdone, if_neg Bool.false_ne_true]
    -- The supply does not look at `pharmacist_done`.
    have hfinished := supply_afterTake hpc (Or.inr rfl) h
    exact supply_congr hfinished rfl rfl rfl rfl rfl hfinished.roused

theorem supply_queueLoop (hpc : s.pharmacist j = .wokenQueue) (hdone : s.doneFlag = false)
    (h : Supply s) : Supply (s.queueLoop j) := by
  unfold State.queueLoop
  by_cases hsleep : s.pharmacistServed = false ∧ s.doneFlag = false
  · rw [if_pos hsleep]
    exact supply_sleepQueue hpc h
  · have hserved : s.pharmacistServed = true := by
      rw [← Bool.not_eq_false]
      exact fun hfalse => hsleep ⟨hfalse, hdone⟩
    rw [if_neg hsleep, hdone, if_neg Bool.false_ne_true]
    refine supply_doneLoop ?_ hdone (supply_take hpc hserved h)
    exact Function.update_self ..

theorem supply_arrive (hpc : s.pharmacist j = .travelling ∨ s.pharmacist j = .wokenNotFull)
    (hdone : s.doneFlag = false)
    (hspare : 3 ≤ s.meds → s.meds ≠ aptekaCapacity →
      s.calls + 1 < tally PharmacistPc.isUncalled s.pharmacist ∨ s.need = 0)
    (h : Supply s) : Supply (s.arrive j) := by
  unfold State.arrive
  by_cases hfull : s.meds = aptekaCapacity ∧ s.doneFlag = false
  · rw [if_pos hfull]
    exact supply_sleepNotFull hpc hfull.1 h
  have hnotfull : s.meds ≠ aptekaCapacity := fun heq => hfull ⟨heq, hdone⟩
  rw [if_neg hfull, hdone, if_neg Bool.false_ne_true]
  by_cases hmeds : s.meds < 3
  · rw [if_pos hmeds]
    refine supply_queueLoop ?_ hdone (supply_enqueue hpc h)
    exact Function.update_self ..
  · rw [if_neg hmeds]
    -- This is the branch that a step in time takes only with somebody to spare.
    have hthree : 3 ≤ s.meds := Nat.le_of_not_lt hmeds
    have hzero : s.meds ≠ 0 := by omega
    exact supply_leave hpc hzero (hspare hthree hnotfull) h

theorem waitingPharmacists_doneLoop (s : State N M) (j : Fin M) :
    (s.doneLoop j).waitingPharmacists = s.waitingPharmacists := by
  unfold State.doneLoop
  split
  · rfl
  · split <;> rfl

theorem waitingPharmacists_queueLoop (s : State N M) (j : Fin M) :
    (s.queueLoop j).waitingPharmacists ≤ s.waitingPharmacists := by
  unfold State.queueLoop
  split
  · exact le_refl _
  · split
    · exact le_refl _
    · rw [waitingPharmacists_doneLoop]
      have htake : (s.take j).waitingPharmacists = s.waitingPharmacists - 1 := rfl
      omega

theorem duty_arrive (h : Duty s) : Duty (s.arrive j) := by
  refine duty_frame (frame_arrive s j) ?_ h
  intro hidle
  unfold State.arrive at hidle ⊢
  split
  · exact le_refl _
  · rename_i hfull
    rw [if_neg hfull] at hidle
    split
    · exact le_refl _
    · rename_i hdone
      rw [if_neg hdone] at hidle
      split
      · rename_i hmeds
        rw [if_pos hmeds] at hidle
        -- Queueing up wakes the doctor, who is not asleep afterwards.
        exfalso
        have hbefore : (s.enqueue j).doctor = .waiting := by
          rcases (frame_queueLoop (s.enqueue j) j).doctor with hsame | ⟨hwaiting, _⟩
          · rw [← hsame, hidle]
          · exact hwaiting
        have hwoken : (s.enqueue j).doctor = if s.doctor = .waiting then .woken else s.doctor := rfl
        rw [hwoken] at hbefore
        by_cases hwaiting : s.doctor = .waiting
        · rw [if_pos hwaiting] at hbefore
          exact absurd hbefore (by simp only [reduceCtorEq, not_false_eq_true])
        · rw [if_neg hwaiting] at hbefore
          exact hwaiting hbefore
      · exact le_refl _

theorem released_finish (h : Released s) : Released (s.setPharmacist j .finished) := by
  intro k
  by_cases hkj : k = j
  · have hfinished : (s.setPharmacist j .finished).pharmacist k = .finished := by
      rw [hkj]
      exact Function.update_self ..
    rw [hfinished]
    simp only [ne_eq, reduceCtorEq, not_false_eq_true, and_self]
  · have hsame : (s.setPharmacist j .finished).pharmacist k = s.pharmacist k :=
      Function.update_of_ne hkj ..
    rw [hsame]
    exact h k

/-- When the doctor has left, a pharmacist's next stretch is its last. -/
theorem pharmacistStep_done {s' : State N M} (hdone : s.doneFlag = true)
    (h : pharmacistStep s j = some s') : s' = s.setPharmacist j .finished := by
  rcases pharmacistStep_cases h with ⟨_, heq⟩ | ⟨_, heq⟩ | ⟨_, heq⟩
  · rw [heq, State.arrive, hdone]
    simp only [Bool.true_eq_false, and_false, if_false, if_true]
  · rw [heq, State.queueLoop, hdone]
    simp only [Bool.true_eq_false, and_false, if_false, if_true]
  · rw [heq, State.doneLoop, hdone]
    simp only [Bool.true_eq_false, and_false, if_false, if_true]

end Pharmacist

theorem inv_pharmacist {s s' : State N M} {j : Fin M} (h : Inv s)
    (htime : InTime s (.pharmacist j)) (hstep : pharmacistStep s j = some s') : Inv s' := by
  have hframe := pharmacistStep_frame hstep
  -- The waiting room is the patients' business; the rest depends on the loop.
  refine ⟨room_frame hframe h.room, ?_, ?_, ?_⟩
  · rcases pharmacistStep_cases hstep with ⟨_, heq⟩ | ⟨_, heq⟩ | ⟨_, heq⟩
    · rw [heq]
      exact duty_arrive h.duty
    · refine duty_frame hframe (fun _ => ?_) h.duty
      rw [heq]
      exact waitingPharmacists_queueLoop s j
    · refine duty_frame hframe (fun _ => ?_) h.duty
      rw [heq, waitingPharmacists_doneLoop]
  · intro hdone
    rw [hframe.doneFlag] at hdone
    rcases pharmacistStep_cases hstep with ⟨hpc, heq⟩ | ⟨hpc, heq⟩ | ⟨hpc, heq⟩
    · rw [heq]
      exact supply_arrive hpc hdone (htime hpc hdone) (h.supply hdone)
    · rw [heq]
      exact supply_queueLoop hpc hdone (h.supply hdone)
    · rw [heq]
      exact supply_doneLoop hpc hdone (h.supply hdone)
  · intro hdone
    rw [hframe.doneFlag] at hdone
    rw [pharmacistStep_done hdone hstep]
    exact released_finish (h.released hdone)

theorem flag_of_start {s : State N M} (h : Duty s) (hpc : s.doctor = .start ∨ s.doctor = .woken) :
    s.doneFlag = false := by
  rw [← Bool.not_eq_true, h.flag]
  rcases hpc with hpc | hpc
  · rw [hpc]
    simp only [reduceCtorEq, not_false_eq_true]
  · rw [hpc]
    simp only [reduceCtorEq, not_false_eq_true]

/-- A doctor that neither sleeps nor has left satisfies its invariant. -/
theorem duty_working {s : State N M} (hdone : s.doneFlag = false) (hexited : s.doctor ≠ .exited)
    (hwaiting : s.doctor ≠ .waiting) : Duty s := by
  refine ⟨?_, fun h => absurd h hexited, fun h => absurd h hwaiting⟩
  simp only [hdone, Bool.false_eq_true, hexited]

theorem stock_of_working {s : State N M} (h : s.doctor.isDelivering = false) :
    s.stock = s.meds := by
  unfold State.stock
  rw [h, if_neg Bool.false_ne_true]

theorem isDelivering_of_start {d : DoctorPc} (h : d = .start ∨ d = .woken) :
    d.isDelivering = false := by
  rcases h with h | h
  · rw [h]
    rfl
  · rw [h]
    rfl

/-- A consultation takes a group less and a group's medicines less. -/
theorem need_beginConsult {s : State N M} (hidle : s.doctor.isDelivering = false)
    (hcan : s.canConsult) (pharmacist : Fin M → PharmacistPc) :
    (s.beginConsult pharmacist).need = s.need := by
  have hstock : (s.beginConsult pharmacist).stock = s.meds - 3 := rfl
  have htreated : (s.beginConsult pharmacist).patientsTreated = s.patientsTreated + 3 := rfl
  have hmeds := hcan.2
  unfold State.need
  rw [stock_of_working hidle, hstock, htreated]
  omega

/-- The doctor's place does not matter for the need, unless it delivers. -/
theorem need_working {s s' : State N M} (hidle : s.doctor.isDelivering = false)
    (hidle' : s'.doctor.isDelivering = false) (hmeds : s'.meds = s.meds)
    (htreated : s'.patientsTreated = s.patientsTreated) : s'.need = s.need := by
  unfold State.need
  rw [stock_of_working hidle, stock_of_working hidle', hmeds, htreated]

/-- A delivery has been counted since it began. -/
theorem need_endDelivery {s : State N M} (hpc : s.doctor = .delivering)
    (pharmacist : Fin M → PharmacistPc) : (s.endDelivery pharmacist).need = s.need := by
  have hstock : s.stock = aptekaCapacity := by
    unfold State.stock
    rw [hpc]
    rfl
  unfold State.need
  rw [hstock]
  rfl

theorem inv_exit {s : State N M} (h : Inv s) (hpc : s.doctor = .start ∨ s.doctor = .woken)
    (hall : N ≤ s.patientsTreated) (htime : ∀ j, s.pharmacist j ≠ .waitDone) : Inv s.exit where
  room := by
    refine ⟨h.room.meds, h.room.seats, h.room.groups, h.room.everyone, fun p hp => ?_⟩
    exact Or.inl (h.room.seat_of_asleep (isConsulting_of_start hpc) hp)
  duty := by
    refine ⟨?_, fun _ => hall, ?_⟩
    · simp only [State.exit]
    · intro hidle
      exact absurd hidle (by simp only [State.exit, reduceCtorEq, not_false_eq_true])
  supply := fun hdone => absurd hdone (by
    simp only [State.exit, Bool.true_eq_false, not_false_eq_true])
  released := by
    intro _ j
    refine ⟨?_, ?_, ?_⟩
    · intro hj
      have hinner := broadcast_of_ne (by simp only [ne_eq, reduceCtorEq, not_false_eq_true]) hj
      exact broadcast_ne (by simp only [ne_eq, reduceCtorEq, not_false_eq_true]) _ j hinner
    · exact broadcast_ne (by simp only [ne_eq, reduceCtorEq, not_false_eq_true]) _ j
    · intro hj
      have hinner := broadcast_of_ne (by simp only [ne_eq, reduceCtorEq, not_false_eq_true]) hj
      exact htime j (broadcast_of_ne (by simp only [ne_eq, reduceCtorEq, not_false_eq_true]) hinner)

theorem inv_beginConsult {s : State N M} {chosen : Option (Fin M)}
    {pharmacist : Fin M → PharmacistPc} (h : Inv s)
    (hpc : s.doctor = .start ∨ s.doctor = .woken) (hcan : s.canConsult)
    (hsignal : signal .waitNotFull .wokenNotFull chosen s.pharmacist = some pharmacist) :
    Inv (s.beginConsult pharmacist) := by
  have hdone := flag_of_start h.duty hpc
  have hthree : s.waitingPatients = 3 := Nat.le_antisymm h.room.seats hcan.1
  have hsupply := h.supply hdone
  have hmeds := h.room.meds
  have hcan2 := hcan.2
  have heveryone := h.room.everyone
  refine inv_of_working hdone ?_ ?_ ?_
  · refine ⟨?_, Nat.zero_le 3, ?_, ?_, fun p _ => Or.inr rfl⟩
    · have hless : (s.beginConsult pharmacist).meds = s.meds - 3 := rfl
      omega
    · exact (Nat.dvd_add_right h.room.groups).mpr (Nat.dvd_refl 3)
    · have hsum : s.patientsTreated + 3 + 0 + tally PatientPc.isTravelling s.patient = N := by
        omega
      exact hsum
  · exact duty_working hdone
      (by simp only [State.beginConsult, ne_eq, reduceCtorEq, not_false_eq_true])
      (by simp only [State.beginConsult, ne_eq, reduceCtorEq, not_false_eq_true])
  · have hqueued : tally PharmacistPc.isQueued pharmacist
        = tally PharmacistPc.isQueued s.pharmacist := tally_signal (by rfl) hsignal
    have huncalled : tally PharmacistPc.isUncalled pharmacist
        = tally PharmacistPc.isUncalled s.pharmacist := tally_signal (by rfl) hsignal
    have hneed := need_beginConsult (isDelivering_of_start hpc) hcan pharmacist
    refine supply_congr hsupply rfl rfl hneed hqueued huncalled ?_
    intro _ _ j hj
    have hcalled : s.calls ≤ tally PharmacistPc.isRoused s.pharmacist :=
      le_trans hsupply.called (tally_mono (fun _ hqueue => isRoused_of_isQueued hqueue))
    -- Whoever sleeps before a full stock is woken by the signal, one at least.
    rcases signal_cases hsignal with ⟨k, hk, heq⟩ | ⟨hnone, heq⟩
    · have hgain : tally PharmacistPc.isRoused pharmacist
          = tally PharmacistPc.isRoused s.pharmacist + 1 := by
        rw [heq]
        exact tally_update_gain rfl (by rw [hk]; rfl)
      have hbound : s.calls < tally PharmacistPc.isRoused pharmacist := by omega
      exact hbound
    · have hj' : pharmacist j = .waitNotFull := hj
      rw [heq] at hj'
      exact absurd hj' (hnone j)

theorem inv_beginDelivery {s : State N M} {chosen : Option (Fin M)}
    {pharmacist : Fin M → PharmacistPc} (h : Inv s)
    (hpc : s.doctor = .start ∨ s.doctor = .woken) (hcan : s.canDeliver)
    (hspare : 1 < tally PharmacistPc.isUncalled s.pharmacist ∨
      N ≤ s.patientsTreated + aptekaCapacity)
    (hsignal : signal .waitQueue .wokenQueue chosen s.pharmacist = some pharmacist) :
    Inv (s.beginDelivery pharmacist) := by
  have hdone := flag_of_start h.duty hpc
  have hsupply := h.supply hdone
  refine inv_of_working hdone ?_ ?_ ?_
  · refine ⟨h.room.meds, h.room.seats, h.room.groups, h.room.everyone, fun p hp => ?_⟩
    exact Or.inl (h.room.seat_of_asleep (isConsulting_of_start hpc) hp)
  · exact duty_working hdone
      (by simp only [State.beginDelivery, ne_eq, reduceCtorEq, not_false_eq_true])
      (by simp only [State.beginDelivery, ne_eq, reduceCtorEq, not_false_eq_true])
  · have hqueued : tally PharmacistPc.isQueued pharmacist
        = tally PharmacistPc.isQueued s.pharmacist := tally_signal (by rfl) hsignal
    have huncalled : tally PharmacistPc.isUncalled pharmacist
        = tally PharmacistPc.isUncalled s.pharmacist := tally_signal (by rfl) hsignal
    -- There is somebody in the queue to take the round.
    have hone : 1 ≤ tally PharmacistPc.isQueued s.pharmacist := by
      have hpos := hcan.1
      rw [hsupply.queue] at hpos
      omega
    have hcalls : (s.beginDelivery pharmacist).calls = 1 := rfl
    refine ⟨hsupply.queue.trans (congrArg Nat.cast hqueued.symm), ?_, ?_, ?_⟩
    · rw [hcalls]
      exact hone.trans (le_of_eq hqueued.symm)
    · -- Either somebody else is left, or a full stock covers the rest.
      rcases hspare with hother | hcovered
      · left
        rw [hcalls]
        exact hother.trans_eq huncalled.symm
      · right
        have hstock : (s.beginDelivery pharmacist).stock = 6 := rfl
        have htreated : (s.beginDelivery pharmacist).patientsTreated = s.patientsTreated := rfl
        unfold aptekaCapacity at hcovered
        unfold State.need
        rw [hstock, htreated]
        omega
    · intro _ hnot
      exact absurd hnot (by simp only [State.beginDelivery, DoctorPc.isDelivering,
        Bool.true_eq_false, not_false_eq_true])

theorem inv_sleep {s : State N M} (h : Inv s) (hpc : s.doctor = .start ∨ s.doctor = .woken)
    (hleft : s.patientsTreated < N) (hconsult : ¬ s.canConsult) (hdeliver : ¬ s.canDeliver) :
    Inv { s with doctor := .waiting } := by
  have hdone := flag_of_start h.duty hpc
  have hsupply := h.supply hdone
  refine inv_of_working hdone ?_ ?_ ?_
  · refine ⟨h.room.meds, h.room.seats, h.room.groups, h.room.everyone, fun p hp => ?_⟩
    exact Or.inl (h.room.seat_of_asleep (isConsulting_of_start hpc) hp)
  · refine ⟨?_, ?_, fun _ => ⟨hleft, hconsult, hdeliver⟩⟩
    · simp only [hdone, Bool.false_eq_true, reduceCtorEq]
    · intro hexited
      exact absurd hexited (by simp only [reduceCtorEq, not_false_eq_true])
  · have hneed : State.need { s with doctor := .waiting } = s.need :=
      need_working (isDelivering_of_start hpc) rfl rfl rfl
    exact supply_congr hsupply rfl rfl hneed rfl rfl
      (fun hmeds _ => hsupply.roused hmeds (isDelivering_of_start hpc))

/-- A doctor at work has not set the flag. -/
theorem flag_of_working {s : State N M} (h : Duty s) (hexited : s.doctor ≠ .exited) :
    s.doneFlag = false := by
  rw [← Bool.not_eq_true, h.flag]
  exact hexited

theorem inv_endConsult {s : State N M} {ids : List Nat} (h : Inv s)
    (hpc : s.doctor = .consulting ids) : Inv (s.endConsult ids) := by
  have hdone := flag_of_working h.duty (by
    rw [hpc]
    simp only [ne_eq, reduceCtorEq, not_false_eq_true])
  have hsupply := h.supply hdone
  have hdelivering : s.doctor.isDelivering = false := by
    rw [hpc]
    rfl
  refine inv_of_working hdone ?_ ?_ ?_
  · refine ⟨h.room.meds, h.room.seats, h.room.groups, ?_, ?_⟩
    · have htally : tally PatientPc.isTravelling (s.endConsult ids).patient
          = tally PatientPc.isTravelling s.patient := tally_broadcast (by rfl)
      rw [htally]
      exact h.room.everyone
    · intro p hp
      exact absurd hp (broadcast_ne (by simp only [ne_eq, reduceCtorEq, not_false_eq_true]) _ p)
  · exact duty_working hdone
      (by simp only [State.endConsult, ne_eq, reduceCtorEq, not_false_eq_true])
      (by simp only [State.endConsult, ne_eq, reduceCtorEq, not_false_eq_true])
  · have hneed : (s.endConsult ids).need = s.need := need_working hdelivering rfl rfl rfl
    exact supply_congr hsupply rfl rfl hneed rfl rfl
      (fun hmeds _ => hsupply.roused hmeds hdelivering)

theorem inv_endDelivery {s : State N M} {chosen : Option (Fin M)}
    {pharmacist : Fin M → PharmacistPc} (h : Inv s) (hpc : s.doctor = .delivering)
    (hsignal : signal .waitDone .wokenDone chosen s.pharmacist = some pharmacist) :
    Inv (s.endDelivery pharmacist) := by
  have hdone := flag_of_working h.duty (by
    rw [hpc]
    simp only [ne_eq, reduceCtorEq, not_false_eq_true])
  have hsupply := h.supply hdone
  refine inv_of_working hdone ?_ ?_ ?_
  · refine ⟨Or.inr (Or.inr rfl), h.room.seats, h.room.groups, h.room.everyone, fun p hp => ?_⟩
    exact Or.inl (h.room.seat_of_asleep (by rw [hpc]; rfl) hp)
  · exact duty_working hdone
      (by simp only [State.endDelivery, ne_eq, reduceCtorEq, not_false_eq_true])
      (by simp only [State.endDelivery, ne_eq, reduceCtorEq, not_false_eq_true])
  · have hqueued : tally PharmacistPc.isQueued pharmacist
        = tally PharmacistPc.isQueued s.pharmacist := tally_signal (by rfl) hsignal
    have huncalled : tally PharmacistPc.isUncalled pharmacist
        = tally PharmacistPc.isUncalled s.pharmacist := tally_signal (by rfl) hsignal
    have hneed := need_endDelivery hpc pharmacist
    -- The stock is full, so nobody has to be on the way.
    exact supply_congr hsupply rfl rfl hneed hqueued huncalled
      (fun hmeds => absurd hmeds (Nat.succ_ne_zero 5))

theorem inv_doctor {s s' : State N M} {chosen : Option (Fin M)} (h : Inv s)
    (htime : InTime s (.doctor chosen)) (hstep : doctorStep s chosen = some s') : Inv s' := by
  cases doctorStep_cases hstep with
  | exit hpc hall heq =>
      rw [heq]
      exact inv_exit h hpc hall ((htime hpc).1 hall)
  | consult hpc hleft hcan chosen pharmacist hsignal heq =>
      rw [heq]
      exact inv_beginConsult h hpc hcan hsignal
  | deliver hpc hleft hno hcan chosen pharmacist hsignal heq =>
      rw [heq]
      exact inv_beginDelivery h hpc hcan ((htime hpc).2 hleft hno hcan) hsignal
  | sleep hpc hleft hconsult hdeliver heq =>
      rw [heq]
      exact inv_sleep h hpc hleft hconsult hdeliver
  | endConsult ids hpc heq =>
      rw [heq]
      exact inv_endConsult h hpc
  | endDelivery hpc chosen pharmacist hsignal heq =>
      rw [heq]
      exact inv_endDelivery h hpc hsignal

/-- A doctor still asleep after a patient has entered was not woken. -/
theorem enter_idle {s : State N M} {p : Fin N} (h : (s.enter p).doctor = .waiting) :
    s.doctor = .waiting ∧ s.waitingPatients + 1 ≠ 3 := by
  unfold State.enter at h
  by_cases hthird : s.waitingPatients + 1 = 3
  · exfalso
    simp only [hthird, if_true, State.signalDoctor] at h
    by_cases hwaiting : s.doctor = .waiting
    · rw [if_pos hwaiting] at h
      exact absurd h (by simp only [reduceCtorEq, not_false_eq_true])
    · rw [if_neg hwaiting] at h
      exact hwaiting h
  · simp only [hthird, if_false] at h
    exact ⟨h, hthird⟩

theorem enter_shared (s : State N M) (p : Fin N) :
    (s.enter p).doneFlag = s.doneFlag ∧
    (s.enter p).waitingPharmacists = s.waitingPharmacists ∧
    (s.enter p).pharmacistServed = s.pharmacistServed := by
  unfold State.enter
  by_cases hthird : s.waitingPatients + 1 = 3
  · simp only [hthird, if_true, State.signalDoctor, and_self]
  · simp only [hthird, if_false, and_self]

theorem isDelivering_enter (s : State N M) (p : Fin N) :
    (s.enter p).doctor.isDelivering = s.doctor.isDelivering := by
  rcases enter_doctor s p with hsame | ⟨hbefore, hwoken⟩
  · rw [hsame]
  · rw [hbefore, hwoken]
    rfl

theorem need_enter (s : State N M) (p : Fin N) : (s.enter p).need = s.need := by
  rcases enter_fields s p with ⟨_, _, _, _, _, hmeds, htreated, _⟩
  unfold State.need State.stock
  rw [isDelivering_enter, hmeds, htreated]

theorem inv_enter {s : State N M} {p : Fin N} (h : Inv s) (hpc : s.patient p = .travelling)
    (hroom : s.waitingPatients ≠ 3) : Inv (s.enter p) := by
  rcases enter_fields s p with ⟨hwaiting, _, hpatient, _, _, hmeds, htreated, hpharmacist⟩
  rcases enter_shared s p with ⟨hflag, hwp, hserved⟩
  have hdelivering := isDelivering_enter s p
  -- At most a sleeping doctor has been woken.
  have hexited : (s.enter p).doctor = .exited ↔ s.doctor = .exited := by
    rcases enter_doctor s p with hsame | ⟨hbefore, hwoken⟩
    · rw [hsame]
    · simp only [hbefore, hwoken, reduceCtorEq]
  have hneed := need_enter s p
  have hcalls : (s.enter p).calls = s.calls := by
    unfold State.calls
    rw [hserved]
  have hseats := h.room.seats
  -- One patient fewer is on the way, and one seat more is taken.
  have hentered : tally PatientPc.isTravelling (Function.update s.patient p .waiting) + 1
      = tally PatientPc.isTravelling s.patient := tally_update_loss rfl (by rw [hpc]; rfl)
  refine ⟨?_, ?_, ?_, ?_⟩
  · refine ⟨by rw [hmeds]; exact h.room.meds, by omega, by rw [htreated]; exact h.room.groups,
      ?_, fun q _ => Or.inl (by omega)⟩
    rw [htreated, hwaiting, hpatient]
    have heveryone := h.room.everyone
    omega
  · refine ⟨by rw [hflag, hexited]; exact h.duty.flag,
      by rw [hexited, htreated]; exact h.duty.all, ?_⟩
    intro hidle
    -- A doctor still asleep has fewer than three patients waiting.
    rcases enter_idle hidle with ⟨hbefore, hthird⟩
    rcases h.duty.idle hbefore with ⟨hleft, _, hdeliver⟩
    refine ⟨by rw [htreated]; exact hleft, ?_, ?_⟩
    · unfold State.canConsult
      rw [hwaiting]
      omega
    · unfold State.canDeliver
      rw [hwp, hmeds]
      exact hdeliver
  · intro hdone
    rw [hflag] at hdone
    have hsupply := h.supply hdone
    refine supply_congr hsupply hwp hcalls hneed (by rw [hpharmacist]) (by rw [hpharmacist]) ?_
    rw [hmeds, hdelivering, hpharmacist]
    exact hsupply.roused
  · intro hdone
    rw [hflag] at hdone
    intro j
    rw [hpharmacist]
    exact h.released hdone j

theorem inv_leave {s : State N M} {p : Fin N} (h : Inv s) (hpc : s.patient p = .woken) :
    Inv { s with patient := Function.update s.patient p .finished } where
  room := by
    have htally : tally PatientPc.isTravelling (Function.update s.patient p .finished)
        = tally PatientPc.isTravelling s.patient := tally_update_same (by rw [hpc]; rfl)
    refine ⟨h.room.meds, h.room.seats, h.room.groups, ?_, ?_⟩
    · have heveryone := h.room.everyone
      rw [← htally] at heveryone
      exact heveryone
    · intro q hq
      by_cases hqp : q = p
      · simp only [hqp, Function.update_self, reduceCtorEq] at hq
      · simp only [Function.update_of_ne hqp] at hq
        exact h.room.asleep q hq
  duty := ⟨h.duty.flag, h.duty.all, h.duty.idle⟩
  supply := fun hdone =>
    supply_congr (h.supply hdone) rfl rfl rfl rfl rfl (h.supply hdone).roused
  released := h.released

theorem inv_step {s s' : State N M} {e : Event N M} (h : Inv s) (htime : InTime s e)
    (hstep : step s e = some s') : Inv s' := by
  cases e with
  | doctor chosen => exact inv_doctor h htime hstep
  | pharmacist j => exact inv_pharmacist h htime hstep
  | patient p =>
      cases patientStep_cases hstep with
      | roam hpc hfull heq =>
          rw [heq]
          exact h
      | enter hpc hroom heq =>
          rw [heq]
          exact inv_enter h hpc hroom
      | leave hpc heq =>
          rw [heq]
          exact inv_leave h hpc

/-- A doctor that is awake can always go on: whom a signal wakes is the
    schedule's choice, and there is one. -/
theorem exists_examine (s : State N M) : ∃ chosen s', s.examine chosen = some s' := by
  by_cases hall : N ≤ s.patientsTreated
  · exact ⟨none, s.exit, by rw [State.examine, if_pos hall, if_pos rfl]⟩
  by_cases hconsult : s.canConsult
  · rcases exists_signal PharmacistPc.waitNotFull .wokenNotFull s.pharmacist with
      ⟨chosen, pharmacist, hsignal⟩
    exact ⟨chosen, s.beginConsult pharmacist, by
      rw [State.examine, if_neg hall, if_pos hconsult, hsignal, Option.map_some]⟩
  by_cases hdeliver : s.canDeliver
  · rcases exists_signal PharmacistPc.waitQueue .wokenQueue s.pharmacist with
      ⟨chosen, pharmacist, hsignal⟩
    exact ⟨chosen, s.beginDelivery pharmacist, by
      rw [State.examine, if_neg hall, if_neg hconsult, if_pos hdeliver, hsignal,
        Option.map_some]⟩
  · exact ⟨none, { s with doctor := .waiting }, by
      rw [State.examine, if_neg hall, if_neg hconsult, if_neg hdeliver, if_pos rfl]⟩

/-- In a stuck state the doctor sleeps or has left. -/
theorem doctor_of_stuck {s : State N M} (h : Stuck s) :
    s.doctor = .waiting ∨ s.doctor = .exited := by
  have hnone : ∀ chosen, doctorStep s chosen = none := fun chosen => h (.doctor chosen)
  unfold doctorStep at hnone
  cases hpc : s.doctor with
  | waiting => exact Or.inl rfl
  | exited => exact Or.inr rfl
  | start | woken =>
      rcases exists_examine s with ⟨chosen, s', hexamine⟩
      have hstep := hnone chosen
      simp only [hpc, hexamine] at hstep
      exact absurd hstep (by simp only [reduceCtorEq, not_false_eq_true])
  | consulting ids =>
      -- The end of a consultation waits for nobody.
      have hstep := hnone none
      simp only [hpc, if_true] at hstep
      exact absurd hstep (by simp only [reduceCtorEq, not_false_eq_true])
  | delivering =>
      rcases exists_signal PharmacistPc.waitDone .wokenDone s.pharmacist with
        ⟨chosen, pharmacist, hsignal⟩
      have hstep := hnone chosen
      simp only [hpc, hsignal, Option.map_some] at hstep
      exact absurd hstep (by simp only [reduceCtorEq, not_false_eq_true])

/-- In a stuck state a patient sleeps or has finished. -/
theorem patient_of_stuck {s : State N M} (h : Stuck s) (p : Fin N) :
    s.patient p = .waiting ∨ s.patient p = .finished := by
  have hnone : patientStep s p = none := h (.patient p)
  unfold patientStep at hnone
  cases hpc : s.patient p with
  | waiting => exact Or.inl rfl
  | finished => exact Or.inr rfl
  | travelling =>
      rw [hpc] at hnone
      simp only at hnone
      split at hnone
      · exact absurd hnone (by simp only [reduceCtorEq, not_false_eq_true])
      · exact absurd hnone (by simp only [reduceCtorEq, not_false_eq_true])
  | woken =>
      rw [hpc] at hnone
      exact absurd hnone (by simp only [reduceCtorEq, not_false_eq_true])

/-- In a stuck state a pharmacist sleeps or has finished. -/
theorem pharmacist_of_stuck {s : State N M} (h : Stuck s) (j : Fin M) :
    s.pharmacist j = .waitNotFull ∨ s.pharmacist j = .waitQueue ∨ s.pharmacist j = .waitDone ∨
      s.pharmacist j = .finished := by
  have hnone : pharmacistStep s j = none := h (.pharmacist j)
  unfold pharmacistStep at hnone
  cases hpc : s.pharmacist j with
  | waitNotFull => exact Or.inl rfl
  | waitQueue => exact Or.inr (Or.inl rfl)
  | waitDone => exact Or.inr (Or.inr (Or.inl rfl))
  | finished => exact Or.inr (Or.inr (Or.inr rfl))
  | travelling | wokenNotFull | wokenQueue | wokenDone =>
      rw [hpc] at hnone
      exact absurd hnone (by simp only [reduceCtorEq, not_false_eq_true])

/-- Nobody is on the way in a stuck state. -/
theorem travelling_of_stuck {s : State N M} (h : Stuck s) :
    tally PatientPc.isTravelling s.patient = 0 := by
  refine tally_const_false (fun p => ?_)
  rcases patient_of_stuck h p with hp | hp
  · rw [hp]
    rfl
  · rw [hp]
    rfl

/-- A doctor does not sleep in a stuck state: three patients would wait for
    medicines, and somebody would be bringing them. -/
theorem not_waiting_of_stuck {s : State N M} (h : Inv s) (h3 : 3 ∣ N) (hstuck : Stuck s) :
    s.doctor ≠ .waiting := by
  intro hwaiting
  rcases h.duty.idle hwaiting with ⟨hleft, hconsult, hdeliver⟩
  have hdone : s.doneFlag = false := flag_of_working h.duty (by
    rw [hwaiting]
    simp only [ne_eq, reduceCtorEq, not_false_eq_true])
  have hsupply := h.supply hdone
  have hdelivering : s.doctor.isDelivering = false := by
    rw [hwaiting]
    rfl
  -- Everybody is treated or waits, so the waiting room is full and the stock empty.
  have heveryone := h.room.everyone
  rw [travelling_of_stuck hstuck] at heveryone
  have hseats := h.room.seats
  have hgroups := h.room.groups
  have hmeds := h.room.meds
  unfold State.canConsult at hconsult
  have hthree : s.waitingPatients = 3 := by omega
  have hzero : s.meds = 0 := by omega
  -- Nobody queues, so nobody was called and nobody is about to look at the stock.
  have hempty : tally PharmacistPc.isQueued s.pharmacist = 0 := by
    have hqueue := hsupply.queue
    unfold State.canDeliver aptekaCapacity at hdeliver
    omega
  have hnobody : ∀ j, (s.pharmacist j).isQueued = false := by
    intro j
    rw [← Bool.not_eq_true]
    intro hj
    have hpos := tally_pos.mpr ⟨j, hj⟩
    omega
  have hneed : s.need = 1 := by
    unfold State.need
    rw [stock_of_working hdelivering, hzero]
    omega
  -- The last group is not covered, so somebody is left, asleep before a full stock.
  have hsome : 0 < tally PharmacistPc.isUncalled s.pharmacist := by
    have henough := hsupply.enough
    omega
  rcases tally_pos.mp hsome with ⟨j, hj⟩
  have hasleep : s.pharmacist j = .waitNotFull := by
    have hqueued := hnobody j
    rcases pharmacist_of_stuck hstuck j with hpc | hpc | hpc | hpc
    · exact hpc
    · rw [hpc] at hqueued
      exact absurd hqueued (by simp only [PharmacistPc.isQueued, Bool.true_eq_false,
        not_false_eq_true])
    · rw [hpc] at hj
      exact absurd hj Bool.false_ne_true
    · rw [hpc] at hj
      exact absurd hj Bool.false_ne_true
  have hroused := hsupply.roused hzero hdelivering j hasleep
  rcases tally_pos.mp (Nat.lt_of_le_of_lt (Nat.zero_le _) hroused) with ⟨k, hk⟩
  have hqueued := hnobody k
  rcases pharmacist_of_stuck hstuck k with hpc | hpc | hpc | hpc
  · rw [hpc] at hk
    exact absurd hk Bool.false_ne_true
  · rw [hpc] at hqueued
    exact absurd hqueued (by simp only [PharmacistPc.isQueued, Bool.true_eq_false,
      not_false_eq_true])
  · rw [hpc] at hk
    exact absurd hk Bool.false_ne_true
  · rw [hpc] at hk
    exact absurd hk Bool.false_ne_true

theorem terminated_of_stuck {s : State N M} (h : Inv s) (h3 : 3 ∣ N) (hstuck : Stuck s) :
    Terminated s := by
  have hexited : s.doctor = .exited := by
    rcases doctor_of_stuck hstuck with hwaiting | hexited
    · exact absurd hwaiting (not_waiting_of_stuck h h3 hstuck)
    · exact hexited
  have hall := h.duty.all hexited
  have heveryone := h.room.everyone
  -- All are treated, so nobody is left for the waiting room.
  have hempty : s.waitingPatients = 0 := by omega
  refine ⟨hexited, ?_, ?_, by omega⟩
  · intro p
    rcases patient_of_stuck hstuck p with hwaiting | hfinished
    · exfalso
      rcases h.room.asleep p hwaiting with hseat | hconsulting
      · omega
      · rw [hexited] at hconsulting
        exact absurd hconsulting Bool.false_ne_true
    · exact hfinished
  · intro j
    rcases h.released (h.duty.flag.mpr hexited) j with ⟨hnotfull, hqueue, hdone⟩
    rcases pharmacist_of_stuck hstuck j with hpc | hpc | hpc | hpc
    · exact absurd hpc hnotfull
    · exact absurd hpc hqueue
    · exact absurd hpc hdone
    · exact hpc

/-- Once the doctor has left, nobody signals `cond_pharmacist_done`. -/
theorem waitDone_step {s s' : State N M} {e : Event N M} {j : Fin M}
    (h : s.doctor = .exited ∧ s.doneFlag = true ∧ s.pharmacist j = .waitDone)
    (hstep : step s e = some s') :
    s'.doctor = .exited ∧ s'.doneFlag = true ∧ s'.pharmacist j = .waitDone := by
  rcases h with ⟨hexited, hdone, hj⟩
  cases e with
  | doctor chosen => exact absurd hstep (by
      simp only [step, doctorStep, hexited, reduceCtorEq, not_false_eq_true])
  | patient p =>
      cases patientStep_cases hstep with
      | roam hpc hfull heq =>
          rw [heq]
          exact ⟨hexited, hdone, hj⟩
      | enter hpc hroom heq =>
          have hdoctor : (s.enter p).doctor = .exited := by
            rcases enter_doctor s p with hsame | ⟨hwaiting, _⟩
            · rw [hsame, hexited]
            · rw [hexited] at hwaiting
              exact absurd hwaiting (by simp only [reduceCtorEq, not_false_eq_true])
          rcases enter_shared s p with ⟨hflag, _, _⟩
          rcases enter_fields s p with ⟨_, _, _, _, _, _, _, hpharmacist⟩
          rw [heq, hflag, hpharmacist]
          exact ⟨hdoctor, hdone, hj⟩
      | leave hpc heq =>
          rw [heq]
          exact ⟨hexited, hdone, hj⟩
  | pharmacist k =>
      have hne : j ≠ k := by
        rintro rfl
        exact absurd hstep (by
          simp only [step, pharmacistStep, hj, reduceCtorEq, not_false_eq_true])
      rw [pharmacistStep_done hdone hstep]
      refine ⟨hexited, hdone, ?_⟩
      have hsame : (s.setPharmacist k .finished).pharmacist j = s.pharmacist j :=
        Function.update_of_ne hne ..
      rw [hsame, hj]

/-- A run in which the doctor leaves a pharmacist asleep there never ends as it
    should, however it goes on. -/
theorem not_terminated_of_left {s s' t : State N M} {chosen : Option (Fin M)} {j : Fin M}
    {es : List (Event N M)} (hpc : s.doctor = .start ∨ s.doctor = .woken)
    (hall : N ≤ s.patientsTreated) (hj : s.pharmacist j = .waitDone)
    (hstep : step s (.doctor chosen) = some s') (hrun : exec step s' es = some t) :
    ¬ Terminated t := by
  have hexamine : s.examine chosen = some s' := by
    rcases hpc with hpc | hpc
    · simpa only [step, doctorStep, hpc] using hstep
    · simpa only [step, doctorStep, hpc] using hstep
  -- With all treated the doctor has one branch only.
  have hexit : s' = s.exit := by
    unfold State.examine at hexamine
    rw [if_pos hall] at hexamine
    by_cases hchosen : chosen = none
    · rw [if_pos hchosen, Option.some.injEq] at hexamine
      exact hexamine.symm
    · rw [if_neg hchosen] at hexamine
      exact absurd hexamine (by simp only [reduceCtorEq, not_false_eq_true])
  have hleft : s'.doctor = .exited ∧ s'.doneFlag = true ∧ s'.pharmacist j = .waitDone := by
    rw [hexit]
    refine ⟨rfl, rfl, ?_⟩
    simp only [State.exit, broadcast, hj, reduceCtorEq, if_false]
  have hforever := exec_invariant
    (I := fun s : State N M => s.doctor = .exited ∧ s.doneFlag = true ∧ s.pharmacist j = .waitDone)
    (fun _ _ _ h hstep => waitDone_step h hstep) hleft hrun
  intro hterminated
  have hfinished := hterminated.pharmacists j
  rw [hforever.2.2] at hfinished
  exact absurd hfinished (by simp only [reduceCtorEq, not_false_eq_true])

/-- Some group is not covered by the stock, and nobody is left to bring more. -/
structure Unsupplied (s : State N M) : Prop where
  nobody : ∀ j, (s.pharmacist j).isUncalled = false
  queue : s.waitingPharmacists ≤ 0
  uncovered : 0 < s.need

theorem unsupplied_doctor {s s' : State N M} (h : Unsupplied s) (hstretch : DoctorStretch s s') :
    Unsupplied s' := by
  cases hstretch with
  | exit hpc hall heq =>
      -- Some group is left, so not all are treated.
      have huncovered := h.uncovered
      unfold State.need at huncovered
      omega
  | consult hpc hleft hcan chosen pharmacist hsignal heq =>
      have hsame : pharmacist = s.pharmacist := by
        rcases signal_cases hsignal with ⟨i, hi, _⟩ | ⟨_, hsame⟩
        · have hnobody := h.nobody i
          rw [hi] at hnobody
          exact absurd hnobody (by simp only [PharmacistPc.isUncalled, Bool.true_eq_false,
            not_false_eq_true])
        · exact hsame
      rw [heq, hsame]
      refine ⟨h.nobody, h.queue, ?_⟩
      rw [need_beginConsult (isDelivering_of_start hpc) hcan]
      exact h.uncovered
  | deliver hpc hleft hno hcan chosen pharmacist hsignal heq =>
      have hqueue := h.queue
      have hpos := hcan.1
      omega
  | sleep hpc hleft hconsult hdeliver heq =>
      have hneed : State.need { s with doctor := .waiting } = s.need :=
        need_working (isDelivering_of_start hpc) rfl rfl rfl
      rw [heq]
      exact ⟨h.nobody, h.queue, hneed ▸ h.uncovered⟩
  | endConsult ids hpc heq =>
      have hneed : (s.endConsult ids).need = s.need :=
        need_working (by rw [hpc]; rfl) rfl rfl rfl
      rw [heq]
      exact ⟨h.nobody, h.queue, hneed ▸ h.uncovered⟩
  | endDelivery hpc chosen pharmacist hsignal heq =>
      have hnobody : ∀ j, (pharmacist j).isUncalled = false := by
        intro j
        rcases signal_cases hsignal with ⟨i, _, hwoken⟩ | ⟨_, hsame⟩
        · rw [hwoken]
          by_cases hji : j = i
          · rw [hji, Function.update_self]
            rfl
          · rw [Function.update_of_ne hji]
            exact h.nobody j
        · rw [hsame]
          exact h.nobody j
      rw [heq]
      exact ⟨hnobody, h.queue, (need_endDelivery hpc pharmacist).symm ▸ h.uncovered⟩

theorem doneLoop_pharmacist (s : State N M) (j : Fin M) :
    ∃ pc, pc.isUncalled = false ∧
      (s.doneLoop j).pharmacist = Function.update s.pharmacist j pc := by
  unfold State.doneLoop
  split
  · exact ⟨.waitDone, rfl, rfl⟩
  · split
    · exact ⟨.finished, rfl, rfl⟩
    · exact ⟨.finished, rfl, rfl⟩

theorem unsupplied_step {s s' : State N M} {e : Event N M} (h : Unsupplied s)
    (hstep : step s e = some s') : Unsupplied s' := by
  cases e with
  | doctor chosen => exact unsupplied_doctor h (doctorStep_cases hstep)
  | patient p =>
      cases patientStep_cases hstep with
      | roam hpc hfull heq =>
          rw [heq]
          exact h
      | enter hpc hroom heq =>
          rcases enter_fields s p with ⟨_, _, _, _, _, _, _, hpharmacist⟩
          rcases enter_shared s p with ⟨_, hwp, _⟩
          rw [heq]
          refine ⟨?_, ?_, ?_⟩
          · rw [hpharmacist]
            exact h.nobody
          · rw [hwp]
            exact h.queue
          · rw [need_enter]
            exact h.uncovered
      | leave hpc heq =>
          rw [heq]
          exact ⟨h.nobody, h.queue, h.uncovered⟩
  | pharmacist k =>
      have hframe := pharmacistStep_frame hstep
      have hnobody := h.nobody k
      -- Only those that have taken a round can still move.
      rcases pharmacistStep_cases hstep with ⟨hpc | hpc, _⟩ | ⟨hpc, _⟩ | ⟨hpc, heq⟩
      · rw [hpc] at hnobody
        exact absurd hnobody (by decide)
      · rw [hpc] at hnobody
        exact absurd hnobody (by decide)
      · rw [hpc] at hnobody
        exact absurd hnobody (by decide)
      · refine ⟨?_, ?_, ?_⟩
        · rcases doneLoop_pharmacist s k with ⟨pc, huncalled, hpharmacist⟩
          rw [heq, hpharmacist]
          intro j
          by_cases hjk : j = k
          · rw [hjk, Function.update_self]
            exact huncalled
          · rw [Function.update_of_ne hjk]
            exact h.nobody j
        · rw [heq, waitingPharmacists_doneLoop]
          exact h.queue
        · rw [need_frame hframe]
          exact h.uncovered

/-- When the last pharmacist that has not taken a round goes home, a group that
    is not covered stays so. -/
theorem unsupplied_of_leave {s s' : State N M} {j : Fin M} (h : Inv s)
    (hpc : s.pharmacist j = .travelling ∨ s.pharmacist j = .wokenNotFull)
    (hdone : s.doneFlag = false) (hmeds : 3 ≤ s.meds) (hnotfull : s.meds ≠ aptekaCapacity)
    (hlast : tally PharmacistPc.isUncalled s.pharmacist ≤ 1) (hneed : s.need ≠ 0)
    (hstep : pharmacistStep s j = some s') : Unsupplied s' := by
  have hleave : s' = s.setPharmacist j .finished := by
    have harrive : s' = s.arrive j := by
      rcases pharmacistStep_cases hstep with ⟨_, heq⟩ | ⟨hother, _⟩ | ⟨hother, _⟩
      · exact heq
      · rw [hother] at hpc
        exact absurd hpc (by simp only [reduceCtorEq, or_self, not_false_eq_true])
      · rw [hother] at hpc
        exact absurd hpc (by simp only [reduceCtorEq, or_self, not_false_eq_true])
    have hlow : ¬ s.meds < 3 := Nat.not_lt.mpr hmeds
    rw [harrive, State.arrive, hdone]
    simp only [hnotfull, hlow, false_and, Bool.false_eq_true, if_false]
  have huncalled : tally PharmacistPc.isUncalled (Function.update s.pharmacist j .finished) + 1
      = tally PharmacistPc.isUncalled s.pharmacist :=
    tally_update_loss rfl (by rcases hpc with hpc | hpc <;> rw [hpc] <;> rfl)
  have hqueued : tally PharmacistPc.isQueued (Function.update s.pharmacist j .finished)
      = tally PharmacistPc.isQueued s.pharmacist :=
    tally_update_same (by rcases hpc with hpc | hpc <;> rw [hpc] <;> rfl)
  -- Those in the queue are among those not called, of whom none is left.
  have hmono : tally PharmacistPc.isQueued (Function.update s.pharmacist j .finished)
      ≤ tally PharmacistPc.isUncalled (Function.update s.pharmacist j .finished) :=
    tally_mono (fun _ hqueue => isUncalled_of_isQueued hqueue)
  have hqueue := (h.supply hdone).queue
  rw [hleave]
  refine ⟨?_, ?_, Nat.pos_of_ne_zero hneed⟩
  · intro k
    rw [← Bool.not_eq_true]
    intro hk
    have hpos := tally_pos.mpr ⟨k, hk⟩
    have hsame : (s.setPharmacist j .finished).pharmacist
        = Function.update s.pharmacist j .finished := rfl
    rw [hsame] at hpos
    omega
  · have hsame : (s.setPharmacist j .finished).waitingPharmacists = s.waitingPharmacists := rfl
    rw [hsame]
    omega

/-- A run never ends as it should after that. -/
theorem not_terminated_of_unsupplied {s t : State N M} {es : List (Event N M)} (h : Unsupplied s)
    (hrun : exec step s es = some t) : ¬ Terminated t := by
  have huncovered :=
    (exec_invariant (fun _ _ _ h hstep => unsupplied_step h hstep) h hrun).uncovered
  intro hterminated
  unfold State.need at huncovered
  rw [hterminated.treated] at huncovered
  omega

/-- In every run in which somebody is left to deliver until the stock covers
    everybody, and the doctor leaves nobody asleep on `cond_pharmacist_done`,
    the threads get stuck only when all have returned and all patients are
    treated. -/
theorem no_deadlock (h3 : 3 ∣ N) (hM : N / 3 ≤ M) (es : List (Event N M))
    (hC : Meets step InTime (init N M) es) :
    Always step (fun s => Stuck s → Terminated s) (init N M) es :=
  always_of_meets (fun _ _ _ hs hCs hstep => inv_step hs hCs hstep)
    (fun _ hs hstuck => terminated_of_stuck hs h3 hstuck) (inv_init hM) hC

/-- The pharmacists come before anybody else and are woken one after the other.
    The first finds medicines for a group and goes home, the second delivers,
    and the third is not needed any more. -/
def suppliedRun : List (Event 9 3) :=
  [.pharmacist 0, .pharmacist 1, .pharmacist 2,
    .patient 0, .patient 1, .patient 2, .doctor (some 0), .pharmacist 0, .doctor none,
    .patient 0, .patient 1, .patient 2,
    .patient 3, .patient 4, .patient 5, .doctor (some 1), .pharmacist 1, .doctor none,
    .patient 3, .patient 4, .patient 5,
    .patient 6, .patient 7, .patient 8, .doctor (some 1), .pharmacist 1, .doctor (some 1),
    .pharmacist 1, .doctor (some 2), .doctor none,
    .patient 6, .patient 7, .patient 8, .doctor none, .pharmacist 2]

/-- It gets stuck at its end, where all have returned. -/
theorem no_deadlock_in_suppliedRun :
    (∃ s, exec step (init 9 3) suppliedRun = some s ∧ Stuck s) ∧
      Always step (fun s => Stuck s → Terminated s) (init 9 3) suppliedRun := by
  have hend : (exec step (init 9 3) suppliedRun).any (fun s =>
      decide (s.doctor = .exited ∧ (∀ p, s.patient p = .finished) ∧
        (∀ j, s.pharmacist j = .finished))) = true := by
    decide +kernel
  rcases exists_of_exec_any hend with ⟨s, hrun, hs⟩
  rcases of_decide_eq_true hs with ⟨hdoctor, hpatients, hpharmacists⟩
  refine ⟨⟨s, hrun, fun e => ?_⟩,
    no_deadlock (by decide) (by decide) suppliedRun (by decide +kernel)⟩
  cases e with
  | doctor chosen => simp only [step, doctorStep, hdoctor]
  | patient p => simp only [step, patientStep, hpatients p]
  | pharmacist j => simp only [step, pharmacistStep, hpharmacists j]

/-- All three pharmacists come after the first consultation, find medicines
    for one group, and go home; the third group waits for more. -/
def unsuppliedRun : List (Event 9 3) :=
  [.patient 0, .patient 1, .patient 2, .doctor none, .pharmacist 0, .pharmacist 1, .pharmacist 2,
    .doctor none, .patient 0, .patient 1, .patient 2,
    .patient 3, .patient 4, .patient 5, .doctor none, .doctor none,
    .patient 3, .patient 4, .patient 5,
    .patient 6, .patient 7, .patient 8, .doctor none]

/-- The doctor and three patients sleep, and everybody else has gone. -/
theorem third_group_waits :
    ¬ ∀ (N M : Nat) (s : State N M), 0 < N → 3 ∣ N → N / 3 ≤ M → Reaches step (init N M) s →
      Stuck s → Terminated s := by
  intro hall
  have hend : (exec step (init 9 3) unsuppliedRun).any (fun s =>
      decide (s.doctor = .waiting ∧
        (∀ p, s.patient p = .waiting ∨ s.patient p = .finished) ∧
        (∀ j, s.pharmacist j = .finished))) = true := by
    decide +kernel
  rcases exists_of_exec_any hend with ⟨s, hrun, hs⟩
  rcases of_decide_eq_true hs with ⟨hdoctor, hpatients, hpharmacists⟩
  -- Nobody else is left to wake the four that sleep.
  have hstuck : Stuck s := by
    intro e
    cases e with
    | doctor chosen => simp only [step, doctorStep, hdoctor]
    | patient p =>
        rcases hpatients p with hp | hp
        · simp only [step, patientStep, hp]
        · simp only [step, patientStep, hp]
    | pharmacist j => simp only [step, pharmacistStep, hpharmacists j]
  have hterminated := hall 9 3 s (by decide) (by decide) (by decide) ⟨unsuppliedRun, hrun⟩ hstuck
  rw [hterminated.doctor] at hdoctor
  exact absurd hdoctor (by simp only [reduceCtorEq, not_false_eq_true])

end Hospital

end OsLabs
