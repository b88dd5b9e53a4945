import OsLabs.Library.CondVar
import OsLabs.Library.Machine

/-!
# The Hospital Simulation

`cw10/assignment/main.c` as a machine: a doctor, `N` patients and `M`
pharmacists share one mutex and five condition variables.

A step is what a thread does between acquiring the mutex and releasing it,
where `pthread_cond_wait` releases it and acquires it again. A thread is
therefore asleep on a condition variable, about to acquire the mutex, or
done. A pharmacist that gets through several waits in one go does so in one
step, which is why its three waiting loops are functions that call one
another.

`waiting_patient_ids` is an unbounded array here, so that an index outside of
the three elements of the real one would not go unnoticed. The history fields
record what the program prints at most: the groups whose consultation was
begun and completed, the delivery rounds, and who queued for and took one.

Left out are the travelling times, the messages, and the failure of `malloc`
and `pthread_create`.

## Main definitions

* `DoctorPc`, `PatientPc`, `PharmacistPc`: Where the threads stand.
* `State`: The shared variables, the threads and the history.
* `examine`: The doctor's stretch at the top of the loop or after a wait.
* `arrive`, `queueLoop`, `doneLoop`: The pharmacist's waiting loops.
* `Event`, `step`: The steps of the threads.

## Theorems

* `doctorStep_cases`, `patientStep_cases`, `pharmacistStep_cases`: What the
  steps of a thread do, with the conditions under which they do it.
* `pharmacistStep_frame`: What the steps of a pharmacist leave alone.
-/

namespace OsLabs

namespace Hospital

/-- `APTEKA_CAPACITY` -/
def aptekaCapacity : Nat := 6

/-- Where the doctor stands. After waiting it does what it does at the start. -/
inductive DoctorPc where
  | start
  /-- Asleep on `cond_doctor`. -/
  | waiting
  | woken
  /-- Without the mutex, with the copied ids. -/
  | consulting (ids : List Nat)
  | delivering
  | exited
  deriving DecidableEq

def DoctorPc.isConsulting : DoctorPc → Bool
  | .consulting _ => true
  | _ => false

def DoctorPc.isDelivering : DoctorPc → Bool
  | .delivering => true
  | _ => false

/-- Where a patient stands. -/
inductive PatientPc where
  /-- On the way, for the first time or again. -/
  | travelling
  /-- Asleep on `cond_patient`. -/
  | waiting
  | woken
  | finished
  deriving DecidableEq

/-- Where a pharmacist stands. One that was woken tests the condition of its
    loop again. -/
inductive PharmacistPc where
  | travelling
  /-- Asleep on `cond_not_full`. -/
  | waitNotFull
  | wokenNotFull
  /-- Asleep on `cond_pharmacist_queue`. -/
  | waitQueue
  | wokenQueue
  /-- Asleep on `cond_pharmacist_done`. -/
  | waitDone
  | wokenDone
  | finished
  deriving DecidableEq

/-- The shared variables, the threads, and the history: the groups copied and
    those whose consultation is completed, the delivery rounds begun, and the
    pharmacists that queued and that took a round. -/
structure State (N M : Nat) where
  waitingPatients : Nat
  waitingPatientIds : Nat → Nat
  meds : Nat
  waitingPharmacists : Int
  patientsTreated : Nat
  doneFlag : Bool
  pharmacistServed : Bool
  pharmacistDone : Bool
  doctor : DoctorPc
  patient : Fin N → PatientPc
  pharmacist : Fin M → PharmacistPc
  groups : List (List Nat)
  completed : List (List Nat)
  rounds : Nat
  queued : List (Fin M)
  takers : List (Fin M)

/-- The state in which `main` has created all threads. -/
def init (N M : Nat) : State N M where
  waitingPatients := 0
  waitingPatientIds := fun _ => 0
  meds := aptekaCapacity
  waitingPharmacists := 0
  patientsTreated := 0
  doneFlag := false
  pharmacistServed := false
  pharmacistDone := false
  doctor := .start
  patient := fun _ => .travelling
  pharmacist := fun _ => .travelling
  groups := []
  completed := []
  rounds := 0
  queued := []
  takers := []

variable {N M : Nat}

namespace State

/-- `pthread_cond_signal(&cond_doctor)` -/
def signalDoctor (s : State N M) : State N M :=
  { s with doctor := if s.doctor = .waiting then .woken else s.doctor }

def setPharmacist (s : State N M) (j : Fin M) (pc : PharmacistPc) : State N M :=
  { s with pharmacist := Function.update s.pharmacist j pc }

/-- The id of a patient thread. -/
def idOf (p : Fin N) : Nat := p + 1

/-- The ids that the doctor copies. -/
def copiedIds (s : State N M) : List Nat :=
  [s.waitingPatientIds 0, s.waitingPatientIds 1, s.waitingPatientIds 2]

/-- Three patients wait and there are medicines for them. -/
def canConsult (s : State N M) : Prop := 3 ≤ s.waitingPatients ∧ 3 ≤ s.meds

/-- A pharmacist waits and there is room for a delivery. -/
def canDeliver (s : State N M) : Prop := 0 < s.waitingPharmacists ∧ s.meds < aptekaCapacity

instance (s : State N M) : Decidable s.canConsult := inferInstanceAs (Decidable (_ ∧ _))

instance (s : State N M) : Decidable s.canDeliver := inferInstanceAs (Decidable (_ ∧ _))

/-- All patients are treated: the doctor sets `done_flag`, wakes the
    pharmacists on two of their condition variables, and returns. -/
def exit (s : State N M) : State N M :=
  { s with
    doneFlag := true
    pharmacist := broadcast .waitQueue .wokenQueue
      (broadcast .waitNotFull .wokenNotFull s.pharmacist)
    doctor := .exited }

/-- The beginning of a consultation. -/
def beginConsult (s : State N M) (pharmacist : Fin M → PharmacistPc) : State N M :=
  { s with
    waitingPatients := 0
    meds := s.meds - 3
    patientsTreated := s.patientsTreated + 3
    pharmacist := pharmacist
    doctor := .consulting s.copiedIds
    groups := s.copiedIds :: s.groups }

/-- The beginning of a delivery. -/
def beginDelivery (s : State N M) (pharmacist : Fin M → PharmacistPc) : State N M :=
  { s with
    pharmacistServed := true
    pharmacist := pharmacist
    doctor := .delivering
    rounds := s.rounds + 1 }

/-- The end of a consultation. -/
def endConsult (s : State N M) (ids : List Nat) : State N M :=
  { s with
    patient := broadcast .waiting .woken s.patient
    doctor := .start
    completed := ids :: s.completed }

/-- The end of a delivery. -/
def endDelivery (s : State N M) (pharmacist : Fin M → PharmacistPc) : State N M :=
  { s with
    meds := aptekaCapacity
    pharmacistDone := true
    pharmacist := pharmacist
    doctor := .start }

/-- What the doctor does at the top of its loop, and again after each wait.
    `chosen` is the pharmacist that a signal wakes, if it wakes one. -/
def examine (s : State N M) (chosen : Option (Fin M)) : Option (State N M) :=
  if N ≤ s.patientsTreated then
    -- Both variables are broadcast to, so there is no sleeper to choose.
    if chosen = none then some s.exit else none
  else if s.canConsult then
    (signal .waitNotFull .wokenNotFull chosen s.pharmacist).map s.beginConsult
  else if s.canDeliver then
    (signal .waitQueue .wokenQueue chosen s.pharmacist).map s.beginDelivery
  else if chosen = none then some { s with doctor := .waiting }
  else none

/-- A patient takes a seat in the waiting room, and wakes the doctor if it is
    the third. -/
def enter (s : State N M) (p : Fin N) : State N M :=
  let s := { s with
    waitingPatientIds := Function.update s.waitingPatientIds s.waitingPatients (idOf p)
    waitingPatients := s.waitingPatients + 1
    patient := Function.update s.patient p .waiting }
  -- The count is the one after the patient has sat down.
  if s.waitingPatients = 3 then s.signalDoctor else s

/-- The loop on `pharmacist_done`, from its test on. -/
def doneLoop (s : State N M) (j : Fin M) : State N M :=
  if s.pharmacistDone = false ∧ s.doneFlag = false then s.setPharmacist j .waitDone
  -- The flag is taken back only by the one that ends its delivery.
  else if s.doneFlag then s.setPharmacist j .finished
  else { s.setPharmacist j .finished with pharmacistDone := false }

/-- The pharmacist takes the delivery round that it was called for. -/
def take (s : State N M) (j : Fin M) : State N M :=
  { s.setPharmacist j .wokenDone with
    pharmacistServed := false
    waitingPharmacists := s.waitingPharmacists - 1
    takers := j :: s.takers }

/-- The loop on `pharmacist_served`, from its test on. -/
def queueLoop (s : State N M) (j : Fin M) : State N M :=
  if s.pharmacistServed = false ∧ s.doneFlag = false then s.setPharmacist j .waitQueue
  else if s.doneFlag then s.setPharmacist j .finished
  else (s.take j).doneLoop j

/-- The pharmacist queues up and wakes the doctor. -/
def enqueue (s : State N M) (j : Fin M) : State N M :=
  { s.setPharmacist j .wokenQueue with
    waitingPharmacists := s.waitingPharmacists + 1
    queued := j :: s.queued }.signalDoctor

/-- The loop on the stock, from its test on. -/
def arrive (s : State N M) (j : Fin M) : State N M :=
  if s.meds = aptekaCapacity ∧ s.doneFlag = false then s.setPharmacist j .waitNotFull
  else if s.doneFlag then s.setPharmacist j .finished
  -- Between a group's need and a full stock there is no delivery.
  else if s.meds < 3 then (s.enqueue j).queueLoop j
  else s.setPharmacist j .finished

end State

/-- The doctor's next stretch. -/
def doctorStep (s : State N M) (chosen : Option (Fin M)) : Option (State N M) :=
  match s.doctor with
  | .start | .woken => s.examine chosen
  | .waiting | .exited => none
  | .consulting ids => if chosen = none then some (s.endConsult ids) else none
  | .delivering => (signal .waitDone .wokenDone chosen s.pharmacist).map s.endDelivery

/-- A patient's next stretch. -/
def patientStep (s : State N M) (p : Fin N) : Option (State N M) :=
  match s.patient p with
  | .travelling => if s.waitingPatients = 3 then some s else some (s.enter p)
  | .woken => some { s with patient := Function.update s.patient p .finished }
  | .waiting | .finished => none

/-- A pharmacist's next stretch. -/
def pharmacistStep (s : State N M) (j : Fin M) : Option (State N M) :=
  match s.pharmacist j with
  | .travelling | .wokenNotFull => some (s.arrive j)
  | .wokenQueue => some (s.queueLoop j)
  | .wokenDone => some (s.doneLoop j)
  | .waitNotFull | .waitQueue | .waitDone | .finished => none

/-- Whose turn it is. -/
inductive Event (N M : Nat) where
  | doctor (chosen : Option (Fin M))
  | patient (p : Fin N)
  | pharmacist (j : Fin M)

def step (s : State N M) : Event N M → Option (State N M)
  | .doctor chosen => doctorStep s chosen
  | .patient p => patientStep s p
  | .pharmacist j => pharmacistStep s j

/-- What a stretch of the doctor does. -/
inductive DoctorStretch (s s' : State N M) : Prop where
  | exit (hpc : s.doctor = .start ∨ s.doctor = .woken) (hall : N ≤ s.patientsTreated)
      (heq : s' = s.exit)
  | consult (hpc : s.doctor = .start ∨ s.doctor = .woken) (hleft : s.patientsTreated < N)
      (hcan : s.canConsult) (chosen : Option (Fin M)) (pharmacist : Fin M → PharmacistPc)
      (hsignal : signal .waitNotFull .wokenNotFull chosen s.pharmacist = some pharmacist)
      (heq : s' = s.beginConsult pharmacist)
  | deliver (hpc : s.doctor = .start ∨ s.doctor = .woken) (hleft : s.patientsTreated < N)
      (hno : ¬ s.canConsult) (hcan : s.canDeliver) (chosen : Option (Fin M))
      (pharmacist : Fin M → PharmacistPc)
      (hsignal : signal .waitQueue .wokenQueue chosen s.pharmacist = some pharmacist)
      (heq : s' = s.beginDelivery pharmacist)
  | sleep (hpc : s.doctor = .start ∨ s.doctor = .woken) (hleft : s.patientsTreated < N)
      (hconsult : ¬ s.canConsult) (hdeliver : ¬ s.canDeliver)
      (heq : s' = { s with doctor := .waiting })
  | endConsult (ids : List Nat) (hpc : s.doctor = .consulting ids) (heq : s' = s.endConsult ids)
  | endDelivery (hpc : s.doctor = .delivering) (chosen : Option (Fin M))
      (pharmacist : Fin M → PharmacistPc)
      (hsignal : signal .waitDone .wokenDone chosen s.pharmacist = some pharmacist)
      (heq : s' = s.endDelivery pharmacist)

theorem examine_cases {s s' : State N M} {chosen : Option (Fin M)}
    (hpc : s.doctor = .start ∨ s.doctor = .woken) (h : s.examine chosen = some s') :
    DoctorStretch s s' := by
  unfold State.examine at h
  by_cases hall : N ≤ s.patientsTreated
  · rw [if_pos hall] at h
    by_cases hchosen : chosen = none
    · rw [if_pos hchosen, Option.some.injEq] at h
      exact .exit hpc hall h.symm
    · rw [if_neg hchosen] at h
      exact absurd h (by simp only [reduceCtorEq, not_false_eq_true])
  -- From here on the loop of the doctor is entered or tested again.
  have hleft : s.patientsTreated < N := Nat.lt_of_not_le hall
  rw [if_neg hall] at h
  by_cases hconsult : s.canConsult
  · rw [if_pos hconsult, Option.map_eq_some_iff] at h
    rcases h with ⟨pharmacist, hsignal, heq⟩
    exact .consult hpc hleft hconsult chosen pharmacist hsignal heq.symm
  rw [if_neg hconsult] at h
  by_cases hdeliver : s.canDeliver
  · rw [if_pos hdeliver, Option.map_eq_some_iff] at h
    rcases h with ⟨pharmacist, hsignal, heq⟩
    exact .deliver hpc hleft hconsult hdeliver chosen pharmacist hsignal heq.symm
  rw [if_neg hdeliver] at h
  by_cases hchosen : chosen = none
  · rw [if_pos hchosen, Option.some.injEq] at h
    exact .sleep hpc hleft hconsult hdeliver h.symm
  · rw [if_neg hchosen] at h
    exact absurd h (by simp only [reduceCtorEq, not_false_eq_true])

theorem doctorStep_cases {s s' : State N M} {chosen : Option (Fin M)}
    (h : doctorStep s chosen = some s') : DoctorStretch s s' := by
  unfold doctorStep at h
  cases hpc : s.doctor with
  | start =>
      rw [hpc] at h
      exact examine_cases (Or.inl hpc) h
  | woken =>
      rw [hpc] at h
      exact examine_cases (Or.inr hpc) h
  | waiting | exited =>
      rw [hpc] at h
      exact absurd h (by simp only [reduceCtorEq, not_false_eq_true])
  | consulting ids =>
      rw [hpc] at h
      simp only at h
      by_cases hchosen : chosen = none
      · rw [if_pos hchosen, Option.some.injEq] at h
        exact .endConsult ids hpc h.symm
      · rw [if_neg hchosen] at h
        exact absurd h (by simp only [reduceCtorEq, not_false_eq_true])
  | delivering =>
      rw [hpc] at h
      simp only [Option.map_eq_some_iff] at h
      rcases h with ⟨pharmacist, hsignal, heq⟩
      exact .endDelivery hpc chosen pharmacist hsignal heq.symm

/-- What a stretch of a patient does. -/
inductive PatientStretch (s : State N M) (p : Fin N) (s' : State N M) : Prop where
  | roam (hpc : s.patient p = .travelling) (hfull : s.waitingPatients = 3) (heq : s' = s)
  | enter (hpc : s.patient p = .travelling) (hroom : s.waitingPatients ≠ 3)
      (heq : s' = s.enter p)
  | leave (hpc : s.patient p = .woken)
      (heq : s' = { s with patient := Function.update s.patient p .finished })

theorem patientStep_cases {s s' : State N M} {p : Fin N} (h : patientStep s p = some s') :
    PatientStretch s p s' := by
  unfold patientStep at h
  cases hpc : s.patient p with
  | travelling =>
      rw [hpc] at h
      simp only at h
      by_cases hfull : s.waitingPatients = 3
      · rw [if_pos hfull, Option.some.injEq] at h
        exact .roam hpc hfull h.symm
      · rw [if_neg hfull, Option.some.injEq] at h
        exact .enter hpc hfull h.symm
  | woken =>
      rw [hpc, Option.some.injEq] at h
      exact .leave hpc h.symm
  | waiting | finished =>
      rw [hpc] at h
      exact absurd h (by simp only [reduceCtorEq, not_false_eq_true])

theorem pharmacistStep_cases {s s' : State N M} {j : Fin M} (h : pharmacistStep s j = some s') :
    ((s.pharmacist j = .travelling ∨ s.pharmacist j = .wokenNotFull) ∧ s' = s.arrive j) ∨
      (s.pharmacist j = .wokenQueue ∧ s' = s.queueLoop j) ∨
      (s.pharmacist j = .wokenDone ∧ s' = s.doneLoop j) := by
  unfold pharmacistStep at h
  cases hpc : s.pharmacist j with
  | travelling =>
      rw [hpc, Option.some.injEq] at h
      exact Or.inl ⟨Or.inl rfl, h.symm⟩
  | wokenNotFull =>
      rw [hpc, Option.some.injEq] at h
      exact Or.inl ⟨Or.inr rfl, h.symm⟩
  | wokenQueue =>
      rw [hpc, Option.some.injEq] at h
      exact Or.inr (Or.inl ⟨rfl, h.symm⟩)
  | wokenDone =>
      rw [hpc, Option.some.injEq] at h
      exact Or.inr (Or.inr ⟨rfl, h.symm⟩)
  | waitNotFull | waitQueue | waitDone | finished =>
      rw [hpc] at h
      exact absurd h (by simp only [reduceCtorEq, not_false_eq_true])

/-- What the steps of a pharmacist leave alone. The doctor may be woken. -/
structure Frame (s s' : State N M) : Prop where
  waitingPatients : s'.waitingPatients = s.waitingPatients
  waitingPatientIds : s'.waitingPatientIds = s.waitingPatientIds
  meds : s'.meds = s.meds
  patientsTreated : s'.patientsTreated = s.patientsTreated
  doneFlag : s'.doneFlag = s.doneFlag
  patient : s'.patient = s.patient
  groups : s'.groups = s.groups
  completed : s'.completed = s.completed
  doctor : s'.doctor = s.doctor ∨ (s.doctor = .waiting ∧ s'.doctor = .woken)

theorem frame_trans {s t u : State N M} (hst : Frame s t) (htu : Frame t u) : Frame s u where
  waitingPatients := htu.waitingPatients.trans hst.waitingPatients
  waitingPatientIds := htu.waitingPatientIds.trans hst.waitingPatientIds
  meds := htu.meds.trans hst.meds
  patientsTreated := htu.patientsTreated.trans hst.patientsTreated
  doneFlag := htu.doneFlag.trans hst.doneFlag
  patient := htu.patient.trans hst.patient
  groups := htu.groups.trans hst.groups
  completed := htu.completed.trans hst.completed
  doctor := by
    rcases hst.doctor with hsame | ⟨hwaiting, hwoken⟩
    · rw [← hsame]
      exact htu.doctor
    · rcases htu.doctor with hsame | ⟨hwaiting', _⟩
      · exact Or.inr ⟨hwaiting, hsame.trans hwoken⟩
      · rw [hwoken] at hwaiting'
        exact absurd hwaiting' (by simp only [reduceCtorEq, not_false_eq_true])

theorem frame_setPharmacist (s : State N M) (j : Fin M) (pc : PharmacistPc) :
    Frame s (s.setPharmacist j pc) :=
  ⟨rfl, rfl, rfl, rfl, rfl, rfl, rfl, rfl, Or.inl rfl⟩

theorem signalDoctor_doctor (s : State N M) :
    s.signalDoctor.doctor = s.doctor ∨ (s.doctor = .waiting ∧ s.signalDoctor.doctor = .woken) := by
  unfold State.signalDoctor
  by_cases hwaiting : s.doctor = .waiting
  · exact Or.inr ⟨hwaiting, if_pos hwaiting⟩
  · exact Or.inl (if_neg hwaiting)

theorem frame_doneLoop (s : State N M) (j : Fin M) : Frame s (s.doneLoop j) := by
  unfold State.doneLoop
  by_cases hsleep : s.pharmacistDone = false ∧ s.doneFlag = false
  · rw [if_pos hsleep]
    exact frame_setPharmacist s j _
  rw [if_neg hsleep]
  by_cases hdone : s.doneFlag = true
  · rw [if_pos hdone]
    exact frame_setPharmacist s j _
  · rw [if_neg hdone]
    exact ⟨rfl, rfl, rfl, rfl, rfl, rfl, rfl, rfl, Or.inl rfl⟩

theorem frame_queueLoop (s : State N M) (j : Fin M) : Frame s (s.queueLoop j) := by
  unfold State.queueLoop
  by_cases hsleep : s.pharmacistServed = false ∧ s.doneFlag = false
  · rw [if_pos hsleep]
    exact frame_setPharmacist s j _
  rw [if_neg hsleep]
  by_cases hdone : s.doneFlag = true
  · rw [if_pos hdone]
    exact frame_setPharmacist s j _
  · rw [if_neg hdone]
    have htake : Frame s (s.take j) := ⟨rfl, rfl, rfl, rfl, rfl, rfl, rfl, rfl, Or.inl rfl⟩
    exact frame_trans htake (frame_doneLoop _ j)

theorem frame_enqueue (s : State N M) (j : Fin M) : Frame s (s.enqueue j) :=
  ⟨rfl, rfl, rfl, rfl, rfl, rfl, rfl, rfl, signalDoctor_doctor _⟩

theorem frame_arrive (s : State N M) (j : Fin M) : Frame s (s.arrive j) := by
  unfold State.arrive
  by_cases hsleep : s.meds = aptekaCapacity ∧ s.doneFlag = false
  · rw [if_pos hsleep]
    exact frame_setPharmacist s j _
  rw [if_neg hsleep]
  by_cases hdone : s.doneFlag = true
  · rw [if_pos hdone]
    exact frame_setPharmacist s j _
  rw [if_neg hdone]
  by_cases hmeds : s.meds < 3
  · rw [if_pos hmeds]
    exact frame_trans (frame_enqueue s j) (frame_queueLoop _ j)
  · rw [if_neg hmeds]
    exact frame_setPharmacist s j _

theorem pharmacistStep_frame {s s' : State N M} {j : Fin M} (h : pharmacistStep s j = some s') :
    Frame s s' := by
  rcases pharmacistStep_cases h with ⟨_, heq⟩ | ⟨_, heq⟩ | ⟨_, heq⟩
  · rw [heq]
    exact frame_arrive s j
  · rw [heq]
    exact frame_queueLoop s j
  · rw [heq]
    exact frame_doneLoop s j

end Hospital

end OsLabs
