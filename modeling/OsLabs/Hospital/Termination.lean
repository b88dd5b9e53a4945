import OsLabs.Hospital.Bookkeeping
import OsLabs.Library.Completion

/-!
# The Simulation Does Not Run in Circles

The loops of the simulation wait for conditions, and whoever is woken may find
its condition false and go back to sleep. That this does not go on for ever is
seen from who pays for a wakeup. A patient that enters may wake the doctor, and
does so once. A pharmacist that queues up does so once. A delivery wakes two
pharmacists and fills up the stock, after which there is none until the next
consultation, and a consultation wakes one and is over for three patients. On
its way out the doctor wakes all pharmacists, once.

What may be repeated without end is that a patient finds the room full and comes
back later. All other steps together are bounded by a number that depends on how
many patients and pharmacists there are, for every schedule. A wakeup out of
nowhere costs at most one step more, which is the one of going back to sleep.

## Main definitions

* `DoctorPc.rank`, `PatientPc.rank`, `PharmacistPc.rank`: The steps still to
  come with nobody else about.
* `State.rank`: The steps still to come.
* `acts`: The steps of threads other than being turned away.

## Theorems

* `rank_doctor`, `rank_patient`, `rank_pharmacist`: A step of a thread lowers
  the rank.
* `acts_le`: How many steps a run has.
-/

namespace OsLabs

namespace Hospital

open Machine

variable {N M : Nat}

/-- After a delivery the doctor has to test the condition of its loop, and the
    pharmacist that is woken that of its own. -/
def DoctorPc.rank : DoctorPc → Nat
  | .start | .woken => 1
  | .waiting | .exited => 0
  | .consulting _ => 2
  | .delivering => 3

/-- One that enters may wake the doctor. -/
def PatientPc.rank : PatientPc → Nat
  | .travelling => 3
  | .waiting | .woken => 1
  | .finished => 0

/-- One that arrives may wake the doctor. -/
def PharmacistPc.rank : PharmacistPc → Nat
  | .travelling | .wokenNotFull => 2
  | .waitNotFull | .wokenQueue | .wokenDone => 1
  | .waitQueue | .waitDone | .finished => 0

namespace State

/-- What a delivery costs, if there can be one before the next consultation. -/
def deliveryRank (s : State N M) : Nat :=
  if s.meds < aptekaCapacity ∧ s.doctor.isDelivering = false then 4 else 0

/-- What the consultations to come cost, each with the delivery that it makes
    room for. -/
def consultRank (s : State N M) : Nat := 7 * ((N - s.patientsTreated + 2) / 3)

/-- What it costs that the doctor leaves. -/
def exitRank (s : State N M) : Nat := if s.doctor = .exited then 0 else M

/-- The steps still to come, at most. -/
def rank (s : State N M) : Nat :=
  (∑ p, (s.patient p).rank) + (∑ j, (s.pharmacist j).rank) + s.doctor.rank + s.deliveryRank +
    s.consultRank + s.exitRank

end State

section Wakeups

variable {s s' : State N M}

/-- A pharmacist that is woken may have one step more. -/
theorem sum_signal {asleep woken : PharmacistPc} {chosen : Option (Fin M)}
    {pharmacist pharmacist' : Fin M → PharmacistPc} (hrank : woken.rank = asleep.rank + 1)
    (h : signal asleep woken chosen pharmacist = some pharmacist') :
    (∑ j, (pharmacist' j).rank) ≤ (∑ j, (pharmacist j).rank) + 1 := by
  rcases signal_cases h with ⟨i, hi, hthreads⟩ | ⟨_, hthreads⟩
  · have hmove := sum_move PharmacistPc.rank pharmacist i woken
    rw [hi] at hmove
    rw [hthreads]
    omega
  · rw [hthreads]
    exact Nat.le_succ _

/-- All that are asleep before the doctor leaves. -/
theorem sum_exit (pharmacist : Fin M → PharmacistPc) :
    (∑ j, (broadcast .waitQueue .wokenQueue (broadcast .waitNotFull .wokenNotFull pharmacist)
      j).rank) ≤ (∑ j, (pharmacist j).rank) + M := by
  have hone : ∀ j, (broadcast .waitQueue .wokenQueue (broadcast .waitNotFull .wokenNotFull
      pharmacist) j).rank ≤ (pharmacist j).rank + 1 := by
    intro j
    unfold broadcast
    cases pharmacist j <;> decide
  have hall := Finset.sum_le_sum fun j (_ : j ∈ Finset.univ) => hone j
  rwa [Finset.sum_add_distrib, Finset.sum_const, Finset.card_univ, Fintype.card_fin, smul_eq_mul,
    Nat.mul_one] at hall

/-- Patients that are woken had that step to come already. -/
theorem sum_broadcast (patient : Fin N → PatientPc) :
    (∑ p, (broadcast .waiting .woken patient p).rank) = ∑ p, (patient p).rank := by
  have hsame : PatientPc.rank .woken = PatientPc.rank .waiting := rfl
  exact Finset.sum_congr rfl fun p _ => broadcast_apply hsame p

end Wakeups

section Doctor

variable {s s' : State N M}

theorem rank_of_start {d : DoctorPc} (h : d = .start ∨ d = .woken) :
    d.rank = 1 ∧ d.isDelivering = false ∧ d ≠ .exited := by
  rcases h with h | h <;> rw [h] <;> exact ⟨rfl, rfl, nofun⟩

theorem exitRank_of_ne {s : State N M} (h : s.doctor ≠ .exited) : s.exitRank = M := if_neg h

theorem deliveryRank_le (s : State N M) : s.deliveryRank ≤ 4 := by
  unfold State.deliveryRank
  by_cases hroom : s.meds < aptekaCapacity ∧ s.doctor.isDelivering = false
  · rw [if_pos hroom]
  · rw [if_neg hroom]
    exact Nat.zero_le 4

theorem deliveryRank_congr (hmeds : s'.meds = s.meds)
    (hdelivering : s'.doctor.isDelivering = s.doctor.isDelivering) :
    s'.deliveryRank = s.deliveryRank := by
  rw [State.deliveryRank, hmeds, hdelivering, State.deliveryRank]

theorem rank_exit (hpc : s.doctor = .start ∨ s.doctor = .woken) : s.exit.rank < s.rank := by
  rcases rank_of_start hpc with ⟨hdoctor, hdelivering, hhere⟩
  have hdelivery : s.exit.deliveryRank = s.deliveryRank := deliveryRank_congr rfl hdelivering.symm
  have hexit : s.exit.exitRank = 0 := if_pos rfl
  have hexit' : s.exitRank = M := if_neg hhere
  have hpharmacists : (∑ j, (s.exit.pharmacist j).rank) ≤ (∑ j, (s.pharmacist j).rank) + M :=
    sum_exit s.pharmacist
  have hpatients : (∑ p, (s.exit.patient p).rank) = ∑ p, (s.patient p).rank := rfl
  have hgone : s.exit.doctor.rank = 0 := rfl
  have hconsult : s.exit.consultRank = s.consultRank := rfl
  unfold State.rank
  omega

/-- A consultation makes room for a delivery, and pays for it. -/
theorem rank_consult {chosen : Option (Fin M)} {pharmacist : Fin M → PharmacistPc}
    (hpc : s.doctor = .start ∨ s.doctor = .woken) (hleft : s.patientsTreated < N)
    (hsignal : signal .waitNotFull .wokenNotFull chosen s.pharmacist = some pharmacist) :
    (s.beginConsult pharmacist).rank < s.rank := by
  rcases rank_of_start hpc with ⟨hdoctor, _, hhere⟩
  have hdelivery := deliveryRank_le (s.beginConsult pharmacist)
  have hexit : (s.beginConsult pharmacist).exitRank = M := if_neg nofun
  have hexit' : s.exitRank = M := if_neg hhere
  have hpharmacists : (∑ j, ((s.beginConsult pharmacist).pharmacist j).rank) ≤
      (∑ j, (s.pharmacist j).rank) + 1 := sum_signal rfl hsignal
  have hpatients : (∑ p, ((s.beginConsult pharmacist).patient p).rank) =
      ∑ p, (s.patient p).rank := rfl
  have hconsulting : (s.beginConsult pharmacist).doctor.rank = 2 := rfl
  -- Three patients fewer are still to be treated.
  have hconsult : (s.beginConsult pharmacist).consultRank + 7 ≤ s.consultRank := by
    change 7 * ((N - (s.patientsTreated + 3) + 2) / 3) + 7 ≤ 7 * ((N - s.patientsTreated + 2) / 3)
    omega
  unfold State.rank
  omega

theorem rank_deliver {chosen : Option (Fin M)} {pharmacist : Fin M → PharmacistPc}
    (hpc : s.doctor = .start ∨ s.doctor = .woken) (hcan : s.canDeliver)
    (hsignal : signal .waitQueue .wokenQueue chosen s.pharmacist = some pharmacist) :
    (s.beginDelivery pharmacist).rank < s.rank := by
  rcases rank_of_start hpc with ⟨hdoctor, hdelivering, hhere⟩
  have hdelivery : (s.beginDelivery pharmacist).deliveryRank = 0 :=
    if_neg fun h => absurd h.2 (Bool.true_eq_false ▸ not_false)
  have hdelivery' : s.deliveryRank = 4 := if_pos ⟨hcan.2, hdelivering⟩
  have hexit : (s.beginDelivery pharmacist).exitRank = M := if_neg nofun
  have hexit' : s.exitRank = M := if_neg hhere
  have hpharmacists : (∑ j, ((s.beginDelivery pharmacist).pharmacist j).rank) ≤
      (∑ j, (s.pharmacist j).rank) + 1 := sum_signal rfl hsignal
  have hpatients : (∑ p, ((s.beginDelivery pharmacist).patient p).rank) =
      ∑ p, (s.patient p).rank := rfl
  have hbegun : (s.beginDelivery pharmacist).doctor.rank = 3 := rfl
  have hconsult : (s.beginDelivery pharmacist).consultRank = s.consultRank := rfl
  unfold State.rank
  omega

theorem rank_endConsult {ids : List Nat} (hpc : s.doctor = .consulting ids) :
    (s.endConsult ids).rank < s.rank := by
  have hdoctor : s.doctor.rank = 2 := by
    rw [hpc]
    rfl
  have hdelivery : (s.endConsult ids).deliveryRank = s.deliveryRank :=
    deliveryRank_congr rfl (by rw [hpc]; rfl)
  have hexit : (s.endConsult ids).exitRank = M := if_neg nofun
  have hexit' : s.exitRank = M := if_neg (by rw [hpc]; exact nofun)
  have hpharmacists : (∑ j, ((s.endConsult ids).pharmacist j).rank) =
      ∑ j, (s.pharmacist j).rank := rfl
  have hpatients : (∑ p, ((s.endConsult ids).patient p).rank) = ∑ p, (s.patient p).rank :=
    sum_broadcast s.patient
  have hstart : (s.endConsult ids).doctor.rank = 1 := rfl
  have hconsult : (s.endConsult ids).consultRank = s.consultRank := rfl
  unfold State.rank
  omega

/-- With the stock full there is no delivery to pay for. -/
theorem rank_endDelivery {chosen : Option (Fin M)} {pharmacist : Fin M → PharmacistPc}
    (hpc : s.doctor = .delivering)
    (hsignal : signal .waitDone .wokenDone chosen s.pharmacist = some pharmacist) :
    (s.endDelivery pharmacist).rank < s.rank := by
  have hdoctor : s.doctor.rank = 3 := by
    rw [hpc]
    rfl
  have hdelivery : (s.endDelivery pharmacist).deliveryRank = 0 :=
    if_neg fun h => absurd h.1 (Nat.lt_irrefl _)
  have hexit : (s.endDelivery pharmacist).exitRank = M := if_neg nofun
  have hexit' : s.exitRank = M := if_neg (by rw [hpc]; exact nofun)
  have hpharmacists : (∑ j, ((s.endDelivery pharmacist).pharmacist j).rank) ≤
      (∑ j, (s.pharmacist j).rank) + 1 := sum_signal rfl hsignal
  have hpatients : (∑ p, ((s.endDelivery pharmacist).patient p).rank) =
      ∑ p, (s.patient p).rank := rfl
  have hstart : (s.endDelivery pharmacist).doctor.rank = 1 := rfl
  have hconsult : (s.endDelivery pharmacist).consultRank = s.consultRank := rfl
  unfold State.rank
  omega

theorem rank_sleep (hpc : s.doctor = .start ∨ s.doctor = .woken) :
    State.rank { s with doctor := .waiting } < s.rank := by
  rcases rank_of_start hpc with ⟨hdoctor, hdelivering, hhere⟩
  have hdelivery : State.deliveryRank { s with doctor := .waiting } = s.deliveryRank :=
    deliveryRank_congr rfl hdelivering.symm
  have hexit : State.exitRank { s with doctor := .waiting } = M := if_neg nofun
  have hexit' : s.exitRank = M := if_neg hhere
  have hconsult : State.consultRank { s with doctor := .waiting } = s.consultRank := rfl
  have hasleep : DoctorPc.waiting.rank = 0 := rfl
  unfold State.rank
  dsimp only
  omega

theorem rank_doctor (hstretch : DoctorStretch s s') : s'.rank < s.rank := by
  cases hstretch with
  | exit hpc _ heq =>
      rw [heq]
      exact rank_exit hpc
  | consult hpc hleft _ _ _ hsignal heq =>
      rw [heq]
      exact rank_consult hpc hleft hsignal
  | deliver hpc _ _ hcan _ _ hsignal heq =>
      rw [heq]
      exact rank_deliver hpc hcan hsignal
  | sleep hpc _ _ _ heq =>
      rw [heq]
      exact rank_sleep hpc
  | endConsult ids hpc heq =>
      rw [heq]
      exact rank_endConsult hpc
  | endDelivery hpc _ _ hsignal heq =>
      rw [heq]
      exact rank_endDelivery hpc hsignal

end Doctor

section Visitors

variable {s s' : State N M} {p : Fin N} {j : Fin M}

/-- What does not change when somebody else than the doctor has a step, apart
    from a doctor that is woken. -/
theorem rank_visit (s s' : State N M) (hmeds : s'.meds = s.meds)
    (htreated : s'.patientsTreated = s.patientsTreated)
    (hdoctor : s'.doctor = s.doctor ∨ (s.doctor = .waiting ∧ s'.doctor = .woken)) :
    s'.doctor.rank ≤ s.doctor.rank + 1 ∧ s'.deliveryRank = s.deliveryRank ∧
      s'.consultRank = s.consultRank ∧ s'.exitRank = s.exitRank := by
  have hconsult : s'.consultRank = s.consultRank := by
    rw [State.consultRank, htreated, State.consultRank]
  rcases hdoctor with hsame | ⟨hwaiting, hwoken⟩
  · refine ⟨?_, deliveryRank_congr hmeds (by rw [hsame]), hconsult, ?_⟩
    · rw [hsame]
      exact Nat.le_succ _
    · rw [State.exitRank, hsame, State.exitRank]
  · refine ⟨?_, deliveryRank_congr hmeds (by rw [hwaiting, hwoken]; rfl), hconsult, ?_⟩
    · rw [hwoken, hwaiting]
      decide
    · rw [exitRank_of_ne (by rw [hwoken]; exact nofun),
        exitRank_of_ne (by rw [hwaiting]; exact nofun)]

/-- A patient enters once, and leaves once. -/
theorem rank_enter (hpc : s.patient p = .travelling) : (s.enter p).rank < s.rank := by
  rcases enter_fields s p with ⟨_, _, hpatient, _, _, hmeds, htreated, hpharmacist⟩
  rcases rank_visit s (s.enter p) hmeds htreated (enter_doctor s p) with
    ⟨hdoctor, hdelivery, hconsult, hexit⟩
  have hmove := sum_move PatientPc.rank s.patient p .waiting
  have htravelling : PatientPc.travelling.rank = 3 := rfl
  have hwaiting : PatientPc.waiting.rank = 1 := rfl
  rw [hpc, htravelling, hwaiting] at hmove
  unfold State.rank
  rw [hpatient, hpharmacist]
  omega

theorem rank_leave (hpc : s.patient p = .woken) :
    State.rank { s with patient := Function.update s.patient p .finished } < s.rank := by
  have hmove := sum_move PatientPc.rank s.patient p .finished
  have hwoken : PatientPc.woken.rank = 1 := rfl
  have hfinished : PatientPc.finished.rank = 0 := rfl
  rw [hpc, hwoken, hfinished] at hmove
  change (∑ q, (Function.update s.patient p .finished q).rank) + (∑ j, (s.pharmacist j).rank) +
    s.doctor.rank + s.deliveryRank + s.consultRank + s.exitRank < _
  unfold State.rank
  omega

/-- After these loops a pharmacist is asleep or gone. -/
theorem doneLoop_rests (s : State N M) (j : Fin M) :
    ∃ pc, pc.rank = 0 ∧ (s.doneLoop j).pharmacist = Function.update s.pharmacist j pc ∧
      (s.doneLoop j).doctor = s.doctor := by
  unfold State.doneLoop
  by_cases hsleep : s.pharmacistDone = false ∧ s.doneFlag = false
  · rw [if_pos hsleep]
    exact ⟨.waitDone, rfl, rfl, rfl⟩
  rw [if_neg hsleep]
  by_cases hdone : s.doneFlag = true
  · rw [if_pos hdone]
    exact ⟨.finished, rfl, rfl, rfl⟩
  · rw [if_neg hdone]
    exact ⟨.finished, rfl, rfl, rfl⟩

theorem queueLoop_rests (s : State N M) (j : Fin M) :
    ∃ pc, pc.rank = 0 ∧ (s.queueLoop j).pharmacist = Function.update s.pharmacist j pc ∧
      (s.queueLoop j).doctor = s.doctor := by
  unfold State.queueLoop
  by_cases hsleep : s.pharmacistServed = false ∧ s.doneFlag = false
  · rw [if_pos hsleep]
    exact ⟨.waitQueue, rfl, rfl, rfl⟩
  rw [if_neg hsleep]
  by_cases hdone : s.doneFlag = true
  · rw [if_pos hdone]
    exact ⟨.finished, rfl, rfl, rfl⟩
  · rw [if_neg hdone]
    rcases doneLoop_rests (s.take j) j with ⟨pc, hpc, hpharmacist, hdoctor⟩
    refine ⟨pc, hpc, hpharmacist.trans ?_, hdoctor⟩
    exact Function.update_idem ..

/-- One that arrives may have to come back, or it wakes the doctor. -/
theorem arrive_rests (s : State N M) (j : Fin M) :
    ∃ pc : PharmacistPc, (s.arrive j).pharmacist = Function.update s.pharmacist j pc ∧
      ((pc.rank ≤ 1 ∧ (s.arrive j).doctor = s.doctor) ∨ pc.rank = 0) := by
  unfold State.arrive
  by_cases hsleep : s.meds = aptekaCapacity ∧ s.doneFlag = false
  · rw [if_pos hsleep]
    exact ⟨.waitNotFull, rfl, .inl ⟨Nat.le_refl 1, rfl⟩⟩
  rw [if_neg hsleep]
  by_cases hdone : s.doneFlag = true
  · rw [if_pos hdone]
    exact ⟨.finished, rfl, .inr rfl⟩
  rw [if_neg hdone]
  by_cases hmeds : s.meds < 3
  · rw [if_pos hmeds]
    rcases queueLoop_rests (s.enqueue j) j with ⟨pc, hpc, hpharmacist, _⟩
    exact ⟨pc, hpharmacist.trans (Function.update_idem ..), .inr hpc⟩
  · rw [if_neg hmeds]
    exact ⟨.finished, rfl, .inr rfl⟩

/-- A step of a pharmacist brings its own end nearer by more than it takes the
    doctor to look. -/
theorem rank_pharmacist (hstep : pharmacistStep s j = some s') : s'.rank < s.rank := by
  have hframe := pharmacistStep_frame hstep
  rcases rank_visit s s' hframe.meds hframe.patientsTreated hframe.doctor with
    ⟨hdoctor, hdelivery, hconsult, hexit⟩
  -- Only the pharmacist's own program counter moves.
  have hmove : ∀ pc : PharmacistPc, s'.pharmacist = Function.update s.pharmacist j pc →
      (∑ k, (s'.pharmacist k).rank) + (s.pharmacist j).rank =
        (∑ k, (s.pharmacist k).rank) + pc.rank := by
    intro pc hpharmacist
    rw [hpharmacist]
    exact sum_move PharmacistPc.rank s.pharmacist j pc
  unfold State.rank
  rw [hframe.patient]
  -- By what it goes on with: an arrival, or the loop of one of its two later waits.
  rcases pharmacistStep_cases hstep with ⟨hpc, heq⟩ | ⟨hpc, heq⟩ | ⟨hpc, heq⟩
  · have hrank : (s.pharmacist j).rank = 2 := by
      rcases hpc with hpc | hpc <;> rw [hpc] <;> rfl
    rcases arrive_rests s j with ⟨pc, hpharmacist, hrest⟩
    rw [← heq] at hpharmacist hrest
    have hsum := hmove pc hpharmacist
    -- It waits for room and leaves the doctor alone, or its own rank pays for waking him.
    rcases hrest with ⟨hone, hsame⟩ | hzero
    · rw [hsame]
      omega
    · omega
  · have hrank : (s.pharmacist j).rank = 1 := by
      rw [hpc]
      rfl
    rcases queueLoop_rests s j with ⟨pc, hzero, hpharmacist, hsame⟩
    rw [← heq] at hpharmacist hsame
    have hsum := hmove pc hpharmacist
    rw [hsame]
    omega
  · have hrank : (s.pharmacist j).rank = 1 := by
      rw [hpc]
      rfl
    rcases doneLoop_rests s j with ⟨pc, hzero, hpharmacist, hsame⟩
    rw [← heq] at hpharmacist hsame
    have hsum := hmove pc hpharmacist
    rw [hsame]
    omega

end Visitors

section Runs

variable {s s' : State N M}

/-- The step of a thread, unless a patient is turned away. -/
def acts (s : State N M) : LooseEvent N M → Option (Event N M)
  | .turn (.patient p) =>
      if s.patient p = .travelling ∧ s.waitingPatients = 3 then none else some (.patient p)
  | .turn e => some e
  | _ => none

/-- A wakeup out of nowhere. -/
def LooseEvent.isWakeup : LooseEvent N M → Bool
  | .turn _ => false
  | _ => true

theorem rank_wakeDoctor (hwaiting : s.doctor = .waiting) :
    State.rank { s with doctor := .woken } ≤ s.rank + 1 := by
  rcases rank_visit s { s with doctor := .woken } rfl rfl (.inr ⟨hwaiting, rfl⟩) with
    ⟨hdoctor, hdelivery, hconsult, hexit⟩
  unfold State.rank
  dsimp only at hdoctor ⊢
  omega

theorem rank_wakePatient {p : Fin N} (hwaiting : s.patient p = .waiting) :
    State.rank { s with patient := Function.update s.patient p .woken } ≤ s.rank := by
  have hmove := sum_move PatientPc.rank s.patient p .woken
  have hsame : PatientPc.woken.rank = PatientPc.waiting.rank := rfl
  rw [hwaiting, hsame] at hmove
  change (∑ q, (Function.update s.patient p .woken q).rank) + (∑ j, (s.pharmacist j).rank) +
    s.doctor.rank + s.deliveryRank + s.consultRank + s.exitRank ≤ _
  unfold State.rank
  omega

theorem rank_wakePharmacist {j : Fin M} {pc : PharmacistPc}
    (hwake : (s.pharmacist j).wake = some pc) : (s.setPharmacist j pc).rank ≤ s.rank + 1 := by
  have hmove := sum_move PharmacistPc.rank s.pharmacist j pc
  have hpc : pc.rank = (s.pharmacist j).rank + 1 := by
    cases hplace : s.pharmacist j with
    | waitNotFull | waitQueue | waitDone =>
        rw [hplace, PharmacistPc.wake, Option.some.injEq] at hwake
        rw [← hwake]
        rfl
    | _ =>
        rw [hplace] at hwake
        cases hwake
  change (∑ p, (s.patient p).rank) + (∑ k, (Function.update s.pharmacist j pc k).rank) +
    s.doctor.rank + s.deliveryRank + s.consultRank + s.exitRank ≤ _
  unfold State.rank
  omega

theorem rank_paid {a : Option (Event N M)} (hlt : s'.rank < s.rank) (ha : a.isSome = true) :
    s'.rank + a.toList.length ≤ s.rank + 0 := by
  rcases Option.isSome_iff_exists.mp ha with ⟨e, he⟩
  rw [he, Option.toList_some, List.length_singleton]
  exact hlt

theorem rank_unpaid {a : Option (Event N M)} (hle : s'.rank ≤ s.rank + 1) (ha : a = none) :
    s'.rank + a.toList.length ≤ s.rank + 1 := by
  rw [ha, Option.toList_none, List.length_nil]
  exact hle

/-- Steps lower the rank, and a wakeup out of nowhere raises it by one. -/
theorem rank_step {e : LooseEvent N M} (hstep : looseStep s e = some s') :
    s'.rank + (acts s e).toList.length ≤ s.rank + if e.isWakeup then 1 else 0 := by
  cases e with
  | turn e =>
      cases e with
      | doctor chosen => exact rank_paid (rank_doctor (doctorStep_cases hstep)) rfl
      | patient p =>
          -- A patient that finds the room full roams, which is no act that is counted.
          cases patientStep_cases hstep with
          | roam hpc hfull heq =>
              have hnone : acts s (.turn (.patient p)) = none := if_pos ⟨hpc, hfull⟩
              rw [heq, hnone]
              exact Nat.le_refl _
          | enter hpc hroom heq =>
              have hsome : acts s (.turn (.patient p)) = some (.patient p) :=
                if_neg fun h => hroom h.2
              rw [heq, hsome]
              exact rank_paid (rank_enter hpc) rfl
          | leave hpc heq =>
              have hsome : acts s (.turn (.patient p)) = some (.patient p) :=
                if_neg fun h => by rw [hpc] at h; cases h.1
              rw [heq, hsome]
              exact rank_paid (rank_leave hpc) rfl
      | pharmacist j => exact rank_paid (rank_pharmacist hstep) rfl
  -- Wake-ups out of nowhere are paid for from outside.
  | wakeDoctor =>
      simp only [looseStep, Option.ite_none_right_eq_some, Option.some.injEq] at hstep
      rcases hstep with ⟨hwaiting, heq⟩
      rw [← heq]
      exact rank_unpaid (rank_wakeDoctor hwaiting) rfl
  | wakePatient p =>
      simp only [looseStep, Option.ite_none_right_eq_some, Option.some.injEq] at hstep
      rcases hstep with ⟨hwaiting, heq⟩
      rw [← heq]
      exact rank_unpaid (Nat.le_succ_of_le (rank_wakePatient hwaiting)) rfl
  | wakePharmacist j =>
      rcases Option.map_eq_some_iff.mp hstep with ⟨pc, hwake, heq⟩
      rw [← heq]
      exact rank_unpaid (rank_wakePharmacist hwake) rfl

theorem rank_init : (init N M).rank = 3 * N + 3 * M + 7 * ((N + 2) / 3) + 1 := by
  have hpatients : (∑ p, ((init N M).patient p).rank) = N * 3 := by
    change (∑ _p : Fin N, 3) = N * 3
    rw [Finset.sum_const, Finset.card_univ, Fintype.card_fin, smul_eq_mul]
  have hpharmacists : (∑ j, ((init N M).pharmacist j).rank) = M * 2 := by
    change (∑ _j : Fin M, 2) = M * 2
    rw [Finset.sum_const, Finset.card_univ, Fintype.card_fin, smul_eq_mul]
  have hdelivery : (init N M).deliveryRank = 0 := if_neg fun h => absurd h.1 (Nat.lt_irrefl _)
  have hexit : (init N M).exitRank = M := if_neg nofun
  have hdoctor : (init N M).doctor.rank = 1 := rfl
  have hconsult : (init N M).consultRank = 7 * ((N + 2) / 3) := rfl
  unfold State.rank
  omega

/-- For every schedule, with wakeups out of nowhere, the steps of all threads
    together are bounded, apart from those in which a patient is turned
    away. -/
theorem acts_le (N M : Nat) (es : List (LooseEvent N M)) (t : State N M)
    (hrun : exec looseStep (init N M) es = some t) :
    (record looseStep acts (init N M) es).length ≤
      3 * N + 3 * M + 7 * ((N + 2) / 3) + 1 + es.countP LooseEvent.isWakeup := by
  have hpays : ∀ (s : State N M) e s', looseStep s e = some s' →
      s'.rank + (acts s e).toList.length ≤ s.rank + if e.isWakeup then 1 else 0 :=
    fun _ _ _ hstep => rank_step hstep
  have hbound := record_length_le_add hpays hrun
  rw [rank_init] at hbound
  omega

/-- Six threads, one of which is woken out of nowhere. -/
theorem acts_loose_run :
    (record looseStep acts (init 5 1) looseRun).length ≤ 35 := by
  have hend : (exec looseStep (init 5 1) looseRun).any (fun _ => true) = true := by
    decide +kernel
  rcases exists_of_exec_any hend with ⟨t, hrun, _⟩
  exact acts_le 5 1 looseRun t hrun

end Runs

end Hospital

end OsLabs
