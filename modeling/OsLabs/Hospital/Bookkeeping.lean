import OsLabs.Hospital.Rounds

/-!
# The Counters of the Hospital

What the counters say in every state, with wakeups out of nowhere allowed:
`pthread_cond_wait` may return without a signal, and only the doctor and the
pharmacists test their conditions again.

Everybody is in one of three places. A patient that has not entered is on the
way, one that has entered has its id in an occupied seat until a group is
copied, and then in that group. A patient that is woken out of nowhere goes
home, but its id stays where it was, so the counts do not notice.

The stock is a natural number here, where it could not become negative. That
it does not is therefore said of the steps: each changes it by exactly three,
or fills it up, or leaves it alone.

## Main definitions

* `LooseEvent`, `looseStep`: The steps, and wakeups out of nowhere.
* `State.listed`: The ids in the groups and in the occupied seats.
* `Bookkeeping`: What the counters say.
* `Listed`: Whose ids are listed.

## Theorems

* `listed_step`: Every step keeps the lists.
* `bookkeeping`: The counters are right in every state.
-/

namespace OsLabs

namespace Hospital

open Machine

variable {N M : Nat}

/-- The wakeup of a pharmacist asleep on any of its condition variables. -/
def PharmacistPc.wake : PharmacistPc → Option PharmacistPc
  | .waitNotFull => some .wokenNotFull
  | .waitQueue => some .wokenQueue
  | .waitDone => some .wokenDone
  | _ => none

/-- A step of a thread, or the return of a `pthread_cond_wait` that nobody
    signalled. -/
inductive LooseEvent (N M : Nat) where
  | turn (e : Event N M)
  | wakeDoctor
  | wakePatient (p : Fin N)
  | wakePharmacist (j : Fin M)

def looseStep (s : State N M) : LooseEvent N M → Option (State N M)
  | .turn e => step s e
  | .wakeDoctor => if s.doctor = .waiting then some { s with doctor := .woken } else none
  | .wakePatient p =>
      if s.patient p = .waiting then
        some { s with patient := Function.update s.patient p .woken }
      else none
  | .wakePharmacist j => (s.pharmacist j).wake.map (s.setPharmacist j)

/-- The ids in the groups copied so far and in the occupied seats. -/
def State.listed (s : State N M) : List Nat :=
  s.groups.flatten ++ (List.range s.waitingPatients).map s.waitingPatientIds

/-- What the counters say. -/
structure Bookkeeping (s : State N M) : Prop where
  seats : s.waitingPatients ≤ 3
  /-- A patient that takes a seat writes inside of the array. -/
  write : ∀ p, s.patient p = .travelling → s.waitingPatients ≠ 3 → s.waitingPatients < 3
  stock : s.meds ≤ aptekaCapacity
  /-- The stock is never taken from when it has less than three. -/
  taken : ∀ e s', looseStep s e = some s' →
    s'.meds = s.meds ∨ s'.meds + 3 = s.meds ∨ s'.meds = aptekaCapacity
  queue : 0 ≤ s.waitingPharmacists ∧ s.waitingPharmacists ≤ M
  distinct : s.listed.Nodup
  everyone : s.patientsTreated + s.waitingPatients + tally PatientPc.isTravelling s.patient = N

/-- The lists and the counts, and whose the ids are. -/
structure Listed (s : State N M) : Prop where
  ledger : Ledger s
  seats : s.waitingPatients ≤ 3
  stock : s.meds ≤ aptekaCapacity
  distinct : s.listed.Nodup
  owner : ∀ id ∈ s.listed, ∃ p, id = State.idOf p ∧ (s.patient p).isTravelling = false
  everyone : s.patientsTreated + s.waitingPatients + tally PatientPc.isTravelling s.patient = N

theorem listed_init : Listed (init N M) where
  ledger := ledger_init
  seats := Nat.zero_le 3
  stock := le_refl _
  distinct := List.nodup_nil
  owner := fun _ h => absurd h List.not_mem_nil
  everyone := by
    have hall : tally PatientPc.isTravelling (init N M).patient = N := by
      rw [tally_const_true (fun _ => rfl), Fintype.card_fin]
    rw [hall]
    exact Nat.zero_add N

/-- A step that keeps the lists, the counts, and who is on the way. -/
theorem listed_congr {s s' : State N M} (h : Listed s) (hledger : Ledger s')
    (hlisted : s'.listed = s.listed) (hseats : s'.waitingPatients = s.waitingPatients)
    (htreated : s'.patientsTreated = s.patientsTreated) (hstock : s'.meds ≤ aptekaCapacity)
    (hpatient : ∀ p, (s'.patient p).isTravelling = (s.patient p).isTravelling) : Listed s' := by
  refine ⟨hledger, by rw [hseats]; exact h.seats, hstock, by rw [hlisted]; exact h.distinct, ?_, ?_⟩
  · intro id hid
    rw [hlisted] at hid
    rcases h.owner id hid with ⟨p, hp, htravelling⟩
    exact ⟨p, hp, by rw [hpatient, htravelling]⟩
  · rw [htreated, hseats, tally_congr hpatient]
    exact h.everyone

/-- A consultation moves the seats into a group. -/
theorem listed_beginConsult {s : State N M} (pharmacist : Fin M → PharmacistPc)
    (hfull : s.waitingPatients = 3) : s.listed.Perm (s.beginConsult pharmacist).listed := by
  have hseats : (List.range s.waitingPatients).map s.waitingPatientIds = s.copiedIds := by
    rw [hfull]
    rfl
  have hempty : (s.beginConsult pharmacist).listed = (s.copiedIds ++ s.groups.flatten) ++ [] := rfl
  rw [hempty, List.append_nil, State.listed, hseats]
  exact List.perm_append_comm

/-- A patient that sits down adds its id at the end. -/
theorem listed_enter (s : State N M) (p : Fin N) :
    (s.enter p).listed = s.listed ++ [State.idOf p] := by
  rcases enter_fields s p with ⟨hwaiting, hids, _, hgroups, _, _, _, _⟩
  have hseats : (List.range s.waitingPatients).map
      (Function.update s.waitingPatientIds s.waitingPatients (State.idOf p))
        = (List.range s.waitingPatients).map s.waitingPatientIds := by
    refine List.map_congr_left (fun k hk => ?_)
    exact Function.update_of_ne (Nat.ne_of_lt (List.mem_range.mp hk)) ..
  unfold State.listed
  rw [hwaiting, hids, hgroups, List.range_succ, List.map_append, hseats, List.map_singleton,
    Function.update_self, List.append_assoc]

/-- The id of a patient on the way is not listed. -/
theorem idOf_not_listed {s : State N M} (h : Listed s) {p : Fin N}
    (hp : s.patient p = .travelling) : State.idOf p ∉ s.listed := by
  intro hmem
  rcases h.owner _ hmem with ⟨q, hq, htravelling⟩
  have hpq : p = q := by
    unfold State.idOf at hq
    exact Fin.ext (Nat.succ.inj hq)
  rw [← hpq, hp] at htravelling
  exact Bool.noConfusion htravelling

theorem listed_doctor {s s' : State N M} (h : Listed s) (hstretch : DoctorStretch s s') :
    Listed s' := by
  have hledger := ledger_doctor h.ledger hstretch
  cases hstretch with
  | exit hpc hall heq =>
      exact listed_congr h hledger (by rw [heq]; rfl) (by rw [heq]; rfl) (by rw [heq]; rfl)
        (by rw [heq]; exact h.stock) (by rw [heq]; exact fun _ => rfl)
  | consult hpc hleft hcan chosen pharmacist hsignal heq =>
      -- The ids that are copied are those of all seats.
      have hfull : s.waitingPatients = 3 := le_antisymm h.seats hcan.1
      have hperm := listed_beginConsult pharmacist hfull
      have heveryone := h.everyone
      have hstock := h.stock
      rw [heq] at hledger ⊢
      refine ⟨hledger, Nat.zero_le 3, Nat.le_trans (Nat.sub_le _ _) hstock,
        hperm.nodup_iff.mp h.distinct, fun id hid => h.owner id (hperm.mem_iff.mpr hid), ?_⟩
      simp only [State.beginConsult]
      omega
  | deliver hpc hleft hno hcan chosen pharmacist hsignal heq =>
      exact listed_congr h hledger (by rw [heq]; rfl) (by rw [heq]; rfl) (by rw [heq]; rfl)
        (by rw [heq]; exact h.stock) (by rw [heq]; exact fun _ => rfl)
  | sleep hpc hleft hconsult hdeliver heq =>
      exact listed_congr h hledger (by rw [heq]; rfl) (by rw [heq]) (by rw [heq])
        (by rw [heq]; exact h.stock) (by rw [heq]; exact fun _ => rfl)
  | endConsult ids hpc heq =>
      exact listed_congr h hledger (by rw [heq]; rfl) (by rw [heq]; rfl) (by rw [heq]; rfl)
        (by rw [heq]; exact h.stock) (by rw [heq]; exact broadcast_apply rfl)
  | endDelivery hpc chosen pharmacist hsignal heq =>
      exact listed_congr h hledger (by rw [heq]; rfl) (by rw [heq]; rfl) (by rw [heq]; rfl)
        (by rw [heq]; exact le_refl _) (by rw [heq]; exact fun _ => rfl)

/-- A patient that is not on the way goes somewhere else and is still not. -/
theorem isTravelling_update {patient : Fin N → PatientPc} {p : Fin N} {pc : PatientPc}
    (hpc : pc.isTravelling = false) (hp : (patient p).isTravelling = false) (q : Fin N) :
    (Function.update patient p pc q).isTravelling = (patient q).isTravelling := by
  by_cases hqp : q = p
  · rw [hqp, Function.update_self, hpc, hp]
  · rw [Function.update_of_ne hqp]

theorem listed_patient {s s' : State N M} {p : Fin N} (h : Listed s) (hledger : Ledger s')
    (hstretch : PatientStretch s p s') : Listed s' := by
  cases hstretch with
  | roam hpc hfull heq =>
      rw [heq]
      exact h
  | leave hpc heq =>
      refine listed_congr h hledger (by rw [heq]; rfl) (by rw [heq]) (by rw [heq])
        (by rw [heq]; exact h.stock) (fun q => ?_)
      rw [heq]
      exact isTravelling_update rfl (by rw [hpc]; rfl) q
  | enter hpc hroom heq =>
      rcases enter_fields s p with ⟨hwaiting, _, hpatient, _, _, hmeds, htreated, _⟩
      have hseats := h.seats
      have heveryone := h.everyone
      have hnew := idOf_not_listed h hpc
      -- One patient less is on the way, and one seat more is taken.
      have hleft : tally PatientPc.isTravelling (Function.update s.patient p .waiting) + 1
          = tally PatientPc.isTravelling s.patient := tally_update_loss rfl (by rw [hpc]; rfl)
      rw [heq] at hledger ⊢
      refine ⟨hledger, ?_, by rw [hmeds]; exact h.stock, ?_, ?_, ?_⟩
      · rw [hwaiting]
        omega
      · rw [listed_enter]
        exact List.nodup_append_comm.mp (List.nodup_cons.mpr ⟨hnew, h.distinct⟩)
      · intro id hid
        rw [listed_enter] at hid
        rw [hpatient]
        rcases List.mem_append.mp hid with hold | hself
        · rcases h.owner id hold with ⟨q, hq, htravelling⟩
          refine ⟨q, hq, ?_⟩
          -- Somebody who is listed is not the one that sits down.
          have hqp : q ≠ p := by
            rintro rfl
            rw [hpc] at htravelling
            exact Bool.noConfusion htravelling
          rwa [Function.update_of_ne hqp]
        · exact ⟨p, List.mem_singleton.mp hself, by rw [Function.update_self]; rfl⟩
      · rw [hwaiting, htreated, hpatient]
        omega

theorem listed_wake {s s' : State N M} {j : Fin M} (h : Listed s)
    (hstep : (s.pharmacist j).wake.map (s.setPharmacist j) = some s') : Listed s' := by
  rcases Option.map_eq_some_iff.mp hstep with ⟨pc, hwake, heq⟩
  -- Awake or asleep, a pharmacist is in the same place of the books.
  have hledger : Ledger (s.setPharmacist j pc) := by
    refine ledger_setPharmacist h.ledger ?_ ?_
    · cases hpc : s.pharmacist j <;> rw [hpc] at hwake <;> cases hwake <;> exact id
    · cases hpc : s.pharmacist j <;> rw [hpc] at hwake <;> cases hwake <;> exact id
  rw [← heq]
  exact listed_congr h hledger rfl rfl rfl h.stock (fun _ => rfl)

theorem listed_step {s s' : State N M} {e : LooseEvent N M} (h : Listed s)
    (hstep : looseStep s e = some s') : Listed s' := by
  cases e with
  | turn e =>
      have hledger := ledger_step h.ledger hstep
      cases e with
      | doctor chosen => exact listed_doctor h (doctorStep_cases hstep)
      | patient p => exact listed_patient h hledger (patientStep_cases hstep)
      | pharmacist j =>
          have hframe := pharmacistStep_frame hstep
          refine listed_congr h hledger ?_ hframe.waitingPatients hframe.patientsTreated
            (by rw [hframe.meds]; exact h.stock) (fun p => by rw [hframe.patient])
          unfold State.listed
          rw [hframe.groups, hframe.waitingPatients, hframe.waitingPatientIds]
  | wakeDoctor =>
      simp only [looseStep, Option.ite_none_right_eq_some, Option.some.injEq] at hstep
      rw [← hstep.2]
      exact listed_congr h (ledger_congr h.ledger rfl rfl rfl (fun _ hj => hj) (fun _ hj => hj))
        rfl rfl rfl h.stock (fun _ => rfl)
  | wakePatient p =>
      simp only [looseStep, Option.ite_none_right_eq_some, Option.some.injEq] at hstep
      rw [← hstep.2]
      exact listed_congr h (ledger_congr h.ledger rfl rfl rfl (fun _ hj => hj) (fun _ hj => hj))
        rfl rfl rfl h.stock (isTravelling_update rfl (by rw [hstep.1]; rfl))
  | wakePharmacist j => exact listed_wake h hstep

/-- How a step changes the stock. -/
theorem meds_step {s s' : State N M} {e : LooseEvent N M} (hstep : looseStep s e = some s') :
    s'.meds = s.meds ∨ s'.meds + 3 = s.meds ∨ s'.meds = aptekaCapacity := by
  cases e with
  | turn e =>
      cases e with
      | doctor chosen =>
          cases doctorStep_cases hstep with
          | consult hpc hleft hcan chosen pharmacist hsignal heq =>
              rw [heq]
              exact Or.inr (Or.inl (Nat.sub_add_cancel hcan.2))
          | endDelivery hpc chosen pharmacist hsignal heq =>
              rw [heq]
              exact Or.inr (Or.inr rfl)
          | exit hpc hall heq => exact Or.inl (by rw [heq]; rfl)
          | deliver hpc hleft hno hcan chosen pharmacist hsignal heq =>
              exact Or.inl (by rw [heq]; rfl)
          | sleep hpc hleft hconsult hdeliver heq => exact Or.inl (by rw [heq])
          | endConsult ids hpc heq => exact Or.inl (by rw [heq]; rfl)
      | patient p =>
          cases patientStep_cases hstep with
          | roam hpc hfull heq => exact Or.inl (by rw [heq])
          | leave hpc heq => exact Or.inl (by rw [heq])
          | enter hpc hroom heq =>
              rcases enter_fields s p with ⟨_, _, _, _, _, hmeds, _, _⟩
              exact Or.inl (by rw [heq, hmeds])
      | pharmacist j => exact Or.inl (pharmacistStep_frame hstep).meds
  | wakeDoctor =>
      simp only [looseStep, Option.ite_none_right_eq_some, Option.some.injEq] at hstep
      exact Or.inl (by rw [← hstep.2])
  | wakePatient p =>
      simp only [looseStep, Option.ite_none_right_eq_some, Option.some.injEq] at hstep
      exact Or.inl (by rw [← hstep.2])
  | wakePharmacist j =>
      rcases Option.map_eq_some_iff.mp hstep with ⟨pc, _, heq⟩
      exact Or.inl (by rw [← heq]; rfl)

/-- The counter is the difference of two lists without repetitions, one
    inside the other. -/
theorem Ledger.bounds {s : State N M} (h : Ledger s) :
    0 ≤ s.waitingPharmacists ∧ s.waitingPharmacists ≤ M := by
  have hcount := h.count
  have hle : s.takers.length ≤ s.queued.length := (h.takers.subperm h.subset).length_le
  have hM : s.queued.length ≤ M := by
    have := h.queued.length_le_card
    rwa [Fintype.card_fin] at this
  omega

/-- In every state that any schedule reaches, with wakeups out of nowhere,
    the counters say what they should. -/
theorem bookkeeping (N M : Nat) (s : State N M) (h : Reaches looseStep (init N M) s) :
    Bookkeeping s := by
  have hlisted : Listed s :=
    reaches_invariant (fun _ _ _ hs hstep => listed_step hs hstep) listed_init h
  have hseats := hlisted.seats
  exact {
    seats := hseats
    write := fun _ _ hroom => by omega
    stock := hlisted.stock
    taken := fun _ _ hstep => meds_step hstep
    queue := hlisted.ledger.bounds
    distinct := hlisted.distinct
    everyone := hlisted.everyone }

/-- Two patients enter, one of them is woken out of nowhere and leaves, and a
    third completes the group. -/
def looseRun : List (LooseEvent 5 1) :=
  [.turn (.patient 0), .turn (.patient 1), .wakePatient 0, .turn (.patient 0),
    .turn (.doctor none), .wakeDoctor, .turn (.patient 3), .turn (.doctor none)]

/-- The one that has left was counted all the same. -/
theorem bookkeeping_after_early_leave :
    ∃ s : State 5 1, s.patient 0 = .finished ∧ s.groups = [[1, 2, 4]] ∧ Bookkeeping s := by
  have hend : (exec looseStep (init 5 1) looseRun).any (fun s =>
      decide (s.patient 0 = .finished ∧ s.groups = [[1, 2, 4]])) = true := by
    decide +kernel
  rcases exists_of_exec_any hend with ⟨s, hrun, hs⟩
  rcases of_decide_eq_true hs with ⟨hleft, hgroups⟩
  exact ⟨s, hleft, hgroups, bookkeeping 5 1 s ⟨looseRun, hrun⟩⟩

end Hospital

end OsLabs
