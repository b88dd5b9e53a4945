import OsLabs.Hospital.Progress

/-!
# Delivery Rounds

The doctor counts on a delivery when somebody is in the queue, and only the
pharmacist itself takes itself off the queue, after it has been woken and has
the mutex again. Until then the doctor still sees it there. It may end the
delivery, treat a group, and begin another delivery for the same pharmacist:
the flag `pharmacist_served` is set a second time and says no more than the
first time.

As long as no delivery is begun on top of a call that has not been answered,
each round is taken by a pharmacist of its own. This is exact: the two
counts agree in every state of a run precisely when no round of the run is
begun so.

The books that the invariant keeps are true of every run. Whoever has taken
a round had queued, nobody does either twice, and `waiting_pharmacists` is
the difference.

## Main definitions

* `Answered`: The step begins no delivery before the last call is answered.
* `Backed`: Every round has a pharmacist of its own.
* `Ledger`: What the counter says about those that queued and took a round.

## Theorems

* `ledger_step`: Every step keeps the ledger.
* `backed_step_iff`: A step keeps rounds backed exactly if it is answered.
* `rounds_backed_iff`: Rounds are backed along exactly the answered runs.
-/

namespace OsLabs

namespace Hospital

open Machine

variable {N M : Nat}

/-- Not in the queue yet, and not past it. -/
def PharmacistPc.isArriving : PharmacistPc → Bool
  | .travelling | .waitNotFull | .wokenNotFull => true
  | _ => false

/-- The step does not begin a delivery while a call stands that no pharmacist
    has answered. -/
def Answered (s : State N M) : Event N M → Prop
  | .doctor _ => (s.doctor = .start ∨ s.doctor = .woken) → s.patientsTreated < N →
      ¬ s.canConsult → s.canDeliver → s.pharmacistServed = false
  | .patient _ | .pharmacist _ => True

instance (s : State N M) : ∀ e, Decidable (Answered s e)
  | .doctor _ => inferInstanceAs (Decidable (_ → _ → ¬ _ → _ → _ = _))
  | .patient _ | .pharmacist _ => isTrue trivial

/-- No more rounds than pharmacists that queued, and each round but the one
    that stands as a call has been taken by a pharmacist that took no other. -/
structure Backed (s : State N M) : Prop where
  queued : s.queued.Nodup
  counted : s.rounds ≤ s.queued.length
  takers : s.takers.Nodup
  taken : s.rounds = s.takers.length + s.calls

/-- The books of the queue. -/
structure Ledger (s : State N M) : Prop where
  queued : s.queued.Nodup
  takers : s.takers.Nodup
  subset : s.takers ⊆ s.queued
  arriving : ∀ j ∈ s.queued, (s.pharmacist j).isArriving = false
  waiting : ∀ j, (s.pharmacist j).isQueued = true → j ∈ s.queued
  gone : ∀ j ∈ s.takers, (s.pharmacist j).isQueued = false
  count : s.waitingPharmacists = (s.queued.length : Int) - s.takers.length

theorem ledger_init : Ledger (init N M) where
  queued := List.nodup_nil
  takers := List.nodup_nil
  subset := List.Subset.refl _
  arriving := fun _ h => absurd h List.not_mem_nil
  waiting := fun _ h => absurd h Bool.false_ne_true
  gone := fun _ h => absurd h List.not_mem_nil
  count := rfl

/-- A step that moves pharmacists only where the books do not look. -/
theorem ledger_congr {s s' : State N M} (h : Ledger s) (hqueued : s'.queued = s.queued)
    (htakers : s'.takers = s.takers) (hcount : s'.waitingPharmacists = s.waitingPharmacists)
    (harriving : ∀ j, (s'.pharmacist j).isArriving = true → (s.pharmacist j).isArriving = true)
    (hwaiting : ∀ j, (s'.pharmacist j).isQueued = true → (s.pharmacist j).isQueued = true) :
    Ledger s' := by
  refine ⟨by rw [hqueued]; exact h.queued, by rw [htakers]; exact h.takers,
    by rw [htakers, hqueued]; exact h.subset, ?_, ?_, ?_, by
      rw [hcount, hqueued, htakers]; exact h.count⟩
  · intro j hj
    rw [hqueued] at hj
    rw [← Bool.not_eq_true]
    intro hback
    have hbefore := h.arriving j hj
    rw [harriving j hback] at hbefore
    exact Bool.noConfusion hbefore
  · intro j hj
    rw [hqueued]
    exact h.waiting j (hwaiting j hj)
  · intro j hj
    rw [htakers] at hj
    rw [← Bool.not_eq_true]
    intro hback
    have hbefore := h.gone j hj
    rw [hwaiting j hback] at hbefore
    exact Bool.noConfusion hbefore

section Pharmacist

variable {s : State N M} {j : Fin M}

theorem ledger_setPharmacist {pc : PharmacistPc} (h : Ledger s)
    (harriving : pc.isArriving = true → (s.pharmacist j).isArriving = true)
    (hwaiting : pc.isQueued = true → (s.pharmacist j).isQueued = true) :
    Ledger (s.setPharmacist j pc) := by
  have hmoved : ∀ (p : PharmacistPc → Bool), (p pc = true → p (s.pharmacist j) = true) →
      ∀ k, p ((s.setPharmacist j pc).pharmacist k) = true → p (s.pharmacist k) = true := by
    intro p hp k hk
    simp only [State.setPharmacist] at hk
    by_cases hkj : k = j
    · rw [hkj] at hk ⊢
      rw [Function.update_self] at hk
      exact hp hk
    · rwa [Function.update_of_ne hkj] at hk
  exact ledger_congr h rfl rfl rfl (hmoved _ harriving) (hmoved _ hwaiting)

theorem ledger_doneLoop (h : Ledger s) : Ledger (s.doneLoop j) := by
  have hleft : ∀ pc : PharmacistPc, pc.isArriving = false → pc.isQueued = false →
      Ledger (s.setPharmacist j pc) := by
    intro pc harriving hqueued
    refine ledger_setPharmacist h (fun hpc => ?_) (fun hpc => ?_)
    · rw [harriving] at hpc
      exact Bool.noConfusion hpc
    · rw [hqueued] at hpc
      exact Bool.noConfusion hpc
  unfold State.doneLoop
  split
  · exact hleft .waitDone rfl rfl
  · split
    · exact hleft .finished rfl rfl
    · exact ledger_congr (hleft .finished rfl rfl) rfl rfl rfl (fun _ hk => hk) (fun _ hk => hk)

/-- A pharmacist that takes a round comes off the queue. -/
theorem ledger_take (hpc : s.pharmacist j = .wokenQueue) (h : Ledger s) : Ledger (s.take j) := by
  have hmem : j ∈ s.queued := h.waiting j (by rw [hpc]; rfl)
  -- Who has taken a round is off the queue, and this one is still in it.
  have hnew : j ∉ s.takers := by
    intro htaken
    have hgone := h.gone j htaken
    rw [hpc] at hgone
    exact Bool.noConfusion hgone
  have hset : Ledger (s.setPharmacist j .wokenDone) :=
    ledger_setPharmacist h (fun hfalse => Bool.noConfusion hfalse)
      (fun hfalse => Bool.noConfusion hfalse)
  refine ⟨h.queued, List.nodup_cons.mpr ⟨hnew, h.takers⟩, List.cons_subset.mpr ⟨hmem, h.subset⟩,
    hset.arriving, hset.waiting, ?_, ?_⟩
  · intro k hk
    rcases List.mem_cons.mp hk with heq | hk'
    · have hself : (s.take j).pharmacist j = .wokenDone := Function.update_self ..
      rw [heq, hself]
      rfl
    · exact hset.gone k hk'
  · have hcount := h.count
    simp only [State.take, State.setPharmacist, List.length_cons]
    omega

theorem ledger_queueLoop (hpc : s.pharmacist j = .wokenQueue) (h : Ledger s) :
    Ledger (s.queueLoop j) := by
  unfold State.queueLoop
  split
  · exact ledger_setPharmacist h (fun hfalse => Bool.noConfusion hfalse)
      (fun _ => by rw [hpc]; rfl)
  · split
    · exact ledger_setPharmacist h (fun hfalse => Bool.noConfusion hfalse)
        (fun hfalse => Bool.noConfusion hfalse)
    · exact ledger_doneLoop (ledger_take hpc h)

/-- A pharmacist that queues had not queued before. -/
theorem ledger_enqueue (hpc : (s.pharmacist j).isArriving = true) (h : Ledger s) :
    Ledger (s.enqueue j) := by
  have hnew : j ∉ s.queued := by
    intro hmem
    have hpast := h.arriving j hmem
    rw [hpc] at hpast
    exact Bool.noConfusion hpast
  have hself : (s.enqueue j).pharmacist j = .wokenQueue := Function.update_self ..
  have hother : ∀ k, k ≠ j → (s.enqueue j).pharmacist k = s.pharmacist k :=
    fun k hkj => Function.update_of_ne hkj ..
  refine ⟨List.nodup_cons.mpr ⟨hnew, h.queued⟩, h.takers,
    fun k hk => List.mem_cons_of_mem _ (h.subset hk), ?_, ?_, ?_, ?_⟩
  · intro k hk
    by_cases hkj : k = j
    · rw [hkj, hself]
      rfl
    · rw [hother k hkj]
      exact h.arriving k ((List.mem_cons.mp hk).resolve_left hkj)
  · intro k hk
    by_cases hkj : k = j
    · rw [hkj]
      exact List.mem_cons_self
    · rw [hother k hkj] at hk
      exact List.mem_cons_of_mem _ (h.waiting k hk)
  · -- Who has taken a round had queued, and this one had not.
    intro k hk
    have hkj : k ≠ j := by
      rintro rfl
      exact hnew (h.subset hk)
    rw [hother k hkj]
    exact h.gone k hk
  · have hcount := h.count
    simp only [State.enqueue, State.signalDoctor, State.setPharmacist, List.length_cons]
    omega

theorem ledger_arrive (hpc : (s.pharmacist j).isArriving = true) (h : Ledger s) :
    Ledger (s.arrive j) := by
  have hset : ∀ pc : PharmacistPc, pc.isQueued = false → Ledger (s.setPharmacist j pc) := by
    intro pc hnot
    refine ledger_setPharmacist h (fun _ => hpc) (fun hqueued => ?_)
    rw [hnot] at hqueued
    exact Bool.noConfusion hqueued
  unfold State.arrive
  split
  · exact hset .waitNotFull rfl
  · split
    · exact hset .finished rfl
    · split
      · exact ledger_queueLoop (Function.update_self ..) (ledger_enqueue hpc h)
      · exact hset .finished rfl

end Pharmacist

/-- A patient that sits down leaves the books alone. -/
theorem enter_books (s : State N M) (p : Fin N) :
    (s.enter p).queued = s.queued ∧ (s.enter p).takers = s.takers ∧
    (s.enter p).waitingPharmacists = s.waitingPharmacists ∧
    (s.enter p).rounds = s.rounds ∧ (s.enter p).calls = s.calls := by
  unfold State.enter
  by_cases hthird : s.waitingPatients + 1 = 3
  · simp only [hthird, if_true, State.signalDoctor, State.calls, and_self]
  · simp only [hthird, if_false, State.calls, and_self]

theorem isArriving_of_arrival {pc : PharmacistPc} (h : pc = .travelling ∨ pc = .wokenNotFull) :
    pc.isArriving = true := by
  rcases h with h | h
  · rw [h]
    rfl
  · rw [h]
    rfl

/-- A signal moves a pharmacist only where the books do not look. -/
theorem ledger_signal {s t : State N M} {asleep woken : PharmacistPc} {chosen : Option (Fin M)}
    {pharmacist : Fin M → PharmacistPc} (h : Ledger s)
    (hsignal : signal asleep woken chosen s.pharmacist = some pharmacist)
    (harriving : woken.isArriving = asleep.isArriving) (hwaiting : woken.isQueued = asleep.isQueued)
    (hpharmacist : t.pharmacist = pharmacist) (hqueued : t.queued = s.queued)
    (htakers : t.takers = s.takers) (hcount : t.waitingPharmacists = s.waitingPharmacists) :
    Ledger t := by
  refine ledger_congr h hqueued htakers hcount (fun j hj => ?_) (fun j hj => ?_)
  · rw [hpharmacist] at hj
    rwa [signal_apply harriving hsignal j] at hj
  · rw [hpharmacist] at hj
    rwa [signal_apply hwaiting hsignal j] at hj

theorem ledger_doctor {s s' : State N M} (h : Ledger s) (hstretch : DoctorStretch s s') :
    Ledger s' := by
  cases hstretch with
  | exit hpc hall heq =>
      -- The broadcasts wake two kinds of sleepers, and the books see neither.
      have hplace : ∀ p : PharmacistPc → Bool, p .wokenQueue = p .waitQueue →
          p .wokenNotFull = p .waitNotFull → ∀ j, p (s.exit.pharmacist j) = p (s.pharmacist j) := by
        intro p hqueue hnotFull j
        exact (broadcast_apply hqueue j).trans (broadcast_apply hnotFull j)
      rw [heq]
      refine ledger_congr h rfl rfl rfl (fun j hj => ?_) (fun j hj => ?_)
      · rwa [hplace PharmacistPc.isArriving rfl rfl j] at hj
      · rwa [hplace PharmacistPc.isQueued rfl rfl j] at hj
  | consult hpc hleft hcan chosen pharmacist hsignal heq =>
      rw [heq]
      exact ledger_signal h hsignal rfl rfl rfl rfl rfl rfl
  | deliver hpc hleft hno hcan chosen pharmacist hsignal heq =>
      rw [heq]
      exact ledger_signal h hsignal rfl rfl rfl rfl rfl rfl
  | sleep hpc hleft hconsult hdeliver heq =>
      rw [heq]
      exact ledger_congr h rfl rfl rfl (fun _ hj => hj) (fun _ hj => hj)
  | endConsult ids hpc heq =>
      rw [heq]
      exact ledger_congr h rfl rfl rfl (fun _ hj => hj) (fun _ hj => hj)
  | endDelivery hpc chosen pharmacist hsignal heq =>
      rw [heq]
      exact ledger_signal h hsignal rfl rfl rfl rfl rfl rfl

theorem ledger_step {s s' : State N M} {e : Event N M} (h : Ledger s)
    (hstep : step s e = some s') : Ledger s' := by
  cases e with
  | doctor chosen => exact ledger_doctor h (doctorStep_cases hstep)
  | patient p =>
      cases patientStep_cases hstep with
      | roam hpc hfull heq =>
          rw [heq]
          exact h
      | enter hpc hroom heq =>
          rcases enter_fields s p with ⟨_, _, _, _, _, _, _, hpharmacist⟩
          rcases enter_books s p with ⟨hqueued, htakers, hcount, _, _⟩
          rw [heq]
          refine ledger_congr h hqueued htakers hcount (fun j hj => ?_) (fun j hj => ?_)
          · rwa [hpharmacist] at hj
          · rwa [hpharmacist] at hj
      | leave hpc heq =>
          rw [heq]
          exact ledger_congr h rfl rfl rfl (fun _ hj => hj) (fun _ hj => hj)
  | pharmacist j =>
      rcases pharmacistStep_cases hstep with ⟨hpc, heq⟩ | ⟨hpc, heq⟩ | ⟨_, heq⟩
      · rw [heq]
        exact ledger_arrive (isArriving_of_arrival hpc) h
      · rw [heq]
        exact ledger_queueLoop hpc h
      · rw [heq]
        exact ledger_doneLoop h

/-- What a pharmacist does to the two counts: it may queue, and it may answer
    the call that stands by taking the round. -/
structure Settles (s s' : State N M) : Prop where
  rounds : s'.rounds = s.rounds
  queued : s.queued.length ≤ s'.queued.length
  taken : s'.takers.length + s'.calls = s.takers.length + s.calls

section Settle

variable (s : State N M) (j : Fin M)

theorem settles_setPharmacist (pc : PharmacistPc) : Settles s (s.setPharmacist j pc) :=
  ⟨rfl, le_refl _, rfl⟩

theorem settles_doneLoop : Settles s (s.doneLoop j) := by
  unfold State.doneLoop
  split
  · exact settles_setPharmacist s j _
  · split
    · exact settles_setPharmacist s j _
    · exact ⟨rfl, le_refl _, rfl⟩

theorem settles_queueLoop : Settles s (s.queueLoop j) := by
  unfold State.queueLoop
  split
  · exact settles_setPharmacist s j _
  next hsleep =>
    split
    · exact settles_setPharmacist s j _
    next hdone =>
      -- The flag was set, and the one that takes the round takes it back.
      have hserved : s.pharmacistServed = true := by
        rw [← Bool.not_eq_false]
        exact fun hserved => hsleep ⟨hserved, Bool.eq_false_of_not_eq_true hdone⟩
      have hdoneLoop := settles_doneLoop (s.take j) j
      have hcalls : s.calls = 1 := by
        unfold State.calls
        rw [hserved]
        rfl
      have hlen : (s.take j).takers.length = s.takers.length + 1 := rfl
      have hcleared : (s.take j).calls = 0 := rfl
      refine ⟨hdoneLoop.rounds, hdoneLoop.queued, ?_⟩
      have htaken := hdoneLoop.taken
      omega

theorem settles_arrive : Settles s (s.arrive j) := by
  unfold State.arrive
  split
  · exact settles_setPharmacist s j _
  · split
    · exact settles_setPharmacist s j _
    · split
      · have hqueueLoop := settles_queueLoop (s.enqueue j) j
        have hlen : (s.enqueue j).queued.length = s.queued.length + 1 := rfl
        have hqueued := hqueueLoop.queued
        exact ⟨hqueueLoop.rounds, by omega, hqueueLoop.taken⟩
      · exact settles_setPharmacist s j _

end Settle

theorem settles_pharmacist {s s' : State N M} {j : Fin M} (h : pharmacistStep s j = some s') :
    Settles s s' := by
  rcases pharmacistStep_cases h with ⟨_, heq⟩ | ⟨_, heq⟩ | ⟨_, heq⟩
  · rw [heq]
    exact settles_arrive s j
  · rw [heq]
    exact settles_queueLoop s j
  · rw [heq]
    exact settles_doneLoop s j

/-- Rounds stay backed when no round is begun. -/
theorem backed_of_settles {s s' : State N M} (hledger : Ledger s') (h : Backed s)
    (hsettles : Settles s s') : Backed s' := by
  have hcounted := h.counted
  have htaken := h.taken
  have hqueued := hsettles.queued
  have hsame := hsettles.taken
  have hrounds := hsettles.rounds
  exact ⟨hledger.queued, by omega, hledger.takers, by omega⟩

/-- A round that is begun is backed exactly if no call stood before. The
    counter says that somebody has queued and not taken a round. -/
theorem backed_deliver_iff {s s' : State N M} (hledger : Ledger s) (hledger' : Ledger s')
    (h : Backed s) (hcan : s.canDeliver) (hrounds : s'.rounds = s.rounds + 1)
    (hqueued : s'.queued = s.queued) (htakers : s'.takers = s.takers) (hcalls : s'.calls = 1) :
    Backed s' ↔ s.pharmacistServed = false := by
  -- Somebody waits in the queue, so fewer have taken a round than have queued.
  have htaken := h.taken
  have hcount := hledger.count
  have hpos := hcan.1
  constructor
  · -- Two calls on one flag would have to be taken by one pharmacist.
    intro hbacked
    have htaken' := hbacked.taken
    rw [hrounds, htakers, hcalls] at htaken'
    have hcalls0 : s.calls = 0 := by omega
    unfold State.calls at hcalls0
    rw [← Bool.not_eq_true]
    intro hserved
    rw [hserved] at hcalls0
    exact absurd hcalls0 Nat.one_ne_zero
  · intro hserved
    have hcalls0 : s.calls = 0 := by
      unfold State.calls
      rw [hserved]
      rfl
    refine ⟨hledger'.queued, ?_, hledger'.takers, ?_⟩
    · rw [hrounds, hqueued]
      omega
    · rw [hrounds, htakers, hcalls]
      omega

theorem backed_doctor_iff {s s' : State N M} {chosen : Option (Fin M)} (hledger : Ledger s)
    (h : Backed s) (hstep : doctorStep s chosen = some s') :
    Backed s' ↔ Answered s (.doctor chosen) := by
  have hstretch := doctorStep_cases hstep
  have hledger' := ledger_doctor hledger hstretch
  -- All stretches but one begin no round, and meet the condition.
  have hquiet : Settles s s' → Answered s (.doctor chosen) →
      (Backed s' ↔ Answered s (.doctor chosen)) :=
    fun hsettles hanswered => iff_of_true (backed_of_settles hledger' h hsettles) hanswered
  cases hstretch with
  | exit hpc hall heq =>
      refine hquiet (by rw [heq]; exact ⟨rfl, le_refl _, rfl⟩) (fun _ hleft => ?_)
      omega
  | consult hpc hleft hcan chosen pharmacist hsignal heq =>
      exact hquiet (by rw [heq]; exact ⟨rfl, le_refl _, rfl⟩) (fun _ _ hno => absurd hcan hno)
  | deliver hpc hleft hno hcan chosen pharmacist hsignal heq =>
      have hiff : Backed s' ↔ s.pharmacistServed = false :=
        backed_deliver_iff hledger hledger' h hcan (by rw [heq]; rfl) (by rw [heq]; rfl)
          (by rw [heq]; rfl) (by rw [heq]; rfl)
      rw [hiff]
      exact ⟨fun hserved _ _ _ _ => hserved, fun hanswered => hanswered hpc hleft hno hcan⟩
  | sleep hpc hleft hconsult hdeliver heq =>
      exact hquiet (by rw [heq]; exact ⟨rfl, le_refl _, rfl⟩)
        (fun _ _ _ hcan => absurd hcan hdeliver)
  | endConsult ids hpc heq =>
      refine hquiet (by rw [heq]; exact ⟨rfl, le_refl _, rfl⟩) (fun hstart => ?_)
      rw [hpc] at hstart
      exact absurd hstart (by simp only [reduceCtorEq, or_self, not_false_eq_true])
  | endDelivery hpc chosen pharmacist hsignal heq =>
      refine hquiet (by rw [heq]; exact ⟨rfl, le_refl _, rfl⟩) (fun hstart => ?_)
      rw [hpc] at hstart
      exact absurd hstart (by simp only [reduceCtorEq, or_self, not_false_eq_true])

/-- A step keeps rounds backed exactly if it begins none on top of a call. -/
theorem backed_step_iff {s s' : State N M} {e : Event N M} (hledger : Ledger s) (h : Backed s)
    (hstep : step s e = some s') : Backed s' ↔ Answered s e := by
  have hledger' := ledger_step hledger hstep
  cases e with
  | doctor chosen => exact backed_doctor_iff hledger h hstep
  | patient p =>
      refine iff_of_true (backed_of_settles hledger' h ?_) trivial
      cases patientStep_cases hstep with
      | roam hpc hfull heq =>
          rw [heq]
          exact ⟨rfl, le_refl _, rfl⟩
      | enter hpc hroom heq =>
          rcases enter_books s p with ⟨hqueued, htakers, _, hrounds, hcalls⟩
          rw [heq]
          exact ⟨hrounds, by rw [hqueued], by rw [htakers, hcalls]⟩
      | leave hpc heq =>
          rw [heq]
          exact ⟨rfl, le_refl _, rfl⟩
  | pharmacist j =>
      exact iff_of_true (backed_of_settles hledger' h (settles_pharmacist hstep)) trivial

theorem backed_init : Backed (init N M) where
  queued := List.nodup_nil
  counted := le_refl _
  takers := List.nodup_nil
  taken := rfl

/-- In every run, each delivery round has a pharmacist of its own in every
    state exactly if no delivery is begun while the call of the one before
    has not been answered. -/
theorem rounds_backed_iff (es : List (Event N M)) (t : State N M)
    (hrun : exec step (init N M) es = some t) :
    Always step Backed (init N M) es ↔ Meets step Answered (init N M) es :=
  always_iff_meets (fun _ _ _ hs hstep => ledger_step hs hstep)
    (fun _ _ _ hs hP hstep => backed_step_iff hs hP hstep) ledger_init backed_init hrun

/-- Two groups are consulted, a pharmacist queues and is called, but has not
    got the mutex when a third group is consulted and the doctor sees it in
    the queue again. -/
def slowRun : List (Event 12 4) :=
  [.patient 0, .patient 1, .patient 2, .doctor none, .doctor none,
    .patient 3, .patient 4, .patient 5, .doctor none, .doctor none,
    .pharmacist 0, .doctor (some 0), .doctor none,
    .patient 6, .patient 7, .patient 8, .doctor none, .doctor none, .doctor none]

/-- Up to the first delivery everything is in order. -/
theorem rounds_backed_before_second :
    Always step Backed (init 12 4) (slowRun.take 13) := by
  have hend : (exec step (init 12 4) (slowRun.take 13)).isSome = true := by decide +kernel
  rcases Option.isSome_iff_exists.mp hend with ⟨t, hrun⟩
  exact (rounds_backed_iff (slowRun.take 13) t hrun).mpr (by decide +kernel)

/-- Two rounds are begun, and one pharmacist has queued. -/
theorem round_without_pharmacist :
    ¬ ∀ (N M : Nat) (s : State N M), Reaches step (init N M) s → s.rounds ≤ s.queued.length := by
  intro hall
  have hend : (exec step (init 12 4) slowRun).any (fun s =>
      decide (s.rounds = 2 ∧ s.queued = [0])) = true := by
    decide +kernel
  rcases exists_of_exec_any hend with ⟨s, hrun, hs⟩
  rcases of_decide_eq_true hs with ⟨hrounds, hqueued⟩
  have hle := hall 12 4 s ⟨slowRun, hrun⟩
  rw [hrounds, hqueued] at hle
  exact absurd hle (by decide)

end Hospital

end OsLabs
