import OsLabs.Signals.Catcher

/-!
# One Sender and the Catcher

Whether a sender that is blocked in `pause` is woken. There is one sender, and
it is given values from 1 to 4, so that the catcher does not exit.

The sender counts as many signals sent as it has received answers and has
signals under way. So it may pause only as long as the answer is outstanding,
and the answer does not wait for the `pause`: it comes when the catcher has
handled the signal, and the sender may be no further than its `printf` then.
What comes before the `pause` does not end it. Nothing else does, and the
sender is blocked for good.

## Main definitions

* `Woken`: A blocked sender has something to wait for.
* `Ordinary`: The values from 1 to 4, and what `scanf` reads besides.
* `Unanswered`: The sender pauses before the answer.
* `Settled`: One sender and a catcher that does not exit.

## Theorems

* `settled_step`: It stays this way.
* `paused_forever`: What is not woken is blocked for good.
* `woken_iff`: When a blocked sender has something to wait for.
-/

namespace OsLabs

namespace Signals

section Blocked

variable {ι : Type} [DecidableEq ι]

/-- If the sender is blocked in `pause`, its signal is pending at the catcher,
    or in the handler there, or the answer is pending. -/
def Woken (s : State ι) (i : ι) : Prop :=
  (s.senders i).pc = .paused →
    s.catcher.holds i = true ∨ s.catcher.handler.serves i = true ∨ (s.senders i).answer = true

/-- Nothing of the sender's is under way. -/
theorem outstanding_eq_zero_iff (s : State ι) (i : ι) :
    s.outstanding i = 0 ↔ s.catcher.holds i = false ∧ s.catcher.handler.serves i = false ∧
      (s.senders i).answer = false := by
  unfold State.outstanding
  cases s.catcher.holds i <;> cases s.catcher.handler.serves i <;>
    cases (s.senders i).answer <;> simp

theorem woken_iff_outstanding (s : State ι) (i : ι) :
    Woken s i ↔ ((s.senders i).pc = .paused → s.outstanding i ≠ 0) := by
  refine imp_congr_right fun _ => ?_
  rw [Ne, outstanding_eq_zero_iff]
  cases s.catcher.holds i <;> cases s.catcher.handler.serves i <;>
    cases (s.senders i).answer <;> simp

omit [DecidableEq ι] in
/-- Senders at different places are different senders. -/
theorem ne_of_pc {s : State ι} {i j : ι} {pc pc' : SenderPc} (hi : (s.senders i).pc = pc)
    (hj : (s.senders j).pc = pc') (hne : pc ≠ pc') : i ≠ j := by
  rintro rfl
  exact hne (hi.symm.trans hj)

/-- What another sender does does not concern a sender that is blocked. -/
theorem paused_setPc {s : State ι} {i j : ι} {pc pc' : SenderPc}
    (hpaused : (s.senders i).pc = .paused) (hnone : s.outstanding i = 0)
    (hj : (s.senders j).pc = pc') (hne : SenderPc.paused ≠ pc') :
    ((s.setPc j pc).senders i).pc = .paused ∧ (s.setPc j pc).outstanding i = 0 := by
  have hij := ne_of_pc hpaused hj hne
  rw [outstanding_setPc, State.setPc, senders_setSender_of_ne s _ hij]
  exact ⟨hpaused, hnone⟩

/-- A sender that waits for nothing, and still waits after any step. -/
theorem paused_step {s s' : State ι} {e : Event ι} {i : ι} (h : Engaged s)
    (hpaused : (s.senders i).pc = .paused) (hnone : s.outstanding i = 0)
    (hstep : step s e = some s') : (s'.senders i).pc = .paused ∧ s'.outstanding i = 0 := by
  -- By the step: only one of its own, or an answer to it, could wake the sender.
  cases step_move hstep with
  | type j val hpc =>
      exact paused_setPc hpaused hnone hpc (by simp only [ne_eq, reduceCtorEq, not_false_eq_true])
  | eof j hpc =>
      exact paused_setPc hpaused hnone hpc (by simp only [ne_eq, reduceCtorEq, not_false_eq_true])
  -- A sender that sends is not paused, so this is another.
  | queue j val hpc =>
      have hij := ne_of_pc hpaused hpc (by simp only [ne_eq, reduceCtorEq, not_false_eq_true])
      rw [outstanding_queue, if_neg (fun hall => hij hall.1), senders_setSender_of_ne _ _ hij,
        senders_sigqueue]
      exact ⟨hpaused, hnone⟩
  | print j hpc =>
      exact paused_setPc hpaused hnone hpc (by simp only [ne_eq, reduceCtorEq, not_false_eq_true])
  | pause j hpc =>
      exact paused_setPc hpaused hnone hpc (by simp only [ne_eq, reduceCtorEq, not_false_eq_true])
  -- No answer is pending for this one.
  | receive j hanswer hpc =>
      have hij : i ≠ j := fun heq => by
        rw [← heq, ((outstanding_eq_zero_iff s i).mp hnone).2.2] at hanswer
        cases hanswer
      rw [outstanding_setSender, if_neg hij, senders_setSender_of_ne s _ hij]
      exact ⟨hpaused, hnone⟩
  | deliver j val hlife hidle hpending =>
      rw [outstanding_deliver hidle hpending]
      exact ⟨hpaused, hnone⟩
  -- A 5 leaves the answers only, and there is none; otherwise nothing changes.
  | act j val hcalled =>
      rw [outstanding_act hcalled]
      refine ⟨hpaused, ?_⟩
      split
      · rw [((outstanding_eq_zero_iff s i).mp hnone).2.2]
        rfl
      · exact hnone
  | answer j val hanswering =>
      rw [outstanding_answer h hanswering, pc_kill]
      exact ⟨hpaused, hnone⟩
  | reap hlife => exact ⟨hpaused, hnone⟩

/-- A sender that waits for nothing is blocked for good. -/
theorem paused_forever {s t : State ι} {es : List (Event ι)} {i : ι} (h : Engaged s)
    (hpaused : (s.senders i).pc = .paused) (hnone : s.outstanding i = 0)
    (hrun : Machine.exec step s es = some t) : (t.senders i).pc = .paused := by
  have hinv : Engaged t ∧ (t.senders i).pc = .paused ∧ t.outstanding i = 0 :=
    Machine.exec_invariant
      (I := fun s : State ι => Engaged s ∧ (s.senders i).pc = .paused ∧ s.outstanding i = 0)
      (fun s e s' hs hstep =>
        ⟨engaged_step hs.1 hstep, paused_step hs.1 hs.2.1 hs.2.2 hstep⟩)
      ⟨h, hpaused, hnone⟩ hrun
  exact hinv.2.1

end Blocked

section OneSender

/-- What the sender is given: not a 5. -/
def Ordinary : Event Unit → Prop
  | .type _ val => val ≠ 5
  | _ => True

/-- The sender pauses while one signal more has been sent than answers have
    been received. -/
def Unanswered (s : State Unit) (e : Event Unit) : Prop :=
  match e with
  | .pause i => (s.senders i).received + 1 = (s.senders i).queued
  | _ => True

/-- One sender and a catcher that does not exit: nothing is lost. -/
structure Settled (s : State Unit) : Prop where
  engaged : Engaged s
  running : s.catcher.life = .running
  unsent : (s.senders ()).pc ≠ .sending 5
  pending : s.catcher.pending ≠ some ((), 5)
  called : s.catcher.handler ≠ .called () 5
  counts : (s.senders ()).queued = (s.senders ()).received + s.outstanding ()

theorem settled_start : Settled (State.start : State Unit) where
  engaged := engaged_start
  running := rfl
  unsent := by
    intro h
    cases h
  pending := by
    intro h
    cases h
  called := by
    intro h
    cases h
  counts := rfl

/-- What is pending for the catcher is the sender's. -/
theorem pending_eq_none {s : State Unit} (h : s.outstanding () = 0) : s.catcher.pending = none := by
  have hholds := ((outstanding_eq_zero_iff s ()).mp h).1
  cases hpending : s.catcher.pending with
  | none => rfl
  | some p =>
      rw [Catcher.holds, hpending, Option.any_some] at hholds
      exact absurd hholds (by simp only [decide_true, Bool.true_eq_false, not_false_eq_true])

/-- A step of the sender that sends nothing. -/
theorem settled_setPc {s : State Unit} {pc : SenderPc} (h : Settled s)
    (hroom : (s.senders ()).pc.room ≤ pc.room) (hpc : pc ≠ .sending 5) :
    Settled (s.setPc () pc) where
  engaged := engaged_setPc h.engaged hroom
  running := h.running
  unsent := by
    rw [State.setPc, senders_setSender_self]
    exact hpc
  pending := h.pending
  called := h.called
  counts := by
    rw [outstanding_setPc, State.setPc, senders_setSender_self]
    exact h.counts

/-- Sending: nothing is under way, so nothing is dropped. -/
theorem settled_queue {s : State Unit} {val : Int} (h : Settled s)
    (hpc : (s.senders ()).pc = .sending val) :
    Settled ((sigqueue s () val).setSender ()
      { s.senders () with pc := .printing, queued := (s.senders ()).queued + 1 }) := by
  have hzero := h.engaged.outstanding_eq_zero (i := ()) (by rw [hpc]; rfl)
  have hempty := pending_eq_none hzero
  -- The catcher is running and has nothing pending, so the signal is accepted.
  have hqueue : sigqueue s () val = { s with
      catcher := { s.catcher with pending := some ((), val) }
      accepted := s.accepted ++ [((), val)] } := by
    rw [sigqueue, h.running]
    simp only [hempty, Option.none_or]
  refine ⟨engaged_queue h.engaged hpc, ?_, ?_, ?_, ?_, ?_⟩
  · rw [catcher_setSender, hqueue]
    exact h.running
  · rw [senders_setSender_self]
    exact fun heq => by cases heq
  · rw [catcher_setSender, hqueue]
    intro heq
    have hval := (Prod.mk.inj (Option.some.inj heq)).2
    rw [hval] at hpc
    exact h.unsent hpc
  · rw [catcher_setSender, hqueue]
    exact h.called
  · rw [outstanding_queue, if_pos ⟨rfl, h.running, hempty⟩, senders_setSender_self, h.counts]
    rfl

/-- Receiving: one signal fewer is under way, and one more is answered. -/
theorem settled_receive {s : State Unit} {pc : SenderPc} (h : Settled s)
    (hanswer : (s.senders ()).answer = true) (hpc : pc ≠ .sending 5) :
    Settled (s.setSender () ⟨pc, false, (s.senders ()).queued, (s.senders ()).received + 1⟩) := by
  refine ⟨engaged_receive h.engaged hanswer _ _, h.running, ?_, h.pending, h.called, ?_⟩
  · rw [senders_setSender_self]
    exact hpc
  · have hone := outstanding_receive s ((s.senders ()).received + 1) pc hanswer ()
    rw [if_pos rfl] at hone
    rw [senders_setSender_self, h.counts, ← hone]
    exact Nat.add_right_comm _ _ 1

/-- What the handler is called with is not a 5. -/
theorem Settled.ne_five {s : State Unit} (h : Settled s) {val : Int}
    (hcalled : s.catcher.handler = .called () val) : val ≠ 5 := by
  intro heq
  rw [heq] at hcalled
  exact h.called hcalled

/-- Acting on a signal: the catcher does not exit. -/
theorem settled_act {s : State Unit} {val : Int} (h : Settled s)
    (hcalled : s.catcher.handler = .called () val) :
    Settled { s with catcher := sigHandler s.catcher () val } := by
  have h5 := h.ne_five hcalled
  rcases sigHandler_cases s.catcher () val with ⟨heq, _⟩ | ⟨_, hlife, hanswering, hsame⟩
  · exact absurd heq h5
  · refine ⟨engaged_act h.engaged hcalled, hlife.trans h.running, h.unsent, ?_, ?_, ?_⟩
    · exact hsame ▸ h.pending
    · intro heq
      exact absurd (hanswering.symm.trans heq) (by simp only [reduceCtorEq, not_false_eq_true])
    · rw [outstanding_act hcalled, if_neg h5]
      exact h.counts

/-- Answering: the answer gets through. -/
theorem settled_answer {s : State Unit} {val : Int} (h : Settled s)
    (hanswering : s.catcher.handler = .answering () val)
    (hengaged : Engaged
      { kill s () val with catcher := { s.catcher with handler := .idle } }) :
    Settled { kill s () val with catcher := { s.catcher with handler := .idle } } := by
  have hsender : (kill s () val).senders () = { s.senders () with answer := true } := by
    rw [h.engaged.kill_eq hanswering]
    exact senders_setSender_self s () _
  refine ⟨hengaged, h.running, ?_, h.pending, ?_, ?_⟩
  · exact fun heq => h.unsent (by rw [hsender] at heq; exact heq)
  · intro heq
    cases heq
  · rw [outstanding_answer h.engaged hanswering, hsender]
    exact h.counts

theorem settled_step {s s' : State Unit} {e : Event Unit} (h : Settled s) (he : Ordinary e)
    (hstep : step s e = some s') : Settled s' := by
  have hengaged := engaged_step h.engaged hstep
  -- By the step; no 5 is sent, so the catcher goes on.
  cases step_move hstep with
  | type i val hpc =>
      refine settled_setPc h ?_ ?_
      -- The counts change when a signal is queued and when its answer is received only.
      · rw [hpc]
        exact Nat.zero_le _
      · split
        · exact by decide
        · exact fun heq => he (SenderPc.sending.inj heq)
  | eof i hpc =>
      refine settled_setPc h ?_ (by decide)
      rw [hpc]
      exact Nat.zero_le _
  | queue i val hpc => exact settled_queue h hpc
  | print i hpc =>
      refine settled_setPc h ?_ (by decide)
      rw [hpc]
      exact Nat.le_refl _
  | pause i hpc =>
      refine settled_setPc h ?_ (by decide)
      rw [hpc]
      exact Nat.le_refl _
  | receive i hanswer hpc =>
      refine settled_receive h hanswer ?_
      split
      · exact SenderPc.noConfusion
      · exact h.unsent
  -- The signal moves from pending to the handler.
  | deliver i val hlife hidle hpending =>
      refine ⟨hengaged, h.running, h.unsent, ?_, ?_, ?_⟩
      · intro heq
        cases heq
      · intro heq
        rw [(Handler.called.inj heq).2] at hpending
        exact h.pending hpending
      · rw [outstanding_deliver hidle hpending]
        exact h.counts
  | act i val hcalled => exact settled_act h hcalled
  | answer i val hanswering => exact settled_answer h hanswering hengaged
  | reap hlife =>
      rw [h.running] at hlife
      cases hlife

/-- A sender that is not in its `pause` needs no waking. -/
theorem woken_setPc {s : State Unit} {pc : SenderPc} (hpc : pc ≠ .paused) :
    ((s.setPc () pc).senders ()).pc = .paused → (s.setPc () pc).outstanding () ≠ 0 := by
  rw [State.setPc, senders_setSender_self]
  exact fun hpaused => absurd hpaused hpc

/-- A pause is followed by a state in which nothing wakes the sender, exactly
    if the answer has come before it. -/
theorem woken_step_iff {s s' : State Unit} {e : Event Unit} (h : Settled s) (he : Ordinary e)
    (hwoken : Woken s ()) (hstep : step s e = some s') : Woken s' () ↔ Unanswered s e := by
  rw [woken_iff_outstanding] at hwoken ⊢
  -- Only a pause can leave the sender with nobody to wake it.
  cases step_move hstep with
  | type i val hpc =>
      refine iff_of_true (woken_setPc ?_) trivial
      split
      · exact SenderPc.noConfusion
      · exact SenderPc.noConfusion
  | eof i hpc => exact iff_of_true (woken_setPc SenderPc.noConfusion) trivial
  | queue i val hpc =>
      refine iff_of_true (fun hpaused => ?_) trivial
      rw [senders_setSender_self] at hpaused
      cases hpaused
  | print i hpc => exact iff_of_true (woken_setPc SenderPc.noConfusion) trivial
  | pause i hpc =>
      -- One signal at most is under way, and the counts tell whether it is.
      have hle := h.engaged.outstanding ()
      have hroom := SenderPc.room_le_one (s.senders ()).pc
      have hcounts := h.counts
      rw [State.setPc, senders_setSender_self, ← State.setPc, outstanding_setPc]
      change _ ↔ (s.senders ()).received + 1 = (s.senders ()).queued
      constructor
      · intro hne
        have hpos := hne rfl
        omega
      · intro hone _
        omega
  -- The answer wakes the sender.
  | receive i hanswer hpc =>
      refine iff_of_true (fun hpaused => ?_) trivial
      rw [senders_setSender_self] at hpaused
      simp only at hpaused
      split at hpaused
      · cases hpaused
      · rename_i hnot
        exact absurd hpaused hnot
  | deliver i val hlife hidle hpending =>
      rw [outstanding_deliver hidle hpending]
      exact iff_of_true hwoken trivial
  | act i val hcalled =>
      rw [outstanding_act hcalled, if_neg (h.ne_five hcalled)]
      exact iff_of_true hwoken trivial
  | answer i val hanswering =>
      rw [outstanding_answer h.engaged hanswering, pc_kill]
      exact iff_of_true hwoken trivial
  | reap hlife => exact iff_of_true hwoken trivial

/-- In a run on values from 1 to 4 a blocked sender always has something to
    wait for, exactly if it always pauses before it has its answer. -/
theorem woken_iff {es : List (Event Unit)} {t : State Unit} (hvalues : ∀ e ∈ es, Ordinary e)
    (hrun : Machine.exec step State.start es = some t) :
    Machine.Always step (fun s => Woken s ()) State.start es ↔
      Machine.Meets step Unanswered State.start es :=
  Machine.always_iff_meets_on (I := Settled) (fun _ _ _ he h hstep => settled_step h he hstep)
    (fun _ _ _ he h hwoken hstep => woken_step_iff h he hwoken hstep) hvalues settled_start
    (fun hpaused => by cases hpaused) hrun

/-- The sender is answered in time, and answered while it prints. -/
def answeredInTime : List (Event Unit) :=
  [.type () 1, .queue (), .print (), .pause (), .deliver, .act, .answer, .receive ()]

def answeredEarly : List (Event Unit) :=
  [.type () 1, .queue (), .deliver, .act, .answer, .receive (), .print (), .pause ()]

instance (e : Event Unit) : Decidable (Ordinary e) :=
  match e with
  | .type _ val => inferInstanceAs (Decidable (val ≠ 5))
  | .eof _ => isTrue trivial
  | .queue _ => isTrue trivial
  | .print _ => isTrue trivial
  | .pause _ => isTrue trivial
  | .receive _ => isTrue trivial
  | .deliver => isTrue trivial
  | .act => isTrue trivial
  | .answer => isTrue trivial
  | .reap => isTrue trivial

instance (s : State Unit) (e : Event Unit) : Decidable (Unanswered s e) :=
  match e with
  | .pause i => inferInstanceAs (Decidable ((s.senders i).received + 1 = (s.senders i).queued))
  | .type _ _ => isTrue trivial
  | .eof _ => isTrue trivial
  | .queue _ => isTrue trivial
  | .print _ => isTrue trivial
  | .receive _ => isTrue trivial
  | .deliver => isTrue trivial
  | .act => isTrue trivial
  | .answer => isTrue trivial
  | .reap => isTrue trivial

/-- A sender that is answered in its `pause` reads on. -/
theorem woken_in_time :
    Machine.Always step (fun s => Woken s ()) State.start answeredInTime := by
  have hend : (Machine.exec step (State.start : State Unit) answeredInTime).any
      (fun t => decide ((t.senders ()).pc = .reading)) = true := by decide
  rcases Machine.exists_of_exec_any hend with ⟨t, hrun, _⟩
  have hvalues : ∀ e ∈ answeredInTime, Ordinary e := by decide
  exact (woken_iff hvalues hrun).mpr (by decide)

/-- A sender that is answered while it prints is blocked, and nothing is under
    way. -/
theorem lost_wake_up : ∃ t, Machine.exec step (State.start : State Unit) answeredEarly = some t ∧
    (∀ e ∈ answeredEarly, Ordinary e) ∧ ¬ Woken t () := by
  have hend : (Machine.exec step (State.start : State Unit) answeredEarly).any
      (fun t => decide ((t.senders ()).pc = .paused ∧ t.outstanding () = 0)) = true := by decide
  rcases Machine.exists_of_exec_any hend with ⟨t, hrun, hblocked⟩
  have hfacts := of_decide_eq_true hblocked
  refine ⟨t, hrun, by decide, ?_⟩
  rw [woken_iff_outstanding]
  exact fun hwoken => hwoken hfacts.1 hfacts.2

end OneSender

end Signals

end OsLabs
