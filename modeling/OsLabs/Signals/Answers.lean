import OsLabs.Signals.Catcher

/-!
# Several Senders and the Catcher

Whether every value is handled and answered. What the catcher owes is the
value that is pending for it, unless it is about to exit, or has; and what it
has been called with it still has to answer. Left alone it comes to rest, and
has then handled and answered what it owed. So the account of a state tells
what will come of the values accepted so far, and only `sigqueue` can upset
it: by sending a value when another one is pending, or when the catcher is on
its way out.

## Main definitions

* `ordinary`, `wanted`: The values from 1 to 4.
* `Handler.isExiting`, `Handler.current`, `Catcher.owed`: What the catcher has
  still to do.
* `Served`: The account of a state.
* `Event.isCatchers`, `Quiet`, `rank`: The catcher left alone.
* `Completes`: It handles and answers all it has been sent.
* `Unhurried`: Sending to a catcher that has nothing pending.

## Theorems

* `served_catchers_iff`: The steps of the catcher do not change the account.
* `exists_quiet`: The catcher comes to rest.
* `completes_iff_served`: Whether it will be done is in the account.
* `served_step_iff`: The step that upsets it.
* `completes_iff`: When every value is handled and answered.
-/

namespace OsLabs

namespace Signals

variable {ι : Type}

/-- The value is from 1 to 4. -/
def ordinary (p : ι × Int) : Bool := decide (1 ≤ p.2 ∧ p.2 ≤ 4)

/-- The values from 1 to 4 among those logged. -/
def wanted (l : List (ι × Int)) : List (ι × Int) := l.filter ordinary

/-- The handler has been called with a 5. -/
def Handler.isExiting : Handler ι → Bool
  | .called _ val => decide (val = 5)
  | _ => false

/-- What the handler has been called with. -/
def Handler.current : Handler ι → List (ι × Int)
  | .idle => []
  | .called i val => [(i, val)]
  | .answering i val => [(i, val)]

/-- What the handler will still be called with. -/
def Catcher.owed (c : Catcher ι) : List (ι × Int) :=
  if c.handler.isExiting then [] else c.pending.toList

/-- Every value that was accepted has been handled or is owed, and every value
    that was handled has been answered or will be. -/
structure Served (s : State ι) : Prop where
  handled : wanted s.accepted = wanted s.handled ++ wanted s.catcher.owed
  answered : wanted s.handled = wanted s.answered ++ wanted s.catcher.handler.current

/-- The steps of the catcher. -/
def Event.isCatchers : Event ι → Bool
  | .deliver => true
  | .act => true
  | .answer => true
  | _ => false

/-- The catcher has exited or waits for a signal. -/
def Quiet (s : State ι) : Prop :=
  s.catcher.handler = .idle ∧ s.catcher.pending = none

/-- How many steps the catcher can take at most. -/
def rank (s : State ι) : Nat :=
  (if s.catcher.pending.isSome then 3 else 0) +
    match s.catcher.handler with
    | .idle => 0
    | .called _ _ => 2
    | .answering _ _ => 1

theorem wanted_append (l m : List (ι × Int)) : wanted (l ++ m) = wanted l ++ wanted m :=
  List.filter_append l m

theorem wanted_nil : wanted ([] : List (ι × Int)) = [] := rfl

theorem wanted_singleton (p : ι × Int) :
    wanted [p] = if ordinary p = true then [p] else [] := by
  unfold wanted
  by_cases hp : ordinary p = true
  · rw [if_pos hp, List.filter_cons_of_pos hp, List.filter_nil]
  · rw [if_neg hp, List.filter_cons_of_neg hp, List.filter_nil]

theorem served_iff (s : State ι) :
    Served s ↔ wanted s.accepted = wanted s.handled ++ wanted s.catcher.owed ∧
      wanted s.handled = wanted s.answered ++ wanted s.catcher.handler.current :=
  ⟨fun h => ⟨h.handled, h.answered⟩, fun h => ⟨h.1, h.2⟩⟩

/-- A catcher at rest owes nothing. -/
theorem served_of_quiet_iff {s : State ι} (h : Quiet s) :
    Served s ↔ wanted s.handled = wanted s.accepted ∧ wanted s.answered = wanted s.accepted := by
  rw [served_iff, Catcher.owed, h.1, h.2, Handler.current]
  constructor
  · rintro ⟨hhandled, hanswered⟩
    rw [wanted_nil, List.append_nil] at hanswered
    exact ⟨by rw [hhandled]; exact (List.append_nil _).symm, by
      rw [hhandled, ← hanswered]; exact (List.append_nil _).symm⟩
  · rintro ⟨hhandled, hanswered⟩
    rw [wanted_nil, List.append_nil]
    exact ⟨by rw [hhandled]; exact (List.append_nil _).symm, by rw [hhandled, hanswered]⟩

variable [DecidableEq ι]

theorem accepted_catchers {s s' : State ι} {e : Event ι} (he : e.isCatchers = true)
    (hstep : step s e = some s') : s'.accepted = s.accepted := by
  cases step_move hstep with
  | deliver i val _ _ _ => rfl
  | act i val _ => rfl
  | answer i val _ =>
      simp only [kill]
      split <;> rfl
  | _ => cases he

/-- Left alone the catcher comes to rest with every value from 1 to 4 handled
    and answered, in the order in which they were accepted, and once each. -/
def Completes (s : State ι) : Prop :=
  ∃ ds t, (∀ d ∈ ds, Event.isCatchers d = true) ∧ Machine.exec step s ds = some t ∧ Quiet t ∧
    wanted t.handled = wanted s.accepted ∧ wanted t.answered = wanted s.accepted

/-- The steps of the catcher do not change the account. -/
theorem served_catchers_iff {s s' : State ι} {e : Event ι} (h : Engaged s)
    (he : e.isCatchers = true) (hstep : step s e = some s') : Served s' ↔ Served s := by
  rw [served_iff, served_iff]
  -- By the step of the catcher: what is owed and what is in the handler add up to the same.
  cases step_move hstep with
  | deliver i val hlife hidle hpending =>
      -- What was owed is in the handler now.
      have howed : s.catcher.owed = [(i, val)] := by
        rw [Catcher.owed, hidle, hpending]
        rfl
      have howed' :
          Catcher.owed { s.catcher with pending := none, handler := .called i val } = [] := by
        unfold Catcher.owed
        split <;> rfl
      refine and_congr ?_ ?_
      · rw [howed, howed', wanted_append, wanted_nil, List.append_nil]
      · rw [hidle, wanted_append]
        exact List.append_left_inj _ |>.trans (by rw [Handler.current, wanted_nil, List.append_nil])
  | act i val hcalled =>
      rcases sigHandler_cases s.catcher i val with
        ⟨rfl, _, hidle, hnone⟩ | ⟨h5, _, hanswering, hsame⟩
      · -- A 5 is not among the values that are wanted.
        refine and_congr ?_ ?_
        · rw [Catcher.owed, Catcher.owed, hidle, hnone, hcalled]
          rfl
        · rw [hidle, hcalled]
          rfl
      · refine and_congr ?_ ?_
        · rw [Catcher.owed, Catcher.owed, hanswering, hsame, hcalled, Handler.isExiting,
            decide_eq_false h5]
          rfl
        · rw [hanswering, hcalled]
          rfl
  -- What the handler had is what has been answered.
  | answer i val hanswering =>
      rw [h.kill_eq hanswering]
      refine and_congr ?_ ?_
      · rw [Catcher.owed, Catcher.owed, hanswering]
        rfl
      · simp only [hanswering, Handler.current, wanted_append, wanted_nil, List.append_nil]
        rfl
  | _ => cases he

/-- A catcher that is not at rest takes a step, and has less to do then. -/
theorem exists_catchers_step {s : State ι} (h : Engaged s) (hbusy : ¬ Quiet s) :
    ∃ e s', e.isCatchers = true ∧ step s e = some s' ∧ rank s' < rank s := by
  -- By the handler: it is called, it acts, and it answers.
  cases hhandler : s.catcher.handler with
  | idle =>
      cases hpending : s.catcher.pending with
      | none => exact absurd ⟨hhandler, hpending⟩ hbusy
      | some p =>
          have hlife : s.catcher.life = .running := by
            by_contra hexited
            have hnone := (h.exited hexited).2
            rw [hpending] at hnone
            cases hnone
          refine ⟨.deliver, _, rfl, by simp only [step, hlife, hhandler, hpending]; rfl, ?_⟩
          simp only [rank, hpending, hhandler, Option.isSome_some, Option.isSome_none, if_true,
            Bool.false_eq_true, if_false]
          omega
  | called i val =>
      refine ⟨.act, { s with catcher := sigHandler s.catcher i val }, rfl, by
        simp only [step, hhandler], ?_⟩
      -- A 5 ends the catcher here, any other value is answered next.
      rcases sigHandler_cases s.catcher i val with
        ⟨_, _, hidle, hnone⟩ | ⟨_, _, hanswering, hsame⟩
      · simp only [rank, hidle, hnone, hhandler, Option.isSome_none, Bool.false_eq_true, if_false]
        omega
      · simp only [rank, hanswering, hsame, hhandler]
        omega
  | answering i val =>
      refine ⟨.answer, _, rfl, by simp only [step, hhandler]; rfl, ?_⟩
      simp only [rank, hhandler]
      omega

/-- The catcher comes to rest. -/
theorem exists_quiet {s : State ι} (h : Engaged s) :
    ∃ ds t, (∀ d ∈ ds, Event.isCatchers d = true) ∧ Machine.exec step s ds = some t ∧ Quiet t := by
  induction hn : rank s using Nat.strongRecOn generalizing s with
  | ind n ih =>
      by_cases hquiet : Quiet s
      · exact ⟨[], s, fun d hd => absurd hd List.not_mem_nil, rfl, hquiet⟩
      · rcases exists_catchers_step h hquiet with ⟨e, s', he, hstep, hlt⟩
        rcases ih (rank s') (hn ▸ hlt) (engaged_step h hstep) rfl with ⟨ds, t, hds, hrun, hrest⟩
        exact ⟨e :: ds, t, List.forall_mem_cons.mpr ⟨he, hds⟩,
          Machine.exec_cons.mpr ⟨s', hstep, hrun⟩, hrest⟩

/-- Left alone the catcher accepts nothing, and its account stays as it is. -/
theorem served_catchers_run {s t : State ι} {ds : List (Event ι)} (h : Engaged s)
    (hds : ∀ d ∈ ds, Event.isCatchers d = true) (hrun : Machine.exec step s ds = some t) :
    t.accepted = s.accepted ∧ (Served t ↔ Served s) := by
  induction ds generalizing s with
  | nil =>
      rw [Machine.exec, Option.some.injEq] at hrun
      rw [hrun]
      exact ⟨rfl, Iff.rfl⟩
  | cons d ds ih =>
      rcases Machine.exec_cons.mp hrun with ⟨s', hstep, hrest⟩
      rw [List.forall_mem_cons] at hds
      have hlater := ih (engaged_step h hstep) hds.2 hrest
      exact ⟨hlater.1.trans (accepted_catchers hds.1 hstep),
        hlater.2.trans (served_catchers_iff h hds.1 hstep)⟩

/-- Whether the catcher will be done is in the account. -/
theorem completes_iff_served {s : State ι} (h : Engaged s) : Completes s ↔ Served s := by
  constructor
  · rintro ⟨ds, t, hds, hrun, hquiet, hhandled, hanswered⟩
    have hrest := served_catchers_run h hds hrun
    rw [← hrest.2, served_of_quiet_iff hquiet, hrest.1]
    exact ⟨hhandled, hanswered⟩
  · intro hserved
    rcases exists_quiet h with ⟨ds, t, hds, hrun, hquiet⟩
    have hrest := served_catchers_run h hds hrun
    have haccount := hrest.2.mpr hserved
    rw [served_of_quiet_iff hquiet, hrest.1] at haccount
    exact ⟨ds, t, hds, hrun, hquiet, haccount⟩

/-- A signal with a value from 1 to 4 is sent to a catcher that has nothing
    pending and is not on its way out. When the catcher is gone `sigqueue`
    fails. -/
def Unhurried (s : State ι) (e : Event ι) : Prop :=
  match e with
  | .queue i => match (s.senders i).pc with
    | .sending val => ordinary (i, val) = true → s.catcher.life ≠ .gone →
        s.catcher.life = .running ∧ s.catcher.pending = none ∧
          s.catcher.handler.isExiting = false
    | _ => True
  | _ => True

omit [DecidableEq ι] in
/-- A step that sends nothing keeps the account. -/
theorem served_congr {s s' : State ι} (haccepted : s'.accepted = s.accepted)
    (hhandled : s'.handled = s.handled) (hanswered : s'.answered = s.answered)
    (hhandler : s'.catcher.handler = s.catcher.handler)
    (hpending : s'.catcher.pending = s.catcher.pending) : Served s' ↔ Served s := by
  rw [served_iff, served_iff, haccepted, hhandled, hanswered, Catcher.owed, Catcher.owed, hhandler,
    hpending]

omit [DecidableEq ι] in
/-- With one value more accepted, one more has to be owed if it is wanted. -/
theorem served_accepts_iff {s s' : State ι} (h : Served s) (p : ι × Int)
    (haccepted : s'.accepted = s.accepted ++ [p]) (hhandled : s'.handled = s.handled)
    (hanswered : s'.answered = s.answered)
    (hhandler : s'.catcher.handler = s.catcher.handler) :
    Served s' ↔ wanted s'.catcher.owed = wanted s.catcher.owed ++ wanted [p] := by
  rw [served_iff, haccepted, hhandled, hanswered, hhandler, wanted_append, h.handled,
    List.append_assoc, List.append_right_inj, eq_comm]
  exact and_iff_left h.answered

omit [DecidableEq ι] in
theorem sigqueue_fields (s : State ι) (i : ι) (val : Int) :
    (sigqueue s i val).handled = s.handled ∧ (sigqueue s i val).answered = s.answered ∧
      (sigqueue s i val).catcher.handler = s.catcher.handler := by
  unfold sigqueue
  split <;> exact ⟨rfl, rfl, rfl⟩

omit [DecidableEq ι] in
/-- Sending upsets the account exactly if the value is one of those wanted and
    there is no place for it. -/
theorem served_sigqueue_iff {s : State ι} (h : Served s) (i : ι) (val : Int) :
    Served (sigqueue s i val) ↔ (ordinary (i, val) = true → s.catcher.life ≠ .gone →
      s.catcher.life = .running ∧ s.catcher.pending = none ∧
        s.catcher.handler.isExiting = false) := by
  have ⟨hhandled, hanswered, hhandler⟩ := sigqueue_fields s i val
  cases hlife : s.catcher.life with
  | running =>
      have haccepted : (sigqueue s i val).accepted = s.accepted ++ [(i, val)] := by
        simp only [sigqueue, hlife]
      have hpending : (sigqueue s i val).catcher.pending
          = s.catcher.pending.or (some (i, val)) := by
        simp only [sigqueue, hlife]
      rw [served_accepts_iff h (i, val) haccepted hhandled hanswered hhandler, Catcher.owed,
        Catcher.owed, hhandler, hpending, wanted_singleton]
      -- A value that nobody waits for does not count.
      by_cases hwanted : ordinary (i, val) = true
      · rw [if_pos hwanted]
        cases hexiting : s.catcher.handler.isExiting with
        | true => simp [hwanted, wanted_nil]
        | false =>
            -- The signal is dropped if another one is pending.
            cases hpending : s.catcher.pending with
            | none => simp [wanted_singleton, wanted_nil, hwanted]
            | some p => simp [hwanted]
      · rw [if_neg hwanted, List.append_nil]
        refine iff_of_true ?_ fun hord => absurd hord hwanted
        cases hexiting : s.catcher.handler.isExiting with
        | true => rfl
        | false =>
            cases hpending : s.catcher.pending with
            | none => simp [wanted_singleton, wanted_nil, hwanted]
            | some p => rfl
  -- A process that has exited still takes signals, and answers none.
  | zombie =>
      have haccepted : (sigqueue s i val).accepted = s.accepted ++ [(i, val)] := by
        simp only [sigqueue, hlife]
      have hcatcher : (sigqueue s i val).catcher = s.catcher := by
        simp only [sigqueue, hlife]
      rw [served_accepts_iff h (i, val) haccepted hhandled hanswered hhandler, hcatcher,
        wanted_singleton]
      by_cases hwanted : ordinary (i, val) = true
      · simp [hwanted]
      · simp [hwanted]
  | gone =>
      simp only [sigqueue, hlife]
      exact iff_of_true h fun _ hgone => absurd rfl hgone

theorem served_step_iff {s s' : State ι} {e : Event ι} (hengaged : Engaged s) (h : Served s)
    (hstep : step s e = some s') : Served s' ↔ Unhurried s e := by
  by_cases he : e.isCatchers = true
  · have hkept := (served_catchers_iff hengaged he hstep).mpr h
    cases e with
    | deliver => exact iff_of_true hkept trivial
    | act => exact iff_of_true hkept trivial
    | answer => exact iff_of_true hkept trivial
    | _ => cases he
  · cases step_move hstep with
    | queue i val hpc =>
        rw [Unhurried]
        simp only [hpc]
        rw [← served_sigqueue_iff h]
        exact served_congr rfl rfl rfl rfl rfl
    | deliver i val _ _ _ => exact absurd rfl he
    | act i val _ => exact absurd rfl he
    | answer i val _ => exact absurd rfl he
    | _ =>
        refine iff_of_true (Iff.mpr ?_ h) trivial
        exact served_congr rfl rfl rfl rfl rfl

/-- In a run every value from 1 to 4 that is accepted is handled and answered,
    once each, exactly if all of them are sent to a catcher that has nothing
    pending and is not on its way out. -/
theorem completes_iff {es : List (Event ι)} {t : State ι}
    (hrun : Machine.exec step State.start es = some t) :
    Machine.Always step Completes State.start es ↔
      Machine.Meets step Unhurried State.start es := by
  have hstart : Served (State.start : State ι) := ⟨rfl, rfl⟩
  refine Machine.always_iff_meets (I := Engaged) (fun _ _ _ h hstep => engaged_step h hstep)
    (fun s e s' h hcompletes hstep => ?_) engaged_start
    ((completes_iff_served engaged_start).mpr hstart) hrun
  rw [completes_iff_served h] at hcompletes
  rw [completes_iff_served (engaged_step h hstep)]
  exact served_step_iff h hcompletes hstep

instance (s : State ι) (e : Event ι) : Decidable (Unhurried s e) :=
  match e with
  | .queue i => match h : (s.senders i).pc with
    | .sending val => decidable_of_iff (ordinary (i, val) = true → s.catcher.life ≠ .gone →
          s.catcher.life = .running ∧ s.catcher.pending = none ∧
            s.catcher.handler.isExiting = false) (by simp only [Unhurried, h])
    | .reading => isTrue (by simp only [Unhurried, h])
    | .printing => isTrue (by simp only [Unhurried, h])
    | .pausing => isTrue (by simp only [Unhurried, h])
    | .paused => isTrue (by simp only [Unhurried, h])
    | .finished => isTrue (by simp only [Unhurried, h])
  | .type _ _ => isTrue trivial
  | .eof _ => isTrue trivial
  | .print _ => isTrue trivial
  | .pause _ => isTrue trivial
  | .receive _ => isTrue trivial
  | .deliver => isTrue trivial
  | .act => isTrue trivial
  | .answer => isTrue trivial
  | .reap => isTrue trivial

/-- Two senders, one after the other. -/
def inTurn : List (Event Bool) :=
  [.type false 1, .type true 2, .queue false, .deliver, .queue true, .act, .answer, .deliver, .act,
    .answer]

/-- Two senders at once. -/
def atOnce : List (Event Bool) := [.type false 1, .type true 2, .queue false, .queue true]

/-- A signal may be sent while another one is being handled. -/
theorem completes_in_turn : Machine.Always step Completes State.start inTurn := by
  have hend : (Machine.exec step (State.start : State Bool) inTurn).any
      (fun t => decide (t.answered = [(false, 1), (true, 2)])) = true := by decide
  rcases Machine.exists_of_exec_any hend with ⟨t, hrun, _⟩
  exact (completes_iff hrun).mpr (by decide)

/-- Of two signals sent at once the catcher handles the first. -/
theorem second_is_dropped : ∃ t, Machine.exec step (State.start : State Bool) atOnce = some t ∧
    ¬ Completes t := by
  have hend : (Machine.exec step (State.start : State Bool) atOnce).any
      (fun t => decide (wanted t.accepted ≠ wanted t.handled ++ wanted t.catcher.owed)) = true := by
    decide
  rcases Machine.exists_of_exec_any hend with ⟨t, hrun, hlost⟩
  refine ⟨t, hrun, fun hcompletes => ?_⟩
  have hengaged : Engaged t :=
    Machine.exec_invariant (fun _ _ _ h hstep => engaged_step h hstep) engaged_start hrun
  exact of_decide_eq_true hlost ((completes_iff_served hengaged).mp hcompletes).handled

end Signals

end OsLabs
