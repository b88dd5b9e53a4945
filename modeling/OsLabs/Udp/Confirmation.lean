import OsLabs.Udp.KeepAlive

/-!
# The Confirmation of a Private Message

A sender is told that its private message was sent to somebody. Whether this
is so is decided twice: by the lookup of the name, which takes no lock, and by
`send_to_client`, which looks at the slot again and sends nothing if the sweep
has emptied it. The answer follows the lookup.

Nothing but the sweep can come between the two. The thread that looks a name
up is the one that registers and removes clients, so the slot found keeps its
name, and is lost exactly when a sweep finds its client silent for too long.
The answer is true along exactly the runs in which no sweep does.

## Main definitions

* `privateSend`: The private message that a step sends.
* `Undisturbed`: No sweep empties the slot that was found.
* `Truthful`: The sender is told what was done.

## Theorems

* `split_message`: A run up to the thread's next step, and from it.
* `waiting_run`: What happens while the thread waits.
* `confirmed_iff`: When the sender is told the truth.
-/

namespace OsLabs

namespace Udp

open Machine

/-- The private message that the next step sends: the slot, the name it has
    then, and what is sent. -/
def privateSend (s : State) : Event → Option (Slot × Bytes × Action)
  | .message =>
      match s.message with
      | .sendTo _ targetId _ response =>
          if (s.server.clients targetId).active then
            some (targetId, (s.server.clients targetId).name.str,
              .sent .toClient (s.server.clients targetId).addr response)
          else none
      | _ => none
  | _ => none

/-- The slot that was found and not written to yet. -/
def Pc.target : Pc → Option Slot
  | .formatOne _ _ targetId _ _ | .sendTo _ targetId _ _ => some targetId
  | _ => none

/-- The time that the ping thread has read. -/
def PingPc.sample : PingPc → Option Nat
  | .sleeping => none
  | .sweeping now => some now

/-- No sweep finds the client that was found silent for too long. -/
def Undisturbed (s : State) : Event → Prop
  | .sweep => ∀ now ∈ s.ping.sample, ∀ i ∈ s.message.target, ¬ (s.server.clients i).late now = true
  | _ => True

instance (s : State) (e : Event) : Decidable (Undisturbed s e) :=
  match e with
  | .sweep => inferInstanceAs (Decidable (∀ now ∈ s.ping.sample, ∀ i ∈ s.message.target,
      ¬ (s.server.clients i).late now = true))
  | .time _ => isTrue trivial
  | .datagram _ _ => isTrue trivial
  | .recvError => isTrue trivial
  | .message => isTrue trivial
  | .pingWake => isTrue trivial

/-- The next event is the thread's own, or a datagram. -/
def Event.own : Event → Bool
  | .message | .datagram _ _ => true
  | _ => false

/-- The next event is a datagram that arrives. -/
def Event.arrives : Event → Bool
  | .datagram _ _ => true
  | _ => false

/-- What happens to the server while the receiving thread does nothing. -/
structure Waited (s t : Server) : Prop where
  names : ∀ i, (t.clients i).name = (s.clients i).name
  actives : ∀ i, (t.clients i).active = true → (s.clients i).active = true
  log : ∃ acts, t.log = acts ++ s.log ∧ ∀ a ∈ acts, ∃ dst, a = .sent .alive dst (text "ALIVE")

theorem Waited.refl (s : Server) : Waited s s :=
  ⟨fun _ => rfl, fun _ h => h, [], rfl, fun _ h => absurd h List.not_mem_nil⟩

theorem Waited.trans {s t u : Server} (h : Waited s t) (h' : Waited t u) : Waited s u := by
  rcases h.log with ⟨acts, hlog, hacts⟩
  rcases h'.log with ⟨acts', hlog', hacts'⟩
  refine ⟨fun i => (h'.names i).trans (h.names i), fun i hi => h.actives i (h'.actives i hi),
    acts' ++ acts, ?_, fun a ha => ?_⟩
  · rw [hlog', hlog, List.append_assoc]
  · rcases List.mem_append.mp ha with hmem | hmem
    · exact hacts' a hmem
    · exact hacts a hmem

theorem waited_pingSweep (now : Nat) (s : Server) : Waited s (s.pingSweep now) := by
  refine ⟨fun i => ?_, fun i hi => ?_, _, Server.log_pingSweep now s, fun a ha => ?_⟩
  · rw [Server.clients_pingSweep, Server.swept]
    by_cases hlate : ((s.clients i).active && (s.clients i).late now) = true
    · rw [if_pos hlate]
    · rw [if_neg hlate]
  · rw [Server.clients_pingSweep, Server.swept_active] at hi
    exact hi.1
  · rw [List.mem_reverse, List.mem_map] at ha
    rcases ha with ⟨i, _, rfl⟩
    exact ⟨_, rfl⟩

/-- One event that is not the thread's own. -/
theorem waiting_step {clk : LocalClock} {s s' : State} {e : Event} (he : e.own = false)
    (h : step clk s e = some s') :
    s'.message = s.message ∧ Waited s.server s'.server ∧ privateSend s e = none ∧
      ∀ i, s.message.target = some i → (s.server.clients i).active = true →
        ((s'.server.clients i).active = true ↔ Undisturbed s e) := by
  cases e with
  | message | datagram => exact absurd he (by simp only [Event.own, Bool.true_eq_false,
      not_false_eq_true])
  | time now =>
      rw [step, Option.some.injEq] at h
      rw [← h]
      exact ⟨rfl, Waited.refl _, rfl, fun i _ hi => iff_of_true hi trivial⟩
  | recvError | pingWake =>
      simp only [step] at h
      split at h
      · rw [Option.some.injEq] at h
        rw [← h]
        exact ⟨rfl, Waited.refl _, rfl, fun i _ hi => iff_of_true hi trivial⟩
      · exact absurd h (by simp only [reduceCtorEq, not_false_eq_true])
  -- Only a sweep can take the target away, and it does if the client was late.
  | sweep =>
      simp only [step] at h
      split at h
      · exact absurd h (by simp only [reduceCtorEq, not_false_eq_true])
      · rename_i now hping
        rw [Option.some.injEq] at h
        have hserver : s'.server = s.server.pingSweep now := by rw [← h]
        have hmessage : s'.message = s.message := by rw [← h]
        rw [hserver]
        refine ⟨hmessage, waited_pingSweep now s.server, rfl, fun i htarget hactive => ?_⟩
        rw [Server.clients_pingSweep, Server.swept_active]
        -- The program counter and the sweep name the same sample and the same slot.
        constructor
        · rintro ⟨_, hlate⟩ now' hnow j hj
          rw [hping, PingPc.sample, Option.mem_some] at hnow
          rw [htarget, Option.mem_some] at hj
          rwa [← hnow, ← hj]
        · intro hC
          exact ⟨hactive, hC now (by rw [hping]; rfl) i htarget⟩

/-- A run of events none of which is the thread's own. -/
theorem waiting_run {clk : LocalClock} {s t : State} {es : List Event}
    (hes : ∀ e ∈ es, e.own = false) (hrun : exec (step clk) s es = some t) :
    t.message = s.message ∧ Waited s.server t.server ∧ record (step clk) privateSend s es = [] ∧
      (s.message.target = none → Meets (step clk) Undisturbed s es) ∧
      ∀ i, s.message.target = some i → (s.server.clients i).active = true →
        ((t.server.clients i).active = true ↔ Meets (step clk) Undisturbed s es) := by
  -- By induction on the events of the other thread: the target can be lost at each of them,
  -- but never comes back.
  induction es generalizing s with
  | nil =>
      simp only [exec, Option.some.injEq] at hrun
      rw [← hrun]
      exact ⟨rfl, Waited.refl _, rfl, fun _ => trivial, fun i _ hi => iff_of_true hi trivial⟩
  | cons e es ih =>
      rcases exec_cons.mp hrun with ⟨s', hstep, hrest⟩
      have he := hes e List.mem_cons_self
      rcases waiting_step he hstep with ⟨hmessage, hwaited, hnone, htarget⟩
      rcases ih (fun e he => hes e (List.mem_cons_of_mem _ he)) hrest with
        ⟨hmessage', hwaited', hnone', hfree, htarget'⟩
      rw [hmessage] at hmessage' hfree htarget'
      refine ⟨hmessage', hwaited.trans hwaited', ?_, fun hno => ⟨?_, ?_⟩, fun i hi hactive => ?_⟩
      · rw [record_cons es hstep, hnone, hnone', Option.toList_none, List.nil_append]
      · cases e with
        | sweep =>
            intro now _ i hi
            rw [hno] at hi
            exact absurd hi (Option.not_mem_none i)
        | _ => trivial
      · exact (forall_successor hstep).mpr (hfree hno)
      -- The target is there at the end if it is there after the first event and nothing that
      -- follows takes it.
      · rw [Meets, forall_successor hstep, ← htarget i hi hactive]
        constructor
        · intro hlast
          have hnext := hwaited'.actives i hlast
          exact ⟨hnext, (htarget' i hi hnext).mp hlast⟩
        · rintro ⟨hnext, hrest'⟩
          exact (htarget' i hi hnext).mpr hrest'

/-- A run in which the thread moves on, up to its first step and from there. -/
theorem split_message {clk : LocalClock} {s t : State} {es : List Event}
    (hes : ∀ e ∈ es, e.arrives = false)
    (hrun : exec (step clk) s es = some t) (hne : t.message ≠ s.message) :
    ∃ pre post u u', es = pre ++ .message :: post ∧ (∀ e ∈ pre, e.own = false) ∧
      exec (step clk) s pre = some u ∧ step clk u .message = some u' ∧
        exec (step clk) u' post = some t := by
  -- By induction up to the first step of the thread's own; what comes before is of the others.
  induction es generalizing s with
  | nil =>
      simp only [exec, Option.some.injEq] at hrun
      exact absurd (by rw [hrun]) hne
  | cons e es ih =>
      rcases exec_cons.mp hrun with ⟨s', hstep, hrest⟩
      cases hown : e.own with
      | true =>
          cases e with
          | message =>
              exact ⟨[], es, s, s', rfl, fun _ h => absurd h List.not_mem_nil, rfl, hstep, hrest⟩
          | datagram src bytes =>
              exact absurd (hes _ List.mem_cons_self) (by simp only [Event.arrives,
                Bool.true_eq_false, not_false_eq_true])
          | time | recvError | pingWake | sweep => exact absurd hown Bool.false_ne_true
      -- Others do not move the thread, so that it still has to.
      | false =>
          rw [← (waiting_step hown hstep).1] at hne
          rcases ih (fun e he => hes e (List.mem_cons_of_mem _ he)) hrest hne with
            ⟨pre, post, u, u', rfl, hpre, hfirst, hmessage, hlast⟩
          refine ⟨e :: pre, post, u, u', rfl, fun f hf => ?_, ?_, hmessage, hlast⟩
          · rcases List.mem_cons.mp hf with rfl | hmem
            · exact hown
            · exact hpre f hmem
          · exact exec_cons.mpr ⟨s', hstep, hfirst⟩

/-- The thread's next step in a run in which it moves on. The table `u` that it
    finds is the one it left, but for the sweeps in between. -/
structure NextTurn (clk : LocalClock) (s : State) (es : List Event) (t : State) (u u' : State)
    (post : List Event) : Prop where
  waited : Waited s.server u.server
  turn : messageStep clk u.clock u.server s.message = some (u'.server, u'.message)
  rest : exec (step clk) u' post = some t
  noDatagram : ∀ e ∈ post, e.arrives = false
  recorded : record (step clk) privateSend s es
    = (privateSend u .message).toList ++ record (step clk) privateSend u' post
  untargeted : s.message.target = none →
    (Meets (step clk) Undisturbed s es ↔ Meets (step clk) Undisturbed u' post)
  targeted : ∀ i, s.message.target = some i → (s.server.clients i).active = true →
    (Meets (step clk) Undisturbed s es ↔
      (u.server.clients i).active = true ∧ Meets (step clk) Undisturbed u' post)
  message : u.message = s.message

/-- A turn that sends nothing private adds nothing to the record. -/
theorem NextTurn.recorded_of_none {clk : LocalClock} {s t u u' : State} {es post : List Event}
    (h : NextTurn clk s es t u u' post) (hnone : privateSend u .message = none) :
    record (step clk) privateSend s es = record (step clk) privateSend u' post := by
  rw [h.recorded, hnone, Option.toList_none, List.nil_append]

theorem next_turn {clk : LocalClock} {s t : State} {es : List Event}
    (hes : ∀ e ∈ es, e.arrives = false) (hrun : exec (step clk) s es = some t)
    (hend : t.message = .recvfrom) (hbusy : s.message ≠ .recvfrom) :
    ∃ u u' post, NextTurn clk s es t u u' post := by
  have hne : t.message ≠ s.message := by
    rw [hend]
    exact hbusy.symm
  rcases split_message hes hrun hne with ⟨pre, post, u, u', rfl, hpre, hfirst, hstep, hlast⟩
  rcases waiting_run hpre hfirst with ⟨hmessage, hwaited, hnone, hfree, htarget⟩
  -- The thread's own step sweeps nobody, whoever is its target.
  have hown : Undisturbed u .message ∧ (∀ v, step clk u .message = some v →
      Meets (step clk) Undisturbed v post) ↔ Meets (step clk) Undisturbed u' post := by
    rw [forall_successor hstep]
    exact ⟨fun h => h.2, fun h => ⟨trivial, h⟩⟩
  refine ⟨u, u', post, hwaited, ?_, hlast, fun e he => ?_, ?_, fun hno => ?_,
    fun i hi hactive => ?_, hmessage⟩
  -- The split lies at a step of the thread: that step is a turn of `handle_message`.
  · have hturn := hstep
    simp only [step] at hturn
    split at hturn
    · rename_i server pc hmessageStep
      rw [Option.some.injEq] at hturn
      rw [← hturn, ← hmessage]
      exact hmessageStep
    · exact absurd hturn (by simp only [reduceCtorEq, not_false_eq_true])
  · exact hes e (List.mem_append_right _ (List.mem_cons_of_mem _ he))
  · rw [record_append _ hfirst, hnone, List.nil_append, record_cons post hstep]
  · rw [meets_append hfirst, Meets, hown]
    exact ⟨fun h => h.2, fun h => ⟨hfree hno, h⟩⟩
  · rw [meets_append hfirst, Meets, hown, htarget i hi hactive]

/-- Between datagrams the thread has nothing to do. -/
theorem idle_run {clk : LocalClock} {s t : State} {es : List Event}
    (hes : ∀ e ∈ es, e.arrives = false) (hidle : s.message = .recvfrom)
    (hrun : exec (step clk) s es = some t) : ∀ e ∈ es, e.own = false := by
  induction es generalizing s with
  | nil => exact fun e he => absurd he List.not_mem_nil
  | cons e es ih =>
      rcases exec_cons.mp hrun with ⟨s', hstep, hrest⟩
      have hown : e.own = false := by
        cases e with
        | message => exact absurd hstep (by simp only [step, hidle, messageStep, reduceCtorEq,
            not_false_eq_true])
        | datagram src bytes =>
            exact absurd (hes _ List.mem_cons_self) (by simp only [Event.arrives,
              Bool.true_eq_false, not_false_eq_true])
        | time | recvError | pingWake | sweep => rfl
      intro f hf
      rcases List.mem_cons.mp hf with rfl | hmem
      · exact hown
      · have hidle' := (waiting_step hown hstep).1.trans hidle
        exact ih (fun e he => hes e (List.mem_cons_of_mem _ he)) hidle' hrest f hmem

/-- Of what is sent between `s` and `t`, the reply to the sender is this. -/
def Told (src : SockAddr) (response : Bytes) (s t : Server) : Prop :=
  ∃ acts, t.log = acts ++ s.log ∧ ∀ m, .sent .reply src m ∈ acts ↔ m = response

theorem told_of_waited {src : SockAddr} {response : Bytes} {s u t : Server} (h : Waited s u)
    (htold : Told src response u t) : Told src response s t := by
  rcases h.log with ⟨acts, hlog, hacts⟩
  rcases htold with ⟨acts', hlog', hreply⟩
  refine ⟨acts' ++ acts, by rw [hlog', hlog, List.append_assoc], fun m => ?_⟩
  rw [List.mem_append, hreply]
  constructor
  · rintro (hm | hm)
    · exact hm
    · rcases hacts _ hm with ⟨dst, heq⟩
      exact absurd heq (by simp only [Action.sent.injEq, reduceCtorEq, false_and,
        not_false_eq_true])
  · exact Or.inl

/-- What the thread is about to answer is what the sender is told. -/
theorem reply_run {clk : LocalClock} {s t : State} {es : List Event} {src : SockAddr}
    {response : Bytes} (hes : ∀ e ∈ es, e.arrives = false)
    (hmessage : s.message = .reply src response) (hend : t.message = .recvfrom)
    (hrun : exec (step clk) s es = some t) :
    Told src response s.server t.server ∧ record (step clk) privateSend s es = [] ∧
      Meets (step clk) Undisturbed s es := by
  have hbusy : s.message ≠ .recvfrom := fun heq => nomatch hmessage.symm.trans heq
  -- One step sends the reply, and back in `recvfrom` without a datagram the thread stays idle.
  rcases next_turn hes hrun hend hbusy with ⟨u, u', post, h⟩
  have hturn := h.turn
  rw [hmessage, messageStep, Option.some.injEq, Prod.mk.injEq] at hturn
  have hown := idle_run h.noDatagram hturn.2.symm h.rest
  rcases waiting_run hown h.rest with ⟨_, hwaited, hnone, hfree, _⟩
  refine ⟨told_of_waited h.waited ?_, ?_, ?_⟩
  · -- After the reply there are probes only.
    rcases hwaited.log with ⟨acts, hlog, hacts⟩
    refine ⟨acts ++ [.sent .reply src response], ?_, fun m => ?_⟩
    · rw [hlog, ← hturn.1, List.append_assoc]
      rfl
    · rw [List.mem_append, List.mem_singleton, Action.sent.injEq]
      constructor
      · rintro (hm | hm)
        · rcases hacts _ hm with ⟨dst, heq⟩
          exact absurd heq (by simp only [Action.sent.injEq, reduceCtorEq, false_and,
            not_false_eq_true])
        · exact hm.2.2
      · exact fun hm => Or.inr ⟨rfl, rfl, hm⟩
  · rw [h.recorded, hnone, List.append_nil]
    simp only [privateSend, h.message, hmessage, Option.toList_none]
  · rw [h.untargeted (by rw [hmessage]; rfl)]
    exact hfree (by rw [← hturn.2]; rfl)

/-- From `send_to_client` on: the confirmation is sent in any case, the message
    if the slot is still active. -/
theorem sendTo_run {clk : LocalClock} {s t : State} {es : List Event} {src : SockAddr} {i : Slot}
    {name response : Bytes} (hes : ∀ e ∈ es, e.arrives = false)
    (hmessage : s.message = .sendTo src i name response) (hend : t.message = .recvfrom)
    (hrun : exec (step clk) s es = some t) :
    Told src (confirmText name) s.server t.server ∧
      ((s.server.clients i).active = false → record (step clk) privateSend s es = []) ∧
      ((s.server.clients i).active = true →
        ((Meets (step clk) Undisturbed s es → ∃ act, record (step clk) privateSend s es
            = [(i, (s.server.clients i).name.str, act)]) ∧
          (¬ Meets (step clk) Undisturbed s es → record (step clk) privateSend s es = []))) := by
  have hbusy : s.message ≠ .recvfrom := fun heq => nomatch hmessage.symm.trans heq
  rcases next_turn hes hrun hend hbusy with ⟨u, u', post, h⟩
  have hturn := h.turn
  rw [hmessage, messageStep, Option.some.injEq, Prod.mk.injEq] at hturn
  -- Whatever becomes of the target, the confirmation is next.
  rcases reply_run h.noDatagram hturn.2.symm hend h.rest with ⟨htold, hnone, hmeets⟩
  have hsend : privateSend u .message = if (u.server.clients i).active then
      some (i, (u.server.clients i).name.str,
        .sent .toClient (u.server.clients i).addr response) else none := by
    simp only [privateSend, h.message, hmessage]
  have hrecord : record (step clk) privateSend s es = (privateSend u .message).toList := by
    rw [h.recorded, hnone, List.append_nil]
  have hlost : (u.server.clients i).active = false → record (step clk) privateSend s es = [] := by
    intro hinactive
    rw [hrecord, hsend, hinactive, if_neg Bool.false_ne_true, Option.toList_none]
  have htarget : s.message.target = some i := by
    rw [hmessage]
    rfl
  refine ⟨told_of_waited h.waited ?_, fun hinactive => ?_, fun hactive => ⟨fun hC => ?_,
    fun hC => ?_⟩⟩
  · -- The private message is no reply.
    rcases htold with ⟨acts, hlog, hreply⟩
    rw [← hturn.1] at hlog
    unfold Server.sendToClient at hlog
    by_cases hactive : (u.server.clients i).active = true
    · rw [if_pos hactive] at hlog
      refine ⟨acts ++ [.sent .toClient (u.server.clients i).addr response], ?_, fun m => ?_⟩
      · rw [hlog, List.append_assoc]
        rfl
      · rw [List.mem_append, List.mem_singleton, hreply]
        simp only [Action.sent.injEq, reduceCtorEq, false_and, or_false]
    · rw [if_neg hactive] at hlog
      exact ⟨acts, hlog, hreply⟩
  -- Inactive at the lookup's end, inactive at the step that sends.
  · refine hlost ?_
    by_contra hactive
    rw [Bool.not_eq_false] at hactive
    rw [h.waited.actives i hactive] at hinactive
    exact absurd hinactive.symm Bool.false_ne_true
  -- Not swept until the thread's step: the text goes to the slot that was looked up.
  · have hstill := ((h.targeted i htarget hactive).mp hC).1
    refine ⟨.sent .toClient (u.server.clients i).addr response, ?_⟩
    rw [hrecord, hsend, if_pos hstill, Option.toList_some, h.waited.names]
  -- Swept in between: it would be active only if the condition held.
  · refine hlost ?_
    by_contra hstill
    rw [Bool.not_eq_false] at hstill
    exact hC ((h.targeted i htarget hactive).mpr ⟨hstill, hmeets⟩)

/-- From the lookup of the name on, if it is found. -/
theorem formatOne_run {clk : LocalClock} {s t : State} {es : List Event} {src : SockAddr}
    {id i : Slot} {name message : Bytes} (hes : ∀ e ∈ es, e.arrives = false)
    (hmessage : s.message = .formatOne src id i name message) (hend : t.message = .recvfrom)
    (hactive : (s.server.clients i).active = true) (hrun : exec (step clk) s es = some t) :
    Told src (confirmText name) s.server t.server ∧
      (Meets (step clk) Undisturbed s es → ∃ act, record (step clk) privateSend s es
        = [(i, (s.server.clients i).name.str, act)]) ∧
      (¬ Meets (step clk) Undisturbed s es → record (step clk) privateSend s es = []) := by
  have hbusy : s.message ≠ .recvfrom := fun heq => nomatch hmessage.symm.trans heq
  rcases next_turn hes hrun hend hbusy with ⟨u, u', post, h⟩
  have hturn := h.turn
  rw [hmessage, messageStep, Option.some.injEq, Prod.mk.injEq] at hturn
  rcases sendTo_run h.noDatagram hturn.2.symm hend h.rest with ⟨htold, hlost, hkept⟩
  rw [← hturn.1] at htold hlost hkept
  have hrecord := h.recorded_of_none (by simp only [privateSend, h.message, hmessage])
  have htarget : s.message.target = some i := by
    rw [hmessage]
    rfl
  rw [hrecord, h.targeted i htarget hactive]
  -- The wait for this step can cost the target as well as what follows it.
  refine ⟨told_of_waited h.waited htold, ?_, fun hC => ?_⟩
  · rintro ⟨hstill, hC⟩
    rw [← h.waited.names]
    exact (hkept hstill).1 hC
  · by_cases hstill : (u.server.clients i).active = true
    · exact (hkept hstill).2 fun hC' => hC ⟨hstill, hC'⟩
    · rw [Bool.not_eq_true] at hstill
      exact hlost hstill

/-- An entry of the log that is a private message. -/
def Action.isPrivate : Action → Bool
  | .sent .toClient _ _ => true
  | _ => false

/-- One private datagram was sent, to a slot that was active under the name. -/
def SentOnce (name : Bytes) (privates : List (Slot × Bytes × Action)) : Prop :=
  ∃ i act, privates = [(i, name, act)]

/-- The new entries of the log that are private messages. -/
def PrivatesOf (privates : List (Slot × Bytes × Action)) (s t : Server) : Prop :=
  ∃ acts, t.log = acts ++ s.log ∧
    acts.filter Action.isPrivate = (privates.map fun p => p.2.2).reverse

theorem privatesOf_step {clk : LocalClock} {s s' : State} {e : Event}
    (h : step clk s e = some s') :
    PrivatesOf (privateSend s e).toList s.server s'.server := by
  cases hown : e.own with
  -- Another thread's event adds probes, which are no private messages.
  | false =>
      rcases waiting_step hown h with ⟨_, hwaited, hnone, _⟩
      rcases hwaited.log with ⟨acts, hlog, hacts⟩
      refine ⟨acts, hlog, ?_⟩
      rw [hnone]
      refine List.filter_eq_nil_iff.mpr fun a ha => ?_
      rcases hacts a ha with ⟨dst, rfl⟩
      exact Bool.false_ne_true
  | true =>
      rcases step_cases h with ⟨he, hserver, _⟩ | ⟨he, hmessage⟩ | ⟨he, _⟩
      · have hnone : privateSend s e = none := by
          cases e with
          | message => exact absurd rfl he
          | _ => rfl
        rw [hnone, hserver]
        exact ⟨[], rfl, rfl⟩
      · subst he
        have hturn := messageStep_cases hmessage
        generalize hpc : s.message = pc at hturn
        generalize s'.server = server at hturn
        generalize s'.message = pc' at hturn
        cases hturn with
        | sendTo src targetId targetName response =>
            simp only [privateSend, hpc]
            unfold Server.sendToClient
            by_cases hactive : (s.server.clients targetId).active = true
            · rw [if_pos hactive, if_pos hactive]
              exact ⟨[_], rfl, rfl⟩
            · rw [if_neg hactive, if_neg hactive]
              exact ⟨[], rfl, rfl⟩
        | broadcast id response =>
            simp only [privateSend, hpc]
            refine ⟨_, congrArg Server.log (Server.broadcastMessage_eq s.server response id), ?_⟩
            refine List.filter_eq_nil_iff.mpr fun a ha => ?_
            rw [List.mem_reverse, List.mem_map] at ha
            rcases ha with ⟨i, _, rfl⟩
            exact Bool.false_ne_true
        | remove src id =>
            simp only [privateSend, hpc]
            exact ⟨[.quit src], by simp only [Server.log_removeClient, List.singleton_append], rfl⟩
        | registered src name i | farewell src id | reply src response =>
            simp only [privateSend, hpc]
            exact ⟨[_], rfl, rfl⟩
        | registration | unknown | known | nameUsed | full | touch | listing | formatAll | found
        | notFound | formatOne =>
            simp only [privateSend, hpc]
            exact ⟨[], rfl, rfl⟩
      · cases e with
        | message => exact absurd rfl he
        | datagram src bytes =>
            rw [step_idle h rfl]
            exact ⟨[], rfl, rfl⟩
        | time | recvError | pingWake | sweep => exact absurd hown Bool.false_ne_true

/-- What is recorded of private messages is what the log has got. -/
theorem privatesOf_run {clk : LocalClock} {s t : State} {es : List Event}
    (hrun : exec (step clk) s es = some t) :
    PrivatesOf (record (step clk) privateSend s es) s.server t.server := by
  have h := exec_record_of_meets (o := privateSend) (C := fun _ _ => True) (l := [])
    (I := fun (t : State) l => PrivatesOf l s.server t.server)
    (fun u e u' l hu _ hstep => by
      rcases hu with ⟨acts, hlog, hacts⟩
      rcases privatesOf_step hstep with ⟨acts', hlog', hacts'⟩
      refine ⟨acts' ++ acts, by rw [hlog', hlog, List.append_assoc], ?_⟩
      rw [List.filter_append, hacts, hacts', List.map_append, List.reverse_append])
    ⟨[], rfl, rfl⟩ (meets_of_forall (fun _ _ => trivial) s es) hrun
  rwa [List.nil_append] at h

/-- What the sender is told, in the entries `acts` that the log has got, is what
    was done. -/
structure Truthful (src : SockAddr) (name : Bytes) (privates : List (Slot × Bytes × Action))
    (acts : List Action) : Prop where
  logged : acts.filter Action.isPrivate = (privates.map fun p => p.2.2).reverse
  confirmed : .sent .reply src (confirmText name) ∈ acts ↔ SentOnce name privates
  otherwise : ¬ SentOnce name privates → .sent .reply src (notFoundText name) ∈ acts

theorem confirmText_ne_notFoundText (name : Bytes) : confirmText name ≠ notFoundText name := by
  intro heq
  have hconfirm : (confirmText name).head? = some 87 := rfl
  have hrefuse : (notFoundText name).head? = some 75 := rfl
  rw [heq, hrefuse] at hconfirm
  exact absurd hconfirm (by decide)

/-- The answers of a handled message, by what the sender is told. -/
theorem truthful_iff_of_told {src : SockAddr} {name response : Bytes} {s t : Server}
    {privates : List (Slot × Bytes × Action)} (htold : Told src response s t)
    (hprivates : PrivatesOf privates s t)
    (hresponse : response = confirmText name ∨ response = notFoundText name) :
    (∃ acts, t.log = acts ++ s.log ∧ Truthful src name privates acts) ↔
      (response = confirmText name ↔ SentOnce name privates) := by
  rcases htold with ⟨acts, hlog, hreply⟩
  rcases hprivates with ⟨acts₁, hlog₁, hlogged⟩
  rw [hlog, List.append_cancel_right_eq] at hlog₁
  rw [← hlog₁] at hlogged
  constructor
  · rintro ⟨acts', hlog', -, hconfirmed, -⟩
    rw [hlog, List.append_cancel_right_eq] at hlog'
    rw [← hlog', hreply] at hconfirmed
    rw [← hconfirmed]
    exact eq_comm
  · intro hsent
    refine ⟨acts, hlog, hlogged, ?_, fun hnot => ?_⟩
    · rw [hreply, ← hsent]
      exact eq_comm
    · rw [hreply]
      rcases hresponse with heq | heq
      · exact absurd (hsent.mp heq) hnot
      · exact heq.symm

/-- Between `s` and `t` the sender is told something, which is the truth
    exactly when no sweep comes between the lookup and the send. -/
structure Answered (clk : LocalClock) (src : SockAddr) (name : Bytes) (s t : State)
    (es : List Event) (response : Bytes) : Prop where
  response_eq : response = confirmText name ∨ response = notFoundText name
  told : Told src response s.server t.server
  honest : (response = confirmText name ↔ SentOnce name (record (step clk) privateSend s es)) ↔
    Meets (step clk) Undisturbed s es

/-- From the lookup of the name on. -/
theorem find_run {clk : LocalClock} {s t : State} {es : List Event} {src : SockAddr} {id : Slot}
    {name message : Bytes} (hes : ∀ e ∈ es, e.arrives = false)
    (hmessage : s.message = .find src id name message) (hend : t.message = .recvfrom)
    (hrun : exec (step clk) s es = some t) :
    ∃ response, Answered clk src name s t es response := by
  have hbusy : s.message ≠ .recvfrom := fun heq => nomatch hmessage.symm.trans heq
  rcases next_turn hes hrun hend hbusy with ⟨u, u', post, h⟩
  have hturn := h.turn
  have hmeets := h.untargeted (by rw [hmessage]; rfl)
  have hrecord := h.recorded_of_none (by simp only [privateSend, h.message, hmessage])
  rw [hmessage, messageStep] at hturn
  cases hfind : u.server.findClientByName name with
  | none =>
      simp only [hfind, Option.some.injEq, Prod.mk.injEq] at hturn
      rcases reply_run h.noDatagram hturn.2.symm hend h.rest with ⟨htold, hnone, hC⟩
      rw [← hturn.1] at htold
      refine ⟨_, Or.inr rfl, told_of_waited h.waited htold, ?_⟩
      rw [hrecord, hnone, hmeets]
      refine iff_of_true ⟨fun heq => ?_, ?_⟩ hC
      · exact absurd heq.symm (confirmText_ne_notFoundText name)
      · rintro ⟨i, act, hsent⟩
        exact absurd hsent (List.cons_ne_nil _ _).symm
  | some i =>
      simp only [hfind, Option.some.injEq, Prod.mk.injEq] at hturn
      have hscan := scan_some hfind
      rw [Bool.and_eq_true, beq_iff_eq] at hscan
      have hactive : (u'.server.clients i).active = true := by
        rw [← hturn.1]
        exact hscan.1
      rcases formatOne_run h.noDatagram hturn.2.symm hend hactive h.rest with
        ⟨htold, hkept, hlost⟩
      rw [← hturn.1] at htold hkept
      rw [hscan.2] at hkept
      refine ⟨_, Or.inl rfl, told_of_waited h.waited htold, ?_⟩
      rw [hrecord, hmeets]
      constructor
      · intro hhonest
        by_contra hC
        rcases hhonest.mp rfl with ⟨j, act, hsent⟩
        rw [hlost hC] at hsent
        exact absurd hsent (List.cons_ne_nil _ _).symm
      · intro hC
        rcases hkept hC with ⟨act, hsent⟩
        exact iff_of_true rfl ⟨i, act, hsent⟩

/-- From the write of `last_ping` on. -/
theorem touch_run {clk : LocalClock} {s t : State} {es : List Event} {src : SockAddr} {id : Slot}
    {buffer name message : Bytes} (hes : ∀ e ∈ es, e.arrives = false)
    (hparse : parse buffer = .toOne name message) (hmessage : s.message = .touch src id buffer)
    (hend : t.message = .recvfrom) (hrun : exec (step clk) s es = some t) :
    ∃ response, Answered clk src name s t es response := by
  have hbusy : s.message ≠ .recvfrom := fun heq => nomatch hmessage.symm.trans heq
  rcases next_turn hes hrun hend hbusy with ⟨u, u', post, h⟩
  have hturn := h.turn
  rw [hmessage, messageStep, hparse, Option.some.injEq, Prod.mk.injEq] at hturn
  rcases find_run h.noDatagram hturn.2.symm hend h.rest with ⟨response, hanswered⟩
  have hrecord := h.recorded_of_none (by simp only [privateSend, h.message, hmessage])
  refine ⟨response, hanswered.response_eq, told_of_waited h.waited ?_, ?_⟩
  · have htold := hanswered.told
    rw [← hturn.1] at htold
    exact htold
  · rw [hrecord, h.untargeted (by rw [hmessage]; rfl)]
    exact hanswered.honest

/-- The sender of a private message is told what was done exactly when no sweep
    empties the slot between the lookup of the name and `send_to_client`. -/
theorem confirmed_iff (clk : LocalClock) {s t : State} {src : SockAddr}
    {buffer name message : Bytes} {id : Slot} {es : List Event}
    (hlookup : s.message = .lookup src buffer) (hparse : parse buffer = .toOne name message)
    (hsender : s.server.findClientByAddr src = some id)
    (hes : ∀ e ∈ es, e.arrives = false)
    (hrun : exec (step clk) s (.message :: es) = some t) (hend : t.message = .recvfrom) :
    (∃ acts, t.server.log = acts ++ s.server.log ∧
      Truthful src name (record (step clk) privateSend s (.message :: es)) acts) ↔
      Meets (step clk) Undisturbed s (.message :: es) := by
  have hregister : strncmpEq buffer (text "REGISTER ") = false :=
    strncmpEq_of_head (parse_eq_toOne hparse).1 (by decide)
  rcases exec_cons.mp hrun with ⟨s', hstep, hrest⟩
  -- The first step is the lookup of the sender.
  have hs' : s' = { s with message := .touch src id buffer } := by
    simp only [step, hlookup, messageStep, hregister, Bool.false_eq_true, if_false, hsender,
      Option.some.injEq] at hstep
    exact hstep.symm
  have hmessage : s'.message = .touch src id buffer := by rw [hs']
  have hserver : s'.server = s.server := by rw [hs']
  rcases touch_run hes hparse hmessage hend hrest with ⟨response, hanswered⟩
  have hrecord : record (step clk) privateSend s (.message :: es)
      = record (step clk) privateSend s' es := by
    rw [record_cons es hstep]
    simp only [privateSend, hlookup, Option.toList_none, List.nil_append]
  have hmeets : Meets (step clk) Undisturbed s (.message :: es) ↔
      Meets (step clk) Undisturbed s' es := by
    rw [Meets, forall_successor hstep]
    exact ⟨fun h => h.2, fun h => ⟨trivial, h⟩⟩
  have htold := hanswered.told
  have hprivates := privatesOf_run hrest
  rw [hserver] at htold hprivates
  rw [hrecord, hmeets, truthful_iff_of_told htold hprivates hanswered.response_eq]
  exact hanswered.honest

/-- Two clients, the second of which was silent for the longest time allowed.
    The other one writes to it. -/
def writingRun : List Event :=
  [.datagram ⟨2, 2⟩ (text "REGISTER ola"), .message, .message, .message, .time 60,
    .datagram ⟨1, 1⟩ (text "REGISTER ala"), .message, .message, .message,
    .datagram ⟨1, 1⟩ (text "2ONE ola hej")]

/-- A sweep that comes before the lookup does no harm, and the next one finds
    that the message is sent. -/
def calmTail : List Event :=
  [.pingWake, .message, .sweep, .message, .time 61, .pingWake, .message, .message, .message]

/-- A sweep between the lookup and the send. -/
def sweptTail : List Event :=
  [.message, .message, .time 61, .pingWake, .sweep, .message, .message, .message]

/-- The state in which the receiving thread has the datagram. -/
def IsWriting (s : State) : Bool :=
  decide (s.message = .lookup ⟨1, 1⟩ (text "2ONE ola hej")) &&
    (s.server.findClientByAddr ⟨1, 1⟩).isSome

theorem writing_run {tail : List Event} {p : State → State → Bool}
    (h : (exec (step stoppedClock) init writingRun).any (fun s => IsWriting s &&
      (exec (step stoppedClock) s (.message :: tail)).any (p s)) = true) :
    ∃ s t id, s.message = .lookup ⟨1, 1⟩ (text "2ONE ola hej") ∧
      s.server.findClientByAddr ⟨1, 1⟩ = some id ∧
        exec (step stoppedClock) init writingRun = some s ∧
          exec (step stoppedClock) s (.message :: tail) = some t ∧ p s t = true := by
  rcases exists_of_exec_any h with ⟨s, hrun, hs⟩
  rw [Bool.and_eq_true, IsWriting, Bool.and_eq_true, decide_eq_true_eq] at hs
  rcases exists_of_exec_any hs.2 with ⟨t, htail, ht⟩
  rcases Option.isSome_iff_exists.mp hs.1.2 with ⟨id, hid⟩
  exact ⟨s, t, id, hs.1.1, hid, hrun, htail, ht⟩

/-- Ala is told the truth. -/
theorem confirmed_in_time :
    ∃ s t, exec (step stoppedClock) init writingRun = some s ∧
      exec (step stoppedClock) s (.message :: calmTail) = some t ∧
        ∃ acts, t.server.log = acts ++ s.server.log ∧
          Truthful ⟨1, 1⟩ (text "ola")
            (record (step stoppedClock) privateSend s (.message :: calmTail)) acts := by
  have hend : (exec (step stoppedClock) init writingRun).any (fun s => IsWriting s &&
      (exec (step stoppedClock) s (.message :: calmTail)).any (fun t =>
        decide (t.message = .recvfrom) &&
          decide (Meets (step stoppedClock) Undisturbed s (.message :: calmTail)))) = true := by
    decide +kernel
  rcases writing_run hend with ⟨s, t, id, hlookup, hsender, hrun, htail, ht⟩
  rw [Bool.and_eq_true, decide_eq_true_eq, decide_eq_true_eq] at ht
  have hparse : parse (text "2ONE ola hej") = .toOne (text "ola") (text "hej") := by decide
  exact ⟨s, t, hrun, htail,
    (confirmed_iff stoppedClock hlookup hparse hsender (by decide) htail ht.1).mpr ht.2⟩

/-- Ola is disconnected between the lookup of its name and the send, and ala is
    told that the message was sent. -/
theorem confirmed_for_nothing :
    ∃ s t, exec (step stoppedClock) init writingRun = some s ∧
      exec (step stoppedClock) s (.message :: sweptTail) = some t ∧ t.message = .recvfrom ∧
        ¬ ∃ acts, t.server.log = acts ++ s.server.log ∧
          Truthful ⟨1, 1⟩ (text "ola")
            (record (step stoppedClock) privateSend s (.message :: sweptTail)) acts := by
  have hend : (exec (step stoppedClock) init writingRun).any (fun s => IsWriting s &&
      (exec (step stoppedClock) s (.message :: sweptTail)).any (fun t =>
        decide (t.message = .recvfrom) &&
          (decide (.sent .reply ⟨1, 1⟩ (confirmText (text "ola")) ∈ t.server.log) &&
            (decide (.sent .reply ⟨1, 1⟩ (confirmText (text "ola")) ∉ s.server.log) &&
              (record (step stoppedClock) privateSend s (.message :: sweptTail)).isEmpty))))
        = true := by
    decide +kernel
  rcases writing_run hend with ⟨s, t, id, _, _, hrun, htail, ht⟩
  simp only [Bool.and_eq_true, decide_eq_true_eq, List.isEmpty_iff] at ht
  rcases ht with ⟨hidle, hmem, hnot, hnone⟩
  refine ⟨s, t, hrun, htail, hidle, ?_⟩
  rintro ⟨acts, hlog, htruthful⟩
  rw [hlog, List.mem_append, or_iff_left hnot, htruthful.confirmed, hnone] at hmem
  rcases hmem with ⟨i, act, hsent⟩
  exact absurd hsent (List.cons_ne_nil _ _).symm

end Udp

end OsLabs
