import OsLabs.Udp.Table

/-!
# Addresses and Names of the UDP Server

Two keys are expected to name a client: the address its datagrams come from,
and the name others write to. Neither is guarded as it should be.
`register_client` does not look at the address at all, so a client that
registers twice has two slots, of which `QUIT` frees one. And it compares the
name as received with names that were cut to `MAX_NAME_LEN - 1` bytes on the
way into the table, so two long names with a common beginning pass the check
and are stored as one.

Both keys are distinct along exactly the runs whose registrations bring a
fresh one. For addresses more follows: once the `QUIT` of an address is
carried out, no slot has the address, and until it registers again only
replies are sent to it. This goes through every interleaving with the sweep,
because the slot that a `QUIT` was resolved to stays the only one that can
have its address while the datagram is handled.

## Main definitions

* `Departed`: An address has quit and not registered since.
* `Quiet`: Nothing but replies was sent to departed addresses.
* `AddressSound`, `UniqueNames`: The two properties.
* `FreshAddr`, `FreshName`: The conditions on registrations.
* `Resolved`: The invariant of runs with fresh addresses.

## Theorems

* `leaving_step`: Where the thread's slot for a sender comes from.
* `resolved_step`: Steps with fresh addresses keep `Resolved`.
* `address_sound_iff`: Addresses, exactly.
* `unique_names_iff`: Names, exactly.
-/

namespace OsLabs

namespace Udp

open Machine

/-- The address has quit and not registered since. -/
def Departed (a : SockAddr) : List Action → Prop
  | [] => False
  | .registered b :: log => b ≠ a ∧ Departed a log
  | .quit b :: log => b = a ∨ Departed a log
  | .sent _ _ _ :: log => Departed a log

/-- Nothing but replies was ever sent to an address that had departed. -/
def Quiet : List Action → Prop
  | [] => True
  | .sent via dst _ :: log => (via = .reply ∨ ¬ Departed dst log) ∧ Quiet log
  | .registered _ :: log | .quit _ :: log => Quiet log

/-- No two active slots share an address. -/
def UniqueAddrs (s : State) : Prop :=
  ∀ i j, (s.server.clients i).active = true → (s.server.clients j).active = true →
    (s.server.clients i).addr = (s.server.clients j).addr → i = j

/-- No two active slots share a name. -/
def UniqueNames (s : State) : Prop :=
  ∀ i j, (s.server.clients i).active = true → (s.server.clients j).active = true →
    (s.server.clients i).name.str = (s.server.clients j).name.str → i = j

/-- Addresses name clients, and an address that has quit is forgotten. -/
structure AddressSound (s : State) : Prop where
  unique : UniqueAddrs s
  forgotten : ∀ a, Departed a s.server.log → s.server.findClientByAddr a = none
  quiet : Quiet s.server.log

/-- The step does not register an address that an active slot has. -/
def FreshAddr (s : State) : Event → Prop
  | .message => ∀ p ∈ s.accepts, s.server.findClientByAddr p.2.1 = none
  | _ => True

/-- The step does not register a name that is cut to the name of an active
    slot. -/
def FreshName (s : State) : Event → Prop
  | .message => ∀ p ∈ s.accepts, maxNameLen - 1 < p.2.2.length →
      ∀ j, (s.server.clients j).active = true →
        (s.server.clients j).name.str ≠ p.2.2.take (maxNameLen - 1)
  | _ => True

instance (s : State) (e : Event) : Decidable (FreshAddr s e) := by
  unfold FreshAddr
  split <;> infer_instance

instance (s : State) (e : Event) : Decidable (FreshName s e) := by
  unfold FreshName
  split <;> infer_instance

/-- Distinct keys in the words of the program. -/
theorem distinct_slots_iff {κ : Type*} (key : Entry → κ) (s : Server) :
    Distinct key s.roster.slots ↔
      ∀ i j, (s.clients i).active = true → (s.clients j).active = true →
        key ⟨(s.clients i).addr, (s.clients i).name.str⟩
          = key ⟨(s.clients j).addr, (s.clients j).name.str⟩ → i = j := by
  constructor
  · intro h i j hi hj heq
    exact h i j _ _ (Server.slots_of_active hi) (Server.slots_of_active hj) heq
  · intro h i j a b hi hj hab
    rcases Server.slots_eq_some.mp hi with ⟨hiactive, ha⟩
    rcases Server.slots_eq_some.mp hj with ⟨hjactive, hb⟩
    refine h i j hiactive hjactive ?_
    rwa [ha, hb] at hab

theorem distinct_addr_iff (s : State) :
    Distinct Entry.addr s.server.roster.slots ↔ UniqueAddrs s :=
  distinct_slots_iff Entry.addr s.server

theorem distinct_name_iff (s : State) :
    Distinct Entry.name s.server.roster.slots ↔ UniqueNames s :=
  distinct_slots_iff Entry.name s.server

theorem findClientByAddr_eq_none {s : Server} {a : SockAddr} :
    s.findClientByAddr a = none ↔ ∀ i e, s.roster.slots i = some e → e.addr ≠ a := by
  unfold Server.findClientByAddr
  rw [scan_none]
  constructor
  · intro h i e hi heq
    rcases Server.slots_eq_some.mp hi with ⟨hactive, he⟩
    have hscan := h i
    rw [hactive, Bool.true_and, decide_eq_false_iff_not] at hscan
    rw [he] at heq
    exact hscan heq
  · intro h i
    by_cases hactive : (s.clients i).active = true
    · rw [hactive, Bool.true_and, decide_eq_false_iff_not]
      exact h i _ (Server.slots_of_active hactive)
    · rw [Bool.not_eq_true] at hactive
      rw [hactive, Bool.false_and]

theorem findClientByAddr_eq_some {s : Server} {a : SockAddr} {i : Slot}
    (h : s.findClientByAddr a = some i) : ∃ e, s.roster.slots i = some e ∧ e.addr = a := by
  have hscan := scan_some h
  rw [Bool.and_eq_true, decide_eq_true_eq] at hscan
  exact ⟨_, Server.slots_of_active hscan.1, hscan.2⟩

/-- Names in the table differ from a name that the lookup did not find. -/
theorem findClientByName_eq_none {s : Server} {name : Bytes} (h : s.findClientByName name = none)
    {i : Slot} {e : Entry} (hi : s.roster.slots i = some e) : e.name ≠ name := by
  rcases Server.slots_eq_some.mp hi with ⟨hactive, he⟩
  have hscan := scan_none.mp h i
  rw [hactive, Bool.true_and, beq_eq_false_iff_ne] at hscan
  rw [he]
  exact hscan

/-- Sending does not change who has departed. -/
theorem departed_delivers {r : Roster Slot Entry} {acts : List Action} (h : Delivers r acts)
    (a : SockAddr) (log : List Action) : Departed a (acts ++ log) ↔ Departed a log := by
  induction acts with
  | nil => rw [List.nil_append]
  | cons act acts ih =>
      rcases h act List.mem_cons_self with ⟨via, dst, message, hact, _⟩
      rw [List.cons_append, hact]
      exact ih (fun b hb => h b (List.mem_cons_of_mem _ hb))

/-- What is sent to registered addresses keeps a log quiet, if those who have
    departed are not registered. -/
theorem quiet_delivers {r : Roster Slot Entry} {acts log : List Action} (h : Delivers r acts)
    (hgone : ∀ a, Departed a log → ∀ i e, r.slots i = some e → e.addr ≠ a) (hlog : Quiet log) :
    Quiet (acts ++ log) := by
  induction acts with
  | nil => rwa [List.nil_append]
  | cons act acts ih =>
      have hrest : Delivers r acts := fun b hb => h b (List.mem_cons_of_mem _ hb)
      rcases h act List.mem_cons_self with ⟨via, dst, message, hact, hvia⟩
      rw [List.cons_append, hact]
      refine ⟨?_, ih hrest⟩
      rcases hvia with hreply | ⟨i, e, hi, he⟩
      · exact Or.inl hreply
      · right
        intro hdeparted
        exact hgone dst ((departed_delivers hrest dst log).mp hdeparted) i e hi he

/-- The sender and the slot that a datagram was resolved to, up to the removal
    that a `QUIT` ends with. -/
def Pc.leaving : Pc → Option (SockAddr × Slot)
  | .touch src id _ | .farewell src id | .remove src id => some (src, id)
  | _ => none

/-- The slot a datagram is resolved to is the one its sender's address was
    found in. -/
theorem leaving_step {clk : LocalClock} {s s' : State} {e : Event} {src : SockAddr} {id : Slot}
    (h : step clk s e = some s') (hleaving : s'.message.leaving = some (src, id)) :
    s.message.leaving = some (src, id) ∨
      (s'.server = s.server ∧ s.server.findClientByAddr src = some id) := by
  rcases step_cases h with ⟨_, hserver, hsame | ⟨src', buffer, hlookup, _⟩⟩ | ⟨_, hmessage⟩ |
    ⟨_, _, _, hsame⟩
  · left
    rwa [← hsame]
  · rw [hlookup] at hleaving
    exact absurd hleaving (by simp only [Pc.leaving, reduceCtorEq, not_false_eq_true])
  · generalize s.message = pc at hmessage
    generalize s'.message = pc' at hmessage hleaving
    generalize s'.server = server at hmessage
    cases messageStep_cases hmessage with
    | known src' buffer id' hregister hfind =>
        right
        simp only [Pc.leaving, Option.some.injEq, Prod.mk.injEq] at hleaving
        rw [← hleaving.1, ← hleaving.2]
        exact ⟨rfl, hfind⟩
    | touch src' id' buffer =>
        left
        -- Of the commands only `QUIT` goes on to a removal, with the same slot.
        cases hparse : parse buffer with
        | quit =>
            rw [hparse] at hleaving
            exact hleaving
        | _ =>
            rw [hparse] at hleaving
            exact absurd hleaving (by
              simp only [dispatch, Pc.leaving, reduceCtorEq, not_false_eq_true])
    | farewell src' id' => exact Or.inl hleaving
    | _ => exact absurd hleaving (by simp only [Pc.leaving, reduceCtorEq, not_false_eq_true])
  · left
    rwa [← hsame]

/-- What holds along runs that register fresh addresses only. -/
structure Resolved (s : State) : Prop where
  inv : Inv s
  addrs : Distinct Entry.addr s.server.roster.slots
  /-- The slot a datagram was resolved to is the only one its sender can have. -/
  sender : ∀ src id, s.message.leaving = some (src, id) →
    ∀ i e, s.server.roster.slots i = some e → e.addr = src → i = id
  gone : ∀ a, Departed a s.server.log → ∀ i e, s.server.roster.slots i = some e → e.addr ≠ a
  quiet : Quiet s.server.log

theorem resolved_init : Resolved init where
  inv := inv_init
  addrs := distinct_empty _
  sender := fun src id h =>
    absurd h (by simp only [init, Pc.leaving, reduceCtorEq, not_false_eq_true])
  gone := fun a h => absurd h id
  quiet := trivial

theorem resolved_step {clk : LocalClock} {s s' : State} {e : Event} (h : Resolved s)
    (hC : FreshAddr s e) (hstep : step clk s e = some s') : Resolved s' := by
  have hmove := step_move h.inv.clean hstep
  -- Apart from the entry of a registration the slots only empty.
  have hshrink : (∀ i a, s'.server.roster.slots i = some a → s.server.roster.slots i = some a) ∨
      s.message.leaving = none := by
    cases hmove with
    | evictions is acts hidle hroster hlog hacts =>
        left
        rw [hroster]
        exact fun i a => Roster.slots_evictions
    | enter i src name hevent haccepts hroster hlog =>
        right
        rw [(State.accepts_eq_some.mp haccepts).1]
        rfl
    | quit src id hevent hmessage hroster hlog =>
        left
        rw [hroster]
        exact fun i a => Roster.slots_evict
  have hsender : ∀ src id, s'.message.leaving = some (src, id) →
      ∀ i a, s'.server.roster.slots i = some a → a.addr = src → i = id := by
    intro src id hleaving i a hi ha
    rcases leaving_step hstep hleaving with hbefore | ⟨hserver, hfind⟩
    · rcases hshrink with hsub | hnone
      · exact h.sender src id hbefore i a (hsub i a hi) ha
      · rw [hnone] at hbefore
        exact absurd hbefore (by simp only [reduceCtorEq, not_false_eq_true])
    · rcases findClientByAddr_eq_some hfind with ⟨b, hid, hb⟩
      rw [hserver] at hi
      exact h.addrs i id a b hi hid (ha.trans hb.symm)
  cases hmove with
  | evictions is acts hidle hroster hlog hacts =>
      have hsub : ∀ i a, s'.server.roster.slots i = some a → s.server.roster.slots i = some a := by
        rw [hroster]
        exact fun i a => Roster.slots_evictions
      refine ⟨inv_step h.inv hstep, distinct_of_subset hsub h.addrs, hsender, ?_, ?_⟩
      · intro a hdeparted i b hi
        rw [hlog, departed_delivers hacts] at hdeparted
        exact h.gone a hdeparted i b (hsub i b hi)
      · rw [hlog]
        exact quiet_delivers hacts h.gone h.quiet
  | enter i src name hevent haccepts hroster hlog =>
      subst hevent
      -- The address is in no slot, so it may be put into one.
      have hfresh := findClientByAddr_eq_none.mp (hC _ haccepts)
      refine ⟨inv_step h.inv hstep, ?_, hsender, ?_, ?_⟩
      · rw [hroster]
        exact (distinct_put_iff (State.slot_of_accepts haccepts) h.addrs).mpr hfresh
      · intro a hdeparted j b hj
        rw [hlog] at hdeparted
        rw [hroster] at hj
        rcases put_eq_some.mp hj with ⟨_, hb⟩ | ⟨_, hold⟩
        · rw [hb]
          exact hdeparted.1
        · exact h.gone a hdeparted.2 j b hold
      · rw [hlog]
        exact h.quiet
  | quit src id hevent hmessage hroster hlog =>
      have hsub : ∀ i a, s'.server.roster.slots i = some a → s.server.roster.slots i = some a := by
        rw [hroster]
        exact fun i a => Roster.slots_evict
      refine ⟨inv_step h.inv hstep, distinct_of_subset hsub h.addrs, hsender, ?_, ?_⟩
      · intro a hdeparted j b hj hb
        rw [hlog] at hdeparted
        rcases hdeparted with hsrc | hbefore
        · -- The one slot with the address is the one just emptied.
          have hjid := h.sender src id (by rw [hmessage]; rfl) j b (hsub j b hj)
            (hb.trans hsrc.symm)
          rw [hroster, hjid, Roster.slots_evict_self] at hj
          exact absurd hj (by simp only [reduceCtorEq, not_false_eq_true])
        · exact h.gone a hbefore j b (hsub j b hj) hb
      · rw [hlog]
        exact h.quiet

theorem addressSound_of_resolved {s : State} (h : Resolved s) : AddressSound s where
  unique := (distinct_addr_iff s).mp h.addrs
  forgotten := fun a ha => findClientByAddr_eq_none.mpr (h.gone a ha)
  quiet := h.quiet

/-- A step keeps a key of the slots distinct exactly when a registration
    brings a fresh one. -/
theorem distinct_step_iff {κ : Type*} {key : Entry → κ} {clk : LocalClock} {s s' : State}
    {e : Event} (h : Inv s) (hkeys : Distinct key s.server.roster.slots)
    (hstep : step clk s e = some s') :
    Distinct key s'.server.roster.slots ↔
      (e = .message → ∀ i src name, s.accepts = some (i, src, name) →
        ∀ j a, s.server.roster.slots j = some a →
          key a ≠ key ⟨src, name.take (maxNameLen - 1)⟩) := by
  cases step_move h.clean hstep with
  | evictions is acts hidle hroster hlog hacts =>
      -- Evictions keep keys distinct, and nothing is registered.
      have hkeep : Distinct key s'.server.roster.slots := by
        rw [hroster]
        exact distinct_of_subset (fun _ _ => Roster.slots_evictions) hkeys
      simp only [hkeep, true_iff]
      intro he i src name haccepts
      rw [hidle he] at haccepts
      exact absurd haccepts (by simp only [reduceCtorEq, not_false_eq_true])
  | enter i src name hevent haccepts hroster hlog =>
      rw [hroster]
      -- The one change that can go wrong, and the key decides it.
      refine (distinct_put_iff (State.slot_of_accepts haccepts) hkeys).trans ?_
      simp only [hevent, haccepts, forall_const, Option.some.injEq, Prod.mk.injEq]
      constructor
      · rintro hfresh _ _ _ ⟨_, hsrc, hname⟩ j a hj
        rw [← hsrc, ← hname]
        exact hfresh j a hj
      · intro hfresh
        exact hfresh i src name ⟨rfl, rfl, rfl⟩
  | quit src id hevent hmessage hroster hlog =>
      have hkeep : Distinct key s'.server.roster.slots := by
        rw [hroster]
        exact distinct_of_subset (fun _ _ => Roster.slots_evict) hkeys
      simp only [hkeep, true_iff]
      intro _ i src' name haccepts
      rw [(State.accepts_eq_some.mp haccepts).1] at hmessage
      exact absurd hmessage (by simp only [reduceCtorEq, not_false_eq_true])

theorem uniqueAddrs_step_iff {clk : LocalClock} {s s' : State} {e : Event} (h : Inv s)
    (haddrs : UniqueAddrs s) (hstep : step clk s e = some s') :
    UniqueAddrs s' ↔ FreshAddr s e := by
  rw [← distinct_addr_iff, distinct_step_iff h ((distinct_addr_iff s).mpr haddrs) hstep]
  constructor
  · intro hfresh
    unfold FreshAddr
    split
    · intro p hp
      exact findClientByAddr_eq_none.mpr (hfresh rfl p.1 p.2.1 p.2.2 hp)
    · trivial
  · intro hfresh he i src name haccepts
    subst he
    exact findClientByAddr_eq_none.mp (hfresh _ haccepts)

theorem uniqueNames_step_iff {clk : LocalClock} {s s' : State} {e : Event} (h : Inv s)
    (hnames : UniqueNames s) (hstep : step clk s e = some s') :
    UniqueNames s' ↔ FreshName s e := by
  rw [← distinct_name_iff, distinct_step_iff h ((distinct_name_iff s).mpr hnames) hstep]
  constructor
  · intro hfresh
    unfold FreshName
    split
    · intro p hp _ j hj
      exact hfresh rfl p.1 p.2.1 p.2.2 hp j _ (Server.slots_of_active hj)
    · trivial
  · intro hfresh he i src name haccepts j a hj
    subst he
    by_cases hlong : maxNameLen - 1 < name.length
    · rcases Server.slots_eq_some.mp hj with ⟨hactive, ha⟩
      rw [ha]
      exact hfresh _ haccepts hlong j hactive
    · -- A name that fits is stored as it was compared.
      have hfits : name.take (maxNameLen - 1) = name := List.take_of_length_le (by omega)
      rw [hfits]
      exact findClientByName_eq_none (State.accepts_eq_some.mp haccepts).2.1 hj

/-- Along a run, addresses name clients and those that have quit are forgotten
    exactly when every registration brings an address that no active slot has. -/
theorem address_sound_iff (clk : LocalClock) (es : List Event) (t : State)
    (hrun : exec (step clk) init es = some t) :
    Always (step clk) AddressSound init es ↔ Meets (step clk) FreshAddr init es := by
  constructor
  · intro h
    refine (always_iff_meets (fun _ _ _ hs hstep => inv_step hs hstep)
      (fun _ _ _ hs hu hstep => uniqueAddrs_step_iff hs hu hstep) inv_init ?_ hrun).mp
      (always_mono (fun _ hs => hs.unique) h)
    exact (distinct_addr_iff init).mp (distinct_empty _)
  · exact always_of_meets (fun _ _ _ hs hCs hstep => resolved_step hs hCs hstep)
      (fun _ hs => addressSound_of_resolved hs) resolved_init

/-- Two addresses register, one of them quits and is not written to any more,
    and registers again. -/
def rejoinRun : List Event :=
  [.datagram ⟨1, 1⟩ (text "REGISTER ala"), .message, .message, .message,
    .datagram ⟨2, 2⟩ (text "REGISTER ola"), .message, .message, .message,
    .datagram ⟨1, 1⟩ (text "QUIT"), .message, .message, .message, .message,
    .datagram ⟨2, 2⟩ (text "2ALL hej"), .message, .message, .message, .message,
    .pingWake, .sweep,
    .datagram ⟨1, 1⟩ (text "REGISTER ala"), .message, .message, .message]

/-- Both are registered at the end, and one of them has quit in between. -/
theorem address_sound_in_rejoinRun :
    (exec (step stoppedClock) init rejoinRun).any (fun s =>
      decide (.quit ⟨1, 1⟩ ∈ s.server.log ∧ s.server.findClientByAddr ⟨1, 1⟩ = some 0 ∧
        s.server.findClientByAddr ⟨2, 2⟩ = some 1)) = true ∧
      Always (step stoppedClock) AddressSound init rejoinRun := by
  have hend : (exec (step stoppedClock) init rejoinRun).any (fun s =>
      decide (.quit ⟨1, 1⟩ ∈ s.server.log ∧ s.server.findClientByAddr ⟨1, 1⟩ = some 0 ∧
        s.server.findClientByAddr ⟨2, 2⟩ = some 1)) = true := by
    decide +kernel
  rcases exists_of_exec_any hend with ⟨t, hrun, _⟩
  exact ⟨hend, (address_sound_iff stoppedClock _ t hrun).mpr (by decide +kernel)⟩

/-- One address registers under two names, then quits. -/
def twiceRun : List Event :=
  [.datagram ⟨1, 1⟩ (text "REGISTER ala"), .message, .message, .message,
    .datagram ⟨1, 1⟩ (text "REGISTER ola"), .message, .message, .message,
    .datagram ⟨1, 1⟩ (text "QUIT"), .message, .message, .message, .message]

/-- The address has quit and still has a slot. -/
theorem quit_leaves_second_slot :
    ¬ ∀ clk s, Reaches (step clk) init s → AddressSound s := by
  intro hall
  have hend : (exec (step stoppedClock) init twiceRun).any (fun s =>
      decide (s.server.log.head? = some (.quit ⟨1, 1⟩) ∧
        s.server.findClientByAddr ⟨1, 1⟩ = some 1)) = true := by
    decide +kernel
  rcases exists_of_exec_any hend with ⟨s, hrun, hs⟩
  rcases of_decide_eq_true hs with ⟨hlog, hfind⟩
  rcases List.head?_eq_some_iff.mp hlog with ⟨log, hlog⟩
  have hdeparted : Departed ⟨1, 1⟩ s.server.log := by
    rw [hlog]
    exact Or.inl rfl
  have hnone := (hall stoppedClock s ⟨twiceRun, hrun⟩).forgotten _ hdeparted
  rw [hfind] at hnone
  exact absurd hnone (by simp only [reduceCtorEq, not_false_eq_true])

/-- Along a run, names are unique exactly when no name longer than a slot
    holds is registered whose stored part is the name of an active slot. -/
theorem unique_names_iff (clk : LocalClock) (es : List Event) (t : State)
    (hrun : exec (step clk) init es = some t) :
    Always (step clk) UniqueNames init es ↔ Meets (step clk) FreshName init es := by
  refine always_iff_meets (fun _ _ _ hs hstep => inv_step hs hstep)
    (fun _ _ _ hs hu hstep => uniqueNames_step_iff hs hu hstep) inv_init ?_ hrun
  exact (distinct_name_iff init).mp (distinct_empty _)

/-- Two addresses register, one of them with a name that is one byte too
    long. -/
def cutNameRun : List Event :=
  [.datagram ⟨1, 1⟩ (text "REGISTER ola"), .message, .message, .message,
    .datagram ⟨2, 2⟩ (text "REGISTER " ++ List.replicate 32 97), .message, .message, .message]

/-- The name is cut, and differs from the other one all the same. -/
theorem unique_names_in_cutNameRun :
    (exec (step stoppedClock) init cutNameRun).any (fun s =>
      decide ((s.server.clients 0).active = true ∧ (s.server.clients 0).name.str = text "ola" ∧
        (s.server.clients 1).active = true ∧
        (s.server.clients 1).name.str = List.replicate 31 97)) = true ∧
      Always (step stoppedClock) UniqueNames init cutNameRun := by
  have hend : (exec (step stoppedClock) init cutNameRun).any (fun s =>
      decide ((s.server.clients 0).active = true ∧ (s.server.clients 0).name.str = text "ola" ∧
        (s.server.clients 1).active = true ∧
        (s.server.clients 1).name.str = List.replicate 31 97)) = true := by
    decide +kernel
  rcases exists_of_exec_any hend with ⟨t, hrun, _⟩
  exact ⟨hend, (unique_names_iff stoppedClock _ t hrun).mpr (by decide +kernel)⟩

/-- Two addresses register the same name, which is one byte too long. -/
def longNameRun : List Event :=
  [.datagram ⟨1, 1⟩ (text "REGISTER " ++ List.replicate 32 97), .message, .message, .message,
    .datagram ⟨2, 2⟩ (text "REGISTER " ++ List.replicate 32 97), .message, .message]

/-- Slots 0 and 1 have the same name. -/
theorem long_name_twice :
    ¬ ∀ clk s, Reaches (step clk) init s → UniqueNames s := by
  intro hall
  have hend : (exec (step stoppedClock) init longNameRun).any (fun s =>
      decide ((s.server.clients 0).active = true ∧ (s.server.clients 1).active = true ∧
        (s.server.clients 0).name.str = (s.server.clients 1).name.str)) = true := by
    decide +kernel
  rcases exists_of_exec_any hend with ⟨s, hrun, hs⟩
  rcases of_decide_eq_true hs with ⟨h0, h1, hname⟩
  exact absurd (hall stoppedClock s ⟨longNameRun, hrun⟩ 0 1 h0 h1 hname) (by decide)

end Udp

end OsLabs
