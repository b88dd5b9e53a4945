import OsLabs.Library.Machine
import OsLabs.Tcp.Registry

/-!
# The Table of the TCP Server

The counter, the names and the descriptors, in every state that any
interleaving reaches. Threads change the table from four places, but as
operations on the registry there are only four changes: `accept` opens a
descriptor, the accept loop closes the one it holds or enters it into a slot,
and everybody else evicts. `step_move` is that classification, and the
invariant is shown for the four changes instead of for the program.

A handler that is late may evict a session that is not its own. This is no
exception here: an eviction closes the descriptor of whatever session the
slot holds, once, whoever asks for it.

The delicate part is the accept loop. It checks the name slot by slot without
the lock, holds a descriptor of its own in the meantime, and has three error
exits. Nobody else fills slots, so a name once checked stays unused:
`Checked` carries this from slot to slot, and survives because evictions only
empty slots.

## Main definitions

* `Registry.Sound`: What holds of a registry and the descriptors, with the
  descriptor that the accept loop holds on its own.
* `Checked`: What the accept loop has established about the name so far.
* `Move`: The changes one step of the server makes to its registry.
* `Inv`: The invariant of the server's table.
* `Known`: Threads belong to accepted connections.
* `TableSound`: The invariant in the words of the program.

## Theorems

* `sound_evict`, `sound_enter`, `sound_connect`, `sound_close`: The changes
  keep a registry sound.
* `step_move`: Every step of the server is a move of its registry.
* `inv_step`, `inv_reachable`: The invariant along runs.
* `known_step`: Every step keeps threads known.
* `fds_iff`: Who a descriptor is open for.
* `table_sound`: The table in every reachable state.
-/

namespace OsLabs

namespace Tcp

open Machine

/-- What holds of the registry when the accept loop holds `held` and
    `accepted` connections have been made. -/
structure Registry.Sound (r : Registry) (held : Option (Fd × Conn)) (accepted : Nat) : Prop where
  count : r.count = occupied r.slots
  names : Distinct Entry.name r.slots
  short : ∀ i e, r.slots i = some e → e.name.length ≤ maxNameLen - 1
  conns : Distinct Entry.conn r.slots
  isOpen : ∀ i e, r.slots i = some e → r.fds e.socket = some e.conn
  heldOpen : ∀ d c, held = some (d, c) → r.fds d = some c
  heldApart : ∀ d c, held = some (d, c) → ∀ i e, r.slots i = some e → e.conn ≠ c
  owned : ∀ d c, r.fds d = some c →
    held = some (d, c) ∨ ∃ i e, r.slots i = some e ∧ e.socket = d ∧ e.conn = c
  single : ∀ d d' c, r.fds d = some c → r.fds d' = some c → d = d'
  returned : ∀ d c, r.fds d = some c → c < accepted
  unclosed : ∀ d c, r.fds d = some c → r.closes c = 0
  future : ∀ c, accepted ≤ c → r.closes c = 0
  once : ∀ c, r.closes c ≤ 1
  good : r.badCloses = 0

namespace Registry

variable {r : Registry} {held : Option (Fd × Conn)} {accepted : Nat}

theorem close_of_open {d : Fd} {c : Conn} (h : r.fds d = some c) :
    r.close d = { r with
      fds := Function.update r.fds d none
      closes := Function.update r.closes c (r.closes c + 1) } := by
  simp only [close, h]

/-- After closing `d`, what is open was open before under another number. -/
theorem fds_update_none {d d' : Fd} {c : Conn}
    (h : Function.update r.fds d none d' = some c) : d' ≠ d ∧ r.fds d' = some c := by
  by_cases hd : d' = d
  · rw [hd, Function.update_self] at h
    exact absurd h (by simp only [reduceCtorEq, not_false_eq_true])
  · rw [Function.update_of_ne hd] at h
    exact ⟨hd, h⟩

theorem sound_evict (h : r.Sound held accepted) (i : Slot) : (r.evict i).Sound held accepted := by
  cases hi : r.slots i with
  | none => rwa [evict_of_none hi]
  | some e =>
      have hopen := h.isOpen i e hi
      rw [evict_of_some hi, close_of_open hopen]
      -- A connection other than the evicted one keeps its count of closes.
      have hcloses : ∀ c, c ≠ e.conn →
          Function.update r.closes e.conn (r.closes e.conn + 1) c = r.closes c :=
        fun c hc => Function.update_of_ne hc ..
      have hother : ∀ d c, d ≠ e.socket → r.fds d = some c → c ≠ e.conn := by
        rintro d c hd hfd rfl
        exact hd (h.single d e.socket e.conn hfd hopen)
      refine
        { count := ?_, names := distinct_clear i h.names, short := ?_,
          conns := distinct_clear i h.conns, isOpen := ?_, heldOpen := ?_, heldApart := ?_,
          owned := ?_, single := ?_, returned := ?_, unclosed := ?_, future := ?_, once := ?_,
          good := h.good }
      -- The table without the slot: one entry less, and what is left was there before.
      · have hcount := occupied_clear hi
        have := h.count
        simp only
        omega
      · intro j e' hj
        exact h.short j e' (clear_eq_some.mp hj).2
      · intro j e' hj
        rcases clear_eq_some.mp hj with ⟨hji, hj'⟩
        -- Another entry has another descriptor, as it has another connection.
        have hsock : e'.socket ≠ e.socket := by
          intro heq
          have hopen' := h.isOpen j e' hj'
          rw [heq, hopen, Option.some.injEq] at hopen'
          exact hji (h.conns j i e' e hj' hi hopen'.symm)
        simp only [Function.update_of_ne hsock]
        exact h.isOpen j e' hj'
      -- The descriptor that the accept loop holds is in no slot.
      · intro d c hheld
        have hd : d ≠ e.socket := by
          rintro rfl
          have := h.heldOpen e.socket c hheld
          rw [hopen, Option.some.injEq] at this
          exact h.heldApart e.socket c hheld i e hi this
        simp only [Function.update_of_ne hd]
        exact h.heldOpen d c hheld
      · intro d c hheld j e' hj
        exact h.heldApart d c hheld j e' (clear_eq_some.mp hj).2
      -- An open descriptor that is not the closed one still has its owner.
      · intro d c hfd
        rcases fds_update_none hfd with ⟨hd, hfd'⟩
        rcases h.owned d c hfd' with hheld | ⟨j, e', hj, hsock, hconn⟩
        · exact Or.inl hheld
        · refine Or.inr ⟨j, e', clear_eq_some.mpr ⟨?_, hj⟩, hsock, hconn⟩
          rintro rfl
          rw [hi, Option.some.injEq] at hj
          exact hd (by rw [← hsock, hj])
      · intro d d' c hfd hfd'
        exact h.single d d' c (fds_update_none hfd).2 (fds_update_none hfd').2
      · intro d c hfd
        exact h.returned d c (fds_update_none hfd).2
      · intro d c hfd
        rcases fds_update_none hfd with ⟨hd, hfd'⟩
        simp only [hcloses c (hother d c hd hfd')]
        exact h.unclosed d c hfd'
      · intro c hc
        have hlt := h.returned e.socket e.conn hopen
        simp only [hcloses c (Nat.ne_of_gt (Nat.lt_of_lt_of_le hlt hc))]
        exact h.future c hc
      -- The evicted connection is closed once, and had not been closed.
      · intro c
        by_cases hc : c = e.conn
        · subst hc
          simp only [Function.update_self, h.unclosed e.socket e.conn hopen]
          omega
        · simp only [hcloses c hc]
          exact h.once c

theorem sound_evictions (h : r.Sound held accepted) (is : List Slot) :
    (is.foldl evict r).Sound held accepted := by
  induction is generalizing r with
  | nil => exact h
  | cons i is ih => exact ih (sound_evict h i)

/-- Entering the connection that the accept loop holds into an empty slot,
    under a name that no slot has. -/
theorem sound_enter {i : Slot} {e : Entry} (h : r.Sound (some (e.socket, e.conn)) accepted)
    (hi : r.slots i = none) (hname : ∀ j e', r.slots j = some e' → e'.name ≠ e.name)
    (hshort : e.name.length ≤ maxNameLen - 1) : (r.enter i e).Sound none accepted := by
  refine
    { count := ?_, names := (distinct_put_iff hi h.names).mpr hname, short := ?_,
      conns := (distinct_put_iff hi h.conns).mpr (h.heldApart e.socket e.conn rfl), isOpen := ?_,
      heldOpen := fun _ _ hheld => absurd hheld (by simp only [reduceCtorEq, not_false_eq_true]),
      heldApart := fun _ _ hheld => absurd hheld (by simp only [reduceCtorEq, not_false_eq_true]),
      owned := ?_, single := h.single, returned := h.returned, unclosed := h.unclosed,
      future := h.future, once := h.once, good := h.good }
  -- One entry more, and one to the counter.
  · have hcount := occupied_put e hi
    have := h.count
    simp only [enter]
    omega
  · intro j e' hj
    rcases put_eq_some.mp hj with ⟨_, rfl⟩ | ⟨_, hj'⟩
    · exact hshort
    · exact h.short j e' hj'
  · intro j e' hj
    rcases put_eq_some.mp hj with ⟨_, rfl⟩ | ⟨_, hj'⟩
    · exact h.heldOpen e'.socket e'.conn rfl
    · exact h.isOpen j e' hj'
  -- The descriptor passes from the accept loop to the slot.
  · intro d c hfd
    right
    rcases h.owned d c hfd with hheld | ⟨j, e', hj, hsock, hconn⟩
    · simp only [Option.some.injEq, Prod.mk.injEq] at hheld
      exact ⟨i, e, put_self _ _ _, hheld.1, hheld.2⟩
    · have hji : j ≠ i := by
        rintro rfl
        rw [hi] at hj
        exact absurd hj (by simp only [reduceCtorEq, not_false_eq_true])
      exact ⟨j, e', put_eq_some.mpr (Or.inr ⟨hji, hj⟩), hsock, hconn⟩

/-- A new connection on a descriptor that is not open. -/
theorem sound_connect {d : Fd} (h : r.Sound none accepted) (hd : r.fds d = none) :
    (r.connect d accepted).Sound (some (d, accepted)) (accepted + 1) := by
  have hne : ∀ {d' : Fd} {c : Conn}, r.fds d' = some c → d' ≠ d := by
    rintro d' c hfd rfl
    rw [hd] at hfd
    exact absurd hfd (by simp only [reduceCtorEq, not_false_eq_true])
  -- A descriptor open now is the new one or was open before.
  have hcase : ∀ {d' : Fd} {c : Conn}, Function.update r.fds d (some accepted) d' = some c →
      (d' = d ∧ c = accepted) ∨ (d' ≠ d ∧ r.fds d' = some c) := by
    intro d' c hfd
    exact put_eq_some.mp hfd
  refine
    { count := h.count, names := h.names, short := h.short, conns := h.conns, isOpen := ?_,
      heldOpen := ?_, heldApart := ?_, owned := ?_, single := ?_, returned := ?_, unclosed := ?_,
      future := fun c hc => h.future c (by omega), once := h.once, good := h.good }
  · intro i e hi
    have hopen := h.isOpen i e hi
    simp only [connect, Function.update_of_ne (hne hopen)]
    exact hopen
  · intro d' c hheld
    simp only [Option.some.injEq, Prod.mk.injEq] at hheld
    simp only [connect, ← hheld.1, ← hheld.2, Function.update_self]
  · intro d' c hheld i e hi
    simp only [Option.some.injEq, Prod.mk.injEq] at hheld
    rw [← hheld.2]
    exact Nat.ne_of_lt (h.returned e.socket e.conn (h.isOpen i e hi))
  · intro d' c hfd
    rcases hcase hfd with ⟨rfl, rfl⟩ | ⟨_, hfd'⟩
    · exact Or.inl rfl
    · rcases h.owned d' c hfd' with hheld | hslot
      · exact absurd hheld (by simp only [reduceCtorEq, not_false_eq_true])
      · exact Or.inr hslot
  -- The number of the new connection has not been used before.
  · intro d₁ d₂ c hfd₁ hfd₂
    rcases hcase hfd₁ with ⟨rfl, rfl⟩ | ⟨_, hfd₁'⟩
    · rcases hcase hfd₂ with ⟨rfl, _⟩ | ⟨_, hfd₂'⟩
      · rfl
      · exact absurd (h.returned d₂ _ hfd₂') (Nat.lt_irrefl _)
    · rcases hcase hfd₂ with ⟨rfl, rfl⟩ | ⟨_, hfd₂'⟩
      · exact absurd (h.returned d₁ _ hfd₁') (Nat.lt_irrefl _)
      · exact h.single d₁ d₂ c hfd₁' hfd₂'
  · intro d' c hfd
    rcases hcase hfd with ⟨_, rfl⟩ | ⟨_, hfd'⟩
    · exact Nat.lt_succ_self _
    · exact Nat.lt_succ_of_lt (h.returned d' c hfd')
  · intro d' c hfd
    rcases hcase hfd with ⟨_, rfl⟩ | ⟨_, hfd'⟩
    · exact h.future _ (le_refl _)
    · exact h.unclosed d' c hfd'

/-- The accept loop closes the descriptor it holds. -/
theorem sound_close {d : Fd} {c : Conn} (h : r.Sound (some (d, c)) accepted) :
    (r.close d).Sound none accepted := by
  have hopen := h.heldOpen d c rfl
  rw [close_of_open hopen]
  -- Only the connection that the loop held has one close more.
  have hcloses : ∀ c', c' ≠ c → Function.update r.closes c (r.closes c + 1) c' = r.closes c' :=
    fun c' hc => Function.update_of_ne hc ..
  refine
    { count := h.count, names := h.names, short := h.short, conns := h.conns, isOpen := ?_,
      heldOpen := fun _ _ hheld => absurd hheld (by simp only [reduceCtorEq, not_false_eq_true]),
      heldApart := fun _ _ hheld => absurd hheld (by simp only [reduceCtorEq, not_false_eq_true]),
      owned := ?_, single := ?_, returned := ?_, unclosed := ?_, future := ?_, once := ?_,
      good := h.good }
  · intro i e hi
    have hopen' := h.isOpen i e hi
    -- No slot has the number, since its connection was in no slot.
    have hd : e.socket ≠ d := by
      rintro rfl
      rw [hopen, Option.some.injEq] at hopen'
      exact h.heldApart e.socket c rfl i e hi hopen'.symm
    simp only [Function.update_of_ne hd]
    exact hopen'
  · intro d' c' hfd
    rcases fds_update_none hfd with ⟨hd, hfd'⟩
    rcases h.owned d' c' hfd' with hheld | hslot
    · simp only [Option.some.injEq, Prod.mk.injEq] at hheld
      exact absurd hheld.1.symm hd
    · exact Or.inr hslot
  · intro d₁ d₂ c' hfd₁ hfd₂
    exact h.single d₁ d₂ c' (fds_update_none hfd₁).2 (fds_update_none hfd₂).2
  · intro d' c' hfd
    exact h.returned d' c' (fds_update_none hfd).2
  · intro d' c' hfd
    rcases fds_update_none hfd with ⟨hd, hfd'⟩
    have hc : c' ≠ c := by
      rintro rfl
      exact hd (h.single d' d c' hfd' hopen)
    simp only [hcloses c' hc]
    exact h.unclosed d' c' hfd'
  · intro c' hc
    have hlt := h.returned d c hopen
    simp only [hcloses c' (Nat.ne_of_gt (Nat.lt_of_lt_of_le hlt hc))]
    exact h.future c' hc
  · intro c'
    by_cases hc : c' = c
    · subst hc
      simp only [Function.update_self, h.unclosed d c' hopen]
      omega
    · simp only [hcloses c' hc]
      exact h.once c'

end Registry

/-- What the accept loop has established about the name it will register: no
    slot before the one it is looking at has it, and at the end none has. -/
def Checked (slots : Slot → Option Entry) : MainPc → Prop
  | .scan _ _ name k => NulFree name ∧ name.length ≤ maxNameLen - 1 ∧
      ∀ i e, slots i = some e → i.val < k → e.name ≠ name
  | .insert _ _ name => NulFree name ∧ name.length ≤ maxNameLen - 1 ∧
      ∀ i e, slots i = some e → e.name ≠ name
  | _ => True

/-- Emptying slots cannot bring a name back. -/
theorem checked_mono {slots slots' : Slot → Option Entry} {pc : MainPc}
    (hsub : ∀ i e, slots' i = some e → slots i = some e) (h : Checked slots pc) :
    Checked slots' pc := by
  cases pc with
  | scan d c name k =>
      rcases h with ⟨hnul, hlen, hname⟩
      exact ⟨hnul, hlen, fun i e hi hk => hname i e (hsub i e hi) hk⟩
  | insert d c name =>
      rcases h with ⟨hnul, hlen, hname⟩
      exact ⟨hnul, hlen, fun i e hi => hname i e (hsub i e hi)⟩
  | _ => trivial

/-- What one step of the server does to its registry. -/
inductive Move (s : State) (e : Event) (s' : State) : Prop where
  | evictions (is : List Slot) (hmain : s'.main = s.main) (haccepted : s'.accepted = s.accepted)
      (hregistry : s'.server.registry = is.foldl Registry.evict s.server.registry)
  | connect (d : Fd) (hevent : e = .accept (some d)) (hmain : s.main = .accept)
      (hclosed : s.server.registry.fds d = none)
      (hmain' : s'.main = .recvName d s.accepted) (haccepted : s'.accepted = s.accepted + 1)
      (hregistry : s'.server.registry = s.server.registry.connect d s.accepted)
  | advance (hheld : s'.main.held = s.main.held)
      (hhanded : s'.main.handed = s.main.handed ∨ s'.main.handed = none)
      (haccepted : s'.accepted = s.accepted)
      (hregistry : s'.server.registry = s.server.registry)
      (hchecked : Checked s.server.registry.slots s.main →
        Checked s.server.registry.slots s'.main)
  | enter (d : Fd) (c : Conn) (name : Bytes) (i : Slot) (hevent : e = .main)
      (hmain : s.main = .insert d c name) (hfirst : s.server.freeSlot = some i)
      (hfree : s.server.registry.slots i = none) (hmain' : s'.main = .welcome d c i)
      (haccepted : s'.accepted = s.accepted)
      (hregistry : NulFree name → s'.server.registry
        = s.server.registry.enter i ⟨name.take (maxNameLen - 1), d, c⟩)
  | close (d : Fd) (c : Conn) (error : Option Bytes) (hmain : s.main = .drop d c error)
      (hmain' : s'.main = .accept) (haccepted : s'.accepted = s.accepted)
      (hregistry : s'.server.registry = s.server.registry.close d)

/-- A step that moves the accept loop on with what it holds. -/
theorem Move.advance_main {s s' : State} {e : Event} {pc : MainPc}
    (heq : s' = { s with main := pc }) (hheld : pc.held = s.main.held)
    (hhanded : pc.handed = none)
    (hchecked : Checked s.server.registry.slots s.main → Checked s.server.registry.slots pc) :
    Move s e s' := by
  rw [heq]
  exact Move.advance hheld (Or.inr hhanded) rfl rfl hchecked

theorem mainStep_move {s s' : State} (h : mainStep s = some s') :
    Move s .main s' := by
  cases mainStep_cases h with
  | taken d c name k hmain heq =>
      exact Move.advance_main heq (by rw [hmain]; rfl) rfl (fun _ => trivial)
  | next d c name k hmain hname heq =>
      refine Move.advance_main heq (by rw [hmain]; rfl) rfl (fun hchecked => ?_)
      rw [hmain] at hchecked
      rcases hchecked with ⟨hnul, hlen, hbefore⟩
      refine ⟨hnul, hlen, fun i e hi hik => ?_⟩
      by_cases hlast : i = k
      · -- The slot just looked at: its name was compared.
        rcases Server.slots_eq_some.mp hi with ⟨hactive, rfl⟩
        rw [← hlast] at hname
        exact fun heq => hname ⟨hactive, heq⟩
      · have hne : i.val ≠ k.val := fun heq => hlast (Fin.ext heq)
        exact hbefore i e hi (by omega)
  | checked d c name k hmain hk heq =>
      refine Move.advance_main heq (by rw [hmain]; rfl) rfl (fun hchecked => ?_)
      rw [hmain] at hchecked
      rcases hchecked with ⟨hnul, hlen, hbefore⟩
      exact ⟨hnul, hlen, fun i e hi => hbefore i e hi (Nat.lt_of_lt_of_le i.isLt hk)⟩
  | full d c name hmain hfree heq =>
      exact Move.advance_main heq (by rw [hmain]; rfl) rfl (fun _ => trivial)
  | insert d c name i hmain hfree heq =>
      subst heq
      -- The slot is chosen under the lock, so it is still empty when it is filled.
      have hinactive := scan_some hfree
      rw [Bool.not_eq_true'] at hinactive
      exact Move.enter d c name i rfl hmain hfree (Server.slots_eq_none.mpr hinactive) rfl rfl
        (fun hnul => Server.registry_register s.server i d c hnul s.clock)
  | drop d c error hmain heq =>
      subst heq
      refine Move.close d c error hmain rfl rfl ?_
      rw [Server.registry_close]
      cases error with
      | none => rfl
      | some message => rw [Server.registry_send]
  | welcome d c i hmain heq =>
      subst heq
      exact Move.advance (by rw [hmain]; rfl) (Or.inl (by rw [hmain]; rfl)) rfl rfl
        (fun _ => trivial)
  | spawn c i hmain heq =>
      subst heq
      exact Move.advance (by rw [hmain]; rfl) (Or.inr rfl) rfl rfl (fun _ => trivial)

/-- A step that leaves the registry and the accept loop alone. -/
theorem Move.idle {s s' : State} {e : Event} (hmain : s'.main = s.main)
    (haccepted : s'.accepted = s.accepted)
    (hregistry : s'.server.registry = s.server.registry) : Move s e s' :=
  Move.evictions [] hmain haccepted hregistry

theorem step_move {clk : LocalClock} {s s' : State} {e : Event}
    (h : step clk s e = some s') : Move s e s' := by
  cases e with
  | time now =>
      simp only [step, Option.some.injEq] at h
      subst h
      exact Move.idle rfl rfl rfl
  | accept result =>
      rcases accept_cases h with ⟨hmain, rfl | ⟨d, rfl, hd, rfl⟩⟩
      · exact Move.idle rfl rfl rfl
      · exact Move.connect d rfl hmain hd rfl rfl rfl
  | recvName result =>
      -- A name just received has been compared with no slot.
      rcases recvName_cases h with ⟨d, c, hmain, ⟨bytes, hlen, rfl⟩ | rfl⟩
      · refine Move.advance_main rfl (by rw [hmain]; rfl) rfl (fun _ => ?_)
        refine ⟨nulFree_cstr _, le_trans (cstr_length_le _) hlen, fun i e _ hi => ?_⟩
        omega
      · exact Move.advance_main rfl (by rw [hmain]; rfl) rfl (fun _ => trivial)
  | main => exact mainStep_move h
  | pingWake =>
      rw [pingWake_cases h]
      exact Move.idle rfl rfl rfl
  | sweep =>
      rcases sweep_cases h with ⟨now, rfl⟩
      rcases Server.registry_pingSweep now s.server with ⟨is, his⟩
      refine Move.evictions is rfl rfl ?_
      simp only [his]
  | recv c result =>
      rcases recv_cases h with ⟨_, _, pc, _, _, rfl⟩
      exact Move.idle rfl rfl rfl
  | thread c =>
      rcases thread_cases h with ⟨id, pc, server, pc', _, hstep, rfl⟩
      -- Late or not, a handler that leaves evicts what its slot holds.
      rcases handlerStep_registry hstep with hsame | ⟨_, _, hevict⟩
      · exact Move.idle rfl rfl hsame
      · exact Move.evictions [id] rfl rfl hevict

/-- The invariant of the table: the registry is sound, counting what the
    accept loop holds, and the name check is right so far. -/
structure Inv (s : State) : Prop where
  sound : s.server.registry.Sound s.main.held s.accepted
  checked : Checked s.server.registry.slots s.main

theorem inv_init : Inv init where
  sound :=
    { count := by
        simp only [Server.registry, init, Bool.false_eq_true, if_false, occupied_empty]
        rfl
      names := distinct_empty _
      short := fun i e hi => absurd hi (by
        simp only [Server.registry, init, Bool.false_eq_true, if_false, reduceCtorEq,
          not_false_eq_true])
      conns := distinct_empty _
      isOpen := fun i e hi => absurd hi (by
        simp only [Server.registry, init, Bool.false_eq_true, if_false, reduceCtorEq,
          not_false_eq_true])
      heldOpen := fun d c hheld => absurd hheld (by
        simp only [init, MainPc.held, reduceCtorEq, not_false_eq_true])
      heldApart := fun d c hheld => absurd hheld (by
        simp only [init, MainPc.held, reduceCtorEq, not_false_eq_true])
      owned := fun d c hfd => absurd hfd (by
        simp only [Server.registry, init, reduceCtorEq, not_false_eq_true])
      single := fun d d' c hfd => absurd hfd (by
        simp only [Server.registry, init, reduceCtorEq, not_false_eq_true])
      returned := fun d c hfd => absurd hfd (by
        simp only [Server.registry, init, reduceCtorEq, not_false_eq_true])
      unclosed := fun d c hfd => rfl
      future := fun c hc => rfl
      once := fun c => Nat.zero_le 1
      good := rfl }
  checked := trivial

theorem inv_move {s s' : State} {e : Event} (hmove : Move s e s') (h : Inv s) : Inv s' := by
  cases hmove with
  | evictions is hmain haccepted hregistry =>
      refine ⟨?_, ?_⟩
      · rw [hregistry, hmain, haccepted]
        exact Registry.sound_evictions h.sound is
      · rw [hregistry, hmain]
        exact checked_mono (fun i e hi => Registry.slots_evictions hi) h.checked
  | connect d _ hmain hclosed hmain' haccepted hregistry =>
      refine ⟨?_, ?_⟩
      · have hsound := h.sound
        rw [hmain] at hsound
        rw [hregistry, hmain', haccepted]
        exact Registry.sound_connect hsound hclosed
      · rw [hmain']
        trivial
  | advance hheld _ haccepted hregistry hchecked =>
      refine ⟨?_, ?_⟩
      · rw [hregistry, hheld, haccepted]
        exact h.sound
      · rw [hregistry]
        exact hchecked h.checked
  | enter d c name i _ hmain _ hfree hmain' haccepted hregistry =>
      have hsound := h.sound
      have hchecked := h.checked
      rw [hmain] at hsound hchecked
      rcases hchecked with ⟨hnul, hlen, hname⟩
      refine ⟨?_, ?_⟩
      · rw [hregistry hnul, hmain', haccepted]
        -- The name fits the array, so the stored copy is the name itself.
        rw [List.take_of_length_le hlen]
        exact Registry.sound_enter hsound hfree hname hlen
      · rw [hmain']
        trivial
  | close d c error hmain hmain' haccepted hregistry =>
      have hsound := h.sound
      rw [hmain] at hsound
      refine ⟨?_, ?_⟩
      · rw [hregistry, hmain', haccepted]
        exact Registry.sound_close hsound
      · rw [hmain']
        trivial

theorem inv_step {clk : LocalClock} {s s' : State} {e : Event} (h : Inv s)
    (hstep : step clk s e = some s') : Inv s' :=
  inv_move (step_move hstep) h

theorem inv_reachable {clk : LocalClock} {s : State} (h : Reaches (step clk) init s) : Inv s :=
  reaches_invariant (fun _ _ _ hs hstep => inv_step hs hstep) inv_init h

/-- Threads and slots belong to connections that have been accepted. -/
structure Known (s : State) : Prop where
  threads : ∀ t th, s.threads t = some th → t < s.accepted
  handed : ∀ c i, s.main.handed = some (c, i) → c < s.accepted

theorem known_init : Known init where
  threads := fun t th h => absurd h (by simp only [init, reduceCtorEq, not_false_eq_true])
  handed := fun c i h => absurd h (by
    simp only [init, MainPc.handed, reduceCtorEq, not_false_eq_true])

theorem Move.accepted_le {s s' : State} {e : Event} (hmove : Move s e s') :
    s.accepted ≤ s'.accepted := by
  cases hmove with
  | connect d _ _ _ _ haccepted _ =>
      rw [haccepted]
      exact Nat.le_succ _
  | evictions _ _ haccepted _ => exact le_of_eq haccepted.symm
  | advance _ _ haccepted _ _ => exact le_of_eq haccepted.symm
  | enter _ _ _ _ _ _ _ _ _ haccepted _ => exact le_of_eq haccepted.symm
  | close _ _ _ _ _ haccepted _ => exact le_of_eq haccepted.symm

theorem known_step {clk : LocalClock} {s s' : State} {e : Event} (hinv : Inv s) (h : Known s)
    (hstep : step clk s e = some s') : Known s' := by
  have hmove := step_move hstep
  have hle := hmove.accepted_le
  -- A thread that changes was there before, or is the one just handed a slot.
  have hupdate : ∀ {t : Conn} {th : Thread}, t < s.accepted →
      ∀ t' th', Function.update s.threads t (some th) t' = some th' → t' < s'.accepted := by
    intro t th ht t' th' ht'
    rcases put_eq_some.mp ht' with ⟨rfl, _⟩ | ⟨_, hold⟩
    · exact Nat.lt_of_lt_of_le ht hle
    · exact Nat.lt_of_lt_of_le (h.threads t' th' hold) hle
  refine ⟨?_, ?_⟩
  · cases step_turn hstep with
    | others hevent hthreads =>
        rw [hthreads]
        exact fun t th ht => Nat.lt_of_lt_of_le (h.threads t th ht) hle
    | spawn c i hevent hmain heq =>
        rw [heq]
        rw [heq] at hupdate
        exact hupdate (h.handed c i (by rw [hmain]; rfl))
    | recv c result id source pc hevent hthread hpc heq =>
        rw [heq]
        rw [heq] at hupdate
        exact hupdate (h.threads c _ hthread)
    | handler c id pc server pc' hevent hthread hhandler heq =>
        rw [heq]
        rw [heq] at hupdate
        exact hupdate (h.threads c _ hthread)
  · intro c i hc
    cases hmove with
    | evictions is hmain haccepted hregistry =>
        rw [haccepted]
        exact h.handed c i (by rw [← hmain, hc])
    | connect d hevent hmain hclosed hmain' haccepted hregistry =>
        rw [hmain'] at hc
        exact absurd hc (by simp only [MainPc.handed, reduceCtorEq, not_false_eq_true])
    | advance hheld hhanded haccepted hregistry hchecked =>
        rw [haccepted]
        rcases hhanded with hsame | hnone
        · exact h.handed c i (by rw [← hsame, hc])
        · rw [hnone] at hc
          exact absurd hc (by simp only [reduceCtorEq, not_false_eq_true])
    | enter d c' name i' hevent hmain hfirst hfree hmain' haccepted hregistry =>
        rw [hmain'] at hc
        simp only [MainPc.handed, Option.some.injEq, Prod.mk.injEq] at hc
        rw [haccepted, ← hc.1]
        exact hinv.sound.returned d c' (hinv.sound.heldOpen d c' (by rw [hmain]; rfl))
    | close d c' error hmain hmain' haccepted hregistry =>
        rw [hmain'] at hc
        exact absurd hc (by simp only [MainPc.handed, reduceCtorEq, not_false_eq_true])

/-- A connection has an open descriptor. -/
def Server.IsOpen (s : Server) (c : Conn) : Prop := ∃ d, s.fds d = some c

/-- A slot holds a connection: it is active and was last given to it. -/
def Server.Holds (s : Server) (i : Slot) (c : Conn) : Prop :=
  (s.clients i).active = true ∧ s.session i = c

/-- The table of the program: the counter, the names and the descriptors. -/
structure TableSound (s : State) : Prop where
  counter : s.server.clientCount = tally Client.active s.server.clients
  counterBounds : 0 ≤ s.server.clientCount ∧ s.server.clientCount ≤ maxClients
  nameLength : ∀ i, (s.server.clients i).active = true →
    (s.server.clients i).name.str.length ≤ maxNameLen - 1
  nameUnique : ∀ i j, (s.server.clients i).active = true → (s.server.clients j).active = true →
    (s.server.clients i).name.str = (s.server.clients j).name.str → i = j
  closedOnce : ∀ c, s.server.closes c ≤ 1
  noBadClose : s.server.badCloses = 0
  socketOpen : ∀ i, (s.server.clients i).active = true →
    s.server.fds (s.server.clients i).socket = some (s.server.session i)
  /-- A connection is open exactly while one slot holds it or the accept loop does. -/
  openIff : ∀ c, s.server.IsOpen c ↔
    (∃! i, s.server.Holds i c) ∨ ∃ d, s.main.held = some (d, c)
  /-- The same for descriptor numbers. -/
  numberIff : ∀ d, (∃ c, s.server.fds d = some c) ↔
    (∃! i, (s.server.clients i).active = true ∧ (s.server.clients i).socket = d) ∨
      ∃ c, s.main.held = some (d, c)

theorem Server.slots_of_active {s : Server} {i : Slot} (h : (s.clients i).active = true) :
    s.registry.slots i = some ⟨(s.clients i).name.str, (s.clients i).socket, s.session i⟩ :=
  Server.slots_eq_some.mpr ⟨h, rfl⟩

theorem Server.occupied_slots (s : Server) :
    occupied s.registry.slots = tally Client.active s.clients := by
  unfold occupied
  refine tally_congr (fun i => ?_)
  cases hactive : (s.clients i).active with
  | false => rw [Server.slots_eq_none.mpr hactive, Option.isSome_none]
  | true => rw [Server.slots_of_active hactive, Option.isSome_some]

/-- A descriptor is open for a connection while a slot or the accept loop has
    both. -/
theorem fds_iff {s : State} (h : s.server.registry.Sound s.main.held s.accepted) (d : Fd)
    (c : Conn) : s.server.fds d = some c ↔
      (∃ i, (s.server.clients i).active = true ∧ (s.server.clients i).socket = d ∧
        s.server.session i = c) ∨ s.main.held = some (d, c) := by
  constructor
  · intro hfd
    rcases h.owned d c hfd with hheld | ⟨i, e, hi, hsocket, hconn⟩
    · exact Or.inr hheld
    · rcases Server.slots_eq_some.mp hi with ⟨hactive, rfl⟩
      exact Or.inl ⟨i, hactive, hsocket, hconn⟩
  · rintro (⟨i, hactive, rfl, rfl⟩ | hheld)
    · exact h.isOpen i _ (Server.slots_of_active hactive)
    · exact h.heldOpen d c hheld

/-- In every state that any interleaving of the accept loop, the handlers and
    the sweeps reaches, the counter counts the active slots, their names are
    distinct, no descriptor is closed twice, and a descriptor is open exactly
    while one active slot or the accept loop holds it. -/
theorem table_sound (clk : LocalClock) (s : State) (h : Reaches (step clk) init s) :
    TableSound s := by
  have hinv := inv_reachable h
  have hsound := hinv.sound
  have hopen : ∀ i, (s.server.clients i).active = true →
      s.server.fds (s.server.clients i).socket = some (s.server.session i) :=
    fun i hi => hsound.isOpen i _ (Server.slots_of_active hi)
  have hcount : s.server.clientCount = tally Client.active s.server.clients := by
    rw [← Server.occupied_slots]
    exact hsound.count
  have hbound : tally Client.active s.server.clients ≤ maxClients := by
    have := tally_le_card Client.active s.server.clients
    rwa [Fintype.card_fin] at this
  have hconns : ∀ i j, (s.server.clients i).active = true → (s.server.clients j).active = true →
      s.server.session i = s.server.session j → i = j :=
    fun i j hi hj heq => hsound.conns i j _ _ (Server.slots_of_active hi)
      (Server.slots_of_active hj) heq
  -- Two slots with one descriptor number hold one connection.
  have hsockets : ∀ i j, (s.server.clients i).active = true → (s.server.clients j).active = true →
      (s.server.clients i).socket = (s.server.clients j).socket → i = j := by
    intro i j hi hj heq
    have hfd := hopen i hi
    rw [heq, hopen j hj, Option.some.injEq] at hfd
    exact hconns i j hi hj hfd.symm
  refine
    { counter := hcount, counterBounds := ?_, nameLength := ?_, nameUnique := ?_,
      closedOnce := hsound.once, noBadClose := hsound.good, socketOpen := hopen, openIff := ?_,
      numberIff := ?_ }
  · omega
  · intro i hi
    exact hsound.short i _ (Server.slots_of_active hi)
  · intro i j hi hj heq
    exact hsound.names i j _ _ (Server.slots_of_active hi) (Server.slots_of_active hj) heq
  · intro c
    constructor
    · rintro ⟨d, hfd⟩
      rcases (fds_iff hsound d c).mp hfd with ⟨i, hactive, _, hconn⟩ | hheld
      · exact Or.inl ⟨i, ⟨hactive, hconn⟩, fun j hj =>
          hconns j i hj.1 hactive (hj.2.trans hconn.symm)⟩
      · exact Or.inr ⟨d, hheld⟩
    · rintro (⟨i, ⟨hactive, hconn⟩, _⟩ | ⟨d, hheld⟩)
      · exact ⟨_, (fds_iff hsound _ c).mpr (Or.inl ⟨i, hactive, rfl, hconn⟩)⟩
      · exact ⟨d, (fds_iff hsound d c).mpr (Or.inr hheld)⟩
  · intro d
    constructor
    · rintro ⟨c, hfd⟩
      rcases (fds_iff hsound d c).mp hfd with ⟨i, hactive, hsocket, _⟩ | hheld
      · exact Or.inl ⟨i, ⟨hactive, hsocket⟩, fun j hj =>
          hsockets j i hj.1 hactive (hj.2.trans hsocket.symm)⟩
      · exact Or.inr ⟨c, hheld⟩
    · rintro (⟨i, ⟨hactive, hsocket⟩, _⟩ | ⟨c, hheld⟩)
      · exact ⟨_, (fds_iff hsound d _).mpr (Or.inl ⟨i, hactive, hsocket, rfl⟩)⟩
      · exact ⟨c, (fds_iff hsound d c).mpr (Or.inr hheld)⟩

/-- A session is swept while its handler is inside `recv`, its slot and its
    descriptor number go to the next session, and the late handler closes that
    one. -/
def reuseRun : List Event :=
  joining 4 (text "ala") ++ [.thread 0, .thread 0, .thread 0, .time 61, .pingWake, .sweep] ++
    joining 4 (text "ola") ++ [.recv 0 .closed, .thread 0]

/-- The table is in order even then. -/
theorem table_sound_after_reuse :
    ∃ s, exec (step stoppedClock) init reuseRun = some s ∧ TableSound s := by
  have hend : (exec (step stoppedClock) init reuseRun).any (fun s =>
      decide (s.server.clientCount = 0)) = true := by
    decide +kernel
  rcases exists_of_exec_any hend with ⟨s, hrun, _⟩
  exact ⟨s, hrun, table_sound stoppedClock s ⟨reuseRun, hrun⟩⟩

end Tcp

end OsLabs
