import OsLabs.Udp.Handling
import OsLabs.Udp.Uniqueness

/-!
# Writing to a Client by Its Name

Two parts of the server read names. A registration takes the whole rest of
the datagram and stores as much of it as the array holds. A private message
takes what stands before the next space and compares it with what is stored.
A client that registered under a name with a space, or under one that does
not fit the array, has no name that the other part could read.

For every other name the two agree, and since no other slot has the name, the
message goes to the address that registered it.

## Main definitions

* `Registered`: An address that registered a name, in a slot active since.
* `Reached`: What a private message to a name should do.

## Theorems

* `registered_slot`: What the slot of a registered address holds.
* `handle_one`: What a private message does, by the name the server reads.
* `target_of_reached`: That name is found and is no shorter.
* `reached_iff`: The names under which a client can be reached.
-/

namespace OsLabs

namespace Udp

open Machine

/-- The address has registered the name in the slot, which has been active
    since. -/
inductive Registered (clk : LocalClock) (i : Slot) (a : SockAddr) (name : Bytes) : State → Prop
  | accepted {s s' : State} (hreach : Reaches (step clk) init s)
      (haccepts : s.accepts = some (i, a, name)) (hstep : step clk s .message = some s') :
      Registered clk i a name s'
  | later {s s' : State} {e : Event} (hbefore : Registered clk i a name s)
      (hstep : step clk s e = some s') (hactive : (s'.server.clients i).active = true) :
      Registered clk i a name s'

/-- The text of a private message, as long as it may be. -/
def privateText (timestamp name message : Bytes) : Bytes :=
  text "[" ++ timestamp ++ text "] " ++ name ++ text " (prywatnie): " ++ message

/-- The datagram of a private message. -/
def oneDatagram (name message : Bytes) : Bytes := text "2ONE " ++ (name ++ 32 :: message)

/-- The message is sent to the address and to nobody else, and the sender gets
    a confirmation that names the name. -/
def Reached (clk : LocalClock) (s : State) (a b : SockAddr) (name message : Bytes) : Prop :=
  ∃ received, message <:+ received ∧ (handle clk s b (oneDatagram name message)).server.log
    = .sent .reply b (text "Wiadomosc wyslana do " ++ name) :: .sent .toClient a received ::
      s.server.log

theorem registered_reaches {clk : LocalClock} {i : Slot} {a : SockAddr} {name : Bytes} {s : State}
    (h : Registered clk i a name s) : Reaches (step clk) init s := by
  induction h with
  | accepted hreach haccepts hstep => exact reaches_step hreach hstep
  | later hbefore hstep hactive ih => exact reaches_step ih hstep

theorem registered_exec {clk : LocalClock} {i : Slot} {a : SockAddr} {name : Bytes} {s t : State}
    {es : List Event} (h : Registered clk i a name s)
    (hactive : Always (step clk) (fun s => (s.server.clients i).active = true) s es)
    (hrun : exec (step clk) s es = some t) : Registered clk i a name t := by
  induction es generalizing s with
  | nil =>
      rw [exec, Option.some.injEq] at hrun
      rwa [← hrun]
  | cons e es ih =>
      rcases exec_cons.mp hrun with ⟨s', hstep, hrest⟩
      have hnext := hactive.2 s' hstep
      -- The state after the step is the first of the rest of the run.
      have hs' : (s'.server.clients i).active = true := by
        cases es with
        | nil => exact hnext
        | cons _ _ => exact hnext.1
      exact ih (.later h hstep hs') hnext hrest

/-- An entry stays as it is for as long as its slot is active. -/
theorem slot_stays {clk : LocalClock} {s s' : State} {e : Event} {i : Slot} {a : Entry}
    (hinv : Inv s) (hi : s.server.roster.slots i = some a) (hstep : step clk s e = some s')
    (hactive : (s'.server.clients i).active = true) : s'.server.roster.slots i = some a := by
  have hfull := Server.slots_of_active hactive
  -- What is in the slot now was there before, except after a registration.
  have hsame : (∀ b, s'.server.roster.slots i = some b → s.server.roster.slots i = some b) →
      s'.server.roster.slots i = some a := by
    intro hsub
    rw [hfull, ← hi]
    exact (hsub _ hfull).symm
  cases step_move hinv.clean hstep with
  | evictions is acts hidle hroster hlog hacts =>
      refine hsame fun b hb => ?_
      rw [hroster] at hb
      exact Roster.slots_evictions hb
  | enter j src name hevent haccepts hroster hlog =>
      refine hsame fun b hb => ?_
      rw [hroster] at hb
      rcases put_eq_some.mp hb with ⟨hij, _⟩ | ⟨_, hold⟩
      · rw [hij, State.slot_of_accepts haccepts] at hi
        exact absurd hi (by simp only [reduceCtorEq, not_false_eq_true])
      · exact hold
  | quit src id hevent hmessage hroster hlog =>
      refine hsame fun b hb => ?_
      rw [hroster] at hb
      exact Roster.slots_evict hb

/-- The slot holds the address and the part of the name that fits. -/
theorem registered_slot {clk : LocalClock} {i : Slot} {a : SockAddr} {name : Bytes} {s : State}
    (h : Registered clk i a name s) :
    s.server.roster.slots i = some ⟨a, name.take (maxNameLen - 1)⟩ := by
  induction h with
  | accepted hreach haccepts hstep =>
      cases step_move (inv_reachable hreach).clean hstep with
      | evictions is acts hidle hroster hlog hacts =>
          rw [hidle rfl] at haccepts
          exact absurd haccepts (by simp only [reduceCtorEq, not_false_eq_true])
      | enter j src name' hevent haccepts' hroster hlog =>
          rw [haccepts, Option.some.injEq, Prod.mk.injEq, Prod.mk.injEq] at haccepts'
          rcases haccepts' with ⟨rfl, rfl, rfl⟩
          rw [hroster]
          exact put_self ..
      | quit src id hevent hmessage hroster hlog =>
          rw [(State.accepts_eq_some.mp haccepts).1] at hmessage
          exact absurd hmessage (by simp only [reduceCtorEq, not_false_eq_true])
  | later hbefore hstep hactive ih =>
      exact slot_stays (inv_reachable (registered_reaches hbefore)) ih hstep hactive

/-- A name that was registered has no NUL. -/
theorem registered_nulFree {clk : LocalClock} {i : Slot} {a : SockAddr} {name : Bytes} {s : State}
    (h : Registered clk i a name s) : NulFree name := by
  induction h with
  | accepted hreach haccepts hstep =>
      have hclean := (inv_reachable hreach).clean
      rw [(State.accepts_eq_some.mp haccepts).1] at hclean
      exact hclean
  | later hbefore hstep hactive ih => exact ih

/-- In a table without double names a lookup finds the slot with the name. -/
theorem findClientByName_of_unique {s : State} (hnames : UniqueNames s) {i : Slot}
    (hactive : (s.server.clients i).active = true) :
    s.server.findClientByName (s.server.clients i).name.str = some i := by
  cases hfind : s.server.findClientByName (s.server.clients i).name.str with
  | none => exact absurd rfl (findClientByName_eq_none hfind (Server.slots_of_active hactive))
  | some k =>
      have hscan := scan_some hfind
      rw [Bool.and_eq_true, beq_iff_eq] at hscan
      rw [hnames k i hscan.1 hactive hscan.2]

/-- No name in the table is longer than its array. -/
theorem name_length_lt {s : State} (h : Inv s) (i : Slot) :
    (s.server.clients i).name.str.length < maxNameLen := by
  have hlt := cstr_length_lt (h.ok i).2
  rwa [(s.server.clients i).name.length_bytes] at hlt

theorem findClientByName_of_long {s : State} (h : Inv s) {name : Bytes}
    (hlong : maxNameLen - 1 < name.length) : s.server.findClientByName name = none := by
  refine scan_none.mpr fun i => ?_
  have hlt := name_length_lt h i
  have hne : (s.server.clients i).name.str ≠ name := by
    intro heq
    rw [heq] at hlt
    omega
  rw [beq_eq_false_iff_ne.mpr hne, Bool.and_false]

/-- What a private message to whatever stands before the first space does. -/
theorem handle_one {clk : LocalClock} {s : State} {j : Slot} {b : SockAddr}
    {name message target rest : Bytes} (hsender : s.server.findClientByAddr b = some j)
    (hname : NulFree name) (hmessage : NulFree message)
    (hfits : (oneDatagram name message).length ≤ bufferSize - 1)
    (hsplit : strchrSplit 32 (name ++ 32 :: message) = some (target, rest)) :
    (∀ k, s.server.findClientByName target = some k →
      (handle clk s b (oneDatagram name message)).server =
        ((s.server.touch j s.clock).sendToClient
          (oneText (clk.stamp s.clock) (s.server.clients j).name.str rest) k).sendto .reply b
            (confirmText target)) ∧
    (s.server.findClientByName target = none →
      (handle clk s b (oneDatagram name message)).server =
        (s.server.touch j s.clock).sendto .reply b (notFoundText target)) := by
  have hnul : NulFree (oneDatagram name message) := by
    unfold oneDatagram
    rw [nulFree_append]
    refine ⟨by decide, nulFree_append.mpr ⟨hname, ?_⟩⟩
    intro hmem
    rcases List.mem_cons.mp hmem with hspace | hrest
    · exact absurd hspace (by decide)
    · exact hmessage hrest
  have hregister : ¬ strncmpEq (oneDatagram name message) (text "REGISTER ") = true :=
    Bool.false_ne_true
  have hparse : parse (oneDatagram name message) = .toOne target rest := by
    have hlist : strncmpEq (oneDatagram name message) (text "LIST") = false := rfl
    have hall : strncmpEq (oneDatagram name message) (text "2ALL ") = false := rfl
    have hone : strncmpEq (oneDatagram name message) (text "2ONE ") = true := rfl
    have hdrop : (oneDatagram name message).drop 5 = name ++ 32 :: message := rfl
    simp only [parse, hlist, hall, hone, hdrop, hsplit, Bool.false_eq_true, if_false, if_true]
  rw [handle_of_short clk s b hnul hfits]
  unfold Server.handleMessage
  rw [if_neg hregister]
  refine ⟨fun k hfind => ?_, fun hfind => ?_⟩
  · simp only [hsender, hparse, Server.findClientByName_touch, hfind, Server.clients_touch]
  · simp only [hsender, hparse, Server.findClientByName_touch, hfind]

theorem sendToClient_of_active {s : Server} {k : Slot} (h : (s.clients k).active = true)
    (message : Bytes) :
    s.sendToClient message k = s.sendto .toClient (s.clients k).addr message := by
  unfold Server.sendToClient
  rw [if_pos h]

theorem confirmText_length_le (target : Bytes) :
    (confirmText target).length ≤ 21 + target.length := by
  unfold confirmText snprintf
  refine le_trans (List.length_take_le' _ _) ?_
  rw [List.length_append]
  exact le_refl _

theorem confirmText_eq {name : Bytes} (h : name.length ≤ maxNameLen - 1) :
    confirmText name = text "Wiadomosc wyslana do " ++ name := by
  have hwords : (text "Wiadomosc wyslana do ").length = 21 := by decide
  have hmax : maxNameLen - 1 = 31 := rfl
  have hbuffer : bufferSize - 1 = 1023 := rfl
  refine List.take_of_length_le ?_
  rw [List.length_append]
  omega

/-- What the server reads as the name is found, since a refusal is one entry of
    the log only, and is no shorter than the name, since it is confirmed. -/
theorem target_of_reached {clk : LocalClock} {s : State} {j : Slot} {a b : SockAddr}
    {name message target rest : Bytes} (h : Reached clk s a b name message)
    (hsender : s.server.findClientByAddr b = some j) (hname : NulFree name)
    (hmessage : NulFree message) (hfits : (oneDatagram name message).length ≤ bufferSize - 1)
    (hsplit : strchrSplit 32 (name ++ 32 :: message) = some (target, rest)) :
    s.server.findClientByName target ≠ none ∧ name.length ≤ target.length := by
  rcases h with ⟨received, _, hlog⟩
  rcases handle_one hsender hname hmessage hfits hsplit with ⟨hfound, hrefused⟩
  cases hfind : s.server.findClientByName target with
  | none =>
      rw [hrefused hfind] at hlog
      have hlen := congrArg List.length (List.cons.inj hlog).2
      rw [List.length_cons] at hlen
      exact absurd hlen (Nat.ne_of_lt (Nat.lt_succ_self _))
  | some k =>
      rw [hfound k hfind] at hlog
      refine ⟨Option.some_ne_none k, ?_⟩
      have hreply := (Action.sent.inj (List.cons.inj hlog).1).2.2
      have hlen := confirmText_length_le target
      have hwords : (text "Wiadomosc wyslana do ").length = 21 := by decide
      rw [hreply, List.length_append] at hlen
      omega

/-- A name without a space that fits is read and stored as it is. -/
theorem reached_of_fits {clk : LocalClock} {s : State} {i j : Slot} {a b : SockAddr}
    {name message : Bytes} (hreg : Registered clk i a name s) (hnames : UniqueNames s)
    (hsender : s.server.findClientByAddr b = some j) (hmessage : NulFree message)
    (hfits : (oneDatagram name message).length ≤ bufferSize - 1)
    (htext : (privateText (clk.stamp s.clock) (s.server.clients j).name.str message).length
      ≤ bufferSize - 1) (hspace : (32 : UInt8) ∉ name) (hshort : name.length ≤ maxNameLen - 1) :
    Reached clk s a b name message := by
  have hsplit := strchrSplit_append message hspace
  rcases Server.slots_eq_some.mp (registered_slot hreg) with ⟨hactive, hentry⟩
  rw [List.take_of_length_le hshort] at hentry
  have haddr : (s.server.clients i).addr = a := (congrArg Entry.addr hentry).symm
  have hstored : (s.server.clients i).name.str = name := (congrArg Entry.name hentry).symm
  -- What is stored is the name itself, and no other slot has it.
  have hfind := findClientByName_of_unique hnames hactive
  rw [hstored] at hfind
  have hactive' : ((s.server.touch j s.clock).clients i).active = true := by
    rw [Server.clients_touch]
    exact hactive
  have hreceived : oneText (clk.stamp s.clock) (s.server.clients j).name.str message
      = privateText (clk.stamp s.clock) (s.server.clients j).name.str message :=
    List.take_of_length_le htext
  refine ⟨privateText (clk.stamp s.clock) (s.server.clients j).name.str message,
    List.suffix_append _ _, ?_⟩
  rw [(handle_one hsender (registered_nulFree hreg) hmessage hfits hsplit).1 i hfind]
  simp only [sendToClient_of_active hactive', hreceived, confirmText_eq hshort, Server.sendto,
    Server.clients_touch, haddr]
  rfl

/-- A registered client is reached by its name exactly if the name has no
    space and fits the array. -/
theorem reached_iff (clk : LocalClock) {s : State} {i j : Slot} {a b : SockAddr}
    {name message : Bytes} (hreg : Registered clk i a name s) (hnames : UniqueNames s)
    (hsender : s.server.findClientByAddr b = some j) (hmessage : NulFree message)
    (hfits : (oneDatagram name message).length ≤ bufferSize - 1)
    (htext : (privateText (clk.stamp s.clock) (s.server.clients j).name.str message).length
      ≤ bufferSize - 1) :
    Reached clk s a b name message ↔ (32 : UInt8) ∉ name ∧ name.length ≤ maxNameLen - 1 := by
  constructor
  · intro h
    have hname := registered_nulFree hreg
    by_cases hspace : (32 : UInt8) ∈ name
    · -- Only the part before the space would be confirmed.
      rcases strchrSplit_append_of_mem (32 :: message) hspace with ⟨target, rest, hsplit, hlt⟩
      have hle := (target_of_reached h hsender hname hmessage hfits hsplit).2
      omega
    · refine ⟨hspace, ?_⟩
      have hsplit := strchrSplit_append message hspace
      have hfound := (target_of_reached h hsender hname hmessage hfits hsplit).1
      have hinv := inv_reachable (registered_reaches hreg)
      by_contra hlong
      exact hfound (findClientByName_of_long hinv (by omega))
  · rintro ⟨hspace, hshort⟩
    exact reached_of_fits hreg hnames hsender hmessage hfits htext hspace hshort

/-- A client asks for a name. -/
def askingRun (name : Bytes) : List Event :=
  [.datagram ⟨1, 1⟩ (text "REGISTER " ++ name), .message]

/-- It gets the name, and another client registers. -/
def olaRun : List Event :=
  [.message, .datagram ⟨2, 2⟩ (text "REGISTER ola"), .message, .message, .message]

/-- A state in which both are registered, with what else it satisfies. -/
theorem exists_registered (name : Bytes) {p : State → Bool}
    (h : (exec (step stoppedClock) init (askingRun name)).any (fun s =>
      decide (s.accepts = some (0, ⟨1, 1⟩, name)) &&
        (step stoppedClock s .message).any (fun s' =>
          decide (Always (step stoppedClock) (fun s => (s.server.clients 0).active = true)
            s' olaRun) &&
          (exec (step stoppedClock) s' olaRun).any p)) = true) :
    ∃ s, Registered stoppedClock 0 ⟨1, 1⟩ name s ∧ p s = true := by
  rcases exists_of_exec_any h with ⟨s, hrun, hs⟩
  rw [Bool.and_eq_true, decide_eq_true_eq] at hs
  rcases hs with ⟨haccepts, hnext⟩
  cases hstep : step stoppedClock s .message with
  | none =>
      rw [hstep] at hnext
      exact absurd hnext (by simp only [Option.any_none, Bool.false_eq_true, not_false_eq_true])
  | some s' =>
      rw [hstep, Option.any_some, Bool.and_eq_true, decide_eq_true_eq] at hnext
      rcases exists_of_exec_any hnext.2 with ⟨t, hrest, ht⟩
      have hreg := Registered.accepted ⟨_, hrun⟩ haccepts hstep
      exact ⟨t, registered_exec hreg hnext.1 hrest, ht⟩

theorem ala_reached :
    ∃ s, Reached stoppedClock s ⟨1, 1⟩ ⟨2, 2⟩ (text "ala") (text "hej") := by
  have hend := exists_registered (text "ala") (p := fun s =>
    decide (s.server.findClientByAddr ⟨2, 2⟩ = some 1 ∧ (s.server.clients 1).name.str = text "ola" ∧
      ∀ i j, (s.server.clients i).active = true → (s.server.clients j).active = true →
        (s.server.clients i).name.str = (s.server.clients j).name.str → i = j)) (by decide +kernel)
  rcases hend with ⟨s, hreg, hs⟩
  rcases of_decide_eq_true hs with ⟨hsender, hname, hunique⟩
  refine ⟨s, (reached_iff stoppedClock hreg hunique hsender (by decide) (by decide) ?_).mpr
    (by decide)⟩
  have hstamp : stoppedClock.stamp s.clock = text "00:00:00" := rfl
  rw [hname, hstamp]
  decide

/-- A client with a space in its name is not found. -/
theorem jan_not_reached :
    ¬ ∀ (clk : LocalClock) (s : State) (i j : Slot) (a b : SockAddr) (name message : Bytes),
      name ≠ [] → Registered clk i a name s → UniqueNames s → b ≠ a →
        s.server.findClientByAddr b = some j → NulFree message →
        (oneDatagram name message).length ≤ bufferSize - 1 →
        (privateText (clk.stamp s.clock) (s.server.clients j).name.str message).length
          ≤ bufferSize - 1 → Reached clk s a b name message := by
  intro hall
  have hend := exists_registered (text "jan kot") (p := fun s =>
    decide (s.server.findClientByAddr ⟨2, 2⟩ = some 1 ∧ (s.server.clients 1).name.str = text "ola" ∧
      (handle stoppedClock s ⟨2, 2⟩ (oneDatagram (text "jan kot") (text "hej"))).server.log.head?
        = some (.sent .reply ⟨2, 2⟩ (text "Klient jan nie zostal znaleziony")) ∧
      ∀ i j, (s.server.clients i).active = true → (s.server.clients j).active = true →
        (s.server.clients i).name.str = (s.server.clients j).name.str → i = j)) (by decide +kernel)
  rcases hend with ⟨s, hreg, hs⟩
  rcases of_decide_eq_true hs with ⟨hsender, hname, hreply, hunique⟩
  have hstamp : stoppedClock.stamp s.clock = text "00:00:00" := rfl
  have hreached := hall stoppedClock s 0 1 ⟨1, 1⟩ ⟨2, 2⟩ (text "jan kot") (text "hej") (by decide)
    hreg hunique (by decide) hsender (by decide) (by decide) (by rw [hname, hstamp]; decide)
  rcases hreached with ⟨received, _, hlog⟩
  rw [hlog, List.head?_cons, Option.some.injEq] at hreply
  exact absurd hreply (by decide)

end Udp

end OsLabs
