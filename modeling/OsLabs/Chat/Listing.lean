import OsLabs.Library.Strcat
import OsLabs.Tcp.Table
import OsLabs.Udp.Table

/-!
# The List of Clients

Both chat servers answer `LIST` in the same way: a header and a line for each
active client, put together with `strcat` in a buffer of `BUFFER_SIZE` bytes
on the stack. Fifty clients are allowed, and a name may have 31 bytes, so
thirty clients are enough to write behind the buffer. Nothing that a server
does when a client joins looks at how long the list has become.

In the model the text has no end it could run over, so it says what the
program would write. Removals and sweeps only shorten the list. So it fits in
every state of a run exactly if no registration makes it too long. With
twenty-nine clients it never does.

## Main definitions

* `listTurns`: The reply after so many turns of the loop.
* `ListFits`: The reply fits the buffer all the time, and lists everybody.
* `Room`: A registration leaves room in the list, for each server.

## Theorems

* `listFits_iff`: The list fits if the names are short enough together.
* `listFits_of_few`, `listFits_few`: Few clients always fit.
* `listFits_step_iff`: A step keeps it exactly if there is room, for each
  server.
* `list_fits_iff`: The runs in which the list fits, for both servers.
-/

namespace OsLabs

open Machine

section Listing

variable {n m : Nat} (active : Fin n → Bool) (name : Fin n → CharArray m)

/-- The reply after `k` turns of the loop. -/
def listTurns (k : Nat) : Bytes :=
  catLines active (fun i => snprintf 64 (text "- " ++ (name i).str ++ text "\n"))
    (text "Aktywni klienci:\n") ((List.finRange n).take k)

/-- The lines of the active clients, as long as they may be. -/
def listLines : Bytes :=
  ((List.finRange n).filter active).flatMap fun i => text "- " ++ (name i).str ++ text "\n"

/-- How long these lines are together. -/
def linesLength : Nat := ∑ i, if active i then 3 + (name i).str.length else 0

/-- The reply and its NUL fit the buffer after the header and after every
    line, and it has a line for each active client. -/
structure ListFits (reply : Bytes) (size : Nat) : Prop where
  room : ∀ k ≤ n, (listTurns active name k).length < size
  complete : reply = text "Aktywni klienci:\n" ++ listLines active name

variable {active name}

theorem length_line (s : Bytes) : (text "- " ++ s ++ text "\n").length = 3 + s.length := by
  have hdash : (text "- ").length = 2 := by decide
  have hnewline : (text "\n").length = 1 := by decide
  simp only [List.length_append]
  omega

/-- No name is so long that its line would be cut. -/
theorem snprintf_line (s : CharArray m) (hm : m ≤ 60) :
    snprintf 64 (text "- " ++ s.str ++ text "\n") = text "- " ++ s.str ++ text "\n" := by
  have hstr : s.str.length ≤ s.bytes.length := cstr_length_le s.bytes
  rw [s.length_bytes] at hstr
  refine List.take_of_length_le ?_
  rw [length_line]
  omega

/-- The list fits if the names are short enough together. -/
theorem listFits_iff (hm : m ≤ 60) {reply : Bytes} (hreply : reply = listTurns active name n)
    (size : Nat) :
    ListFits active name reply size ↔ 17 + linesLength active name < size := by
  have hturns : ∀ k, listTurns active name k
      = catLines active (fun i => text "- " ++ (name i).str ++ text "\n")
        (text "Aktywni klienci:\n") ((List.finRange n).take k) := by
    intro k
    unfold listTurns
    simp only [snprintf_line _ hm]
  have hfits := catLines_fits_iff active (fun i => text "- " ++ (name i).str ++ text "\n")
    (text "Aktywni klienci:\n") size
  have hheader : (text "Aktywni klienci:\n").length = 17 := by decide
  simp only [length_line, hheader, ← hturns] at hfits
  -- Nobody is left out, whether the list fits or not.
  have hcomplete : reply = text "Aktywni klienci:\n" ++ listLines active name := by
    rw [hreply, hturns, catLines_eq, List.take_of_length_le (le_of_eq List.length_finRange)]
    rfl
  exact ⟨fun h => hfits.mp h.room, fun h => ⟨hfits.mpr h, hcomplete⟩⟩

/-- The list of a table of entries, by the weight of the entries. -/
theorem linesLength_eq_load {α : Type*} {key : α → Bytes} {slots : Fin n → Option α}
    (h : ∀ i, (slots i).map key = if active i then some (name i).str else none) :
    linesLength active name = load (fun e => 3 + (key e).length) slots := by
  refine Finset.sum_congr rfl fun i _ => ?_
  have hi := h i
  cases hslot : slots i with
  | none =>
      rw [hslot, Option.map_none] at hi
      by_cases hactive : active i = true
      · rw [if_pos hactive] at hi
        exact absurd hi (by simp only [reduceCtorEq, not_false_eq_true])
      · rw [if_neg hactive]
        rfl
  | some e =>
      rw [hslot, Option.map_some] at hi
      by_cases hactive : active i = true
      · rw [if_pos hactive, Option.some.injEq] at hi
        rw [if_pos hactive, ← hi]
        rfl
      · rw [if_neg hactive] at hi
        exact absurd hi (by simp only [reduceCtorEq, not_false_eq_true])

/-- Few clients with short names always fit. -/
theorem listFits_of_few (hm : m ≤ 60) {reply : Bytes} (hreply : reply = listTurns active name n)
    {α : Type*} {key : α → Bytes} {slots : Fin n → Option α}
    (hslots : ∀ i, (slots i).map key = if active i then some (name i).str else none) {size w : Nat}
    (hshort : ∀ i e, slots i = some e → (key e).length ≤ w)
    (hfew : 17 + occupied slots * (3 + w) < size) : ListFits active name reply size := by
  have hload : load (fun e => 3 + (key e).length) slots ≤ occupied slots * (3 + w) :=
    load_le fun i e hi => Nat.add_le_add_left (hshort i e hi) 3
  rw [listFits_iff hm hreply, linesLength_eq_load hslots]
  omega

end Listing

namespace Udp

/-- The list of the table in a state. -/
def Server.ListFits (s : Server) : Prop :=
  OsLabs.ListFits (fun i => (s.clients i).active) (fun i => (s.clients i).name) s.listReply
    bufferSize

theorem Server.listReply_eq (s : Server) :
    s.listReply = listTurns (fun i => (s.clients i).active) (fun i => (s.clients i).name)
      maxClients := by
  unfold listTurns
  rw [List.take_of_length_le (le_of_eq List.length_finRange)]
  rfl

/-- How long the lines of the table are. -/
def Server.linesLength (s : Server) : Nat :=
  OsLabs.linesLength (fun i => (s.clients i).active) fun i => (s.clients i).name

theorem Server.names_slots (s : Server) (i : Slot) :
    (s.roster.slots i).map Entry.name
      = if (s.clients i).active then some (s.clients i).name.str else none := by
  by_cases hactive : (s.clients i).active = true
  · rw [slots_of_active hactive, if_pos hactive]
    rfl
  · rw [slots_eq_none.mpr (Bool.not_eq_true _ ▸ hactive), if_neg hactive]
    rfl

theorem Server.linesLength_eq (s : Server) :
    s.linesLength = load (fun e : Entry => 3 + e.name.length) s.roster.slots :=
  linesLength_eq_load s.names_slots

theorem Server.listFits_iff (s : Server) :
    s.ListFits ↔ 17 + load (fun e : Entry => 3 + e.name.length) s.roster.slots < bufferSize := by
  rw [← linesLength_eq]
  exact OsLabs.listFits_iff (by decide) s.listReply_eq bufferSize

/-- A registration leaves room for the line of the client. -/
def Room (s : State) : Event → Prop
  | .message => ∀ x ∈ s.accepts,
      17 + (s.server.linesLength + (3 + (x.2.2.take (maxNameLen - 1)).length)) < bufferSize
  | _ => True

instance decidableRoom (s : State) : ∀ e, Decidable (Room s e)
  | .message => inferInstanceAs (Decidable (∀ x ∈ s.accepts,
      17 + (s.server.linesLength + (3 + (x.2.2.take (maxNameLen - 1)).length)) < bufferSize))
  | .time _ => isTrue trivial
  | .datagram _ _ => isTrue trivial
  | .recvError => isTrue trivial
  | .pingWake => isTrue trivial
  | .sweep => isTrue trivial

theorem room_of_idle {s : State} {e : Event} (h : e = .message → s.accepts = none) :
    Room s e := by
  cases e with
  | message =>
      intro x hx
      rw [h rfl] at hx
      exact absurd hx (by simp only [Option.mem_def, reduceCtorEq, not_false_eq_true])
  | time | datagram | recvError | pingWake | sweep => trivial

theorem listFits_step_iff {clk : LocalClock} {s s' : State} {e : Event} (hinv : Inv s)
    (h : s.server.ListFits) (hstep : step clk s e = some s') :
    s'.server.ListFits ↔ Room s e := by
  rw [Server.listFits_iff] at h ⊢
  -- A step without a registration does not make the list longer.
  have hshorter : (∀ i a, s'.server.roster.slots i = some a → s.server.roster.slots i = some a) →
      17 + load (fun e : Entry => 3 + e.name.length) s'.server.roster.slots < bufferSize :=
    fun hsub => lt_of_le_of_lt (Nat.add_le_add_left (load_mono _ hsub) 17) h
  cases step_move hinv.clean hstep with
  | evictions is acts hnone hroster hlog hacts =>
      refine iff_of_true (hshorter fun i a hi => ?_) (room_of_idle hnone)
      rw [hroster] at hi
      exact Roster.slots_evictions hi
  | enter i src name hevent haccepts hroster hlog =>
      subst hevent
      -- The new line is the only difference.
      have hslots : s'.server.roster.slots
          = put s.server.roster.slots i ⟨src, name.take (maxNameLen - 1)⟩ := by
        rw [hroster]
        rfl
      have hload := load_put (fun e : Entry => 3 + e.name.length)
        ⟨src, name.take (maxNameLen - 1)⟩ (State.slot_of_accepts haccepts)
      rw [hslots, hload]
      unfold Room
      rw [haccepts, Server.linesLength_eq]
      simp only [Option.mem_def, Option.some.injEq, forall_eq']
  | quit src id hevent hmessage hroster hlog =>
      refine iff_of_true (hshorter fun i a hi => ?_) (room_of_idle fun _ => ?_)
      · rw [hroster] at hi
        exact Roster.slots_evict hi
      · unfold State.accepts
        rw [hmessage]

/-- Twenty-nine clients always fit. -/
theorem listFits_few (clk : LocalClock) (s : State) (h : Reaches (step clk) init s)
    (hfew : tally Client.active s.server.clients ≤ 29) : s.server.ListFits := by
  have hinv := inv_reachable h
  rw [← Server.occupied_slots] at hfew
  refine listFits_of_few (by decide) s.server.listReply_eq s.server.names_slots
    (fun i e hi => (?_ : e.name.length ≤ 31)) ?_
  · -- The array is terminated, so the name is shorter than it.
    rcases Server.slots_eq_some.mp hi with ⟨hactive, rfl⟩
    have hlength := cstr_length_lt (hinv.ok i).2
    rw [(s.server.clients i).name.length_bytes] at hlength
    exact Nat.le_of_lt_succ hlength
  · have hbound : occupied s.server.roster.slots * 34 ≤ 29 * 34 := Nat.mul_le_mul_right 34 hfew
    unfold bufferSize
    omega

theorem listFits_init : init.server.ListFits := by
  have hempty : init.server.roster.slots = fun _ => none := rfl
  rw [Server.listFits_iff, hempty, load_empty]
  decide

/-- Clients with names of 31 bytes register, each from its own address. -/
def crowd (n : Nat) : List Event :=
  (List.range n).flatMap fun k =>
    [.datagram ⟨k.toUInt32, 1⟩ (text "REGISTER " ++ List.replicate 30 97 ++ [(65 + k).toUInt8]),
      .message, .message, .message]

end Udp

namespace Tcp

/-- The list of the table in a state. -/
def Server.ListFits (s : Server) : Prop :=
  OsLabs.ListFits (fun i => (s.clients i).active) (fun i => (s.clients i).name) s.listReply
    bufferSize

theorem Server.listReply_eq (s : Server) :
    s.listReply = listTurns (fun i => (s.clients i).active) (fun i => (s.clients i).name)
      maxClients := by
  unfold listTurns
  rw [List.take_of_length_le (le_of_eq List.length_finRange)]
  rfl

/-- How long the lines of the table are. -/
def Server.linesLength (s : Server) : Nat :=
  OsLabs.linesLength (fun i => (s.clients i).active) fun i => (s.clients i).name

theorem Server.names_slots (s : Server) (i : Slot) :
    (s.registry.slots i).map Entry.name
      = if (s.clients i).active then some (s.clients i).name.str else none := by
  by_cases hactive : (s.clients i).active = true
  · rw [slots_of_active hactive, if_pos hactive]
    rfl
  · rw [slots_eq_none.mpr (Bool.not_eq_true _ ▸ hactive), if_neg hactive]
    rfl

theorem Server.linesLength_eq (s : Server) :
    s.linesLength = load (fun e : Entry => 3 + e.name.length) s.registry.slots :=
  linesLength_eq_load s.names_slots

theorem Server.listFits_iff (s : Server) :
    s.ListFits ↔ 17 + load (fun e : Entry => 3 + e.name.length) s.registry.slots < bufferSize := by
  rw [← linesLength_eq]
  exact OsLabs.listFits_iff (by decide) s.listReply_eq bufferSize

/-- An insertion leaves room for the line of the client. -/
def Room (s : State) : Event → Prop
  | .main => ∀ x ∈ s.fills,
      17 + (s.server.linesLength + (3 + (x.2.take (maxNameLen - 1)).length)) < bufferSize
  | _ => True

instance decidableRoom (s : State) : ∀ e, Decidable (Room s e)
  | .main => inferInstanceAs (Decidable (∀ x ∈ s.fills,
      17 + (s.server.linesLength + (3 + (x.2.take (maxNameLen - 1)).length)) < bufferSize))
  | .time _ => isTrue trivial
  | .accept _ => isTrue trivial
  | .recvName _ => isTrue trivial
  | .pingWake => isTrue trivial
  | .sweep => isTrue trivial
  | .recv _ _ => isTrue trivial
  | .thread _ => isTrue trivial

theorem room_of_idle {s : State} {e : Event} (h : e = .main → s.fills = none) : Room s e := by
  cases e with
  | main =>
      intro x hx
      rw [h rfl] at hx
      exact absurd hx (by simp only [Option.mem_def, reduceCtorEq, not_false_eq_true])
  | time | accept | recvName | pingWake | sweep | recv | thread => trivial

/-- A slot is filled only by the step that welcomes its client. -/
theorem welcome_of_fills {clk : LocalClock} {s s' : State} {x : Slot × Bytes}
    (hfills : s.fills = some x) (hstep : step clk s .main = some s') :
    ∃ d c, s.main = .insert d c x.2 ∧ s'.main = .welcome d c x.1 := by
  unfold State.fills at hfills
  cases hmain : s.main with
  | insert d c name =>
      cases hfree : s.server.freeSlot with
      | none =>
          rw [hmain, hfree] at hfills
          exact absurd hfills (by simp only [Option.map_none, reduceCtorEq, not_false_eq_true])
      | some i =>
          rw [hmain, hfree] at hfills
          simp only [Option.map_some, Option.some.injEq] at hfills
          simp only [step, mainStep, hmain, hfree, Option.some.injEq] at hstep
          refine ⟨d, c, ?_, ?_⟩
          · rw [← hfills]
          · rw [← hstep, ← hfills]
  | accept | recvName | scan | drop | welcome | spawn =>
      rw [hmain] at hfills
      exact absurd hfills (by simp only [reduceCtorEq, not_false_eq_true])

/-- A step after which nobody waits to be welcomed has filled no slot. -/
theorem room_of_not_welcome {clk : LocalClock} {s s' : State} {e : Event}
    (hstep : step clk s e = some s')
    (h : ∀ d c name i, s.main = .insert d c name → s'.main ≠ .welcome d c i) : Room s e := by
  refine room_of_idle fun hevent => ?_
  subst hevent
  cases hfills : s.fills with
  | none => rfl
  | some x =>
      rcases welcome_of_fills hfills hstep with ⟨d, c, hmain, hmain'⟩
      exact absurd hmain' (h d c x.2 x.1 hmain)

theorem listFits_step_iff {clk : LocalClock} {s s' : State} {e : Event} (hinv : Inv s)
    (h : s.server.ListFits) (hstep : step clk s e = some s') :
    s'.server.ListFits ↔ Room s e := by
  rw [Server.listFits_iff] at h ⊢
  -- A step without an insertion does not make the list longer.
  have hshorter : (∀ i a, s'.server.registry.slots i = some a →
      s.server.registry.slots i = some a) →
      17 + load (fun e : Entry => 3 + e.name.length) s'.server.registry.slots < bufferSize :=
    fun hsub => lt_of_le_of_lt (Nat.add_le_add_left (load_mono _ hsub) 17) h
  cases step_move hstep with
  | evictions is hmain haccepted hregistry =>
      refine iff_of_true (hshorter fun i a hi => ?_)
        (room_of_not_welcome hstep fun d c name i hinsert => ?_)
      · rw [hregistry] at hi
        exact Registry.slots_evictions hi
      · rw [hmain, hinsert]
        simp only [ne_eq, reduceCtorEq, not_false_eq_true]
  | connect d hevent hmain hclosed hmain' haccepted hregistry =>
      refine iff_of_true (hshorter fun i a hi => ?_)
        (room_of_not_welcome hstep fun d c name i hinsert => ?_)
      · rwa [hregistry] at hi
      · rw [hmain']
        simp only [ne_eq, reduceCtorEq, not_false_eq_true]
  | advance hheld hhanded haccepted hregistry hchecked =>
      refine iff_of_true (hshorter fun i a hi => ?_)
        (room_of_not_welcome hstep fun d c name i hinsert hwelcome => ?_)
      · rwa [hregistry] at hi
      · -- Between the two the loop would have handed its descriptor over.
        rw [hinsert, hwelcome] at hheld
        exact absurd hheld (by simp only [MainPc.held, reduceCtorEq, not_false_eq_true])
  | enter d c name i hevent hmain hfirst hfree hmain' haccepted hregistry =>
      subst hevent
      -- The name was received as a string, so the copy in the table is one too.
      have hchecked := hinv.checked
      rw [hmain] at hchecked
      have hslots : s'.server.registry.slots
          = put s.server.registry.slots i ⟨name.take (maxNameLen - 1), d, c⟩ := by
        rw [hregistry hchecked.1]
        rfl
      have hload := load_put (fun e : Entry => 3 + e.name.length)
        ⟨name.take (maxNameLen - 1), d, c⟩ hfree
      have hfills : s.fills = some (i, name) := State.mem_fills hmain hfirst
      rw [hslots, hload]
      unfold Room
      rw [hfills, Server.linesLength_eq]
      simp only [Option.mem_def, Option.some.injEq, forall_eq']
  | close d c error hmain hmain' haccepted hregistry =>
      refine iff_of_true (hshorter fun i a hi => ?_)
        (room_of_not_welcome hstep fun d c name i hinsert => ?_)
      · rwa [hregistry, Registry.slots_close] at hi
      · rw [hmain']
        simp only [ne_eq, reduceCtorEq, not_false_eq_true]

/-- Twenty-nine clients always fit. -/
theorem listFits_few (clk : LocalClock) (s : State) (h : Reaches (step clk) init s)
    (hfew : tally Client.active s.server.clients ≤ 29) : s.server.ListFits := by
  have hinv := inv_reachable h
  rw [← Server.occupied_slots] at hfew
  have hshort : ∀ i (e : Entry), s.server.registry.slots i = some e → e.name.length ≤ 31 :=
    hinv.sound.short
  refine listFits_of_few (by decide) s.server.listReply_eq s.server.names_slots hshort ?_
  have hbound : occupied s.server.registry.slots * 34 ≤ 29 * 34 := Nat.mul_le_mul_right 34 hfew
  unfold bufferSize
  omega

theorem listFits_init : init.server.ListFits := by
  have hempty : init.server.registry.slots = fun _ => none := rfl
  rw [Server.listFits_iff, hempty, load_empty]
  decide

/-- Clients with names of 31 bytes connect one after the other. -/
def crowd (n : Nat) : List Event :=
  (List.range n).flatMap fun k => joining (4 + k) (List.replicate 30 97 ++ [(65 + k).toUInt8])

end Tcp

/-- In both servers the list fits in every state of a run exactly if every
    registration in it leaves room for its line. -/
theorem list_fits_iff (clk : LocalClock) :
    (∀ (es : List Udp.Event) (t : Udp.State), exec (Udp.step clk) Udp.init es = some t →
      (Always (Udp.step clk) (fun s => s.server.ListFits) Udp.init es ↔
        Meets (Udp.step clk) Udp.Room Udp.init es)) ∧
    (∀ (es : List Tcp.Event) (t : Tcp.State), exec (Tcp.step clk) Tcp.init es = some t →
      (Always (Tcp.step clk) (fun s => s.server.ListFits) Tcp.init es ↔
        Meets (Tcp.step clk) Tcp.Room Tcp.init es)) := by
  constructor
  · intro es t hrun
    exact always_iff_meets (fun _ _ _ hs hstep => Udp.inv_step hs hstep)
      (fun _ _ _ hs hfits hstep => Udp.listFits_step_iff hs hfits hstep) Udp.inv_init
      Udp.listFits_init hrun
  · intro es t hrun
    exact always_iff_meets (fun _ _ _ hs hstep => Tcp.inv_step hs hstep)
      (fun _ _ _ hs hfits hstep => Tcp.listFits_step_iff hs hfits hstep) Tcp.inv_init
      Tcp.listFits_init hrun

/-- Two clients with long names. -/
theorem two_fit :
    Always (Udp.step stoppedClock) (fun s => s.server.ListFits) Udp.init (Udp.crowd 2) ∧
      Always (Tcp.step stoppedClock) (fun s => s.server.ListFits) Tcp.init (Tcp.crowd 2) := by
  have hudp : (exec (Udp.step stoppedClock) Udp.init (Udp.crowd 2)).any (fun _ => true) = true := by
    decide +kernel
  have htcp : (exec (Tcp.step stoppedClock) Tcp.init (Tcp.crowd 2)).any (fun _ => true) = true := by
    decide +kernel
  rcases exists_of_exec_any hudp with ⟨t, hrun, _⟩
  rcases exists_of_exec_any htcp with ⟨t', hrun', _⟩
  exact ⟨((list_fits_iff stoppedClock).1 _ t hrun).mpr (by decide +kernel),
    ((list_fits_iff stoppedClock).2 _ t' hrun').mpr (by decide +kernel)⟩

set_option maxRecDepth 100000 in
/-- Thirty clients with long names are too many for either server. -/
theorem crowd_overflows :
    (¬ ∀ clk s, Reaches (Udp.step clk) Udp.init s → s.server.ListFits) ∧
      ¬ ∀ clk s, Reaches (Tcp.step clk) Tcp.init s → s.server.ListFits := by
  constructor
  · intro hall
    have hend : (exec (Udp.step stoppedClock) Udp.init (Udp.crowd 30)).any (fun s =>
        decide (Udp.bufferSize ≤ s.server.listReply.length)) = true := by
      decide +kernel
    rcases exists_of_exec_any hend with ⟨s, hrun, hlong⟩
    have hroom := (hall stoppedClock s ⟨_, hrun⟩).room Udp.maxClients (le_refl _)
    rw [← Udp.Server.listReply_eq] at hroom
    exact absurd (of_decide_eq_true hlong) (Nat.not_le_of_lt hroom)
  · intro hall
    have hend : (exec (Tcp.step stoppedClock) Tcp.init (Tcp.crowd 30)).any (fun s =>
        decide (Tcp.bufferSize ≤ s.server.listReply.length)) = true := by
      decide +kernel
    rcases exists_of_exec_any hend with ⟨s, hrun, hlong⟩
    have hroom := (hall stoppedClock s ⟨_, hrun⟩).room Tcp.maxClients (le_refl _)
    rw [← Tcp.Server.listReply_eq] at hroom
    exact absurd (of_decide_eq_true hlong) (Nat.not_le_of_lt hroom)

end OsLabs
