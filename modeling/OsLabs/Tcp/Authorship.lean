import OsLabs.Tcp.Handling
import OsLabs.Tcp.Ownership

/-!
# Who Is Quoted

A chat text names its author, and the author did not write the name into it.
The handler of the connection takes the name from its slot at the time when it
formats the text. A sweep may have emptied the slot by then, and the name is
still there; but the accept loop may also have filled it again, and then the
text quotes the wrong client.

In runs without reuse that does not happen. A text in the form of the chat that
the server sends on any descriptor is then made of two things that came in on
one connection: the name that was read from it in the accept loop, and the
message of a command that a handler has read from it later. Nothing else that
the server sends begins as a chat text does.

What was read from which connection is recorded along the run, and every
handler carries where the text it works on has come from.

## Main definitions

* `Reading`, `reading`: What the server reads from a connection.
* `Quoted`: A chat text, and what it is made of.
* `Registering`, `NamesKept`, `Credited`: The invariant.
* `Authored`: Everybody is quoted with their own words.

## Theorems

* `name_step`: When the name in a slot changes.
* `registering_step`: A connection gives one name.
* `namesKept_step`: A slot keeps the name for its handler.
* `credited_step`: The texts are what they should be.
* `authored_of_run`: Nobody is quoted wrongly in a run without reuse.
-/

namespace OsLabs

namespace Tcp

open Machine

/-- What the server reads from a connection: a name in the accept loop, or a
    chunk in a handler. -/
inductive Reading where
  | name (c : Conn) (bytes : Bytes)
  | chunk (c : Conn) (bytes : Bytes)
  deriving DecidableEq

/-- What is read in a step. -/
def reading (s : State) : Event → Option Reading
  | .recvName (.data bytes) =>
      match s.main with
      | .recvName _ c => some (.name c bytes)
      | _ => none
  | .recv t (.data bytes) =>
      match s.threads t with
      | some ⟨_, .blocked (some c)⟩ => some (.chunk c bytes)
      | _ => none
  | _ => none

/-- The byte that chat texts begin with. -/
def bracket : UInt8 := 91

/-- A chat text, with the name and the message that its author has sent. -/
inductive Quoted (clk : LocalClock) (l : List Reading) : Bytes → Prop where
  | toAll (c : Conn) (name chunk message : Bytes) (now : Nat) (hname : .name c name ∈ l)
      (hchunk : .chunk c chunk ∈ l) (hparse : parse (cstr chunk) = .toAll message) :
      Quoted clk l (allText (clk.stamp now) (cstr name) message)
  | toOne (c : Conn) (name chunk targetName message : Bytes) (now : Nat) (hname : .name c name ∈ l)
      (hchunk : .chunk c chunk ∈ l) (hparse : parse (cstr chunk) = .toOne targetName message) :
      Quoted clk l (oneText (clk.stamp now) (cstr name) message)

/-- Everybody is quoted with their own words. -/
structure Authored (clk : LocalClock) (l : List Reading) (s : State) : Prop where
  /-- A text that begins as a chat text is one. -/
  quoted : ∀ p ∈ s.server.sent, p.2.head? = some bracket → Quoted clk l p.2
  /-- A connection has one name. -/
  once : ∀ c name name', .name c name ∈ l → .name c name' ∈ l → name = name'

/-- The connection that the accept loop is busy with. -/
def MainPc.conn : MainPc → Option Conn
  | .accept => none
  | .recvName _ c | .scan _ c _ _ | .insert _ c _ | .drop _ c _ | .welcome _ c _ | .spawn c _ =>
      some c

/-- The name that is checked and then registered. -/
def MainPc.pending : MainPc → Option (Conn × Bytes)
  | .scan _ c name _ | .insert _ c name => some (c, name)
  | _ => none

/-- The connection has given this name. -/
def Named (l : List Reading) (c : Conn) (name : Bytes) : Prop :=
  ∃ bytes, .name c bytes ∈ l ∧ cstr bytes = name

/-- What the accept loop has read. -/
structure Registering (l : List Reading) (s : State) : Prop where
  fresh : ∀ c, s.main.conn = some c → s.threads c = none ∧ c < s.accepted
  unnamed : ∀ d c, s.main = .recvName d c → ∀ name, .name c name ∉ l
  accepted : ∀ c name, .name c name ∈ l → c < s.accepted
  once : ∀ c name name', .name c name ∈ l → .name c name' ∈ l → name = name'
  pending : ∀ c name, s.main.pending = some (c, name) → Named l c name

/-- A slot belongs to a connection that has a handler there, or will have one. -/
def State.Uses (s : State) (c : Conn) (i : Slot) : Prop :=
  (∃ pc, s.threads c = some ⟨i, pc⟩ ∧ pc ≠ .exited) ∨ s.main.handed = some (c, i)

/-- The slots have the names of the connections that use them. -/
def NamesKept (l : List Reading) (s : State) : Prop :=
  ∀ c i, s.Uses c i → Named l c (s.server.clients i).name.str

/-- A text that the server may send. -/
def Fair (clk : LocalClock) (l : List Reading) (message : Bytes) : Prop :=
  message.head? = some bracket → Quoted clk l message

/-- Where the text has come from that a handler works on. -/
def Pc.Credits (clk : LocalClock) (l : List Reading) (t : Conn) : Pc → Prop
  | .touch buffer => .chunk t buffer ∈ l
  | .formatAll message => ∃ buffer, .chunk t buffer ∈ l ∧ parse (cstr buffer) = .toAll message
  | .find targetName message | .formatOne _ targetName message =>
      ∃ buffer, .chunk t buffer ∈ l ∧ parse (cstr buffer) = .toOne targetName message
  | .broadcast response | .sendTo _ _ response | .reply response | .sendReply _ response =>
      Fair clk l response
  | _ => True

/-- What has been sent, and what will be. -/
structure Credited (clk : LocalClock) (l : List Reading) (s : State) : Prop where
  sent : ∀ p ∈ s.server.sent, Fair clk l p.2
  handlers : ∀ t th, s.threads t = some th → th.pc.Credits clk l t
  main : ∀ d c message, s.main = .drop d c (some message) → message.head? ≠ some bracket

section Growth

variable {clk : LocalClock} {l l' : List Reading}

theorem Named.mono {c : Conn} {name : Bytes} (h : Named l c name) (hsub : l ⊆ l') :
    Named l' c name := by
  rcases h with ⟨bytes, hmem, hname⟩
  exact ⟨bytes, hsub hmem, hname⟩

theorem Quoted.mono {message : Bytes} (h : Quoted clk l message) (hsub : l ⊆ l') :
    Quoted clk l' message := by
  cases h with
  | toAll c name chunk message now hname hchunk hparse =>
      exact .toAll c name chunk message now (hsub hname) (hsub hchunk) hparse
  | toOne c name chunk targetName message now hname hchunk hparse =>
      exact .toOne c name chunk targetName message now (hsub hname) (hsub hchunk) hparse

theorem Fair.mono {message : Bytes} (h : Fair clk l message) (hsub : l ⊆ l') :
    Fair clk l' message :=
  fun hhead => (h hhead).mono hsub

theorem Pc.Credits.mono {t : Conn} {pc : Pc} (h : pc.Credits clk l t) (hsub : l ⊆ l') :
    pc.Credits clk l' t := by
  cases pc with
  | touch buffer => exact hsub h
  | formatAll message | find targetName message | formatOne i targetName message =>
      rcases h with ⟨buffer, hmem, hparse⟩
      exact ⟨buffer, hsub hmem, hparse⟩
  | broadcast response | sendTo i n response | reply response | sendReply d response =>
      exact Fair.mono h hsub
  | test | load | recv | blocked | listing | remove | exited => trivial

/-- A text in the server's own words. -/
theorem fair_of_head {message : Bytes} (h : message.head? ≠ some bracket) : Fair clk l message :=
  fun hhead => absurd hhead h

end Growth

section Names

variable {s : Server}

theorem clients_sendToClient (s : Server) (message : Bytes) (clientId : Slot) :
    (s.sendToClient message clientId).clients = s.clients := by
  unfold Server.sendToClient
  by_cases h : (s.clients clientId).active = true
  · rw [if_pos h]
    rfl
  · rw [if_neg h]

/-- A sweep empties slots, and leaves the names where they are. -/
theorem name_pingSweep (now : Nat) (s : Server) (i : Slot) :
    ((s.pingSweep now).clients i).name = (s.clients i).name := by
  unfold Server.pingSweep
  refine List.foldlRecOn (motive := fun t : Server => (t.clients i).name = (s.clients i).name)
    _ _ rfl (fun t ht j _ => ?_)
  unfold Server.sweepSlot
  by_cases hactive : (t.clients j).active = true
  · rw [if_pos hactive]
    by_cases hlate : (t.clients j).lastPing + 60 < now
    · rw [if_pos hlate]
      simp only [Server.close_clients]
      by_cases hij : i = j
      · rw [hij] at ht ⊢
        rw [Function.update_self]
        exact ht
      · rw [Function.update_of_ne hij, ht]
    · rw [if_neg hlate]
      exact ht
  · rw [if_neg hactive]
    exact ht

/-- A removal clears the name of the slot, if it was in use. -/
theorem name_removeClient {id i : Slot} (h : i = id → ¬ (s.clients id).active = true) :
    ((s.removeClient id).clients i).name = (s.clients i).name := by
  unfold Server.removeClient
  by_cases hactive : (s.clients id).active = true
  · have hne : i ≠ id := fun hid => h hid hactive
    rw [if_pos hactive]
    simp only [Server.close_clients, Function.update_of_ne hne]
  · rw [if_neg hactive]

/-- A handler changes a name only when it leaves. -/
theorem name_handlerStep {clk : LocalClock} {now : Nat} {server : Server} {id : Slot} {pc pc' : Pc}
    (h : handlerStep clk now s id pc = some (server, pc')) (i : Slot) :
    (server.clients i).name = (s.clients i).name ∨
      (pc = .remove ∧ pc' = .exited ∧ i = id ∧ (s.clients id).active = true) := by
  cases handlerStep_cases h with
  | touch buffer =>
      left
      rw [Server.clients_touch]
  | broadcast response =>
      left
      rw [Server.broadcastMessage_eq]
  | sendTo targetId targetName response =>
      left
      rw [clients_sendToClient]
  | remove =>
      by_cases hboth : i = id ∧ (s.clients id).active = true
      · exact Or.inr ⟨rfl, rfl, hboth⟩
      · exact Or.inl (name_removeClient fun hid hactive => hboth ⟨hid, hactive⟩)
  | goOn | leave | load | recv | listing | formatAll | found | notFound | formatOne | reply
  | sendReply => exact Or.inl rfl

end Names

/-- When the name in a slot changes. -/
inductive NameStep (s : State) (e : Event) (s' : State) (i : Slot) : Prop where
  | kept (h : (s'.server.clients i).name = (s.server.clients i).name)
  | filled (d : Fd) (c : Conn) (name : Bytes) (hevent : e = .main)
      (hmain : s.main = .insert d c name) (hfree : s.server.freeSlot = some i)
      (hmain' : s'.main = .welcome d c i)
      (hname : (s'.server.clients i).name = (s.server.clients i).name.strcpyCut name)
  | removed (t : Conn) (hevent : e = .thread t) (hthread : s.threads t = some ⟨i, .remove⟩)
      (hactive : (s.server.clients i).active = true)
      (hthread' : s'.threads = Function.update s.threads t (some ⟨i, .exited⟩))

theorem name_step {clk : LocalClock} {s s' : State} {e : Event} (h : step clk s e = some s')
    (i : Slot) : NameStep s e s' i := by
  -- By the event: only the insertion and the removal by a handler write a name.
  cases e with
  | time now =>
      simp only [step, Option.some.injEq] at h
      rw [← h]
      exact .kept rfl
  | accept result =>
      rcases (accept_cases h).2 with rfl | ⟨d, _, _, rfl⟩
      · exact .kept rfl
      · exact .kept rfl
  | recvName result =>
      rcases recvName_cases h with ⟨d, c, _, ⟨bytes, _, rfl⟩ | rfl⟩
      · exact .kept rfl
      · exact .kept rfl
  | main =>
      cases mainStep_cases h with
      -- The slot is the one that is filled, or another.
      | insert d c name j hmain hfree heq =>
          subst heq
          by_cases hij : i = j
          · subst hij
            refine .filled d c name rfl hmain hfree rfl ?_
            simp only [Server.register, Function.update_self]
          · refine .kept ?_
            simp only [Server.register, Function.update_of_ne hij]
      | drop d c error hmain heq =>
          subst heq
          refine .kept ?_
          cases error with
          | none => simp only [Server.close_clients]
          | some message =>
              have hsend : (s.server.send d message).clients = s.server.clients := rfl
              simp only [Server.close_clients, hsend]
      | taken d c name k hmain heq | next d c name k hmain hname heq
      | checked d c name k hmain hk heq | full d c name hmain hfree heq | welcome d c j hmain heq
      | spawn c j hmain heq =>
          subst heq
          exact .kept rfl
  | pingWake =>
      rw [pingWake_cases h]
      exact .kept rfl
  | sweep =>
      rcases sweep_cases h with ⟨now, rfl⟩
      have hname := name_pingSweep now s.server i
      refine .kept ?_
      dsimp only
      exact hname
  | recv c result =>
      rcases recv_cases h with ⟨id, source, pc, _, _, rfl⟩
      exact .kept rfl
  | thread c =>
      rcases thread_cases h with ⟨id, pc, server, pc', hthread, hhandler, rfl⟩
      -- A handler that changes a name removes its slot.
      rcases name_handlerStep hhandler i with hsame | ⟨rfl, rfl, rfl, hactive⟩
      · exact .kept hsame
      · exact .removed c rfl hthread hactive rfl

section Registration

variable {clk : LocalClock} {l l' : List Reading} {s s' : State} {e : Event}

theorem registering_init : Registering [] init where
  fresh := fun c h => absurd h (by simp only [init, MainPc.conn, reduceCtorEq, not_false_eq_true])
  unnamed := fun _ _ _ _ => List.not_mem_nil
  accepted := fun _ _ h => absurd h List.not_mem_nil
  once := fun _ _ _ h => absurd h List.not_mem_nil
  pending := fun c name h =>
    absurd h (by simp only [init, MainPc.pending, reduceCtorEq, not_false_eq_true])

/-- The accept loop goes on with what it has read, or stays where it is. -/
theorem registering_of (h : Registering l s)
    (hl : ∀ c name, .name c name ∈ l' ↔ .name c name ∈ l)
    (hconn : ∀ c, s'.main.conn = some c → s.main.conn = some c)
    (hthreads : ∀ c, s'.main.conn = some c → s.threads c = none → s'.threads c = none)
    (haccepted : s'.accepted = s.accepted)
    (hrecv : ∀ d c, s'.main = .recvName d c → s.main = .recvName d c)
    (hpending : ∀ c name, s'.main.pending = some (c, name) → s.main.pending = some (c, name)) :
    Registering l' s' where
  fresh := fun c hc => by
    rcases h.fresh c (hconn c hc) with ⟨hnone, hlt⟩
    exact ⟨hthreads c hc hnone, by rwa [haccepted]⟩
  unnamed := fun d c hmain name hmem => h.unnamed d c (hrecv d c hmain) name ((hl c name).mp hmem)
  accepted := fun c name hmem => by
    rw [haccepted]
    exact h.accepted c name ((hl c name).mp hmem)
  once := fun c name name' hmem hmem' =>
    h.once c name name' ((hl c name).mp hmem) ((hl c name').mp hmem')
  pending := fun c name hc => by
    rcases h.pending c name (hpending c name hc) with ⟨bytes, hmem, hname⟩
    exact ⟨bytes, (hl c bytes).mpr hmem, hname⟩

/-- A connection is accepted. -/
theorem registering_accept {d : Fd} (h : Registering l s) (hknown : Known s)
    (hmain : s'.main = .recvName d s.accepted) (haccepted : s'.accepted = s.accepted + 1)
    (hthreads : s'.threads = s.threads) : Registering l s' where
  fresh := fun c hc => by
    rw [hmain] at hc
    have hc' : s.accepted = c := Option.some.inj hc
    rw [haccepted, hthreads, ← hc']
    refine ⟨?_, Nat.lt_succ_self _⟩
    -- A connection that has a thread was accepted before.
    cases hthread : s.threads s.accepted with
    | none => rfl
    | some th => exact absurd (hknown.threads _ th hthread) (Nat.lt_irrefl _)
  unnamed := fun d' c hmain' name hmem => by
    rw [hmain] at hmain'
    have hlt := h.accepted c name hmem
    rw [(MainPc.recvName.inj hmain').2] at hlt
    exact Nat.lt_irrefl _ hlt
  accepted := fun c name hmem => by
    rw [haccepted]
    exact Nat.lt_succ_of_lt (h.accepted c name hmem)
  once := h.once
  pending := fun c name hc => by
    rw [hmain] at hc
    exact absurd hc (by simp only [MainPc.pending, reduceCtorEq, not_false_eq_true])

/-- A connection gives its name. -/
theorem registering_name {d : Fd} {c : Conn} {bytes : Bytes} (h : Registering l s)
    (hmain : s.main = .recvName d c) (hmain' : s'.main = .scan d c (cstr bytes) 0)
    (haccepted : s'.accepted = s.accepted) (hthreads : s'.threads = s.threads) :
    Registering (l ++ [.name c bytes]) s' := by
  have hfresh := h.fresh c (by rw [hmain]; rfl)
  have hmem : ∀ {c' name}, .name c' name ∈ l ++ [.name c bytes] →
      .name c' name ∈ l ∨ (c' = c ∧ name = bytes) := by
    intro c' name hname
    rcases List.mem_append.mp hname with hold | hnew
    · exact Or.inl hold
    · exact Or.inr (Reading.name.inj (List.mem_singleton.mp hnew))
  refine ⟨fun c' hc => ?_, fun d' c' hrecv => ?_, fun c' name hname => ?_,
    fun c' name name' hname hname' => ?_, fun c' name hc => ?_⟩
  -- The connection is the one that the loop is busy with.
  · rw [hmain'] at hc
    rw [haccepted, hthreads, ← Option.some.inj hc]
    exact hfresh
  · rw [hmain'] at hrecv
    exact absurd hrecv (by simp only [reduceCtorEq, not_false_eq_true])
  · rw [haccepted]
    rcases hmem hname with hold | ⟨rfl, _⟩
    · exact h.accepted c' name hold
    · exact hfresh.2
  · -- It has not given one before.
    rcases hmem hname with hold | ⟨rfl, rfl⟩
    · rcases hmem hname' with hold' | ⟨rfl, rfl⟩
      · exact h.once c' name name' hold hold'
      · exact absurd hold (h.unnamed d c' hmain name)
    · rcases hmem hname' with hold' | ⟨_, rfl⟩
      · exact absurd hold' (h.unnamed d c' hmain name')
      · rfl
  -- The name that is pending is the one that has just been read.
  · rw [hmain', MainPc.pending, Option.some.injEq, Prod.mk.injEq] at hc
    rw [← hc.1, ← hc.2]
    exact ⟨bytes, List.mem_append_right _ List.mem_cons_self, rfl⟩

/-- A thread moves, or the sweep, or the clock. -/
theorem registering_idle (h : Registering l s) (hmain : s'.main = s.main)
    (haccepted : s'.accepted = s.accepted)
    (hthreads : ∀ c, s.threads c = none → s'.threads c = none)
    (hreading : ∀ c name, reading s e ≠ some (.name c name)) :
    Registering (l ++ (reading s e).toList) s' := by
  refine registering_of h (fun c name => ⟨fun hmem => ?_, List.mem_append_left _⟩) ?_
    (fun c _ => hthreads c) haccepted ?_ ?_
  · rcases List.mem_append.mp hmem with hold | hnew
    · exact hold
    · exact absurd (Option.mem_toList.mp hnew) (hreading c name)
  · rw [hmain]
    exact fun _ hc => hc
  · rw [hmain]
    exact fun _ _ hc => hc
  · rw [hmain]
    exact fun _ _ hc => hc

theorem threads_update_none {threads : Conn → Option Thread} {t c : Conn} {th th' : Thread}
    (ht : threads t = some th) (hc : threads c = none) :
    Function.update threads t (some th') c = none := by
  have hne : c ≠ t := by
    rintro rfl
    rw [ht] at hc
    exact Option.some_ne_none _ hc
  rw [Function.update_of_ne hne, hc]

theorem reading_recv_ne (s : State) (t : Conn) (result : Recv) (c : Conn) (name : Bytes) :
    reading s (.recv t result) ≠ some (.name c name) := by
  cases result with
  | data bytes =>
      simp only [reading]
      split
      · simp only [ne_eq, Option.some.injEq, reduceCtorEq, not_false_eq_true]
      · exact (Option.some_ne_none _).symm
  | closed | error => exact (Option.some_ne_none _).symm

theorem registering_recvName {result : Recv} (h : Registering l s)
    (hstep : step clk s (.recvName result) = some s') :
    Registering (l ++ (reading s (.recvName result)).toList) s' := by
  have hdrop : ∀ {d c}, s.main = .recvName d c →
      Registering (l ++ []) { s with main := .drop d c none } := by
    intro d c hmain
    rw [List.append_nil]
    refine registering_of h (fun _ _ => Iff.rfl) (fun c' hc => ?_) (fun _ _ hnone => hnone) rfl
      (fun d' c' hrecv => ?_) fun c' name hpending => ?_
    · rw [hmain]
      exact hc
    · exact absurd hrecv (by simp only [reduceCtorEq, not_false_eq_true])
    · exact absurd hpending (by simp only [MainPc.pending, reduceCtorEq, not_false_eq_true])
  simp only [step] at hstep
  split at hstep
  -- `recv` has returned as many bytes as it may, and they are the name.
  · rename_i d c bytes hmain
    have hreading : reading s (.recvName (.data bytes)) = some (.name c bytes) := by
      simp only [reading, hmain]
    split at hstep
    · rw [Option.some.injEq] at hstep
      rw [hreading]
      exact registering_name h hmain (by rw [← hstep]) (by rw [← hstep]) (by rw [← hstep])
    · exact absurd hstep (by simp only [reduceCtorEq, not_false_eq_true])
  -- A closed or broken connection is dropped without a name.
  · rename_i d c hmain
    rw [Option.some.injEq] at hstep
    rw [← hstep]
    exact hdrop hmain
  · rename_i d c hmain
    rw [Option.some.injEq] at hstep
    rw [← hstep]
    exact hdrop hmain
  · exact absurd hstep (by simp only [reduceCtorEq, not_false_eq_true])

/-- The accept loop is busy with a connection until it has a thread or is
    gone. -/
theorem registering_main (h : Registering l s) (hstep : mainStep s = some s') :
    Registering l s' := by
  -- What the loop has to do with changes only when it is done with it.
  have hgoesOn : ∀ {s'' : State}, s''.main.conn = s.main.conn → s''.threads = s.threads →
      s''.accepted = s.accepted → (∀ d c, s''.main ≠ .recvName d c) →
      (∀ p, s''.main.pending = some p → s.main.pending = some p) → Registering l s'' := by
    intro s'' hconn hthreads haccepted hrecv hpending
    refine registering_of h (fun _ _ => Iff.rfl) (fun c hc => by rwa [← hconn])
      (fun c _ hnone => by rwa [hthreads]) haccepted (fun d c hmain => absurd hmain (hrecv d c)) ?_
    exact fun c name hc => hpending (c, name) hc
  have hdone : ∀ {s'' : State}, s''.main = .accept → s''.accepted = s.accepted →
      Registering l s'' := by
    intro s'' hmain haccepted
    refine registering_of h (fun _ _ => Iff.rfl) ?_ ?_ haccepted ?_ ?_ <;> rw [hmain]
    · exact fun c hc => absurd hc (Option.some_ne_none c).symm
    · exact fun c hc => absurd hc (Option.some_ne_none c).symm
    · exact fun d c hc => absurd hc (by simp only [reduceCtorEq, not_false_eq_true])
    · exact fun c name hc => absurd hc (Option.some_ne_none _).symm
  -- By the step of the loop: it goes on with the connection, or is done with it.
  cases mainStep_cases hstep with
  | taken d c name k hmain heq | full d c name hmain hfree heq | insert d c name i hmain hfree heq
  | welcome d c i hmain heq =>
      subst heq
      refine hgoesOn (by rw [hmain]; rfl) rfl rfl (fun _ _ => nofun) fun p hp => nomatch hp
  | next d c name k hmain hname heq | checked d c name k hmain hk heq =>
      subst heq
      refine hgoesOn (by rw [hmain]; rfl) rfl rfl (fun _ _ => nofun) fun p hp => ?_
      rw [hmain]
      exact hp
  | drop d c error hmain heq =>
      subst heq
      exact hdone rfl (by cases error <;> rfl)
  -- From here on the handler works for the connection.
  | spawn c i hmain heq =>
      subst heq
      exact hdone rfl rfl

/-- A connection gives one name, when the accept loop asks for it. -/
theorem registering_step (h : Registering l s) (hknown : Known s)
    (hstep : step clk s e = some s') : Registering (l ++ (reading s e).toList) s' := by
  cases e with
  | time now =>
      simp only [step, Option.some.injEq] at hstep
      rw [← hstep]
      exact registering_idle h rfl rfl (fun _ hc => hc) fun _ _ => (Option.some_ne_none _).symm
  | accept result =>
      have hnone : l ++ (reading s (.accept result)).toList = l := List.append_nil l
      rw [hnone]
      -- A failed `accept` leaves everything, a successful one gives the next connection.
      rcases (accept_cases hstep).2 with rfl | ⟨d, _, _, rfl⟩
      · exact h
      · exact registering_accept h hknown rfl rfl rfl
  | recvName result => exact registering_recvName h hstep
  | main =>
      have hnone : l ++ (reading s .main).toList = l := List.append_nil l
      rw [hnone]
      exact registering_main h hstep
  | pingWake =>
      rw [pingWake_cases hstep]
      exact registering_idle h rfl rfl (fun _ hc => hc) fun _ _ => (Option.some_ne_none _).symm
  | sweep =>
      rcases sweep_cases hstep with ⟨now, rfl⟩
      exact registering_idle h rfl rfl (fun _ hc => hc) fun _ _ => (Option.some_ne_none _).symm
  | recv c result =>
      rcases recv_cases hstep with ⟨id, source, pc, hthread, _, rfl⟩
      exact registering_idle h rfl rfl (fun _ hc => threads_update_none hthread hc)
        (reading_recv_ne s c result)
  | thread c =>
      rcases thread_cases hstep with ⟨id, pc, server, pc', hthread, _, rfl⟩
      exact registering_idle h rfl rfl (fun _ hc => threads_update_none hthread hc)
        fun _ _ => (Option.some_ne_none _).symm

theorem namesKept_init : NamesKept [] init := by
  rintro c i (⟨pc, hthread, _⟩ | hhanded)
  · exact absurd hthread (Option.some_ne_none _).symm
  · exact absurd hhanded (Option.some_ne_none _).symm

/-- A slot is used by those who used it, or by the connection that it has just
    been given to. -/
theorem uses_step (hstep : step clk s e = some s') {c : Conn} {i : Slot} (h : s'.Uses c i) :
    s.Uses c i ∨ ∃ d name, e = .main ∧ s.main = .insert d c name ∧ s.server.freeSlot = some i := by
  rcases h with ⟨pc, hthread, hpc⟩ | hhanded
  · left
    -- A handler was there before, or it is the one that is started.
    have hupdate : ∀ {t : Conn} {id : Slot} {pc' pc'' : Pc},
        s.threads t = some ⟨id, pc'⟩ → pc' ≠ .exited →
        Function.update s.threads t (some ⟨id, pc''⟩) c = some ⟨i, pc⟩ → s.Uses c i := by
      intro t id pc' pc'' ht hpc' hc
      rcases put_eq_some.mp hc with ⟨rfl, heq⟩ | ⟨_, hold⟩
      · rw [(Thread.mk.inj heq).1]
        exact Or.inl ⟨pc', ht, hpc'⟩
      · exact Or.inl ⟨pc, hold, hpc⟩
    cases step_turn hstep with
    | others hevent hthreads => exact Or.inl ⟨pc, by rwa [← hthreads], hpc⟩
    | spawn c' i' hevent hmain heq =>
        rw [heq] at hthread
        rcases put_eq_some.mp hthread with ⟨rfl, hth⟩ | ⟨_, hold⟩
        · rw [(Thread.mk.inj hth).1]
          exact Or.inr (by rw [hmain]; rfl)
        · exact Or.inl ⟨pc, hold, hpc⟩
    | recv t result id source pc' hevent ht hpc' heq =>
        rw [heq] at hthread
        exact hupdate ht (by simp only [ne_eq, reduceCtorEq, not_false_eq_true]) hthread
    | handler t id pc' server pc'' hevent ht hhandler heq =>
        rw [heq] at hthread
        refine hupdate ht ?_ hthread
        rintro rfl
        cases handlerStep_cases hhandler
  -- The slot has been handed to a connection that has no thread yet.
  · cases step_move hstep with
    | evictions is hmain => exact Or.inl (Or.inr (by rwa [← hmain]))
    | connect d hevent hmain hclosed hmain' =>
        rw [hmain'] at hhanded
        exact absurd hhanded (Option.some_ne_none _).symm
    | advance hheld hhanded' =>
        rcases hhanded' with hsame | hnone
        · exact Or.inl (Or.inr (by rwa [← hsame]))
        · rw [hnone] at hhanded
          exact absurd hhanded (Option.some_ne_none _).symm
    -- This is the step that hands the slot over.
    | enter d c' name i' hevent hmain hfirst hfree hmain' =>
        rw [hmain', MainPc.handed, Option.some.injEq, Prod.mk.injEq] at hhanded
        rcases hhanded with ⟨rfl, rfl⟩
        exact Or.inr ⟨d, name, hevent, hmain, hfirst⟩
    | close d c' error hmain hmain' =>
        rw [hmain'] at hhanded
        exact absurd hhanded (Option.some_ne_none _).symm

/-- Whoever uses an active slot is the connection that it was given to. -/
theorem Owned.conn_of_uses (h : Owned s) {c : Conn} {i : Slot} (huses : s.Uses c i)
    (hactive : (s.server.clients i).active = true) : s.server.session i = c := by
  have hslot := Server.slots_of_active hactive
  rcases huses with ⟨pc, hthread, hpc⟩ | hhanded
  · exact (h.threads c i pc hthread).slot hpc _ hslot
  · exact h.handed c i hhanded _ hslot

theorem conn_of_handed {pc : MainPc} {c : Conn} {i : Slot} (h : pc.handed = some (c, i)) :
    pc.conn = some c := by
  cases pc with
  | welcome d c' i' | spawn c' i' =>
      rw [MainPc.handed, Option.some.injEq, Prod.mk.injEq] at h
      rw [← h.1]
      rfl
  | accept | recvName | scan | insert | drop => exact absurd h (Option.some_ne_none _).symm

/-- Without reuse a slot keeps the name of the connection that uses it. -/
theorem namesKept_step (howned : Owned s) (hC : NoReuse s e) (hregistering : Registering l s)
    (h : NamesKept l s) (hsub : l ⊆ l') (hstep : step clk s e = some s') : NamesKept l' s' := by
  intro c i huses'
  rcases uses_step hstep huses' with huses | ⟨d, name, rfl, hmain, hfree⟩
  -- In use before: the name is kept, or the slot would have been reused.
  · cases name_step hstep i with
    | kept hname =>
        rw [hname]
        exact (h c i huses).mono hsub
    | filled d c' name hevent hmain hfree hmain' hname =>
        -- The slot that is filled is not in use.
        rcases huses with ⟨pc, hthread, hpc⟩ | hhanded
        · subst hevent
          have hlive := hC (i, name) (State.mem_fills hmain hfree) c
            (howned.known.threads c _ hthread)
          rw [live_of_thread hthread hpc] at hlive
          exact Bool.noConfusion hlive
        · rw [hmain] at hhanded
          exact absurd hhanded (Option.some_ne_none _).symm
    | removed t hevent hthread hactive hthreads' =>
        -- The handler that removes a session is its own, and is gone then.
        have ht := howned.conn_of_uses (Or.inl ⟨_, hthread,
          by simp only [ne_eq, reduceCtorEq, not_false_eq_true]⟩) hactive
        have hct : c = t := (howned.conn_of_uses huses hactive).symm.trans ht
        -- It cannot be in use afterwards, neither by its handler nor by a new connection.
        rcases huses' with ⟨pc, hthread', hpc⟩ | hhanded'
        · rw [hthreads', hct, Function.update_self, Option.some.injEq, Thread.mk.injEq] at hthread'
          exact absurd hthread'.2.symm hpc
        · subst hevent
          rcases thread_cases hstep with ⟨_, _, _, _, _, _, rfl⟩
          have hnone := (hregistering.fresh c (conn_of_handed hhanded')).1
          rw [hct, hthread] at hnone
          exact absurd hnone (Option.some_ne_none _)
  · -- The name was checked when it was read.
    have hchecked := howned.inv.checked
    rw [hmain] at hchecked
    simp only [step, mainStep, hmain, hfree, Option.some.injEq] at hstep
    have hname : (s'.server.clients i).name.str = name := by
      rw [← hstep]
      simp only [Server.register, Function.update_self]
      rw [CharArray.str_strcpyCut _ hchecked.1 (by decide), List.take_of_length_le hchecked.2.1]
    rw [hname]
    exact (hregistering.pending c name (by rw [hmain]; rfl)).mono hsub

end Registration

section Texts

variable {clk : LocalClock} {l l' : List Reading}

theorem head?_snprintf {size : Nat} (hsize : 1 < size) (out : Bytes) :
    (snprintf size out).head? = out.head? := by
  have hpos : size - 1 ≠ 0 := by omega
  rw [snprintf, List.head?_take, if_neg hpos]

/-- The list begins with its heading. -/
theorem head?_listReply (s : Server) : s.listReply.head? = some 65 := by
  unfold Server.listReply
  refine List.foldlRecOn (motive := fun r : Bytes => r.head? = some 65) _ _ rfl
    (fun r hr i _ => ?_)
  by_cases hactive : (s.clients i).active = true
  · rw [if_pos hactive, List.head?_append, hr]
    rfl
  · rw [if_neg hactive]
    exact hr

theorem fair_confirmText (targetName : Bytes) : Fair clk l (confirmText targetName) := by
  refine fair_of_head ?_
  have hhead : (confirmText targetName).head? = some 87 := head?_snprintf (by decide) _
  rw [hhead]
  decide

theorem fair_notFoundText (targetName : Bytes) : Fair clk l (notFoundText targetName) := by
  refine fair_of_head ?_
  have hhead : (notFoundText targetName).head? = some 75 := head?_snprintf (by decide) _
  rw [hhead]
  decide

/-- What a command says is in the chunk that it was recognised in. -/
theorem credits_dispatch {t : Conn} {buffer : Bytes} (h : .chunk t buffer ∈ l) :
    (dispatch (parse (cstr buffer))).Credits clk l t := by
  cases hparse : parse (cstr buffer) with
  | toAll message => exact ⟨buffer, h, hparse⟩
  | toOne targetName message => exact ⟨buffer, h, hparse⟩
  | ping => exact fair_of_head (by decide)
  | list | stop | ignored => trivial

/-- A handler credits the connection that it works for. -/
theorem credited_handlerStep {now : Nat} {s server : Server} {id : Slot} {t : Conn} {pc pc' : Pc}
    (h : handlerStep clk now s id pc = some (server, pc'))
    (hname : Named l t (s.clients id).name.str)
    (hsent : ∀ p ∈ s.sent, Fair clk l p.2) (hpc : pc.Credits clk l t) :
    (∀ p ∈ server.sent, Fair clk l p.2) ∧ pc'.Credits clk l t := by
  rcases hname with ⟨bytes, hmem, hbytes⟩
  -- By the turn of the handler: it makes a text, sends what it made, or does neither.
  cases handlerStep_cases h with
  | touch buffer => exact ⟨hsent, credits_dispatch hpc⟩
  | listing =>
      refine ⟨hsent, fair_of_head ?_⟩
      rw [head?_listReply]
      decide
  -- The name at the front is the one of the handler's own slot.
  | formatAll message =>
      rcases hpc with ⟨buffer, hchunk, hparse⟩
      refine ⟨hsent, fun _ => ?_⟩
      rw [← hbytes]
      exact .toAll t bytes buffer message now hmem hchunk hparse
  -- The same text goes to every recipient.
  | broadcast response =>
      refine ⟨fun p hp => ?_, trivial⟩
      rw [Server.broadcastMessage_eq] at hp
      rcases List.mem_append.mp hp with hold | hnew
      · exact hsent p hold
      · rcases List.mem_map.mp hnew with ⟨i, _, rfl⟩
        exact hpc
  | found targetName message targetId hfind => exact ⟨hsent, hpc⟩
  | notFound targetName message hfind => exact ⟨hsent, fair_notFoundText targetName⟩
  | formatOne targetId targetName message =>
      rcases hpc with ⟨buffer, hchunk, hparse⟩
      refine ⟨hsent, fun _ => ?_⟩
      rw [← hbytes]
      exact .toOne t bytes buffer targetName message now hmem hchunk hparse
  | sendTo targetId targetName response =>
      refine ⟨fun p hp => ?_, fair_confirmText targetName⟩
      unfold Server.sendToClient at hp
      -- To the target if it is still active, otherwise to nobody.
      by_cases hactive : (s.clients targetId).active = true
      · rw [if_pos hactive] at hp
        rcases List.mem_append.mp hp with hold | hnew
        · exact hsent p hold
        · rw [List.mem_singleton.mp hnew]
          exact hpc
      · rw [if_neg hactive] at hp
        exact hsent p hp
  | reply response => exact ⟨hsent, hpc⟩
  | sendReply d response =>
      refine ⟨fun p hp => ?_, trivial⟩
      rcases List.mem_append.mp hp with hold | hnew
      · exact hsent p hold
      · rw [List.mem_singleton.mp hnew]
        exact hpc
  | remove =>
      rw [sent_removeClient]
      exact ⟨hsent, trivial⟩
  | goOn | leave | load | recv => exact ⟨hsent, trivial⟩

/-- The sweep sends probes. -/
theorem fair_pingSweep (now : Nat) {s : Server} (hsent : ∀ p ∈ s.sent, Fair clk l p.2) :
    ∀ p ∈ (s.pingSweep now).sent, Fair clk l p.2 := by
  unfold Server.pingSweep
  refine List.foldlRecOn (motive := fun t : Server => ∀ p ∈ t.sent, Fair clk l p.2) _ _ hsent
    (fun t ht i _ => ?_)
  unfold Server.sweepSlot
  by_cases hactive : (t.clients i).active = true
  · rw [if_pos hactive]
    by_cases hlate : (t.clients i).lastPing + 60 < now
    · rw [if_pos hlate]
      simp only [sent_close]
      exact ht
    · rw [if_neg hlate]
      intro p hp
      have halive : Fair clk l (text "ALIVE\n") := fair_of_head (by decide)
      rcases List.mem_append.mp hp with hold | hnew
      · exact ht p hold
      · rw [List.mem_singleton.mp hnew]
        exact halive
  · rw [if_neg hactive]
    exact ht

/-- The accept loop sends texts in the server's own words. -/
theorem credited_mainStep {s s' : State} (h : Credited clk l s) (hstep : mainStep s = some s') :
    Credited clk l s' := by
  have hsend : ∀ {d : Fd} {message : Bytes}, message.head? ≠ some bracket →
      ∀ p ∈ (s.server.send d message).sent, Fair clk l p.2 := by
    intro d message hhead p hp
    rcases List.mem_append.mp hp with hold | hnew
    · exact h.sent p hold
    · rw [List.mem_singleton.mp hnew]
      exact fair_of_head hhead
  -- Refusals and the greeting do not begin with a bracket.
  cases mainStep_cases hstep with
  | taken d c name k hmain heq =>
      subst heq
      refine ⟨h.sent, h.handlers, fun d' c' message hdrop => ?_⟩
      rw [← Option.some.inj (MainPc.drop.inj hdrop).2.2]
      decide
  | full d c name hmain hfree heq =>
      subst heq
      refine ⟨h.sent, h.handlers, fun d' c' message hdrop => ?_⟩
      rw [← Option.some.inj (MainPc.drop.inj hdrop).2.2]
      decide
  | next d c name k hmain hname heq | checked d c name k hmain hk heq
  | insert d c name i hmain hfree heq =>
      subst heq
      exact ⟨h.sent, h.handlers, fun _ _ _ hdrop => nomatch hdrop⟩
  -- The refusal that is sent is the one that was decided on.
  | drop d c error hmain heq =>
      subst heq
      cases error with
      | none =>
          refine ⟨?_, h.handlers, fun _ _ _ hdrop => nomatch hdrop⟩
          dsimp only
          rw [sent_close]
          exact h.sent
      | some message =>
          refine ⟨?_, h.handlers, fun _ _ _ hdrop => nomatch hdrop⟩
          dsimp only
          rw [sent_close]
          exact hsend (h.main d c message hmain)
  | welcome d c i hmain heq =>
      subst heq
      exact ⟨hsend (by decide), h.handlers, fun _ _ _ hdrop => nomatch hdrop⟩
  | spawn c i hmain heq =>
      subst heq
      refine ⟨h.sent, fun t th ht => ?_, fun _ _ _ hdrop => nomatch hdrop⟩
      rcases put_eq_some.mp ht with ⟨_, rfl⟩ | ⟨_, hold⟩
      · trivial
      · exact h.handlers t th hold

theorem credited_init : Credited clk [] init where
  sent := fun _ h => absurd h List.not_mem_nil
  handlers := fun _ _ h => absurd h (Option.some_ne_none _).symm
  main := fun _ _ _ h => nomatch h

theorem Credited.mono {s : State} (h : Credited clk l s) (hsub : l ⊆ l') : Credited clk l' s where
  sent := fun p hp => (h.sent p hp).mono hsub
  handlers := fun t th ht => (h.handlers t th ht).mono hsub
  main := h.main

/-- What a handler has read is recorded as coming from its own connection. -/
theorem reading_recv {s : State} {t c : Conn} {id : Slot} {bytes : Bytes} (howned : Owned s)
    (hthread : s.threads t = some ⟨id, .blocked (some c)⟩) :
    reading s (.recv t (.data bytes)) = some (.chunk t bytes) := by
  have hown : c = t := (howned.threads t id _ hthread).inside c rfl
  simp only [reading, hthread, hown]

/-- The texts are what they should be. -/
theorem credited_step {s s' : State} {e : Event} (howned : Owned s) (hnames : NamesKept l s)
    (h : Credited clk l s) (hstep : step clk s e = some s') :
    Credited clk (l ++ (reading s e).toList) s' := by
  have hsub : l ⊆ l ++ (reading s e).toList := List.subset_append_left _ _
  have hall := h.mono hsub
  -- By the event: only the accept loop and the handlers send, and a handler reads a command.
  cases e with
  | time now =>
      simp only [step, Option.some.injEq] at hstep
      rw [← hstep]
      exact ⟨hall.sent, hall.handlers, hall.main⟩
  | accept result =>
      rcases (accept_cases hstep).2 with rfl | ⟨d, _, _, rfl⟩
      · exact hall
      · refine ⟨hall.sent, hall.handlers, ?_⟩
        intro _ _ _ hdrop
        cases hdrop
  | recvName result =>
      rcases recvName_cases hstep with ⟨d, c, _, ⟨bytes, _, rfl⟩ | rfl⟩
      · refine ⟨hall.sent, hall.handlers, ?_⟩
        intro _ _ _ hdrop
        cases hdrop
      · refine ⟨hall.sent, hall.handlers, ?_⟩
        intro _ _ _ hdrop
        cases hdrop
  | main => exact credited_mainStep hall hstep
  | pingWake =>
      rw [pingWake_cases hstep]
      exact ⟨hall.sent, hall.handlers, hall.main⟩
  | sweep =>
      rcases sweep_cases hstep with ⟨now, rfl⟩
      have hsent := fair_pingSweep now hall.sent
      refine ⟨?_, hall.handlers, hall.main⟩
      dsimp only
      exact hsent
  | recv t result =>
      rcases recv_cases hstep with ⟨id, source, pc, hthread, hpc, rfl⟩
      refine ⟨hall.sent, fun t' th ht => ?_, hall.main⟩
      rcases put_eq_some.mp ht with ⟨rfl, rfl⟩ | ⟨_, hold⟩
      · rcases hpc with ⟨bytes, c, rfl, rfl, rfl⟩ | ⟨rfl, _⟩
        · rw [reading_recv howned hthread]
          exact List.mem_append_right _ List.mem_cons_self
        · trivial
      · exact hall.handlers t' th hold
  -- The handler credits the connection that its slot is named for.
  | thread t =>
      rcases thread_cases hstep with ⟨id, pc, server, pc', hthread, hhandler, rfl⟩
      have hpc : pc ≠ .exited := by
        rintro rfl
        cases handlerStep_cases hhandler
      have hname := (hnames t id (Or.inl ⟨pc, hthread, hpc⟩)).mono hsub
      rcases credited_handlerStep hhandler hname hall.sent (hall.handlers t _ hthread)
        with ⟨hsent, hcredits⟩
      refine ⟨hsent, fun t' th ht => ?_, hall.main⟩
      rcases put_eq_some.mp ht with ⟨rfl, rfl⟩ | ⟨_, hold⟩
      · exact hcredits
      · exact hall.handlers t' th hold

end Texts

/-- In every run that gives out no slot and no descriptor number a second time
    while a handler uses it, and however the threads take turns, the server
    quotes everybody with their own words. -/
theorem authored_of_run (clk : LocalClock) (es : List Event) (s : State)
    (hrun : exec (step clk) init es = some s) (hC : Meets (step clk) NoReuse init es) :
    Authored clk (record (step clk) reading init es) s := by
  have hend := exec_record_of_meets (o := reading)
    (I := fun s l => Owned s ∧ Registering l s ∧ NamesKept l s ∧ Credited clk l s)
    (fun s e s' l h hCe hstep => ⟨owned_step h.1 hCe hstep,
      registering_step h.2.1 h.1.known hstep,
      namesKept_step h.1 hCe h.2.1 h.2.2.1 (List.subset_append_left _ _) hstep,
      credited_step h.1 h.2.2.1 h.2.2.2 hstep⟩)
    ⟨owned_init, registering_init, namesKept_init, credited_init⟩ hC hrun
  rw [List.nil_append] at hend
  exact ⟨hend.2.2.2.sent, hend.2.1.once⟩

/-- "ala" and "ola" come; "ala" greets, goes away, and "ela" gets her slot. -/
def greetingRun : List Event :=
  joining 4 (text "ala") ++ joining 5 (text "ola") ++
    [.thread 0, .thread 0, .thread 0, .recv 0 (.data (text "2ALL hej")), .thread 0, .thread 0,
      .thread 0, .thread 0, .thread 0, .thread 0, .recv 0 .closed, .thread 0] ++
    joining 4 (text "ela")

/-- "ola" is told who has greeted her. -/
theorem authored_greeting : ∃ s, exec (step stoppedClock) init greetingRun = some s ∧
    Authored stoppedClock (record (step stoppedClock) reading init greetingRun) s ∧
    (5, allText (text "00:00:00") (text "ala") (text "hej")) ∈ s.server.sent ∧
    (s.server.clients ⟨0, by decide⟩).name.str = text "ela" := by
  have hend : (exec (step stoppedClock) init greetingRun).any (fun s =>
      decide ((5, allText (text "00:00:00") (text "ala") (text "hej")) ∈ s.server.sent ∧
        (s.server.clients ⟨0, by decide⟩).name.str = text "ela")) = true := by
    decide +kernel
  rcases exists_of_exec_any hend with ⟨s, hrun, hs⟩
  exact ⟨s, hrun, authored_of_run stoppedClock _ s hrun (by decide +kernel), of_decide_eq_true hs⟩

end Tcp

end OsLabs
