import OsLabs.Udp.Client
import OsLabs.Udp.Isolation
import OsLabs.Udp.KeepAlive

/-!
# Leaving the UDP Chat

One registered client and the server, with the datagrams that are on their way
between them. The client leaves when its input loop ends; the server forgets it
when a `QUIT` arrives. The two should agree once nothing is in flight, and they
decide by different means. The loop ends for a line that is `QUIT`, and the
server removes the slot for every datagram that begins so. The loop also ends
at the end of input, when a send fails, and when the receiving thread gives up,
and nothing is sent then.

Datagrams are not lost, and may arrive in any order. The other clients do what
they like, from addresses of their own, and sweeps happen as long as they do
not find this client late.

## Main definitions

* `Server.Holds`: A slot is active under an address.
* `Session`, `Session.Event`, `Session.step`: The client, what is in flight,
  and the server.
* `Session.Move`: The steps, by what they do.
* `Session.Agreed`: Client and server agree.
* `Session.Orderly`: The step does not make them disagree.
* `Session.Ordinary`, `Session.OnItsWay`: Ordinary use, and its invariant.

## Theorems

* `holds_other`, `holds_own`: What a datagram does to the slots of an address.
* `step_move`: Every step is a move.
* `agreed_step`: A step keeps the agreement exactly if it is orderly.
* `leaving_iff`: When client and server agree.
* `agreed_of_ordinary`: They do in ordinary use.
-/

namespace OsLabs

namespace Udp

open Machine

namespace Server

/-- The slot is active under the address. -/
def Holds (s : Server) (a : SockAddr) (i : Slot) : Prop :=
  (s.clients i).active = true ∧ (s.clients i).addr = a

instance (s : Server) (a : SockAddr) (i : Slot) : Decidable (s.Holds a i) :=
  inferInstanceAs (Decidable (_ ∧ _))

theorem holds_of_find {s : Server} {a : SockAddr} {i : Slot}
    (h : s.findClientByAddr a = some i) : s.Holds a i :=
  active_of_findClientByAddr h

theorem find_eq_none_iff {s : Server} {a : SockAddr} :
    s.findClientByAddr a = none ↔ ∀ i, ¬ s.Holds a i := by
  unfold findClientByAddr
  rw [scan_none]
  refine forall_congr' fun i => ?_
  rw [Holds, Bool.and_eq_false_iff, decide_eq_false_iff_not, not_and_or, Bool.not_eq_true]

/-- A registration from this address is carried out. -/
def Accepts (s : Server) (buffer : Bytes) : Prop :=
  strncmpEq buffer (text "REGISTER ") = true ∧ s.findClientByName (buffer.drop 9) = none ∧
    s.freeSlot.isSome = true

instance (s : Server) (buffer : Bytes) : Decidable (s.Accepts buffer) :=
  inferInstanceAs (Decidable (_ ∧ _ ∧ _))

end Server

/-- A datagram from elsewhere leaves the slots of an address alone. -/
theorem holds_other {now : Nat} {s s' : Server} {src a : SockAddr} {buffer : Bytes}
    (h : Change now s src buffer s') (hne : src ≠ a) (i : Slot) :
    s'.Holds a i ↔ s.Holds a i := by
  cases h with
  | refused _ _ hclients | unknown _ _ hclients => rw [Server.Holds, Server.Holds, hclients]
  | registered j hregister hname hfree hclients =>
      rw [Server.Holds, Server.Holds, hclients]
      by_cases hij : i = j
      · -- The slot was free, and now is somebody else's.
        rw [hij, Server.freeSlot_inactive hfree]
        simp only [Server.insertClient, Function.update_self, hne, and_false, Bool.false_eq_true,
          false_and]
      · rw [Server.clients_insertClient_of_ne s _ src now hij]
  | touched id hregister hfind hquit hclients =>
      rw [Server.Holds, Server.Holds, hclients, Server.clients_touch]
  | removed id hregister hfind hquit hclients =>
      rcases Server.holds_of_find hfind with ⟨hactive, haddr⟩
      rw [Server.Holds, Server.Holds, hclients, Server.clients_removeClient_touch now hactive]
      by_cases hij : i = id
      · rw [if_pos hij, hij]
        simp only [Bool.false_eq_true, haddr, hne, and_false]
      · rw [if_neg hij]

/-- A datagram from the address itself: a registration adds a slot, a `QUIT`
    takes the first one away. -/
theorem holds_own {now : Nat} {s s' : Server} {a : SockAddr} {buffer : Bytes}
    (h : Change now s a buffer s') :
    (s.Accepts buffer ∧ (∃ j, s'.Holds a j) ∧ ∀ i, s.Holds a i → s'.Holds a i) ∨
      (¬ s.Accepts buffer ∧ ∃ id, s.findClientByAddr a = some id ∧
        strncmpEq buffer (text "QUIT") = true ∧ ∀ i, s'.Holds a i ↔ s.Holds a i ∧ i ≠ id) ∨
      (¬ s.Accepts buffer ∧ (strncmpEq buffer (text "QUIT") = true → s.findClientByAddr a = none) ∧
        ∀ i, s'.Holds a i ↔ s.Holds a i) := by
  cases h with
  | registered j hregister hname hfree hclients =>
      refine Or.inl ⟨⟨hregister, hname, by rw [hfree]; rfl⟩, ⟨j, ?_⟩, fun i hi => ?_⟩
      · rw [Server.Holds, hclients]
        simp only [Server.insertClient, Function.update_self, and_self]
      -- A slot that the address has is active, so it is not the one that is filled.
      · have hij : i ≠ j := by
          rintro rfl
          rw [Server.Holds, Server.freeSlot_inactive hfree] at hi
          exact absurd hi.1 Bool.false_ne_true
        rw [Server.Holds, hclients, Server.clients_insertClient_of_ne s _ a now hij]
        exact hi
  -- A registration that is refused is no `QUIT` either.
  | refused hregister hrefused hclients =>
      refine Or.inr (Or.inr ⟨?_, fun hquit => ?_, fun i => ?_⟩)
      · rintro ⟨_, hname, hfree⟩
        rw [hrefused hname] at hfree
        exact absurd hfree Bool.false_ne_true
      · have hno : strncmpEq buffer (text "QUIT") = false :=
          strncmpEq_of_head hregister (by decide)
        rw [hno] at hquit
        exact absurd hquit Bool.false_ne_true
      · rw [Server.Holds, Server.Holds, hclients]
  | unknown hregister hfind hclients =>
      refine Or.inr (Or.inr ⟨fun haccepts => hregister haccepts.1, fun _ => hfind, fun i => ?_⟩)
      rw [Server.Holds, Server.Holds, hclients]
  | touched id hregister hfind hquit hclients =>
      refine Or.inr (Or.inr ⟨fun haccepts => hregister haccepts.1,
        fun hquit' => absurd hquit' hquit, fun i => ?_⟩)
      rw [Server.Holds, Server.Holds, hclients, Server.clients_touch]
  -- The slot that is removed is the one that the lookup finds.
  | removed id hregister hfind hquit hclients =>
      refine Or.inr (Or.inl ⟨fun haccepts => hregister haccepts.1, id, hfind, hquit, fun i => ?_⟩)
      have hactive := (Server.holds_of_find hfind).1
      rw [Server.Holds, Server.Holds, hclients, Server.clients_removeClient_touch now hactive]
      by_cases hij : i = id
      · rw [if_pos hij]
        simp only [Bool.false_eq_true, false_and, hij, ne_eq, not_true_eq_false, and_false]
      · rw [if_neg hij]
        simp only [ne_eq, hij, not_false_eq_true, and_true]

/-- A registered client, what it has sent and the server has not handled, and
    the server. -/
structure Session where
  server : Server
  clock : Nat
  flight : List Bytes
  /-- The input loop of `main` has ended. -/
  ended : Bool

namespace Session

/-- What happens next. `line` is what one `fgets` returns. `stop` is the loop
    finding `running` cleared by the receiving thread, `interrupt` is
    `signal_handler`, and `pong` the answer to a probe. -/
inductive Event where
  | time (now : Nat)
  | line (bytes : Bytes)
  | eof
  | sendError (bytes : Bytes)
  | stop
  | interrupt
  | pong
  | arrive (k : Nat)
  | other (src : SockAddr) (bytes : Bytes)
  | sweep (now : Nat)

/-- What `handle_message` finds in its buffer. -/
def received (bytes : Bytes) : Bytes := cstr (bytes.take (bufferSize - 1))

/-- What `handle_message` does with a datagram. -/
def handled (clk : LocalClock) (s : Session) (src : SockAddr) (bytes : Bytes) : Server :=
  s.server.handleMessage clk s.clock src (received bytes)

/-- One step of the client with the address `a`, or of the server. Other
    clients have other addresses, and no sweep finds this client late. -/
def step (clk : LocalClock) (a : SockAddr) (s : Session) : Event → Option Session
  | .time now => some { s with clock := now }
  | .line bytes =>
      if s.ended then none
      else
        match inputTurn bytes with
        | .skip => some s
        | .send input => some { s with flight := s.flight ++ [input] }
        | .quit => some { s with flight := s.flight ++ [text "QUIT"], ended := true }
  | .eof => if s.ended then none else some { s with ended := true }
  | .sendError bytes =>
      if s.ended then none
      else
        match inputTurn bytes with
        | .send _ => some { s with ended := true }
        | _ => none
  | .stop => if s.ended then none else some { s with ended := true }
  | .interrupt => some { s with flight := s.flight ++ [text "QUIT"], ended := true }
  | .pong => some { s with flight := s.flight ++ [text "PING"] }
  | .arrive k =>
      match s.flight[k]? with
      | some d => some { s with server := s.handled clk a d, flight := s.flight.eraseIdx k }
      | none => none
  | .other src bytes =>
      if src = a then none else some { s with server := s.handled clk src bytes }
  | .sweep now =>
      if ∀ i, s.server.Holds a i → ¬ (s.server.clients i).late now = true then
        some { s with server := s.server.pingSweep now }
      else none

/-- The steps, by what they do. -/
inductive Move (clk : LocalClock) (a : SockAddr) (s : Session) : Event → Session → Prop where
  | time (now : Nat) : Move clk a s (.time now) { s with clock := now }
  | skip (bytes : Bytes) (hrunning : s.ended = false) (hturn : inputTurn bytes = .skip) :
      Move clk a s (.line bytes) s
  | send (bytes input : Bytes) (hrunning : s.ended = false)
      (hturn : inputTurn bytes = .send input) :
      Move clk a s (.line bytes) { s with flight := s.flight ++ [input] }
  | quit (bytes : Bytes) (hrunning : s.ended = false) (hturn : inputTurn bytes = .quit) :
      Move clk a s (.line bytes) { s with flight := s.flight ++ [text "QUIT"], ended := true }
  | eof (hrunning : s.ended = false) : Move clk a s .eof { s with ended := true }
  | sendError (bytes : Bytes) (hrunning : s.ended = false) :
      Move clk a s (.sendError bytes) { s with ended := true }
  | stop (hrunning : s.ended = false) : Move clk a s .stop { s with ended := true }
  | interrupt :
      Move clk a s .interrupt { s with flight := s.flight ++ [text "QUIT"], ended := true }
  | pong : Move clk a s .pong { s with flight := s.flight ++ [text "PING"] }
  | arrive (k : Nat) (d : Bytes) (hd : s.flight[k]? = some d) :
      Move clk a s (.arrive k)
        { s with server := s.handled clk a d, flight := s.flight.eraseIdx k }
  | other (src : SockAddr) (bytes : Bytes) (hsrc : src ≠ a) :
      Move clk a s (.other src bytes) { s with server := s.handled clk src bytes }
  | sweep (now : Nat) (hlate : ∀ i, s.server.Holds a i → ¬ (s.server.clients i).late now = true) :
      Move clk a s (.sweep now) { s with server := s.server.pingSweep now }

/-- The loop of a client that takes a step there goes on. -/
theorem running_of_step {s s' : Session} {next : Option Session}
    (h : (if s.ended then none else next) = some s') : s.ended = false ∧ next = some s' := by
  cases hended : s.ended with
  | false =>
      rw [hended, if_neg Bool.false_ne_true] at h
      exact ⟨rfl, h⟩
  | true =>
      rw [hended, if_pos rfl] at h
      cases h

theorem step_move {clk : LocalClock} {a : SockAddr} {s s' : Session} {e : Event}
    (h : step clk a s e = some s') : Move clk a s e s' := by
  -- By the event: only the input loop depends on whether the client still runs.
  cases e with
  | time now =>
      rw [← Option.some.inj h]
      exact .time now
  | line bytes =>
      rcases running_of_step h with ⟨hrunning, hnext⟩
      cases hturn : inputTurn bytes with
      | skip =>
          simp only [hturn, Option.some.injEq] at hnext
          rw [← hnext]
          exact .skip bytes hrunning hturn
      | send input =>
          simp only [hturn, Option.some.injEq] at hnext
          rw [← hnext]
          exact .send bytes input hrunning hturn
      | quit =>
          simp only [hturn, Option.some.injEq] at hnext
          rw [← hnext]
          exact .quit bytes hrunning hturn
  | eof =>
      rcases running_of_step h with ⟨hrunning, hnext⟩
      rw [← Option.some.inj hnext]
      exact .eof hrunning
  | sendError bytes =>
      rcases running_of_step h with ⟨hrunning, hnext⟩
      split at hnext
      · rw [← Option.some.inj hnext]
        exact .sendError bytes hrunning
      · cases hnext
  | stop =>
      rcases running_of_step h with ⟨hrunning, hnext⟩
      rw [← Option.some.inj hnext]
      exact .stop hrunning
  | interrupt =>
      rw [← Option.some.inj h]
      exact .interrupt
  | pong =>
      rw [← Option.some.inj h]
      exact .pong
  | arrive k =>
      simp only [step] at h
      split at h
      · rename_i d hd
        rw [← Option.some.inj h]
        exact .arrive k d hd
      · cases h
  | other src bytes =>
      simp only [step] at h
      split at h
      · cases h
      · rename_i hsrc
        rw [← Option.some.inj h]
        exact .other src bytes hsrc
  | sweep now =>
      simp only [step] at h
      split at h
      -- Only sweeps that do not find the client late are events of the session.
      · rename_i hlate
        rw [← Option.some.inj h]
        exact .sweep now hlate
      · cases h

/-- Client and server agree: a client whose loop goes on has its slot, and one
    whose loop has ended has none when all its datagrams were handled. -/
structure Agreed (a : SockAddr) (i : Slot) (s : Session) : Prop where
  running : s.ended = false → s.server.Holds a i
  left : s.flight = [] → s.ended = true → ∀ j, ¬ s.server.Holds a j

/-- After the datagram no slot has the address: it registers nobody, and if
    there is a slot left, it is the only one and the datagram is a `QUIT`. -/
def Final (s : Server) (a : SockAddr) (buffer : Bytes) : Prop :=
  ¬ s.Accepts buffer ∧ ∀ j, s.findClientByAddr a = some j →
    strncmpEq buffer (text "QUIT") = true ∧ ∀ i, s.Holds a i → i = j

instance (s : Server) (a : SockAddr) (buffer : Bytes) : Decidable (Final s a buffer) :=
  inferInstanceAs (Decidable (¬ s.Accepts buffer ∧ ∀ j, s.findClientByAddr a = some j →
    strncmpEq buffer (text "QUIT") = true ∧ ∀ i, s.Holds a i → i = j))

instance (a : SockAddr) (i : Slot) (s : Session) : Decidable (Agreed a i s) :=
  decidable_of_iff ((s.ended = false → s.server.Holds a i) ∧
    (s.flight = [] → s.ended = true → ∀ j, ¬ s.server.Holds a j))
    ⟨fun h => ⟨h.1, h.2⟩, fun h => ⟨h.running, h.left⟩⟩

/-- The step does not make client and server disagree. -/
def Orderly (a : SockAddr) (i : Slot) (s : Session) : Event → Prop
  | .eof | .sendError _ | .stop => s.flight ≠ []
  | .arrive k => ∀ d ∈ s.flight[k]?,
      (s.ended = false → strncmpEq (received d) (text "QUIT") = true →
        s.server.findClientByAddr a ≠ some i) ∧
      (s.ended = true → s.flight.length = 1 → Final s.server a (received d))
  | _ => True

instance (a : SockAddr) (i : Slot) (s : Session) (e : Event) : Decidable (Orderly a i s e) :=
  match e with
  | .eof => inferInstanceAs (Decidable (s.flight ≠ []))
  | .sendError _ => inferInstanceAs (Decidable (s.flight ≠ []))
  | .stop => inferInstanceAs (Decidable (s.flight ≠ []))
  | .arrive k => inferInstanceAs (Decidable (∀ d ∈ s.flight[k]?,
      (s.ended = false → strncmpEq (received d) (text "QUIT") = true →
        s.server.findClientByAddr a ≠ some i) ∧
      (s.ended = true → s.flight.length = 1 → Final s.server a (received d))))
  | .time _ => isTrue trivial
  | .line _ => isTrue trivial
  | .interrupt => isTrue trivial
  | .pong => isTrue trivial
  | .other _ _ => isTrue trivial
  | .sweep _ => isTrue trivial

theorem change_handled (clk : LocalClock) (s : Session) (src : SockAddr) (bytes : Bytes) :
    Change s.clock s.server src (received bytes) (s.handled clk src bytes) :=
  change_of_handled (handleMessage_cases clk s.clock s.server src _)

/-- Where the slots of the address stay as they are, so does the agreement. -/
theorem agreed_of_same {a : SockAddr} {i : Slot} {s s' : Session} (h : Agreed a i s)
    (hended : s'.ended = s.ended) (hflight : s'.flight = [] → s.flight = [])
    (hholds : ∀ j, s'.server.Holds a j ↔ s.server.Holds a j) : Agreed a i s' where
  running := by
    intro hrunning
    rw [hended] at hrunning
    exact (hholds i).mpr (h.running hrunning)
  left := by
    intro hempty hleft j hj
    rw [hended] at hleft
    exact h.left (hflight hempty) hleft j ((hholds j).mp hj)

/-- A loop that ends without a `QUIT`. -/
theorem agreed_ended_iff {a : SockAddr} {i : Slot} {s : Session} (h : Agreed a i s)
    (hrunning : s.ended = false) :
    Agreed a i { s with ended := true } ↔ s.flight ≠ [] := by
  constructor
  · intro hagreed hempty
    exact hagreed.left hempty rfl i (h.running hrunning)
  · intro hflight
    exact ⟨fun hended => absurd hended (by simp only [Bool.true_eq_false, not_false_eq_true]),
      fun hempty => absurd hempty hflight⟩

theorem final_iff {now : Nat} {s s' : Server} {a : SockAddr} {buffer : Bytes}
    (h : Change now s a buffer s') : (∀ j, ¬ s'.Holds a j) ↔ Final s a buffer := by
  rcases holds_own h with ⟨haccepts, ⟨j, hj⟩, _⟩ | ⟨hno, id, hfind, hquit, hholds⟩ |
    ⟨hno, hquit, hholds⟩
  -- A registration that is accepted leaves a slot, and is not final.
  · exact iff_of_false (fun hnone => hnone j hj) (fun hfinal => hfinal.1 haccepts)
  -- A `QUIT` is the end if there is no other slot for it to leave behind.
  · constructor
    · intro hnone
      refine ⟨hno, fun j hj => ⟨hquit, fun i hi => ?_⟩⟩
      rw [hfind, Option.some.injEq] at hj
      by_contra hij
      rw [← hj] at hij
      exact hnone i ((hholds i).mpr ⟨hi, hij⟩)
    · rintro ⟨-, honly⟩ j hj
      rcases (hholds j).mp hj with ⟨hj', hne⟩
      exact hne ((honly id hfind).2 j hj')
  -- Nothing has changed: no slot is left if there was none.
  · simp only [hholds]
    rw [← Server.find_eq_none_iff]
    constructor
    · intro hnone
      refine ⟨hno, fun j hj => ?_⟩
      rw [hnone] at hj
      exact absurd hj (by simp only [reduceCtorEq, not_false_eq_true])
    · rintro ⟨-, honly⟩
      cases hfind : s.findClientByAddr a with
      | none => rfl
      | some j =>
          rw [hquit (honly j hfind).1] at hfind
          exact absurd hfind (by simp only [reduceCtorEq, not_false_eq_true])

theorem stays_iff {now : Nat} {s s' : Server} {a : SockAddr} {i : Slot} {buffer : Bytes}
    (h : Change now s a buffer s') (hi : s.Holds a i) :
    s'.Holds a i ↔
      (strncmpEq buffer (text "QUIT") = true → s.findClientByAddr a ≠ some i) := by
  rcases holds_own h with ⟨haccepts, _, hkept⟩ | ⟨_, id, hfind, hquit, hholds⟩ |
    ⟨_, hquit, hholds⟩
  · have hno : strncmpEq buffer (text "QUIT") = false :=
      strncmpEq_of_head haccepts.1 (by decide)
    rw [hno]
    exact iff_of_true (hkept i hi) fun hquit => absurd hquit Bool.false_ne_true
  · rw [hholds, hfind]
    constructor
    · rintro ⟨-, hne⟩ _ heq
      exact hne (Option.some.inj heq).symm
    · intro hne
      refine ⟨hi, fun heq => ?_⟩
      rw [heq] at hne
      exact hne hquit rfl
  · rw [hholds]
    refine iff_of_true hi fun hquit' hfind => ?_
    rw [hquit hquit'] at hfind
    exact absurd hfind (by simp only [reduceCtorEq, not_false_eq_true])

/-- A datagram of the client that arrives. -/
theorem agreed_arrive_iff {clk : LocalClock} {a : SockAddr} {i : Slot} {s : Session} {k : Nat}
    {d : Bytes} (h : Agreed a i s) (hd : s.flight[k]? = some d) :
    Agreed a i { s with server := s.handled clk a d, flight := s.flight.eraseIdx k } ↔
      (s.ended = false → strncmpEq (received d) (text "QUIT") = true →
        s.server.findClientByAddr a ≠ some i) ∧
      (s.ended = true → s.flight.length = 1 → Final s.server a (received d)) := by
  have hchange := change_handled clk s a d
  have hk : k < s.flight.length := (List.getElem?_eq_some_iff.mp hd).1
  have hlast : s.flight.eraseIdx k = [] ↔ s.flight.length = 1 := by
    rw [← List.length_eq_zero_iff, List.length_eraseIdx_of_lt hk]
    omega
  constructor
  · intro hagreed
    refine ⟨fun hrunning => ?_, fun hended hone => ?_⟩
    · exact (stays_iff hchange (h.running hrunning)).mp (hagreed.running hrunning)
    · exact (final_iff hchange).mp (hagreed.left (hlast.mpr hone) hended)
  · rintro ⟨hrun, hleft⟩
    refine ⟨fun hrunning => ?_, fun hempty hended => ?_⟩
    · exact (stays_iff hchange (h.running hrunning)).mpr (hrun hrunning)
    · exact (final_iff hchange).mpr (hleft hended (hlast.mp hempty))

/-- A sweep that does not find the client late leaves its slots alone. -/
theorem holds_pingSweep {s : Server} {a : SockAddr} {now : Nat}
    (h : ∀ i, s.Holds a i → ¬ (s.clients i).late now = true) (i : Slot) :
    (s.pingSweep now).Holds a i ↔ s.Holds a i := by
  have haddr : (Server.swept now (s.clients i)).addr = (s.clients i).addr := by
    unfold Server.swept
    by_cases hlate : ((s.clients i).active && (s.clients i).late now) = true
    · rw [if_pos hlate]
    · rw [if_neg hlate]
  rw [Server.Holds, Server.clients_pingSweep, Server.swept_active, haddr]
  constructor
  · rintro ⟨⟨hactive, _⟩, hsame⟩
    exact ⟨hactive, hsame⟩
  · intro hi
    exact ⟨⟨hi.1, h i hi⟩, hi.2⟩

theorem agreed_server {a : SockAddr} {i : Slot} {s : Session} {server : Server}
    (h : Agreed a i s) (hholds : ∀ j, server.Holds a j ↔ s.server.Holds a j) :
    Agreed a i { s with server := server } :=
  agreed_of_same h rfl id hholds

/-- While something is in flight, a loop that has ended agrees. -/
theorem agreed_of_leaving {a : SockAddr} {i : Slot} {s : Session} (hflight : s.flight ≠ [])
    (hended : s.ended = true) : Agreed a i s where
  running := by
    intro hrunning
    rw [hended] at hrunning
    exact absurd hrunning (by simp only [Bool.true_eq_false, not_false_eq_true])
  left := fun hempty => absurd hempty hflight

/-- A datagram more does no harm to the agreement. -/
theorem agreed_send {a : SockAddr} {i : Slot} {s : Session} (h : Agreed a i s) (d : Bytes) :
    Agreed a i { s with flight := s.flight ++ [d] } :=
  agreed_of_same h rfl (fun hempty => absurd hempty (List.concat_ne_nil _ _)) fun _ => Iff.rfl

/-- A step keeps the agreement exactly if it is orderly. -/
theorem agreed_step {clk : LocalClock} {a : SockAddr} {i : Slot} {s s' : Session} {e : Event}
    (h : Agreed a i s) (hstep : step clk a s e = some s') :
    Agreed a i s' ↔ Orderly a i s e := by
  cases step_move hstep with
  | time now => exact iff_of_true (agreed_of_same h rfl id fun _ => Iff.rfl) trivial
  | skip bytes hrunning hturn => exact iff_of_true h trivial
  | send bytes input hrunning hturn => exact iff_of_true (agreed_send h input) trivial
  | quit bytes hrunning hturn =>
      exact iff_of_true (agreed_of_leaving (List.concat_ne_nil _ _) rfl) trivial
  | eof hrunning => exact agreed_ended_iff h hrunning
  | sendError bytes hrunning => exact agreed_ended_iff h hrunning
  | stop hrunning => exact agreed_ended_iff h hrunning
  | interrupt => exact iff_of_true (agreed_of_leaving (List.concat_ne_nil _ _) rfl) trivial
  | pong => exact iff_of_true (agreed_send h _) trivial
  | arrive k d hd =>
      rw [agreed_arrive_iff h hd, Orderly, hd]
      simp only [Option.mem_def, Option.some.injEq, forall_eq']
  | other src bytes hsrc =>
      have hholds := holds_other (change_handled clk s src bytes) hsrc
      exact iff_of_true (agreed_server h hholds) trivial
  | sweep now hlate =>
      exact iff_of_true (agreed_server h (holds_pingSweep hlate)) trivial

/-- From the moment on at which a client is registered, it agrees with the
    server along exactly the runs of orderly steps. -/
theorem leaving_iff (clk : LocalClock) {a : SockAddr} {i : Slot} {s t : Session}
    {es : List Event} (hrunning : s.ended = false) (hslot : s.server.Holds a i)
    (hrun : exec (step clk a) s es = some t) :
    Always (step clk a) (Agreed a i) s es ↔ Meets (step clk a) (Orderly a i) s es := by
  refine always_iff_meets (I := fun _ => True) (fun _ _ _ _ _ => trivial)
    (fun s e s' _ h hstep => agreed_step h hstep) trivial ⟨fun _ => hslot, fun _ hended => ?_⟩ hrun
  rw [hrunning] at hended
  exact absurd hended Bool.false_ne_true

/-- The user does not type lines that the server alone takes for commands, and
    leaves by `QUIT` or by a signal. -/
def Ordinary (_ : Session) : Event → Prop
  | .line bytes => ∀ input, inputTurn bytes = .send input →
      ¬ strncmpEq (received input) (text "QUIT") = true ∧
        ¬ strncmpEq (received input) (text "REGISTER ") = true
  | .eof | .sendError _ | .stop => False
  | _ => True

/-- In ordinary use the slot is the only one of its address, and it is lost to
    a `QUIT` that was sent when the loop ended. -/
structure OnItsWay (a : SockAddr) (i : Slot) (s : Session) : Prop where
  quiet : ∀ d ∈ s.flight, ¬ strncmpEq (received d) (text "REGISTER ") = true ∧
    (strncmpEq (received d) (text "QUIT") = true → s.ended = true)
  only : ∀ j, s.server.Holds a j → j = i
  running : s.ended = false → s.server.Holds a i
  leaving : s.ended = true → s.server.Holds a i →
    ∃ d ∈ s.flight, strncmpEq (received d) (text "QUIT") = true

theorem agreed_of_onItsWay {a : SockAddr} {i : Slot} {s : Session} (h : OnItsWay a i s) :
    Agreed a i s where
  running := h.running
  left := by
    intro hempty hended j hj
    rw [h.only j hj] at hj
    rcases h.leaving hended hj with ⟨d, hd, _⟩
    rw [hempty] at hd
    exact absurd hd List.not_mem_nil

theorem onItsWay_of_same {a : SockAddr} {i : Slot} {s s' : Session} (h : OnItsWay a i s)
    (hended : s'.ended = s.ended) (hflight : s'.flight = s.flight)
    (hholds : ∀ j, s'.server.Holds a j ↔ s.server.Holds a j) : OnItsWay a i s' where
  quiet := by
    rw [hflight, hended]
    exact h.quiet
  only := fun j hj => h.only j ((hholds j).mp hj)
  running := by
    rw [hended, hholds]
    exact h.running
  leaving := by
    rw [hended, hflight, hholds]
    exact h.leaving

theorem onItsWay_server {a : SockAddr} {i : Slot} {s : Session} {server : Server}
    (h : OnItsWay a i s) (hholds : ∀ j, server.Holds a j ↔ s.server.Holds a j) :
    OnItsWay a i { s with server := server } :=
  onItsWay_of_same h rfl rfl hholds

/-- Something more is sent: a `QUIT` if the loop ends, and no command that the
    server alone sees otherwise. -/
theorem onItsWay_send {a : SockAddr} {i : Slot} {s : Session} {d : Bytes} {ended : Bool}
    (h : OnItsWay a i s) (hregister : ¬ strncmpEq (received d) (text "REGISTER ") = true)
    (hquit : strncmpEq (received d) (text "QUIT") = true → ended = true)
    (hended : s.ended = true → ended = true)
    (hleaves : ended = true → s.ended = true ∨ strncmpEq (received d) (text "QUIT") = true) :
    OnItsWay a i { s with flight := s.flight ++ [d], ended := ended } where
  quiet := by
    intro d' hd'
    rcases List.mem_append.mp hd' with hmem | hmem
    · exact ⟨(h.quiet d' hmem).1, fun hq => hended ((h.quiet d' hmem).2 hq)⟩
    · rw [List.mem_singleton.mp hmem]
      exact ⟨hregister, hquit⟩
  only := h.only
  running := by
    intro hrunning
    refine h.running ?_
    by_contra hnot
    rw [hended (Bool.not_eq_false _ ▸ hnot)] at hrunning
    exact absurd hrunning (by simp only [Bool.true_eq_false, not_false_eq_true])
  leaving := by
    intro hleft hi
    -- Either the loop had ended before, or it is this message that ends it.
    rcases hleaves hleft with hbefore | hnow
    · rcases h.leaving hbefore hi with ⟨d', hd', hq⟩
      exact ⟨d', List.mem_append_left _ hd', hq⟩
    · exact ⟨d, List.mem_append_right _ (List.mem_singleton.mpr rfl), hnow⟩

/-- What is on its way arrives. -/
theorem onItsWay_arrive {clk : LocalClock} {a : SockAddr} {i : Slot} {s : Session} {k : Nat}
    {d : Bytes} (h : OnItsWay a i s) (hd : s.flight[k]? = some d) :
    OnItsWay a i { s with server := s.handled clk a d, flight := s.flight.eraseIdx k } := by
  have hmem : d ∈ s.flight := List.mem_of_getElem? hd
  have hquiet : ∀ d' ∈ s.flight.eraseIdx k, d' ∈ s.flight :=
    fun d' hd' => List.mem_of_mem_eraseIdx hd'
  rcases holds_own (change_handled clk s a d) with ⟨haccepts, _⟩ | ⟨_, id, hfind, hquit, hholds⟩ |
    ⟨_, hquit, hholds⟩
  -- Nothing in flight is a registration.
  · exact absurd haccepts.1 (h.quiet d hmem).1
  · -- The slot that the `QUIT` finds is the client's own.
    have hid := h.only id (Server.holds_of_find hfind)
    have hnone : ∀ j, ¬ (s.handled clk a d).Holds a j := by
      intro j hj
      rcases (hholds j).mp hj with ⟨hj', hne⟩
      exact hne ((h.only j hj').trans hid.symm)
    refine ⟨fun d' hd' => h.quiet d' (hquiet d' hd'), fun j hj => absurd hj (hnone j),
      fun hrunning => ?_, fun _ hi => absurd hi (hnone i)⟩
    have hended := (h.quiet d hmem).2 hquit
    rw [hended] at hrunning
    exact absurd hrunning (by simp only [Bool.true_eq_false, not_false_eq_true])
  -- Nothing has changed for the address, so the `QUIT` it waits for is still under way.
  · refine ⟨fun d' hd' => h.quiet d' (hquiet d' hd'), fun j hj => h.only j ((hholds j).mp hj),
      fun hrunning => (hholds i).mpr (h.running hrunning), fun hended hi => ?_⟩
    have hi' := (hholds i).mp hi
    rcases h.leaving hended hi' with ⟨d', hd', hq⟩
    refine ⟨d', ?_, hq⟩
    rcases List.getElem?_of_mem hd' with ⟨m, hm⟩
    rw [List.mem_eraseIdx_iff_getElem?]
    refine ⟨m, fun hmk => ?_, hm⟩
    -- A `QUIT` that arrives does not leave the slot alone.
    rw [hmk, hd, Option.some.injEq] at hm
    rw [← hm] at hq
    exact Server.find_eq_none_iff.mp (hquit hq) i hi'

theorem onItsWay_step {clk : LocalClock} {a : SockAddr} {i : Slot} {s s' : Session} {e : Event}
    (h : OnItsWay a i s) (hC : Ordinary s e) (hstep : step clk a s e = some s') :
    OnItsWay a i s' := by
  cases step_move hstep with
  | eof | sendError | stop => exact absurd hC id
  | time now => exact onItsWay_of_same h rfl rfl fun _ => Iff.rfl
  | skip bytes hrunning hturn => exact h
  | send bytes input hrunning hturn =>
      rcases hC input hturn with ⟨hquit, hregister⟩
      exact onItsWay_send h hregister (fun hq => absurd hq hquit) id Or.inl
  | quit bytes hrunning hturn =>
      exact onItsWay_send h (by decide) (fun _ => rfl) (fun _ => rfl) fun _ => Or.inr (by decide)
  | interrupt =>
      exact onItsWay_send h (by decide) (fun _ => rfl) (fun _ => rfl) fun _ => Or.inr (by decide)
  | pong =>
      exact onItsWay_send h (by decide) (fun hquit => absurd hquit (by decide)) id Or.inl
  | arrive k d hd => exact onItsWay_arrive h hd
  | other src bytes hsrc =>
      exact onItsWay_server h (holds_other (change_handled clk s src bytes) hsrc)
  | sweep now hlate => exact onItsWay_server h (holds_pingSweep hlate)

/-- In ordinary use client and server agree, whatever the order in which the
    datagrams arrive. -/
theorem agreed_of_ordinary (clk : LocalClock) {a : SockAddr} {i : Slot} {s : Session}
    {es : List Event} (hs : OnItsWay a i s) (hC : Meets (step clk a) Ordinary s es) :
    Always (step clk a) (Agreed a i) s es :=
  always_of_meets (fun _ _ _ h hC hstep => onItsWay_step h hC hstep)
    (fun _ h => agreed_of_onItsWay h) hs hC

/-- A client that has registered. -/
def joined : Session where
  server := init.server.handleMessage stoppedClock 0 ⟨1, 1⟩ (text "REGISTER ala")
  clock := 0
  flight := []
  ended := false

/-- The user types two lines before the first one arrives, and the second one
    overtakes it. -/
def quitRun : List Event :=
  [.line (text "2ALL hej\n"), .line (text "QUIT\n"), .arrive 1, .arrive 0]

/-- Both have left in the end. -/
theorem leaving_with_quit : ∃ i t, joined.server.findClientByAddr ⟨1, 1⟩ = some i ∧
    exec (step stoppedClock ⟨1, 1⟩) joined quitRun = some t ∧ t.ended = true ∧
      Always (step stoppedClock ⟨1, 1⟩) (Agreed ⟨1, 1⟩ i) joined quitRun := by
  have hend : (exec (step stoppedClock ⟨1, 1⟩) joined quitRun).any (fun t => t.ended) = true := by
    decide +kernel
  have hmeets : (joined.server.findClientByAddr ⟨1, 1⟩).any (fun i =>
      decide (Meets (step stoppedClock ⟨1, 1⟩) (Orderly ⟨1, 1⟩ i) joined quitRun)) = true := by
    decide +kernel
  rcases exists_of_exec_any hend with ⟨t, hrun, hended⟩
  rw [Option.any_eq_true] at hmeets
  rcases hmeets with ⟨i, hfind, hC⟩
  rw [decide_eq_true_eq] at hC
  exact ⟨i, t, hfind, hrun, hended,
    (leaving_iff stoppedClock rfl (Server.holds_of_find hfind) hrun).mpr hC⟩

/-- A line that only begins as `QUIT` unregisters a client that goes on, and
    one whose input ends stays on the server. -/
theorem leaving_in_disagreement : ∃ i, joined.server.findClientByAddr ⟨1, 1⟩ = some i ∧
    ¬ Always (step stoppedClock ⟨1, 1⟩) (Agreed ⟨1, 1⟩ i) joined
      [.line (text "QUIT now\n"), .arrive 0] ∧
    ¬ Always (step stoppedClock ⟨1, 1⟩) (Agreed ⟨1, 1⟩ i) joined [.eof] := by
  have hfails : (joined.server.findClientByAddr ⟨1, 1⟩).any (fun i =>
      decide (¬ Always (step stoppedClock ⟨1, 1⟩) (Agreed ⟨1, 1⟩ i) joined
        [.line (text "QUIT now\n"), .arrive 0] ∧
      ¬ Always (step stoppedClock ⟨1, 1⟩) (Agreed ⟨1, 1⟩ i) joined [.eof])) = true := by
    decide +kernel
  rw [Option.any_eq_true] at hfails
  rcases hfails with ⟨i, hfind, hfails⟩
  rw [decide_eq_true_eq] at hfails
  exact ⟨i, hfind, hfails⟩

end Session

end Udp

end OsLabs
