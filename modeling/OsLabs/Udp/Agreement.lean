import OsLabs.Udp.Authorship

/-!
# Agreement on a Registration

A client takes the first datagram that comes for the answer to its
registration, and goes on if it begins with `OK:`. It does not look where the
datagram came from and what it says. The server says `OK:` twice, and sends
texts to whoever stands in its table.

In a chat of the programs alone the client is right nevertheless. Until it has
been answered its registration is all that the server has from it, so a
farewell cannot be meant for it, and no chat text, list or probe begins with
`OK:`. Whoever thinks himself registered has therefore been in the table,
active, with his own address and his own name. He need not be there any more:
answers may be late, and sweeps are not announced. The other way round, whoever
is in the table has asked for it.

The first half looks back at the run. It is an invariant of a state and of what
led to it.

## Main definitions

* `Listener.Phase.early`, `Listener.Phase.joined`: Before and after the answer.
* `Server.Enrolled`: An address is registered under a name.
* `Pc.Awaits`, `Network.Awaits`: Nothing but a registration is known of an
  address.
* `Network.Agreed`: What client and server know of each other.

## Theorems

* `Produced.reply_of_ok`: Only a reply begins with `OK:`.
* `passes_of_turned`: How a client gets past the answer.
* `awaits_turn`: What the server makes of a registration.
* `agreed_of_run`: Client and server agree.
-/

namespace OsLabs

namespace Udp

open Machine
open Listener (received)

/-- A text that a client takes for its registration is a reply. -/
theorem Produced.reply_of_ok {via : Via} {message : Bytes} (h : Produced via message)
    (hok : strncmpEq (received message) (text "OK:") = true) : via = .reply := by
  -- Chat texts begin with the time.
  have hbracket : ¬ text "[" <+: message := by
    intro hfront
    rcases List.prefix_or_prefix_of_prefix hfront (prefix_of_received hok) with hpart | hpart
    · exact absurd hpart (by decide)
    · exact absurd hpart (by decide)
  cases h with
  | registration | unknown | listing | confirm | notFound | farewell | pong => rfl
  | alive => exact absurd hok (by decide)
  | toAll timestamp name message =>
      refine absurd ?_ hbracket
      unfold allText
      simp only [List.append_assoc]
      exact prefix_snprintf _ (by decide)
  | toOne timestamp name message =>
      refine absurd ?_ hbracket
      unfold oneText
      simp only [List.append_assoc]
      exact prefix_snprintf _ (by decide)

namespace Listener

/-- The registration has not been answered. -/
def Phase.early : Phase → Bool
  | .start | .waiting => true
  | _ => false

/-- The registration was answered with `OK:`. -/
def Phase.joined : Phase → Bool
  | .prompt | .reading | .left => true
  | _ => false

theorem Phase.joined_of_chatting {phase : Phase} (h : phase.chatting = true) :
    phase.joined = true ∧ ¬ phase.early = true := by
  cases phase with
  | prompt | reading => exact ⟨rfl, Bool.false_ne_true⟩
  | start | waiting | failed | left => exact absurd h Bool.false_ne_true

end Listener

namespace Process

open Listener (registerMsg)

/-- A step of the loops of a client that ends before the answer, or after it. -/
structure Passes (p : Process) (e : Listener.Event) (l : Listener) : Prop where
  early : l.phase.early = true → p.listener.phase.early = true ∧
    (l.sent = p.listener.sent ∨ l.sent = p.listener.sent ++ [.register (registerMsg p.name)])
  joined : l.phase.joined = true → p.listener.phase.joined = true ∨
    p.listener.phase.early = true ∧ ∃ src bytes, e = .datagram src bytes ∧
      strncmpEq (received bytes) (text "OK:") = true

/-- A step that stays behind the answer. -/
theorem passes_of_joined {p : Process} {e : Listener.Event} {l : Listener}
    (h : p.listener.phase.joined = true) (hl : ¬ l.phase.early = true) : Passes p e l :=
  ⟨fun hearly => absurd hearly hl, fun _ => Or.inl h⟩

theorem passes_of_turned {p : Process} {e : Listener.Event} {l : Listener}
    (h : Turned p e l) : Passes p e l := by
  have hjoined : ∀ {phase}, p.listener.phase = phase → phase.joined = true →
      p.listener.phase.joined = true := fun hphase hj => by rwa [hphase]
  cases h with
  | hear src bytes hphase hrunning =>
      refine passes_of_joined (hjoined hphase rfl) ?_
      change ¬ (p.listener.receive bytes).phase.early = true
      rw [phase_receive, hphase]
      exact Bool.false_ne_true
  | fail hphase hrunning =>
      refine passes_of_joined (hjoined hphase rfl) ?_
      change ¬ p.listener.phase.early = true
      rw [hphase]
      exact Bool.false_ne_true
  | loops _ _ hstep =>
      cases Listener.step_move hstep with
      -- The registration goes out, and only then is there an answer to wait for.
      | register hphase =>
          refine ⟨fun _ => ⟨?_, Or.inr rfl⟩, fun hl => absurd hl Bool.false_ne_true⟩
          rw [hphase]
          rfl
      | sendtoError | setsockoptError | unanswered =>
          exact ⟨fun hl => absurd hl Bool.false_ne_true, fun hl => absurd hl Bool.false_ne_true⟩
      -- This is the one turn that makes it a member, and the datagram says why.
      | answer src bytes phase hphase hanswer =>
          rcases hanswer with rfl | ⟨rfl, hok⟩
          · exact ⟨fun hl => absurd hl Bool.false_ne_true, fun hl => absurd hl Bool.false_ne_true⟩
          · refine ⟨fun hl => absurd hl Bool.false_ne_true,
              fun _ => Or.inr ⟨?_, src, bytes, rfl, hok⟩⟩
            rw [hphase]
            rfl
      | receive src bytes hchat hrunning =>
          rcases Listener.Phase.joined_of_chatting hchat with ⟨hj, hearly⟩
          refine passes_of_joined hj ?_
          rwa [phase_receive]
      | recvError hchat hrunning =>
          rcases Listener.Phase.joined_of_chatting hchat with ⟨hj, hearly⟩
          exact passes_of_joined hj hearly
      -- The loop goes on, or ends as `running` is cleared: it has begun in either case.
      | loop hphase =>
          refine passes_of_joined (hjoined hphase rfl) ?_
          cases p.listener.running <;> exact Bool.false_ne_true
      | skip bytes hphase | send bytes input hphase | quit bytes hphase | eof hphase
      | sendError bytes hphase =>
          exact passes_of_joined (hjoined hphase rfl) Bool.false_ne_true

/-- The client has not been answered, and goes on. -/
def Early (p : Process) : Prop := p.listener.phase.early = true ∧ p.gone = false

/-- A step of a client that ends before the answer, or after it. -/
structure Advances (p : Process) (e : Event) (p' : Process) (messages : List Bytes) : Prop where
  early : p'.Early → p.Early ∧ ∀ message ∈ messages, message = registerMsg p.name
  joined : p'.listener.phase.joined = true → p.listener.phase.joined = true ∨
    p.Early ∧ ∃ src bytes, e = .run (.datagram src bytes) ∧
      strncmpEq (received bytes) (text "OK:") = true

/-- A step that leaves the phase alone, and says nothing while it goes on. -/
theorem advances_of_phase {p p' : Process} {e : Event} {messages : List Bytes}
    (hrunning : p.gone = false) (hphase : p'.listener.phase = p.listener.phase)
    (hmessages : p'.gone = false → messages = []) : Advances p e p' messages := by
  refine ⟨fun hearly => ⟨⟨?_, hrunning⟩, ?_⟩, fun hj => Or.inl ?_⟩
  · rw [← hphase]
    exact hearly.1
  · rw [hmessages hearly.2]
    exact fun _ hmem => absurd hmem List.not_mem_nil
  · rwa [← hphase]

theorem advances_of_step {p p' : Process} {e : Event} {messages : List Bytes}
    (h : p.step e = some (p', messages)) : Advances p e p' messages := by
  rcases took_of_step h with ⟨hrunning, htook⟩
  cases htook with
  | run e l hturn =>
      have hpasses := passes_of_turned hturn
      refine ⟨fun hearly => ?_, fun hj => ?_⟩
      -- Still early: it has sent nothing, or its registration just now.
      · rcases hpasses.early hearly.1 with ⟨hbefore, hsent⟩
        refine ⟨⟨hbefore, hrunning⟩, fun message hmem => ?_⟩
        rcases hsent with hsent | hsent
        · rw [news_of_silent hsent] at hmem
          exact absurd hmem List.not_mem_nil
        · rw [news_of_sent hsent] at hmem
          exact List.mem_singleton.mp hmem
      -- A member by this step has read an `OK:`.
      · rcases hpasses.joined hj with hbefore | ⟨hbefore, src, bytes, rfl, hok⟩
        · exact Or.inl hbefore
        · exact Or.inr ⟨⟨hbefore, hrunning⟩, src, bytes, rfl, hok⟩
  | clear | leave | exit => exact advances_of_phase hrunning rfl fun _ => rfl
  | interrupt =>
      exact advances_of_phase hrunning rfl fun hfalse => absurd hfalse.symm Bool.false_ne_true

end Process

/-- The address is registered under the name. -/
def Server.Enrolled (s : Server) (addr : SockAddr) (name : Bytes) : Prop :=
  ∃ i, (s.clients i).active = true ∧ (s.clients i).addr = addr ∧ (s.clients i).name.str = name

/-- At most the registration of the address is at hand, and an `OK:` for it has
    its reason. -/
def Pc.Awaits (addr : SockAddr) (name : Bytes) (P : Prop) : Pc → Prop
  | .recvfrom | .formatAll _ _ | .broadcast _ _ => True
  | .lookup src buffer => src = addr → buffer = text "REGISTER " ++ name
  | .register src name' => src = addr → name' = name
  | .reply src response => src = addr → strncmpEq (received response) (text "OK:") = true → P
  | .touch src _ _ | .listing src | .find src _ _ _ | .formatOne src _ _ _ _ | .sendTo src _ _ _
  | .farewell src _ | .remove src _ => src ≠ addr

section Awaits

variable {clk : LocalClock} {now : Nat} {addr : SockAddr} {name : Bytes} {P P' : Prop}

theorem awaits_mono (hP : P → P') {pc : Pc} (h : pc.Awaits addr name P) :
    pc.Awaits addr name P' := by
  cases pc with
  | reply src response => exact fun hsrc hok => hP (h hsrc hok)
  | recvfrom | lookup | register | touch | listing | formatAll | broadcast | find | formatOne
  | sendTo | farewell | remove => exact h

theorem awaits_dispatch {src : SockAddr} {id : Slot} (c : Command) (h : src ≠ addr) :
    (dispatch src id c).Awaits addr name P := by
  cases c with
  | toAll | ignored => trivial
  | ping => exact fun hsrc => absurd hsrc h
  | list | toOne | quit => exact h

/-- A client that is entered in the table is there. -/
theorem enrolled_insertClient (s : Server) (i : Slot) (hnul : NulFree name)
    (hlength : name.length ≤ maxNameLen - 1) :
    (s.insertClient i name addr now).Enrolled addr name := by
  refine ⟨i, ?_⟩
  unfold Server.insertClient
  dsimp only
  rw [Function.update_self]
  refine ⟨rfl, rfl, ?_⟩
  rw [CharArray.str_strcpyCut _ hnul (by decide), List.take_of_length_le hlength]

/-- What the server makes of a registration: an error, or an entry and an
    `OK:`. -/
theorem awaits_turn {s s' : Server} {pc pc' : Pc} (h : pc.Awaits addr name P)
    (hturn : MessageTurn clk now s pc s' pc') (hnul : NulFree name)
    (hlength : name.length ≤ maxNameLen - 1) (henrolled : s'.Enrolled addr name → P') :
    pc'.Awaits addr name P' := by
  cases hturn with
  -- A registration that is being looked at: its name is the client's, by what was sent.
  | registration src buffer hregister =>
      intro hsrc
      rw [h hsrc]
      rfl
  -- Only a registration is awaited, so another request cannot be the client's.
  | known src buffer id hregister hfind =>
      intro hsrc
      rw [h hsrc] at hregister
      exact hregister rfl
  -- The three refusals begin with `ERROR:`.
  | unknown src buffer => exact fun _ hok => absurd hok (by decide)
  | nameUsed src name' i => exact fun _ hok => absurd hok (by decide)
  | full src name' => exact fun _ hok => absurd hok (by decide)
  -- The entry is what the `OK:` promises.
  | registered src name' i hfind hfree =>
      intro hsrc _
      have hname := h hsrc
      subst hsrc hname
      exact henrolled (enrolled_insertClient s i hnul hlength)
  | touch src id buffer => exact awaits_dispatch _ h
  | listing src => exact fun hsrc => absurd hsrc h
  | found src id targetName message targetId hfind => exact h
  | notFound src id targetName message hfind => exact fun hsrc => absurd hsrc h
  | formatOne src id targetId targetName message => exact h
  | sendTo src targetId targetName response => exact fun hsrc => absurd hsrc h
  | farewell src id => exact h
  | formatAll | broadcast | remove | reply => trivial

/-- An `OK:` that is sent to the address has its reason. -/
theorem reason_of_issues {s : Server} {pc : Pc} {via : Via} {message : Bytes}
    (h : pc.Awaits addr name P) (hworded : pc.Worded) (hissues : Issues s pc via addr message)
    (hok : strncmpEq (received message) (text "OK:") = true) : P := by
  cases hissues with
  | reply => exact h rfl hok
  | farewell => exact absurd rfl h
  | broadcast id i => cases Produced.reply_of_ok hworded hok
  | sendTo src targetId => cases Produced.reply_of_ok hworded hok

/-- Every step of the server, with a datagram that can only be the
    registration. -/
theorem awaits_step {s s' : State} {e : Udp.Event} (h : s.message.Awaits addr name P)
    (he : ∀ message, e = .datagram addr message → received message = text "REGISTER " ++ name)
    (hstep : Udp.step clk s e = some s') (hnul : NulFree name)
    (hlength : name.length ≤ maxNameLen - 1) (hP : P → P')
    (henrolled : s'.server.Enrolled addr name → P') : s'.message.Awaits addr name P' := by
  -- By the event: only the receiving thread touches what is awaited.
  cases e with
  -- What the client has sent so far is its registration only.
  | datagram src bytes =>
      simp only [Udp.step] at hstep
      split at hstep
      · rw [← Option.some.inj hstep]
        intro hsrc
        exact he bytes (by rw [hsrc])
      · cases hstep
  | message =>
      simp only [Udp.step] at hstep
      split at hstep
      · rename_i server pc hmessage
        rw [← Option.some.inj hstep] at henrolled ⊢
        exact awaits_turn h (messageStep_cases hmessage) hnul hlength henrolled
      · cases hstep
  | time now =>
      rw [← Option.some.inj hstep]
      exact awaits_mono hP h
  | recvError =>
      simp only [Udp.step] at hstep
      split at hstep
      · rw [← Option.some.inj hstep]
        exact awaits_mono hP h
      · cases hstep
  | pingWake =>
      simp only [Udp.step] at hstep
      split at hstep
      · rw [← Option.some.inj hstep]
        exact awaits_mono hP h
      · cases hstep
  | sweep =>
      simp only [Udp.step] at hstep
      split at hstep
      · cases hstep
      · rename_i now hping
        have hs' := Option.some.inj hstep
        have hmessage : s'.message = s.message := by rw [← hs']
        rw [hmessage]
        exact awaits_mono hP h

end Awaits

namespace Network

variable {ι : Type*}

/-- Nothing but the registration of a client is known of it, and an `OK:` for
    it has its reason. -/
structure Awaits (s : Network ι) (i : ι) (P : Prop) : Prop where
  requests : ∀ message, .request (s.clients i).addr message ∈ s.flight →
    message = Listener.registerMsg (s.clients i).name
  server : s.server.message.Awaits (s.clients i).addr (s.clients i).name P
  answers : ∀ via message, .answer via (s.clients i).addr message ∈ s.flight →
    strncmpEq (received message) (text "OK:") = true → P

/-- A client has not been answered and awaits it, or was answered for a
    reason. -/
structure Answered (s : Network ι) (i : ι) (P : Prop) : Prop where
  awaits : (s.clients i).Early → s.Awaits i P
  joined : (s.clients i).listener.phase.joined = true → P

/-- The server takes a step. -/
theorem answered_server {clk : LocalClock} {s : Network ι} (hsettled : s.Settled)
    (hsound : s.Sound) {i : ι} {P P' : Prop} (h : s.Answered i P) {e : Udp.Event} {server : State}
    {flight : List Datagram}
    (he : ∀ src message, e = .datagram src message → .request src message ∈ s.flight)
    (hflight : ∀ d ∈ flight, d ∈ s.flight ∨ d ∈ posts s.server.server server.server)
    (hserver : Udp.step clk s.server e = some server) (hP : P → P')
    (henrolled : server.server.Enrolled (s.clients i).addr (s.clients i).name → P') :
    Answered { s with server := server, flight := flight } i P' := by
  rcases hsettled.plain i with ⟨hnul, hlength⟩
  refine ⟨fun hearly => ?_, fun hj => hP (h.joined hj)⟩
  have hawaits := h.awaits hearly
  refine ⟨fun message hmem => ?_, ?_, fun via message hmem hok => ?_⟩
  · rcases hflight _ hmem with hold | hnew
    · exact hawaits.requests message hold
    · exact absurd hnew (not_request_posts _ _ _ message)
  · refine awaits_step hawaits.server (fun message heq => ?_) hserver hnul hlength hP henrolled
    rw [hawaits.requests message (he _ message heq)]
    exact received_registerMsg hnul hlength
  · rcases hflight _ hmem with hold | hnew
    · exact hP (hawaits.answers via message hold hok)
    · rcases issues_of_posts hserver hnew with ⟨_, rfl⟩ | hissues
      · exact absurd hok (by decide)
      · exact hP (reason_of_issues hawaits.server hsound.worded hissues hok)

variable [DecidableEq ι]

/-- A client says something, and something may be taken out of the flight. An
    answer that it receives was in flight. -/
theorem answered_said {s : Network ι} (hsettled : s.Settled) {i j : ι} {P P' : Prop}
    (h : s.Answered i P) {e : Process.Event} {p : Process} {messages : List Bytes}
    {flight : List Datagram} (hflight : ∀ d ∈ flight, d ∈ s.flight)
    (hclient : (s.clients j).step e = some (p, messages)) (hP : P → P')
    (he : ∀ src bytes, e = .run (.datagram src bytes) →
      ∃ via, .answer via (s.clients j).addr bytes ∈ s.flight) :
    (s.said j p messages flight).Answered i P' := by
  have hkeeps := Process.keeps_of_move (Process.step_move hclient)
  have hadvances := Process.advances_of_step hclient
  -- Its own step can send the registration and read the answer; another's cannot do either.
  by_cases hij : i = j
  · subst hij
    have hself : (s.said i p messages flight).clients i = p := Function.update_self ..
    refine ⟨fun hearly => ?_, fun hj => ?_⟩
    · rw [hself] at hearly
      rcases hadvances.early hearly with ⟨hbefore, hregister⟩
      have hawaits := h.awaits hbefore
      -- Still waiting: a registration in flight is from before, or sent by this step.
      refine ⟨fun message hmem => ?_, ?_, fun via message hmem hok => ?_⟩
      · rw [hself, hkeeps.name]
        rw [hself, hkeeps.addr] at hmem
        rcases List.mem_append.mp hmem with hold | hnew
        · exact hawaits.requests message (hflight _ hold)
        · rcases List.mem_map.mp hnew with ⟨message', hmessage', heq⟩
          rcases Datagram.request.inj heq with ⟨_, rfl⟩
          exact hregister message' hmessage'
      · rw [hself, hkeeps.name, hkeeps.addr]
        exact awaits_mono hP hawaits.server
      · rw [hself, hkeeps.addr] at hmem
        exact hP (hawaits.answers via message (hflight _ (answers_said i p messages hmem)) hok)
    · rw [hself] at hj
      -- A member by this step: the answer that it reads has been in flight.
      rcases hadvances.joined hj with hbefore | ⟨hbefore, src, bytes, heq, hok⟩
      · exact hP (h.joined hbefore)
      · rcases he src bytes heq with ⟨via, hmem⟩
        exact hP ((h.awaits hbefore).answers via bytes hmem hok)
  · have hother : (s.said j p messages flight).clients i = s.clients i :=
      Function.update_of_ne hij ..
    refine ⟨fun hearly => ?_, fun hj => ?_⟩
    -- Another client's datagrams come from another address.
    · rw [hother] at hearly
      have hawaits := h.awaits hearly
      refine ⟨fun message hmem => ?_, ?_, fun via message hmem hok => ?_⟩
      · rw [hother] at hmem ⊢
        rcases List.mem_append.mp hmem with hold | hnew
        · exact hawaits.requests message (hflight _ hold)
        · rcases List.mem_map.mp hnew with ⟨message', _, heq⟩
          -- Nobody else has the address.
          rcases Datagram.request.inj heq with ⟨haddr, _⟩
          rw [hkeeps.addr] at haddr
          exact absurd (hsettled.distinct haddr).symm hij
      · rw [hother]
        exact awaits_mono hP hawaits.server
      · rw [hother] at hmem
        exact hP (hawaits.answers via message (hflight _ (answers_said j p messages hmem)) hok)
    · rw [hother] at hj
      exact hP (h.joined hj)

theorem answered_step {clk : LocalClock} {home : SockAddr} {s s' : Network ι} {e : Event ι}
    (hsettled : s.Settled) (hsound : s.Sound) {i : ι} {P P' : Prop} (h : s.Answered i P)
    (hstep : step clk home s e = some s') (hP : P → P')
    (henrolled : s'.server.server.Enrolled (s.clients i).addr (s.clients i).name → P') :
    s'.Answered i P' := by
  -- By the kind of step of the network.
  cases step_move hstep with
  | server e server he hserver =>
      refine answered_server hsettled hsound h (fun src message heq => ?_)
        (fun d hd => List.mem_append.mp hd) hserver hP henrolled
      rw [heq] at he
      exact absurd rfl he
  | client j e p messages he hclient =>
      refine answered_said hsettled h (fun d hd => hd) hclient hP (fun src bytes heq => ?_)
      rw [heq] at he
      exact absurd rfl he
  -- The registration moves from the flight to the server.
  | arrive k src message server hk hserver =>
      refine answered_server hsettled hsound h (fun src' message' heq => ?_)
        (fun d hd => Or.inl (List.mem_of_mem_eraseIdx hd)) hserver hP henrolled
      rcases Udp.Event.datagram.inj heq with ⟨rfl, rfl⟩
      exact List.mem_of_getElem? hk
  -- The answer moves from the flight to the client.
  | deliver j k via message p messages hk hclient =>
      refine answered_said hsettled h (fun d hd => List.mem_of_mem_eraseIdx hd) hclient hP
        (fun src bytes heq => ⟨via, ?_⟩)
      rcases Listener.Event.datagram.inj (Process.Event.run.inj heq) with ⟨_, rfl⟩
      exact List.mem_of_getElem? hk
  -- A lost datagram only takes from what is in flight.
  | lose k d hk =>
      refine ⟨fun hearly => ?_, fun hj => hP (h.joined hj)⟩
      have hawaits := h.awaits hearly
      exact ⟨fun message hmem => hawaits.requests message (List.mem_of_mem_eraseIdx hmem),
        awaits_mono hP hawaits.server, fun via message hmem hok =>
          hP (hawaits.answers via message (List.mem_of_mem_eraseIdx hmem) hok)⟩

variable (clk : LocalClock) (home : SockAddr) (addr : ι → SockAddr) (argv : ι → Bytes)

/-- At some time along the run the client was registered under its name. -/
def Registered (es : List (Event ι)) (i : ι) : Prop :=
  ∃ pre u, pre <+: es ∧ exec (step clk home) (opened addr argv) pre = some u ∧
    u.server.server.Enrolled (addr i) (clientName (argv i))

/-- What client and server know of each other. -/
structure Agreed (es : List (Event ι)) (t : Network ι) : Prop where
  /-- Who was told `OK:` has been registered, at its address and by its name. -/
  told : ∀ i, (t.clients i).listener.phase.joined = true → Registered clk home addr argv es i
  /-- Who is registered is a client that asked for the name. -/
  listed : ∀ k, (t.server.server.clients k).active = true →
    ∃ i, (t.server.server.clients k).addr = addr i ∧
      (t.clients i).Called (t.server.server.clients k).name.str

/-- The clients keep the addresses and the names that they were started
    with. -/
def Kept (t : Network ι) : Prop :=
  ∀ i, (t.clients i).addr = addr i ∧ (t.clients i).name = clientName (argv i)

variable {clk : LocalClock} {home : SockAddr} {addr : ι → SockAddr} {argv : ι → Bytes}

theorem kept_said {s : Network ι} (h : Kept addr argv s) {i : ι} {p : Process}
    {messages : List Bytes} (flight : List Datagram) (hkeeps : (s.clients i).Keeps p messages) :
    Kept addr argv (s.said i p messages flight) := by
  intro j
  have hclients : (s.said i p messages flight).clients = Function.update s.clients i p := rfl
  rw [hclients]
  by_cases hji : j = i
  · rw [hji, Function.update_self, hkeeps.addr, hkeeps.name]
    exact h i
  · rw [Function.update_of_ne hji]
    exact h j

theorem kept_step {s s' : Network ι} {e : Event ι} (h : Kept addr argv s)
    (hstep : step clk home s e = some s') : Kept addr argv s' := by
  cases step_move hstep with
  | server | arrive | lose => exact h
  | client i e p messages he hclient =>
      exact kept_said h _ (Process.keeps_of_move (Process.step_move hclient))
  | deliver i k via message p messages hk hclient =>
      exact kept_said h _ (Process.keeps_of_move (Process.step_move hclient))

/-- What holds of a state and of the run that led to it. -/
structure History (clk : LocalClock) (home : SockAddr) (addr : ι → SockAddr) (argv : ι → Bytes)
    (es : List (Event ι)) (t : Network ι) : Prop where
  run : exec (step clk home) (opened addr argv) es = some t
  settled : t.Settled
  authored : t.Authored clk
  sound : t.Sound
  kept : Kept addr argv t
  answered : ∀ i, t.Answered i (Registered clk home addr argv es i)

theorem history_opened (haddr : Function.Injective addr) :
    History clk home addr argv [] (opened addr argv) where
  run := rfl
  settled := settled_opened haddr argv
  authored := authored_opened clk addr argv
  sound := ⟨trivial, fun _ _ _ hmem => absurd hmem List.not_mem_nil⟩
  kept := fun _ => ⟨rfl, rfl⟩
  answered := fun _ =>
    ⟨fun _ => ⟨fun _ hmem => absurd hmem List.not_mem_nil, trivial,
      fun _ _ hmem => absurd hmem List.not_mem_nil⟩, fun hj => absurd hj Bool.false_ne_true⟩

/-- Who is registered now has been registered, and who has been registered
    before has been registered still. -/
theorem history_step {es : List (Event ι)} {t t' : Network ι} {e : Event ι}
    (h : History clk home addr argv es t) (hstep : step clk home t e = some t') :
    History clk home addr argv (es ++ [e]) t' := by
  have hrun : exec (step clk home) (opened addr argv) (es ++ [e]) = some t' :=
    exec_append.mpr ⟨t, h.run, exec_cons.mpr ⟨t', hstep, rfl⟩⟩
  refine ⟨hrun, settled_step h.settled hstep, authored_step h.authored hstep,
    sound_step h.sound hstep, kept_step h.kept hstep, fun i => ?_⟩
  refine answered_step h.settled h.sound (h.answered i) hstep (fun hbefore => ?_)
    fun henrolled => ?_
  · rcases hbefore with ⟨pre, u, hpre, hu, henrolled⟩
    exact ⟨pre, u, hpre.trans (List.prefix_append _ _), hu, henrolled⟩
  · rw [(h.kept i).1, (h.kept i).2] at henrolled
    exact ⟨es ++ [e], t', List.prefix_refl _, hrun, henrolled⟩

/-- Client and server agree along every run. -/
theorem agreed_of_run (haddr : Function.Injective addr) {es : List (Event ι)} {t : Network ι}
    (hrun : exec (step clk home) (opened addr argv) es = some t) :
    Agreed clk home addr argv es t := by
  have h : History clk home addr argv es t :=
    exec_history (history_opened haddr) (fun _ _ _ _ hpre hstep => history_step hpre hstep) hrun
  refine ⟨fun i hj => (h.answered i).joined hj, fun k hk => ?_⟩
  have hnamed := h.authored.server.named k hk
  obtain ⟨i, hi⟩ : ∃ i, (t.clients i).addr = (t.server.server.clients k).addr := by
    rcases hnamed with ⟨_, ⟨i, hi, _⟩, _⟩
    exact ⟨i, hi⟩
  unfold Named at hnamed
  rw [← hi] at hnamed
  exact ⟨i, hi.symm.trans (h.kept i).1, called_of_asked h.settled hnamed⟩

/-- Both clients have been told that they are registered, and are. -/
theorem agreed_after_line : ∃ t : Network Bool,
    exec (step stoppedClock ⟨9, 9⟩) (opened pairAddr pairArgv) (lineRun (text "LIST\n")) = some t ∧
      (t.clients true).listener.phase.joined = true ∧
        Agreed stoppedClock ⟨9, 9⟩ pairAddr pairArgv (lineRun (text "LIST\n")) t := by
  have hend : (exec (step stoppedClock ⟨9, 9⟩) (opened pairAddr pairArgv)
      (lineRun (text "LIST\n"))).any (fun t => (t.clients true).listener.phase.joined)
        = true := by
    decide +kernel
  rcases exists_of_exec_any hend with ⟨t, hrun, hj⟩
  exact ⟨t, hrun, hj, agreed_of_run pairAddr_injective hrun⟩

end Network

end Udp

end OsLabs
