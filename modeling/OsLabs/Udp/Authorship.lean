import OsLabs.Udp.Traffic

/-!
# Who Wrote a Chat Text

A chat text names a sender, and the server has only a name and a message to put
into it, from two datagrams: the registration of an address and a later
command. In between the slot may be swept at any time, and the name is read
without the lock.

Here the whole chat is followed, from clients that have sent nothing. Every
public text on its way anywhere was put together from words of one client: the
name that it had asked for, and the message of a `2ALL` it had sent. A private
text comes from one client in the same way, and goes to an address that had
asked for the name it was meant for. So nobody is quoted with what another
client said, nobody appears under a name that his address never asked for, and
nobody else is sent a private text.

A sweep leaves addresses and names where they are, and the receiving thread is
the only one that writes them. This is why the unlocked reads do no harm here,
and the invariant says it: a slot that is in use or at hand holds the name that
its address asked for.

What a client has sent is a parameter of the part about the server, which sees
nothing but datagrams.

## Main definitions

* `Asked`, `Ordered`, `Named`: What was asked of the server.
* `PublicText`, `PrivateText`: The texts that may be sent.
* `Pc.Owed`: The receiving thread deals with what was asked.
* `Issues`: What a step of the receiving thread sends.
* `Network.opened`: The chat before anybody has said anything.
* `Network.Said`, `Network.Authored`: What clients have said, and the
  invariant.

## Theorems

* `owed_turn`: The receiving thread keeps to what was asked.
* `issues_of_posts`: What the server posts.
* `authored_step`: The invariant.
* `public_of_run`: A public text has an author.
* `private_of_run`: A private text has an author, and reaches whom it names.
-/

namespace OsLabs

namespace Udp

open Machine
open Listener (received)

section Server

variable (said : SockAddr → Bytes → Prop)

/-- The address asked to be registered, and this is what is kept of the name. -/
def Asked (src : SockAddr) (name : Bytes) : Prop :=
  ∃ message, said src message ∧ strncmpEq (received message) (text "REGISTER ") = true ∧
    name = ((received message).drop 9).take (maxNameLen - 1)

/-- The address gave the command. -/
def Ordered (src : SockAddr) (c : Command) : Prop :=
  ∃ message, said src message ∧ parse (received message) = c

/-- The slot holds the name that its address asked for. -/
def Named (s : Server) (i : Slot) : Prop := Asked said (s.clients i).addr (s.clients i).name.str

/-- A public text: one address asked for the name in it, and gave the message
    to be sent. -/
def PublicText (clk : LocalClock) (response : Bytes) : Prop :=
  ∃ src name message now, Asked said src name ∧ Ordered said src (.toAll message) ∧
    response = allText (clk.stamp now) name message

/-- A private text to an address, which asked for the name that it is meant
    for. -/
def PrivateText (clk : LocalClock) (dst : SockAddr) (response : Bytes) : Prop :=
  ∃ src name targetName message now, Asked said src name ∧
    Ordered said src (.toOne targetName message) ∧ Asked said dst targetName ∧
      response = oneText (clk.stamp now) name message

/-- What the receiving thread has at hand was asked for. -/
def Pc.Owed (clk : LocalClock) (s : Server) : Pc → Prop
  | .lookup src buffer => ∃ message, said src message ∧ buffer = received message
  | .register src name => ∃ message, said src message ∧
      strncmpEq (received message) (text "REGISTER ") = true ∧ name = (received message).drop 9
  | .touch src id buffer => (s.clients id).addr = src ∧ Named said s id ∧
      ∃ message, said src message ∧ buffer = received message
  | .formatAll id message => Named said s id ∧ Ordered said (s.clients id).addr (.toAll message)
  | .broadcast _ response => PublicText said clk response
  | .find _ id targetName message =>
      Named said s id ∧ Ordered said (s.clients id).addr (.toOne targetName message)
  | .formatOne _ id targetId targetName message =>
      Named said s id ∧ Ordered said (s.clients id).addr (.toOne targetName message) ∧
        Named said s targetId ∧ (s.clients targetId).name.str = targetName
  | .sendTo _ targetId _ response => PrivateText said clk (s.clients targetId).addr response
  | _ => True

/-- The server deals with what was asked only. -/
structure Obeys (clk : LocalClock) (s : Server) (pc : Pc) : Prop where
  named : ∀ i, (s.clients i).active = true → Named said s i
  owed : pc.Owed said clk s

variable {said}

/-- Addresses and names are what they were. -/
def Lasting (s s' : Server) : Prop :=
  ∀ i, (s'.clients i).addr = (s.clients i).addr ∧ (s'.clients i).name = (s.clients i).name

theorem lasting_of_clients {s s' : Server} (h : s'.clients = s.clients) : Lasting s s' := by
  intro i
  rw [h]
  exact ⟨rfl, rfl⟩

theorem lasting_touch (s : Server) (id : Slot) (now : Nat) : Lasting s (s.touch id now) := by
  intro i
  rw [Server.clients_touch]
  exact ⟨rfl, rfl⟩

theorem lasting_pingSweep (now : Nat) (s : Server) : Lasting s (s.pingSweep now) := by
  intro i
  rw [Server.clients_pingSweep]
  unfold Server.swept
  by_cases h : ((s.clients i).active && (s.clients i).late now) = true
  · rw [if_pos h]
    exact ⟨rfl, rfl⟩
  · rw [if_neg h]
    exact ⟨rfl, rfl⟩

theorem named_lasting {s s' : Server} (h : Lasting s s') {i : Slot} (hi : Named said s i) :
    Named said s' i := by
  unfold Named
  rw [(h i).1, (h i).2]
  exact hi

/-- What is at hand does not depend on anything else in the table. -/
theorem owed_lasting {clk : LocalClock} {s s' : Server} (h : Lasting s s') {pc : Pc}
    (hpc : pc.Owed said clk s) : pc.Owed said clk s' := by
  -- By what the thread has at hand: a slot that it names keeps its name and its address.
  cases pc with
  | lookup | register | broadcast => exact hpc
  | recvfrom | listing | farewell | remove | reply => trivial
  | touch src id buffer => exact ⟨(h id).1.trans hpc.1, named_lasting h hpc.2.1, hpc.2.2⟩
  | formatAll id message =>
      refine ⟨named_lasting h hpc.1, ?_⟩
      rw [(h id).1]
      exact hpc.2
  | find src id targetName message =>
      refine ⟨named_lasting h hpc.1, ?_⟩
      rw [(h id).1]
      exact hpc.2
  | formatOne src id targetId targetName message =>
      refine ⟨named_lasting h hpc.1, ?_, named_lasting h hpc.2.2.1, ?_⟩
      · rw [(h id).1]
        exact hpc.2.1
      · rw [(h targetId).2]
        exact hpc.2.2.2
  | sendTo src targetId targetName response =>
      change PrivateText said clk (s'.clients targetId).addr response
      rw [(h targetId).1]
      exact hpc

/-- A step that writes neither addresses nor names, and activates nobody. -/
theorem obeys_lasting {clk : LocalClock} {s s' : Server} {pc pc' : Pc} (h : Obeys said clk s pc)
    (hlasting : Lasting s s')
    (hactive : ∀ i, (s'.clients i).active = true → (s.clients i).active = true)
    (hpc : pc'.Owed said clk s) : Obeys said clk s' pc' where
  named := fun i hi => named_lasting hlasting (h.named i (hactive i hi))
  owed := owed_lasting hlasting hpc

/-- A step that leaves the table alone. -/
theorem obeys_same {clk : LocalClock} {s s' : Server} {pc pc' : Pc} (h : Obeys said clk s pc)
    (hclients : s'.clients = s.clients) (hpc : pc'.Owed said clk s) : Obeys said clk s' pc' :=
  obeys_lasting h (lasting_of_clients hclients) (fun i hi => by rwa [hclients] at hi) hpc

/-- The branch of a command. The sender is where it was found. -/
theorem owed_dispatch {clk : LocalClock} {s : Server} {src : SockAddr} {id : Slot}
    {message : Bytes} (haddr : (s.clients id).addr = src) (hnamed : Named said s id)
    (hsaid : said src message) :
    (dispatch src id (parse (received message))).Owed said clk s := by
  cases hparse : parse (received message) with
  | toAll | toOne =>
      refine ⟨hnamed, ?_⟩
      rw [haddr]
      exact ⟨message, hsaid, hparse⟩
  | list | quit | ping | ignored => trivial

/-- A registration writes the name that was asked for. -/
theorem obeys_insertClient {clk : LocalClock} {s : Server} {src : SockAddr} {i : Slot}
    {name message : Bytes} {pc pc' : Pc} (h : Obeys said clk s pc) (hsaid : said src message)
    (hregister : strncmpEq (received message) (text "REGISTER ") = true)
    (hname : name = (received message).drop 9) (now : Nat)
    (hpc : pc'.Owed said clk (s.insertClient i name src now)) :
    Obeys said clk (s.insertClient i name src now) pc' := by
  refine ⟨fun j hj => ?_, hpc⟩
  by_cases hji : j = i
  · subst hji
    have hnul : NulFree name := hname ▸ nulFree_drop 9 (nulFree_cstr _)
    unfold Named Server.insertClient
    dsimp only
    rw [Function.update_self]
    refine ⟨message, hsaid, hregister, ?_⟩
    rw [CharArray.str_strcpyCut _ hnul (by decide), hname]
  · have hother := Server.clients_insertClient_of_ne s name src now hji
    rw [hother] at hj
    unfold Named
    rw [hother]
    exact h.named j hj

/-- The slot that is emptied is not in use, and the others stay. -/
theorem obeys_removeClient {clk : LocalClock} {s : Server} {id : Slot} {pc : Pc}
    (h : Obeys said clk s pc) (act : Action) :
    Obeys said clk { s.removeClient id with log := act :: (s.removeClient id).log }
      .recvfrom := by
  refine ⟨fun i hi => ?_, trivial⟩
  change ((s.removeClient id).clients i).active = true at hi
  change Asked said ((s.removeClient id).clients i).addr ((s.removeClient id).clients i).name.str
  unfold Server.removeClient at hi ⊢
  by_cases hactive : (s.clients id).active = true
  · rw [if_pos hactive] at hi ⊢
    by_cases hid : i = id
    · subst hid
      dsimp only at hi
      rw [Function.update_self] at hi
      exact absurd hi Bool.false_ne_true
    · dsimp only at hi ⊢
      rw [Function.update_of_ne hid] at hi ⊢
      exact h.named i hi
  · rw [if_neg hactive] at hi ⊢
    exact h.named i hi

/-- Every step of the receiving thread. -/
theorem owed_turn {clk : LocalClock} {now : Nat} {s s' : Server} {pc pc' : Pc}
    (h : Obeys said clk s pc) (hturn : MessageTurn clk now s pc s' pc') :
    Obeys said clk s' pc' := by
  cases hturn with
  -- The datagram that was said is the registration.
  | registration src buffer hregister =>
      rcases h.owed with ⟨message, hsaid, rfl⟩
      exact obeys_same h rfl ⟨message, hsaid, hregister, rfl⟩
  -- The slot is the sender's by its address.
  | known src buffer id hregister hfind =>
      rcases Server.active_of_findClientByAddr hfind with ⟨hactive, haddr⟩
      exact obeys_same h rfl ⟨haddr, h.named id hactive, h.owed⟩
  -- The name in the new slot is the one that the registration gave.
  | registered src name i hfind hfree =>
      rcases h.owed with ⟨message, hsaid, hregister, hname⟩
      exact obeys_insertClient h hsaid hregister hname now trivial
  | touch src id buffer =>
      rcases h.owed with ⟨haddr, hnamed, message, hsaid, rfl⟩
      refine obeys_lasting h (lasting_touch s id now) (fun i hi => ?_)
        (owed_dispatch haddr hnamed hsaid)
      rwa [Server.clients_touch] at hi
  -- The text is made here, of the name in the sender's slot and what the sender said.
  | formatAll id message =>
      rcases h.owed with ⟨hnamed, hordered⟩
      exact obeys_same h rfl ⟨_, _, message, now, hnamed, hordered, rfl⟩
  | broadcast id response =>
      exact obeys_same h (Server.clients_broadcastMessage s response id).1 trivial
  | found src id targetName message targetId hfind =>
      rcases h.owed with ⟨hnamed, hordered⟩
      -- The target is the slot with this name, and a name belongs to its owner.
      have htarget := scan_some hfind
      rw [Bool.and_eq_true, beq_iff_eq] at htarget
      exact obeys_same h rfl ⟨hnamed, hordered, h.named targetId htarget.1, htarget.2⟩
  | formatOne src id targetId targetName message =>
      rcases h.owed with ⟨hnamed, hordered, htarget, hname⟩
      refine obeys_same h rfl ⟨_, _, targetName, message, now, hnamed, hordered, ?_, rfl⟩
      rw [← hname]
      exact htarget
  | sendTo src targetId targetName response =>
      exact obeys_same h (Server.clients_sendToClient s response targetId).1 trivial
  | remove src id => exact obeys_removeClient h (.quit src)
  | unknown | nameUsed | full | listing | notFound | farewell | reply =>
      exact obeys_same h rfl trivial

/-- Every step of the server, with a datagram that was said. -/
theorem obeys_step {clk : LocalClock} {s s' : State} {e : Udp.Event}
    (h : Obeys said clk s.server s.message)
    (he : ∀ src message, e = .datagram src message → said src message)
    (hstep : Udp.step clk s e = some s') : Obeys said clk s'.server s'.message := by
  cases e with
  | time now =>
      rw [← Option.some.inj hstep]
      exact h
  -- What arrives was said by somebody.
  | datagram src bytes =>
      simp only [Udp.step] at hstep
      split at hstep
      · rw [← Option.some.inj hstep]
        exact ⟨h.named, bytes, he src bytes rfl, rfl⟩
      · cases hstep
  | recvError =>
      simp only [Udp.step] at hstep
      split at hstep
      · rw [← Option.some.inj hstep]
        exact h
      · cases hstep
  | message =>
      simp only [Udp.step] at hstep
      split at hstep
      · rename_i server pc hmessage
        rw [← Option.some.inj hstep]
        exact owed_turn h (messageStep_cases hmessage)
      · cases hstep
  | pingWake =>
      simp only [Udp.step] at hstep
      split at hstep
      · rw [← Option.some.inj hstep]
        exact h
      · cases hstep
  -- A sweep only deactivates, and names are promised for active slots.
  | sweep =>
      simp only [Udp.step] at hstep
      split at hstep
      · cases hstep
      · rename_i now hping
        have hs' := Option.some.inj hstep
        have hserver : s'.server = s.server.pingSweep now := by rw [← hs']
        have hmessage : s'.message = s.message := by rw [← hs']
        rw [hserver, hmessage]
        refine obeys_lasting h (lasting_pingSweep now s.server) (fun i hi => ?_) h.owed
        rw [Server.clients_pingSweep, Server.swept_active] at hi
        exact hi.1

end Server

/-- What a step of the receiving thread sends, and where. -/
inductive Issues (s : Server) : Pc → Via → SockAddr → Bytes → Prop where
  | reply (src : SockAddr) (response : Bytes) :
      Issues s (.reply src response) .reply src response
  | farewell (src : SockAddr) (id : Slot) :
      Issues s (.farewell src id) .reply src (text "OK: Do widzenia")
  | broadcast (id i : Slot) (response : Bytes) :
      Issues s (.broadcast id response) .broadcast (s.clients i).addr response
  | sendTo (src : SockAddr) (targetId : Slot) (targetName response : Bytes) :
      Issues s (.sendTo src targetId targetName response) .toClient (s.clients targetId).addr
        response

theorem issues_of_turn {clk : LocalClock} {now : Nat} {s s' : Server} {pc pc' : Pc}
    (h : MessageTurn clk now s pc s' pc') :
    ∃ acts, s'.log = acts ++ s.log ∧
      ∀ via dst message, .sent via dst message ∈ acts → Issues s pc via dst message := by
  -- By the turn: three of them send, and the log tells to whom.
  cases h with
  | registered src name i =>
      refine ⟨[.registered src], rfl, fun via dst message hmem => ?_⟩
      cases List.mem_singleton.mp hmem
  | broadcast id response =>
      refine ⟨_, congrArg Server.log (Server.broadcastMessage_eq s response id),
        fun via dst message hmem => ?_⟩
      rw [List.mem_reverse, List.mem_map] at hmem
      rcases hmem with ⟨i, _, heq⟩
      rcases Action.sent.inj heq with ⟨rfl, rfl, rfl⟩
      exact .broadcast id i _
  -- `send_to_client` sends to an active slot only.
  | sendTo src targetId targetName response =>
      unfold Server.sendToClient
      by_cases hactive : (s.clients targetId).active = true
      · rw [if_pos hactive]
        refine ⟨[_], rfl, fun via dst message hmem => ?_⟩
        rcases Action.sent.inj (List.mem_singleton.mp hmem) with ⟨rfl, rfl, rfl⟩
        exact .sendTo src targetId targetName _
      · rw [if_neg hactive]
        exact ⟨[], rfl, fun _ _ _ hmem => absurd hmem List.not_mem_nil⟩
  | farewell src id =>
      refine ⟨[_], rfl, fun via dst message hmem => ?_⟩
      rcases Action.sent.inj (List.mem_singleton.mp hmem) with ⟨rfl, rfl, rfl⟩
      exact .farewell _ id
  | remove src id =>
      refine ⟨[.quit src], ?_, fun via dst message hmem => ?_⟩
      · change Action.quit src :: (s.removeClient id).log = _
        rw [Server.log_removeClient]
        rfl
      · cases List.mem_singleton.mp hmem
  | reply src response =>
      refine ⟨[_], rfl, fun via dst message hmem => ?_⟩
      rcases Action.sent.inj (List.mem_singleton.mp hmem) with ⟨rfl, rfl, rfl⟩
      exact .reply _ _
  | registration | unknown | known | nameUsed | full | touch | listing | formatAll | found |
    notFound | formatOne =>
      exact ⟨[], rfl, fun _ _ _ hmem => absurd hmem List.not_mem_nil⟩

namespace Network

/-- What a step of the server posts is a probe, or what the receiving thread
    sends. -/
theorem issues_of_posts {clk : LocalClock} {s s' : State} {e : Udp.Event}
    (h : Udp.step clk s e = some s') {via : Via} {dst : SockAddr} {message : Bytes}
    (hmem : .answer via dst message ∈ posts s.server s'.server) :
    via = .alive ∧ message = text "ALIVE" ∨ Issues s.server s.message via dst message := by
  rcases step_cases h with ⟨_, hserver, _⟩ | ⟨_, hmessage⟩ | ⟨_, now, hserver, _⟩
  · rw [posts_self (congrArg Server.log hserver)] at hmem
    exact absurd hmem List.not_mem_nil
  · rcases issues_of_turn (messageStep_cases hmessage) with ⟨acts, hlog, hacts⟩
    rw [posts_of_log hlog] at hmem
    exact Or.inr (hacts via dst message (mem_posted hmem))
  · rw [hserver, posts_pingSweep, List.mem_reverse, List.mem_map] at hmem
    rcases hmem with ⟨i, _, heq⟩
    rcases Datagram.answer.inj heq with ⟨rfl, _, rfl⟩
    exact Or.inl ⟨rfl, rfl⟩

/-- The server posts no requests. -/
theorem not_request_posts (s s' : Server) (src : SockAddr) (message : Bytes) :
    .request src message ∉ posts s s' := by
  intro hmem
  unfold posts at hmem
  rcases List.mem_filterMap.mp hmem with ⟨act, _, hposted⟩
  cases act <;> cases hposted

variable {ι : Type*}

/-- A client at the address has sent the message. One that is interrupted
    sends a `QUIT` that its loops know nothing of. -/
def Said (s : Network ι) (src : SockAddr) (message : Bytes) : Prop :=
  ∃ i, (s.clients i).addr = src ∧
    (message = text "QUIT" ∨ ∃ m ∈ (s.clients i).listener.sent, m.message = message)

deriving instance DecidableEq for Datagram

/-- Everything in flight and at hand was said by somebody. -/
structure Authored (clk : LocalClock) (s : Network ι) : Prop where
  server : Obeys s.Said clk s.server.server s.server.message
  requests : ∀ src message, .request src message ∈ s.flight → s.Said src message
  publics : ∀ dst message, .answer .broadcast dst message ∈ s.flight →
    PublicText s.Said clk message
  privates : ∀ dst message, .answer .toClient dst message ∈ s.flight →
    PrivateText s.Said clk dst message

end Network

section Mono

variable {said said' : SockAddr → Bytes → Prop} (h : ∀ src message, said src message →
  said' src message)

include h

theorem asked_mono {src : SockAddr} {name : Bytes} (hasked : Asked said src name) :
    Asked said' src name := by
  rcases hasked with ⟨message, hsaid, hregister⟩
  exact ⟨message, h src message hsaid, hregister⟩

theorem ordered_mono {src : SockAddr} {c : Command} (hordered : Ordered said src c) :
    Ordered said' src c := by
  rcases hordered with ⟨message, hsaid, hparse⟩
  exact ⟨message, h src message hsaid, hparse⟩

theorem publicText_mono {clk : LocalClock} {response : Bytes}
    (hpublic : PublicText said clk response) : PublicText said' clk response := by
  rcases hpublic with ⟨src, name, message, now, hasked, hordered, heq⟩
  exact ⟨src, name, message, now, asked_mono h hasked, ordered_mono h hordered, heq⟩

theorem privateText_mono {clk : LocalClock} {dst : SockAddr} {response : Bytes}
    (hprivate : PrivateText said clk dst response) : PrivateText said' clk dst response := by
  rcases hprivate with ⟨src, name, targetName, message, now, hasked, hordered, htarget, heq⟩
  exact ⟨src, name, targetName, message, now, asked_mono h hasked, ordered_mono h hordered,
    asked_mono h htarget, heq⟩

/-- Whoever has been asked before has been asked still. -/
theorem obeys_mono {clk : LocalClock} {s : Server} {pc : Pc} (hobeys : Obeys said clk s pc) :
    Obeys said' clk s pc := by
  refine ⟨fun i hi => asked_mono h (hobeys.named i hi), ?_⟩
  have howed := hobeys.owed
  cases pc with
  | recvfrom | listing | farewell | remove | reply => trivial
  | lookup src buffer =>
      rcases howed with ⟨message, hsaid, heq⟩
      exact ⟨message, h src message hsaid, heq⟩
  | register src name =>
      rcases howed with ⟨message, hsaid, hregister⟩
      exact ⟨message, h src message hsaid, hregister⟩
  | touch src id buffer =>
      rcases howed with ⟨haddr, hnamed, message, hsaid, heq⟩
      exact ⟨haddr, asked_mono h hnamed, message, h src message hsaid, heq⟩
  | formatAll | find => exact ⟨asked_mono h howed.1, ordered_mono h howed.2⟩
  | formatOne =>
      exact ⟨asked_mono h howed.1, ordered_mono h howed.2.1, asked_mono h howed.2.2.1,
        howed.2.2.2⟩
  | broadcast => exact publicText_mono h howed
  | sendTo => exact privateText_mono h howed

end Mono

namespace Process

/-- A client is who it was. What it has sent it has sent, and it registers
    under its own name. -/
structure Keeps (p p' : Process) (messages : List Bytes) : Prop where
  addr : p'.addr = p.addr
  name : p'.name = p.name
  sent : p.listener.sent <+: p'.listener.sent
  new : ∀ message ∈ messages, message = text "QUIT" ∨
    ∃ m ∈ p'.listener.sent, m.message = message
  registers : ∀ message, .register message ∈ p'.listener.sent →
    .register message ∈ p.listener.sent ∨ message = Listener.registerMsg p.name

theorem keeps_of_move {p p' : Process} {e : Event} {messages : List Bytes}
    (h : Move p e p' messages) : Keeps p p' messages := by
  cases h with
  | silent e running stopping gone hgone =>
      exact ⟨rfl, rfl, List.prefix_refl _, fun _ hmem => absurd hmem List.not_mem_nil,
        fun _ hmem => Or.inl hmem⟩
  | interrupt hgone =>
      exact ⟨rfl, rfl, List.prefix_refl _, fun _ hmem => Or.inl (List.mem_singleton.mp hmem),
        fun _ hmem => Or.inl hmem⟩
  | run e l hgone hspeech =>
      -- Whatever a client says is one message, or none.
      have hcases : l.sent = p.listener.sent ∨ ∃ m, l.sent = p.listener.sent ++ [m] ∧
          ∀ message, m = .register message → message = Listener.registerMsg p.name := by
        cases hspeech with
        | silent hsent hstart => exact Or.inl hsent
        | register hphase hphase' hsent =>
            exact Or.inr ⟨_, hsent, fun _ heq => (Sending.register.inj heq).symm⟩
        | typed line input hevent hturn hsent => exact Or.inr ⟨_, hsent, nofun⟩
        | pong src bytes hevent hprobe hphase hsent => exact Or.inr ⟨_, hsent, nofun⟩
      rcases hcases with hsent | ⟨m, hsent, hm⟩
      · rw [news_of_silent hsent]
        refine ⟨rfl, rfl, hsent ▸ List.prefix_refl _, fun _ hmem => absurd hmem List.not_mem_nil,
          fun message hmem => Or.inl ?_⟩
        change Sending.register message ∈ l.sent at hmem
        rwa [hsent] at hmem
      · rw [news_of_sent hsent]
        have hlast : m ∈ l.sent := by
          rw [hsent]
          exact List.mem_append_right _ List.mem_cons_self
        refine ⟨rfl, rfl, hsent ▸ List.prefix_append _ _, fun message hmem => Or.inr ?_,
          fun message hmem => ?_⟩
        · exact ⟨m, hlast, (List.mem_singleton.mp hmem).symm⟩
        · change Sending.register message ∈ l.sent at hmem
          rw [hsent] at hmem
          rcases List.mem_append.mp hmem with hold | hnew
          · exact Or.inl hold
          · exact Or.inr (hm message (List.mem_singleton.mp hnew).symm)

end Process

namespace Network

variable {ι : Type*}

/-- The server takes a step. -/
theorem authored_server {clk : LocalClock} {s : Network ι} (h : s.Authored clk)
    {e : Udp.Event} {server : State} {flight : List Datagram}
    (he : ∀ src message, e = .datagram src message → s.Said src message)
    (hflight : ∀ d ∈ flight, d ∈ s.flight ∨ d ∈ posts s.server.server server.server)
    (hserver : Udp.step clk s.server e = some server) :
    Authored clk { s with server := server, flight := flight } := by
  -- The receiving thread sends what it had at hand.
  have hposts : ∀ via dst message, .answer via dst message ∈ posts s.server.server server.server →
      (via = .broadcast → PublicText s.Said clk message) ∧
        (via = .toClient → PrivateText s.Said clk dst message) := by
    intro via dst message hmem
    rcases issues_of_posts hserver hmem with ⟨rfl, _⟩ | hissues
    · exact ⟨nofun, nofun⟩
    · have howed := h.server.owed
      -- What goes out depends on where the thread is.
      generalize s.server.message = pc at hissues howed
      cases hissues with
      | reply | farewell => exact ⟨nofun, nofun⟩
      | broadcast => exact ⟨fun _ => howed, nofun⟩
      | sendTo => exact ⟨nofun, fun _ => howed⟩
  refine ⟨obeys_step h.server he hserver, fun src message hmem => ?_, fun dst message hmem => ?_,
    fun dst message hmem => ?_⟩
  -- A datagram in flight was there before, or the server has just sent it.
  · rcases hflight _ hmem with hold | hnew
    · exact h.requests src message hold
    · exact absurd hnew (not_request_posts _ _ src message)
  · rcases hflight _ hmem with hold | hnew
    · exact h.publics dst message hold
    · exact (hposts .broadcast dst message hnew).1 rfl
  · rcases hflight _ hmem with hold | hnew
    · exact h.privates dst message hold
    · exact (hposts .toClient dst message hnew).2 rfl

variable [DecidableEq ι]

/-- What has been said stays said. -/
theorem said_said {s : Network ι} {i : ι} {p : Process} {messages : List Bytes}
    (flight : List Datagram) (h : (s.clients i).Keeps p messages) (src : SockAddr)
    (message : Bytes) (hsaid : s.Said src message) :
    (s.said i p messages flight).Said src message := by
  rcases hsaid with ⟨j, hj, hmessage⟩
  refine ⟨j, ?_⟩
  by_cases hji : j = i
  · subst hji
    have hself : (s.said j p messages flight).clients j = p := Function.update_self ..
    rw [hself, h.addr]
    refine ⟨hj, hmessage.imp_right fun hm => ?_⟩
    rcases hm with ⟨m, hmem, heq⟩
    exact ⟨m, h.sent.subset hmem, heq⟩
  · have hother : (s.said i p messages flight).clients j = s.clients j :=
      Function.update_of_ne hji ..
    rw [hother]
    exact ⟨hj, hmessage⟩

/-- A client says something, and something may be taken out of the flight. -/
theorem authored_said {clk : LocalClock} {s : Network ι} (h : s.Authored clk) {i : ι}
    {e : Process.Event} {p : Process} {messages : List Bytes} {flight : List Datagram}
    (hflight : ∀ d ∈ flight, d ∈ s.flight) (hclient : (s.clients i).step e = some (p, messages)) :
    (s.said i p messages flight).Authored clk := by
  have hkeeps := Process.keeps_of_move (Process.step_move hclient)
  have hmono := said_said flight hkeeps
  have hself : (s.said i p messages flight).clients i = p := Function.update_self ..
  refine ⟨obeys_mono hmono h.server, fun src message hmem => ?_, fun dst message hmem => ?_,
    fun dst message hmem => ?_⟩
  · rcases List.mem_append.mp hmem with hold | hsaid
    · exact hmono src message (h.requests src message (hflight _ hold))
    · rcases List.mem_map.mp hsaid with ⟨message', hmessage', heq⟩
      rcases Datagram.request.inj heq with ⟨rfl, rfl⟩
      refine ⟨i, ?_⟩
      rw [hself]
      exact ⟨rfl, hkeeps.new message' hmessage'⟩
  · exact publicText_mono hmono (h.publics dst message (hflight _ (answers_said i p messages hmem)))
  · exact privateText_mono hmono
      (h.privates dst message (hflight _ (answers_said i p messages hmem)))

theorem authored_step {clk : LocalClock} {home : SockAddr} {s s' : Network ι} {e : Event ι}
    (h : s.Authored clk) (hstep : step clk home s e = some s') : s'.Authored clk := by
  cases step_move hstep with
  | server e server he hserver =>
      refine authored_server h (fun src message heq => ?_) (fun d hd => List.mem_append.mp hd)
        hserver
      rw [heq] at he
      exact absurd rfl he
  | client i e p messages he hclient => exact authored_said h (fun d hd => hd) hclient
  | arrive k src message server hk hserver =>
      refine authored_server h (fun src' message' heq => ?_)
        (fun d hd => Or.inl (List.mem_of_mem_eraseIdx hd)) hserver
      rcases Udp.Event.datagram.inj heq with ⟨rfl, rfl⟩
      exact h.requests src message (List.mem_of_getElem? hk)
  | deliver i k via message p messages hk hclient =>
      exact authored_said h (fun d hd => List.mem_of_mem_eraseIdx hd) hclient
  | lose k d hk =>
      exact ⟨h.server,
        fun src message hmem => h.requests src message (List.mem_of_mem_eraseIdx hmem),
        fun dst message hmem => h.publics dst message (List.mem_of_mem_eraseIdx hmem),
        fun dst message hmem => h.privates dst message (List.mem_of_mem_eraseIdx hmem)⟩

/-- The clients are told apart by their addresses, have names that fit, and
    registered under them. -/
structure Settled (s : Network ι) : Prop where
  distinct : Function.Injective fun i => (s.clients i).addr
  plain : ∀ i, NulFree (s.clients i).name ∧ (s.clients i).name.length ≤ maxNameLen - 1
  registers : ∀ i message, .register message ∈ (s.clients i).listener.sent →
    message = Listener.registerMsg (s.clients i).name

theorem settled_said {s : Network ι} (h : s.Settled) {i : ι} {p : Process} {messages : List Bytes}
    (flight : List Datagram) (hkeeps : (s.clients i).Keeps p messages) :
    (s.said i p messages flight).Settled := by
  have hclients : (s.said i p messages flight).clients = Function.update s.clients i p := rfl
  have haddr : ∀ j, (Function.update s.clients i p j).addr = (s.clients j).addr := by
    -- A step of one client leaves all addresses as they are.
    intro j
    by_cases hji : j = i
    · rw [hji, Function.update_self, hkeeps.addr]
    · rw [Function.update_of_ne hji]
  refine ⟨fun j k hjk => h.distinct ?_, fun j => ?_, fun j message hmem => ?_⟩
  · simp only [hclients, haddr] at hjk
    exact hjk
  · rw [hclients]
    by_cases hji : j = i
    · rw [hji, Function.update_self, hkeeps.name]
      exact h.plain i
    · rw [Function.update_of_ne hji]
      exact h.plain j
  · rw [hclients] at hmem ⊢
    -- The client that moved keeps what it said, the others did not move.
    by_cases hji : j = i
    · rw [hji, Function.update_self] at hmem ⊢
      rw [hkeeps.name]
      rcases hkeeps.registers message hmem with hold | hnew
      · exact h.registers i message hold
      · exact hnew
    · rw [Function.update_of_ne hji] at hmem ⊢
      exact h.registers j message hmem

theorem settled_step {clk : LocalClock} {home : SockAddr} {s s' : Network ι} {e : Event ι}
    (h : s.Settled) (hstep : step clk home s e = some s') : s'.Settled := by
  cases step_move hstep with
  | server | arrive | lose => exact ⟨h.distinct, h.plain, h.registers⟩
  | client i e p messages he hclient =>
      exact settled_said h _ (Process.keeps_of_move (Process.step_move hclient))
  | deliver i k via message p messages hk hclient =>
      exact settled_said h _ (Process.keeps_of_move (Process.step_move hclient))

end Network

/-- `client_name`, which `main` of the client makes of its argument. -/
def clientName (arg : Bytes) : Bytes := (cstr arg).take (maxNameLen - 1)

theorem received_registerMsg {name : Bytes} (hnul : NulFree name)
    (hlength : name.length ≤ maxNameLen - 1) :
    received (Listener.registerMsg name) = text "REGISTER " ++ name := by
  have hshort : (text "REGISTER " ++ name).length ≤ bufferSize - 1 := by
    have hhead : (text "REGISTER ").length = 9 := by decide
    have hmax : maxNameLen = 32 := rfl
    have hbuffer : bufferSize = 1024 := rfl
    rw [List.length_append]
    omega
  unfold received Listener.registerMsg snprintf
  rw [List.take_take, Nat.min_self, List.take_of_length_le hshort]
  exact cstr_of_nulFree (nulFree_append.mpr ⟨by decide, hnul⟩)

namespace Process

/-- A name that the client has asked for: its own, or one that its user typed
    after a `REGISTER`. -/
def Called (p : Process) (name : Bytes) : Prop :=
  name = p.name ∨ ∃ input, .typed input ∈ p.listener.sent ∧
    strncmpEq (received input) (text "REGISTER ") = true ∧
      name = ((received input).drop 9).take (maxNameLen - 1)

/-- The user of the client has typed the command. -/
def Typed (p : Process) (c : Command) : Prop :=
  ∃ input, .typed input ∈ p.listener.sent ∧ parse (received input) = c

end Process

namespace Network

variable {ι : Type*} {s : Network ι}

theorem called_of_asked (h : s.Settled) {i : ι} {name : Bytes}
    (hasked : Asked s.Said (s.clients i).addr name) : (s.clients i).Called name := by
  rcases hasked with ⟨message, ⟨j, hj, hmessage⟩, hregister, hname⟩
  obtain rfl := h.distinct hj
  rcases hmessage with rfl | ⟨m, hmem, rfl⟩
  · exact absurd hregister (by decide)
  · cases m with
    | pong => exact absurd hregister (by decide)
    | typed input => exact Or.inr ⟨input, hmem, hregister, hname⟩
    | register message =>
        left
        rcases h.plain j with ⟨hnul, hlength⟩
        have hdrop : (text "REGISTER " ++ (s.clients j).name).drop 9 = (s.clients j).name := rfl
        have hheard : received (Sending.register message).message
            = text "REGISTER " ++ (s.clients j).name := by
          rw [Sending.message, h.registers j message hmem]
          exact received_registerMsg hnul hlength
        rw [hname, hheard, hdrop, List.take_of_length_le hlength]

/-- A registration is no other command. -/
theorem parse_register (name : Bytes) : parse (text "REGISTER " ++ name) = .ignored := rfl

theorem typed_of_ordered (h : s.Settled) {i : ι} {c : Command}
    (hc : c ≠ .quit ∧ c ≠ .ping ∧ c ≠ .ignored) (hordered : Ordered s.Said (s.clients i).addr c) :
    (s.clients i).Typed c := by
  rcases hordered with ⟨message, ⟨j, hj, hmessage⟩, hparse⟩
  obtain rfl := h.distinct hj
  rcases hmessage with rfl | ⟨m, hmem, rfl⟩
  · exact absurd (hparse.symm.trans (by decide)) hc.1
  · cases m with
    | pong => exact absurd (hparse.symm.trans (by decide)) hc.2.1
    | typed input => exact ⟨input, hmem, hparse⟩
    | register message =>
        rcases h.plain j with ⟨hnul, hlength⟩
        rw [Sending.message, h.registers j message hmem, received_registerMsg hnul hlength,
          parse_register] at hparse
        exact absurd hparse.symm hc.2.2

/-- The chat before anybody has said anything, with the clients at their
    addresses and started with their arguments. -/
def opened (addr : ι → SockAddr) (argv : ι → Bytes) : Network ι where
  server := Udp.init
  clients := fun i => .init (addr i) (clientName (argv i))
  flight := []

theorem settled_opened {addr : ι → SockAddr} (haddr : Function.Injective addr)
    (argv : ι → Bytes) : (opened addr argv).Settled where
  distinct := haddr
  plain := fun i => ⟨nulFree_take _ (nulFree_cstr (argv i)), List.length_take_le _ _⟩
  registers := fun _ _ hmem => absurd hmem List.not_mem_nil

theorem authored_opened (clk : LocalClock) (addr : ι → SockAddr) (argv : ι → Bytes) :
    (opened addr argv).Authored clk where
  server := ⟨fun _ hactive => absurd hactive Bool.false_ne_true, trivial⟩
  requests := fun _ _ hmem => absurd hmem List.not_mem_nil
  publics := fun _ _ hmem => absurd hmem List.not_mem_nil
  privates := fun _ _ hmem => absurd hmem List.not_mem_nil

variable [DecidableEq ι] {clk : LocalClock} {home : SockAddr} {addr : ι → SockAddr}
  {argv : ι → Bytes} {es : List (Event ι)} {t : Network ι}

/-- What holds of every run of the chat. -/
theorem authored_run (haddr : Function.Injective addr)
    (hrun : exec (step clk home) (opened addr argv) es = some t) : t.Settled ∧ t.Authored clk :=
  exec_invariant (I := fun t => t.Settled ∧ t.Authored clk)
    (fun _ _ _ hs hstep => ⟨settled_step hs.1 hstep, authored_step hs.2 hstep⟩)
    ⟨settled_opened haddr argv, authored_opened clk addr argv⟩ hrun

/-- A public text quotes a client under a name that it asked for. -/
theorem public_of_run (haddr : Function.Injective addr)
    (hrun : exec (step clk home) (opened addr argv) es = some t) {dst : SockAddr}
    {response : Bytes} (hmem : .answer .broadcast dst response ∈ t.flight) :
    ∃ i name message now, (t.clients i).Called name ∧ (t.clients i).Typed (.toAll message) ∧
      response = allText (clk.stamp now) name message := by
  rcases authored_run haddr hrun with ⟨hsettled, hauthored⟩
  rcases hauthored.publics dst response hmem with ⟨src, name, message, now, hasked, hordered, heq⟩
  -- Whoever asked for the name has the address.
  obtain ⟨i, rfl⟩ : ∃ i, (t.clients i).addr = src := by
    rcases hasked with ⟨_, ⟨i, hi, _⟩, _⟩
    exact ⟨i, hi⟩
  exact ⟨i, name, message, now, called_of_asked hsettled hasked,
    typed_of_ordered hsettled ⟨nofun, nofun, nofun⟩ hordered, heq⟩

/-- Two clients register, and one of them types a line. -/
def lineRun (line : Bytes) : List (Event Bool) :=
  [.client true (.run .register), .arrive 0, .server .message, .server .message, .server .message,
    .deliver true 0, .client false (.run .register), .arrive 0, .server .message,
    .server .message, .server .message, .deliver false 0, .client true (.run .loop),
    .client true (.run (.line line)), .arrive 0, .server .message, .server .message,
    .server .message, .server .message]

/-- The addresses of the two. -/
def pairAddr (b : Bool) : SockAddr := if b then ⟨1, 1⟩ else ⟨2, 2⟩

/-- And their names. -/
def pairArgv (b : Bool) : Bytes := if b then text "ala" else text "ola"

theorem pairAddr_injective : Function.Injective pairAddr := by decide

/-- A message for everybody is on its way. -/
theorem public_greeting : ∃ t : Network Bool,
    exec (step stoppedClock ⟨9, 9⟩) (opened pairAddr pairArgv)
        (lineRun (text "2ALL hej\n")) = some t ∧
      .answer .broadcast ⟨2, 2⟩ (text "[00:00:00] ala: hej") ∈ t.flight ∧
        ∃ i name message now, (t.clients i).Called name ∧ (t.clients i).Typed (.toAll message) ∧
          text "[00:00:00] ala: hej" = allText (stoppedClock.stamp now) name message := by
  have hend : (exec (step stoppedClock ⟨9, 9⟩) (opened pairAddr pairArgv)
      (lineRun (text "2ALL hej\n"))).any (fun t =>
        decide (.answer .broadcast ⟨2, 2⟩ (text "[00:00:00] ala: hej") ∈ t.flight)) = true := by
    decide +kernel
  rcases exists_of_exec_any hend with ⟨t, hrun, hmem⟩
  rw [decide_eq_true_eq] at hmem
  exact ⟨t, hrun, hmem, public_of_run pairAddr_injective hrun hmem⟩

/-- A private text quotes a client under a name that it asked for, and goes to
    one that asked for the name it is meant for. -/
theorem private_of_run (haddr : Function.Injective addr)
    (hrun : exec (step clk home) (opened addr argv) es = some t) {dst : SockAddr}
    {response : Bytes} (hmem : .answer .toClient dst response ∈ t.flight) :
    ∃ i j name targetName message now, (t.clients i).Called name ∧
      (t.clients i).Typed (.toOne targetName message) ∧ (t.clients j).addr = dst ∧
        (t.clients j).Called targetName ∧
          response = oneText (clk.stamp now) name message := by
  rcases authored_run haddr hrun with ⟨hsettled, hauthored⟩
  rcases hauthored.privates dst response hmem with
    ⟨src, name, targetName, message, now, hasked, hordered, htarget, heq⟩
  obtain ⟨i, rfl⟩ : ∃ i, (t.clients i).addr = src := by
    rcases hasked with ⟨_, ⟨i, hi, _⟩, _⟩
    exact ⟨i, hi⟩
  obtain ⟨j, rfl⟩ : ∃ j, (t.clients j).addr = dst := by
    rcases htarget with ⟨_, ⟨j, hj, _⟩, _⟩
    exact ⟨j, hj⟩
  exact ⟨i, j, name, targetName, message, now, called_of_asked hsettled hasked,
    typed_of_ordered hsettled ⟨nofun, nofun, nofun⟩ hordered, rfl,
    called_of_asked hsettled htarget, heq⟩

/-- A private message is on its way. -/
theorem private_greeting : ∃ t : Network Bool,
    exec (step stoppedClock ⟨9, 9⟩) (opened pairAddr pairArgv)
        (lineRun (text "2ONE ola hej\n") ++ [.server .message]) = some t ∧
      .answer .toClient ⟨2, 2⟩ (text "[00:00:00] ala (prywatnie): hej") ∈ t.flight ∧
        ∃ i j name targetName message now, (t.clients i).Called name ∧
          (t.clients i).Typed (.toOne targetName message) ∧ (t.clients j).addr = ⟨2, 2⟩ ∧
            (t.clients j).Called targetName ∧
              text "[00:00:00] ala (prywatnie): hej"
                = oneText (stoppedClock.stamp now) name message := by
  have hend : (exec (step stoppedClock ⟨9, 9⟩) (opened pairAddr pairArgv)
      (lineRun (text "2ONE ola hej\n") ++ [.server .message])).any (fun t =>
        decide (.answer .toClient ⟨2, 2⟩ (text "[00:00:00] ala (prywatnie): hej") ∈ t.flight))
          = true := by
    decide +kernel
  rcases exists_of_exec_any hend with ⟨t, hrun, hmem⟩
  rw [decide_eq_true_eq] at hmem
  exact ⟨t, hrun, hmem, private_of_run pairAddr_injective hrun hmem⟩

end Network

end Udp

end OsLabs
