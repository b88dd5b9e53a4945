import Mathlib.Data.List.Perm.Basic
import OsLabs.Library.Slots
import OsLabs.Udp.Network

/-!
# No Traffic of Its Own

Whether the chat falls silent when nobody types, and where a client's `PING`
comes from. A message for everybody fans out to all slots, and a probe leads
to a `PING`, which leads to a `PONG`. There it ends, because a client answers
probes and nothing else.

So each datagram can be priced in advance with all that will come of it, and
no step raises the price of everything together, as long as nobody types and
no sweep runs.

That a client answers nothing else depends on the texts of the server, since a
client takes for a probe whatever begins like one. It is a fact about what the
programs send on their own. A user who types `PING` sends one, too, and the
server cannot tell.

## Main definitions

* `Serves`: What a step of the server adds to its log.
* `Network.Sound`: The server's texts in flight are the program's.
* `Datagram.price`, `Process.due`, `Network.rank`: The price of the traffic.
* `Network.answered`, `Network.underway`, `Network.probed`: What becomes of the
  probes of one address.
* `Network.Sends`, `Network.Prompted`, `Network.Typed`: What a client sends, and
  what makes it.
* `Network.Calm`: The traffic ends, and no probe is forged.

## Theorems

* `sound_step`: The texts stay the program's.
* `rank_step`: The price does not rise.
* `conserved_step`: A probe is answered once.
* `calm_of_sound`: The chat is calm.
* `typed_ping`: A user may type a `PING`.
-/

namespace OsLabs

namespace Udp

open Machine

/-- Where the datagram was taken from, the rest is in any order. -/
theorem perm_of_getElem? {α : Type*} {l : List α} {k : Nat} {d : α} (h : l[k]? = some d) :
    (d :: l.eraseIdx k).Perm l := by
  rcases List.getElem?_eq_some_iff.mp h with ⟨hk, rfl⟩
  exact List.getElem_cons_eraseIdx_perm hk

namespace Network

/-- What the log has gained is what was posted. -/
theorem posts_of_log {s s' : Server} {acts : List Action} (h : s'.log = acts ++ s.log) :
    posts s s' = acts.filterMap Action.posted := by
  unfold posts
  rw [h, List.length_append, Nat.add_sub_cancel, List.take_left]

theorem posts_self {s s' : Server} (h : s'.log = s.log) : posts s s' = [] := by
  have hnone : s'.log = [] ++ s.log := h
  exact posts_of_log hnone

end Network

/-- What a step of the server does to its log and to the receiving thread. -/
inductive Serves (s : State) : Udp.Event → State → Prop where
  | idle (e : Udp.Event) (s' : State) (he : e ≠ .message) (hreceives : e.receives = false)
      (hlog : s'.server.log = s.server.log) (hmessage : s'.message = s.message) : Serves s e s'
  | receives (src : SockAddr) (bytes buffer : Bytes) (s' : State)
      (hlog : s'.server.log = s.server.log) (hwaiting : s.message = .recvfrom)
      (hmessage : s'.message = .lookup src buffer) : Serves s (.datagram src bytes) s'
  | emits (s' : State) (acts : List Action)
      (hemits : Emits s.server s.message s'.server s'.message acts) : Serves s .message s'
  | sweeps (now : Nat) (s' : State) (hserver : s'.server = s.server.pingSweep now)
      (hmessage : s'.message = s.message) : Serves s .sweep s'

theorem serves_of_step {clk : LocalClock} {s s' : State} {e : Udp.Event}
    (h : Udp.step clk s e = some s') (hworded : s.message.Worded) : Serves s e s' := by
  -- By the event; the receiving thread can only send in its own turn.
  cases e with
  | time now =>
      rw [← Option.some.inj h]
      exact .idle _ _ Event.noConfusion rfl rfl rfl
  | datagram src bytes =>
      simp only [Udp.step] at h
      split at h
      · rename_i hwaiting
        rw [← Option.some.inj h]
        exact .receives src bytes _ _ rfl hwaiting rfl
      · cases h
  | recvError =>
      simp only [Udp.step] at h
      split at h
      · rw [← Option.some.inj h]
        exact .idle _ _ Event.noConfusion rfl rfl rfl
      · cases h
  | message =>
      simp only [Udp.step] at h
      split at h
      · rename_i server pc hmessage
        rw [← Option.some.inj h]
        rcases emits_of_turn (messageStep_cases hmessage) hworded with ⟨acts, hemits⟩
        exact .emits _ acts hemits
      · cases h
  | pingWake =>
      simp only [Udp.step] at h
      split at h
      · rw [← Option.some.inj h]
        exact .idle _ _ Event.noConfusion rfl rfl rfl
      · cases h
  | sweep =>
      simp only [Udp.step] at h
      split at h
      · cases h
      · rename_i now hping
        have hs' := Option.some.inj h
        exact .sweeps now s' (by rw [← hs']) (by rw [← hs'])

namespace Network

variable {ι : Type*} [DecidableEq ι]

/-- What the server is about to send, and what it has in flight, are texts of
    the program. -/
structure Sound (s : Network ι) : Prop where
  worded : s.server.message.Worded
  answers : ∀ via dst message, .answer via dst message ∈ s.flight → Produced via message

/-- An answer among what was posted is an entry of the log. -/
theorem mem_posted {acts : List Action} {via : Via} {dst : SockAddr} {message : Bytes}
    (h : .answer via dst message ∈ acts.filterMap Action.posted) :
    .sent via dst message ∈ acts := by
  rcases List.mem_filterMap.mp h with ⟨act, hact, hposted⟩
  cases act with
  | sent via' dst' message' =>
      rcases Datagram.answer.inj (Option.some.inj hposted) with ⟨rfl, rfl, rfl⟩
      exact hact
  | registered addr | quit addr => cases hposted

/-- A sweep posts probes. -/
theorem posts_pingSweep (now : Nat) (s : Server) :
    posts s (s.pingSweep now)
      = ((s.kept now).map fun i => .answer .alive (s.clients i).addr (text "ALIVE")).reverse := by
  rw [posts_of_log (Server.log_pingSweep now s), List.filterMap_reverse, List.filterMap_map]
  exact congrArg List.reverse (congrFun List.filterMap_eq_map' _)

theorem sound_posts {s s' : State} {e : Udp.Event} (h : Serves s e s')
    {via : Via} {dst : SockAddr} {message : Bytes}
    (hmem : .answer via dst message ∈ posts s.server s'.server) : Produced via message := by
  cases h with
  | idle e s' he hreceives hlog | receives src bytes buffer s' hlog =>
      rw [posts_self hlog] at hmem
      exact absurd hmem List.not_mem_nil
  | emits s' acts hemits =>
      rw [posts_of_log hemits.log] at hmem
      exact (hemits.sent via dst message (mem_posted hmem)).2
  | sweeps now s' hserver =>
      rw [hserver, posts_pingSweep, List.mem_reverse, List.mem_map] at hmem
      rcases hmem with ⟨i, _, heq⟩
      rcases Datagram.answer.inj heq with ⟨rfl, _, rfl⟩
      exact .alive

theorem worded_serves {s s' : State} {e : Udp.Event} (h : Serves s e s')
    (hworded : s.message.Worded) : s'.message.Worded := by
  cases h with
  | idle e s' he hreceives hlog hmessage | sweeps now s' hserver hmessage => rwa [hmessage]
  | receives src bytes buffer s' hlog hwaiting hmessage =>
      rw [hmessage]
      trivial
  | emits s' acts hemits => exact hemits.worded

/-- A client adds no answer to what is in flight. -/
theorem answers_said {s : Network ι} {flight : List Datagram} (i : ι) (p : Process)
    (messages : List Bytes) {via : Via} {dst : SockAddr} {message : Bytes}
    (h : .answer via dst message ∈ (s.said i p messages flight).flight) :
    .answer via dst message ∈ flight := by
  rcases List.mem_append.mp h with hmem | hmem
  · exact hmem
  · rcases List.mem_map.mp hmem with ⟨_, _, heq⟩
    cases heq

theorem sound_step {clk : LocalClock} {home : SockAddr} {s s' : Network ι} {e : Event ι}
    (h : s.Sound) (hstep : step clk home s e = some s') : s'.Sound := by
  cases step_move hstep with
  | server e server he hserver =>
      have hserves := serves_of_step hserver h.worded
      refine ⟨worded_serves hserves h.worded, fun via dst message hmem => ?_⟩
      rcases List.mem_append.mp hmem with hold | hnew
      · exact h.answers via dst message hold
      · exact sound_posts hserves hnew
  | client i e p messages =>
      exact ⟨h.worded, fun via dst message hmem =>
        h.answers via dst message (answers_said i p messages hmem)⟩
  | arrive k src message server hk hserver =>
      have hserves := serves_of_step hserver h.worded
      exact ⟨worded_serves hserves h.worded, fun via dst message hmem =>
        h.answers via dst message (List.mem_of_mem_eraseIdx hmem)⟩
  | deliver i k via message p messages =>
      exact ⟨h.worded, fun via dst message hmem =>
        h.answers via dst message (List.mem_of_mem_eraseIdx (answers_said i p messages hmem))⟩
  | lose k d =>
      exact ⟨h.worded, fun via dst message hmem =>
        h.answers via dst message (List.mem_of_mem_eraseIdx hmem)⟩

end Network

/-- What the steps that a datagram gives rise to cost together. A probe is
    answered with one to the server. -/
def Datagram.price : Datagram → Nat
  | .request _ _ => maxClients + 5
  | .answer .alive _ _ => maxClients + 6
  | .answer _ _ _ => 1

/-- The price of some datagrams together. -/
def price (flight : List Datagram) : Nat := (flight.map Datagram.price).sum

theorem price_append (flight flight' : List Datagram) :
    price (flight ++ flight') = price flight + price flight' := by
  rw [price, List.map_append, List.sum_append]
  rfl

/-- A datagram that is taken out takes its price with it. -/
theorem price_eraseIdx {flight : List Datagram} {k : Nat} {d : Datagram}
    (h : flight[k]? = some d) : price (flight.eraseIdx k) + d.price = price flight := by
  have hsum := ((perm_of_getElem? h).map Datagram.price).sum_eq
  rw [List.map_cons, List.sum_cons, Nat.add_comm] at hsum
  exact hsum

theorem one_le_price (d : Datagram) : 1 ≤ d.price := by
  cases d with
  | request => exact Nat.le_add_left 1 _
  | answer via => cases via <;> exact Nat.le_of_ble_eq_true rfl

/-- What a client sends costs the same, whatever it is. -/
theorem price_requests (src : SockAddr) (messages : List Bytes) :
    price (messages.map (.request src)) = (maxClients + 5) * messages.length := by
  induction messages with
  | nil => rfl
  | cons message messages ih =>
      rw [List.map_cons, price, List.map_cons, List.sum_cons, List.length_cons, Nat.mul_add,
        Nat.mul_one, Nat.add_comm]
      exact congrArg (· + (maxClients + 5)) ih

/-- What is sent by no sweep costs one for each entry, at most. -/
theorem price_posted {acts : List Action}
    (h : ∀ via dst message, .sent via dst message ∈ acts → via ≠ .alive ∧ Produced via message) :
    price (acts.filterMap Action.posted) ≤ acts.length := by
  induction acts with
  | nil => exact Nat.le_refl _
  | cons act acts ih =>
      have hrest := ih fun via dst message hmem =>
        h via dst message (List.mem_cons_of_mem act hmem)
      rw [List.length_cons]
      cases act with
      | registered addr | quit addr => exact Nat.le_succ_of_le hrest
      | sent via dst message =>
          have hprice : (Datagram.answer via dst message).price = 1 := by
            have hvia := (h via dst message List.mem_cons_self).1
            cases via with
            | alive => exact absurd rfl hvia
            | reply | broadcast | toClient => rfl
          change price (.answer via dst message :: acts.filterMap Action.posted) ≤ _
          rw [price, List.map_cons, List.sum_cons, hprice, Nat.add_comm]
          exact Nat.add_le_add_right hrest 1

/-- The receiving thread takes a step. -/
def Event.handles : Event → Bool
  | .message => true
  | _ => false

/-- What the server does without a sweep is paid for. -/
theorem price_serves {s s' : State} {e : Event} (h : Serves s e s') (hsweep : e ≠ .sweep)
    (he : ¬ e.receives = true) :
    price (Network.posts s.server s'.server) + s'.message.effort + (if e.handles then 1 else 0)
      ≤ s.message.effort := by
  cases h with
  | idle e s' hmessage hreceives hlog hsame =>
      have hquiet : e.handles = false := by
        cases e with
        | message => exact absurd rfl hmessage
        | time | datagram | recvError | pingWake | sweep => rfl
      rw [Network.posts_self hlog, hsame, hquiet, if_neg Bool.false_ne_true]
      exact Nat.le_of_eq (Nat.zero_add _)
  | receives => exact absurd rfl he
  | emits s' acts hemits =>
      have hprice := price_posted hemits.sent
      have heffort := hemits.effort
      rw [Network.posts_of_log hemits.log]
      simp only [Event.handles, if_true]
      omega
  | sweeps => exact absurd rfl hsweep

namespace Process

/-- What a client may yet send on its own: its registration, and `QUIT` when
    it is interrupted. -/
def due (p : Process) : Nat :=
  (if p.gone then 0 else maxClients + 5) + if p.listener.phase = .start then maxClients + 5 else 0

/-- A line is read. -/
def Event.reads : Event → Bool
  | .run (.line _) => true
  | _ => false

/-- A datagram is received that begins like a probe. -/
def Event.probes : Event → Bool
  | .run (.datagram _ bytes) => strncmpEq (Listener.received bytes) (text "ALIVE")
  | _ => false

theorem probes_of_not_receives {e : Event} (h : ¬ e.receives = true) : e.probes = false := by
  cases e with
  | run e =>
      cases e with
      | datagram => exact absurd rfl h
      | register | sendtoError | setsockoptError | recvError | loop | line | eof | sendError => rfl
  | clear | leave | interrupt | exit => rfl

theorem news_of_sent {l l' : Listener} {m : Sending} (h : l'.sent = l.sent ++ [m]) :
    news l l' = [m.message] := by
  unfold news
  rw [h, List.drop_left]
  rfl

theorem news_of_silent {l l' : Listener} (h : l'.sent = l.sent) : news l l' = [] := by
  unfold news
  rw [h, List.drop_length]
  rfl

/-- What a client sends without a line was due, or answers a probe. -/
theorem due_step {p p' : Process} {e : Event} {messages : List Bytes}
    (h : Move p e p' messages) (he : e.reads = false) :
    p'.due + (maxClients + 5) * messages.length
      ≤ p.due + if e.probes then maxClients + 5 else 0 := by
  -- By the step: nothing, `QUIT` when interrupted, or what the running client says.
  cases h with
  | silent e running stopping gone hgone =>
      have hless : (if gone then 0 else maxClients + 5) ≤ maxClients + 5 := by
        cases gone <;> decide
      simp only [due, hgone, Bool.false_eq_true, if_false, List.length_nil]
      omega
  | interrupt hgone =>
      simp only [due, hgone, if_true, Bool.false_eq_true, if_false, List.length_singleton]
      omega
  | run e l hgone hspeech =>
      simp only [due, hgone, Bool.false_eq_true, if_false]
      cases hspeech with
      | silent hsent hstart =>
          rw [news_of_silent hsent, List.length_nil]
          by_cases hphase : l.phase = .start
          · rw [if_pos hphase, if_pos (hstart hphase)]
            omega
          · rw [if_neg hphase]
            omega
      | register hphase hphase' hsent =>
          rw [news_of_sent hsent, List.length_singleton, if_pos hphase, if_neg hphase']
          omega
      -- The step reads a line, which has been excluded.
      | typed line input hevent =>
          rw [hevent] at he
          exact absurd he.symm Bool.false_ne_true
      -- The probe brings what the answer costs.
      | pong src bytes hevent hprobe hphase hsent =>
          have hprobes : Event.probes (.run e) = true := by
            rw [hevent]
            exact hprobe
          rw [news_of_sent hsent, List.length_singleton, hphase, if_pos hprobes]
          omega

end Process

namespace Network

variable {ι : Type*}

/-- No line is read, and no sweep runs. -/
def Event.quiet : Event ι → Bool
  | .server .sweep => false
  | .client _ e => !e.reads
  | _ => true

/-- A datagram is taken from the flight, or the server handles one. -/
def Event.traffic : Event ι → Bool
  | .arrive _ | .deliver _ _ | .lose _ => true
  | .server e => e.handles
  | .client _ _ => false

section Price

variable [Fintype ι]

/-- The price of everything that is in flight, at hand, or due. -/
def rank (s : Network ι) : Nat :=
  price s.flight + s.server.message.effort + ∑ i, (s.clients i).due

variable [DecidableEq ι]

/-- A client pays for what it sends with what it had due. -/
theorem rank_said (s : Network ι) (i : ι) (p : Process) (messages : List Bytes)
    (flight : List Datagram) :
    (s.said i p messages flight).rank + (s.clients i).due
      = price flight + s.server.message.effort + (∑ j, (s.clients j).due)
        + (p.due + (maxClients + 5) * messages.length) := by
  have hmove := sum_move Process.due s.clients i p
  unfold rank
  simp only [said, price_append, price_requests]
  omega

/-- No step without a line and a sweep raises the price, and traffic lowers
    it. -/
theorem rank_step {clk : LocalClock} {home : SockAddr} {s s' : Network ι} {e : Event ι}
    (he : e.quiet = true) (h : s.Sound) (hstep : step clk home s e = some s') :
    s'.rank + (if e.traffic then 1 else 0) ≤ s.rank := by
  cases step_move hstep with
  | server e server hreceives hserver =>
      -- The receiving thread pays with what it had left to do.
      have hsweep : e ≠ .sweep := by
        rintro rfl
        exact absurd he Bool.false_ne_true
      have hprice := price_serves (serves_of_step hserver h.worded) hsweep hreceives
      change _ + (if e.handles = true then 1 else 0) ≤ _
      simp only [rank, price_append]
      omega
  | client i e p messages hreceives hclient =>
      -- Without a line only what was due is sent.
      have hreads : e.reads = false := by
        rwa [Event.quiet, Bool.not_eq_true'] at he
      have hprobes := Process.probes_of_not_receives hreceives
      have hdue := Process.due_step (Process.step_move hclient) hreads
      have hrank := rank_said s i p messages s.flight
      rw [hprobes, if_neg Bool.false_ne_true] at hdue
      simp only [Event.traffic, Bool.false_eq_true, if_false]
      unfold rank at hrank ⊢
      omega
  | arrive k src message server hk hserver =>
      have hprice := price_eraseIdx hk
      cases serves_of_step hserver h.worded with
      | idle _ _ hmessage hreceives => exact absurd hreceives.symm Bool.false_ne_true
      | receives _ _ buffer _ hlog hwaiting hmessage =>
          -- The handling of the datagram is what was paid for.
          simp only [rank, hwaiting, hmessage, Datagram.price, Pc.effort, Event.traffic,
            if_true] at hprice ⊢
          omega
  | deliver i k via message p messages hk hclient =>
      have hprice := price_eraseIdx hk
      have hdue := Process.due_step (Process.step_move hclient) rfl
      have hrank := rank_said s i p messages (s.flight.eraseIdx k)
      have hproduced := h.answers via _ message (List.mem_of_getElem? hk)
      -- What is taken for a probe is one, and was paid for as one.
      have hpaid : (if (Process.Event.run (.datagram home message)).probes = true
          then maxClients + 5 else 0) + 1
            ≤ (Datagram.answer via (s.clients i).addr message).price := by
        by_cases hprobe : strncmpEq (Listener.received message) (text "ALIVE") = true
        · have hvia := hproduced.alive_of_probe hprobe
          rw [Process.Event.probes, if_pos hprobe, hvia]
          exact Nat.le_refl _
        · rw [Process.Event.probes, if_neg hprobe]
          exact one_le_price _
      simp only [Event.traffic, if_true]
      unfold rank at hrank ⊢
      omega
  | lose k d hk =>
      have hprice := price_eraseIdx hk
      have hone := one_le_price d
      simp only [Event.traffic, rank, if_true]
      omega

end Price

end Network

/-- A probe that is on its way to the address. -/
def Datagram.probeTo (a : SockAddr) : Datagram → Bool
  | .answer .alive dst _ => decide (dst = a)
  | _ => false

/-- A probe that a sweep has sent to the address. -/
def Action.probeTo (a : SockAddr) : Action → Bool
  | .sent .alive dst _ => decide (dst = a)
  | _ => false

/-- A probe is in flight when it is sent. -/
theorem countP_posted (a : SockAddr) (acts : List Action) :
    (acts.filterMap Action.posted).countP (Datagram.probeTo a)
      = acts.countP (Action.probeTo a) := by
  rw [List.countP_filterMap]
  refine List.countP_congr fun act _ => ?_
  cases act with
  | sent via dst message => cases via <;> rfl
  | registered addr | quit addr => rfl

theorem countP_requests (a src : SockAddr) (messages : List Bytes) :
    (messages.map (.request src)).countP (Datagram.probeTo a) = 0 := by
  rw [List.countP_map, List.countP_eq_zero]
  exact fun _ _ => Bool.false_ne_true

theorem countP_eraseIdx {flight : List Datagram} {k : Nat} {d : Datagram} (a : SockAddr)
    (h : flight[k]? = some d) :
    (flight.eraseIdx k).countP (Datagram.probeTo a) + (if d.probeTo a then 1 else 0)
      = flight.countP (Datagram.probeTo a) := by
  rw [← (perm_of_getElem? h).countP_eq, List.countP_cons]

/-- The log only grows. -/
theorem log_serves {s s' : State} {e : Udp.Event} (h : Serves s e s') :
    ∃ acts, s'.server.log = acts ++ s.server.log := by
  cases h with
  | idle _ _ _ _ hlog | receives _ _ _ _ hlog => exact ⟨[], hlog⟩
  | emits s' acts hemits => exact ⟨acts, hemits.log⟩
  | sweeps now s' hserver =>
      rw [hserver]
      exact ⟨_, Server.log_pingSweep now s.server⟩

/-- What the server does without a sweep sends no probe. -/
theorem probed_serves (a : SockAddr) {s s' : State} {e : Udp.Event} (h : Serves s e s')
    (he : e ≠ .sweep) :
    s'.server.log.countP (Action.probeTo a) = s.server.log.countP (Action.probeTo a) := by
  cases h with
  | idle _ _ _ _ hlog | receives _ _ _ _ hlog => rw [hlog]
  | emits s' acts hemits =>
      have hnone : acts.countP (Action.probeTo a) = 0 := by
        rw [List.countP_eq_zero]
        intro act hact
        cases act with
        | sent via dst message =>
            have hvia := (hemits.sent via dst message hact).1
            cases via with
            | alive => exact absurd rfl hvia
            | reply | broadcast | toClient => exact Bool.false_ne_true
        | registered addr | quit addr => exact Bool.false_ne_true
      rw [hemits.log, List.countP_append, hnone, Nat.zero_add]
  | sweeps => exact absurd rfl he

namespace Process

/-- How many probes a client at the address has answered. -/
def pongs (a : SockAddr) (p : Process) : Nat :=
  if p.addr = a then p.listener.sent.count .pong else 0

/-- A client answers a probe when it receives one, and once. -/
theorem pongs_step (a : SockAddr) {p p' : Process} {e : Event} {messages : List Bytes}
    (h : Move p e p' messages) :
    p'.pongs a ≤ p.pongs a + if e.probes ∧ p.addr = a then 1 else 0 := by
  cases h with
  | silent | interrupt => exact Nat.le_add_right _ _
  | run e l hgone hspeech =>
      by_cases haddr : p.addr = a
      · simp only [pongs, haddr, and_true, if_true]
        cases hspeech with
        | silent hsent hstart =>
            rw [hsent]
            exact Nat.le_add_right _ _
        | register hphase hphase' hsent | typed line input hevent hturn hsent =>
            rw [hsent, Listener.count_pong_append _ Sending.noConfusion]
            exact Nat.le_add_right _ _
        | pong src bytes hevent hprobe hphase hsent =>
            have hprobes : Event.probes (.run e) = true := by
              rw [hevent]
              exact hprobe
            rw [hsent, List.count_append, List.count_singleton_self, if_pos hprobes]
      · simp only [pongs, haddr, if_false]
        exact Nat.zero_le _

/-- A client says `PING` if it has received a probe, or if its user has. -/
theorem ping_of_move {p p' : Process} {e : Event} {messages : List Bytes} {m : Sending}
    (h : Move p e p' messages) (hsent : p'.listener.sent = p.listener.sent ++ [m])
    (hm : m.message = text "PING") :
    e.probes = true ∨ ∃ line, e = .run (.line line) ∧ inputTurn line = .send (text "PING") := by
  have hself : ∀ l : List Sending, l ≠ l ++ [m] := by
    intro l heq
    have hlength := congrArg List.length heq
    rw [List.length_append, List.length_singleton] at hlength
    omega
  -- By the kind of message that is sent.
  cases h with
  | silent | interrupt => exact absurd hsent (hself _)
  | run e l hgone hspeech =>
      cases hspeech with
      | silent hsame => exact absurd (hsame.symm.trans hsent) (hself _)
      | register hphase hphase' hregister =>
          -- A registration begins with another word, and so does a `QUIT`.
          rw [← List.singleton_inj.mp (List.append_cancel_left (hregister.symm.trans hsent))] at hm
          have hfront : text "REGISTER " <+: Listener.registerMsg p.name :=
            prefix_snprintf p.name (by decide)
          rw [show Listener.registerMsg p.name = text "PING" from hm] at hfront
          exact absurd hfront (by decide)
      | typed line input hevent hturn htyped =>
          rw [← List.singleton_inj.mp (List.append_cancel_left (htyped.symm.trans hsent))] at hm
          have hinput : input = text "PING" := hm
          -- A line is sent as it is, and the end of input says `QUIT`.
          rcases hturn with hsend | ⟨_, hquit⟩
          · exact Or.inr ⟨line, congrArg Event.run hevent, hinput ▸ hsend⟩
          · rw [hquit] at hinput
            exact absurd hinput (by decide)
      | pong src bytes hevent hprobe =>
          refine Or.inl ?_
          rw [hevent]
          exact hprobe

end Process

namespace Network

section Probes

variable {ι : Type*} [Fintype ι]

/-- How many probes have been answered at the address. -/
def answered (a : SockAddr) (s : Network ι) : Nat := ∑ i, (s.clients i).pongs a

/-- How many probes are on their way to the address. -/
def underway (a : SockAddr) (s : Network ι) : Nat := s.flight.countP (Datagram.probeTo a)

/-- How many probes the sweeps have sent to the address. -/
def probed (a : SockAddr) (s : Network ι) : Nat :=
  s.server.server.log.countP (Action.probeTo a)

variable [DecidableEq ι]

/-- A client that says something changes its own answers only. -/
theorem conserved_said (a : SockAddr) (s : Network ι) (i : ι) (p : Process)
    (messages : List Bytes) (flight : List Datagram) :
    (s.said i p messages flight).answered a + (s.clients i).pongs a
        = s.answered a + p.pongs a ∧
      (s.said i p messages flight).underway a = flight.countP (Datagram.probeTo a) ∧
        (s.said i p messages flight).probed a = s.probed a := by
  refine ⟨sum_move (Process.pongs a) s.clients i p, ?_, rfl⟩
  simp only [underway, said, List.countP_append, countP_requests, Nat.add_zero]

/-- What becomes of the probes for an address. One that is answered was on its
    way, and one that is on its way was sent by a sweep. -/
theorem conserved_step {clk : LocalClock} {home : SockAddr} {s s' : Network ι} {e : Event ι}
    (a : SockAddr) (h : s.Sound) (hstep : step clk home s e = some s') :
    s'.answered a + s'.underway a + s.probed a ≤ s.answered a + s.underway a + s'.probed a := by
  -- By the step of the network.
  cases step_move hstep with
  | server e server hreceives hserver =>
      -- What a sweep sends is on its way at once.
      rcases log_serves (serves_of_step hserver h.worded) with ⟨acts, hlog⟩
      simp only [answered, underway, probed, List.countP_append, posts_of_log hlog, hlog,
        countP_posted]
      omega
  -- Its own step can answer a probe only if it receives one, and here it does not.
  | client i e p messages hreceives hclient =>
      have hpongs := Process.pongs_step a (Process.step_move hclient)
      rcases conserved_said a s i p messages s.flight with ⟨hanswered, hunderway, hprobed⟩
      rw [Process.probes_of_not_receives hreceives] at hpongs
      simp only [Bool.false_eq_true, false_and, if_false] at hpongs
      rw [hunderway, hprobed]
      unfold underway
      omega
  -- A datagram on its way to the server is no probe.
  | arrive k src message server hk hserver =>
      have hcount := countP_eraseIdx a hk
      cases serves_of_step hserver h.worded with
      | idle _ _ _ hreceives => exact absurd hreceives.symm Bool.false_ne_true
      | receives _ _ _ _ hlog =>
          simp only [answered, underway, probed, hlog]
          omega
  | deliver i k via message p messages hk hclient =>
      have hcount := countP_eraseIdx a hk
      have hpongs := Process.pongs_step a (Process.step_move hclient)
      rcases conserved_said a s i p messages (s.flight.eraseIdx k) with
        ⟨hanswered, hunderway, hprobed⟩
      have hproduced := h.answers via _ message (List.mem_of_getElem? hk)
      -- What is answered is a probe for this address, and is taken out.
      have htaken : (if (Process.Event.run (.datagram home message)).probes = true ∧
          (s.clients i).addr = a then 1 else 0)
            ≤ if (Datagram.answer via (s.clients i).addr message).probeTo a then 1 else 0 := by
        by_cases hprobe : strncmpEq (Listener.received message) (text "ALIVE") = true
        · simp only [Process.Event.probes, hprobe, true_and, hproduced.alive_of_probe hprobe,
            Datagram.probeTo, decide_eq_true_eq, Nat.le_refl]
        · rw [Process.Event.probes, if_neg fun hboth => hprobe hboth.1]
          exact Nat.zero_le _
      rw [hunderway, hprobed]
      unfold underway at hcount ⊢
      omega
  -- A lost probe is no longer on its way.
  | lose k d hk =>
      have hcount := countP_eraseIdx a hk
      simp only [answered, underway, probed]
      omega

end Probes

section Runs

variable {ι : Type*} [DecidableEq ι]

/-- A step makes the client send the message. -/
def Sends (i : ι) (message : Bytes) (s s' : Network ι) : Prop :=
  ∃ m : Sending, m.message = message ∧
    (s'.clients i).listener.sent = (s.clients i).listener.sent ++ [m]

/-- The step delivers a probe to the client that a sweep has sent it. -/
def Prompted (i : ι) (s : Network ι) (e : Event ι) : Prop :=
  ∃ k, e = .deliver i k ∧ s.flight[k]? = some (.answer .alive (s.clients i).addr (text "ALIVE"))

/-- The client reads the message as a line of its user. -/
def Typed (i : ι) (message : Bytes) (e : Event ι) : Prop :=
  ∃ line, e = .client i (.run (.line line)) ∧ inputTurn line = .send message

omit [DecidableEq ι] in
/-- A client that takes no step says nothing. -/
theorem not_sends_of_listener {i : ι} {message : Bytes} {s s' : Network ι}
    (h : (s'.clients i).listener = (s.clients i).listener) : ¬ Sends i message s s' := by
  rintro ⟨m, _, hsent⟩
  have hlength := congrArg List.length hsent
  rw [h, List.length_append, List.length_singleton] at hlength
  omega

/-- The step that makes a client say something is its own. -/
theorem eq_of_sends {i j : ι} {message : Bytes} {s : Network ι} {p : Process}
    {messages : List Bytes} {flight : List Datagram}
    (h : Sends j message s (s.said i p messages flight)) :
    j = i ∧ ∃ m : Sending, m.message = message ∧
      p.listener.sent = (s.clients i).listener.sent ++ [m] := by
  by_cases hji : j = i
  · subst hji
    rcases h with ⟨m, hm, hsent⟩
    have hself : (s.said j p messages flight).clients j = p := Function.update_self ..
    rw [hself] at hsent
    exact ⟨rfl, m, hm, hsent⟩
  · have hother : (s.said i p messages flight).clients j = s.clients j :=
      Function.update_of_ne hji ..
    exact absurd h (not_sends_of_listener (by rw [hother]))

/-- A `PING` answers a probe, or was typed. -/
theorem prompted_step {clk : LocalClock} {home : SockAddr} {s s' : Network ι} {e : Event ι}
    {i : ι} (h : s.Sound) (hstep : step clk home s e = some s')
    (hsends : Sends i (text "PING") s s') : Prompted i s e ∨ Typed i (text "PING") e := by
  cases step_move hstep with
  | server | arrive | lose => exact absurd hsends (not_sends_of_listener rfl)
  | client j e p messages hreceives hclient =>
      rcases eq_of_sends hsends with ⟨rfl, m, hm, hsent⟩
      rcases Process.ping_of_move (Process.step_move hclient) hsent hm with hprobes | htyped
      · rw [Process.probes_of_not_receives hreceives] at hprobes
        exact absurd hprobes Bool.false_ne_true
      · rcases htyped with ⟨line, rfl, hturn⟩
        exact Or.inr ⟨line, rfl, hturn⟩
  | deliver j k via message p messages hk hclient =>
      rcases eq_of_sends hsends with ⟨rfl, m, hm, hsent⟩
      have hproduced := h.answers via _ message (List.mem_of_getElem? hk)
      rcases Process.ping_of_move (Process.step_move hclient) hsent hm with hprobes | htyped
      · have hvia := hproduced.alive_of_probe hprobes
        subst hvia
        cases hproduced
        exact Or.inl ⟨k, rfl, hk⟩
      · rcases htyped with ⟨line, heq, _⟩
        cases heq

/-- Only a sweep sends probes. -/
theorem probed_step {clk : LocalClock} {home : SockAddr} {s s' : Network ι} {e : Event ι}
    (a : SockAddr) (h : s.Sound) (hstep : step clk home s e = some s')
    (he : e ≠ .server .sweep) : s'.probed a = s.probed a := by
  cases step_move hstep with
  | client | deliver | lose => rfl
  | server e server hreceives hserver =>
      have hsweep : e ≠ .sweep := fun heq => he (congrArg Event.server heq)
      exact probed_serves a (serves_of_step hserver h.worded) hsweep
  | arrive k src message server hk hserver =>
      exact probed_serves a (serves_of_step hserver h.worded) Udp.Event.noConfusion

theorem sound_run {clk : LocalClock} {home : SockAddr} {s t : Network ι} {es : List (Event ι)}
    (h : s.Sound) (hrun : exec (step clk home) s es = some t) : t.Sound :=
  exec_invariant (I := Sound) (fun _ _ _ hs hstep => sound_step hs hstep) h hrun

end Runs

section Calm

variable {ι : Type*} [Fintype ι] [DecidableEq ι]

/-- Left to itself the chat falls silent, and whatever else happens, nobody is
    made to say `PING` but by a probe, and once by each. -/
structure Calm (clk : LocalClock) (home : SockAddr) (s : Network ι) : Prop where
  /-- Without lines and sweeps, no order of deliveries goes on for ever. -/
  settles : ∃ n, ∀ es t, (∀ e ∈ es, e.quiet = true) → exec (step clk home) s es = some t →
    es.countP Event.traffic ≤ n
  /-- A `PING` is sent on receiving a probe of a sweep, or is typed. -/
  prompted : ∀ es t e t' i, exec (step clk home) s es = some t → step clk home t e = some t' →
    Sends i (text "PING") t t' → Prompted i t e ∨ Typed i (text "PING") e
  /-- The probes that are answered meanwhile were on their way or were sent
      meanwhile, and are not on their way any more. -/
  once : ∀ es t a, exec (step clk home) s es = some t →
    t.answered a + t.underway a + s.probed a ≤ s.answered a + s.underway a + t.probed a
  /-- And only sweeps send them. -/
  swept : ∀ es t e t' a, exec (step clk home) s es = some t → step clk home t e = some t' →
    e ≠ .server .sweep → t'.probed a = t.probed a

/-- The chat is calm, for any table, any clients and whatever is in flight. -/
theorem calm_of_sound (clk : LocalClock) (home : SockAddr) {s : Network ι} (h : s.Sound) :
    Calm clk home s where
  settles := by
    refine ⟨s.rank, fun es t hquiet hrun => ?_⟩
    have hcount : t.rank + es.countP Event.traffic ≤ s.rank :=
      exec_countP_le (E := fun e : Event ι => e.quiet = true) (I := Sound)
        (fun _ _ _ hs hstep => sound_step hs hstep)
        (fun _ _ _ he hs hstep => rank_step he hs hstep) hquiet h hrun
    omega
  prompted := fun _ _ _ _ _ hrun hstep hsends => prompted_step (sound_run h hrun) hstep hsends
  once := by
    intro es t a hrun
    have hboth := exec_invariant (I := fun t => t.Sound ∧
      t.answered a + t.underway a + s.probed a ≤ s.answered a + s.underway a + t.probed a)
      (fun u e u' hu hstep => ?_) ⟨h, Nat.le_refl _⟩ hrun
    · exact hboth.2
    · have hconserved := conserved_step a hu.1 hstep
      exact ⟨sound_step hu.1 hstep, by omega⟩
  swept := fun _ _ _ _ a hrun hstep he => probed_step a (sound_run h hrun) hstep he

/-- Two clients, a message for everybody on its way to the server, and a probe
    on its way to the other. -/
def busy : Network Bool where
  server := Udp.init
  clients := fun b =>
    { Process.init (if b then ⟨1, 1⟩ else ⟨2, 2⟩) (text "ala") with
      listener := { phase := .reading, running := true, sent := [] } }
  flight := [.request ⟨1, 1⟩ (text "2ALL ALIVE"), .answer .alive ⟨2, 2⟩ (text "ALIVE")]

theorem calm_busy : busy.Sound ∧ Calm stoppedClock ⟨9, 9⟩ busy := by
  have hsound : busy.Sound := by
    refine ⟨trivial, fun via dst message hmem => ?_⟩
    simp only [busy, List.mem_cons, reduceCtorEq, Datagram.answer.injEq, List.not_mem_nil,
      or_false, false_or] at hmem
    rcases hmem with ⟨rfl, _, rfl⟩
    exact .alive
  exact ⟨hsound, calm_of_sound stoppedClock ⟨9, 9⟩ hsound⟩

end Calm

/-- A client is started. -/
def start : Network Unit where
  server := Udp.init
  clients := fun _ => .init ⟨1, 1⟩ (text "ala")
  flight := []

/-- It registers, and is about to read a line. -/
def chatRun : List (Event Unit) :=
  [.client () (.run .register), .arrive 0, .server .message, .server .message, .server .message,
    .deliver () 0, .client () (.run .loop)]

/-- What the user types is sent as it is, also if it is `PING`, and no probe
    was sent. -/
theorem typed_ping : start.Sound ∧
    ¬ ∀ es t e t' i, exec (step stoppedClock ⟨9, 9⟩) start es = some t →
      step stoppedClock ⟨9, 9⟩ t e = some t' → Sends i (text "PING") t t' → Prompted i t e := by
  refine ⟨⟨trivial, fun _ _ _ hmem => absurd hmem List.not_mem_nil⟩, fun hall => ?_⟩
  -- The run goes through, and its last step sends the line.
  have hend : (exec (step stoppedClock ⟨9, 9⟩) start chatRun).any (fun t =>
      (step stoppedClock ⟨9, 9⟩ t (.client () (.run (.line (text "PING\n"))))).any fun t' =>
        decide ((t'.clients ()).listener.sent
          = (t.clients ()).listener.sent ++ [.typed (text "PING")])) = true := by
    decide +kernel
  rcases exists_of_exec_any hend with ⟨t, hrun, hlast⟩
  rw [Option.any_eq_true] at hlast
  rcases hlast with ⟨t', hstep, hsent⟩
  rw [decide_eq_true_eq] at hsent
  rcases hall chatRun t _ t' () hrun hstep ⟨_, rfl, hsent⟩ with ⟨k, hdeliver, _⟩
  cases hdeliver

end Network

end Udp

end OsLabs
