import OsLabs.Udp.Network

/-!
# Whom the UDP Client Listens To

Anybody can send to the socket of a client, which does not look where a
datagram has come from. Two runs of a client are compared: the one that took
place, and the same without the datagrams of other addresses. The condition
under which they are the same is exact, step by step. It is about what others
send; that the server itself sends no empty datagram is added because the
client gives up on one.

The comparison goes on behind the input loop. There `main` clears `running` and
waits for the receiving thread, which is in `recvfrom` as a rule and looks at
`running` again only when something has come. From then on anything that anybody
sends ends the thread, and the program with it.

Whether the thread is in `recvfrom` or still before a test of `running` makes a
difference there. So these tests are steps of their own, with the datagram that
the thread comes from. Only behind a datagram that it receives when `running` has
been cleared the test is one step with it, since nothing can change its result.

## Main definitions

* `ReceiverPc`: Where the receiving thread is.
* `Traced`, `Traced.Event`, `Traced.next`: A client with its receiving thread
  and everything that it has sent.
* `foreign`, `without`, `Traced.apart`: A run without the others.
* `Driven`: Only the server drives the client.
* `Heedless`: The step is not driven by anybody else.
* `hears`: What a datagram does once the client is registered.
* `Deaf`: Nothing is received any more.

## Theorems

* `next_cases`: The steps are those of the process.
* `next_apart`: What others have sent does not change what can be done.
* `step_datagram`, `step_own`: What the steps of a client change.
* `driven_answer_iff`, `driven_hears_iff`: What a datagram does to the
  comparison.
* `driven_step`: What a step does to the comparison.
* `driven_iff`: When only the server drives the client.
-/

namespace OsLabs

namespace Udp

open Machine

/-- The receiving thread has been started. -/
def Listener.Phase.registered : Listener.Phase → Bool
  | .prompt | .reading | .left => true
  | _ => false

theorem Listener.registered_of_chatting {phase : Listener.Phase} (h : phase.chatting = true) :
    phase.registered = true := by
  cases phase with
  | prompt | reading => rfl
  | start | waiting | failed | left => exact absurd h Bool.false_ne_true

theorem Listener.registered_of_phase {l : Listener} {phase : Listener.Phase}
    (hphase : l.phase = phase) (hreg : phase.registered = true) : l.phase.registered = true := by
  rw [hphase]
  exact hreg

namespace Process

/-- Where the receiving thread is: about to test `running`, for the first time or
    behind a datagram, or in `recvfrom`. -/
inductive ReceiverPc where
  | testing (behind : Option SockAddr)
  | receiving
  deriving DecidableEq

/-- A client with its receiving thread, and everything that the client has
    sent. -/
structure Traced where
  process : Process
  thread : ReceiverPc
  sent : List Bytes

namespace Traced

/-- The thread finds `running` set, or the client takes a step. -/
inductive Event where
  | test (behind : Option SockAddr)
  | step (e : Process.Event)

/-- The state in which `register_with_server` is called. -/
def init (addr : SockAddr) (name : Bytes) : Traced := ⟨.init addr name, .testing none, []⟩

/-- Where the receiving thread has to be for the step. -/
def allows (s : Traced) : Process.Event → Bool
  | .run (.datagram _ _) | .run .recvError =>
      !s.process.listener.phase.registered || decide (s.thread = .receiving)
  | .leave => decide (s.thread ≠ .receiving)
  | _ => true

/-- Where it is after the step. -/
def threadAfter (s : Traced) : Process.Event → ReceiverPc
  | .run (.datagram src _) =>
      if s.process.listener.phase.registered then .testing (some src) else s.thread
  | _ => s.thread

/-- One step. -/
def next (s : Traced) : Event → Option Traced
  | .test behind =>
      if s.process.listener.phase.registered = true ∧ s.process.listener.running = true ∧
          s.process.gone = false ∧ s.process.stopping = false ∧ s.thread = .testing behind then
        some { s with thread := .receiving }
      else none
  | .step e =>
      if s.allows e then
        (s.process.step e).map fun p => ⟨p.1, s.threadAfter e, s.sent ++ p.2⟩
      else none

end Traced

open Traced

/-- A datagram of another address than the server's, or the test of `running`
    behind one. -/
def foreign (server : SockAddr) : Traced.Event → Bool
  | .step (.run (.datagram src _)) | .test (some src) => decide (src ≠ server)
  | _ => false

/-- The run in which the datagrams of others never arrived. -/
def without (server : SockAddr) (es : List Traced.Event) : List Traced.Event :=
  es.filter fun e => !foreign server e

/-- The thread is busy with a datagram of another address. -/
def ReceiverPc.distracted (server : SockAddr) : ReceiverPc → Bool
  | .testing (some src) => decide (src ≠ server)
  | _ => false

/-- The state in which that datagram has not arrived. -/
def Traced.apart (server : SockAddr) (s : Traced) : Traced :=
  if s.thread.distracted server then { s with thread := .receiving } else s

/-- A probe from the address. -/
def probe (server : SockAddr) : Traced.Event → Bool
  | .step (.run (.datagram src bytes)) =>
      decide (src = server) && strncmpEq (Listener.received bytes) (text "ALIVE")
  | _ => false

/-- Only the server has driven the client along the run: the run without the
    others is the same, but for a datagram of theirs that is being handled, and
    the client has registered, answered and given up with reason. It also stops
    when `main` has ended. -/
structure Driven (addr : SockAddr) (name : Bytes) (server : SockAddr) (es : List Traced.Event)
    (s : Traced) : Prop where
  same : exec next (.init addr name) (without server es) = some (s.apart server)
  registered : s.process.listener.phase.registered = true →
    ∃ bytes, .step (.run (.datagram server bytes)) ∈ es ∧
      strncmpEq (Listener.received bytes) (text "OK:") = true
  pongs : s.process.listener.sent.count .pong ≤ es.countP (probe server)
  running : s.process.listener.running = false →
    .step (.run .recvError) ∈ es ∨ s.process.stopping = true

/-- The step is not driven by others: while the client waits for its
    registration they are silent. Later no datagram is empty and none of theirs
    looks like a probe. When `main` has cleared `running` they are silent again,
    and the thread does not find that behind a datagram of theirs. -/
def Heedless (server : SockAddr) (s : Traced) : Traced.Event → Prop
  | .step (.run (.datagram src bytes)) =>
      (src ≠ server → s.process.listener.phase ≠ .waiting) ∧
        (s.process.listener.phase.registered = true →
          (s.process.stopping = false → bytes ≠ []) ∧
            (src ≠ server → s.process.stopping = false ∧
              ¬ strncmpEq (Listener.received bytes) (text "ALIVE") = true))
  | .step .leave => s.thread.distracted server = false
  | _ => True

/-- The listener after a datagram has been received and `running` was looked at
    again. -/
def hears (p : Process) (bytes : Bytes) : Listener :=
  { p.listener.receive bytes with
    running := (p.listener.receive bytes).running && !p.stopping }

/-- A datagram that changes nothing. -/
theorem hears_eq_self_iff {p : Process} {bytes : Bytes} (hrunning : p.listener.running = true) :
    p.hears bytes = p.listener ↔ p.stopping = false ∧ bytes ≠ [] ∧
      ¬ strncmpEq (Listener.received bytes) (text "ALIVE") = true := by
  cases hstopping : p.stopping with
  | true =>
      refine iff_of_false (fun heq => ?_) fun h => absurd h.1 Bool.noConfusion
      have hsame := congrArg Listener.running heq
      rw [hears, hstopping, hrunning] at hsame
      simp only [Bool.not_true, Bool.and_false, Bool.false_eq_true] at hsame
  | false =>
      rw [← Listener.receive_eq_self_iff hrunning, hears, hstopping]
      simp only [Bool.not_false, Bool.and_true, true_and]

/-- The steps are those of the process, or leave it as it is. -/
theorem next_cases {s s' : Traced} {e : Traced.Event} (h : next s e = some s') :
    (∃ behind, e = .test behind ∧ s.thread = .testing behind ∧
        s' = { s with thread := .receiving }) ∨
      ∃ f p messages, e = .step f ∧ s.allows f = true ∧ s.process.step f = some (p, messages) ∧
        s' = ⟨p, s.threadAfter f, s.sent ++ messages⟩ := by
  cases e with
  | test behind =>
      simp only [next] at h
      split at h
      · rename_i htest
        exact Or.inl ⟨behind, rfl, htest.2.2.2.2, (Option.some.inj h).symm⟩
      · cases h
  | step f =>
      simp only [next] at h
      split at h
      · rename_i hallows
        rcases Option.map_eq_some_iff.mp h with ⟨⟨p, messages⟩, hstep, hs'⟩
        exact Or.inr ⟨f, p, messages, rfl, hallows, hstep, hs'.symm⟩
      · cases h

/-- `main` clears `running` behind its loop only. -/
def Late (p : Process) : Prop := p.stopping = true → p.listener.phase = .left

theorem phase_turned_of_left {p : Process} {e : Listener.Event} {l : Listener}
    (h : Turned p e l) (hleft : p.listener.phase = .left) : l.phase = .left := by
  cases h with
  | hear src bytes => exact (phase_receive _ _).trans hleft
  | fail => exact hleft
  | loops _ _ hstep =>
      -- The loops of the listener have ended.
      exfalso
      cases Listener.step_move hstep with
      | answer _ _ _ hphase | receive _ _ hphase | recvError hphase =>
          rw [hleft] at hphase
          cases hphase
      | register hphase | sendtoError hphase | setsockoptError hphase | unanswered hphase
      | loop hphase | skip _ hphase | send _ _ hphase | quit _ hphase | eof hphase
      | sendError _ hphase =>
          rw [hleft] at hphase
          cases hphase

theorem late_step {p p' : Process} {e : Event} {messages : List Bytes} (hlate : Late p)
    (h : p.step e = some (p', messages)) : Late p' := by
  cases (took_of_step h).2 with
  | run e l hturn => exact fun hstopping => phase_turned_of_left hturn (hlate hstopping)
  | clear hphase => exact fun _ => hphase
  | leave | interrupt | exit => exact hlate

/-- A datagram is the answer to the registration, or a turn of the receiving
    thread's loop. -/
theorem step_datagram {p p' : Process} {src : SockAddr} {bytes : Bytes} {messages : List Bytes}
    (hlate : Late p) (h : p.step (.run (.datagram src bytes)) = some (p', messages)) :
    p' = { p with listener := p'.listener } ∧ messages = news p.listener p'.listener ∧
      ((p.listener.phase = .waiting ∧ p'.listener.phase ≠ .waiting ∧
          p'.listener.sent = p.listener.sent ∧ p'.listener.running = p.listener.running ∧
          (p'.listener.phase.registered = true →
            strncmpEq (Listener.received bytes) (text "OK:") = true)) ∨
        (p.listener.phase.registered = true ∧ p.listener.running = true ∧
          p'.listener = p.hears bytes)) := by
  cases (took_of_step h).2 with
  | run _ l hturn =>
      refine ⟨rfl, rfl, ?_⟩
      dsimp only
      cases hturn with
      | hear _ _ hphase hrunning =>
          -- `main` has left its input loop: the receiving thread answers probes and nothing more.
          exact Or.inr ⟨by rw [hphase]; rfl, hrunning, rfl⟩
      | loops _ _ hstep =>
          cases Listener.step_move hstep with
          -- Before its thread exists the client reads one datagram, the answer to its registration.
          | answer _ _ phase hphase hanswer =>
              refine Or.inl ⟨hphase, ?_⟩
              rcases hanswer with rfl | ⟨rfl, hok⟩
              · exact ⟨Listener.Phase.noConfusion, rfl, rfl, fun hreg => Bool.noConfusion hreg⟩
              · exact ⟨Listener.Phase.noConfusion, rfl, rfl, fun _ => hok⟩
          | receive _ _ hchat hrunning =>
              -- While the input loop goes on `main` has cleared nothing.
              have hstopping : p.stopping = false := by
                rw [← Bool.not_eq_true]
                intro hstopping
                rw [hlate hstopping] at hchat
                cases hchat
              refine Or.inr ⟨Listener.registered_of_chatting hchat, hrunning, ?_⟩
              rw [hears, hstopping]
              simp only [Bool.not_false, Bool.and_true]

/-- The steps of the loops that are no datagram. -/
theorem turned_own {p : Process} {e : Listener.Event} {l : Listener}
    (he : ∀ src bytes, e ≠ .datagram src bytes) (h : Turned p e l) :
    (l.phase.registered = true → p.listener.phase.registered = true) ∧
      l.sent.count .pong = p.listener.sent.count .pong ∧
        (l.running = p.listener.running ∨ e = .recvError) := by
  cases h with
  | hear src bytes => exact absurd rfl (he src bytes)
  | fail => exact ⟨id, rfl, Or.inr rfl⟩
  | loops _ _ hstep =>
      -- None of these turns registers the client or answers a probe.
      cases Listener.step_move hstep with
      | answer src bytes | receive src bytes => exact absurd rfl (he src bytes)
      | register | setsockoptError =>
          exact ⟨fun hreg => absurd hreg Bool.false_ne_true,
            Listener.count_pong_append _ Sending.noConfusion, Or.inl rfl⟩
      | sendtoError | unanswered =>
          exact ⟨fun hreg => absurd hreg Bool.false_ne_true, rfl, Or.inl rfl⟩
      | recvError hchat hrunning => exact ⟨id, rfl, Or.inr rfl⟩
      | loop hphase | skip bytes hphase | eof hphase | sendError bytes hphase =>
          exact ⟨fun _ => Listener.registered_of_phase hphase rfl, rfl, Or.inl rfl⟩
      | send bytes input hphase | quit bytes hphase =>
          exact ⟨fun _ => Listener.registered_of_phase hphase rfl,
            Listener.count_pong_append _ Sending.noConfusion, Or.inl rfl⟩

/-- The steps of a client that are no datagram. -/
theorem step_own {p p' : Process} {e : Event} {messages : List Bytes}
    (he : ∀ src bytes, e ≠ .run (.datagram src bytes)) (h : p.step e = some (p', messages)) :
    (p'.listener.phase.registered = true → p.listener.phase.registered = true) ∧
      p'.listener.sent.count .pong = p.listener.sent.count .pong ∧
        (p'.listener.running = p.listener.running ∨ e = .run .recvError ∨ p.stopping = true) ∧
          (p.stopping = true → p'.stopping = true) := by
  cases (took_of_step h).2 with
  | run e l hturn =>
      -- Only a failed `recvfrom` or the end of `main` stops the receiving thread.
      rcases turned_own (fun src bytes heq => he src bytes (congrArg Event.run heq)) hturn with
        ⟨hreg, hsent, hsame | herror⟩
      · exact ⟨hreg, hsent, Or.inl hsame, id⟩
      · exact ⟨hreg, hsent, Or.inr (Or.inl (congrArg Event.run herror)), id⟩
  | clear hphase => exact ⟨id, rfl, Or.inl rfl, fun _ => rfl⟩
  | leave hstopping => exact ⟨id, rfl, Or.inr (Or.inr hstopping), id⟩
  | interrupt | exit => exact ⟨id, rfl, Or.inl rfl, id⟩

/-- The receiving thread has returned, or never been started. -/
def Deaf (p : Process) : Prop := p.listener.phase = .failed ∨ p.listener.running = false

/-- Nothing brings it back. -/
theorem deaf_turned {p : Process} {e : Listener.Event} {l : Listener} (hdeaf : Deaf p)
    (h : Turned p e l) : l.phase = .failed ∨ l.running = false := by
  cases h with
  | hear src bytes hphase hrunning =>
      -- After the input loop a datagram is read by a running thread only, and this one has stopped.
      rcases hdeaf with hfailed | hstopped
      · rw [hfailed] at hphase
        cases hphase
      · rw [hstopped] at hrunning
        exact absurd hrunning Bool.false_ne_true
  | fail => exact Or.inr rfl
  | loops _ _ hstep =>
      -- In the input loop: a failed registration stays failed.
      cases Listener.step_move hstep with
      | sendtoError | setsockoptError | unanswered => exact Or.inl rfl
      | receive _ _ hchat hrunning | recvError hchat hrunning =>
          rcases hdeaf with hfailed | hstopped
          · rw [hfailed] at hchat
            exact absurd hchat Bool.false_ne_true
          · rw [hstopped] at hrunning
            exact absurd hrunning Bool.false_ne_true
      | register hphase | answer _ _ _ hphase | loop hphase | skip _ hphase | send _ _ hphase
      | quit _ hphase | eof hphase | sendError _ hphase =>
          rcases hdeaf with hfailed | hstopped
          · rw [hfailed] at hphase
            cases hphase
          · exact Or.inr hstopped

theorem deaf_step {p p' : Process} {e : Event} {messages : List Bytes} (hdeaf : Deaf p)
    (h : p.step e = some (p', messages)) : Deaf p' := by
  cases (took_of_step h).2 with
  | run e l hturn => exact deaf_turned hdeaf hturn
  | leave => exact Or.inr rfl
  | clear | interrupt | exit => exact hdeaf

theorem deaf_recvError {p p' : Process} {messages : List Bytes}
    (h : p.step (.run .recvError) = some (p', messages)) : Deaf p' := by
  cases (took_of_step h).2 with
  | run _ l hturn =>
      cases hturn with
      | fail => exact Or.inr rfl
      | loops _ _ hstep =>
          cases Listener.step_move hstep with
          | unanswered hphase => exact Or.inl rfl
          | recvError hchat hrunning => exact Or.inr rfl

/-- What holds of every client along the way. -/
structure Coherent (es : List Traced.Event) (s : Traced) : Prop where
  late : Late s.process
  deaf : .step (.run .recvError) ∈ es → Deaf s.process

theorem coherent_run {addr : SockAddr} {name : Bytes} {es : List Traced.Event} {s : Traced}
    (hrun : exec next (.init addr name) es = some s) : Coherent es s := by
  refine exec_history (I := Coherent) ⟨fun h => Bool.noConfusion h,
    fun h => absurd h List.not_mem_nil⟩ (fun pre u e u' hpre hstep => ?_) hrun
  rcases next_cases hstep with ⟨behind, rfl, _, rfl⟩ | ⟨f, p, messages, rfl, _, hprocess, rfl⟩
  · refine ⟨hpre.late, fun hmem => hpre.deaf ?_⟩
    rcases List.mem_append.mp hmem with hbefore | hnow
    · exact hbefore
    · exact absurd (List.mem_singleton.mp hnow) Traced.Event.noConfusion
  · refine ⟨late_step hpre.late hprocess, fun hmem => ?_⟩
    rcases List.mem_append.mp hmem with hbefore | hnow
    · exact deaf_step (hpre.deaf hbefore) hprocess
    · rw [← Traced.Event.step.inj (List.mem_singleton.mp hnow)] at hprocess
      exact deaf_recvError hprocess

section Comparison

variable {addr : SockAddr} {name : Bytes} {server src : SockAddr} {bytes : Bytes}
  {es : List Traced.Event} {s s' : Traced} {e : Traced.Event} {f : Process.Event}

theorem apart_of_distracted (h : s.thread.distracted server = true) :
    s.apart server = { s with thread := .receiving } := if_pos h

theorem apart_of_attentive (h : s.thread.distracted server = false) : s.apart server = s :=
  if_neg (ne_true_of_eq_false h)

@[simp] theorem process_apart (server : SockAddr) (s : Traced) :
    (s.apart server).process = s.process := by
  unfold Traced.apart
  split <;> rfl

@[simp] theorem sent_apart (server : SockAddr) (s : Traced) : (s.apart server).sent = s.sent := by
  unfold Traced.apart
  split <;> rfl

/-- Once the client is registered a datagram is received by the thread. -/
theorem receiving_of_allows (hreg : s.process.listener.phase.registered = true)
    (h : s.allows (.run (.datagram src bytes)) = true) : s.thread = .receiving := by
  rw [allows, hreg] at h
  exact of_decide_eq_true h

/-- A step that the thread can take it could take without that datagram, except
    that it would not find `running` cleared. -/
theorem allows_apart (hleave : f = .leave → s.thread.distracted server = false)
    (h : s.allows f = true) : (s.apart server).allows f = true := by
  cases hbusy : s.thread.distracted server with
  | false => rwa [apart_of_attentive hbusy]
  | true =>
      rw [apart_of_distracted hbusy]
      unfold allows
      split
      · exact Bool.or_true _
      · exact Bool.or_true _
      · rw [hleave rfl] at hbusy
        exact Bool.noConfusion hbusy
      · rfl

/-- A step that leaves the thread where it is. -/
theorem apart_sameThread (server : SockAddr) (s : Traced) (p : Process) (sent : List Bytes) :
    Traced.apart server ⟨p, s.thread, sent⟩ = ⟨p, (s.apart server).thread, sent⟩ := by
  by_cases hbusy : s.thread.distracted server = true
  · rw [apart_of_distracted hbusy]
    exact apart_of_distracted hbusy
  · rw [Bool.not_eq_true] at hbusy
    rw [apart_of_attentive hbusy]
    exact apart_of_attentive hbusy

/-- The thread goes on from where it is without that datagram. -/
theorem threadAfter_apart (hf : foreign server (.step f) = false) (h : s.allows f = true)
    (p : Process) (sent : List Bytes) :
    Traced.apart server ⟨p, s.threadAfter f, sent⟩ = ⟨p, (s.apart server).threadAfter f, sent⟩ := by
  by_cases hheard : s.process.listener.phase.registered = true ∧ ∃ src bytes,
      f = .run (.datagram src bytes)
  · -- It receives a datagram of the server's, so it was in `recvfrom`.
    rcases hheard with ⟨hreg, src, bytes, rfl⟩
    have hfree : s.thread.distracted server = false := by
      rw [receiving_of_allows hreg h]
      rfl
    rw [apart_of_attentive hfree, threadAfter, if_pos hreg]
    exact apart_of_attentive hf
  · -- Otherwise it stays where it is.
    have hstays : ∀ u : Traced, u.process = s.process → u.threadAfter f = u.thread := by
      intro u hu
      unfold threadAfter
      split
      · rename_i src bytes
        rw [hu, if_neg fun hreg => hheard ⟨hreg, src, bytes, rfl⟩]
      · rfl
    rw [hstays s rfl, hstays (s.apart server) (process_apart server s)]
    exact apart_sameThread server s p sent

/-- What others have sent does not change what can be done. -/
theorem next_apart (he : foreign server e = false)
    (hleave : e = .step .leave → s.thread.distracted server = false) (h : next s e = some s') :
    next (s.apart server) e = some (s'.apart server) := by
  rcases next_cases h with
    ⟨behind, rfl, hthread, rfl⟩ | ⟨f, p, messages, rfl, hallows, hprocess, rfl⟩
  · -- The test is behind nothing, or behind a datagram of the server's.
    have hown : s.thread.distracted server = false := by
      rw [hthread]
      cases behind with
      | none => rfl
      | some src => exact he
    rw [apart_of_attentive hown, apart_of_attentive rfl]
    exact h
  · have hallows' := allows_apart (fun heq => hleave (congrArg Traced.Event.step heq)) hallows
    rw [next, if_pos hallows', process_apart, hprocess, Option.map_some, sent_apart,
      threadAfter_apart he hallows]

theorem without_append_own (he : foreign server e = false) :
    without server (es ++ [e]) = without server es ++ [e] := by
  rw [without, List.filter_append, List.filter_singleton, he]
  rfl

theorem without_append_foreign (he : foreign server e = true) :
    without server (es ++ [e]) = without server es := by
  rw [without, List.filter_append, List.filter_singleton, he]
  exact List.append_nil _

theorem mem_snoc_of_mem {f : Traced.Event} (h : f ∈ es) : f ∈ es ++ [e] :=
  List.mem_append_left _ h

theorem pongs_of_sent (h : Driven addr name server es s)
    (hsent : s'.process.listener.sent.count .pong = s.process.listener.sent.count .pong) :
    s'.process.listener.sent.count .pong ≤ (es ++ [e]).countP (probe server) := by
  rw [hsent, List.countP_append]
  exact le_trans h.pongs (Nat.le_add_right _ _)

/-- The compared run takes a step of the client's own, or a datagram of the
    server's. -/
theorem exec_without_own (h : Driven addr name server es s) (he : foreign server e = false)
    (hleave : e = .step .leave → s.thread.distracted server = false) (hstep : next s e = some s') :
    exec next (.init addr name) (without server (es ++ [e])) = some (s'.apart server) := by
  rw [without_append_own he]
  exact exec_append.mpr ⟨s.apart server, h.same, exec_cons.mpr ⟨s'.apart server,
    next_apart he hleave hstep, rfl⟩⟩

/-- It does not see what others do, which must not make a difference then. -/
theorem exec_without_foreign (h : Driven addr name server es s) (he : foreign server e = true) :
    exec next (.init addr name) (without server (es ++ [e])) = some (s'.apart server) ↔
      s'.apart server = s.apart server := by
  rw [without_append_foreign he, h.same, Option.some.injEq, eq_comm]

/-- The thread comes back to `recvfrom`. -/
theorem driven_test {behind : Option SockAddr} (h : Driven addr name server es s)
    (hstep : next s (.test behind) = some s') :
    Driven addr name server (es ++ [.test behind]) s' := by
  have hsame : exec next (.init addr name) (without server (es ++ [.test behind]))
      = some (s'.apart server) := by
    rcases next_cases hstep with ⟨_, hevent, hthread, rfl⟩ | ⟨_, _, _, hevent, _⟩
    · cases hevent
      by_cases hforeign : foreign server (.test behind) = true
      · -- Behind a datagram of another address it is where it was before.
        rw [exec_without_foreign h hforeign]
        have hbusy : s.thread.distracted server = true := by
          rw [hthread]
          cases behind with
          | none => exact Bool.noConfusion hforeign
          | some src => exact hforeign
        rw [apart_of_distracted hbusy]
        exact apart_of_attentive rfl
      · rw [Bool.not_eq_true] at hforeign
        exact exec_without_own h hforeign (fun heq => Traced.Event.noConfusion heq) hstep
    · cases hevent
  rcases next_cases hstep with ⟨_, _, _, rfl⟩ | ⟨_, _, _, hevent, _⟩
  · refine ⟨hsame, fun hreg => ?_, pongs_of_sent h rfl, fun hstopped => ?_⟩
    · rcases h.registered hreg with ⟨bytes, hmem, hok⟩
      exact ⟨bytes, mem_snoc_of_mem hmem, hok⟩
    · exact (h.running hstopped).imp_left mem_snoc_of_mem
  · cases hevent

/-- A step of the client's own: what the thread is busy with matters only if it
    finds `running` cleared. -/
theorem driven_own_iff (h : Driven addr name server es s)
    (hf : ∀ src bytes, f ≠ .run (.datagram src bytes)) (hstep : next s (.step f) = some s') :
    Driven addr name server (es ++ [.step f]) s' ↔
      (f = .leave → s.thread.distracted server = false) := by
  have hown : foreign server (.step f) = false := by
    unfold foreign
    split
    · rename_i src bytes heq
      exact absurd (Traced.Event.step.inj heq) (hf src bytes)
    · rename_i heq
      cases heq
    · rfl
  constructor
  · -- In the other run it would still be in `recvfrom`, and could not leave.
    rintro hdriven rfl
    rw [← Bool.not_eq_true]
    intro hbusy
    have hexec := hdriven.same
    rw [without_append_own hown] at hexec
    rcases exec_append.mp hexec with ⟨u, hu, hlast⟩
    rw [h.same, Option.some.injEq] at hu
    rw [← hu, apart_of_distracted hbusy] at hlast
    rcases exec_cons.mp hlast with ⟨_, hleave, _⟩
    cases hleave
  · intro hleave
    have hsame := exec_without_own h hown (fun heq => hleave (Traced.Event.step.inj heq)) hstep
    -- A step of the client: each of the three facts is kept by `step_own`.
    rcases next_cases hstep with ⟨_, hevent, _⟩ | ⟨_, p, messages, hevent, _, hprocess, rfl⟩
    · cases hevent
    · cases hevent
      rcases step_own hf hprocess with ⟨hreg, hsent, hrunning, hstopping⟩
      refine ⟨hsame, fun hreg' => ?_, pongs_of_sent h hsent, fun hstopped => ?_⟩
      · rcases h.registered (hreg hreg') with ⟨bytes, hmem, hok⟩
        exact ⟨bytes, mem_snoc_of_mem hmem, hok⟩
      · rcases hrunning with hkept | rfl | hstopped'
        · exact (h.running (hkept ▸ hstopped)).imp mem_snoc_of_mem hstopping
        · exact Or.inl (List.mem_append_right _ List.mem_cons_self)
        · exact Or.inr (hstopping hstopped')

/-- What another address sends is not in the run that is compared with. -/
theorem apart_eq_of_driven_foreign (h : Driven addr name server es s) (hne : src ≠ server)
    (hdriven : Driven addr name server (es ++ [.step (.run (.datagram src bytes))]) s') :
    s'.apart server = s.apart server := by
  have hforeign : foreign server (.step (.run (.datagram src bytes))) = true := decide_eq_true hne
  exact (exec_without_foreign h hforeign).mp hdriven.same

/-- The compared run goes on the same way if the server has sent the datagram,
    or if it changes nothing else. -/
theorem exec_without_datagram (h : Driven addr name server es s)
    (hstep : next s (.step (.run (.datagram src bytes))) = some s')
    (hcase : src = server ∨ s'.apart server = s.apart server) :
    exec next (.init addr name) (without server (es ++ [.step (.run (.datagram src bytes))]))
      = some (s'.apart server) := by
  by_cases heq : src = server
  · have hown : foreign server (.step (.run (.datagram src bytes))) = false :=
      decide_eq_false (not_not.mpr heq)
    exact exec_without_own h hown (fun hevent => by cases hevent) hstep
  · have hforeign : foreign server (.step (.run (.datagram src bytes))) = true :=
      decide_eq_true heq
    exact (exec_without_foreign h hforeign).mpr (hcase.resolve_left heq)

/-- The answer to the registration: only the server drives the client if it is
    the server's. -/
theorem driven_answer_iff (h : Driven addr name server es s)
    (hstep : next s (.step (.run (.datagram src bytes))) = some s')
    (hwaiting : s.process.listener.phase = .waiting)
    (hphase : s'.process.listener.phase ≠ .waiting)
    (hsent : s'.process.listener.sent = s.process.listener.sent)
    (hrunning : s'.process.listener.running = s.process.listener.running)
    (hstopping : s'.process.stopping = s.process.stopping)
    (hok : s'.process.listener.phase.registered = true →
      strncmpEq (Listener.received bytes) (text "OK:") = true) :
    Driven addr name server (es ++ [.step (.run (.datagram src bytes))]) s' ↔ src = server := by
  constructor
  · intro hdriven
    by_contra hne
    have hprocess := congrArg Traced.process (apart_eq_of_driven_foreign h hne hdriven)
    rw [process_apart, process_apart] at hprocess
    rw [hprocess] at hphase
    exact hphase hwaiting
  · intro heq
    refine ⟨exec_without_datagram h hstep (Or.inl heq), fun hreg => ⟨bytes, ?_, hok hreg⟩,
      pongs_of_sent h (by rw [hsent]), fun hstopped => ?_⟩
    · rw [heq]
      exact List.mem_append_right _ List.mem_cons_self
    · rw [hrunning] at hstopped
      rw [hstopping]
      exact (h.running hstopped).imp_left mem_snoc_of_mem

/-- A thread that is still listening has had no receive error. -/
theorem not_recvError (hrun : exec next (.init addr name) es = some s)
    (hreg : s.process.listener.phase.registered = true)
    (hrunning : s.process.listener.running = true) : .step (.run .recvError) ∉ es := by
  intro hmem
  rcases (coherent_run hrun).deaf hmem with hfailed | hstopped
  · rw [hfailed] at hreg
    exact absurd hreg Bool.false_ne_true
  · rw [hstopped] at hrunning
    exact absurd hrunning Bool.false_ne_true

/-- A probe is answered once. -/
theorem count_pong_receive_le (l : Listener) (bytes : Bytes) :
    (l.receive bytes).sent.count .pong ≤ l.sent.count .pong
      + if strncmpEq (Listener.received bytes) (text "ALIVE") = true then 1 else 0 := by
  unfold Listener.receive
  by_cases hempty : bytes = []
  · rw [if_pos hempty]
    exact Nat.le_add_right _ _
  · rw [if_neg hempty]
    by_cases halive : strncmpEq (Listener.received bytes) (text "ALIVE") = true
    · rw [if_pos halive, if_pos halive, List.count_append, List.count_singleton_self]
    · rw [if_neg halive]
      exact Nat.le_add_right _ _

theorem running_receive (l : Listener) (hne : bytes ≠ []) :
    (l.receive bytes).running = l.running := by
  unfold Listener.receive
  rw [if_neg hne]
  split <;> rfl

/-- The client after a datagram that the receiving thread has read. -/
def heard (s : Traced) (src : SockAddr) (bytes : Bytes) : Traced where
  process := { s.process with listener := s.process.hears bytes }
  thread := .testing (some src)
  sent := s.sent ++ news s.process.listener (s.process.hears bytes)

/-- Another's datagram makes no difference but that the thread is busy with it. -/
theorem apart_heard_iff (hne : src ≠ server) (hthread : s.thread = .receiving)
    (hrunning : s.process.listener.running = true) :
    (heard s src bytes).apart server = s.apart server ↔ s.process.stopping = false ∧ bytes ≠ [] ∧
      ¬ strncmpEq (Listener.received bytes) (text "ALIVE") = true := by
  have hfree : s.thread.distracted server = false := by
    rw [hthread]
    rfl
  rw [← hears_eq_self_iff hrunning, apart_of_attentive hfree]
  constructor
  · intro heq
    have hprocess := congrArg (fun u : Traced => u.process.listener) heq
    rwa [process_apart] at hprocess
  · intro heq
    have hbusy : (heard s src bytes).thread.distracted server = true := decide_eq_true hne
    rw [apart_of_distracted hbusy, heard, heq, ← hthread]
    simp only [news, List.drop_length, List.map_nil, List.append_nil]

/-- A datagram that the receiving thread reads: others must not change anything,
    and nobody may make it give up. -/
theorem driven_hears_iff (hrun : exec next (.init addr name) es = some s)
    (h : Driven addr name server es s)
    (hstep : next s (.step (.run (.datagram src bytes))) = some s')
    (hreg : s.process.listener.phase.registered = true)
    (hrunning : s.process.listener.running = true) (hthread : s.thread = .receiving)
    (hs' : s' = heard s src bytes) :
    Driven addr name server (es ++ [.step (.run (.datagram src bytes))]) s' ↔
      (s.process.stopping = false → bytes ≠ []) ∧
        (src ≠ server → s.process.stopping = false ∧
          ¬ strncmpEq (Listener.received bytes) (text "ALIVE") = true) := by
  rcases h.registered hreg with ⟨answer, hmem, hok⟩
  constructor
  · intro hdriven
    refine ⟨fun hgoing hempty => ?_, fun hne => ?_⟩
    · -- It takes the empty datagram for an error, and there was none.
      have hstopped : s'.process.listener.running = false := by
        simp only [hs', heard, hears, Listener.receive, hempty, if_true, Bool.false_and]
      rcases hdriven.running hstopped with hmem | hstopping
      · rcases List.mem_append.mp hmem with hbefore | hnow
        · exact not_recvError hrun hreg hrunning hbefore
        · exact absurd (List.mem_singleton.mp hnow) (by simp only [Traced.Event.step.injEq,
            Event.run.injEq, reduceCtorEq, not_false_eq_true])
      · rw [hs'] at hstopping
        exact absurd (hgoing.symm.trans hstopping) Bool.false_ne_true
    -- The run without the datagram took no step: hearing it has changed nothing.
    · have hself := apart_eq_of_driven_foreign h hne hdriven
      rw [hs'] at hself
      rcases (apart_heard_iff hne hthread hrunning).mp hself with ⟨hgoing, _, halive⟩
      exact ⟨hgoing, halive⟩
  -- From the server it is in both runs, from another it changes nothing.
  · rintro ⟨hempty, hforeign⟩
    have hcase : src = server ∨ s'.apart server = s.apart server := by
      by_cases heq : src = server
      · exact Or.inl heq
      · rcases hforeign heq with ⟨hgoing, halive⟩
        rw [hs']
        exact Or.inr ((apart_heard_iff heq hthread hrunning).mpr ⟨hgoing, hempty hgoing, halive⟩)
    refine ⟨exec_without_datagram h hstep hcase,
      fun _ => ⟨answer, mem_snoc_of_mem hmem, hok⟩, ?_, fun hstopped => ?_⟩
    -- A probe of the server's is one more that may be answered.
    · rcases hcase with hown | hself
      · have hprobe : probe server (.step (.run (.datagram src bytes)))
            = strncmpEq (Listener.received bytes) (text "ALIVE") := by
          rw [probe, decide_eq_true hown, Bool.true_and]
        rw [List.countP_append, List.countP_singleton, hprobe, hs']
        exact le_trans (count_pong_receive_le s.process.listener bytes)
          (Nat.add_le_add_right h.pongs _)
      · have hprocess := congrArg Traced.process hself
        rw [process_apart, process_apart] at hprocess
        exact pongs_of_sent h (by rw [hprocess])
    · -- It goes on unless `main` has ended.
      rw [hs'] at hstopped ⊢
      right
      change s.process.stopping = true
      by_contra hgoing
      rw [Bool.not_eq_true] at hgoing
      simp only [heard, hears, running_receive _ (hempty hgoing), hrunning, hgoing, Bool.not_false,
        Bool.and_true, Bool.true_eq_false] at hstopped

/-- A datagram: only the server drives the client exactly if it is heedless of
    the others. -/
theorem driven_datagram_iff (hrun : exec next (.init addr name) es = some s)
    (h : Driven addr name server es s)
    (hstep : next s (.step (.run (.datagram src bytes))) = some s') :
    Driven addr name server (es ++ [.step (.run (.datagram src bytes))]) s' ↔
      Heedless server s (.step (.run (.datagram src bytes))) := by
  rcases next_cases hstep with ⟨_, hevent, _⟩ | ⟨f, p, messages, hevent, hallows, hprocess, hs'⟩
  · cases hevent
  · cases hevent
    rcases step_datagram (coherent_run hrun).late hprocess with ⟨hp, hmessages, hcases⟩
    -- It is the answer to the registration, or it is heard by the receiving thread.
    rcases hcases with ⟨hwaiting, hphase, hsent, hrunning, hok⟩ | ⟨hreg, hrunning, hlistener⟩
    · have hnoreg : ¬ s.process.listener.phase.registered = true := by
        rw [hwaiting]
        exact Bool.false_ne_true
      have hstopping : s'.process.stopping = s.process.stopping := by rw [hs', hp]
      rw [driven_answer_iff h hstep hwaiting (by rw [hs']; exact hphase) (by rw [hs']; exact hsent)
        (by rw [hs']; exact hrunning) hstopping (by rw [hs']; exact hok)]
      -- The answer of another is what the client takes for the server's.
      constructor
      · exact fun heq => ⟨fun hne => absurd heq hne, fun hreg => absurd hreg hnoreg⟩
      · intro hheedless
        by_contra hne
        exact hheedless.1 hne hwaiting
    · have hnowait : s.process.listener.phase ≠ .waiting := by
        intro hwaiting
        rw [hwaiting] at hreg
        exact absurd hreg Bool.false_ne_true
      have hheard : s' = heard s src bytes := by
        rw [hs', hmessages, hp, hlistener, threadAfter, if_pos hreg]
        rfl
      rw [driven_hears_iff hrun h hstep hreg hrunning (receiving_of_allows hreg hallows) hheard]
      constructor
      · exact fun hboth => ⟨fun _ => hnowait, fun _ => hboth⟩
      · exact fun hheedless => hheedless.2 hreg

theorem driven_step (hrun : exec next (.init addr name) es = some s)
    (h : Driven addr name server es s) (hstep : next s e = some s') :
    Driven addr name server (es ++ [e]) s' ↔ Heedless server s e := by
  cases e with
  | test behind => exact iff_of_true (driven_test h hstep) trivial
  | step f =>
      by_cases hdatagram : ∃ src bytes, f = .run (.datagram src bytes)
      · rcases hdatagram with ⟨src, bytes, rfl⟩
        exact driven_datagram_iff hrun h hstep
      · have hother : ∀ src bytes, f ≠ .run (.datagram src bytes) :=
          fun src bytes heq => hdatagram ⟨src, bytes, heq⟩
        rw [driven_own_iff h hother hstep]
        unfold Heedless
        split
        · rename_i src bytes heq
          exact absurd (Traced.Event.step.inj heq) (hother src bytes)
        · rename_i heq
          cases heq
          exact ⟨fun hfree => hfree rfl, fun hfree _ => hfree⟩
        · rename_i _ hleave
          exact iff_of_true (fun heq => absurd (congrArg Traced.Event.step heq) hleave) trivial

theorem driven_init (addr : SockAddr) (name : Bytes) (server : SockAddr) :
    Driven addr name server [] (.init addr name) where
  same := rfl
  registered := fun h => absurd h Bool.false_ne_true
  pongs := Nat.le_refl _
  running := fun h => absurd h.symm Bool.false_ne_true

end Comparison

/-- Along a run only the server drives the client exactly if every step is
    heedless of the others. -/
theorem driven_iff (addr : SockAddr) (name : Bytes) (server : SockAddr) {es : List Traced.Event}
    {s : Traced} (hrun : exec next (.init addr name) es = some s) :
    (∀ pre u, pre <+: es → exec next (.init addr name) pre = some u →
      Driven addr name server pre u) ↔ Meets next (Heedless server) (.init addr name) es :=
  prefixes_iff_meets (driven_init addr name server) (fun _ _ _ _ => driven_step) hrun

instance (server : SockAddr) (s : Traced) (e : Traced.Event) : Decidable (Heedless server s e) := by
  unfold Heedless
  split <;> infer_instance

/-- The server answers and probes, and somebody else talks. The user ends the
    input, and the thread answers once more before it leaves. -/
def talkRun : List Traced.Event :=
  [.step (.run .register), .step (.run (.datagram ⟨9, 9⟩ (text "OK: Zarejestrowano pomyslnie"))),
    .test none, .step (.run .loop), .step (.run (.datagram ⟨6, 6⟩ (text "OK: hej"))),
    .test (some ⟨6, 6⟩), .step (.run (.datagram ⟨9, 9⟩ (text "ALIVE"))), .test (some ⟨9, 9⟩),
    .step (.run .eof), .step (.run (.datagram ⟨6, 6⟩ (text "hej"))), .test (some ⟨6, 6⟩),
    .step .clear, .step (.run (.datagram ⟨9, 9⟩ (text "ALIVE"))), .step .exit]

theorem driven_while_talking : ∃ s, exec next (.init ⟨5, 5⟩ (text "ala")) talkRun = some s ∧
    s.process.gone = true ∧ s.sent = [text "REGISTER ala", text "PING", text "PING"] ∧
      Driven ⟨5, 5⟩ (text "ala") ⟨9, 9⟩ talkRun s := by
  have hend : (exec next (.init ⟨5, 5⟩ (text "ala")) talkRun).any (fun s =>
      decide (s.process.gone = true ∧
        s.sent = [text "REGISTER ala", text "PING", text "PING"])) = true := by
    decide +kernel
  rcases exists_of_exec_any hend with ⟨s, hrun, hs⟩
  rcases of_decide_eq_true hs with ⟨hgone, hsent⟩
  have hC : Meets next (Heedless ⟨9, 9⟩) (.init ⟨5, 5⟩ (text "ala")) talkRun := by decide +kernel
  exact ⟨s, hrun, hgone, hsent, (driven_iff ⟨5, 5⟩ (text "ala") ⟨9, 9⟩ hrun).mpr hC talkRun s
    (List.prefix_refl _) hrun⟩

/-- Somebody else answers the registration. -/
def forgedRun : List Traced.Event :=
  [.step (.run .register), .step (.run (.datagram ⟨6, 6⟩ (text "OK: witaj")))]

/-- The client reports its registration, and its server has said nothing. -/
theorem driven_by_another : ∃ s, exec next (.init ⟨5, 5⟩ (text "ala")) forgedRun = some s ∧
    s.process.listener.phase.registered = true ∧
      ¬ Driven ⟨5, 5⟩ (text "ala") ⟨9, 9⟩ forgedRun s := by
  have hend : (exec next (.init ⟨5, 5⟩ (text "ala")) forgedRun).any (fun s =>
      s.process.listener.phase.registered) = true := by
    decide +kernel
  rcases exists_of_exec_any hend with ⟨s, hrun, hreg⟩
  refine ⟨s, hrun, hreg, fun hdriven => ?_⟩
  rcases hdriven.registered hreg with ⟨bytes, hmem, _⟩
  simp only [forgedRun, List.mem_cons, List.not_mem_nil, or_false, reduceCtorEq, false_or,
    Traced.Event.step.injEq, Event.run.injEq, Listener.Event.datagram.injEq] at hmem
  exact absurd hmem.1 (by decide)

end Process

end Udp

end OsLabs
