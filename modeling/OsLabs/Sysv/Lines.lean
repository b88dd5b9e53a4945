import OsLabs.Library.Machine
import OsLabs.Sysv.Server

/-!
# What a Typed Line Does

A request for an id and a typed line are one kind of message. The server
tells them apart by the first four bytes of the text, which for a line are
whatever the user typed. So a line that begins with `INIT` is a request: it
asks for the queue with key zero, which is to create one, and an entry of the
registry is gone for a queue that nobody reads. If the registry is full it is
dropped, and nobody gets it.

The machine has two kinds of senders. A process that starts puts its request
into the server's queue; once it is accepted, its user can type lines under
the id it was given. Which queue `msgget` finds for a key is left open, but
for key zero it does not fail.

The state keeps the turns of the server's loop. What is asked of a run is
that every line went to everybody else and left the registry alone, and that
the registry counts the processes that were accepted. This holds exactly as
long as no line begins with `INIT` when the server receives it.

## Main definitions

* `Pending`: A message in the server's queue, with who sent it.
* `Turn`: A turn of the server's loop, for the record.
* `Chat`: The state: the registry, the server's queue and the record.
* `Chat.step`: Somebody sends, or the server receives.
* `Broadcasting`: Lines are broadcast, and the registry counts processes.
* `Plain`: The server does not receive a line that begins with `INIT`.

## Theorems

* `move_of_step`: Only the server's turns matter.
* `settled_iff`: A turn is in order exactly if the message is plain.
* `broadcasting_iff`: Runs of plain lines are the ones that are in order.
-/

namespace OsLabs

namespace Sysv

open Machine Server

/-- A message that waits in the server's queue, with who sent it. -/
inductive Pending where
  | request (pid : Nat) (key : Key)
  | line (clientId : Int) (input : Bytes)
  deriving DecidableEq

namespace Pending

def message : Pending → Message
  | request pid key => initMessage pid key
  | line clientId input => lineMessage clientId input

/-- No line, or one that does not begin with `INIT`. -/
def isPlain : Pending → Bool
  | request _ _ => true
  | line _ input => !strncmpEq (cstr input) initWord

theorem isInit_request (pid : Nat) (key : Key) : (request pid key).message.isInit = true := by
  have hinit : strncmpEq initWord initWord = true := by decide
  exact hinit

theorem isInit_line (clientId : Int) (input : Bytes) :
    (line clientId input).message.isInit = !(line clientId input).isPlain :=
  (Bool.not_not _).symm

end Pending

/-- A turn of the server's loop. -/
structure Turn where
  pending : Pending
  before : Server
  after : Server
  sends : List (QueueId × Response)

/-- The id that a process was given in a turn, if it was accepted. -/
def Turn.member (t : Turn) : Option Int :=
  match t.pending with
  | .request _ _ => t.sends.head?.map fun x => x.2.clientId
  | .line _ _ => none

/-- A line went to everybody in the registry but the one who typed it, and
    left the registry alone. -/
def Turn.Broadcasts (t : Turn) : Prop :=
  ∀ clientId input, t.pending = .line clientId input → t.after = t.before ∧
    ∀ x, x ∈ t.sends ↔ ∃ i, (t.before.clients i).active = true ∧
      (t.before.clients i).clientId ≠ clientId ∧
      x = ((t.before.clients i).queueId, chatResponse clientId (cstr input))

structure Chat where
  server : Server
  inbox : List Pending
  turns : List Turn

namespace Chat

def init : Chat := ⟨Server.init, [], []⟩

/-- The ids of the processes that were accepted. -/
def members (c : Chat) : List Int := c.turns.filterMap Turn.member

/-- The turn in which the server receives a message. -/
def turn (c : Chat) (opened : Option QueueId) (x : Pending) : Turn where
  pending := x
  before := c.server
  after := (c.server.receive opened x.message).1
  sends := (c.server.receive opened x.message).2

inductive Event where
  | request (pid : Nat) (key : Key)
  | line (clientId : Int) (input : Bytes)
  | serve (opened : Option QueueId)

def step (c : Chat) : Event → Option Chat
  | .request pid key => some { c with inbox := c.inbox ++ [.request pid key] }
  | .line clientId input =>
      -- `fgets` reads less than `MAX_TEXT` bytes.
      if clientId ∈ c.members ∧ input.length < maxText then
        some { c with inbox := c.inbox ++ [.line clientId input] }
      else none
  | .serve opened =>
      match c.inbox with
      | [] => none
      | x :: rest =>
          if x.message.clientQueueKey = ipcPrivate ∧ opened = none then none
          else some ⟨(c.turn opened x).after, rest, c.turns ++ [c.turn opened x]⟩

/-- Lines are broadcast, and the registry counts the processes accepted. -/
structure Broadcasting (c : Chat) : Prop where
  count : c.server.clientCount = c.members.length
  lines : ∀ t ∈ c.turns, t.Broadcasts

/-- The server does not receive a line that begins with `INIT`. -/
def Plain (c : Chat) : Event → Prop
  | .serve _ => ∀ x ∈ c.inbox.head?, x.isPlain = true
  | _ => True

instance decidablePlain (c : Chat) : ∀ e, Decidable (Plain c e)
  | .serve _ => inferInstanceAs (Decidable (∀ x ∈ c.inbox.head?, x.isPlain = true))
  | .request _ _ => isTrue trivial
  | .line _ _ => isTrue trivial

/-- Only the server's turns change the registry and the record. -/
inductive Move (c c' : Chat) (e : Event) : Prop where
  | queued (hplain : Plain c e) (hserver : c'.server = c.server) (hturns : c'.turns = c.turns)
  | served (opened : Option QueueId) (x : Pending) (hserve : e = .serve opened)
      (hhead : c.inbox.head? = some x)
      (hopened : ¬ (x.message.clientQueueKey = ipcPrivate ∧ opened = none))
      (hserver : c'.server = (c.turn opened x).after)
      (hturns : c'.turns = c.turns ++ [c.turn opened x])

theorem move_of_step {c c' : Chat} {e : Event} (h : step c e = some c') : Move c c' e := by
  cases e with
  | request pid key =>
      simp only [step, Option.some.injEq] at h
      exact .queued trivial (by rw [← h]) (by rw [← h])
  | line clientId input =>
      simp only [step, Option.ite_none_right_eq_some, Option.some.injEq] at h
      exact .queued trivial (by rw [← h.2]) (by rw [← h.2])
  | serve opened =>
      cases hinbox : c.inbox with
      | nil =>
          simp only [step, hinbox] at h
          exact absurd h (by simp only [reduceCtorEq, not_false_eq_true])
      | cons x rest =>
          simp only [step, hinbox, Option.ite_none_left_eq_some, Option.some.injEq] at h
          exact .served opened x rfl (by rw [hinbox]; rfl) h.1 (by rw [← h.2]) (by rw [← h.2])

theorem members_concat {c c' : Chat} {t : Turn} (h : c'.turns = c.turns ++ [t]) :
    c'.members = c.members ++ t.member.toList := by
  unfold members
  rw [h, List.filterMap_append, List.filterMap_cons]
  cases t.member with
  | none => rfl
  | some i => rfl

/-- Of two entries, one is not that of the sender. -/
theorem exists_other {s : Server} (h : Filled s) (hfull : ¬ s.clientCount < maxClients)
    (clientId : Int) : ∃ i, (s.clients i).active = true ∧ (s.clients i).clientId ≠ clientId := by
  have hmax : maxClients = 10 := rfl
  have hin : ∀ i : Fin maxClients, i.val < s.clientCount := fun i => by omega
  have hactive : ∀ i, (s.clients i).active = true := fun i => (h.active i).mpr (hin i)
  -- The registry is full, so it has a second entry.
  by_cases hfirst : (s.clients ⟨0, by decide⟩).clientId = clientId
  · refine ⟨⟨1, by decide⟩, hactive _, fun hsecond => ?_⟩
    have hsame := h.id_inj (hactive _) (hactive _) (hfirst.trans hsecond.symm)
    exact absurd hsame (by decide)
  · exact ⟨_, hactive _, hfirst⟩

/-- A turn is in order: it counts the process it accepts, and broadcasts. -/
def Settled (c : Chat) (t : Turn) : Prop :=
  t.after.clientCount = c.server.clientCount + t.member.toList.length ∧ t.Broadcasts

theorem settled_request (c : Chat) (opened : Option QueueId) (pid : Nat) (key : Key) :
    Settled c (c.turn opened (.request pid key)) := by
  have hinit := Pending.isInit_request pid key
  have hmember : (c.turn opened (.request pid key)).member
      = (c.turn opened (.request pid key)).sends.head?.map fun x => x.2.clientId := rfl
  refine ⟨?_, fun clientId input hline => Pending.noConfusion hline⟩
  rw [hmember]
  cases receive_cases c.server opened (Pending.request pid key).message with
  | chat hchat => exact Bool.noConfusion (hchat.symm.trans hinit)
  -- A request that is passed over makes no member, and sends nothing.
  | full hinit hfull hserver hsends =>
      unfold turn
      rw [hserver, hsends]
      rfl
  | unopened hinit hroom hopened hserver hsends =>
      unfold turn
      rw [hserver, hsends]
      rfl
  -- One that is granted makes one member, and sends one answer.
  | registered hinit hroom queueId hopened hserver hsends =>
      unfold turn
      rw [hserver, hsends]
      rfl

/-- A line is in order exactly if it does not begin with `INIT`. -/
theorem settled_line_iff {c : Chat} (hfilled : Filled c.server) {opened : Option QueueId}
    {clientId : Int} {input : Bytes} (hopened : opened ≠ none) :
    Settled c (c.turn opened (.line clientId input)) ↔
      (Pending.line clientId input).isPlain = true := by
  have hiff := Pending.isInit_line clientId input
  constructor
  · -- Taken for a request, the line either is dropped or is counted.
    rintro ⟨hcount, hlines⟩
    rcases hlines clientId input rfl with ⟨hafter, hsent⟩
    unfold turn at hcount hafter hsent
    cases receive_cases c.server opened (Pending.line clientId input).message with
    | chat hchat =>
        rw [hiff, Bool.not_eq_false'] at hchat
        exact hchat
    | full hinit hfull hserver hsends =>
        -- There is somebody who does not get the line.
        rcases exists_other hfilled hfull clientId with ⟨i, hactive, hne⟩
        have hmem := (hsent _).mpr ⟨i, hactive, hne, rfl⟩
        rw [hsends] at hmem
        exact absurd hmem List.not_mem_nil
    | unopened hinit hroom hnone => exact absurd hnone hopened
    -- Registered, the line has made one entry more.
    | registered hinit hroom queueId hsome hserver hsends =>
        have hgrown : (c.server.register ⟨c.server.clientCount, hroom⟩ queueId).clientCount
            = c.server.clientCount + 1 := rfl
        rw [hserver, hgrown] at hcount
        exact absurd hcount (Nat.succ_ne_self _)
  · -- A plain line can only take the last branch of the loop.
    intro hplain
    rw [hplain] at hiff
    cases receive_cases c.server opened (Pending.line clientId input).message with
    | chat hchat hserver hsends =>
        refine ⟨congrArg Server.clientCount hserver, fun sender typed hline => ⟨hserver, ?_⟩⟩
        cases hline
        intro x
        unfold turn
        rw [hsends]
        exact mem_broadcastMessage
    | full hinit => exact Bool.noConfusion (hiff.symm.trans hinit)
    | unopened hinit => exact Bool.noConfusion (hiff.symm.trans hinit)
    | registered hinit => exact Bool.noConfusion (hiff.symm.trans hinit)

/-- A turn is in order exactly if the message is plain. -/
theorem settled_iff {c : Chat} (hfilled : Filled c.server) {opened : Option QueueId} {x : Pending}
    (hopened : ¬ (x.message.clientQueueKey = ipcPrivate ∧ opened = none)) :
    Settled c (c.turn opened x) ↔ x.isPlain = true := by
  cases x with
  | request pid key => exact iff_of_true (settled_request c opened pid key) rfl
  | line clientId input => exact settled_line_iff hfilled fun hnone => hopened ⟨rfl, hnone⟩

theorem broadcasting_step_iff {c c' : Chat} {e : Event} (hfilled : Filled c.server)
    (h : Broadcasting c) (hstep : step c e = some c') : Broadcasting c' ↔ Plain c e := by
  cases move_of_step hstep with
  | queued hplain hserver hturns =>
      -- What only waits has not been received.
      have hmembers : c'.members = c.members := congrArg (List.filterMap Turn.member) hturns
      refine iff_of_true ⟨?_, ?_⟩ hplain
      · rw [hserver, hmembers]
        exact h.count
      · rw [hturns]
        exact h.lines
  | served opened x hserve hhead hopened hserver hturns =>
      -- One turn more, so all depends on whether this one is in order.
      have hmembers := members_concat hturns
      have hplain : Plain c e ↔ x.isPlain = true := by
        rw [hserve]
        unfold Plain
        rw [hhead]
        simp only [Option.mem_def, Option.some.injEq, forall_eq']
      rw [hplain, ← settled_iff hfilled hopened]
      constructor
      · intro h'
        refine ⟨?_, h'.lines _ (by rw [hturns]; exact List.mem_append_right _ List.mem_cons_self)⟩
        have hcount := h'.count
        rwa [hserver, hmembers, List.length_append, ← h.count] at hcount
      · rintro ⟨hcount, hlines⟩
        refine ⟨?_, ?_⟩
        · rw [hserver, hmembers, List.length_append, ← h.count]
          exact hcount
        · rw [hturns]
          intro t ht
          rcases List.mem_append.mp ht with hold | hnew
          · exact h.lines t hold
          · rwa [List.mem_singleton.mp hnew]

theorem filled_step {c c' : Chat} {e : Event} (h : Filled c.server)
    (hstep : step c e = some c') : Filled c'.server := by
  cases move_of_step hstep with
  | queued hplain hserver hturns => rwa [hserver]
  | served opened x hserve hhead hopened hserver hturns =>
      rw [hserver]
      exact filled_receive h opened x.message

theorem broadcasting_init : Broadcasting init where
  count := rfl
  lines := fun _ ht => absurd ht List.not_mem_nil

/-- In every run, every line is broadcast and the registry counts the
    processes exactly if no line that the server receives begins with
    `INIT`. -/
theorem broadcasting_iff (es : List Event) (c : Chat) (hrun : exec step init es = some c) :
    Always step Broadcasting init es ↔ Meets step Plain init es :=
  always_iff_meets (fun _ _ _ hs hstep => filled_step hs hstep)
    (fun _ _ _ hs hP hstep => broadcasting_step_iff hs hP hstep) filled_init broadcasting_init hrun

/-- Two processes are accepted, and the first types a line. -/
def lineRun (input : Bytes) : List Event :=
  [.request 1000 11, .request 1001 12, .serve (some 7), .serve (some 8),
    .line 1 input, .serve (some 9)]

theorem hello_broadcast : Always step Broadcasting init (lineRun (text "hello\n")) := by
  have hend : (exec step init (lineRun (text "hello\n"))).isSome = true := by decide
  rcases Option.isSome_iff_exists.mp hend with ⟨c, hrun⟩
  exact (broadcasting_iff (lineRun (text "hello\n")) c hrun).mpr (by decide)

/-- The line is taken for the request of a third process. -/
theorem line_registered :
    ¬ ∀ c, Reaches step init c → c.server.clientCount = c.members.length := by
  intro hall
  have hend : (exec step init (lineRun (text "INITially\n"))).any (fun c =>
      decide (c.server.clientCount = 3 ∧ c.members = [1, 2])) = true := by
    decide
  rcases exists_of_exec_any hend with ⟨c, hrun, hc⟩
  rcases of_decide_eq_true hc with ⟨hcount, hmembers⟩
  have heq := hall c ⟨lineRun (text "INITially\n"), hrun⟩
  rw [hcount, hmembers] at heq
  exact absurd heq (by decide)

end Chat

end Sysv

end OsLabs
