import OsLabs.Library.Machine

/-!
# Handing a Value over in a Message Queue

`Funkcje/KolKom POSIX`: one program sends a number to the queue with a fixed
name, the other receives it. Either of them creates the queue if there is none
of that name, and either removes the name when it is done. The receiver waits
for a second before it starts, which delays it and promises nothing.

The name and the queue are two things. A queue that has lost its name stays for
those who have it open, and whoever opens the name then makes a new queue. So
the two programs meet in one queue if the receiver opens the name while it is
there, or before the sender does, and after that the order of the other calls
does not matter. If the sender has removed the name first, its queue is gone
with the number, and the receiver waits on a queue of its own for good.

Left out are the failures of the calls other than blocking, and the printing.

## Main definitions

* `Os`, `mqOpen`, `mqSend`, `mqReceive`, `mqClose`, `mqUnlink`: The system.
* `State`, `step`: The two programs.
* `HandedOver`: The receiver gets the number and is not left waiting.
* `OpensInTime`: The receiver opens before the sender removes the name.

## Theorems

* `sharing_step`: The two are in one queue.
* `handedOver_of_sharing`: What they have from that.
* `handed_over_iff`: When the number is handed over.
-/

namespace OsLabs

namespace Mqueue

open Machine

section System

/-- A queue, with the number of its open descriptors. -/
structure Queue where
  messages : List Int
  descriptors : Nat

/-- All queues there have been, by number, and which of them has the name. -/
structure Os where
  named : Option Nat
  queues : List (Option Queue)

/-- A queue is written back, unless nobody can reach it any more. -/
def Os.put (os : Os) (mq : Nat) (q : Queue) : Os where
  named := os.named
  queues := os.queues.set mq
    (if q.descriptors = 0 ∧ os.named ≠ some mq then none else some q)

/-- The queue of a descriptor, if it is still there. -/
def Os.queue (os : Os) (mq : Nat) : Option Queue := (os.queues[mq]?).join

/-- `mq_open` with `O_CREAT`, and the queue opened. -/
def mqOpen (os : Os) : Os × Nat :=
  match os.named with
  | some mq =>
      match os.queue mq with
      | some q => (os.put mq { q with descriptors := q.descriptors + 1 }, mq)
      | none => (os, mq)
  | none => (⟨some os.queues.length, os.queues ++ [some ⟨[], 1⟩]⟩, os.queues.length)

/-- `mq_maxmsg` -/
def maxmsg : Nat := 10

/-- `mq_send`, which waits while the queue is full. -/
def mqSend (os : Os) (mq : Nat) (val : Int) : Option Os :=
  match os.queue mq with
  | some q =>
      if q.messages.length < maxmsg then
        some (os.put mq { q with messages := q.messages ++ [val] })
      else none
  | none => none

/-- `mq_receive`, which waits while the queue is empty. -/
def mqReceive (os : Os) (mq : Nat) : Option (Int × Os) :=
  match os.queue mq with
  | some ⟨val :: rest, n⟩ => some (val, os.put mq ⟨rest, n⟩)
  | _ => none

/-- `mq_close` -/
def mqClose (os : Os) (mq : Nat) : Os :=
  match os.queue mq with
  | some q => os.put mq { q with descriptors := q.descriptors - 1 }
  | none => os

/-- `mq_unlink`. It fails if the name is not there, which is not looked at. -/
def mqUnlink (os : Os) : Os :=
  match os.named with
  | some mq =>
      match os.queue mq with
      | some q => Os.put ⟨none, os.queues⟩ mq q
      | none => ⟨none, os.queues⟩
  | none => os

end System

section Programs

/-- The next call of the sender. -/
inductive SenderCall where
  | mqOpen
  | mqSend
  | mqClose
  | mqUnlink
  | finished
  deriving DecidableEq

/-- The next call of the receiver. -/
inductive ReceiverCall where
  | mqOpen
  | mqReceive
  | mqClose
  | mqUnlink
  | finished
  deriving DecidableEq

/-- The system and the variables of the two programs: `mq` of each, and `val`
    of the receiver once it is set. -/
structure State where
  os : Os
  sender : SenderCall
  senderMq : Nat
  receiver : ReceiverCall
  receiverMq : Nat
  val : Option Int

/-- There is no queue of the name. -/
def init : State := ⟨⟨none, []⟩, .mqOpen, 0, .mqOpen, 0, none⟩

/-- `main` of the sender, started with the number `v`. -/
def senderStep (v : Int) (s : State) : Option State :=
  match s.sender with
  | .mqOpen =>
      some { s with os := (mqOpen s.os).1, senderMq := (mqOpen s.os).2, sender := .mqSend }
  | .mqSend => (mqSend s.os s.senderMq v).map fun os => { s with os, sender := .mqClose }
  | .mqClose => some { s with os := mqClose s.os s.senderMq, sender := .mqUnlink }
  | .mqUnlink => some { s with os := mqUnlink s.os, sender := .finished }
  | .finished => none

/-- `main` of the receiver. -/
def receiverStep (s : State) : Option State :=
  match s.receiver with
  | .mqOpen =>
      some { s with os := (mqOpen s.os).1, receiverMq := (mqOpen s.os).2, receiver := .mqReceive }
  | .mqReceive => (mqReceive s.os s.receiverMq).map fun r =>
      { s with os := r.2, val := some r.1, receiver := .mqClose }
  | .mqClose => some { s with os := mqClose s.os s.receiverMq, receiver := .mqUnlink }
  | .mqUnlink => some { s with os := mqUnlink s.os, receiver := .finished }
  | .finished => none

inductive Event where
  | sender
  | receiver
  deriving DecidableEq

/-- A call of one of the two. -/
def step (v : Int) (s : State) : Event → Option State
  | .sender => senderStep v s
  | .receiver => receiverStep s

/-- The receiver is in `mq_receive`, and the queue is empty. -/
def Blocked (s : State) : Prop := s.receiver = .mqReceive ∧ mqReceive s.os s.receiverMq = none

/-- What is received is the number, the receiver does not wait in vain, and
    when there is nothing left to do it has the number. -/
structure HandedOver (v : Int) (s : State) : Prop where
  value : ∀ x, s.val = some x → x = v
  served : s.sender = .finished → ¬ Blocked s
  obtained : (∀ e, step v s e = none) → s.val = some v

/-- If this is the `mq_open` of the receiver, the sender has not been through
    its `mq_unlink`. -/
def OpensInTime (s : State) (e : Event) : Prop :=
  e = .receiver → s.receiver = .mqOpen → s.sender ≠ .finished

instance decidableOpensInTime (s : State) (e : Event) : Decidable (OpensInTime s e) :=
  inferInstanceAs (Decidable (_ → _ → _))

end Programs

section Sharing

variable {v : Int} {s s' : State} {e : Event}

/-- How many descriptors the sender has open. -/
def SenderCall.descriptors : SenderCall → Nat
  | .mqSend | .mqClose => 1
  | .mqOpen | .mqUnlink | .finished => 0

def ReceiverCall.descriptors : ReceiverCall → Nat
  | .mqReceive | .mqClose => 1
  | .mqOpen | .mqUnlink | .finished => 0

def SenderCall.sent : SenderCall → Bool
  | .mqOpen | .mqSend => false
  | .mqClose | .mqUnlink | .finished => true

def ReceiverCall.received : ReceiverCall → Bool
  | .mqOpen | .mqReceive => false
  | .mqClose | .mqUnlink | .finished => true

/-- The one queue, from where the two programs are. -/
def shared (v : Int) (a : SenderCall) (b : ReceiverCall) : Queue where
  messages := if a.sent ∧ ¬ b.received then [v] else []
  descriptors := a.descriptors + b.descriptors

/-- Who has the name. -/
def sharedName (a : SenderCall) (b : ReceiverCall) : Option Nat :=
  if a = .finished ∨ b = .finished then none else some 0

/-- The system with that queue only. -/
def sharedOs (v : Int) (a : SenderCall) (b : ReceiverCall) : Os :=
  if a = .mqOpen ∧ b = .mqOpen then ⟨none, []⟩
  else ⟨sharedName a b, [if (shared v a b).descriptors = 0 ∧ sharedName a b = none then none
    else some (shared v a b)]⟩

/-- The state in which the two are in one queue, from where they are. -/
def together (v : Int) (a : SenderCall) (b : ReceiverCall) : State where
  os := sharedOs v a b
  sender := a
  senderMq := 0
  receiver := b
  receiverMq := 0
  val := if b.received then some v else none

/-- The two are in one queue, and nothing was received before it was sent. -/
def Sharing (v : Int) (s : State) : Prop :=
  ∃ a b, s = together v a b ∧ (b.received → a.sent)

theorem sharing_init : Sharing v init := ⟨.mqOpen, .mqOpen, rfl, id⟩

def SenderCall.next : SenderCall → SenderCall
  | .mqOpen => .mqSend
  | .mqSend => .mqClose
  | .mqClose => .mqUnlink
  | .mqUnlink | .finished => .finished

def ReceiverCall.next : ReceiverCall → ReceiverCall
  | .mqOpen => .mqReceive
  | .mqReceive => .mqClose
  | .mqClose => .mqUnlink
  | .mqUnlink | .finished => .finished

/-- The sender goes on to its next call, and the queue stays the same one. -/
theorem senderStep_together {a : SenderCall} {b : ReceiverCall} (horder : b.received → a.sent)
    (ha : a ≠ .finished) : senderStep v (together v a b) = some (together v a.next b) := by
  cases a with
  | mqOpen | mqSend =>
      cases b with
      | mqOpen | mqReceive => rfl
      -- It has not sent the number yet, so nobody has received it.
      | mqClose | mqUnlink | finished => cases horder rfl
  | mqClose | mqUnlink => cases b <;> rfl
  | finished => exact absurd rfl ha

/-- So does the receiver, if it opens the name in time and there is a number. -/
theorem receiverStep_together {a : SenderCall} {b : ReceiverCall}
    (hname : b = .mqOpen → a ≠ .finished) (horder : b.next.received → a.sent)
    (hb : b ≠ .finished) : receiverStep (together v a b) = some (together v a b.next) := by
  cases b with
  | mqOpen =>
      cases a with
      | mqOpen | mqSend | mqClose | mqUnlink => rfl
      | finished => exact absurd rfl (hname rfl)
  | mqReceive | mqClose | mqUnlink =>
      cases a with
      | mqOpen | mqSend => cases horder rfl
      | mqClose | mqUnlink | finished => rfl
  | finished => exact absurd rfl hb

/-- Before the number is sent the receiver waits. -/
theorem receiverStep_early {a : SenderCall} (ha : a.sent = false) :
    receiverStep (together v a .mqReceive) = none := by
  cases a with
  | mqOpen | mqSend => rfl
  | mqClose | mqUnlink | finished => cases ha

theorem sent_next {a : SenderCall} (h : a.sent) : a.next.sent := by
  cases a with
  | mqOpen | mqSend => cases h
  | mqClose | mqUnlink | finished => rfl

/-- As long as the receiver opens in time, the two are in one queue. -/
theorem sharing_step (h : Sharing v s) (hC : OpensInTime s e) (hstep : step v s e = some s') :
    Sharing v s' := by
  rcases h with ⟨a, b, rfl, horder⟩
  -- By the program that takes the step; one that has finished takes none.
  cases e with
  | sender =>
      by_cases ha : a = .finished
      · subst ha
        cases hstep
      -- What the sender has sent stays sent.
      · rw [step, senderStep_together horder ha, Option.some.injEq] at hstep
        exact ⟨a.next, b, hstep.symm, fun hb => sent_next (horder hb)⟩
  | receiver =>
      by_cases hb : b = .finished
      · subst hb
        cases hstep
      -- A call of the receiver that reads needs the message to be there.
      · by_cases hsent : b.next.received → a.sent
        · have hname : b = .mqOpen → a ≠ .finished := hC rfl
          rw [step, receiverStep_together hname hsent hb, Option.some.injEq] at hstep
          exact ⟨a, b.next, hstep.symm, hsent⟩
        · -- The one call that cannot go on is that of the empty queue.
          rw [Classical.not_imp, Bool.not_eq_true] at hsent
          cases b with
          | mqOpen => cases hsent.1
          | mqReceive => rw [step, receiverStep_early hsent.2] at hstep; cases hstep
          | mqClose | mqUnlink | finished =>
              rw [horder rfl] at hsent
              cases hsent.2

/-- In one queue the number is not lost. -/
theorem handedOver_of_sharing (h : Sharing v s) : HandedOver v s := by
  rcases h with ⟨a, b, rfl, horder⟩
  refine ⟨fun x hx => ?_, fun hfinished hblocked => ?_, fun hstuck => ?_⟩
  · change (if b.received then some v else none) = some x at hx
    split at hx
    · exact (Option.some.inj hx).symm
    · cases hx
  · change a = .finished at hfinished
    subst hfinished
    have hb : b = .mqReceive := hblocked.1
    subst hb
    cases hblocked.2
  · by_cases ha : a = .finished
    · subst ha
      cases b with
      | mqOpen | mqReceive | mqClose | mqUnlink => cases hstuck .receiver
      | finished => rfl
    · have hsender := hstuck .sender
      rw [step, senderStep_together horder ha] at hsender
      cases hsender

/-- When the name is removed before the receiver opens it, the receiver is left
    waiting. -/
theorem opensInTime_of_handedOver (h : Sharing v s) (hstep : step v s e = some s')
    (hhanded : HandedOver v s') : OpensInTime s e := by
  rcases h with ⟨a, b, rfl, _⟩
  intro he hb ha
  change b = .mqOpen at hb
  change a = .finished at ha
  subst he hb ha
  rw [← Option.some.inj hstep] at hhanded
  exact hhanded.served rfl ⟨rfl, rfl⟩

end Sharing

section Run

variable {v : Int}

/-- The calls that are left. -/
def SenderCall.left : SenderCall → Nat
  | .mqOpen => 4
  | .mqSend => 3
  | .mqClose => 2
  | .mqUnlink => 1
  | .finished => 0

def ReceiverCall.left : ReceiverCall → Nat
  | .mqOpen => 4
  | .mqReceive => 3
  | .mqClose => 2
  | .mqUnlink => 1
  | .finished => 0

/-- Whatever the queue holds, the sender goes on to its next call. -/
theorem sender_of_step {s s' : State} (h : senderStep v s = some s') :
    s'.sender.left < s.sender.left ∧ s'.receiver = s.receiver := by
  unfold senderStep at h
  cases hcall : s.sender with
  | mqSend =>
      simp only [hcall] at h
      rcases Option.map_eq_some_iff.mp h with ⟨os, _, rfl⟩
      exact ⟨Nat.lt_succ_self 2, rfl⟩
  | mqOpen | mqClose | mqUnlink =>
      simp only [hcall, Option.some.injEq] at h
      rw [← h]
      exact ⟨Nat.lt_succ_self _, rfl⟩
  | finished =>
      simp only [hcall] at h
      cases h

theorem receiver_of_step {s s' : State} (h : receiverStep s = some s') :
    s'.receiver.left < s.receiver.left ∧ s'.sender = s.sender := by
  unfold receiverStep at h
  cases hcall : s.receiver with
  | mqReceive =>
      simp only [hcall] at h
      rcases Option.map_eq_some_iff.mp h with ⟨r, _, rfl⟩
      exact ⟨Nat.lt_succ_self 2, rfl⟩
  | mqOpen | mqClose | mqUnlink =>
      simp only [hcall, Option.some.injEq] at h
      rw [← h]
      exact ⟨Nat.lt_succ_self _, rfl⟩
  | finished =>
      simp only [hcall] at h
      cases h

theorem left_lt (s : State) (e : Event) (s' : State) (hstep : step v s e = some s') :
    s'.sender.left + s'.receiver.left < s.sender.left + s.receiver.left := by
  cases e with
  | sender =>
      rcases sender_of_step hstep with ⟨hless, hsame⟩
      rw [hsame]
      omega
  | receiver =>
      rcases receiver_of_step hstep with ⟨hless, hsame⟩
      rw [hsame]
      omega

/-- Every run comes to its end, and the number is handed over along exactly
    those in which the receiver opens in time. -/
theorem handed_over_iff {es : List Event} {t : State} (hrun : exec (step v) init es = some t) :
    es.length ≤ 8 ∧
      (Always (step v) (HandedOver v) init es ↔ Meets (step v) OpensInTime init es) := by
  constructor
  · have hlength := exec_length_le left_lt hrun
    exact Nat.le_trans (Nat.le_add_left _ _) hlength
  · exact always_iff_meets_of_good (G := Sharing v) (fun s => handedOver_of_sharing)
      (fun s e s' => sharing_step) (fun s e s' h hstep => opensInTime_of_handedOver h hstep)
      sharing_init hrun

/-- The receiver opens the name while the sender is about to send, and both go
    on to their end. -/
theorem handed_over_usual : ∃ t, exec (step 22) init
    [.sender, .receiver, .sender, .receiver, .sender, .sender, .receiver, .receiver] = some t ∧
      Always (step 22) (HandedOver 22) init
        [.sender, .receiver, .sender, .receiver, .sender, .sender, .receiver, .receiver] :=
  ⟨_, rfl, (handed_over_iff rfl).2.mpr (by decide)⟩

/-- The sender is done before the receiver starts. -/
theorem waits_for_ever : ∃ t, exec (step 22) init [.sender, .sender, .sender, .sender, .receiver]
    = some t ∧ ¬ HandedOver 22 t :=
  ⟨_, rfl, fun h => h.served rfl ⟨rfl, rfl⟩⟩

end Run

end Mqueue

end OsLabs
