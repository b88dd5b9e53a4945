import OsLabs.Sysv.Server
import Mathlib.Data.List.Nodup

/-!
# One Order for Everyone

The server reads one queue and answers each message before it reads the next,
so the order in which it reads is the order in which everybody gets what they
get. A client's queue holds the response with its id and then, for each chat
message read after that, one response, unless the message was its own.

This is a statement about queues, and the server knows them by what `msgget`
returned for the key of a request. It never asks whether two requests named
the same queue. If two did, that queue gets two ids, and everything twice; so
the statement holds of a run exactly if the queues of the accepted requests
are different.

A run is the list of the messages the server receives, each with what
`msgget` returns for it, should it be called. All calls succeed.

## Main definitions

* `serve`, `run`: The server on a list of messages.
* `putInto`: What was put into one queue.
* `accepted`: The queues of the requests that were accepted.
* `Registration`: The place in the run where a client was registered.
* `Ordered`: Every client gets its id first and then all others in order.

## Theorems

* `kept_run`: The registry lists the accepted queues, and nothing else is
  sent to.
* `putInto_broadcast`: A broadcast puts at most one response into a queue.
* `responses_received`: What a message adds to the queue of a client.
* `responses_run`: What the queue of a client got in a run.
* `ordered_iff`: Runs are ordered exactly for different queues.
-/

namespace OsLabs

namespace Sysv

open Server

/-- A message, and what `msgget` returns for it. -/
abbrev Input := Message × QueueId

/-- One turn of the server's loop, with the responses sent so far. -/
def serve (s : Server × List (QueueId × Response)) (x : Input) :
    Server × List (QueueId × Response) :=
  ((s.1.receive (some x.2) x.1).1, s.2 ++ (s.1.receive (some x.2) x.1).2)

/-- The server on a list of messages. -/
def run (inputs : List Input) : Server × List (QueueId × Response) :=
  inputs.foldl serve (Server.init, [])

/-- The responses that were put into a queue, in order. -/
def putInto (q : QueueId) (sends : List (QueueId × Response)) : List Response :=
  (sends.filter fun x => x.1 == q).map Prod.snd

/-- The queues of the requests that were accepted, in order. -/
def accepted (inputs : List Input) : List QueueId :=
  ((inputs.filter fun x => x.1.isInit).map Prod.snd).take maxClients

/-- The request `x` is the one that client `i` was registered for, counted
    from zero. -/
structure Registration (inputs pre : List Input) (x : Input) (post : List Input)
    (i : Fin maxClients) : Prop where
  split : inputs = pre ++ x :: post
  init : x.1.isInit = true
  index : (accepted pre).length = i

/-- The responses to the chat messages of others than the senders named. -/
def chats (senders : List Int) (inputs : List Input) : List Response :=
  (inputs.filter fun x => !x.1.isInit && decide (x.1.pid ∉ senders)).map fun x =>
    chatResponse x.1.pid x.1.text

/-- Every client gets its id first and then, in the order in which the server
    received them, the messages of the others. -/
structure Ordered (inputs : List Input) : Prop where
  entry : ∀ pre x post i, Registration inputs pre x post i →
    (run inputs).1.clients i = ⟨i + 1, x.2, true⟩
  responses : ∀ pre x post i, Registration inputs pre x post i →
    putInto x.2 (run inputs).2 = idResponse (i + 1) :: chats [i + 1] post
  /-- No two entries have one id. -/
  ids : ∀ i j, ((run inputs).1.clients i).active = true → ((run inputs).1.clients j).active = true →
    ((run inputs).1.clients i).clientId = ((run inputs).1.clients j).clientId → i = j
  /-- Nobody gets a message of its own. -/
  own : ∀ pre x post i, Registration inputs pre x post i →
    ∀ r ∈ (putInto x.2 (run inputs).2).tail, r.clientId ≠ i + 1
  /-- What two clients both get they get in one order. -/
  sameOrder : ∀ pre x mid y post i j, Registration inputs pre x (mid ++ y :: post) i →
    Registration inputs (pre ++ x :: mid) y post j →
      (chats [i + 1, j + 1] post).Sublist (putInto x.2 (run inputs).2) ∧
      (chats [i + 1, j + 1] post).Sublist (putInto y.2 (run inputs).2)

theorem run_concat (inputs : List Input) (x : Input) :
    run (inputs ++ [x]) = serve (run inputs) x := by
  unfold run
  rw [List.foldl_append]
  rfl

theorem server_concat (inputs : List Input) (x : Input) :
    (run (inputs ++ [x])).1 = ((run inputs).1.receive (some x.2) x.1).1 := by
  rw [run_concat]
  rfl

theorem sends_concat (inputs : List Input) (x : Input) :
    (run (inputs ++ [x])).2 = (run inputs).2 ++ ((run inputs).1.receive (some x.2) x.1).2 := by
  rw [run_concat]
  rfl

theorem putInto_append (q : QueueId) (xs ys : List (QueueId × Response)) :
    putInto q (xs ++ ys) = putInto q xs ++ putInto q ys := by
  unfold putInto
  rw [List.filter_append, List.map_append]

theorem putInto_self (q : QueueId) (r : Response) : putInto q [(q, r)] = [r] := by
  unfold putInto
  rw [List.filter_cons, if_pos BEq.rfl, List.filter_nil, List.map_singleton]

/-- Nothing is put into a queue that is not sent to. -/
theorem putInto_eq_nil {q : QueueId} {sends : List (QueueId × Response)}
    (h : ∀ x ∈ sends, x.1 ≠ q) : putInto q sends = [] := by
  unfold putInto
  rw [List.map_eq_nil_iff, List.filter_eq_nil_iff]
  intro x hx
  rw [beq_iff_eq]
  exact h x hx

theorem accepted_length_le (inputs : List Input) : (accepted inputs).length ≤ maxClients := by
  unfold accepted
  exact List.length_take_le _ _

theorem accepted_chat {inputs : List Input} {x : Input} (hchat : x.1.isInit = false) :
    accepted (inputs ++ [x]) = accepted inputs := by
  unfold accepted
  rw [List.filter_append, List.filter_cons_of_neg (by rw [hchat]; exact Bool.false_ne_true),
    List.filter_nil, List.append_nil]

theorem accepted_init {inputs : List Input} {x : Input} (hinit : x.1.isInit = true) :
    accepted (inputs ++ [x]) = (accepted inputs ++ [x.2]).take maxClients := by
  have hlast : [x].filter (fun y => y.1.isInit) = [x] := by
    rw [List.filter_cons, if_pos hinit, List.filter_nil]
  unfold accepted
  rw [List.filter_append, hlast, List.map_append, List.map_singleton, List.take_append,
    List.take_append, List.take_take, min_self, List.length_take]
  congr 2
  omega

theorem accepted_room {inputs : List Input} {x : Input} (hinit : x.1.isInit = true)
    (hroom : (accepted inputs).length < maxClients) :
    accepted (inputs ++ [x]) = accepted inputs ++ [x.2] := by
  rw [accepted_init hinit, List.take_of_length_le]
  rw [List.length_append, List.length_singleton]
  exact hroom

theorem accepted_full {inputs : List Input} {x : Input} (hinit : x.1.isInit = true)
    (hfull : ¬ (accepted inputs).length < maxClients) :
    accepted (inputs ++ [x]) = accepted inputs := by
  have hlen : (accepted inputs).length = maxClients :=
    le_antisymm (accepted_length_le inputs) (Nat.not_lt.mp hfull)
  rw [accepted_init hinit, List.take_append_of_le_length (le_of_eq hlen.symm),
    List.take_of_length_le (le_of_eq hlen)]

/-- Requests only add to the accepted queues. -/
theorem accepted_grows (pre post : List Input) : accepted pre <+: accepted (pre ++ post) := by
  unfold accepted
  rw [List.filter_append, List.map_append]
  exact (List.prefix_append _ _).take maxClients

theorem Registration.accepted_eq {inputs pre post : List Input} {x : Input} {i : Fin maxClients}
    (h : Registration inputs pre x post i) : (accepted inputs)[i.val]? = some x.2 := by
  have hroom : (accepted pre).length < maxClients := by
    rw [h.index]
    exact i.isLt
  have hsplit : inputs = (pre ++ [x]) ++ post := by
    rw [h.split, List.append_assoc, List.singleton_append]
  have hprefix := accepted_grows (pre ++ [x]) post
  rw [← hsplit, accepted_room h.init hroom] at hprefix
  rcases hprefix with ⟨rest, hrest⟩
  rw [← hrest, List.append_assoc, ← h.index, List.getElem?_append_right (le_refl _), Nat.sub_self]
  rfl

/-- Every accepted queue is that of some request. -/
theorem exists_registration {inputs : List Input} {i : Fin maxClients} {q : QueueId}
    (h : (accepted inputs)[i.val]? = some q) :
    ∃ pre x post, Registration inputs pre x post i ∧ x.2 = q := by
  induction inputs using List.reverseRecOn with
  | nil =>
      have hnil : accepted ([] : List Input) = [] := rfl
      rw [hnil] at h
      exact absurd h (by simp only [List.getElem?_nil, reduceCtorEq, not_false_eq_true])
  | append_singleton inputs z ih =>
      have hold : (accepted inputs)[i.val]? = some q →
          ∃ pre x post, Registration (inputs ++ [z]) pre x post i ∧ x.2 = q := by
        intro hq
        rcases ih hq with ⟨pre, x, post, hreg, hx⟩
        refine ⟨pre, x, post ++ [z], ⟨?_, hreg.init, hreg.index⟩, hx⟩
        rw [hreg.split, List.append_assoc, List.cons_append]
      by_cases hinit : z.1.isInit = true
      · by_cases hroom : (accepted inputs).length < maxClients
        · rw [accepted_room hinit hroom] at h
          by_cases hlt : i.val < (accepted inputs).length
          · rw [List.getElem?_append_left hlt] at h
            exact hold h
          · rw [List.getElem?_append_right (Nat.not_lt.mp hlt)] at h
            -- The last one accepted is the request just read.
            have hlast : i.val - (accepted inputs).length = 0 := by
              have hbound := (List.getElem?_eq_some_iff.mp h).1
              rw [List.length_singleton] at hbound
              omega
            rw [hlast] at h
            refine ⟨inputs, z, [], ⟨rfl, hinit, by omega⟩, ?_⟩
            exact Option.some.inj h
        · rw [accepted_full hinit hroom] at h
          exact hold h
      · rw [accepted_chat (Bool.eq_false_of_not_eq_true hinit)] at h
        exact hold h

/-- The registry lists the accepted queues, and nobody else is sent to. -/
structure Kept (inputs : List Input) : Prop where
  filled : Filled (run inputs).1
  count : (run inputs).1.clientCount = (accepted inputs).length
  queues : ∀ i : Fin maxClients, i.val < (accepted inputs).length →
    (accepted inputs)[i.val]? = some ((run inputs).1.clients i).queueId
  sends : ∀ x ∈ (run inputs).2, x.1 ∈ accepted inputs

/-- A message that adds no entry. -/
theorem kept_same {inputs : List Input} {z : Input} (h : Kept inputs)
    (hsame : ((run inputs).1.receive (some z.2) z.1).1 = (run inputs).1)
    (haccepted : accepted (inputs ++ [z]) = accepted inputs)
    (hsent : ∀ x ∈ ((run inputs).1.receive (some z.2) z.1).2, x.1 ∈ accepted inputs) :
    Kept (inputs ++ [z]) := by
  have hserver : (run (inputs ++ [z])).1 = (run inputs).1 := (server_concat inputs z).trans hsame
  refine ⟨?_, ?_, ?_, fun x hx => ?_⟩
  -- The registry and the queues accepted are those of before.
  · rw [hserver]
    exact h.filled
  · rw [hserver, haccepted]
    exact h.count
  · rw [hserver, haccepted]
    exact h.queues
  · rw [sends_concat] at hx
    rw [haccepted]
    rcases List.mem_append.mp hx with hold | hnew
    · exact h.sends x hold
    · exact hsent x hnew

/-- An entry is added: it is the last, and its queue is the last accepted. -/
theorem kept_registered {inputs : List Input} {z : Input} (h : Kept inputs)
    (hinit : z.1.isInit = true) (hroom : (run inputs).1.clientCount < maxClients)
    (hnew : ((run inputs).1.receive (some z.2) z.1).1
      = (run inputs).1.register ⟨(run inputs).1.clientCount, hroom⟩ z.2)
    (hsent : ((run inputs).1.receive (some z.2) z.1).2
      = [(z.2, idResponse ((run inputs).1.clientCount + 1))]) : Kept (inputs ++ [z]) := by
  have hserver := (server_concat inputs z).trans hnew
  have hroom' : (accepted inputs).length < maxClients := by
    rw [← h.count]
    exact hroom
  have haccepted := accepted_room hinit hroom'
  refine ⟨?_, ?_, fun i hi => ?_, fun x hx => ?_⟩
  · rw [server_concat]
    exact filled_receive h.filled (some z.2) z.1
  · rw [hserver, haccepted, List.length_append, List.length_singleton, ← h.count]
    rfl
  · rw [haccepted, List.length_append, List.length_singleton] at hi
    rw [hserver, haccepted]
    -- The new entry is the last one, and its queue the last accepted.
    by_cases hlast : i.val = (run inputs).1.clientCount
    · have hi' : i = ⟨(run inputs).1.clientCount, hroom⟩ := Fin.ext hlast
      have hget : (accepted inputs ++ [z.2])[(run inputs).1.clientCount]? = some z.2 := by
        rw [h.count, List.getElem?_concat_length]
      rw [hi', register_self]
      exact hget
    · have hlt : i.val < (accepted inputs).length := by
        rw [h.count] at hlast
        omega
      rw [register_of_ne _ _ (fun heq => hlast (congrArg Fin.val heq)),
        List.getElem?_append_left hlt]
      exact h.queues i hlt
  -- What was sent goes to the queue just accepted.
  · rw [sends_concat, hsent] at hx
    rw [haccepted]
    rcases List.mem_append.mp hx with hold | hlast
    · exact List.mem_append_left _ (h.sends x hold)
    · rw [List.mem_singleton.mp hlast]
      exact List.mem_append_right _ List.mem_cons_self

/-- A message that is read. -/
theorem kept_step {inputs : List Input} (z : Input) (h : Kept inputs) : Kept (inputs ++ [z]) := by
  cases receive_cases (run inputs).1 (some z.2) z.1 with
  | chat hchat hsame hsent =>
      -- A chat message goes to queues in the registry.
      refine kept_same h hsame (accepted_chat hchat) fun x hx => ?_
      rw [hsent] at hx
      rcases mem_broadcastMessage.mp hx with ⟨i, hactive, _, heq⟩
      have hi : i.val < (accepted inputs).length := by
        rw [← h.count]
        exact (h.filled.active i).mp hactive
      rw [heq]
      exact List.mem_of_getElem? (h.queues i hi)
  -- Without room nothing is sent, and nothing accepted.
  | full hinit hfull hsame hsent =>
      rw [h.count] at hfull
      refine kept_same h hsame (accepted_full hinit hfull) fun x hx => ?_
      rw [hsent] at hx
      exact absurd hx List.not_mem_nil
  -- The queue that comes with a message is there.
  | unopened hinit hroom hopened =>
      exact absurd hopened (by simp only [reduceCtorEq, not_false_eq_true])
  | registered hinit hroom queueId hopened hnew hsent =>
      rw [← Option.some.inj hopened] at hnew hsent
      exact kept_registered h hinit hroom hnew hsent

theorem kept_run (inputs : List Input) : Kept inputs := by
  induction inputs using List.reverseRecOn with
  | nil =>
      refine ⟨filled_init, rfl, fun i hi => absurd hi (Nat.not_lt_zero _), fun x hx => ?_⟩
      exact absurd hx List.not_mem_nil
  | append_singleton inputs z ih => exact kept_step z ih

/-- A broadcast puts at most one response into a queue that is in one entry
    only. -/
theorem putInto_broadcast {s : Server} (hfilled : Filled s) {i : Fin maxClients}
    (hi : (s.clients i).active = true)
    (halone : ∀ j, (s.clients j).active = true → (s.clients j).queueId = (s.clients i).queueId →
      j = i) (senderId : Int) (msg : Bytes) :
    putInto (s.clients i).queueId (s.broadcastMessage senderId msg)
      = if senderId ∉ [(i.val + 1 : Int)] then [chatResponse senderId msg] else [] := by
  have hid : (s.clients i).clientId = i.val + 1 := hfilled.ids i ((hfilled.active i).mp hi)
  unfold putInto broadcastMessage
  rw [List.filter_filterMap, List.map_filterMap]
  -- No other entry puts anything into this queue.
  rw [filterMap_finRange_single (i := i)]
  -- The sender's own entry is passed over.
  · by_cases hself : senderId = i.val + 1
    · have hnot : ¬ ((s.clients i).active = true ∧ (s.clients i).clientId ≠ senderId) := by
        rw [hid, hself]
        exact fun h => h.2 rfl
      rw [if_neg hnot, if_neg (by rw [hself]; exact not_not_intro List.mem_cons_self)]
      rfl
    · have hyes : (s.clients i).active = true ∧ (s.clients i).clientId ≠ senderId :=
        ⟨hi, by rw [hid]; exact Ne.symm hself⟩
      rw [if_pos hyes, if_pos (by rwa [List.mem_singleton])]
      simp only [Option.filter_some, beq_self_eq_true, if_true, Option.map_some, Option.toList_some]
  -- Another entry has another queue, or is passed over.
  · intro j hj
    by_cases hactive : (s.clients j).active = true ∧ (s.clients j).clientId ≠ senderId
    · have hne : (s.clients j).queueId ≠ (s.clients i).queueId := fun h => hj (halone j hactive.1 h)
      rw [if_pos hactive]
      simp only [Option.filter_some, beq_eq_false_iff_ne.mpr hne, Bool.false_eq_true, if_false,
        Option.map_none]
    · rw [if_neg hactive]
      rfl

theorem chats_chat {senders : List Int} {inputs : List Input} {x : Input}
    (hchat : x.1.isInit = false) :
    chats senders (inputs ++ [x]) = chats senders inputs ++
      if x.1.pid ∉ senders then [chatResponse x.1.pid x.1.text] else [] := by
  unfold chats
  rw [List.filter_append, List.map_append, List.filter_cons, hchat]
  by_cases hown : x.1.pid ∉ senders
  · rw [if_pos hown, if_pos (by simp only [hown, not_false_eq_true, decide_true, Bool.not_false,
      Bool.and_self])]
    rfl
  · rw [if_neg hown, if_neg (by simp only [hown, decide_false, Bool.and_false, Bool.false_eq_true,
      not_false_eq_true])]
    rfl

theorem chats_init {senders : List Int} {inputs : List Input} {x : Input}
    (hinit : x.1.isInit = true) : chats senders (inputs ++ [x]) = chats senders inputs := by
  unfold chats
  rw [List.filter_append, List.filter_cons, hinit, List.filter_nil]
  exact congrArg _ (List.append_nil _)

/-- Fewer messages and more senders make fewer responses. -/
theorem chats_sublist {senders senders' : List Int} {inputs inputs' : List Input}
    (hinputs : inputs'.Sublist inputs) (hsenders : senders ⊆ senders') :
    (chats senders' inputs').Sublist (chats senders inputs) := by
  unfold chats
  refine (List.Sublist.trans ?_ (hinputs.filter _)).map _
  -- Who is not among more senders is not among fewer.
  refine List.monotone_filter_right inputs' fun x hx => ?_
  rw [Bool.and_eq_true, decide_eq_true_eq] at hx ⊢
  exact ⟨hx.1, fun hmem => hx.2 (hsenders hmem)⟩

theorem idResponse_inj {m n : Int} (h : idResponse m = idResponse n) : m = n :=
  congrArg Response.clientId h

/-- The queue of the request accepted last is new. -/
theorem fresh_of_nodup {inputs : List Input} {z : Input} (hinit : z.1.isInit = true)
    (hroom : (accepted inputs).length < maxClients)
    (hnodup : (accepted (inputs ++ [z])).Nodup) : z.2 ∉ accepted inputs := by
  rw [accepted_room hinit hroom, List.nodup_append] at hnodup
  exact fun hmem => hnodup.2.2 _ hmem _ List.mem_cons_self rfl

/-- A queue begins with the id. -/
theorem responses_registered {inputs : List Input} {x : Input} {i : Fin maxClients}
    (hinit : x.1.isInit = true) (hindex : (accepted inputs).length = i)
    (hnodup : (accepted (inputs ++ [x])).Nodup) :
    putInto x.2 (run (inputs ++ [x])).2 = [idResponse (i + 1)] := by
  have hkept := kept_run inputs
  have hroom : (accepted inputs).length < maxClients := by
    rw [hindex]
    exact i.isLt
  have hfresh := fresh_of_nodup hinit hroom hnodup
  -- Nobody could send to the queue before it was accepted.
  have hbefore : putInto x.2 (run inputs).2 = [] :=
    putInto_eq_nil fun y hy heq => hfresh (heq ▸ hkept.sends y hy)
  rw [sends_concat, putInto_append, hbefore, List.nil_append]
  cases receive_cases (run inputs).1 (some x.2) x.1 with
  | chat hchat => exact Bool.noConfusion (hchat.symm.trans hinit)
  | full _ hfull => exact absurd (hkept.count.symm ▸ hroom) hfull
  | unopened _ hroom' hopened =>
      exact absurd hopened (by simp only [reduceCtorEq, not_false_eq_true])
  -- The answer is all that goes into it.
  | registered _ hroom' queueId hopened hserver hsent =>
      rw [Option.some.injEq] at hopened
      rw [hsent, hkept.count, hindex, hopened]
      exact putInto_self queueId _

/-- A queue goes on with the chat messages of others, as they are read. -/
theorem responses_received {inputs : List Input} {z : Input} {q : QueueId} {i : Fin maxClients}
    (hget : (accepted inputs)[i.val]? = some q) (hnodup : (accepted (inputs ++ [z])).Nodup)
    (post : List Input) :
    chats [i + 1] (post ++ [z]) = chats [i + 1] post
      ++ putInto q ((run inputs).1.receive (some z.2) z.1).2 := by
  have hkept := kept_run inputs
  have hnodup' := (accepted_grows inputs [z]).sublist.nodup hnodup
  have hi : i.val < (accepted inputs).length := (List.getElem?_eq_some_iff.mp hget).1
  -- The queue is that of the entry.
  have hqueue : q = ((run inputs).1.clients i).queueId :=
    Option.some.inj (hget.symm.trans (hkept.queues i hi))
  cases receive_cases (run inputs).1 (some z.2) z.1 with
  | chat hchat hserver hsent =>
      have hactive : ∀ j : Fin maxClients, ((run inputs).1.clients j).active = true →
          j.val < (accepted inputs).length := by
        intro j hj
        rw [← hkept.count]
        exact (hkept.filled.active j).mp hj
      -- And of this entry alone, as no queue was accepted twice.
      have halone : ∀ j, ((run inputs).1.clients j).active = true →
          ((run inputs).1.clients j).queueId = ((run inputs).1.clients i).queueId → j = i := by
        intro j hj hsame
        refine Fin.ext ((List.getElem?_inj (hactive j hj) hnodup').mp ?_)
        rw [hkept.queues j (hactive j hj), hkept.queues i hi, hsame]
      have hi' : ((run inputs).1.clients i).active = true := by
        rw [hkept.filled.active i, hkept.count]
        exact hi
      rw [hsent, hqueue, putInto_broadcast hkept.filled hi' halone, chats_chat hchat]
  | full hinit hfull hserver hsent =>
      rw [hsent, chats_init hinit]
      exact (List.append_nil _).symm
  | unopened hinit hroom hopened =>
      exact absurd hopened (by simp only [reduceCtorEq, not_false_eq_true])
  | registered hinit hroom queueId hopened hserver hsent =>
      rw [Option.some.injEq] at hopened
      rw [hkept.count] at hroom
      have hfresh := fresh_of_nodup hinit hroom hnodup
      -- The answer to a request is not for this client.
      have hother : putInto q [(queueId, idResponse ((run inputs).1.clientCount + 1))] = [] := by
        refine putInto_eq_nil fun y hy heq => hfresh ?_
        -- The new queue would be the one of the client.
        rw [List.mem_singleton.mp hy] at heq
        have hsame : z.2 = q := hopened.trans heq
        rw [hsame]
        exact List.mem_of_getElem? hget
      rw [hsent, hother, chats_init hinit]
      exact (List.append_nil _).symm

/-- What the queue of a client got in a run, if it is the queue of no other. -/
theorem responses_run {inputs : List Input} (hnodup : (accepted inputs).Nodup)
    {pre post : List Input} {x : Input} {i : Fin maxClients}
    (hreg : Registration inputs pre x post i) :
    putInto x.2 (run inputs).2 = idResponse (i + 1) :: chats [i + 1] post := by
  induction inputs using List.reverseRecOn generalizing post with
  | nil =>
      exact absurd hreg.split (List.cons_ne_nil _ _ <| List.append_eq_nil_iff.mp ·.symm |>.2)
  | append_singleton inputs z ih =>
      rcases List.eq_nil_or_concat' post with rfl | ⟨post', w, rfl⟩
      · -- The client is registered by the last message.
        rcases List.append_inj' hreg.split rfl with ⟨rfl, hlast⟩
        cases hlast
        exact responses_registered hreg.init hreg.index hnodup
      -- Otherwise one more message comes behind those of before.
      · have hsplit := hreg.split
        rw [← List.cons_append, ← List.append_assoc] at hsplit
        rcases List.append_inj' hsplit rfl with ⟨hinputs, hlast⟩
        cases hlast
        have hreg' : Registration inputs pre x post' i := ⟨hinputs, hreg.init, hreg.index⟩
        have hnodup' := (accepted_grows inputs [z]).sublist.nodup hnodup
        rw [sends_concat, putInto_append, ih hnodup' hreg',
          responses_received hreg'.accepted_eq hnodup]
        rfl

/-- In an ordered run no queue belongs to two requests: it would begin with two
    ids. -/
theorem nodup_of_ordered {inputs : List Input} (h : Ordered inputs) : (accepted inputs).Nodup := by
  rw [List.nodup_iff_injective_get]
  intro a b hab
  have hlen := accepted_length_le inputs
  have hregistration : ∀ c : Fin (accepted inputs).length, ∃ pre x post,
      Registration inputs pre x post ⟨c.val, by omega⟩ ∧ x.2 = (accepted inputs).get c :=
    fun c => exists_registration (List.getElem?_eq_getElem c.isLt)
  rcases hregistration a with ⟨pre, x, post, hreg, hx⟩
  rcases hregistration b with ⟨pre', y, post', hreg', hy⟩
  have hboth := h.responses pre' y post' _ hreg'
  rw [hy, ← hab, ← hx, h.responses pre x post _ hreg] at hboth
  have hid : (a.val + 1 : Int) = b.val + 1 := idResponse_inj (List.cons.inj hboth).1
  exact Fin.ext (by omega)

/-- The entry of a client holds its id and its queue. -/
theorem entry_run {inputs pre post : List Input} {x : Input} {i : Fin maxClients}
    (hreg : Registration inputs pre x post i) :
    (run inputs).1.clients i = ⟨i + 1, x.2, true⟩ := by
  have hkept := kept_run inputs
  have hget := hreg.accepted_eq
  have hi : i.val < (accepted inputs).length := (List.getElem?_eq_some_iff.mp hget).1
  have hqueue := Option.some.inj (hget.symm.trans (hkept.queues i hi))
  have hi' : i.val < (run inputs).1.clientCount := by
    rw [hkept.count]
    exact hi
  have hid := hkept.filled.ids i hi'
  have hactive := (hkept.filled.active i).mpr hi'
  rw [hqueue, ← hid, ← hactive]

/-- Everybody gets everything in one order exactly if no two accepted requests
    are for one queue. -/
theorem ordered_iff (inputs : List Input) : Ordered inputs ↔ (accepted inputs).Nodup := by
  refine ⟨nodup_of_ordered, fun hnodup => ?_⟩
  refine ⟨fun pre x post i => entry_run, fun pre x post i hreg => responses_run hnodup hreg,
    fun i j hi hj hij => (kept_run inputs).filled.id_inj hi hj hij, ?_, ?_⟩
  · -- A message of its own is not among those of the others.
    intro pre x post i hreg r hr
    rw [responses_run hnodup hreg, List.tail_cons] at hr
    unfold chats at hr
    rcases List.mem_map.mp hr with ⟨y, hy, rfl⟩
    have hown := (List.mem_filter.mp hy).2
    rw [Bool.and_eq_true, decide_eq_true_eq, List.mem_singleton] at hown
    exact hown.2
  · -- What comes after both registrations is a part of what each gets.
    intro pre x mid y post i j hreg hreg'
    rw [responses_run hnodup hreg, responses_run hnodup hreg']
    have hlater : post.Sublist (mid ++ y :: post) :=
      (List.sublist_cons_self y post).trans (List.sublist_append_right mid _)
    refine ⟨(chats_sublist hlater ?_).cons _, (chats_sublist (List.Sublist.refl post) ?_).cons _⟩
    · exact List.cons_subset_cons _ (List.nil_subset _)
    · exact List.subset_cons_self _ _

/-- Two clients whose pids have one low byte ask with one key. The queue of the
    first gets a second id. -/
theorem two_ids_in_one_queue :
    ¬ Ordered [(initMessage 1000 3892381205, 7), (initMessage 1256 3892381205, 7)] := by
  intro h
  exact absurd (nodup_of_ordered h) (by decide)

end Sysv

end OsLabs
