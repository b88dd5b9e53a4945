import OsLabs.Udp.Handling
import OsLabs.Udp.Table

/-!
# What a Datagram of One Address Can Touch

A frame for `handle_message`, over any table and any bytes. The table changes
in one slot at most. A registration overwrites a slot that was free; anything
else concerns the slot that the sender's address was resolved to, where it
writes `last_ping` and, for a `QUIT`, the three fields that `remove_client`
clears.

What is sent goes back or to a slot that was active when the datagram came.
Texts of users go out after the lookup of the sender only, so a stranger
learns that it is unknown and reaches nobody.

## Main definitions

* `Change`: What a datagram does to the table.
* `Posted`, `Fine`, `Answers`: What a datagram makes the server send.
* `Isolated`: The frame in the words of the program.

## Theorems

* `change_of_handled`: Every datagram makes one of the changes.
* `answers_of_handled`: Everything it makes the server send.
* `Change.resolved`, `Change.accepted`, `Change.lastPing`, `Change.fields`,
  `Change.counted`: The slots and fields that each change leaves alone.
* `unknown_of_handled`: What a stranger gets.
* `datagram_isolated`: A datagram touches its own sender only.
-/

namespace OsLabs

namespace Udp

/-- What a datagram does to the table and its counter. -/
inductive Change (now : Nat) (s : Server) (src : SockAddr) (buffer : Bytes) (s' : Server) :
    Prop where
  | registered (i : Slot) (hregister : strncmpEq buffer (text "REGISTER ") = true)
      (hname : s.findClientByName (buffer.drop 9) = none) (hfree : s.freeSlot = some i)
      (hclients : s'.clients = (s.insertClient i (buffer.drop 9) src now).clients)
  | refused (hregister : strncmpEq buffer (text "REGISTER ") = true)
      (hrefused : s.findClientByName (buffer.drop 9) = none → s.freeSlot = none)
      (hclients : s'.clients = s.clients) (hcount : s'.clientCount = s.clientCount)
  | unknown (hregister : ¬ strncmpEq buffer (text "REGISTER ") = true)
      (hfind : s.findClientByAddr src = none)
      (hclients : s'.clients = s.clients) (hcount : s'.clientCount = s.clientCount)
  | touched (id : Slot) (hregister : ¬ strncmpEq buffer (text "REGISTER ") = true)
      (hfind : s.findClientByAddr src = some id)
      (hquit : ¬ strncmpEq buffer (text "QUIT") = true)
      (hclients : s'.clients = (s.touch id now).clients) (hcount : s'.clientCount = s.clientCount)
  | removed (id : Slot) (hregister : ¬ strncmpEq buffer (text "REGISTER ") = true)
      (hfind : s.findClientByAddr src = some id)
      (hquit : strncmpEq buffer (text "QUIT") = true)
      (hclients : s'.clients = ((s.touch id now).removeClient id).clients)

/-- What a datagram makes the server do besides: answer, send to slots that
    are active, and note a registration or a `QUIT`. -/
inductive Posted (s : Server) (src : SockAddr) : Action → Prop where
  | reply (message : Bytes) : Posted s src (.sent .reply src message)
  | message (id i : Slot) (via : Via) (message : Bytes) (hfind : s.findClientByAddr src = some id)
      (hactive : (s.clients i).active = true) :
      Posted s src (.sent via (s.clients i).addr message)
  | registered : Posted s src (.registered src)
  | quit : Posted s src (.quit src)

namespace Server

theorem active_of_findClientByAddr {s : Server} {src : SockAddr} {id : Slot}
    (h : s.findClientByAddr src = some id) :
    (s.clients id).active = true ∧ (s.clients id).addr = src := by
  have hscan := scan_some h
  rwa [Bool.and_eq_true, decide_eq_true_eq] at hscan

theorem clients_broadcastMessage (s : Server) (message : Bytes) (senderId : Slot) :
    (s.broadcastMessage message senderId).clients = s.clients ∧
      (s.broadcastMessage message senderId).clientCount = s.clientCount := by
  rw [broadcastMessage_eq]
  exact ⟨rfl, rfl⟩

theorem clients_sendToClient (s : Server) (message : Bytes) (clientId : Slot) :
    (s.sendToClient message clientId).clients = s.clients ∧
      (s.sendToClient message clientId).clientCount = s.clientCount := by
  unfold sendToClient
  by_cases hactive : (s.clients clientId).active = true
  · rw [if_pos hactive]
    exact ⟨rfl, rfl⟩
  · rw [if_neg hactive]
    exact ⟨rfl, rfl⟩

/-- What was sent before is in the log only. -/
theorem removeClient_sendto (s : Server) (via : Via) (dst : SockAddr) (message : Bytes)
    (id : Slot) : (s.sendto via dst message).removeClient id
      = (s.removeClient id).sendto via dst message := by
  unfold removeClient
  by_cases hactive : (s.clients id).active = true
  · have hsent : ((s.sendto via dst message).clients id).active = true := hactive
    rw [if_pos hactive, if_pos hsent]
    rfl
  · have hsent : ¬ ((s.sendto via dst message).clients id).active = true := hactive
    rw [if_neg hactive, if_neg hsent]

theorem freeSlot_inactive {s : Server} {i : Slot} (h : s.freeSlot = some i) :
    (s.clients i).active = false := by
  have hscan := scan_some h
  rwa [Bool.not_eq_true'] at hscan

theorem clients_insertClient_of_ne (s : Server) {i j : Slot} (name : Bytes) (addr : SockAddr)
    (now : Nat) (h : j ≠ i) : (s.insertClient i name addr now).clients j = s.clients j :=
  Function.update_of_ne h ..

/-- The fields that `remove_client` clears in the sender's slot. -/
theorem clients_removeClient_touch {s : Server} {id : Slot} (now : Nat)
    (hactive : (s.clients id).active = true) (i : Slot) :
    ((s.touch id now).removeClient id).clients i =
      if i = id then
        { s.clients id with
          active := false, registered := false, name := CharArray.zero maxNameLen, lastPing := now }
      else s.clients i := by
  have htouched : ((s.touch id now).clients id).active = true := by
    rwa [clients_touch]
  unfold removeClient
  rw [if_pos htouched]
  by_cases hi : i = id
  · rw [hi]
    simp only [Function.update_self, clients_touch, if_true]
  · simp only [Function.update_of_ne hi, clients_touch, if_neg hi]

end Server

theorem not_quit {buffer : Bytes} {c : Command} (h : parse buffer = c) (hc : c ≠ .quit) :
    ¬ strncmpEq buffer (text "QUIT") = true :=
  fun hquit => hc (h.symm.trans (parse_eq_quit.mpr hquit))

theorem change_of_handled {clk : LocalClock} {now : Nat} {s s' : Server} {src : SockAddr}
    {buffer : Bytes} (h : Handled clk now s src buffer s') : Change now s src buffer s' := by
  -- By the case of the handler.
  cases h with
  | registered i hregister hname hfree => exact .registered i hregister hname hfree rfl
  | nameUsed i hregister hname =>
      refine .refused hregister (fun hnone => ?_) rfl rfl
      rw [hname] at hnone
      exact absurd hnone (by simp only [reduceCtorEq, not_false_eq_true])
  | full hregister hname hfree => exact .refused hregister (fun _ => hfree) rfl rfl
  | unknown hregister hfind => exact .unknown hregister hfind rfl rfl
  | list id hregister hfind hparse | ping id hregister hfind hparse
  | ignored id hregister hfind hparse | notFound id targetName message hregister hfind hparse =>
      exact .touched id hregister hfind (not_quit hparse (by simp only [ne_eq, reduceCtorEq,
        not_false_eq_true])) rfl rfl
  -- What is sent to the others leaves the table alone.
  | toAll id message hregister hfind hparse =>
      have hsame := Server.clients_broadcastMessage (s.touch id now)
        (allText (clk.stamp now) ((s.touch id now).clients id).name.str message) id
      exact .touched id hregister hfind (not_quit hparse (by simp only [ne_eq, reduceCtorEq,
        not_false_eq_true])) hsame.1 hsame.2
  | toOne id targetId targetName message hregister hfind hparse =>
      have hsame := Server.clients_sendToClient (s.touch id now)
        (oneText (clk.stamp now) ((s.touch id now).clients id).name.str message) targetId
      exact .touched id hregister hfind (not_quit hparse (by simp only [ne_eq, reduceCtorEq,
        not_false_eq_true])) hsame.1 hsame.2
  -- `QUIT` goes back through the slot that the address was found in.
  | quit id hregister hfind hparse =>
      refine .removed id hregister hfind (parse_eq_quit.mp hparse) ?_
      rw [Server.removeClient_sendto]
      rfl

/-- What is answered to a known sender is no error. -/
theorem not_error_of_head {b : UInt8} {rest : Bytes} (hb : b ≠ 69) :
    strncmpEq (b :: rest) (text "ERROR:") = false := by
  have hhead : strncmpEq (b :: rest) [b] = true := by
    simp only [strncmpEq, List.isPrefixOf, BEq.rfl, Bool.and_self]
  exact strncmpEq_of_head hhead hb

/-- The list begins with its header. -/
theorem prefix_listReply (s : Server) : text "Aktywni klienci:\n" <+: s.listReply := by
  unfold Server.listReply
  refine List.foldlRecOn (motive := fun b : Bytes => text "Aktywni klienci:\n" <+: b) _ _
    (List.prefix_refl _) ?_
  intro b hb i _
  by_cases hactive : (s.clients i).active = true
  · rw [if_pos hactive]
    exact hb.trans (List.prefix_append _ _)
  · rwa [if_neg hactive]

/-- The server's new entries in the log, and what an error among them means. -/
structure Answers (s : Server) (src : SockAddr) (s' : Server) (acts : List Action) : Prop where
  log : s'.log = acts ++ s.log
  posted : ∀ a ∈ acts, Posted s src a
  errors : ∀ dst message, .sent .reply dst message ∈ acts →
    strncmpEq message (text "ERROR:") = true →
      s'.clients = s.clients ∧ s'.clientCount = s.clientCount

/-- A single reply that is no error. -/
theorem answers_reply {s s' : Server} {src : SockAddr} {message : Bytes}
    (hlog : s'.log = .sent .reply src message :: s.log)
    (h : strncmpEq message (text "ERROR:") = false ∨
      s'.clients = s.clients ∧ s'.clientCount = s.clientCount) :
    Answers s src s' [.sent .reply src message] where
  log := hlog
  posted := by
    intro a ha
    rw [List.mem_singleton.mp ha]
    exact .reply message
  errors := by
    intro dst m hmem herror
    rcases h with hfine | hsame
    · rw [List.mem_singleton, Action.sent.injEq] at hmem
      rw [hmem.2.2, hfine] at herror
      exact absurd herror Bool.false_ne_true
    · exact hsame

/-- The entry is no answer with an error. -/
def Fine (a : Action) : Prop :=
  ∀ dst message, .sent .reply dst message = a → strncmpEq message (text "ERROR:") = false

theorem fine_reply {dst : SockAddr} {message : Bytes}
    (h : strncmpEq message (text "ERROR:") = false) : Fine (.sent .reply dst message) := by
  intro dst' m heq
  rw [(Action.sent.inj heq).2.2]
  exact h

theorem fine_sent {via : Via} (hvia : via ≠ .reply) (dst : SockAddr) (message : Bytes) :
    Fine (.sent via dst message) :=
  fun _ _ heq => absurd (Action.sent.inj heq).1.symm hvia

/-- New entries without an error among them. -/
theorem answers_fine {s s' : Server} {src : SockAddr} {acts : List Action}
    (hlog : s'.log = acts ++ s.log) (hacts : ∀ a ∈ acts, Posted s src a ∧ Fine a) :
    Answers s src s' acts where
  log := hlog
  posted := fun a ha => (hacts a ha).1
  errors := by
    intro dst message hmem herror
    rw [(hacts _ hmem).2 dst message rfl] at herror
    exact absurd herror Bool.false_ne_true

theorem answers_pair {s s' : Server} {src : SockAddr} {a b : Action}
    (hlog : s'.log = a :: b :: s.log) (ha : Posted s src a ∧ Fine a)
    (hb : Posted s src b ∧ Fine b) : Answers s src s' [a, b] := by
  refine answers_fine hlog fun c hc => ?_
  rcases List.mem_cons.mp hc with heq | hmem
  · rw [heq]
    exact ha
  · rw [List.mem_singleton.mp hmem]
    exact hb

theorem answers_of_handled {clk : LocalClock} {now : Nat} {s s' : Server} {src : SockAddr}
    {buffer : Bytes} (h : Handled clk now s src buffer s') : ∃ acts, Answers s src s' acts := by
  -- By the case of the handler: each writes its answer at the end of the log.
  cases h with
  | registered i hregister hname hfree =>
      refine ⟨[_, .registered src], answers_pair rfl ?_ ?_⟩
      · have hfine : strncmpEq (text "OK: Zarejestrowano pomyslnie") (text "ERROR:") = false := by
          decide
        exact ⟨.reply _, fine_reply hfine⟩
      · exact ⟨.registered, fun _ _ heq => Action.noConfusion heq⟩
  | nameUsed i hregister hname => exact ⟨_, answers_reply rfl (Or.inr ⟨rfl, rfl⟩)⟩
  | full hregister hname hfree => exact ⟨_, answers_reply rfl (Or.inr ⟨rfl, rfl⟩)⟩
  | unknown hregister hfind => exact ⟨_, answers_reply rfl (Or.inr ⟨rfl, rfl⟩)⟩
  | list id hregister hfind hparse =>
      refine ⟨_, answers_reply rfl (Or.inl ?_)⟩
      rcases prefix_listReply (s.touch id now) with ⟨rest, hrest⟩
      rw [← hrest]
      exact not_error_of_head (by decide)
  -- A broadcast reaches the active slots but the sender's.
  | toAll id message hregister hfind hparse =>
      have hlog := congrArg Server.log (Server.broadcastMessage_eq (s.touch id now)
        (allText (clk.stamp now) ((s.touch id now).clients id).name.str message) id)
      refine ⟨_, answers_fine hlog fun a ha => ?_⟩
      rw [List.mem_reverse, List.mem_map] at ha
      rcases ha with ⟨i, hi, rfl⟩
      rw [Server.others, List.mem_filter, Bool.and_eq_true] at hi
      rw [Server.clients_touch] at hi ⊢
      exact ⟨.message id i .broadcast _ hfind hi.2.1, fine_sent Via.noConfusion _ _⟩
  -- The target was found by its name, so it is active, and the text is sent.
  | toOne id targetId targetName message hregister hfind hparse hname =>
      have hactive : ((s.touch id now).clients targetId).active = true := by
        have hscan := scan_some hname
        rw [Bool.and_eq_true] at hscan
        exact hscan.1
      unfold Server.sendToClient
      rw [if_pos hactive]
      rw [Server.clients_touch] at hactive
      refine ⟨[_, _], answers_pair rfl ?_ ?_⟩
      · exact ⟨.reply _, fine_reply (not_error_of_head (by decide))⟩
      · rw [Server.clients_touch]
        exact ⟨.message id targetId .toClient _ hfind hactive, fine_sent Via.noConfusion _ _⟩
  | notFound id targetName message hregister hfind hparse hname =>
      exact ⟨_, answers_reply rfl (Or.inl (not_error_of_head (by decide)))⟩
  -- The entry of the log comes first, then the answer.
  | quit id hregister hfind hparse =>
      refine ⟨[.quit src, .sent .reply src (text "OK: Do widzenia")], answers_pair ?_ ?_ ?_⟩
      · rw [Server.removeClient_sendto]
        have hlog : ((s.touch id now).removeClient id).log = s.log :=
          Server.log_removeClient (s.touch id now) id
        simp only [Server.sendto, hlog]
      · exact ⟨.quit, fun _ _ heq => Action.noConfusion heq⟩
      · exact ⟨.reply _, fine_reply (by decide)⟩
  | ping id hregister hfind hparse =>
      exact ⟨_, answers_reply rfl (Or.inl (by decide))⟩
  | ignored id hregister hfind hparse =>
      exact ⟨[], answers_fine rfl fun a ha => absurd ha List.not_mem_nil⟩

/-- Handling a datagram from `src` turns the server `s` into `s'` and adds
    `acts` to the log. It touches its own sender only. -/
structure Isolated (s : Server) (src : SockAddr) (buffer : Bytes) (s' : Server)
    (acts : List Action) : Prop where
  log : s'.log = acts ++ s.log
  /-- A slot of another address changes by a registration that is accepted,
      and was free then. -/
  others : ∀ i, (s.clients i).addr ≠ src ∨ strncmpEq buffer (text "REGISTER ") = true →
    s'.clients i ≠ s.clients i →
      strncmpEq buffer (text "REGISTER ") = true ∧ s.findClientByName (buffer.drop 9) = none ∧
        s.freeSlot = some i ∧ (s.clients i).active = false
  /-- Without a registration, the slot that the sender is resolved to changes. -/
  resolved : ¬ strncmpEq buffer (text "REGISTER ") = true →
    ∀ i, s'.clients i ≠ s.clients i → s.findClientByAddr src = some i
  /-- Its `last_ping` changes, -/
  lastPing : ¬ strncmpEq buffer (text "REGISTER ") = true →
    ¬ strncmpEq buffer (text "QUIT") = true →
      s'.clientCount = s.clientCount ∧
        ∀ i, ∃ lastPing, s'.clients i = { s.clients i with lastPing := lastPing }
  /-- and for a `QUIT` the fields that `remove_client` clears. -/
  quit : ¬ strncmpEq buffer (text "REGISTER ") = true → ∀ i,
    ∃ name active lastPing registered, s'.clients i =
      { s.clients i with
        name := name, active := active, lastPing := lastPing, registered := registered }
  /-- The counter changes when a registration is accepted, or when a sender that
      is known quits. -/
  counted : s'.clientCount ≠ s.clientCount →
    strncmpEq buffer (text "REGISTER ") = true ∧ s.findClientByName (buffer.drop 9) = none ∧
        s.freeSlot ≠ none ∨
      ¬ strncmpEq buffer (text "REGISTER ") = true ∧ strncmpEq buffer (text "QUIT") = true ∧
        s.findClientByAddr src ≠ none
  /-- A sender that is not known is told so, and nothing else happens. -/
  unknown : ¬ strncmpEq buffer (text "REGISTER ") = true → s.findClientByAddr src = none →
    s'.clients = s.clients ∧ s'.clientCount = s.clientCount ∧
      acts = [.sent .reply src (text "ERROR: Niezarejestrowany klient")]
  /-- A datagram that is answered with an error leaves the table as it is. -/
  errors : ∀ dst message, .sent .reply dst message ∈ acts →
    strncmpEq message (text "ERROR:") = true →
      s'.clients = s.clients ∧ s'.clientCount = s.clientCount
  /-- Everything sent goes back, or to an active slot. -/
  sent : ∀ via dst message, .sent via dst message ∈ acts →
    dst = src ∨ ∃ i, (s.clients i).active = true ∧ (s.clients i).addr = dst
  /-- Chat texts are sent for registered senders. -/
  chat : ∀ via dst message, .sent via dst message ∈ acts → via ≠ .reply →
    ∃ i, (s.clients i).active = true ∧ (s.clients i).addr = src

/-- Without a registration only the sender's slot changes. -/
theorem Change.resolved {now : Nat} {s s' : Server} {src : SockAddr} {buffer : Bytes}
    (h : Change now s src buffer s') (hregister : ¬ strncmpEq buffer (text "REGISTER ") = true)
    {i : Slot} (hne : s'.clients i ≠ s.clients i) : s.findClientByAddr src = some i := by
  cases h with
  | registered j hregister' => exact absurd hregister' hregister
  | refused _ _ hclients | unknown _ _ hclients => exact absurd (congrFun hclients i) hne
  | touched id _ hfind _ hclients =>
      by_cases hi : i = id
      · rwa [hi]
      · rw [hclients, Server.clients_touch, if_neg hi] at hne
        exact absurd rfl hne
  | removed id _ hfind hquit hclients =>
      by_cases hi : i = id
      · rwa [hi]
      · rw [hclients, Server.clients_removeClient_touch now
          (Server.active_of_findClientByAddr hfind).1, if_neg hi] at hne
        exact absurd rfl hne

/-- A registration changes the slot that was free. -/
theorem Change.accepted {now : Nat} {s s' : Server} {src : SockAddr} {buffer : Bytes}
    (h : Change now s src buffer s') (hregister : strncmpEq buffer (text "REGISTER ") = true)
    {i : Slot} (hne : s'.clients i ≠ s.clients i) :
    s.findClientByName (buffer.drop 9) = none ∧ s.freeSlot = some i := by
  cases h with
  | registered j _ hname hfree hclients =>
      have hij : i = j := by
        by_contra hij
        rw [hclients] at hne
        exact hne (Server.clients_insertClient_of_ne s _ src now hij)
      rw [hij]
      exact ⟨hname, hfree⟩
  | refused _ _ hclients => exact absurd (congrFun hclients i) hne
  | unknown hregister' | touched id hregister' | removed id hregister' =>
      exact absurd hregister hregister'

/-- What changes in the sender's slot unless it quits. -/
theorem Change.lastPing {now : Nat} {s s' : Server} {src : SockAddr} {buffer : Bytes}
    (h : Change now s src buffer s') (hregister : ¬ strncmpEq buffer (text "REGISTER ") = true)
    (hquit : ¬ strncmpEq buffer (text "QUIT") = true) :
    s'.clientCount = s.clientCount ∧
      ∀ i, ∃ lastPing, s'.clients i = { s.clients i with lastPing := lastPing } := by
  cases h with
  | registered j hregister' => exact absurd hregister' hregister
  | refused _ _ hclients hcount | unknown _ _ hclients hcount =>
      exact ⟨hcount, fun i => ⟨_, congrFun hclients i⟩⟩
  | touched id _ hfind _ hclients hcount =>
      refine ⟨hcount, fun i => ?_⟩
      rw [hclients, Server.clients_touch]
      exact ⟨_, rfl⟩
  | removed id _ hfind hquit' => exact absurd hquit' hquit

/-- What changes in the sender's slot if it quits. -/
theorem Change.fields {now : Nat} {s s' : Server} {src : SockAddr} {buffer : Bytes}
    (h : Change now s src buffer s') (hregister : ¬ strncmpEq buffer (text "REGISTER ") = true)
    (i : Slot) : ∃ name active lastPing registered, s'.clients i =
      { s.clients i with
        name := name, active := active, lastPing := lastPing, registered := registered } := by
  cases h with
  | registered j hregister' => exact absurd hregister' hregister
  | refused _ _ hclients | unknown _ _ hclients => exact ⟨_, _, _, _, congrFun hclients i⟩
  | touched id _ hfind _ hclients =>
      rw [hclients, Server.clients_touch]
      exact ⟨_, _, _, _, rfl⟩
  | removed id _ hfind hquit hclients =>
      rw [hclients, Server.clients_removeClient_touch now
        (Server.active_of_findClientByAddr hfind).1]
      by_cases hi : i = id
      · rw [if_pos hi, hi]
        exact ⟨_, _, _, _, rfl⟩
      · rw [if_neg hi]
        exact ⟨_, _, _, _, rfl⟩

/-- When the counter changes. -/
theorem Change.counted {now : Nat} {s s' : Server} {src : SockAddr} {buffer : Bytes}
    (h : Change now s src buffer s') (hne : s'.clientCount ≠ s.clientCount) :
    strncmpEq buffer (text "REGISTER ") = true ∧ s.findClientByName (buffer.drop 9) = none ∧
        s.freeSlot ≠ none ∨
      ¬ strncmpEq buffer (text "REGISTER ") = true ∧ strncmpEq buffer (text "QUIT") = true ∧
        s.findClientByAddr src ≠ none := by
  cases h with
  | registered i hregister hname hfree =>
      refine Or.inl ⟨hregister, hname, ?_⟩
      rw [hfree]
      exact Option.some_ne_none i
  | refused _ _ _ hcount | unknown _ _ _ hcount | touched _ _ _ _ _ hcount =>
      exact absurd hcount hne
  | removed id hregister hfind hquit =>
      refine Or.inr ⟨hregister, hquit, ?_⟩
      rw [hfind]
      exact Option.some_ne_none id

/-- Whatever a stranger sends, it gets the same answer. -/
theorem unknown_of_handled {clk : LocalClock} {now : Nat} {s s' : Server} {src : SockAddr}
    {buffer : Bytes} (h : Handled clk now s src buffer s')
    (hregister : ¬ strncmpEq buffer (text "REGISTER ") = true)
    (hnone : s.findClientByAddr src = none) :
    s' = s.sendto .reply src (text "ERROR: Niezarejestrowany klient") := by
  cases h with
  | unknown _ hfind => rfl
  | registered i hregister' | nameUsed i hregister' | full hregister' =>
      exact absurd hregister' hregister
  | list id _ hfind | toAll id _ _ hfind | toOne id _ _ _ _ hfind | notFound id _ _ _ hfind
  | quit id _ hfind | ping id _ hfind | ignored id _ hfind =>
      rw [hnone] at hfind
      exact absurd hfind (by simp only [reduceCtorEq, not_false_eq_true])

theorem isolated_of_handled {clk : LocalClock} {now : Nat} {s s' : Server} {src : SockAddr}
    {buffer : Bytes} (h : Handled clk now s src buffer s') :
    ∃ acts, Isolated s src buffer s' acts := by
  have hchange := change_of_handled h
  rcases answers_of_handled h with ⟨acts, hanswers⟩
  refine ⟨acts, hanswers.log, ?_, ?_, ?_, ?_, ?_, ?_, hanswers.errors, ?_, ?_⟩
  -- A slot that is not the sender's changes in a registration only.
  · intro i hother hne
    -- Without a registration the slot would be the sender's, by its address.
    have hregister : strncmpEq buffer (text "REGISTER ") = true := by
      by_contra hregister
      have haddr := (Server.active_of_findClientByAddr (hchange.resolved hregister hne)).2
      rcases hother with hforeign | hregister'
      · exact hforeign haddr
      · exact hregister hregister'
    rcases hchange.accepted hregister hne with ⟨hname, hfree⟩
    exact ⟨hregister, hname, hfree, Server.freeSlot_inactive hfree⟩
  · intro hregister i hne
    exact hchange.resolved hregister hne
  · exact hchange.lastPing
  · exact hchange.fields
  · exact hchange.counted
  · intro hregister hnone
    have hanswered := unknown_of_handled h hregister hnone
    have hlog := hanswers.log
    rw [hanswered] at hlog
    rw [hanswered]
    -- The log has grown by that answer, and by nothing else.
    have hacts : [Action.sent .reply src (text "ERROR: Niezarejestrowany klient")] ++ s.log
        = acts ++ s.log := hlog
    exact ⟨rfl, rfl, (List.append_cancel_right hacts).symm⟩
  -- Every message goes to the sender or to a client of the table.
  · intro via dst message hmem
    generalize ha : Action.sent via dst message = a at hmem
    cases hanswers.posted a hmem with
    | reply m =>
        rw [Action.sent.injEq] at ha
        exact Or.inl ha.2.1
    | message id i via' m hfind hactive =>
        rw [Action.sent.injEq] at ha
        exact Or.inr ⟨i, hactive, ha.2.1.symm⟩
    | registered | quit =>
        exact absurd ha (by simp only [reduceCtorEq, not_false_eq_true])
  -- And if it is no reply, the sender has a slot.
  · intro via dst message hmem hvia
    generalize ha : Action.sent via dst message = a at hmem
    cases hanswers.posted a hmem with
    | reply m =>
        rw [Action.sent.injEq] at ha
        exact absurd ha.1 hvia
    | message id i via' m hfind hactive => exact ⟨id, Server.active_of_findClientByAddr hfind⟩
    | registered | quit =>
        exact absurd ha (by simp only [reduceCtorEq, not_false_eq_true])

/-- A datagram, whatever it holds, touches its own sender only, in every table. -/
theorem datagram_isolated (clk : LocalClock) (s : State) (src : SockAddr) (bytes : Bytes) :
    ∃ acts, Isolated s.server src (cstr (bytes.take (bufferSize - 1)))
      (handle clk s src bytes).server acts :=
  isolated_of_handled (handleMessage_cases clk s.clock s.server src _)

end Udp

end OsLabs
