import OsLabs.Library.Relay
import OsLabs.Sysv.Sharing

/-!
# What Arrives

Taken together, the clients, the server and their queues are a relay. What is
typed at one client is read by all others that were registered before the
server came to it: once, after the id, under the id of the client it was typed
at, and for everybody in the one order in which it was sent. What a client has
not received yet is in its queue, and what the server has not read yet is in
the server's.

This is so in every run in which no client asks for a queue with a key that is
in use. The queues, keys and ids of the machine are then only the way in which
it does what a relay does that has none of them, step by step (`mirrors_step`).

A line that begins with `INIT` is not passed on. The server takes it for a
request with key zero, makes a queue that nobody reads from and gives it a
place in the registry.

## Main definitions

* `Post`, `posts`: The messages sent in a run, as they were typed.
* `turns`: How many messages the server has read.
* `World.heard`: What a client has received.
* `World.Mirrors`: The machine does what the relay does.
* `World.Delivered`: What arrives where.

## Theorems

* `putInto_chat`: What a broadcast puts into the queue of a client.
* `mirrors_quiet`, `mirrors_registered`: A turn of the server is a post to the
  relay.
* `mirrors_step`: The machine simulates the relay.
* `delivered_of_run`: Everything arrives where it should.
-/

namespace OsLabs

namespace Sysv

open Machine Server

variable {n : Nat}

/-- A message to the server: the request of a client, or a line. -/
inductive Post (n : Nat) where
  | request (p : Fin n)
  | line (p : Fin n) (input : Bytes)
  deriving DecidableEq

namespace Post

/-- The server takes the message for a request. -/
def asks : Post n → Bool
  | request _ => true
  | line _ input => strncmpEq (cstr input) initWord

/-- What the client sends. -/
def message (pid : Fin n → Nat) (ftok : UInt8 → Key) (ids : Fin n → Int) : Post n → Message
  | request p => initMessage (pid p) (World.clientKey pid ftok p)
  | line p input => lineMessage (ids p) input

/-- What the relay makes of it. -/
def relayed : Post n → Relay.Post (Fin n) Bytes
  | request p => .join (some p)
  | line p input => if strncmpEq (cstr input) initWord then .join none else .say p (cstr input)

/-- The response that it brings to a client with an id. -/
def told (ids : Fin n → Int) (p : Fin n) : Post n → Option Response
  | request _ => none
  | line p' input =>
      if p' = p ∨ strncmpEq (cstr input) initWord = true then none
      else some (chatResponse (ids p') (cstr input))

end Post

/-- The responses for what the relay delivers. -/
def rendered (ids : Fin n → Int) : Relay.Delivery (Fin n) Bytes → Response
  | .place k => idResponse (k + 1)
  | .said p x => chatResponse (ids p) x

namespace World

/-- The message that an event sends to the server. -/
def Event.posted : Event n → Option (Post n)
  | request p => some (.request p)
  | line p input => some (.line p input)
  | _ => none

/-- A turn of the server. -/
def Event.isServe : Event n → Bool
  | serve => true
  | _ => false

/-- The messages sent in a run, in order. -/
def posts (es : List (Event n)) : List (Post n) := es.filterMap Event.posted

/-- How many of them the server has read. -/
def turns (es : List (Event n)) : Nat := es.countP Event.isServe

/-- `client_id`, or zero before it is known. -/
def idOf (w : World n) (p : Fin n) : Int :=
  match w.clients p with
  | .running _ clientId => clientId
  | _ => 0

/-- What a client has received. -/
def heard (w : World n) (p : Fin n) : List Response :=
  (w.received.filter fun x => x.client == p).map Receipt.response

/-- The relay after a run. -/
def room (es : List (Event n)) : Relay.Room (Fin n) Bytes :=
  Relay.room maxClients (((posts es).take (turns es)).map Post.relayed)

/-- The client has sent its request. -/
def hasAsked : Client → Bool
  | .requested _ => true
  | .running _ _ => true
  | _ => false

section Delivery

variable (pid : Fin n → Nat) (ftok : UInt8 → Key)

/-- The machine does what the relay does. -/
structure Mirrors (es : List (Event n)) (w : World n) : Prop where
  asked : ∀ p, (posts es).count (.request p) = if hasAsked (w.clients p) then 1 else 0
  typed : ∀ p input, .line p input ∈ posts es → ∃ q clientId, w.clients p = .running q clientId
  served : turns es ≤ (posts es).length
  inbox : w.os.queues serverQueueId
    = ((posts es).drop (turns es)).map fun x => .message (x.message pid ftok w.idOf)
  count : w.server.clientCount = (room es).members.length
  /-- An entry of the registry has the queue of whoever has the place. -/
  places : ∀ (j : Fin maxClients) p, (room es).members[j.val]? = some (some p) ↔
    j.val < w.server.clientCount ∧ (w.clients p).queue = some (w.server.clients j).queueId
  mail : ∀ p q, (w.clients p).queue = some q →
    (w.heard p).map .response ++ w.os.queues q
      = ((room es).mail p).map fun d => .response (rendered w.idOf d)

/-- What arrives where. -/
structure Delivered (es : List (Event n)) (w : World n) : Prop where
  /-- The server reads what is sent in the order in which it is sent. -/
  inbox : w.os.queues serverQueueId
    = ((posts es).drop (turns es)).map fun x => .message (x.message pid ftok w.idOf)
  /-- A client gets its id and then what the others type. -/
  heard : ∀ p q before after, (w.clients p).queue = some q →
    (posts es).take (turns es) = before ++ .request p :: after →
    before.countP Post.asks < maxClients →
      (w.heard p).map .response ++ w.os.queues q
        = (idResponse (before.countP Post.asks + 1) :: after.filterMap (Post.told w.idOf p)).map
            .response
  /-- A client whose request has not been read, or came too late, gets nothing. -/
  unheard : ∀ p q, (w.clients p).queue = some q →
    (∀ before after, (posts es).take (turns es) = before ++ .request p :: after →
      maxClients ≤ before.countP Post.asks) →
      w.heard p = [] ∧ w.os.queues q = []
  /-- The id is the place. -/
  ids : ∀ p q clientId, w.clients p = .running q clientId →
    ∃ before after, (posts es).take (turns es) = before ++ .request p :: after ∧
      before.countP Post.asks < maxClients ∧ clientId = before.countP Post.asks + 1

end Delivery

variable {pid : Fin n → Nat} {ftok : UInt8 → Key} {es : List (Event n)} {w : World n}

theorem isInit_message (ids : Fin n → Int) (x : Post n) :
    (x.message pid ftok ids).isInit = x.asks := by
  cases x with
  | request p =>
      change strncmpEq initWord initWord = true
      decide
  | line p input => rfl

theorem relayed_of_asks {p : Fin n} {input : Bytes} (h : strncmpEq (cstr input) initWord = true) :
    (Post.line p input).relayed = .join none :=
  if_pos h

theorem relayed_of_not_asks {p : Fin n} {input : Bytes}
    (h : ¬ strncmpEq (cstr input) initWord = true) :
    (Post.line p input).relayed = .say p (cstr input) :=
  if_neg h

/-- The relay gives places to those that the server takes for requests. -/
theorem length_asker (xs : List (Post n)) :
    ((xs.map Post.relayed).filterMap Relay.Post.asker).length = xs.countP Post.asks := by
  induction xs with
  | nil => rfl
  | cons x xs ih =>
      -- The relay counts those that the server would register.
      have hasks : x.relayed.asker.isSome = x.asks := by
        cases x with
        | request p => rfl
        -- A line counts if it begins like a request.
        | line p input =>
            by_cases hinit : strncmpEq (cstr input) initWord = true
            · rw [relayed_of_asks hinit]
              exact hinit.symm
            · rw [relayed_of_not_asks hinit]
              exact (Bool.eq_false_of_not_eq_true hinit).symm
      rw [List.map_cons, List.countP_cons, ← hasks]
      cases hasker : x.relayed.asker with
      | none =>
          rw [List.filterMap_cons_none hasker, ih]
          rfl
      | some p =>
          rw [List.filterMap_cons_some hasker, List.length_cons, ih]
          rfl

theorem asker_of_request {x : Post n} {p : Fin n} :
    x.relayed.asker = some (some p) ↔ x = .request p := by
  cases x with
  | request p' =>
      simp only [Post.relayed, Relay.Post.asker, Option.some.injEq, Post.request.injEq]
  | line p' input =>
      simp only [reduceCtorEq, iff_false]
      by_cases hinit : strncmpEq (cstr input) initWord = true
      · rw [relayed_of_asks hinit]
        simp only [Relay.Post.asker, Option.some.injEq, reduceCtorEq, not_false_eq_true]
      · rw [relayed_of_not_asks hinit]
        simp only [Relay.Post.asker, reduceCtorEq, not_false_eq_true]

theorem count_asker (xs : List (Post n)) (p : Fin n) :
    ((xs.map Post.relayed).filterMap Relay.Post.asker).count (some p)
      = xs.count (.request p) := by
  induction xs with
  | nil => rfl
  | cons x xs ih =>
      rw [List.map_cons, List.count_cons, ← ih]
      by_cases hx : x = .request p
      · rw [List.filterMap_cons_some (asker_of_request.mpr hx), List.count_cons_self,
          if_pos (beq_iff_eq.mpr hx)]
      · rw [if_neg (by rwa [beq_iff_eq]), Nat.add_zero]
        cases hasker : x.relayed.asker with
        | none => rw [List.filterMap_cons_none hasker]
        | some p' =>
            have hne : p' ≠ some p := fun heq => hx (asker_of_request.mp (by rw [hasker, heq]))
            rw [List.filterMap_cons_some hasker, List.count_cons_of_ne hne]

theorem mirrors_init (pid : Fin n → Nat) (ftok : UInt8 → Key) :
    Mirrors pid ftok [] (init n) where
  asked := fun _ => rfl
  typed := fun p input h => absurd h List.not_mem_nil
  served := Nat.le_refl _
  inbox := rfl
  count := rfl
  places := fun j p => by
    refine iff_of_false ?_ fun h => absurd h.1 (Nat.not_lt_zero _)
    change ([] : List (Option (Fin n)))[j.val]? ≠ some (some p)
    rw [List.getElem?_nil]
    exact (Option.some_ne_none _).symm
  mail := fun p q h => absurd h (by simp only [init, Client.queue, reduceCtorEq, not_false_eq_true])

/-- A client has no more than one place. -/
theorem Mirrors.place_inj (h : Mirrors pid ftok es w) {i j : Nat} {p : Fin n}
    (hi : (room es).members[i]? = some (some p)) (hj : (room es).members[j]? = some (some p)) :
    i = j := by
  -- The list of members is a part of the list of those that asked.
  -- Otherwise it would have asked twice.
  by_contra hne
  have hcount : (room es).members.count (some p) ≤ 1 := by
    unfold room
    rw [Relay.members_room]
    have hsublist := List.take_sublist maxClients
      ((((posts es).take (turns es)).map Post.relayed).filterMap Relay.Post.asker)
    have hposts := (List.take_sublist (turns es) (posts es)).count_le (.request p)
    have hasked := h.asked p
    refine le_trans (hsublist.count_le (some p)) ?_
    rw [count_asker]
    split at hasked <;> omega
  -- Two places would be two occurrences.
  have htwice : List.Duplicate (some p) (room es).members := by
    rcases List.getElem?_eq_some_iff.mp hi with ⟨hi', heqi⟩
    rcases List.getElem?_eq_some_iff.mp hj with ⟨hj', heqj⟩
    rw [List.duplicate_iff_exists_distinct_get]
    rcases Nat.lt_or_gt_of_ne hne with hlt | hlt
    · exact ⟨⟨i, hi'⟩, ⟨j, hj'⟩, hlt, heqi.symm, heqj.symm⟩
    · exact ⟨⟨j, hj'⟩, ⟨i, hi'⟩, hlt, heqj.symm, heqi.symm⟩
  have hle : 2 ≤ (room es).members.count (some p) :=
    List.replicate_sublist_iff.mp (List.duplicate_iff_sublist.mp htwice)
  omega

theorem posts_concat (es : List (Event n)) (e : Event n) :
    posts (es ++ [e]) = posts es ++ e.posted.toList := by
  unfold posts
  rw [List.filterMap_append]
  cases hposted : e.posted with
  | none => rw [List.filterMap_cons_none hposted, List.filterMap_nil, Option.toList_none]
  | some x => rw [List.filterMap_cons_some hposted, List.filterMap_nil, Option.toList_some]

theorem turns_concat (es : List (Event n)) (e : Event n) :
    turns (es ++ [e]) = turns es + if e.isServe then 1 else 0 := by
  unfold turns
  rw [List.countP_append, List.countP_singleton]

/-- What is sent waits for the server. -/
theorem room_sent (hserved : turns es ≤ (posts es).length) {e : Event n} (he : e.isServe = false) :
    room (es ++ [e]) = room es ∧
      (posts (es ++ [e])).drop (turns (es ++ [e]))
        = (posts es).drop (turns es) ++ e.posted.toList := by
  have hturns : turns (es ++ [e]) = turns es := by
    rw [turns_concat, he, if_neg Bool.false_ne_true, Nat.add_zero]
  constructor
  · unfold room
    rw [hturns, posts_concat, List.take_append_of_le_length hserved]
  · rw [hturns, posts_concat, List.drop_append_of_le_length hserved]

/-- A turn of the server is a post to the relay. -/
theorem room_serve {x : Post n} {rest : List (Post n)}
    (hnext : (posts es).drop (turns es) = x :: rest) :
    room (es ++ [.serve]) = (room es).post maxClients x.relayed ∧
      turns es + 1 ≤ (posts es).length ∧ (posts es).drop (turns es + 1) = rest := by
  have hget : (posts es)[turns es]? = some x := by
    rw [← Nat.add_zero (turns es), ← List.getElem?_drop, hnext]
    rfl
  have hposts : posts (es ++ [.serve]) = posts es := by
    rw [posts_concat]
    exact List.append_nil _
  have hturns : turns (es ++ [.serve]) = turns es + 1 := turns_concat es .serve
  refine ⟨?_, (List.getElem?_eq_some_iff.mp hget).1, ?_⟩
  · unfold room
    rw [hturns, hposts, List.take_add_one, hget, List.map_append]
    exact Relay.room_concat _ _
  · rw [← List.tail_drop, hnext, List.tail_cons]

/-- A delivery is written the same way if the speakers keep their ids. -/
theorem rendered_congr {ids ids' : Fin n → Int} (p : Fin n)
    (h : ∀ p' input, .line p' input ∈ posts es → ids' p' = ids p') :
    ((room es).mail p).map (fun d => Item.response (rendered ids' d))
      = ((room es).mail p).map fun d => .response (rendered ids d) := by
  refine List.map_congr_left fun d hd => ?_
  cases d with
  | place k => rfl
  -- What was said comes from a line among the posts.
  | said p' x =>
      have hsay : .say p' x ∈ ((posts es).take (turns es)).map Post.relayed :=
        Relay.say_of_mem_mail hd
      rcases List.mem_map.mp hsay with ⟨y, hy, hrelayed⟩
      cases y with
      | request p'' => exact absurd hrelayed (by simp only [Post.relayed, reduceCtorEq,
          not_false_eq_true])
      -- A line that the server takes for a request is said to nobody.
      | line p'' input =>
          have hspeaker : p'' = p' := by
            by_cases hinit : strncmpEq (cstr input) initWord = true
            · rw [relayed_of_asks hinit] at hrelayed
              exact absurd hrelayed (by simp only [reduceCtorEq, not_false_eq_true])
            · rw [relayed_of_not_asks hinit] at hrelayed
              exact (Relay.Post.say.inj hrelayed).1
          rw [hspeaker] at hy
          change Item.response (chatResponse (ids' p') x) = .response (chatResponse (ids p') x)
          rw [h p' input (List.mem_of_mem_take hy)]

theorem message_congr {ids ids' : Fin n → Int} {xs : List (Post n)}
    (h : ∀ p input, .line p input ∈ xs → ids' p = ids p) :
    xs.map (fun x => Item.message (x.message pid ftok ids'))
      = xs.map fun x => .message (x.message pid ftok ids) := by
  refine List.map_congr_left fun x hx => ?_
  cases x with
  | request p => rfl
  | line p input =>
      change Item.message (lineMessage (ids' p) input) = .message (lineMessage (ids p) input)
      rw [h p input hx]

/-- What is left to show for a step of a client. -/
theorem mirrors_client {w' : World n} (h : Mirrors pid ftok es w) {e : Event n}
    (he : e.isServe = false) (hserver : w'.server = w.server)
    (hasked : ∀ p,
      (posts (es ++ [e])).count (.request p) = if hasAsked (w'.clients p) then 1 else 0)
    (htyped : ∀ p input, .line p input ∈ posts (es ++ [e]) →
      ∃ q clientId, w'.clients p = .running q clientId)
    (hinbox : w'.os.queues serverQueueId = w.os.queues serverQueueId
      ++ e.posted.toList.map fun x => .message (x.message pid ftok w'.idOf))
    (hids : ∀ p input, .line p input ∈ posts es → w'.idOf p = w.idOf p)
    (hplaces : ∀ p (j : Fin maxClients), j.val < w.server.clientCount →
      ((w'.clients p).queue = some (w.server.clients j).queueId ↔
        (w.clients p).queue = some (w.server.clients j).queueId))
    (hmail : ∀ p q, (w'.clients p).queue = some q →
      (w'.heard p).map .response ++ w'.os.queues q
        = ((room es).mail p).map fun d => .response (rendered w.idOf d)) :
    Mirrors pid ftok (es ++ [e]) w' := by
  rcases room_sent h.served he with ⟨hroom, hdrop⟩
  refine ⟨hasked, htyped, ?_, ?_, ?_, fun j p => ?_, fun p q hq => ?_⟩
  -- Nothing was handled that was not posted before.
  · rw [turns_concat, he, if_neg Bool.false_ne_true, posts_concat, List.length_append]
    exact Nat.le_add_right_of_le h.served
  -- The new message is at the end, and what was there is written as before.
  · rw [hinbox, h.inbox, hdrop, List.map_append]
    congr 1
    exact (message_congr fun p input hmem => hids p input (List.mem_of_mem_drop hmem)).symm
  · rw [hserver, hroom]
    exact h.count
  -- Nobody has got a place or lost one.
  · rw [hserver, hroom, h.places j p]
    exact and_congr_right fun hj => (hplaces p j hj).symm
  -- And nobody was told anything.
  · rw [hmail p q hq, hroom]
    exact (rendered_congr p hids).symm

theorem heard_of_silent {p : Fin n} (h : ∀ x ∈ w.received, x.client ≠ p) : w.heard p = [] := by
  unfold heard
  rw [List.map_eq_nil_iff, List.filter_eq_nil_iff]
  intro x hx
  rw [beq_iff_eq]
  exact h x hx

theorem heard_read (w : World n) (p : Fin n) (q : QueueId) (x : Item) (p' : Fin n) :
    (w.read p q x).heard p' = w.heard p' ++ if p = p' then [x.asResponse] else [] := by
  unfold heard read
  rw [List.filter_append, List.map_append]
  by_cases hp : p = p'
  · rw [if_pos hp, List.filter_cons, if_pos (beq_iff_eq.mpr hp)]
    rfl
  · rw [if_neg hp, List.filter_cons, if_neg (by rwa [beq_iff_eq])]
    rfl

/-- The ids of those that do not move stay. -/
theorem idOf_setClient_of_ne (w : World n) {p p' : Fin n} (c : Client) (h : p' ≠ p) :
    (w.setClient p c).idOf p' = w.idOf p' := by
  unfold idOf
  rw [clients_setClient_of_ne w c h]

/-- A client that is not in the chat yet has no line on the way. -/
theorem Mirrors.typed_ne (h : Mirrors pid ftok es w) {p p' : Fin n} {input : Bytes}
    (hmem : .line p' input ∈ posts es) (hp : ∀ q clientId, w.clients p ≠ .running q clientId) :
    p' ≠ p := by
  rintro rfl
  rcases h.typed _ input hmem with ⟨q, clientId, hrunning⟩
  exact hp q clientId hrunning

/-- A client that has not asked is told nothing. -/
theorem Mirrors.mail_of_not_asked (h : Mirrors pid ftok es w) {p : Fin n}
    (hp : hasAsked (w.clients p) = false) : (room es).mail p = [] := by
  refine Relay.mail_of_out fun hmem => ?_
  rcases List.mem_map.mp (Relay.mem_members hmem) with ⟨x, hx, hrelayed⟩
  have hrequest : x = .request p := asker_of_request.mp (by rw [hrelayed]; rfl)
  have hcount := h.asked p
  rw [hp, if_neg Bool.false_ne_true, List.count_eq_zero] at hcount
  rw [hrequest] at hx
  exact hcount (List.mem_of_mem_take hx)

/-- A client moves on without sending or reading. -/
theorem mirrors_setClient (h : Mirrors pid ftok es w) {p : Fin n} {c : Client} {e : Event n}
    (he : e.isServe = false) (hposted : e.posted = none) (hpc : hasAsked (w.clients p) = false)
    (hc : hasAsked c = false)
    (hqueue : ∀ q, c.queue = some q → w.heard p = [] ∧ w.os.queues q = [] ∧
      ∀ j : Fin maxClients, j.val < w.server.clientCount → (w.server.clients j).queueId ≠ q)
    (hold : (w.clients p).queue = none) : Mirrors pid ftok (es ++ [e]) (w.setClient p c) := by
  -- One that has not asked is not in its loop.
  have hidle : ∀ q clientId, w.clients p ≠ .running q clientId := by
    intro q clientId hrunning
    rw [hrunning] at hpc
    exact Bool.noConfusion hpc
  have hposts : posts (es ++ [e]) = posts es := by
    rw [posts_concat, hposted]
    exact List.append_nil _
  refine mirrors_client h he rfl (fun p' => ?_) (fun p' input hmem => ?_) ?_
    (fun p' input hmem => ?_) (fun p' j hj => ?_) fun p' q hq => ?_
  -- Whether it has asked has not changed.
  · rw [hposts, h.asked p']
    by_cases hp : p' = p
    · rw [hp, clients_setClient_self, hpc, hc]
    · rw [clients_setClient_of_ne w c hp]
  · rw [hposts] at hmem
    rw [clients_setClient_of_ne w c (h.typed_ne hmem hidle)]
    exact h.typed p' input hmem
  · rw [hposted]
    exact (List.append_nil _).symm
  -- Those that typed something are others.
  · exact idOf_setClient_of_ne w c (h.typed_ne hmem hidle)
  -- It had no queue, and the new one is in no entry.
  · by_cases hp : p' = p
    · rw [hp, clients_setClient_self, hold]
      refine iff_of_false (fun hq => ?_) (Option.some_ne_none _).symm
      exact (hqueue _ hq).2.2 j hj rfl
    · rw [clients_setClient_of_ne w c hp]
  -- Its queue is empty, and it has received nothing.
  · by_cases hp : p' = p
    · rw [hp, clients_setClient_self] at hq
      rcases hqueue q hq with ⟨hheard, hempty, _⟩
      rw [hp, h.mail_of_not_asked hpc]
      change (w.heard p).map .response ++ w.os.queues q = []
      rw [hheard, hempty]
      rfl
    · rw [clients_setClient_of_ne w c hp] at hq
      exact h.mail p' q hq

/-- Nobody has made a queue with a key that nobody has asked with. -/
theorem Good.byKey_eq_none (h : Good pid ftok w) {k : Key} (hserver : k ≠ serverQueueKey)
    (hothers : ∀ p, (w.clients p).queue ≠ none → clientKey pid ftok p ≠ k) :
    w.os.byKey k = none := by
  cases hfound : w.os.byKey k with
  | none => rfl
  | some q =>
      rcases h.owners k q hfound with heq | ⟨p, hp, hq⟩
      · exact absurd heq hserver
      · exact absurd hp (hothers p (by rw [hq]; exact Option.some_ne_none q))

theorem mirrors_create (hgood : Good pid ftok w) (h : Mirrors pid ftok es w) {p : Fin n}
    (hpc : w.clients p = .starting) (hapart : w.Apart pid ftok (.create p)) :
    Mirrors pid ftok (es ++ [.create p]) (w.create pid ftok p) := by
  have hasked : hasAsked (w.clients p) = false := by
    rw [hpc]
    rfl
  have hqueue : (w.clients p).queue = none := by
    rw [hpc]
    rfl
  unfold create
  by_cases hfailed : clientKey pid ftok p = -1
  · rw [if_pos hfailed]
    -- A key that cannot be had makes the client end, without a queue.
    refine mirrors_setClient h rfl rfl hasked rfl (fun q hq => ?_) hqueue
    exact absurd hq (by simp only [Client.queue, reduceCtorEq, not_false_eq_true])
  · rcases hapart hfailed with ⟨hkey, hserver, hothers⟩
    rw [if_neg hfailed, Os.msgget_of_none hkey (hgood.byKey_eq_none hserver hothers)]
    -- The new queue is empty, and no entry has it.
    have hmade : Mirrors pid ftok es { w with os := w.os.made (clientKey pid ftok p) } :=
      ⟨h.asked, h.typed, h.served, h.inbox, h.count, h.places, h.mail⟩
    refine mirrors_setClient hmade rfl rfl hasked rfl (fun q hq => ?_) hqueue
    have hq' : w.os.next = q := Option.some.inj hq
    refine ⟨heard_of_silent fun x hx hclient => ?_, ?_, fun j hj heq => ?_⟩
    -- Whoever received from a queue has it, and this client had none.
    · have hreceipt := hgood.receipts x hx
      rw [hclient, hqueue] at hreceipt
      exact Option.some_ne_none _ hreceipt.symm
    · exact hgood.unused q (Nat.le_of_eq hq')
    -- An entry has a queue that was made before.
    · have hbound := (hgood.entryBound j ((hgood.filled.active j).mpr hj)).1
      have hsame : (w.server.clients j).queueId = q := heq
      rw [hsame, hq'] at hbound
      exact lt_irrefl _ hbound

/-- A client that has its queue asks for an id. -/
theorem mirrors_request (hgood : Good pid ftok w) (h : Mirrors pid ftok es w) {p : Fin n}
    {q : QueueId} (hpc : w.clients p = .created q) :
    Mirrors pid ftok (es ++ [.request p])
      ((w.send (initMessage (pid p) (clientKey pid ftok p))).setClient p (.requested q)) := by
  have hidle : ∀ q clientId, w.clients p ≠ .running q clientId := by
    intro q clientId hrunning
    rw [hpc] at hrunning
    exact Client.noConfusion hrunning
  have hqueue : ∀ p', ((w.setClient p (.requested q)).clients p').queue = (w.clients p').queue :=
    queue_setClient (by rw [hpc]; rfl)
  have hposts : posts (es ++ [.request p]) = posts es ++ [.request p] := posts_concat es _
  refine mirrors_client h rfl rfl (fun p' => ?_) (fun p' input hmem => ?_) ?_
    (fun p' input hmem => ?_) (fun p' j hj => ?_) fun p' q' hq => ?_
  -- It has asked once now, and has not before.
  · rw [hposts, List.count_append, h.asked p']
    change _ = if hasAsked ((w.setClient p (.requested q)).clients p') then 1 else 0
    by_cases hp : p' = p
    · rw [hp, clients_setClient_self, hpc, List.count_singleton_self]
      rfl
    · have hnone : [Post.request p].count (.request p') = 0 := by
        rw [List.count_eq_zero, List.mem_singleton, Post.request.injEq]
        exact hp
      rw [clients_setClient_of_ne w _ hp, hnone, Nat.add_zero]
  -- Lines are older than this, and of others.
  · rw [hposts, List.mem_append, List.mem_singleton] at hmem
    have hold : .line p' input ∈ posts es :=
      hmem.resolve_right (by simp only [reduceCtorEq, not_false_eq_true])
    change ∃ q' clientId, (w.setClient p (.requested q)).clients p' = .running q' clientId
    rw [clients_setClient_of_ne w _ (h.typed_ne hold hidle)]
    exact h.typed p' input hold
  · exact w.os.queues_msgsnd_self _ _
  · exact idOf_setClient_of_ne w _ (h.typed_ne hmem hidle)
  -- It keeps its queue.
  · change ((w.setClient p (.requested q)).clients p').queue = _ ↔ _
    rw [hqueue]
  -- Only the queue of the server has grown.
  · change ((w.setClient p (.requested q)).clients p').queue = some q' at hq
    rw [hqueue] at hq
    have hother : (w.os.msgsnd serverQueueId
        (.message (initMessage (pid p) (clientKey pid ftok p)))).queues q' = w.os.queues q' :=
      w.os.queues_msgsnd_of_ne _ (hgood.apart p' q' hq)
    rw [← h.mail p' q' hq, ← hother]
    rfl

/-- A client sends a line. -/
theorem mirrors_line (hgood : Good pid ftok w) (h : Mirrors pid ftok es w) {p : Fin n}
    {q : QueueId} {clientId : Int} {input : Bytes} (hpc : w.clients p = .running q clientId) :
    Mirrors pid ftok (es ++ [.line p input]) (w.send (lineMessage clientId input)) := by
  have hposts : posts (es ++ [.line p input]) = posts es ++ [.line p input] := posts_concat es _
  have hid : w.idOf p = clientId := by
    unfold idOf
    rw [hpc]
  refine mirrors_client h rfl rfl (fun p' => ?_) (fun p' input' hmem => ?_) ?_ (fun _ _ _ => rfl)
    (fun _ _ _ => Iff.rfl) fun p' q' hq => ?_
  · have hnone : [Post.line p input].count (.request p') = 0 := rfl
    rw [hposts, List.count_append, hnone, Nat.add_zero]
    exact h.asked p'
  -- Lines of before, or the one just typed, whose author is in the loop.
  · rw [hposts, List.mem_append, List.mem_singleton, Post.line.injEq] at hmem
    rcases hmem with hold | ⟨hp, _⟩
    · exact h.typed p' input' hold
    · exact ⟨q, clientId, by rw [hp]; exact hpc⟩
  -- The line carries the id that the client has.
  · rw [← hid]
    exact w.os.queues_msgsnd_self _ _
  · have hother : (w.os.msgsnd serverQueueId (.message (lineMessage clientId input))).queues q'
        = w.os.queues q' := w.os.queues_msgsnd_of_ne _ (hgood.apart p' q' hq)
    rw [← h.mail p' q' hq, ← hother]
    rfl

/-- What a client reads was a response. -/
theorem Mirrors.read_response (h : Mirrors pid ftok es w) {p : Fin n} {q : QueueId} {x : Item}
    {rest : List Item} (hq : (w.clients p).queue = some q) (hqueue : w.os.queues q = x :: rest) :
    x = .response x.asResponse := by
  have hmem : x ∈ (w.heard p).map .response ++ w.os.queues q := by
    rw [hqueue]
    exact List.mem_append_right _ List.mem_cons_self
  rw [h.mail p q hq] at hmem
  rcases List.mem_map.mp hmem with ⟨d, _, rfl⟩
  rfl

/-- Reading takes what is read out of the queue. -/
theorem mirrors_read (hgood : Good pid ftok w) (h : Mirrors pid ftok es w) {p : Fin n}
    {q : QueueId} {clientId : Int} {x : Item} {rest : List Item} (hq : (w.clients p).queue = some q)
    (hqueue : w.os.queues q = x :: rest) (hasked : hasAsked (w.clients p) = true)
    (hsame : ∀ q' clientId', w.clients p = .running q' clientId' → clientId' = clientId) :
    Mirrors pid ftok (es ++ [.receive p]) ((w.read p q x).setClient p (.running q clientId)) := by
  have hqueues := queue_setClient (w := w.read p q x) (p := p) (c := .running q clientId) hq.symm
  have hposts : posts (es ++ [.receive p]) = posts es := by
    rw [posts_concat]
    exact List.append_nil _
  refine mirrors_client h rfl rfl (fun p' => ?_) (fun p' input hmem => ?_) ?_
    (fun p' input hmem => ?_) (fun p' j hj => ?_) fun p' q' hq' => ?_
  -- It had asked before it read.
  · rw [hposts, h.asked p']
    by_cases hp : p' = p
    · rw [hp, clients_setClient_self, hasked]
      rfl
    · rw [clients_setClient_of_ne _ _ hp]
      rfl
  · rw [hposts] at hmem
    by_cases hp : p' = p
    · exact ⟨q, clientId, by rw [hp, clients_setClient_self]⟩
    · rw [clients_setClient_of_ne _ _ hp]
      exact h.typed p' input hmem
  -- What is taken out is not in the queue of the server.
  · have hother : (w.os.pop q).queues serverQueueId = w.os.queues serverQueueId :=
      w.os.queues_pop_of_ne (hgood.apart p q hq).symm
    exact hother.trans (List.append_nil _).symm
  -- The id stays for one in its loop, and others keep theirs.
  · by_cases hp : p' = p
    · rw [hp] at hmem ⊢
      rcases h.typed p input hmem with ⟨q', clientId', hrunning⟩
      unfold idOf
      rw [clients_setClient_self, hrunning]
      exact (hsame q' clientId' hrunning).symm
    · exact idOf_setClient_of_ne _ _ hp
  · rw [hqueues]
    rfl
  · rw [hqueues] at hq'
    change ((w.read p q x).heard p').map .response ++ (w.os.pop q).queues q' = _
    rw [← h.mail p' q' hq', heard_read]
    by_cases hp : p = p'
    · rw [← hp] at hq' ⊢
      -- What it has received and what is in its queue stay the same together.
      have hqq : q' = q := Option.some.inj (hq'.symm.trans hq)
      rw [hqq, if_pos rfl, w.os.queues_pop_self, hqueue, List.tail_cons, List.map_append,
        List.append_assoc, List.map_singleton, ← h.read_response hq hqueue, List.singleton_append]
    -- Queues are one each, so another client's is not touched.
    · have hqq : q' ≠ q := fun heq => hp (hgood.distinct p p' q hq (by rw [← heq]; exact hq'))
      rw [if_neg hp, List.append_nil, w.os.queues_pop_of_ne hqq]

/-- What is left to show for a turn of the server. -/
theorem mirrors_served (hgood : Good pid ftok w) (h : Mirrors pid ftok es w) {x : Post n}
    {rest : List (Post n)} {m : Message} (hnext : (posts es).drop (turns es) = x :: rest)
    (hown : putInto serverQueueId (w.sends m) = [])
    (hcount : (w.serve m).server.clientCount
      = ((room es).post maxClients x.relayed).members.length)
    (hplaces : ∀ (j : Fin maxClients) p,
      ((room es).post maxClients x.relayed).members[j.val]? = some (some p) ↔
        j.val < (w.serve m).server.clientCount ∧
        (w.clients p).queue = some ((w.serve m).server.clients j).queueId)
    (hput : ∀ p q, (w.clients p).queue = some q → putInto q (w.sends m)
      = ((room es).delivery maxClients p x.relayed).map (rendered w.idOf)) :
    Mirrors pid ftok (es ++ [.serve]) (w.serve m) := by
  rcases room_serve hnext with ⟨hroom, hserved, hdrop⟩
  have hposts : posts (es ++ [.serve]) = posts es := by
    rw [posts_concat]
    exact List.append_nil _
  have hturns : turns (es ++ [.serve]) = turns es + 1 := turns_concat es .serve
  refine ⟨fun p => ?_, fun p input hmem => ?_, ?_, ?_, ?_, ?_, fun p q hq => ?_⟩
  -- The server's turn posts nothing.
  · rw [hposts]
    exact h.asked p
  · rw [hposts] at hmem
    exact h.typed p input hmem
  · rwa [hposts, hturns]
  · -- The message that is read was the first in the queue.
    rw [queues_serve, hown, List.map_nil, List.append_nil, w.os.queues_pop_self, h.inbox, hnext,
      hposts, hturns, hdrop, List.map_cons, List.tail_cons]
    rfl
  · rw [hroom]
    exact hcount
  · rw [hroom]
    exact hplaces
  · have hmail : ((room es).post maxClients x.relayed).mail p
        = (room es).mail p ++ (room es).delivery maxClients p x.relayed := rfl
    -- What is put into a queue comes behind what is there.
    rw [queues_serve, w.os.queues_pop_of_ne (hgood.apart p q hq), hput p q hq, hroom, hmail,
      List.map_append, List.map_map, ← List.append_assoc]
    change (w.heard p).map .response ++ w.os.queues q ++ _ = _
    rw [h.mail p q hq]
    rfl

/-- A turn of the server in which nobody is registered. -/
theorem mirrors_quiet (hgood : Good pid ftok w) (h : Mirrors pid ftok es w) {x : Post n}
    {rest : List (Post n)} {m : Message} (hnext : (posts es).drop (turns es) = x :: rest)
    (hserver : (w.serve m).server = w.server)
    (hmembers : ((room es).post maxClients x.relayed).members = (room es).members)
    (hown : putInto serverQueueId (w.sends m) = [])
    (hput : ∀ p q, (w.clients p).queue = some q → putInto q (w.sends m)
      = ((room es).delivery maxClients p x.relayed).map (rendered w.idOf)) :
    Mirrors pid ftok (es ++ [.serve]) (w.serve m) := by
  refine mirrors_served hgood h hnext hown ?_ ?_ hput
  · rw [hserver, hmembers]
    exact h.count
  · rw [hserver, hmembers]
    exact h.places

/-- A turn of the server in which somebody is registered. -/
theorem mirrors_registered (hgood : Good pid ftok w) (h : Mirrors pid ftok es w) {x : Post n}
    {rest : List (Post n)} {m : Message} {q₁ : QueueId} {asker : Option (Fin n)}
    (hnext : (posts es).drop (turns es) = x :: rest) (hjoin : x.relayed = .join asker)
    (hroom : w.server.clientCount < maxClients) (hq₁ : q₁ ≠ serverQueueId)
    (howner : ∀ p, asker = some p ↔ (w.clients p).queue = some q₁)
    (hserver : (w.serve m).server = w.server.register ⟨w.server.clientCount, hroom⟩ q₁)
    (hsends : w.sends m = [(q₁, idResponse (w.server.clientCount + 1))]) :
    Mirrors pid ftok (es ++ [.serve]) (w.serve m) := by
  -- There is room, so the relay gives a place as well.
  have hlength : (room es).members.length < maxClients := by
    rw [← h.count]
    exact hroom
  have hmembers : ((room es).post maxClients x.relayed).members = (room es).members ++ [asker] := by
    rw [hjoin]
    exact if_pos hlength
  -- The answer goes into one queue only.
  have hother : ∀ q, q₁ ≠ q → putInto q (w.sends m) = [] := by
    intro q hq
    rw [hsends]
    exact putInto_eq_nil fun y hy => by rwa [List.mem_singleton.mp hy]
  have hcount : (w.serve m).server.clientCount = w.server.clientCount + 1 := by
    rw [hserver]
    rfl
  refine mirrors_served hgood h hnext (hother _ hq₁) ?_ (fun j p => ?_) fun p q hq => ?_
  · rw [hcount, hmembers, List.length_append, h.count]
    rfl
  · rw [hcount, hmembers]
    by_cases hlast : j = ⟨w.server.clientCount, hroom⟩
    · -- The place is the last one, and so is the entry.
      have hval : j.val = (room es).members.length := by
        rw [hlast]
        exact h.count
      have hget : ((room es).members ++ [asker])[j.val]? = some asker := by
        rw [hval, List.getElem?_concat_length]
      rw [hget, hserver, hlast, register_self, Option.some.injEq, howner p]
      exact (and_iff_right (Nat.lt_succ_self _)).symm
    -- The other entries and the other places are as before.
    · have hne : j.val ≠ w.server.clientCount := fun heq => hlast (Fin.ext heq)
      rw [hserver, register_of_ne _ _ hlast]
      by_cases hlt : j.val < w.server.clientCount
      · rw [List.getElem?_append_left (by rwa [← h.count]), h.places j p]
        exact and_congr_left' (iff_of_true hlt (Nat.lt_succ_of_lt hlt))
      · have hlong : ((room es).members ++ [asker]).length ≤ j.val := by
          rw [List.length_append, List.length_singleton, ← h.count]
          omega
        rw [List.getElem?_eq_none hlong]
        exact iff_of_false (Option.some_ne_none _).symm fun hboth => by omega
  · have hdelivery : (room es).delivery maxClients p x.relayed
        = if (room es).members.length < maxClients ∧ asker = some p
          then [.place (room es).members.length] else [] := by
      rw [hjoin]
      rfl
    rw [hdelivery]
    -- The one that asked is told its place, and nobody else anything.
    by_cases hp : asker = some p
    · have hqq : q₁ = q := Option.some.inj (((howner p).mp hp).symm.trans hq)
      rw [if_pos ⟨hlength, hp⟩, hsends, hqq, putInto_self, h.count]
      rfl
    · rw [if_neg fun hboth => hp hboth.2, hother q fun heq => hp ((howner p).mpr (by rw [hq, heq]))]
      rfl

/-- A client that is in the chat has the place that its id says. -/
theorem Mirrors.place_of_running (hgood : Good pid ftok w) (h : Mirrors pid ftok es w) {p : Fin n}
    {q : QueueId} {clientId : Int} (hrunning : w.clients p = .running q clientId) :
    ∃ j : Fin maxClients, (room es).members[j.val]? = some (some p) ∧ clientId = j.val + 1 := by
  rcases hgood.ids p q clientId hrunning with ⟨j, hentry, hid⟩
  have hj := (hgood.filled.active j).mp hentry.active
  refine ⟨j, (h.places j p).mpr ⟨hj, ?_⟩, by rw [← hid, hgood.filled.ids j hj]⟩
  rw [hrunning, hentry.queueId]
  rfl

theorem chatResponse_of_ne {p p' : Fin n} (hp : p' ≠ p) (ids : Fin n → Int) (x : Bytes) :
    (((Relay.Post.say p' x).told p).toList).map (rendered ids) = [chatResponse (ids p') x] := by
  have htold : (Relay.Post.say p' x).told p = some (.said p' x) := if_neg hp
  rw [htold]
  rfl

/-- A broadcast puts into the queue of a client what the relay tells it. -/
theorem putInto_chat (hgood : Good pid ftok w) (h : Mirrors pid ftok es w) {p p' : Fin n}
    {q q' : QueueId} {clientId : Int} (hq : (w.clients p).queue = some q)
    (hrunning : w.clients p' = .running q' clientId) (x : Bytes) :
    putInto q (w.server.broadcastMessage clientId x)
      = ((room es).delivery maxClients p (.say p' x)).map (rendered w.idOf) := by
  have hid : w.idOf p' = clientId := by
    unfold idOf
    rw [hrunning]
  rcases h.place_of_running hgood hrunning with ⟨j', hj', hclientId⟩
  have hdelivery : (room es).delivery maxClients p (.say p' x)
      = if some p ∈ (room es).members then ((Relay.Post.say p' x).told p).toList else [] := rfl
  rw [hdelivery]
  -- A member is told unless it is the speaker.
  by_cases hmem : some p ∈ (room es).members
  · rw [if_pos hmem]
    -- Its place is the entry that has its queue.
    rcases List.mem_iff_getElem?.mp hmem with ⟨i, hi⟩
    have hlt : i < maxClients := by
      have hbound := (List.getElem?_eq_some_iff.mp hi).1
      rw [← h.count] at hbound
      exact lt_of_lt_of_le hbound hgood.filled.count
    rcases (h.places ⟨i, hlt⟩ p).mp hi with ⟨hcount, hqueue⟩
    have hqq : q = (w.server.clients ⟨i, hlt⟩).queueId := Option.some.inj (hq.symm.trans hqueue)
    -- No other entry has the queue of the client.
    have halone : ∀ j, (w.server.clients j).active = true →
        (w.server.clients j).queueId = (w.server.clients ⟨i, hlt⟩).queueId → j = ⟨i, hlt⟩ := by
      intro j hactive hsame
      have hj : (room es).members[j.val]? = some (some p) := by
        refine (h.places j p).mpr ⟨(hgood.filled.active j).mp hactive, ?_⟩
        rw [hsame, hqueue]
      exact Fin.ext (h.place_inj hj hi)
    rw [hqq, putInto_broadcast hgood.filled ((hgood.filled.active _).mpr hcount) halone]
    -- The speaker is at this place, so the loop of the server passes over it.
    by_cases hp : p' = p
    · have hplace : j'.val = i := h.place_inj (by rwa [hp] at hj') hi
      have hown : (Relay.Post.say p' x).told p = none := if_pos hp
      have hsender : clientId ∈ [(i + 1 : Int)] := by
        rw [hclientId, hplace]
        exact List.mem_cons_self
      rw [if_neg (not_not_intro hsender), hown]
      rfl
    -- The speaker is at another place, so this one gets the text.
    · have hsender : clientId ∉ [(i + 1 : Int)] := by
        intro hmem'
        have heq := List.mem_singleton.mp hmem'
        have hplace : j'.val = i := by omega
        rw [hplace, hi] at hj'
        exact hp (Option.some.inj (Option.some.inj hj')).symm
      rw [if_pos hsender, chatResponse_of_ne hp, hid]
  · rw [if_neg hmem]
    -- Without a place a client has no entry, and gets nothing.
    refine putInto_eq_nil fun y hy heq => hmem ?_
    rcases mem_broadcastMessage.mp hy with ⟨j, hactive, _, hy'⟩
    have hj := (hgood.filled.active j).mp hactive
    refine List.mem_of_getElem? ((h.places j p).mpr ⟨hj, ?_⟩)
    rw [hq, ← heq, hy']

/-- Nothing is put into the queue of the server. -/
theorem putInto_server (hgood : Good pid ftok w) (senderId : Int) (x : Bytes) :
    putInto serverQueueId (w.server.broadcastMessage senderId x) = [] := by
  refine putInto_eq_nil fun y hy => ?_
  rcases mem_broadcastMessage.mp hy with ⟨j, hactive, _, hy'⟩
  rw [hy']
  exact (hgood.entryBound j hactive).2

theorem opening_of_room {m : Message} (hinit : m.isInit = true)
    (hroom : w.server.clientCount < maxClients) :
    w.opening m = (w.os.pop serverQueueId).msgget false m.clientQueueKey := by
  unfold opening
  exact if_pos ⟨hinit, hroom⟩

theorem serve_chat {m : Message} (hchat : m.isInit = false) :
    (w.serve m).server = w.server ∧ w.sends m = w.server.broadcastMessage m.pid m.text := by
  cases receive_cases w.server (w.opening m).1 m with
  | chat _ hserver hsends => exact ⟨hserver, hsends⟩
  | full hinit | unopened hinit | registered hinit =>
      exact Bool.noConfusion (hchat.symm.trans hinit)

theorem serve_full {m : Message} (hinit : m.isInit = true)
    (hfull : ¬ w.server.clientCount < maxClients) :
    (w.serve m).server = w.server ∧ w.sends m = [] := by
  cases receive_cases w.server (w.opening m).1 m with
  | chat hchat => exact Bool.noConfusion (hchat.symm.trans hinit)
  | full _ _ hserver hsends => exact ⟨hserver, hsends⟩
  | unopened _ hroom | registered _ hroom => exact absurd hroom hfull

theorem serve_registered {m : Message} {q : QueueId} (hinit : m.isInit = true)
    (hroom : w.server.clientCount < maxClients) (hopened : (w.opening m).1 = some q) :
    (w.serve m).server = w.server.register ⟨w.server.clientCount, hroom⟩ q ∧
      w.sends m = [(q, idResponse (w.server.clientCount + 1))] := by
  cases receive_cases w.server (w.opening m).1 m with
  | chat hchat => exact Bool.noConfusion (hchat.symm.trans hinit)
  | full _ hfull => exact absurd hroom hfull
  | unopened _ _ hnone =>
      rw [hopened] at hnone
      exact absurd hnone (Option.some_ne_none q)
  | registered _ _ q' hopened' hserver hsends =>
      rw [hopened] at hopened'
      rw [Option.some.inj hopened']
      exact ⟨hserver, hsends⟩

/-- Nothing happens to a request that comes too late. -/
theorem mirrors_full (hgood : Good pid ftok w) (h : Mirrors pid ftok es w) {x : Post n}
    {rest : List (Post n)} {asker : Option (Fin n)} (hnext : (posts es).drop (turns es) = x :: rest)
    (hjoin : x.relayed = .join asker) (hinit : (x.message pid ftok w.idOf).isInit = true)
    (hfull : ¬ w.server.clientCount < maxClients) :
    Mirrors pid ftok (es ++ [.serve]) (w.serve (x.message pid ftok w.idOf)) := by
  rcases serve_full hinit hfull with ⟨hserver, hsends⟩
  have hlength : ¬ (room es).members.length < maxClients := by
    rw [← h.count]
    exact hfull
  refine mirrors_quiet hgood h hnext hserver (if_neg hlength) (by rw [hsends]; rfl) fun p q _ => ?_
  have hdelivery : (room es).delivery maxClients p x.relayed = [] := by
    rw [hjoin]
    exact if_neg fun hboth => hlength hboth.1
  rw [hsends, hdelivery]
  rfl

/-- A turn of the server is a post to the relay. -/
theorem mirrors_serve (hgood : Good pid ftok w) (h : Mirrors pid ftok es w) {x : Post n}
    {rest : List (Post n)} (hnext : (posts es).drop (turns es) = x :: rest) :
    Mirrors pid ftok (es ++ [.serve]) (w.serve (x.message pid ftok w.idOf)) := by
  have hinit : (x.message pid ftok w.idOf).isInit = x.asks := isInit_message w.idOf x
  have hmem : x ∈ posts es := by
    refine List.mem_of_mem_drop (i := turns es) ?_
    rw [hnext]
    exact List.mem_cons_self
  cases x with
  | request p =>
      -- There is room for one more entry, or the request is passed over.
      by_cases hroom : w.server.clientCount < maxClients
      · -- The client that asks has a queue, and the server finds it.
        have hqueue : ∃ q, (w.clients p).queue = some q := by
          have hcount := h.asked p
          have hpos := List.count_pos_iff.mpr hmem
          cases hpc : w.clients p with
          | requested q => exact ⟨q, rfl⟩
          | running q clientId => exact ⟨q, rfl⟩
          | starting | failed | created =>
              rw [hpc] at hcount
              simp only [hasAsked, Bool.false_eq_true, if_false] at hcount
              omega
        rcases hqueue with ⟨q, hq⟩
        rcases hgood.keyed p q hq with ⟨hkey, hfound⟩
        have hopened : (w.opening ((Post.request p).message pid ftok w.idOf)).1 = some q := by
          -- The key of the client leads to its queue.
          rw [opening_of_room hinit hroom]
          have hmsgget : (w.os.pop serverQueueId).msgget false (clientKey pid ftok p)
              = (some q, w.os.pop serverQueueId) := Os.msgget_of_byKey hkey hfound
          exact congrArg Prod.fst hmsgget
        rcases serve_registered hinit hroom hopened with ⟨hserver, hsends⟩
        refine mirrors_registered hgood h hnext rfl hroom (hgood.apart p q hq) (fun p' => ?_)
          hserver hsends
        -- The entry gets the queue of the client that asked.
        constructor
        · intro heq
          rwa [← Option.some.inj heq]
        · intro hq'
          rw [hgood.distinct p p' q hq hq']
      · exact mirrors_full hgood h hnext rfl hinit hroom
  | line p input =>
      by_cases hasks : strncmpEq (cstr input) initWord = true
      · by_cases hroom : w.server.clientCount < maxClients
        · -- The queue that the server makes is nobody's.
          have hinit' : ((Post.line p input).message pid ftok w.idOf).isInit = true :=
            hinit.trans hasks
          have hopened : (w.opening ((Post.line p input).message pid ftok w.idOf)).1
              = some w.os.next := by
            rw [opening_of_room hinit' hroom]
            rfl
          have hserverLt : serverQueueId < w.os.next := hgood.bound _ _ hgood.serverKey
          rcases serve_registered hinit' hroom hopened with ⟨hserver, hsends⟩
          refine mirrors_registered hgood h hnext (relayed_of_asks hasks) hroom
            (Nat.ne_of_gt hserverLt) (fun p' => ?_) hserver hsends
          refine iff_of_false (Option.some_ne_none p').symm fun hq => ?_
          exact lt_irrefl _ (hgood.queue_lt hq)
        · exact mirrors_full hgood h hnext (relayed_of_asks hasks) (hinit.trans hasks) hroom
      -- A line that does not begin like a request is broadcast.
      · rcases serve_chat (w := w) (hinit.trans (Bool.eq_false_of_not_eq_true hasks))
          with ⟨hserver, hsends⟩
        rcases h.typed p input hmem with ⟨q', clientId, hrunning⟩
        have hid : w.idOf p = clientId := by
          unfold idOf
          rw [hrunning]
        have hsends' : w.sends ((Post.line p input).message pid ftok w.idOf)
            = w.server.broadcastMessage clientId (cstr input) := by
          rw [hsends, ← hid]
          rfl
        -- The members stay, and each is told what the relay tells it.
        refine mirrors_quiet hgood h hnext hserver ?_ ?_ fun p' q hq => ?_
        · rw [relayed_of_not_asks hasks]
          change (if _ then _ ++ [] else _) = _
          rw [List.append_nil, ite_self]
        · rw [hsends']
          exact putInto_server hgood _ _
        · rw [hsends', relayed_of_not_asks hasks]
          exact putInto_chat hgood h hq hrunning _

/-- The machine simulates the relay. -/
theorem mirrors_step {w' : World n} {e : Event n} (hgood : Good pid ftok w)
    (h : Mirrors pid ftok es w) (hapart : w.Apart pid ftok e)
    (hstep : step pid ftok w e = some w') : Mirrors pid ftok (es ++ [e]) w' := by
  cases step_cases hstep with
  | create p hevent hpc heq =>
      rw [hevent] at hapart ⊢
      rw [heq]
      exact mirrors_create hgood h hpc hapart
  | request p q hevent hpc heq =>
      rw [hevent, heq]
      exact mirrors_request hgood h hpc
  | receiveId p q x rest hevent hpc hqueue heq =>
      rw [hevent, heq]
      -- The id that it reads is the first it has.
      refine mirrors_read hgood h (by rw [hpc]; rfl) hqueue (by rw [hpc]; rfl) ?_
      intro q' clientId' hrunning
      rw [hpc] at hrunning
      exact Client.noConfusion hrunning
  | receive p q clientId x rest hevent hpc hqueue heq =>
      have hread : Mirrors pid ftok (es ++ [.receive p])
          ((w.read p q x).setClient p (.running q clientId)) := by
        refine mirrors_read hgood h (by rw [hpc]; rfl) hqueue (by rw [hpc]; rfl) ?_
        intro q' clientId' hrunning
        rw [hpc] at hrunning
        exact (Client.running.inj hrunning).2.symm
      -- The client stays where it is.
      have hsame : (w.read p q x).setClient p (.running q clientId) = w.read p q x := by
        unfold setClient
        rw [← hpc]
        exact congrArg (fun cs => { w.read p q x with clients := cs })
          (Function.update_eq_self p w.clients)
      rw [hsame] at hread
      rwa [hevent, heq]
  | line p q clientId input hevent hpc heq =>
      rw [hevent, heq]
      exact mirrors_line hgood h hpc
  | serve x rest hevent hqueue heq =>
      rw [hevent, heq]
      -- The server reads what was posted first, if there is anything.
      cases hnext : (posts es).drop (turns es) with
      | nil =>
          rw [h.inbox, hnext] at hqueue
          exact absurd hqueue (List.cons_ne_nil _ _).symm
      | cons y rest' =>
          rw [h.inbox, hnext] at hqueue
          rw [← (List.cons.inj hqueue).1]
          exact mirrors_serve hgood h hnext

theorem mirrors_of_run {es : List (Event n)} {w : World n}
    (hrun : exec (step pid ftok) (init n) es = some w)
    (hapart : Meets (step pid ftok) (Apart pid ftok) (init n) es) :
    Good pid ftok w ∧ Mirrors pid ftok es w :=
  exec_history_of_meets (I := fun es w => Good pid ftok w ∧ Mirrors pid ftok es w)
    ⟨good_init, mirrors_init pid ftok⟩
    (fun _ _ _ _ h hC hstep => ⟨good_step h.1 hC hstep, mirrors_step h.1 h.2 hC hstep⟩) hapart hrun

/-- What the relay tells a client is what a client is told. -/
theorem rendered_told (ids : Fin n → Int) (p : Fin n) (x : Post n) :
    (x.relayed.told p).map (rendered ids) = x.told ids p := by
  cases x with
  | request p' => rfl
  | line p' input =>
      change _ = if p' = p ∨ strncmpEq (cstr input) initWord = true then none else _
      by_cases hasks : strncmpEq (cstr input) initWord = true
      · rw [relayed_of_asks hasks, if_pos (Or.inr hasks)]
        rfl
      · rw [relayed_of_not_asks hasks]
        change (if p' = p then none else some _).map _ = _
        by_cases hp : p' = p
        · rw [if_pos hp, if_pos (Or.inl hp)]
          rfl
        · rw [if_neg hp, if_neg (not_or.mpr ⟨hp, hasks⟩)]
          rfl

/-- A client asks only once. -/
theorem Mirrors.request_once (h : Mirrors pid ftok es w) {p : Fin n} {before after : List (Post n)}
    (hsplit : (posts es).take (turns es) = before ++ .request p :: after) :
    .join (some p) ∉ before.map Post.relayed ∧ .join (some p) ∉ after.map Post.relayed := by
  have hcount := (List.take_sublist (turns es) (posts es)).count_le (.request p)
  have hasked := h.asked p
  rw [hsplit, List.count_append, List.count_cons_self] at hcount
  have hone : before.count (.request p) = 0 ∧ after.count (.request p) = 0 := by
    split at hasked <;> omega
  have hrelayed : ∀ xs : List (Post n), xs.count (.request p) = 0 →
      .join (some p) ∉ xs.map Post.relayed := by
    intro xs hnone hmem
    rcases List.mem_map.mp hmem with ⟨x, hx, heq⟩
    have hrequest : x = .request p := asker_of_request.mp (by rw [heq]; rfl)
    rw [hrequest] at hx
    exact List.count_eq_zero.mp hnone hx
  exact ⟨hrelayed before hone.1, hrelayed after hone.2⟩

theorem room_of_split {p : Fin n} {before after : List (Post n)}
    (hsplit : (posts es).take (turns es) = before ++ .request p :: after) :
    room es = Relay.room maxClients
      (before.map Post.relayed ++ .join (some p) :: after.map Post.relayed) := by
  unfold room
  rw [hsplit, List.map_append, List.map_cons]
  rfl

/-- A client that came too late has no place. -/
theorem Mirrors.out_of_late (h : Mirrors pid ftok es w) {p : Fin n} {before after : List (Post n)}
    (hsplit : (posts es).take (turns es) = before ++ .request p :: after)
    (hlate : maxClients ≤ before.countP Post.asks) : some p ∉ (room es).members := by
  rw [room_of_split hsplit]
  exact Relay.not_mem_members_of_late (by rwa [length_asker]) (h.request_once hsplit).1

theorem Mirrors.split_of_place (h : Mirrors pid ftok es w) {p : Fin n}
    (hmem : some p ∈ (room es).members) : ∃ before after,
      (posts es).take (turns es) = before ++ .request p :: after ∧
      before.countP Post.asks < maxClients := by
  rcases List.mem_map.mp (Relay.mem_members hmem) with ⟨x, hx, hrelayed⟩
  have hrequest : x = .request p := asker_of_request.mp (by rw [hrelayed]; rfl)
  rw [hrequest] at hx
  rcases List.append_of_mem hx with ⟨before, after, hsplit⟩
  refine ⟨before, after, hsplit, ?_⟩
  by_contra hlate
  exact h.out_of_late hsplit (Nat.not_lt.mp hlate) hmem

theorem Mirrors.delivered (hgood : Good pid ftok w) (h : Mirrors pid ftok es w) :
    Delivered pid ftok es w where
  inbox := h.inbox
  heard := by
    intro p q before after hq hsplit hroom
    -- A client asks once, so what is before and after the request tells nothing to it.
    rcases h.request_once hsplit with ⟨hbefore, hafter⟩
    have hroom' : ((before.map Post.relayed).filterMap Relay.Post.asker).length < maxClients := by
      rwa [length_asker]
    have htold : ((after.map Post.relayed).filterMap (Relay.Post.told p)).map (rendered w.idOf)
        = after.filterMap (Post.told w.idOf p) := by
      rw [List.filterMap_map, List.map_filterMap]
      exact List.filterMap_congr fun x _ => rendered_told w.idOf p x
    rw [h.mail p q hq, room_of_split hsplit, Relay.mail_of_joined hroom' hbefore hafter,
      length_asker, ← htold, List.map_cons, List.map_cons, List.map_map]
    rfl
  unheard := by
    intro p q hq hlate
    -- A place would mean that there was room when it asked.
    have hout : some p ∉ (room es).members := by
      intro hmem
      rcases h.split_of_place hmem with ⟨before, after, hsplit, hroom⟩
      exact absurd hroom (Nat.not_lt.mpr (hlate before after hsplit))
    have hmail := h.mail p q hq
    have hempty : (room es).mail p = [] := Relay.mail_of_out hout
    rw [hempty, List.map_nil, List.append_eq_nil_iff, List.map_eq_nil_iff] at hmail
    exact hmail
  ids := by
    intro p q clientId hrunning
    -- The id is the number of the place, and the place that of the request.
    rcases h.place_of_running hgood hrunning with ⟨j, hj, hid⟩
    rcases h.split_of_place (List.mem_of_getElem? hj) with ⟨before, after, hsplit, hroom⟩
    refine ⟨before, after, hsplit, hroom, ?_⟩
    have hplace : (room es).members[before.countP Post.asks]? = some (some p) := by
      rw [room_of_split hsplit, ← length_asker]
      exact Relay.members_joined (by rwa [length_asker])
    rw [hid, h.place_inj hj hplace]

/-- Two clients chat, and a line of the first that looks like a request is
    lost. -/
def chatRun (p p' : Fin n) : List (Event n) :=
  [.create p, .create p', .request p', .request p, .serve, .serve, .receive p, .receive p',
    .line p (text "hello\n"), .line p (text "INITIAL\n"), .line p' (text "hi\n"), .serve, .serve,
    .serve, .line p' (text "bye\n"), .receive p]

end World

end Sysv

end OsLabs
