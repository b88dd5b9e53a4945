import OsLabs.Udp.Isolation
import OsLabs.Udp.Listening

/-!
# The Texts of the UDP Server

Everything the server sends is put together by one of a few calls of
`strcpy`, `snprintf` and `strcat`. Users choose names and messages, and their
words come after a word of the server's own. That is why a client, which looks
at the beginning only, takes nothing for a probe but the `ALIVE` of a sweep.

A datagram costs the receiving thread a bounded number of steps, and makes it
send a bounded number of texts, since a message for everybody goes to each
slot once. Both are counted together here.

## Main definitions

* `Produced`: The texts, with where each is sent.
* `Pc.Worded`: What the receiving thread is about to send is one of them.
* `Pc.effort`: What is left to do for the datagram at hand.
* `Emits`: What one step of the receiving thread adds to the log.

## Theorems

* `Produced.alive_of_probe`: A text that is taken for a probe was sent by a
  sweep.
* `emits_of_turn`: The steps of the receiving thread.
-/

namespace OsLabs

namespace Udp

open Listener (received)

/-- The texts that the server sends, for any names and messages. -/
inductive Produced : Via → Bytes → Prop where
  | registration (result : Registration) : Produced .reply result.response
  | unknown : Produced .reply (text "ERROR: Niezarejestrowany klient")
  | listing (s : Server) : Produced .reply s.listReply
  | confirm (targetName : Bytes) : Produced .reply (confirmText targetName)
  | notFound (targetName : Bytes) : Produced .reply (notFoundText targetName)
  | farewell : Produced .reply (text "OK: Do widzenia")
  | pong : Produced .reply (text "PONG")
  | toAll (timestamp name message : Bytes) : Produced .broadcast (allText timestamp name message)
  | toOne (timestamp name message : Bytes) : Produced .toClient (oneText timestamp name message)
  | alive : Produced .alive (text "ALIVE")

/-- What a client finds in its buffer begins what was sent. -/
theorem prefix_of_received {bytes lit : Bytes} (h : strncmpEq (received bytes) lit = true) :
    lit <+: bytes :=
  (List.isPrefixOf_iff_prefix.mp h).trans
    ((List.takeWhile_prefix _).trans (List.take_prefix _ _))

/-- A text whose beginning differs from the probe is not taken for it. -/
theorem not_probe {front message : Bytes} (hfront : front <+: message)
    (hprobe : ¬ text "ALIVE" <+: front) (hshort : ¬ front <+: text "ALIVE") :
    ¬ strncmpEq (received message) (text "ALIVE") = true := by
  intro h
  rcases List.prefix_or_prefix_of_prefix hfront (prefix_of_received h) with hpart | hpart
  · exact hshort hpart
  · exact hprobe hpart

theorem prefix_snprintf {size : Nat} {front : Bytes} (rest : Bytes)
    (h : front.length ≤ size - 1) : front <+: snprintf size (front ++ rest) :=
  List.prefix_take_iff.mpr ⟨List.prefix_append _ _, h⟩

/-- Whatever names and messages are, a text that is taken for a probe was sent
    by a sweep. -/
theorem Produced.alive_of_probe {via : Via} {message : Bytes} (h : Produced via message)
    (hprobe : strncmpEq (received message) (text "ALIVE") = true) : via = .alive := by
  cases h with
  | alive => rfl
  | registration result =>
      refine absurd hprobe (not_probe (List.prefix_refl _) ?_ ?_)
      · cases result with
        | registered i => exact (by decide : ¬ text "ALIVE" <+: text "OK: Zarejestrowano pomyslnie")
        | nameUsed | full => decide
      · cases result with
        | registered i => exact (by decide : ¬ text "OK: Zarejestrowano pomyslnie" <+: text "ALIVE")
        | nameUsed | full => decide
  | unknown | farewell | pong =>
      exact absurd hprobe (not_probe (List.prefix_refl _) (by decide) (by decide))
  | listing s =>
      -- The second letter of the header makes the difference.
      exact absurd hprobe (not_probe (prefix_listReply s) (by decide) (by decide))
  | confirm targetName =>
      have hfront : text "Wiadomosc wyslana do " <+: confirmText targetName :=
        prefix_snprintf targetName (by decide)
      exact absurd hprobe (not_probe hfront (by decide) (by decide))
  | notFound targetName =>
      have hfront : text "Klient " <+: notFoundText targetName := by
        unfold notFoundText
        rw [List.append_assoc]
        exact prefix_snprintf _ (by decide)
      exact absurd hprobe (not_probe hfront (by decide) (by decide))
  | toAll timestamp name message =>
      have hfront : text "[" <+: allText timestamp name message := by
        unfold allText
        simp only [List.append_assoc]
        exact prefix_snprintf _ (by decide)
      exact absurd hprobe (not_probe hfront (by decide) (by decide))
  | toOne timestamp name message =>
      have hfront : text "[" <+: oneText timestamp name message := by
        unfold oneText
        simp only [List.append_assoc]
        exact prefix_snprintf _ (by decide)
      exact absurd hprobe (not_probe hfront (by decide) (by decide))

/-- What the receiving thread has put together to send is a text of the
    program. -/
def Pc.Worded : Pc → Prop
  | .reply _ response => Produced .reply response
  | .broadcast _ response => Produced .broadcast response
  | .sendTo _ _ _ response => Produced .toClient response
  | _ => True

/-- A bound on the steps that are left for the datagram at hand, and on the
    entries that they add to the log. -/
def Pc.effort : Pc → Nat
  | .recvfrom => 0
  | .reply _ _ | .remove _ _ => 2
  | .listing _ => 3
  | .register _ _ | .sendTo _ _ _ _ | .farewell _ _ => 4
  | .formatOne _ _ _ _ _ => 5
  | .find _ _ _ _ => 6
  | .broadcast _ _ => maxClients + 1
  | .formatAll _ _ => maxClients + 2
  | .touch _ _ _ => maxClients + 3
  | .lookup _ _ => maxClients + 4

/-- A step of the receiving thread adds `acts` to the log. Whatever it sends is
    a text of the program and no probe, and pays for the step. -/
structure Emits (s : Server) (pc : Pc) (s' : Server) (pc' : Pc) (acts : List Action) : Prop where
  log : s'.log = acts ++ s.log
  sent : ∀ via dst message, .sent via dst message ∈ acts → via ≠ .alive ∧ Produced via message
  worded : pc'.Worded
  effort : acts.length + pc'.effort + 1 ≤ pc.effort

/-- A step that sends nothing. -/
theorem emits_nothing {s s' : Server} {pc pc' : Pc} (hlog : s'.log = s.log) (hworded : pc'.Worded)
    (heffort : pc'.effort + 1 ≤ pc.effort) : Emits s pc s' pc' [] where
  log := hlog
  sent := fun _ _ _ hmem => absurd hmem List.not_mem_nil
  worded := hworded
  effort := by
    rw [List.length_nil, Nat.zero_add]
    exact heffort

/-- A step that adds one entry. -/
theorem emits_one {s s' : Server} {pc pc' : Pc} {act : Action} (hlog : s'.log = act :: s.log)
    (hact : ∀ via dst message, act = .sent via dst message → via ≠ .alive ∧ Produced via message)
    (hworded : pc'.Worded) (heffort : pc'.effort + 2 ≤ pc.effort) :
    Emits s pc s' pc' [act] where
  log := hlog
  sent := fun via dst message hmem => hact via dst message (List.mem_singleton.mp hmem).symm
  worded := hworded
  effort := by
    rw [List.length_singleton]
    omega

/-- A reply of the program. -/
theorem replied {dst : SockAddr} {response : Bytes} (h : Produced .reply response) :
    ∀ via dst' message, Action.sent .reply dst response = .sent via dst' message →
      via ≠ .alive ∧ Produced via message := by
  intro via dst' message heq
  rcases Action.sent.inj heq with ⟨rfl, _, rfl⟩
  exact ⟨Via.noConfusion, h⟩

theorem worded_dispatch (src : SockAddr) (id : Slot) (c : Command) :
    (dispatch src id c).Worded ∧ (dispatch src id c).effort + 1 ≤ maxClients + 3 := by
  have hmax : maxClients = 50 := rfl
  cases c with
  | ping => exact ⟨.pong, by simp only [dispatch, Pc.effort]; omega⟩
  | list | toAll | toOne | quit | ignored =>
      exact ⟨trivial, by simp only [dispatch, Pc.effort]; omega⟩

/-- A message for everybody is sent at most once to each slot. -/
theorem emits_broadcast (s : Server) (id : Slot) {response : Bytes}
    (hresponse : Produced .broadcast response) :
    ∃ acts, Emits s (.broadcast id response) (s.broadcastMessage response id) .recvfrom acts := by
  refine ⟨_, congrArg Server.log (Server.broadcastMessage_eq s response id), ?_, trivial, ?_⟩
  · intro via dst message hmem
    rw [List.mem_reverse, List.mem_map] at hmem
    rcases hmem with ⟨i, _, heq⟩
    rcases Action.sent.inj heq with ⟨rfl, _, rfl⟩
    exact ⟨Via.noConfusion, hresponse⟩
  · have hlength : (s.others id).length ≤ maxClients := by
      have hfilter := List.length_filter_le
        (fun i => (s.clients i).active && decide (i ≠ id)) (List.finRange maxClients)
      rwa [List.length_finRange] at hfilter
    rw [List.length_reverse, List.length_map]
    simp only [Pc.effort]
    omega

/-- A private message is sent to a slot that is active. -/
theorem emits_sendTo (s : Server) (src : SockAddr) (targetId : Slot) (targetName : Bytes)
    {response : Bytes} (hresponse : Produced .toClient response) :
    ∃ acts, Emits s (.sendTo src targetId targetName response) (s.sendToClient response targetId)
      (.reply src (confirmText targetName)) acts := by
  unfold Server.sendToClient
  by_cases hactive : (s.clients targetId).active = true
  · rw [if_pos hactive]
    refine ⟨_, emits_one rfl (fun via dst message heq => ?_) (.confirm targetName) (Nat.le_refl _)⟩
    rcases Action.sent.inj heq with ⟨rfl, _, rfl⟩
    exact ⟨Via.noConfusion, hresponse⟩
  · rw [if_neg hactive]
    exact ⟨[], emits_nothing rfl (.confirm targetName) (Nat.le_of_ble_eq_true rfl)⟩

/-- Every step of the receiving thread. -/
theorem emits_of_turn {clk : LocalClock} {now : Nat} {s s' : Server} {pc pc' : Pc}
    (h : MessageTurn clk now s pc s' pc') (hpc : pc.Worded) : ∃ acts, Emits s pc s' pc' acts := by
  cases h with
  | registration src buffer => exact ⟨[], emits_nothing rfl trivial (Nat.le_of_ble_eq_true rfl)⟩
  | unknown src buffer => exact ⟨[], emits_nothing rfl .unknown (Nat.le_of_ble_eq_true rfl)⟩
  | known src buffer id => exact ⟨[], emits_nothing rfl trivial (Nat.le_of_ble_eq_true rfl)⟩
  | nameUsed src name i =>
      exact ⟨[], emits_nothing rfl (.registration .nameUsed) (Nat.le_of_ble_eq_true rfl)⟩
  | full src name => exact ⟨[], emits_nothing rfl (.registration .full) (Nat.le_of_ble_eq_true rfl)⟩
  | registered src name i =>
      exact ⟨_, emits_one rfl (fun _ _ _ heq => Action.noConfusion heq)
        (.registration (.registered i)) (Nat.le_refl _)⟩
  | touch src id buffer =>
      rcases worded_dispatch src id (parse buffer) with ⟨hworded, heffort⟩
      exact ⟨[], emits_nothing rfl hworded heffort⟩
  | listing src => exact ⟨[], emits_nothing rfl (.listing s) (Nat.le_of_ble_eq_true rfl)⟩
  | formatAll id message =>
      exact ⟨[], emits_nothing rfl (.toAll _ _ message) (Nat.le_of_ble_eq_true rfl)⟩
  | broadcast id response => exact emits_broadcast s id hpc
  | found src id targetName message targetId =>
      exact ⟨[], emits_nothing rfl trivial (Nat.le_of_ble_eq_true rfl)⟩
  | notFound src id targetName message =>
      exact ⟨[], emits_nothing rfl (.notFound targetName) (Nat.le_of_ble_eq_true rfl)⟩
  | formatOne src id targetId targetName message =>
      exact ⟨[], emits_nothing rfl (.toOne _ _ message) (Nat.le_of_ble_eq_true rfl)⟩
  | sendTo src targetId targetName response => exact emits_sendTo s src targetId targetName hpc
  | farewell src id => exact ⟨_, emits_one rfl (replied .farewell) trivial (Nat.le_refl _)⟩
  | remove src id =>
      refine ⟨[.quit src], emits_one ?_ (fun _ _ _ heq => Action.noConfusion heq) trivial
        (Nat.le_refl _)⟩
      change Action.quit src :: (s.removeClient id).log = _
      rw [Server.log_removeClient]
  | reply src response => exact ⟨_, emits_one rfl (replied hpc) trivial (Nat.le_refl _)⟩

end Udp

end OsLabs
