import OsLabs.Udp.Client
import OsLabs.Udp.Handling

/-!
# What a Typed Broadcast Does

Four buffers of one size are on the way of a public message: that of `fgets`
in the client, the datagram, that of `recvfrom`, and the one the server
formats the message in. The last has to hold the time and the name as well,
so it cuts what the others still hold. And what does not fit the first is
sent in a datagram of its own, which the server reads as a command.

So a message arrives whole exactly if the formatted text fits. One that does
not can only do no harm if there is nobody to get it, and if none of the
datagrams after the first happens to be a command.

## Main definitions

* `publicText`: The text of a public message, as long as it may be.
* `Unrecognised`: A datagram that is no command.
* `handleAll`: The server handles several datagrams.
* `ArrivesWhole`: What a typed broadcast should do.

## Theorems

* `handleAll_unrecognised`: Datagrams that are no commands send nothing.
* `typed_broadcast`: The first datagram of a broadcast and the others.
* `arrives_whole_iff`: The broadcasts that arrive whole.
-/

namespace OsLabs

namespace Udp

open Machine

/-- The text of a public message, as long as it may be. -/
def publicText (timestamp name message : Bytes) : Bytes :=
  text "[" ++ timestamp ++ text "] " ++ name ++ text ": " ++ message

/-- The line that is typed for a public message. -/
def allLine (message : Bytes) : Bytes := text "2ALL " ++ message

/-- A datagram that a registered client can send without any effect. -/
def Unrecognised (d : Bytes) : Prop :=
  ¬ strncmpEq d (text "REGISTER ") = true ∧ parse d = .ignored

/-- The server handles the datagrams of one sender. -/
def handleAll (clk : LocalClock) (s : State) (src : SockAddr) (datagrams : List Bytes) : State :=
  datagrams.foldl (fun s d => handle clk s src d) s

/-- The line that the client in slot `id` types goes to each of the others,
    once and with the whole of the message, and does nothing else. -/
structure ArrivesWhole (clk : LocalClock) (s : State) (src : SockAddr) (id : Slot)
    (message : Bytes) : Prop where
  sent : (handleAll clk s src (typed (allLine message))).server.log
    = ((s.server.others id).map fun i => .sent .broadcast (s.server.clients i).addr
        (publicText (clk.stamp s.clock) (s.server.clients id).name.str message)).reverse
      ++ s.server.log
  alone : ∀ d ∈ (typed (allLine message)).tail, Unrecognised d

theorem handle_unrecognised (clk : LocalClock) {s : State} {src : SockAddr} {id : Slot} {d : Bytes}
    (hsender : s.server.findClientByAddr src = some id) (hnul : NulFree d)
    (hfits : d.length ≤ bufferSize - 1) (h : Unrecognised d) :
    (handle clk s src d).server = s.server.touch id s.clock := by
  rw [handle_of_short clk s src hnul hfits]
  unfold Server.handleMessage
  rw [if_neg h.1]
  simp only [hsender, h.2]

/-- Datagrams that are no commands send nothing. -/
theorem handleAll_unrecognised (clk : LocalClock) {s : State} {src : SockAddr} {id : Slot}
    {ds : List Bytes} (hsender : s.server.findClientByAddr src = some id)
    (hshort : ∀ d ∈ ds, NulFree d ∧ d.length ≤ bufferSize - 1) (h : ∀ d ∈ ds, Unrecognised d) :
    (handleAll clk s src ds).server.log = s.server.log := by
  induction ds generalizing s with
  | nil => rfl
  | cons d ds ih =>
      rcases hshort d List.mem_cons_self with ⟨hnul, hfits⟩
      -- Only `last_ping` is written, so the sender is found again.
      have hserver := handle_unrecognised clk hsender hnul hfits (h d List.mem_cons_self)
      have hsender' : (handle clk s src d).server.findClientByAddr src = some id := by
        rw [hserver, Server.findClientByAddr_touch]
        exact hsender
      have hrest := ih hsender' (fun d hd => hshort d (List.mem_cons_of_mem _ hd))
        (fun d hd => h d (List.mem_cons_of_mem _ hd))
      rw [hserver] at hrest
      exact hrest

/-- The first datagram of a broadcast and the others. -/
theorem typed_broadcast {message : Bytes} (hnul : NulFree message)
    (hline : (10 : UInt8) ∉ message) :
    typed (allLine message) = allLine (message.take 1018) :: typed (message.drop 1018) := by
  have htake : (allLine message).take (bufferSize - 1) = allLine (message.take 1018) := rfl
  have hdrop : (allLine message).drop (bufferSize - 1) = message.drop 1018 := rfl
  -- It begins with a `2`, so it is no command of the client.
  have hhead : (allLine (message.take 1018)).head? = some 50 := rfl
  have hne : ∀ word : Bytes, word.head? ≠ some 50 → allLine (message.take 1018) ≠ word := by
    intro word hword heq
    rw [heq] at hhead
    exact hword hhead
  rw [typed_split, htake, hdrop]
  · exact nulFree_append.mpr ⟨by decide, hnul⟩
  · intro hmem
    rcases List.mem_append.mp hmem with hword | hmessage
    · exact absurd hword (by decide)
    · exact hline hmessage
  · exact List.cons_ne_nil _ _
  · exact hne _ (by decide)
  · exact hne _ (by decide)

/-- What the first datagram does. -/
theorem handle_broadcast (clk : LocalClock) {s : State} {src : SockAddr} {id : Slot}
    {message : Bytes} (hsender : s.server.findClientByAddr src = some id)
    (hnul : NulFree message) (hfits : message.length ≤ 1018) :
    (handle clk s src (allLine message)).server = (s.server.touch id s.clock).broadcastMessage
      (allText (clk.stamp s.clock) (s.server.clients id).name.str message) id := by
  have hregister : ¬ strncmpEq (allLine message) (text "REGISTER ") = true := Bool.false_ne_true
  have hparse : parse (allLine message) = .toAll message := rfl
  have hlength : (allLine message).length = 5 + message.length := by
    unfold allLine
    rw [List.length_append]
    rfl
  have hbuffer : bufferSize - 1 = 1023 := rfl
  have hwhole : NulFree (allLine message) := nulFree_append.mpr ⟨by decide, hnul⟩
  rw [handle_of_short clk s src hwhole (by omega)]
  unfold Server.handleMessage
  rw [if_neg hregister]
  simp only [hsender, hparse, Server.clients_touch]

theorem others_touch (s : Server) (id : Slot) (now : Nat) :
    (s.touch id now).others id = s.others id := by
  simp only [Server.others, Server.clients_touch]

/-- What the datagrams of a broadcast send, if those after the first are no
    commands. -/
theorem handleAll_broadcast (clk : LocalClock) {s : State} {src : SockAddr} {id : Slot}
    {message : Bytes} (hsender : s.server.findClientByAddr src = some id)
    (hnul : NulFree message) (hline : (10 : UInt8) ∉ message)
    (halone : ∀ d ∈ typed (message.drop 1018), Unrecognised d) :
    (handleAll clk s src (typed (allLine message))).server.log
      = ((s.server.others id).map fun i => .sent .broadcast (s.server.clients i).addr
          (allText (clk.stamp s.clock) (s.server.clients id).name.str
            (message.take 1018))).reverse ++ s.server.log := by
  have hfirst := handle_broadcast clk hsender (nulFree_take 1018 hnul)
    (List.length_take_le 1018 message)
  have hlog : (handle clk s src (allLine (message.take 1018))).server.log
      = ((s.server.others id).map fun i => .sent .broadcast (s.server.clients i).addr
          (allText (clk.stamp s.clock) (s.server.clients id).name.str
            (message.take 1018))).reverse ++ s.server.log := by
    rw [hfirst, Server.broadcastMessage_eq, others_touch]
    simp only [Server.clients_touch]
    rfl
  have hsender' : (handle clk s src (allLine (message.take 1018))).server.findClientByAddr src
      = some id := by
    rw [hfirst, Server.broadcastMessage_eq]
    exact (Server.findClientByAddr_touch ..).trans hsender
  rw [typed_broadcast hnul hline, ← hlog]
  exact handleAll_unrecognised clk hsender' (fun d hd => typed_mem hd) halone

theorem length_publicText (clk : LocalClock) (now : Nat) (name message : Bytes) :
    (publicText (clk.stamp now) name message).length = 13 + name.length + message.length := by
  have hopen : (text "[").length = 1 := by decide
  have hclose : (text "] ").length = 2 := by decide
  have hcolon : (text ": ").length = 2 := by decide
  unfold publicText
  simp only [List.length_append, clk.length_stamp]
  omega

/-- A typed broadcast arrives whole and does nothing else exactly if the text
    fits the buffer, or nobody gets it and what is cut off is no command. -/
theorem arrives_whole_iff (clk : LocalClock) {s : State} {src : SockAddr} {id : Slot}
    {message : Bytes} (hsender : s.server.findClientByAddr src = some id)
    (hnul : NulFree message) (hline : (10 : UInt8) ∉ message) :
    ArrivesWhole clk s src id message ↔
      13 + (s.server.clients id).name.str.length + message.length ≤ bufferSize - 1 ∨
      (s.server.others id = [] ∧ ∀ d ∈ typed (message.drop 1018), Unrecognised d) := by
  have hbuffer : bufferSize - 1 = 1023 := rfl
  have hlength := length_publicText clk s.clock (s.server.clients id).name.str message
  have htail : (typed (allLine message)).tail = typed (message.drop 1018) := by
    rw [typed_broadcast hnul hline, List.tail_cons]
  constructor
  · rintro ⟨hsent, halone⟩
    rw [htail] at halone
    rw [handleAll_broadcast clk hsender hnul hline halone] at hsent
    have hsame := List.reverse_injective (List.append_cancel_right hsent)
    cases hothers : s.server.others id with
    | nil => exact Or.inr ⟨rfl, halone⟩
    | cons i rest =>
        -- Somebody gets the text, and no more of it than fits the buffer.
        left
        rw [hothers, List.map_cons, List.map_cons] at hsame
        have htext := (Action.sent.inj (List.cons.inj hsame).1).2.2
        have hcut : (allText (clk.stamp s.clock) (s.server.clients id).name.str
            (message.take 1018)).length ≤ bufferSize - 1 := List.length_take_le _ _
        rw [htext] at hcut
        omega
  · rintro (hfits | ⟨hothers, halone⟩)
    · have htake : message.take 1018 = message := List.take_of_length_le (by omega)
      have hdrop : message.drop 1018 = [] := List.drop_of_length_le (by omega)
      have hnone : ∀ d ∈ typed (message.drop 1018), Unrecognised d := by
        rw [hdrop]
        exact fun d hd => absurd hd List.not_mem_nil
      -- Nothing is cut, neither by the client nor by the server.
      have htext : allText (clk.stamp s.clock) (s.server.clients id).name.str message
          = publicText (clk.stamp s.clock) (s.server.clients id).name.str message :=
        List.take_of_length_le (le_trans (le_of_eq hlength) hfits)
      refine ⟨?_, by rwa [htail]⟩
      rw [handleAll_broadcast clk hsender hnul hline hnone, htake, htext]
    · refine ⟨?_, by rwa [htail]⟩
      rw [handleAll_broadcast clk hsender hnul hline halone, hothers]
      rfl

/-- Two clients register. -/
def pairRun : List Event :=
  [.datagram ⟨1, 1⟩ (text "REGISTER ala"), .message, .message, .message,
    .datagram ⟨2, 2⟩ (text "REGISTER ola"), .message, .message, .message]

theorem hello_arrives :
    ∃ s, exec (step stoppedClock) init pairRun = some s ∧
      ArrivesWhole stoppedClock s ⟨1, 1⟩ 0 (text "hej") := by
  have hend : (exec (step stoppedClock) init pairRun).any (fun s =>
      decide (s.server.findClientByAddr ⟨1, 1⟩ = some 0 ∧
        (s.server.clients 0).name.str = text "ala")) = true := by
    decide +kernel
  rcases exists_of_exec_any hend with ⟨s, hrun, hs⟩
  rcases of_decide_eq_true hs with ⟨hsender, hname⟩
  refine ⟨s, hrun, (arrives_whole_iff stoppedClock hsender (by decide) (by decide)).mpr ?_⟩
  rw [hname]
  exact Or.inl (by decide)

/-- A long line ends in `QUIT`, which the client sends as a command. -/
theorem tail_quits :
    ¬ ∀ (clk : LocalClock) (s : State) (src : SockAddr) (id : Slot) (message : Bytes),
      Reaches (step clk) init s → s.server.findClientByAddr src = some id → NulFree message →
        (10 : UInt8) ∉ message → ArrivesWhole clk s src id message := by
  intro hall
  have hend : (exec (step stoppedClock) init pairRun).any (fun s =>
      decide (s.server.findClientByAddr ⟨1, 1⟩ = some 0)) = true := by
    decide +kernel
  rcases exists_of_exec_any hend with ⟨s, hrun, hs⟩
  have hnul : NulFree (List.replicate 1018 97 ++ text "QUIT") := by
    refine nulFree_append.mpr ⟨fun hmem => ?_, by decide⟩
    exact absurd (List.eq_of_mem_replicate hmem) (by decide)
  have hline : (10 : UInt8) ∉ List.replicate 1018 97 ++ text "QUIT" := by
    intro hmem
    rcases List.mem_append.mp hmem with hfill | hword
    · exact absurd (List.eq_of_mem_replicate hfill) (by decide)
    · exact absurd hword (by decide)
  have hwhole := hall stoppedClock s ⟨1, 1⟩ 0 _ ⟨pairRun, hrun⟩ (of_decide_eq_true hs) hnul hline
  have hdrop : (List.replicate 1018 (97 : UInt8) ++ text "QUIT").drop 1018 = text "QUIT" :=
    List.drop_left' List.length_replicate
  have halone := hwhole.alone (text "QUIT") (by
    rw [typed_broadcast hnul hline, List.tail_cons, hdrop]
    decide)
  exact absurd halone.2 (by decide)

end Udp

end OsLabs
