import OsLabs.Sysv.Order

/-!
# A Typed Line in Pieces

What a user types is read by `fgets` in pieces of at most 255 bytes, and every
piece becomes a message of its own. The server puts its `Client <id>: ` in
front of a piece and formats the two into an array of the size that the piece
came in. So a piece that fills its array loses its end, by the length of what
was put in front, and so does the newline of a line that nearly does.

A line arrives complete exactly if it and its newline leave room for the
prefix. Then it is one piece.

While the pieces of a line are in the server's queue the server may read other
messages between them, from other clients and from processes that want to be
registered. A client tells the responses to one line by the id that is in them.

## Main definitions

* `pieces`, `lineMessages`: What the input loop of a client sends for a line.
* `Server.sentTo`, `received`: What the server sends for one entry.
* `header`, `body`: The prefix of a response and what follows it.
* `Carries`: What the server reads of a sender are the pieces of a line.

## Theorems

* `broadcastMessage_eq`: A broadcast sends for all entries, one by one.
* `received_eq_chats`: What is sent for an entry in a run.
* `bodies_received`: What another client has of a line.
* `flatMap_take_pieces_iff`: When no piece is cut.
* `line_complete_iff`: When a line arrives complete.
-/

namespace OsLabs

namespace Sysv

open Server

/-- What `fgets` reads of a line that was typed. -/
def pieces (line : Bytes) : List Bytes := fgetsCalls maxText [] (line ++ [10])

/-- The messages that the input loop sends for a line. -/
def lineMessages (clientId : Int) (line : Bytes) : List Message :=
  (pieces line).map (lineMessage clientId)

/-- What the loop in `broadcast_message` sends for an entry, if the message is
    broadcast. -/
def Server.sentTo (s : Server) (j : Fin maxClients) (m : Message) : Option Response :=
  if !m.isInit ∧ (s.clients j).active ∧ (s.clients j).clientId ≠ m.pid then
    some (chatResponse m.pid m.text)
  else none

/-- What is sent for an entry while the server reads the messages. -/
def received (j : Fin maxClients) (s : Server) : List Input → List Response
  | [] => []
  | x :: xs => (s.sentTo j x.1).toList ++ received j (s.receive (some x.2) x.1).1 xs

/-- What comes before the text of a message. -/
def header (clientId : Int) : Bytes := text "Client " ++ decimal clientId ++ text ": "

/-- A response without its prefix. -/
def body (r : Response) : Bytes := r.text.drop (header r.clientId).length

/-- The chat messages that carry an id are those of one line, in order. -/
def Carries (clientId : Int) (line : Bytes) (inputs : List Input) : Prop :=
  (inputs.filter fun x => !x.1.isInit && x.1.pid == clientId).map Prod.fst
    = lineMessages clientId line

/-- No piece begins with the word of a request. -/
def NoInit (line : Bytes) : Prop := ∀ piece ∈ pieces line, strncmpEq piece initWord = false

section Entries

variable {s : Server} {j : Fin maxClients}

/-- A broadcast is what is sent for all entries, one after the other. -/
theorem broadcastMessage_eq (s : Server) {m : Message} (hchat : m.isInit = false) :
    s.broadcastMessage m.pid m.text = (List.finRange maxClients).filterMap fun i =>
      (s.sentTo i m).map fun r => ((s.clients i).queueId, r) := by
  refine List.filterMap_congr fun i _ => ?_
  rw [sentTo, hchat]
  by_cases hother : (s.clients i).active = true ∧ (s.clients i).clientId ≠ m.pid
  · rw [if_pos hother, if_pos ⟨rfl, hother⟩]
    rfl
  · rw [if_neg hother, if_neg (fun h => hother h.2)]
    rfl

/-- An entry that is in use stays as it is. -/
theorem clients_receive (h : Filled s) (hj : (s.clients j).active = true)
    (opened : Option QueueId) (m : Message) : (s.receive opened m).1.clients j = s.clients j := by
  cases receive_cases s opened m with
  | chat _ hserver | full _ _ hserver | unopened _ _ _ hserver => rw [hserver]
  | registered hinit hroom queueId hopened hserver =>
      -- The entry that is filled in is the first one not in use.
      have hlt := (h.active j).mp hj
      have hne : j ≠ ⟨s.clientCount, hroom⟩ := fun heq =>
        Nat.ne_of_lt hlt (congrArg Fin.val heq)
      rw [hserver, register_of_ne s queueId hne]

theorem sentTo_eq (h : Filled s) (hj : (s.clients j).active = true) (m : Message) :
    s.sentTo j m = if !m.isInit && decide (m.pid ∉ [(j.val + 1 : Int)]) then
      some (chatResponse m.pid m.text) else none := by
  have hid : (s.clients j).clientId = j.val + 1 := h.ids j ((h.active j).mp hj)
  rw [sentTo, hid, hj]
  refine if_congr ?_ rfl rfl
  rw [Bool.and_eq_true, decide_eq_true_eq, List.mem_singleton, ne_comm]
  simp only [true_and]

/-- What is sent for an entry is what the others chat. -/
theorem received_eq_chats (h : Filled s) (hj : (s.clients j).active = true)
    (inputs : List Input) : received j s inputs = chats [j.val + 1] inputs := by
  induction inputs generalizing s with
  | nil => rfl
  | cons x xs ih =>
      have hnext := clients_receive h hj (some x.2) x.1
      rw [received, ih (filled_receive h (some x.2) x.1) (by rw [hnext]; exact hj),
        sentTo_eq h hj, chats, chats, List.filter_cons]
      by_cases hchat : (!x.1.isInit && decide (x.1.pid ∉ [(j.val + 1 : Int)])) = true
      · rw [if_pos hchat, if_pos hchat]
        rfl
      · rw [if_neg hchat, if_neg hchat]
        rfl

end Entries

section Line

variable {line : Bytes} {clientId : Int}

theorem nulFree_piece (hnul : NulFree line) {piece : Bytes} (hpiece : piece ∈ pieces line) :
    NulFree piece := by
  have hall : NulFree (pieces line).flatten := by
    rw [pieces, flatten_fgetsCalls, List.nil_append, nulFree_append]
    exact ⟨hnul, by decide⟩
  exact fun hmem => hall (List.mem_flatten.mpr ⟨piece, hpiece, hmem⟩)

/-- Cutting the parts of something leaves the whole exactly if no part is
    cut. -/
theorem flatMap_take_eq_flatten_iff {l : List Bytes} {n : Nat} :
    l.flatMap (List.take n) = l.flatten ↔ ∀ piece ∈ l, piece.length ≤ n := by
  -- Cutting makes the whole no longer.
  have hle : ∀ l : List Bytes, (l.flatMap (List.take n)).length ≤ l.flatten.length := by
    intro l
    induction l with
    | nil => exact Nat.le_refl _
    | cons piece l ih =>
        rw [List.flatMap_cons, List.flatten_cons, List.length_append, List.length_append]
        exact Nat.add_le_add (List.length_take_le' n piece) ih
  induction l with
  | nil => exact iff_of_true rfl fun _ h => absurd h List.not_mem_nil
  | cons piece l ih =>
      rw [List.flatMap_cons, List.flatten_cons, List.forall_mem_cons]
      constructor
      · intro h
        have hfits : piece.length ≤ n := by
          -- What is missing of the first part is missing of the whole.
          have hlength := congrArg List.length h
          rw [List.length_append, List.length_append, List.length_take] at hlength
          have hrest := hle l
          omega
        rw [List.take_of_length_le hfits] at h
        exact ⟨hfits, ih.mp (List.append_cancel_left h)⟩
      -- No part is cut, so the whole is the same.
      · rintro ⟨hfits, hrest⟩
        rw [List.take_of_length_le hfits, ih.mpr hrest]

/-- A line that fits is one piece. -/
theorem pieces_short (hline : (10 : UInt8) ∉ line) (hfits : line.length + 1 ≤ 255) :
    pieces line = [line ++ [10]] := by
  have hroom : ([] : Bytes).length + line.length + 1 < maxText := by
    rw [List.length_nil, maxText]
    omega
  rw [pieces, fgetsCalls_line [] hline hroom]
  rfl

/-- Of one that does not, the first piece fills its array. -/
theorem pieces_long (hline : (10 : UInt8) ∉ line) (hlong : 255 ≤ line.length) :
    line.take 255 ∈ pieces line := by
  have hlength : (line.take 255).length = 255 := List.length_take_of_le hlong
  have hne : line.take 255 ≠ [] := by
    intro hnil
    rw [hnil] at hlength
    cases hlength
  have hsplit : line ++ [10] = line.take 255 ++ (line.drop 255 ++ [10]) := by
    rw [← List.append_assoc, List.take_append_drop]
  rw [pieces, hsplit, fgetsCalls_part _ (fun hmem => hline (List.mem_of_mem_take hmem)) hne
    (by rw [List.length_nil, hlength]; rfl)]
  exact List.mem_cons_self

/-- With less room than an array has, all pieces fit only if there is one. -/
theorem pieces_fit_iff (hline : (10 : UInt8) ∉ line) {n : Nat} (hn : n < 255) :
    (∀ piece ∈ pieces line, piece.length ≤ n) ↔ line.length + 1 ≤ n := by
  rcases Nat.lt_or_ge line.length 255 with hshort | hlong
  · rw [pieces_short hline hshort]
    simp only [List.mem_singleton, forall_eq, List.length_append, List.length_singleton]
  · constructor
    · intro h
      have hfirst := h _ (pieces_long hline hlong)
      rw [List.length_take_of_le hlong] at hfirst
      omega
    · intro h
      omega

theorem flatMap_take_pieces_iff (hline : (10 : UInt8) ∉ line) {n : Nat} (hn : n < 255) :
    (pieces line).flatMap (List.take n) = line ++ [10] ↔ line.length + 1 ≤ n := by
  have hwhole : line ++ [10] = (pieces line).flatten := by
    rw [pieces, flatten_fgetsCalls, List.nil_append]
  rw [hwhole, flatMap_take_eq_flatten_iff, pieces_fit_iff hline hn]

/-- What is left of a piece in a response. -/
theorem body_chatResponse (hheader : (header clientId).length ≤ 255) (piece : Bytes) :
    body (chatResponse clientId piece) = piece.take (255 - (header clientId).length) := by
  change ((header clientId ++ piece).take 255).drop (header clientId).length = _
  rw [List.take_append, List.take_of_length_le hheader, List.drop_left]

/-- The ids have one digit, or two. -/
theorem length_header : ∀ i : Fin maxClients,
    (header (i.val + 1)).length = if i.val = 9 then 11 else 10 := by
  decide

/-- A line whose pieces the server reads one after the other. -/
theorem carries_alone (hnul : NulFree line) (hinit : NoInit line) (opened : QueueId) :
    Carries clientId line ((lineMessages clientId line).map fun m => (m, opened)) := by
  have hall : ((lineMessages clientId line).map fun m => (m, opened)).filter
      (fun x => !x.1.isInit && x.1.pid == clientId)
        = (lineMessages clientId line).map fun m => (m, opened) := by
    rw [List.filter_eq_self]
    intro x hx
    rcases List.mem_map.mp hx with ⟨m, hm, rfl⟩
    rcases List.mem_map.mp hm with ⟨piece, hpiece, rfl⟩
    have hplain := hinit piece hpiece
    rw [← cstr_of_nulFree (nulFree_piece hnul hpiece)] at hplain
    rw [Bool.and_eq_true, Bool.not_eq_true']
    exact ⟨hplain, BEq.rfl⟩
  rw [Carries, hall, List.map_map]
  exact List.map_id _

end Line

section Run

variable {history window : List Input} {i j : Fin maxClients} {sender reader : Int}
  {q q' : QueueId} {line : Bytes}

/-- Of what is sent for an entry, the part that carries an id. -/
theorem filter_chats (hne : sender ≠ reader) (inputs : List Input) :
    (chats [reader] inputs).filter (fun r => r.clientId == sender) =
      ((inputs.filter fun x => !x.1.isInit && x.1.pid == sender).map Prod.fst).map
        fun m => chatResponse m.pid m.text := by
  rw [chats, List.filter_map, List.filter_filter, List.map_map]
  congr 1
  refine List.filter_congr fun x _ => ?_
  -- Whoever sent it is not the reader.
  by_cases hsender : x.1.pid = sender
  · have hother : x.1.pid ∉ [reader] := by
      rw [hsender, List.mem_singleton]
      exact hne
    rw [decide_eq_true hother, Bool.and_true]
    exact Bool.and_comm _ _
  · have hnot : (x.1.pid == sender) = false := beq_eq_false_iff_ne.mpr hsender
    change (x.1.pid == sender && _) = _
    rw [hnot, Bool.false_and, Bool.and_false]

/-- What another client has of a line. -/
theorem bodies_received (hsender : (run history).1.clients i = ⟨sender, q, true⟩)
    (hreader : (run history).1.clients j = ⟨reader, q', true⟩) (hne : sender ≠ reader)
    (hnul : NulFree line) (hcarries : Carries sender line window) :
    ((received j (run history).1 window).filter fun r => r.clientId == sender).flatMap body
      = (pieces line).flatMap (List.take (255 - (header sender).length)) := by
  have hfilled := (kept_run history).filled
  have hactive : ∀ k id q, (run history).1.clients k = ⟨id, q, true⟩ →
      ((run history).1.clients k).active = true ∧ id = k.val + 1 := by
    intro k id q hk
    have hused : ((run history).1.clients k).active = true := by rw [hk]
    have hid := hfilled.ids k ((hfilled.active k).mp hused)
    rw [hk] at hid
    exact ⟨hused, hid⟩
  -- Both are in the registry, with ids that are the numbers of their entries.
  rcases hactive i sender q hsender with ⟨_, hi⟩
  rcases hactive j reader q' hreader with ⟨hj, hj'⟩
  have hheader : (header sender).length ≤ 255 := by
    rw [hi, length_header i]
    split <;> omega
  rw [received_eq_chats hfilled hj, ← hj', filter_chats hne, hcarries, lineMessages,
    List.map_map, List.flatMap_map]
  -- Piece by piece, what is left behind the header is the part that fits.
  refine List.flatMap_congr fun piece hpiece => ?_
  change body (chatResponse sender (cstr piece)) = _
  rw [cstr_of_nulFree (nulFree_piece hnul hpiece), body_chatResponse hheader]

/-- A line arrives complete exactly if it leaves room for the prefix, and is
    not cut then. -/
theorem line_complete_iff (hsender : (run history).1.clients i = ⟨sender, q, true⟩)
    (hreader : (run history).1.clients j = ⟨reader, q', true⟩) (hne : sender ≠ reader)
    (hline : (10 : UInt8) ∉ line) (hnul : NulFree line) (hcarries : Carries sender line window) :
    ((received j (run history).1 window).filter fun r => r.clientId == sender).flatMap body
      = line ++ [10] ↔ line.length + 1 + (header sender).length ≤ 255 := by
  have hid := (kept_run history).filled.ids i (((kept_run history).filled.active i).mp (by
    rw [hsender]))
  rw [hsender] at hid
  change sender = i.val + 1 at hid
  have hheader : 10 ≤ (header sender).length ∧ (header sender).length ≤ 11 := by
    rw [hid, length_header i]
    split <;> omega
  rw [bodies_received hsender hreader hne hnul hcarries, flatMap_take_pieces_iff hline (by omega)]
  omega

/-- Two clients, for tests. -/
def pairHistory : List Input := [(initMessage 1000 11, 7), (initMessage 1001 12, 8)]

theorem pair_first : (run pairHistory).1.clients ⟨0, by decide⟩ = ⟨1, 7, true⟩ := rfl

theorem pair_second : (run pairHistory).1.clients ⟨1, by decide⟩ = ⟨2, 8, true⟩ := rfl

theorem hello_complete : ((received ⟨1, by decide⟩ (run pairHistory).1
    [(lineMessage 2 (text "hi\n"), 9), (lineMessage 1 (text "hello\n"), 9)]).filter
      fun r => r.clientId == 1).flatMap body = text "hello" ++ [10] := by
  have hcarries : Carries 1 (text "hello")
      [(lineMessage 2 (text "hi\n"), 9), (lineMessage 1 (text "hello\n"), 9)] := rfl
  exact (line_complete_iff pair_first pair_second (by decide) (by decide) (by decide)
    hcarries).mpr (by decide)

/-- A line whose text fits behind the prefix, and whose newline does not. -/
def tightLine : Bytes := List.replicate 245 97

theorem newline_lost : NoInit tightLine ∧
    ((received ⟨1, by decide⟩ (run pairHistory).1
      ((lineMessages 1 tightLine).map fun m => (m, 9))).filter
        fun r => r.clientId == 1).flatMap body ≠ tightLine ++ [10] := by
  have hline : (10 : UInt8) ∉ tightLine := fun h => absurd (List.eq_of_mem_replicate h) (by decide)
  have hnul : NulFree tightLine := fun h => absurd (List.eq_of_mem_replicate h) (by decide)
  have hlength : tightLine.length = 245 := List.length_replicate
  have hinit : NoInit tightLine := by
    rw [NoInit, pieces_short hline (by omega)]
    intro piece hpiece
    rw [List.mem_singleton.mp hpiece]
    rfl
  refine ⟨hinit, ?_⟩
  rw [bodies_received pair_first pair_second (by decide) hnul (carries_alone hnul hinit 9), Ne,
    flatMap_take_pieces_iff hline (by decide), hlength]
  decide

end Run

end Sysv

end OsLabs
