import OsLabs.Tcp.Handling
import OsLabs.Udp.Isolation
import OsLabs.Udp.Table

/-!
# One Chat, Two Servers

`cw11/assignment/server.c` and `cw12/assignment/server.c` interpret the same
commands, each in a copy of its own. What they have in common is stated once
here, for a table of names and without sockets or addresses: what a message
asks for, who is sent a chat text and what its sender is told. Each server is
then shown to do that, in its own way.

The TCP server ends its texts with a newline and lets a client go without a
word; the UDP server does neither. A text that does not fit the buffer is cut
after the newline has been put at its end, so that it may be lost.

## Main definitions

* `Reply`, `Outcome`: What the server does about it.
* `find`, `others`, `outcome`: The chat, for a table of names.
* `Tcp.Renders`, `Udp.Renders`: The outcome, as each server produces it.

## Theorems

* `renders_handleBuffer`, `renders_handleMessage`: Each server does what the
  chat says.
* `same_chat`: The servers do the same.
-/

namespace OsLabs

namespace Chat

/-- What the sender of a message is told: who is there, that the server is,
    or what became of a private message. -/
inductive Reply where
  | clients
  | pong
  | sentTo (targetName : Bytes)
  | notFound (targetName : Bytes)

/-- What comes of a message: a chat text for some slots, of a public or a
    private message and not cut yet, a reply, and whether the sender leaves. -/
structure Outcome (n : Nat) where
  recipients : List (Fin n)
  isPrivate : Bool
  chat : Bytes
  reply : Option Reply
  leaves : Bool

variable {n : Nat}

/-- Nobody is sent a chat text. -/
def Outcome.quiet (reply : Option Reply) (leaves : Bool) : Outcome n :=
  ⟨[], false, [], reply, leaves⟩

/-- The first slot with this name. -/
def find (names : Fin n → Option Bytes) (name : Bytes) : Option (Fin n) :=
  scan fun i => names i == some name

/-- The slots of everybody else. -/
def others (names : Fin n → Option Bytes) (id : Fin n) : List (Fin n) :=
  (List.finRange n).filter fun i => (names i).isSome && decide (i ≠ id)

/-- The text of a message, as long as it may be. -/
def chatText (timestamp name mark message : Bytes) : Bytes :=
  text "[" ++ timestamp ++ text "] " ++ name ++ mark ++ message

/-- The list of clients, as long as it may be. -/
def listing (names : Fin n → Option Bytes) : Bytes :=
  (List.finRange n).foldl (fun response i => match names i with
    | some name => response ++ snprintf 64 (text "- " ++ name ++ text "\n")
    | none => response) (text "Aktywni klienci:\n")

/-- What comes of a request of the client in slot `id`, in a table of the
    names of all clients. -/
def outcome (names : Fin n → Option Bytes) (timestamp : Bytes) (id : Fin n) :
    Request → Outcome n
  | .list => .quiet (some .clients) false
  | .toAll message =>
      ⟨others names id, false,
        chatText timestamp ((names id).getD []) (text ": ") message, none, false⟩
  | .toOne targetName message =>
      match find names targetName with
      | some targetId =>
          ⟨[targetId], true,
            chatText timestamp ((names id).getD []) (text " (prywatnie): ") message,
            some (.sentTo targetName), false⟩
      | none => .quiet (some (.notFound targetName)) false
  | .leave => .quiet none true
  | .ping => .quiet (some .pong) false
  | .other => .quiet none false

section Table

variable (active : Fin n → Bool) (name : Fin n → Bytes)

/-- In a table with flags, the slots that are looked at are the active ones. -/
theorem find_table (target : Bytes) :
    find (fun i => if active i then some (name i) else none) target
      = scan fun i => active i && name i == target := by
  unfold find
  congr 1
  ext1 i
  dsimp only
  cases active i with
  | true => rfl
  | false => rfl

theorem others_table (id : Fin n) :
    others (fun i => if active i then some (name i) else none) id
      = (List.finRange n).filter fun i => active i && decide (i ≠ id) := by
  unfold others
  congr 1
  ext1 i
  dsimp only
  cases active i with
  | true => rfl
  | false => rfl

theorem listing_table :
    listing (fun i => if active i then some (name i) else none)
      = (List.finRange n).foldl (fun response i =>
          if active i then response ++ snprintf 64 (text "- " ++ name i ++ text "\n")
          else response) (text "Aktywni klienci:\n") := by
  unfold listing
  congr 1
  ext1 response
  ext1 i
  dsimp only
  cases active i with
  | true => rfl
  | false => rfl

end Table

/-- Nobody leaves without the word. -/
theorem leaves_outcome (names : Fin n → Option Bytes) (timestamp : Bytes) (id : Fin n)
    {word buffer : Bytes} (hword : ¬ strncmpEq buffer word = true) :
    (outcome names timestamp id (request word buffer)).leaves = false := by
  have hstays : ∀ r : Request, r ≠ .leave → (outcome names timestamp id r).leaves = false := by
    intro r hr
    cases r with
    | leave => exact absurd rfl hr
    | toOne targetName message =>
        rw [outcome]
        cases find names targetName <;> rfl
    | list | toAll | ping | other => rfl
  exact hstays _ (request_ne_leave hword)

end Chat

namespace Tcp

/-- The names of the active clients. -/
def Server.names (s : Server) (i : Slot) : Option Bytes :=
  if (s.clients i).active then some (s.clients i).name.str else none

/-- The text of a reply. -/
def Server.replyText (s : Server) : Chat.Reply → Bytes
  | .clients => Chat.listing s.names
  | .pong => text "PONG\n"
  | .sentTo targetName => confirmText targetName
  | .notFound targetName => notFoundText targetName

/-- The first bytes of the chat text with a newline go to the sockets of the
    slots, and the reply to the socket of the sender. If the sender leaves its slot is
    deactivated, and nobody else's is. -/
structure Renders (s s' : Server) (id : Slot) (o : Chat.Outcome maxClients) : Prop where
  sent : s'.sent = s.sent
    ++ o.recipients.map (fun i =>
        ((s.clients i).socket, (o.chat ++ text "\n").take (bufferSize - 1)))
    ++ (o.reply.map fun r => ((s.clients id).socket, s.replyText r)).toList
  active : ∀ i, (s'.clients i).active = ((s.clients i).active && !(o.leaves && decide (i = id)))

theorem names_of_active {s : Server} {id : Slot} (hactive : (s.clients id).active = true) :
    s.names id = some (s.clients id).name.str :=
  if_pos hactive

theorem isSome_names (s : Server) (i : Slot) : (s.names i).isSome = (s.clients i).active := by
  unfold Server.names
  cases (s.clients i).active with
  | true => rfl
  | false => rfl

theorem find_names (s : Server) (name : Bytes) :
    Chat.find s.names name = s.findClientByName name :=
  Chat.find_table _ _ name

theorem others_names (s : Server) (id : Slot) : Chat.others s.names id = s.others id :=
  Chat.others_table _ _ id

theorem listReply_names (s : Server) : s.listReply = Chat.listing s.names :=
  (Chat.listing_table _ _).symm

/-- Writing `last_ping` changes nothing that the commands look at. -/
theorem fields_touch (s : Server) (id : Slot) (now : Nat) :
    (s.touch id now).sent = s.sent ∧ (s.touch id now).listReply = s.listReply ∧
      (s.touch id now).others id = s.others id ∧
      ∀ name, (s.touch id now).findClientByName name = s.findClientByName name := by
  refine ⟨rfl, ?_, ?_, fun name => ?_⟩
  · simp only [Server.listReply, Server.clients_touch]
  · simp only [Server.others, Server.clients_touch]
  · simp only [Server.findClientByName, Server.clients_touch]

theorem active_touch (s : Server) (id : Slot) (now : Nat) (i : Slot) :
    ((s.touch id now).clients i).active = (s.clients i).active := by
  rw [Server.clients_touch]

theorem socket_touch (s : Server) (id : Slot) (now : Nat) (i : Slot) :
    ((s.touch id now).clients i).socket = (s.clients i).socket := by
  rw [Server.clients_touch]

/-- A message that is answered, or not even that. -/
theorem renders_quiet {s s' : Server} {id : Slot} (reply : Option Chat.Reply)
    (hsent : s'.sent
      = s.sent ++ (reply.map fun r => ((s.clients id).socket, s.replyText r)).toList)
    (hactive : ∀ i, (s'.clients i).active = (s.clients i).active) :
    Renders s s' id (.quiet reply false) where
  sent := by rw [hsent, Chat.Outcome.quiet, List.map_nil, List.append_nil]
  active := by
    intro i
    rw [hactive, Chat.Outcome.quiet, Bool.false_and, Bool.not_false, Bool.and_true]

/-- The TCP server does what the chat says. -/
theorem renders_handleBuffer (clk : LocalClock) (now : Nat) {s : Server} {id : Slot}
    (hactive : (s.clients id).active = true) (buffer : Bytes) :
    Renders s (s.handleBuffer clk now id buffer).1 id (Chat.outcome s.names (clk.stamp now) id
      (Chat.request (text "STOP") (cstr buffer))) := by
  have ⟨hsent, hlist, hothers, hfind⟩ := fields_touch s id now
  have hsocket := socket_touch s id now
  have hflags := active_touch s id now
  have hname : ((s.touch id now).clients id).name.str = (s.clients id).name.str := by
    rw [Server.clients_touch]
  unfold Server.handleBuffer
  -- By the request: both sides branch on the same four characters.
  rw [parse_request]
  cases Chat.request (text "STOP") (cstr buffer) with
  | list =>
      refine renders_quiet (some .clients) ?_ hflags
      simp only [Command.ofRequest, Server.send, hsent, hsocket, hlist, listReply_names]
      rfl
  -- The recipients are the active slots but the sender's, in the order of the table.
  | toAll message =>
      simp only [Command.ofRequest, Server.broadcastMessage_eq, hothers, hsocket, hname]
      refine ⟨?_, fun i => ?_⟩
      · simp only [Chat.outcome, others_names, names_of_active hactive, Option.getD_some, hsent,
          Option.map_none, Option.toList_none, List.append_nil]
        rfl
      · simp only [Chat.outcome, hflags, Bool.false_and, Bool.not_false, Bool.and_true]
  | toOne targetName message =>
      simp only [Command.ofRequest, Chat.outcome, find_names]
      -- The name is looked up after the touch, which changes no name.
      rw [hfind]
      cases htarget : s.findClientByName targetName with
      | none =>
          refine renders_quiet (some (.notFound targetName)) ?_ hflags
          simp only [Server.send, hsent, hsocket]
          rfl
      | some targetId =>
          have hthere : (s.clients targetId).active = true := by
            have htest := scan_some htarget
            rw [Bool.and_eq_true] at htest
            exact htest.1
          -- The target was found active, so the second test in `send_to_client` passes.
          have hsend : ∀ m, (s.touch id now).sendToClient m targetId
              = (s.touch id now).send (s.clients targetId).socket m := by
            intro m
            rw [Server.sendToClient, hflags, if_pos hthere, hsocket]
          refine ⟨?_, fun i => ?_⟩
          · simp only [hsend, Server.send, hsent, hsocket, hname, names_of_active hactive,
              Option.getD_some]
            rfl
          · simp only [hsend, Server.send, hflags, Bool.false_and, Bool.not_false, Bool.and_true]
  -- `STOP` is not answered, and deactivates the sender.
  | leave =>
      refine ⟨?_, fun i => ?_⟩
      · simp only [Command.ofRequest, sent_removeClient, hsent]
        exact (List.append_nil _).symm.trans (List.append_nil _).symm
      · simp only [Command.ofRequest, active_removeClient, hflags]
        rfl
  | ping =>
      refine renders_quiet (some .pong) ?_ hflags
      simp only [Command.ofRequest, Server.send, hsent, hsocket]
      rfl
  | other =>
      refine renders_quiet none ?_ hflags
      rw [Option.map_none, Option.toList_none, List.append_nil]
      exact hsent

end Tcp

namespace Udp

/-- The names of the active clients. -/
def Server.names (s : Server) (i : Slot) : Option Bytes :=
  if (s.clients i).active then some (s.clients i).name.str else none

/-- The text of a reply. -/
def Server.replyText (s : Server) : Chat.Reply → Bytes
  | .clients => Chat.listing s.names
  | .pong => text "PONG"
  | .sentTo targetName => confirmText targetName
  | .notFound targetName => notFoundText targetName

/-- The first bytes of the chat text go to the addresses of the slots, from the
    function for its kind, and the reply to the address of the sender. A sender that leaves
    is told so, its slot is deactivated, and nobody else's is. -/
structure Renders (s s' : Server) (id : Slot) (o : Chat.Outcome maxClients) : Prop where
  log : s'.log =
    (if o.leaves then
      [.quit (s.clients id).addr, .sent .reply (s.clients id).addr (text "OK: Do widzenia")]
    else [])
    ++ (o.reply.map fun r => .sent .reply (s.clients id).addr (s.replyText r)).toList
    ++ (o.recipients.map fun i => .sent (if o.isPrivate then .toClient else .broadcast)
        (s.clients i).addr (o.chat.take (bufferSize - 1))).reverse
    ++ s.log
  active : ∀ i, (s'.clients i).active = ((s.clients i).active && !(o.leaves && decide (i = id)))

theorem names_of_active {s : Server} {id : Slot} (hactive : (s.clients id).active = true) :
    s.names id = some (s.clients id).name.str :=
  if_pos hactive

theorem find_names (s : Server) (name : Bytes) :
    Chat.find s.names name = s.findClientByName name :=
  Chat.find_table _ _ name

theorem others_names (s : Server) (id : Slot) : Chat.others s.names id = s.others id :=
  Chat.others_table _ _ id

theorem listReply_names (s : Server) : s.listReply = Chat.listing s.names :=
  (Chat.listing_table _ _).symm

/-- Writing `last_ping` changes nothing that the commands look at. -/
theorem fields_touch (s : Server) (id : Slot) (now : Nat) :
    (s.touch id now).log = s.log ∧ (s.touch id now).listReply = s.listReply ∧
      (s.touch id now).others id = s.others id ∧
      ∀ name, (s.touch id now).findClientByName name = s.findClientByName name := by
  refine ⟨rfl, ?_, ?_, fun name => ?_⟩
  · simp only [Server.listReply, Server.clients_touch]
  · simp only [Server.others, Server.clients_touch]
  · exact s.findClientByName_touch id now name

theorem active_touch (s : Server) (id : Slot) (now : Nat) (i : Slot) :
    ((s.touch id now).clients i).active = (s.clients i).active := by
  rw [Server.clients_touch]

theorem addr_touch (s : Server) (id : Slot) (now : Nat) (i : Slot) :
    ((s.touch id now).clients i).addr = (s.clients i).addr := by
  rw [Server.clients_touch]

/-- A message that is answered, or not even that. -/
theorem renders_quiet {s s' : Server} {id : Slot} (reply : Option Chat.Reply)
    (hlog : s'.log
      = (reply.map fun r => .sent .reply (s.clients id).addr (s.replyText r)).toList ++ s.log)
    (hactive : ∀ i, (s'.clients i).active = (s.clients i).active) :
    Renders s s' id (.quiet reply false) where
  log := by
    rw [hlog]
    simp only [Chat.Outcome.quiet, List.map_nil, List.reverse_nil, List.append_nil,
      Bool.false_eq_true, if_false, List.nil_append]
  active := fun i => by
    rw [hactive, Chat.Outcome.quiet, Bool.false_and, Bool.not_false, Bool.and_true]

/-- The UDP server does what the chat says. -/
theorem renders_handleMessage (clk : LocalClock) (now : Nat) {s : Server} {src : SockAddr}
    {id : Slot} (hsender : s.findClientByAddr src = some id) {buffer : Bytes}
    (hregister : ¬ strncmpEq buffer (text "REGISTER ") = true) :
    Renders s (s.handleMessage clk now src buffer) id (Chat.outcome s.names (clk.stamp now) id
      (Chat.request (text "QUIT") buffer)) := by
  have ⟨hactive, haddr⟩ := Server.active_of_findClientByAddr hsender
  have ⟨hlog, hlist, hothers, hfind⟩ := fields_touch s id now
  have haddrs := addr_touch s id now
  have hflags := active_touch s id now
  have hname : ((s.touch id now).clients id).name.str = (s.clients id).name.str := by
    rw [Server.clients_touch]
  unfold Server.handleMessage
  rw [if_neg hregister, hsender]
  simp only
  rw [parse_request]
  -- As for the other server, with addresses in place of descriptors.
  cases Chat.request (text "QUIT") buffer with
  | list =>
      refine renders_quiet (some .clients) ?_ hflags
      simp only [Command.ofRequest, Server.sendto, hlog, hlist, listReply_names, ← haddr]
      rfl
  | toAll message =>
      simp only [Command.ofRequest, Server.broadcastMessage_eq, hothers, haddrs, hname]
      refine ⟨?_, fun i => ?_⟩
      · simp only [Chat.outcome, others_names, names_of_active hactive, Option.getD_some, hlog,
          Option.map_none, Option.toList_none, List.nil_append, Bool.false_eq_true, if_false]
        rfl
      · simp only [Chat.outcome, hflags, Bool.false_and, Bool.not_false, Bool.and_true]
  | toOne targetName message =>
      simp only [Command.ofRequest, Chat.outcome, find_names]
      rw [hfind]
      cases htarget : s.findClientByName targetName with
      | none =>
          refine renders_quiet (some (.notFound targetName)) ?_ hflags
          simp only [Server.sendto, hlog, ← haddr]
          rfl
      -- The handler's table is the one in which the name was found.
      | some targetId =>
          have hthere : (s.clients targetId).active = true := by
            have htest := scan_some htarget
            rw [Bool.and_eq_true] at htest
            exact htest.1
          have hsend : ∀ m, (s.touch id now).sendToClient m targetId
              = (s.touch id now).sendto .toClient (s.clients targetId).addr m := by
            intro m
            rw [Server.sendToClient, hflags, if_pos hthere, haddrs]
          refine ⟨?_, fun i => ?_⟩
          · simp only [hsend, Server.sendto, hlog, hname, names_of_active hactive,
              Option.getD_some, ← haddr]
            rfl
          · simp only [hsend, Server.sendto, hflags, Bool.false_and, Bool.not_false, Bool.and_true]
  -- `QUIT` is answered after the slot has been given up.
  | leave =>
      simp only [Command.ofRequest, Server.removeClient_sendto]
      refine ⟨?_, fun i => ?_⟩
      · simp only [Server.sendto, Server.log_removeClient, hlog, ← haddr]
        rfl
      -- Only the sender's slot is inactive afterwards.
      · simp only [Server.sendto, Server.clients_removeClient_touch now hactive]
        by_cases hi : i = id
        · simp [hi, Chat.outcome, Chat.Outcome.quiet]
        · simp [hi]
  | ping =>
      refine renders_quiet (some .pong) ?_ hflags
      simp only [Command.ofRequest, Server.sendto, hlog, ← haddr]
      rfl
  | other =>
      refine renders_quiet none ?_ hflags
      rw [Option.map_none, Option.toList_none, List.nil_append]
      exact hlog

end Udp

/-- For tables with the same names, a message of the client in a slot has one
    outcome, which both servers produce: the same slots are sent the same chat
    text, except that one server ends it with a newline before it is cut, and
    the same slot has the same reply. Nobody is deactivated, except on `STOP`
    there and `QUIT` here, on which the sender is, and no text is sent. -/
theorem same_chat (clk : LocalClock) (now : Nat) {t : Tcp.Server} {u : Udp.Server}
    (hnames : t.names = u.names) {src : Udp.SockAddr} {id : Udp.Slot}
    (hsender : u.findClientByAddr src = some id) :
    (∀ buffer, ¬ strncmpEq (cstr buffer) (text "REGISTER ") = true →
      ¬ strncmpEq (cstr buffer) (text "STOP") = true →
      ¬ strncmpEq (cstr buffer) (text "QUIT") = true →
      ∃ o, o = Chat.outcome t.names (clk.stamp now) id (Chat.request (text "STOP") (cstr buffer)) ∧
        o.leaves = false ∧ Tcp.Renders t (t.handleBuffer clk now id buffer).1 id o ∧
        Udp.Renders u (u.handleMessage clk now src (cstr buffer)) id o) ∧
    t.replyText .clients = u.replyText .clients ∧
    ∀ w, Tcp.Renders t (t.handleBuffer clk now id (text "STOP" ++ w)).1 id (.quiet none true) ∧
      Udp.Renders u (u.handleMessage clk now src (cstr (text "QUIT" ++ w))) id
        (.quiet none true) := by
  -- The tables have the same names, so the sender is active in both.
  have hudp := (Udp.Server.active_of_findClientByAddr hsender).1
  have htcp : (t.clients id).active = true := by
    have hid : t.names id = some (u.clients id).name.str :=
      (congrFun hnames id).trans (Udp.names_of_active hudp)
    exact (Tcp.isSome_names t id).symm.trans (congrArg Option.isSome hid)
  -- The shared commands, the listing, and the two ways to leave.
  refine ⟨fun buffer hregister hstop hquit => ?_, ?_, fun w => ⟨?_, ?_⟩⟩
  · refine ⟨_, rfl, ?_, Tcp.renders_handleBuffer clk now htcp buffer, ?_⟩
    · exact Chat.leaves_outcome _ _ _ hstop
    -- Neither of the words that leave begins the text, so both servers see one request.
    · have hrenders := Udp.renders_handleMessage clk now hsender hregister
      rw [Chat.request_congr hquit hstop] at hrenders
      rw [hnames]
      exact hrenders
  · exact congrArg Chat.listing hnames
  -- The handler that reads `STOP` is the same for every continuation.
  · have hrenders := Tcp.renders_handleBuffer clk now htcp (text "STOP" ++ w)
    have hrequest : Chat.request (text "STOP") (cstr (text "STOP" ++ w)) = .leave := rfl
    rw [hrequest] at hrenders
    exact hrenders
  · have hregister : ¬ strncmpEq (cstr (text "QUIT" ++ w)) (text "REGISTER ") = true :=
      Bool.false_ne_true
    have hrenders := Udp.renders_handleMessage clk now hsender hregister
    have hrequest : Chat.request (text "QUIT") (cstr (text "QUIT" ++ w)) = .leave := rfl
    rw [hrequest] at hrenders
    exact hrenders

/-- Three clients, at either server. -/
def tcpWithThree : Tcp.Server :=
  ((Tcp.init.server.register 0 5 0 (text "ala") 0).register 1 6 1 (text "ola") 0).register 2 7 2
    (text "ula") 0

def udpWithThree : Udp.Server :=
  ((Udp.init.server.insertClient 0 (text "ala") ⟨1, 1⟩ 0).insertClient 1 (text "ola")
    ⟨2, 2⟩ 0).insertClient 2 (text "ula") ⟨3, 3⟩ 0

def threeNames (i : Nat) : Option Bytes := [text "ala", text "ola", text "ula"][i]?

/-- A public message of the first one goes to the other two at both servers, and
    a private message to the one that is named, with an answer to its author. -/
theorem same_chat_of_three : ∃ o p,
    o.recipients.map Fin.val = [1, 2] ∧ o.reply.isNone = true ∧
      Tcp.Renders tcpWithThree
        (tcpWithThree.handleBuffer stoppedClock 0 0 (text "2ALL hej")).1 0 o ∧
      Udp.Renders udpWithThree
        (udpWithThree.handleMessage stoppedClock 0 ⟨1, 1⟩ (cstr (text "2ALL hej"))) 0 o ∧
      p.recipients.map Fin.val = [1] ∧ p.reply.isSome = true ∧
      Tcp.Renders tcpWithThree
        (tcpWithThree.handleBuffer stoppedClock 0 0 (text "2ONE ola hej")).1 0 p ∧
      Udp.Renders udpWithThree
        (udpWithThree.handleMessage stoppedClock 0 ⟨1, 1⟩ (cstr (text "2ONE ola hej"))) 0 p := by
  have htcp : ∀ i : Tcp.Slot, tcpWithThree.names i = threeNames i := by decide +kernel
  have hudp : ∀ i : Udp.Slot, udpWithThree.names i = threeNames i := by decide +kernel
  have hnames : tcpWithThree.names = udpWithThree.names :=
    funext fun i => (htcp i).trans (hudp i).symm
  have hsender : udpWithThree.findClientByAddr ⟨1, 1⟩ = some 0 := by decide +kernel
  have hchat := (same_chat stoppedClock 0 hnames hsender).1
  rcases hchat (text "2ALL hej") (by decide) (by decide) (by decide) with
    ⟨o, ho, _, htcp, hudp⟩
  rcases hchat (text "2ONE ola hej") (by decide) (by decide) (by decide) with
    ⟨p, hp, _, htcp', hudp'⟩
  refine ⟨o, p, ?_, ?_, htcp, hudp, ?_, ?_, htcp', hudp'⟩
  · rw [ho]
    decide +kernel
  · rw [ho]
    decide +kernel
  · rw [hp]
    decide +kernel
  · rw [hp]
    decide +kernel

end OsLabs
