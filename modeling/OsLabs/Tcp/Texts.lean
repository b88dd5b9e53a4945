import OsLabs.Tcp.Handling

/-!
# The Texts the Server Sends

What a client may rely on about the texts, whatever the others send. All of
them are strings, so a NUL never travels. And no text but the probe of the
sweep begins as a probe does: a public message begins with a bracket, a reply
with a word of the server's own, and neither is in the hands of a client. A
client that confuses the two has been given a chunk that is no text.

Texts are put together in several steps and from what other clients sent, so
the statement is carried by every handler for the text it is working on.

## Main definitions

* `Genuine`: A string that begins as a probe does only if it is one.
* `AllGenuine`: What has been sent and what will be.

## Theorems

* `genuine_of_head`: A string with another first byte is no probe.
* `genuine_handlerStep`, `genuine_mainStep`, `genuine_pingSweep`: What the
  threads send is genuine.
* `genuine_reachable`: All texts are genuine in every reachable state.
-/

namespace OsLabs

namespace Tcp

open Machine

/-- A string, and a probe if it begins as one. -/
def Genuine (message : Bytes) : Prop :=
  NulFree message ∧ (strncmpEq message (text "ALIVE") = true → message = text "ALIVE\n")

theorem genuine_alive : Genuine (text "ALIVE\n") := ⟨by decide, fun _ => rfl⟩

theorem genuine_of_head {message : Bytes} {b : UInt8} (hnul : NulFree message)
    (hhead : message.head? = some b) (hb : b ≠ 65) : Genuine message := by
  refine ⟨hnul, fun halive => ?_⟩
  have hprefix : text "ALIVE" <+: message := List.isPrefixOf_iff_prefix.mp halive
  rcases hprefix with ⟨rest, hrest⟩
  have hfirst : message.head? = some 65 := by
    rw [← hrest]
    rfl
  rw [hhead, Option.some.injEq] at hfirst
  exact absurd hfirst hb

/-- What is formatted into a buffer begins as the format does. -/
theorem genuine_snprintf {size : Nat} {out : Bytes} {b : UInt8} (hsize : 1 < size)
    (hnul : NulFree out) (hhead : out.head? = some b) (hb : b ≠ 65) :
    Genuine (snprintf size out) := by
  refine genuine_of_head (nulFree_take _ hnul) ?_ hb
  have hpos : size - 1 ≠ 0 := by omega
  rw [snprintf, List.head?_take, if_neg hpos, hhead]

theorem genuine_allText {timestamp name message : Bytes} (htime : NulFree timestamp)
    (hname : NulFree name) (hmessage : NulFree message) :
    Genuine (allText timestamp name message) := by
  refine genuine_snprintf (by decide) ?_ ?_ (b := 91) (by decide)
  · have hparts : NulFree (text "[") ∧ NulFree (text "] ") ∧ NulFree (text ": ") ∧
        NulFree (text "\n") := by decide
    simp only [nulFree_append, hparts, htime, hname, hmessage, and_self]
  · rfl

theorem genuine_oneText {timestamp name message : Bytes} (htime : NulFree timestamp)
    (hname : NulFree name) (hmessage : NulFree message) :
    Genuine (oneText timestamp name message) := by
  refine genuine_snprintf (by decide) ?_ ?_ (b := 91) (by decide)
  · have hparts : NulFree (text "[") ∧ NulFree (text "] ") ∧ NulFree (text " (prywatnie): ") ∧
        NulFree (text "\n") := by decide
    simp only [nulFree_append, hparts, htime, hname, hmessage, and_self]
  · rfl

theorem genuine_confirmText {targetName : Bytes} (h : NulFree targetName) :
    Genuine (confirmText targetName) := by
  refine genuine_snprintf (by decide) ?_ ?_ (b := 87) (by decide)
  · have hparts : NulFree (text "Wiadomosc wysłana do ") ∧ NulFree (text "\n") := by decide
    simp only [nulFree_append, hparts, h, and_self]
  · rfl

theorem genuine_notFoundText {targetName : Bytes} (h : NulFree targetName) :
    Genuine (notFoundText targetName) := by
  refine genuine_snprintf (by decide) ?_ ?_ (b := 75) (by decide)
  · have hparts : NulFree (text "Klient ") ∧ NulFree (text " nie zostal znaleziony\n") := by decide
    simp only [nulFree_append, hparts, h, and_self]
  · rfl

/-- The list begins with its heading, which shares one letter with a probe. -/
theorem genuine_listReply (s : Server) : Genuine s.listReply := by
  have hlist : NulFree s.listReply ∧ text "Aktywni klienci:\n" <+: s.listReply := by
    unfold Server.listReply
    refine List.foldlRecOn
      (motive := fun r : Bytes => NulFree r ∧ text "Aktywni klienci:\n" <+: r)
      _ _ ⟨by decide, List.prefix_refl _⟩ (fun r hr i _ => ?_)
    by_cases hactive : (s.clients i).active = true
    · rw [if_pos hactive]
      have hparts : NulFree (text "- ") ∧ NulFree (text "\n") := by decide
      have hline : NulFree (snprintf 64 (text "- " ++ (s.clients i).name.str ++ text "\n")) := by
        refine nulFree_take _ ?_
        simp only [nulFree_append, hparts, CharArray.nulFree_str, and_self]
      exact ⟨nulFree_append.mpr ⟨hr.1, hline⟩, hr.2.trans (List.prefix_append _ _)⟩
    · rw [if_neg hactive]
      exact hr
  refine ⟨hlist.1, fun halive => ?_⟩
  have hprefix : text "ALIVE" <+: s.listReply := List.isPrefixOf_iff_prefix.mp halive
  -- Both would begin the reply, and they differ in the second letter.
  have hboth := List.prefix_of_prefix_length_le hprefix hlist.2 (by decide)
  exact absurd hboth (by decide)

/-- The text that a handler is working on, or what it will be made of. -/
def Pc.Genuine : Pc → Prop
  | .formatAll message => NulFree message
  | .broadcast response => Tcp.Genuine response
  | .find targetName message => NulFree targetName ∧ NulFree message
  | .formatOne _ targetName message => NulFree targetName ∧ NulFree message
  | .sendTo _ targetName response => NulFree targetName ∧ Tcp.Genuine response
  | .reply response => Tcp.Genuine response
  | .sendReply _ response => Tcp.Genuine response
  | _ => True

/-- The same for the accept loop. -/
def MainPc.Genuine : MainPc → Prop
  | .drop _ _ (some message) => Tcp.Genuine message
  | _ => True

/-- What has been sent, and what the threads are about to send. -/
structure AllGenuine (s : State) : Prop where
  sent : ∀ p ∈ s.server.sent, Genuine p.2
  handlers : ∀ t th, s.threads t = some th → th.pc.Genuine
  main : s.main.Genuine

theorem genuine_init : AllGenuine init where
  sent := fun p hp => absurd hp List.not_mem_nil
  handlers := fun t th h => absurd h (by simp only [init, reduceCtorEq, not_false_eq_true])
  main := trivial

/-- A command's arguments are parts of the buffer. -/
theorem genuine_dispatch {buffer : Bytes} (h : NulFree buffer) :
    (dispatch (parse buffer)).Genuine := by
  have hdrop : NulFree (buffer.drop 5) := nulFree_drop 5 h
  have hpong : Genuine (text "PONG\n") := genuine_of_head (b := 80) (by decide) rfl (by decide)
  unfold parse
  by_cases hlist : strncmpEq buffer (text "LIST") = true
  · rw [if_pos hlist]
    trivial
  rw [if_neg hlist]
  by_cases hall : strncmpEq buffer (text "2ALL ") = true
  · rw [if_pos hall]
    exact hdrop
  rw [if_neg hall]
  by_cases hone : strncmpEq buffer (text "2ONE ") = true
  · rw [if_pos hone]
    cases hsplit : strchrSplit 32 (buffer.drop 5) with
    | none => trivial
    | some p =>
        -- Name and message are what stands before and after the space.
        have hparts := strchrSplit_eq hsplit
        rw [hparts, nulFree_append] at hdrop
        exact ⟨hdrop.1, fun hmem => hdrop.2 (List.mem_cons_of_mem _ hmem)⟩
  rw [if_neg hone]
  by_cases hstop : strncmpEq buffer (text "STOP") = true
  · rw [if_pos hstop]
    trivial
  rw [if_neg hstop]
  by_cases hping : strncmpEq buffer (text "PING") = true
  · rw [if_pos hping]
    exact hpong
  · rw [if_neg hping]
    trivial

section Sent

variable {s : Server} {message : Bytes}

theorem genuine_send (d : Fd) (hsent : ∀ p ∈ s.sent, Genuine p.2) (h : Genuine message) :
    ∀ p ∈ (s.send d message).sent, Genuine p.2 := by
  intro p hp
  rcases List.mem_append.mp hp with hold | hnew
  · exact hsent p hold
  · rw [List.mem_singleton.mp hnew]
    exact h

theorem genuine_broadcastMessage (senderId : Slot) (hsent : ∀ p ∈ s.sent, Genuine p.2)
    (h : Genuine message) : ∀ p ∈ (s.broadcastMessage message senderId).sent, Genuine p.2 := by
  unfold Server.broadcastMessage
  refine List.foldlRecOn (motive := fun t : Server => ∀ p ∈ t.sent, Genuine p.2) _ _ hsent
    (fun t ht i _ => ?_)
  by_cases hactive : (t.clients i).active ∧ i ≠ senderId
  · rw [if_pos hactive]
    exact genuine_send _ ht h
  · rw [if_neg hactive]
    exact ht

theorem genuine_sendToClient (clientId : Slot) (hsent : ∀ p ∈ s.sent, Genuine p.2)
    (h : Genuine message) : ∀ p ∈ (s.sendToClient message clientId).sent, Genuine p.2 := by
  unfold Server.sendToClient
  by_cases hactive : (s.clients clientId).active = true
  · rw [if_pos hactive]
    exact genuine_send _ hsent h
  · rw [if_neg hactive]
    exact hsent

theorem genuine_pingSweep (now : Nat) (hsent : ∀ p ∈ s.sent, Genuine p.2) :
    ∀ p ∈ (s.pingSweep now).sent, Genuine p.2 := by
  unfold Server.pingSweep
  refine List.foldlRecOn (motive := fun t : Server => ∀ p ∈ t.sent, Genuine p.2) _ _ hsent
    (fun t ht i _ => ?_)
  unfold Server.sweepSlot
  by_cases hactive : (t.clients i).active = true
  · rw [if_pos hactive]
    by_cases hlate : (t.clients i).lastPing + 60 < now
    · rw [if_pos hlate]
      simp only [sent_close]
      exact ht
    · rw [if_neg hlate]
      exact genuine_send _ ht genuine_alive
  · rw [if_neg hactive]
    exact ht

end Sent

/-- A handler sends only what it has prepared, and prepares it as it should. -/
theorem genuine_handlerStep {clk : LocalClock} {now : Nat} {s server : Server} {id : Slot}
    {pc pc' : Pc} (h : handlerStep clk now s id pc = some (server, pc'))
    (hsent : ∀ p ∈ s.sent, Genuine p.2) (hpc : pc.Genuine) :
    (∀ p ∈ server.sent, Genuine p.2) ∧ pc'.Genuine := by
  have hname : NulFree (s.clients id).name.str := CharArray.nulFree_str _
  have htime : NulFree (clk.stamp now) := clk.nulFree_stamp now
  cases handlerStep_cases h with
  | touch buffer => exact ⟨hsent, genuine_dispatch (nulFree_cstr buffer)⟩
  | listing => exact ⟨hsent, genuine_listReply s⟩
  | formatAll message => exact ⟨hsent, genuine_allText htime hname hpc⟩
  | broadcast response => exact ⟨genuine_broadcastMessage id hsent hpc, trivial⟩
  | found targetName message targetId hfind => exact ⟨hsent, hpc⟩
  | notFound targetName message hfind => exact ⟨hsent, genuine_notFoundText hpc.1⟩
  | formatOne targetId targetName message =>
      exact ⟨hsent, hpc.1, genuine_oneText htime hname hpc.2⟩
  | sendTo targetId targetName response =>
      exact ⟨genuine_sendToClient targetId hsent hpc.2, genuine_confirmText hpc.1⟩
  | reply response => exact ⟨hsent, hpc⟩
  | sendReply d response => exact ⟨genuine_send d hsent hpc, trivial⟩
  | remove =>
      rw [sent_removeClient]
      exact ⟨hsent, trivial⟩
  | goOn | leave | load | recv => exact ⟨hsent, trivial⟩

/-- The accept loop sends texts of its own only. -/
theorem genuine_mainStep {s s' : State} (h : mainStep s = some s')
    (hsent : ∀ p ∈ s.server.sent, Genuine p.2) (hmain : s.main.Genuine) :
    (∀ p ∈ s'.server.sent, Genuine p.2) ∧ s'.main.Genuine := by
  have herror : Genuine (text "ERROR: Nazwa juz jest uzywana\n") ∧
      Genuine (text "ERROR: Serwer pelny\n") ∧ Genuine (text "OK: Polaczono z serwerem\n") :=
    ⟨genuine_of_head (b := 69) (by decide) rfl (by decide),
      genuine_of_head (b := 69) (by decide) rfl (by decide),
      genuine_of_head (b := 79) (by decide) rfl (by decide)⟩
  cases mainStep_cases h with
  | taken d c name k hpc heq =>
      rw [heq]
      exact ⟨hsent, herror.1⟩
  | full d c name hpc hfree heq =>
      rw [heq]
      exact ⟨hsent, herror.2.1⟩
  | drop d c error hpc heq =>
      rw [hpc] at hmain
      rw [heq]
      cases error with
      | none =>
          simp only [sent_close]
          exact ⟨hsent, trivial⟩
      | some message =>
          simp only [sent_close]
          exact ⟨genuine_send d hsent hmain, trivial⟩
  | welcome d c i hpc heq =>
      rw [heq]
      exact ⟨genuine_send d hsent herror.2.2, trivial⟩
  | next d c name k hpc hname heq =>
      rw [heq]
      exact ⟨hsent, trivial⟩
  | checked d c name k hpc hk heq =>
      rw [heq]
      exact ⟨hsent, trivial⟩
  | insert d c name i hpc hfree heq =>
      rw [heq]
      exact ⟨hsent, trivial⟩
  | spawn c i hpc heq =>
      rw [heq]
      exact ⟨hsent, trivial⟩

theorem genuine_step {clk : LocalClock} {s s' : State} {e : Event} (h : AllGenuine s)
    (hstep : step clk s e = some s') : AllGenuine s' := by
  have hsame : ∀ {t : State}, t.server.sent = s.server.sent → t.main.Genuine →
      (∀ p ∈ t.server.sent, Genuine p.2) ∧ t.main.Genuine := by
    intro t hsent hmain
    rw [hsent]
    exact ⟨h.sent, hmain⟩
  have hserver : (∀ p ∈ s'.server.sent, Genuine p.2) ∧ s'.main.Genuine := by
    cases e with
    | time now =>
        simp only [step, Option.some.injEq] at hstep
        rw [← hstep]
        exact hsame rfl h.main
    | accept result =>
        rcases (accept_cases hstep).2 with rfl | ⟨d, _, _, rfl⟩
        · exact hsame rfl h.main
        · exact hsame rfl trivial
    | recvName result =>
        rcases recvName_cases hstep with ⟨d, c, _, ⟨bytes, _, rfl⟩ | rfl⟩
        · exact hsame rfl trivial
        · exact hsame rfl trivial
    | main => exact genuine_mainStep hstep h.sent h.main
    | pingWake =>
        rw [pingWake_cases hstep]
        exact hsame rfl h.main
    | sweep =>
        rcases sweep_cases hstep with ⟨now, rfl⟩
        have hsent := genuine_pingSweep now h.sent
        refine ⟨?_, h.main⟩
        simp only
        exact hsent
    | recv c result =>
        rcases recv_cases hstep with ⟨_, _, _, _, _, rfl⟩
        exact hsame rfl h.main
    | thread c =>
        rcases thread_cases hstep with ⟨id, pc, server, pc', hthread, hhandler, rfl⟩
        exact ⟨(genuine_handlerStep hhandler h.sent (h.handlers c _ hthread)).1, h.main⟩
  refine ⟨hserver.1, ?_, hserver.2⟩
  -- The handler that moves has a text of its own, all others keep theirs.
  have hupdate : ∀ {t : Conn} {th : Thread}, th.pc.Genuine →
      ∀ t' th', Function.update s.threads t (some th) t' = some th' → th'.pc.Genuine := by
    intro t th hth t' th' ht'
    rcases put_eq_some.mp ht' with ⟨_, heq⟩ | ⟨_, hold⟩
    · rw [heq]
      exact hth
    · exact h.handlers t' th' hold
  cases step_turn hstep with
  | others hevent hthreads =>
      rw [hthreads]
      exact h.handlers
  | spawn c i hevent hmain heq =>
      rw [heq]
      exact hupdate trivial
  | recv c result id source pc hevent hthread hpc heq =>
      rw [heq]
      rcases hpc with ⟨bytes, c', _, rfl, _⟩ | ⟨rfl, _⟩
      · exact hupdate trivial
      · exact hupdate trivial
  | handler c id pc server pc' hevent hthread hhandler heq =>
      rw [heq]
      exact hupdate (genuine_handlerStep hhandler h.sent (h.handlers c _ hthread)).2

/-- Whatever clients send and however the threads interleave, every text that
    the server sends or is about to send is genuine. -/
theorem genuine_reachable {clk : LocalClock} {s : State} (h : Reaches (step clk) init s) :
    AllGenuine s :=
  reaches_invariant (fun _ _ _ hs hstep => genuine_step hs hstep) genuine_init h

end Tcp

end OsLabs
