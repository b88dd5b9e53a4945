import OsLabs.Library.CString
import OsLabs.Library.Completion
import OsLabs.Library.Slots

/-!
# Questions and Answers over a Connection

`Funkcje/Socket TCP`: a server and its clients. A client asks with one letter
and waits for the answer before it asks again. The server serves one client
until that has closed its connection; the others are connected meanwhile, and
wait for their first answer.

Two things are assumed of the system. Both ends of a connection are on one
machine, so what has been written is there for the next `read`, all of it. And
`connect` comes back once there is room among the connections that wait for
`accept`, of which `listen` keeps ten.

A `read` takes what is there, up to the size of the buffer, and nothing says
where an answer ends. The client takes what it gets for the answer to its last
question. It is, because it has always taken all of the answer before, and the
server has never more than one question to answer.

The number of clients and what they ask is left open. The questions have to be
in the server's table: a letter that is not gets no answer, and its client
waits for good, with all others behind it.

Left out are failing calls, the set-up of the sockets, and the output of the
server.

## Main definitions

* `pytanie`, `odpowiedz`, `answerOf`: The table of the server.
* `Peer`, `clientStep`: A client and its connection.
* `Server`, `serverStep`: The server.
* `Tidy`, `Queued`, `Inv`: What holds of a connection, and of all.
* `rank`: How many steps are left.
* `Answered`: All clients have their answers.

## Theorems

* `tidy_client`, `tidy_server`: A connection holds one question, or one answer.
* `answered_of_stuck`: Nobody waits for good.
* `completes_of_known`: Every client gets its answers, in order.
-/

namespace OsLabs

namespace Socket

open Machine

/-- `pytanie` of the server -/
def pytanie : Bytes := text "abcdefgh"

/-- `odpowiedz` -/
def odpowiedz : List Bytes :=
  [text "alfa", text "bravo", text "charlie", text "delta", text "echo", text "foxtrot",
    text "golf", text "hotel"]

/-- The size of `buf` in the client. -/
def bufSize : Nat := 200

/-- What the server writes for a letter, if it is in the table. -/
def answerOf (b : UInt8) : Option Bytes :=
  (pytanie.findIdx? (· == b)).bind fun i => odpowiedz[i]?

/-- Where a client is: at a call, with the number of the question. -/
inductive Place where
  | connect
  | write (i : Nat)
  | read (i : Nat)
  | closed
  deriving DecidableEq

/-- A client, what it has printed, and its connection: what it has written and
    the server has not read, and the other way round. -/
structure Peer where
  place : Place
  printed : List Bytes
  up : Bytes
  down : Bytes

/-- Where the server is: in `accept`, or at the next call for a client. -/
inductive Server (n : Nat) where
  | accept
  | read (c : Fin n)
  | answer (c : Fin n) (b : UInt8)
  | close (c : Fin n)

/-- The server with its clients, some of them waiting to be accepted. -/
structure State (n : Nat) where
  peers : Fin n → Peer
  server : Server n
  backlog : List (Fin n)

inductive Event (n : Nat) where
  | client (c : Fin n)
  | server

/-- The programs before the first call. -/
def start (n : Nat) : State n where
  peers := fun _ => ⟨.connect, [], [], []⟩
  server := .accept
  backlog := []

variable {n : Nat}

/-- A step of a client with its questions, after `connect`. A `read` waits for
    something to be there, and one that fills the buffer leaves no room for the
    NUL. -/
def talk (asks : Bytes) (p : Peer) : Option Peer :=
  match p.place with
  | .connect | .closed => none
  | .write i =>
      match asks[i]? with
      | some b => some { p with place := .read i, up := p.up ++ [b] }
      | none => some { p with place := .closed }
  | .read i =>
      let buf := p.down.take bufSize
      if buf ≠ [] ∧ buf.length < bufSize then
        some { p with
          place := .write (i + 1), printed := p.printed ++ [cstr buf], down := p.down.drop bufSize }
      else none

def clientStep (asks : Fin n → Bytes) (s : State n) (c : Fin n) : Option (State n) :=
  match (s.peers c).place with
  | .connect =>
      some { s with
        peers := Function.update s.peers c { s.peers c with place := .write 0 }
        backlog := s.backlog ++ [c] }
  | _ => (talk (asks c) (s.peers c)).map fun p => { s with peers := Function.update s.peers c p }

/-- A step of the server. At the end of what a client has written it waits,
    unless the client has closed the connection. -/
def serverStep (s : State n) : Option (State n) :=
  match s.server with
  | .accept =>
      match s.backlog with
      | c :: backlog => some { s with server := .read c, backlog := backlog }
      | [] => none
  | .read c =>
      match (s.peers c).up with
      | b :: up =>
          some { s with
            peers := Function.update s.peers c { s.peers c with up := up }
            server := .answer c b }
      | [] => if (s.peers c).place = .closed then some { s with server := .close c } else none
  | .answer c b =>
      match answerOf b with
      | some w =>
          some { s with
            peers := Function.update s.peers c { s.peers c with down := (s.peers c).down ++ w }
            server := .read c }
      | none => some { s with server := .read c }
  | .close _ => some { s with server := .accept }

def step (asks : Fin n → Bytes) (s : State n) : Event n → Option (State n)
  | .client c => clientStep asks s c
  | .server => serverStep s

section Table

/-- An answer is a short string with something in it. -/
structure Answer (w : Bytes) : Prop where
  ne_nil : w ≠ []
  short : w.length < bufSize
  plain : NulFree w

theorem answer_of_answerOf {b : UInt8} {w : Bytes} (h : answerOf b = some w) : Answer w := by
  have hall : ∀ w ∈ odpowiedz, w ≠ [] ∧ w.length < bufSize ∧ (0 : UInt8) ∉ w := by decide
  rcases Option.bind_eq_some_iff.mp h with ⟨i, _, hi⟩
  rcases hall w (List.mem_of_getElem? hi) with ⟨hne, hshort, hplain⟩
  exact ⟨hne, hshort, hplain⟩

end Table

/-- The questions are in the table. -/
def Known (asks : Bytes) : Prop := ∀ b ∈ asks, (answerOf b).isSome = true

instance (asks : Bytes) : Decidable (Known asks) :=
  inferInstanceAs (Decidable (∀ b ∈ asks, (answerOf b).isSome = true))

/-- The answers to some questions. -/
def answers (asks : Bytes) : List Bytes := asks.filterMap answerOf

/-- The question of a client that the server is about to answer. -/
def Server.asked (server : Server n) (c : Fin n) : Option UInt8 :=
  match server with
  | .answer c' b => if c' = c then some b else none
  | _ => none

/-- The client that is being served. -/
def Server.serves : Server n → Option (Fin n)
  | .accept => none
  | .read c | .answer c _ | .close c => some c

/-- Where the one question of a client is that has no answer yet: with the
    server, in the connection, or in the connection as an answer. -/
inductive Pending (b : UInt8) : Option UInt8 → Bytes → Bytes → Prop where
  | written : Pending b none [b] []
  | asked : Pending b (some b) [] []
  | answered (w : Bytes) (hw : answerOf b = some w) : Pending b none [] w

/-- A connection holds one question or one answer while the client waits, and
    nothing otherwise. -/
inductive Tidy (asks : Bytes) (asked : Option UInt8) : Peer → Prop where
  | connect (hasked : asked = none) : Tidy asks asked ⟨.connect, [], [], []⟩
  | write (i : Nat) (hasked : asked = none) (hi : i ≤ asks.length) :
      Tidy asks asked ⟨.write i, answers (asks.take i), [], []⟩
  | read (i : Nat) (b : UInt8) (up down : Bytes) (hb : asks[i]? = some b)
      (hpending : Pending b asked up down) :
      Tidy asks asked ⟨.read i, answers (asks.take i), up, down⟩
  | closed (hasked : asked = none) : Tidy asks asked ⟨.closed, answers asks, [], []⟩

theorem answers_take_succ {asks : Bytes} {i : Nat} {b : UInt8} {w : Bytes}
    (hb : asks[i]? = some b) (hw : answerOf b = some w) :
    answers (asks.take (i + 1)) = answers (asks.take i) ++ [w] := by
  unfold answers
  rw [List.take_add_one, hb, List.filterMap_append]
  simp only [Option.toList_some, List.filterMap_cons, hw, List.filterMap_nil]

/-- What a client does after `connect`. -/
theorem tidy_talk {asks : Bytes} {asked : Option UInt8} {p p' : Peer} (h : Tidy asks asked p)
    (hstep : talk asks p = some p') : Tidy asks asked p' := by
  cases h with
  | connect | closed => cases hstep
  | write i hasked hi =>
      simp only [talk] at hstep
      cases hb : asks[i]? with
      | some b =>
          simp only [hb, Option.some.injEq] at hstep
          -- The question is written, and nothing else is under way.
          rw [← hstep, hasked]
          exact .read i b [b] [] hb .written
      | none =>
          simp only [hb, Option.some.injEq] at hstep
          -- No question is left, so all have been asked.
          have hall : asks.take i = asks :=
            List.take_of_length_le (List.getElem?_eq_none_iff.mp hb)
          rw [← hstep, hall]
          exact .closed hasked
  | read i b up down hb hpending =>
      simp only [talk] at hstep
      cases hpending with
      -- No answer has come so far.
      | written | asked =>
          rw [if_neg (fun hbuf => hbuf.1 rfl)] at hstep
          cases hstep
      | answered w hw =>
          -- The buffer takes the whole answer.
          have hanswer := answer_of_answerOf hw
          have htake : down.take bufSize = down :=
            List.take_of_length_le (Nat.le_of_lt hanswer.short)
          have hdrop : down.drop bufSize = [] :=
            List.drop_of_length_le (Nat.le_of_lt hanswer.short)
          rw [htake, if_pos ⟨hanswer.ne_nil, hanswer.short⟩, hdrop, cstr_of_nulFree hanswer.plain,
            Option.some.injEq] at hstep
          rw [← hstep, ← answers_take_succ hb hw]
          have hi : i < asks.length := (List.getElem?_eq_some_iff.mp hb).1
          exact .write (i + 1) rfl hi

/-- All connections are tidy, and every client is somewhere on its way through
    the server. -/
structure Inv (asks : Fin n → Bytes) (s : State n) : Prop where
  tidy : ∀ c, Tidy (asks c) (s.server.asked c) (s.peers c)
  queued : ∀ c, (s.peers c).place = .connect ∨ c ∈ s.backlog ∨ s.server.serves = some c ∨
    (s.peers c).place = .closed
  closing : ∀ c, s.server = .close c → (s.peers c).place = .closed

theorem inv_start (asks : Fin n → Bytes) : Inv asks (start n) where
  tidy := fun _ => .connect rfl
  queued := fun _ => Or.inl rfl
  closing := nofun

theorem asked_answer (c : Fin n) (b : UInt8) : (Server.answer c b).asked c = some b := if_pos rfl

theorem asked_answer_of_ne {c c' : Fin n} (b : UInt8) (h : c' ≠ c) :
    (Server.answer c b).asked c' = none := if_neg (Ne.symm h)

/-- The steps, by what they do. -/
inductive Move (asks : Fin n → Bytes) (s : State n) : Event n → State n → Prop where
  | connect (c : Fin n) (hplace : (s.peers c).place = .connect) :
      Move asks s (.client c) { s with
        peers := Function.update s.peers c { s.peers c with place := .write 0 }
        backlog := s.backlog ++ [c] }
  | talk (c : Fin n) (p : Peer) (hplace : (s.peers c).place ≠ .connect)
      (htalk : talk (asks c) (s.peers c) = some p) :
      Move asks s (.client c) { s with peers := Function.update s.peers c p }
  | accept (c : Fin n) (backlog : List (Fin n)) (hserver : s.server = .accept)
      (hbacklog : s.backlog = c :: backlog) :
      Move asks s .server { s with server := .read c, backlog := backlog }
  | read (c : Fin n) (b : UInt8) (up : Bytes) (hserver : s.server = .read c)
      (hup : (s.peers c).up = b :: up) :
      Move asks s .server { s with
        peers := Function.update s.peers c { s.peers c with up := up }
        server := .answer c b }
  | atEnd (c : Fin n) (hserver : s.server = .read c) (hup : (s.peers c).up = [])
      (hclosed : (s.peers c).place = .closed) : Move asks s .server { s with server := .close c }
  | answer (c : Fin n) (b : UInt8) (w : Bytes) (hserver : s.server = .answer c b)
      (hw : answerOf b = some w) :
      Move asks s .server { s with
        peers := Function.update s.peers c { s.peers c with down := (s.peers c).down ++ w }
        server := .read c }
  | ignore (c : Fin n) (b : UInt8) (hserver : s.server = .answer c b) (hw : answerOf b = none) :
      Move asks s .server { s with server := .read c }
  | close (c : Fin n) (hserver : s.server = .close c) :
      Move asks s .server { s with server := .accept }

theorem step_move {asks : Fin n → Bytes} {s s' : State n} {e : Event n}
    (h : step asks s e = some s') : Move asks s e s' := by
  cases e with
  | client c =>
      simp only [step, clientStep] at h
      -- Before `connect` a client does nothing else.
      split at h
      · rename_i hplace
        rw [← Option.some.inj h]
        exact .connect c hplace
      · rename_i hplace
        rcases Option.map_eq_some_iff.mp h with ⟨p, htalk, hs'⟩
        rw [← hs']
        exact .talk c p hplace htalk
  | server =>
      simp only [step, serverStep] at h
      -- The server waits for a client,
      split at h
      · rename_i hserver
        split at h
        · rename_i c backlog hbacklog
          rw [← Option.some.inj h]
          exact .accept c backlog hserver hbacklog
        · cases h
      -- for a question of the one it serves, or the end of its stream,
      · rename_i c hserver
        split at h
        · rename_i b up hup
          rw [← Option.some.inj h]
          exact .read c b up hserver hup
        · rename_i hup
          split at h
          · rename_i hclosed
            rw [← Option.some.inj h]
            exact .atEnd c hserver hup hclosed
          · cases h
      -- or answers; a letter that is not in its table it passes over.
      · rename_i c b hserver
        split at h
        · rename_i w hw
          rw [← Option.some.inj h]
          exact .answer c b w hserver hw
        · rename_i hw
          rw [← Option.some.inj h]
          exact .ignore c b hserver hw
      · rename_i c hserver
        rw [← Option.some.inj h]
        exact .close c hserver

section Steps

variable {asks : Fin n → Bytes} {s s' : State n}

/-- A client that goes on is neither before `connect` nor behind its end. -/
theorem place_of_talk {qs : Bytes} {p p' : Peer} (h : talk qs p = some p') :
    p.place ≠ .connect ∧ p.place ≠ .closed := by
  unfold talk at h
  constructor
  · intro hplace
    rw [hplace] at h
    cases h
  · intro hplace
    rw [hplace] at h
    cases h

/-- A connection that changes, among the others. -/
theorem tidy_update {server : Server n} {c : Fin n} {p : Peer} (h : Inv asks s)
    (hc : Tidy (asks c) (server.asked c) p)
    (hothers : ∀ c', c' ≠ c → server.asked c' = s.server.asked c') (c' : Fin n) :
    Tidy (asks c') (server.asked c') (Function.update s.peers c p c') := by
  by_cases heq : c' = c
  · rw [heq, Function.update_self]
    exact hc
  · rw [Function.update_of_ne heq, hothers c' heq]
    exact h.tidy c'

/-- Who is where does not change for the other clients. -/
theorem queued_update {c : Fin n} {p : Peer} (h : Inv asks s)
    (hserved : p.place = (s.peers c).place ∨ c ∈ s.backlog ∨ s.server.serves = some c)
    (c' : Fin n) :
    (Function.update s.peers c p c').place = .connect ∨ c' ∈ s.backlog ∨
      s.server.serves = some c' ∨ (Function.update s.peers c p c').place = .closed := by
  by_cases heq : c' = c
  · rw [heq, Function.update_self]
    rcases hserved with hsame | hwaits | hserves
    · rw [hsame]
      exact h.queued c
    · exact Or.inr (Or.inl hwaits)
    · exact Or.inr (Or.inr (Or.inl hserves))
  · rw [Function.update_of_ne heq]
    exact h.queued c'

theorem inv_connect (h : Inv asks s) {c : Fin n} (hplace : (s.peers c).place = .connect) :
    Inv asks { s with
      peers := Function.update s.peers c { s.peers c with place := .write 0 }
      backlog := s.backlog ++ [c] } := by
  refine ⟨fun c' => tidy_update h ?_ (fun _ _ => rfl) c', fun c' => ?_, fun c' hserver => ?_⟩
  -- A client that is only now connected has asked nothing.
  · have htidy := h.tidy c
    revert hplace htidy
    generalize s.peers c = p
    intro hplace htidy
    cases htidy with
    | connect hasked => exact .write 0 hasked (Nat.zero_le _)
    | write | read | closed => cases hplace
  -- It waits at the end of the backlog, the others where they were.
  · by_cases heq : c' = c
    · exact Or.inr (Or.inl (heq ▸ List.mem_append_right _ List.mem_cons_self))
    · dsimp only
      rw [Function.update_of_ne heq]
      exact (h.queued c').imp_right fun hrest =>
        hrest.imp_left fun hmem => List.mem_append_left _ hmem
  -- The one whose connection is being closed has closed its own end before.
  · have hclosed := h.closing c' hserver
    have hne : c' ≠ c := by
      rintro rfl
      rw [hplace] at hclosed
      cases hclosed
    dsimp only
    rw [Function.update_of_ne hne]
    exact hclosed

theorem inv_talk (h : Inv asks s) {c : Fin n} {p : Peer}
    (htalk : talk (asks c) (s.peers c) = some p) :
    Inv asks { s with peers := Function.update s.peers c p } := by
  rcases place_of_talk htalk with ⟨hconnect, hclosed⟩
  refine ⟨fun c' => tidy_update h (tidy_talk (h.tidy c) htalk) (fun _ _ => rfl) c',
    queued_update h (Or.inr ?_), fun c' hserver => ?_⟩
  -- It is neither before its `connect` nor closed, so it waits or is served.
  · rcases h.queued c with hplace | hwaits | hserves | hplace
    · exact absurd hplace hconnect
    · exact Or.inl hwaits
    · exact Or.inr hserves
    · exact absurd hplace hclosed
  · have hne : c' ≠ c := by
      rintro rfl
      exact hclosed (h.closing c' hserver)
    dsimp only
    rw [Function.update_of_ne hne]
    exact h.closing c' hserver

/-- The server takes the question of a client that waits. -/
theorem inv_read (h : Inv asks s) {c : Fin n} {b : UInt8} {up : Bytes}
    (hserver : s.server = .read c) (hup : (s.peers c).up = b :: up) :
    Inv asks { s with
      peers := Function.update s.peers c { s.peers c with up := up }, server := .answer c b } := by
  have hserves : s.server.serves = some c := by rw [hserver]; rfl
  refine ⟨fun c' => tidy_update h ?_ (fun c'' hne => ?_) c', fun c' => ?_, nofun⟩
  · have htidy := h.tidy c
    -- What is in the stream is the question that this client waits with.
    revert hup htidy
    generalize s.peers c = p
    intro hup htidy
    rw [hserver] at htidy
    cases htidy with
    | connect | write | closed => cases hup
    | read i b' up' down hb hpending =>
        have hasked : (Server.read c).asked c = none := rfl
        rw [hasked] at hpending
        cases hpending with
        | written =>
            rcases List.cons.inj hup with ⟨rfl, rfl⟩
            refine .read i b' [] [] hb ?_
            rw [asked_answer]
            exact .asked
        | answered w hw => cases hup
  -- For the others the server has asked nothing, before and after.
  · rw [asked_answer_of_ne b hne, hserver]
    rfl
  · have hqueued := queued_update (p := { s.peers c with up := up }) h (Or.inr (Or.inr hserves)) c'
    rw [hserver] at hqueued
    exact hqueued

/-- The server answers, since the question is in its table. -/
theorem inv_answer (h : Inv asks s) {c : Fin n} {b : UInt8} {w : Bytes}
    (hserver : s.server = .answer c b) (hw : answerOf b = some w) :
    Inv asks { s with
      peers := Function.update s.peers c { s.peers c with down := (s.peers c).down ++ w }
      server := .read c } := by
  have hserves : s.server.serves = some c := by rw [hserver]; rfl
  refine ⟨fun c' => tidy_update h ?_ (fun c'' hne => ?_) c', fun c' => ?_, nofun⟩
  · have htidy := h.tidy c
    revert htidy
    generalize s.peers c = p
    intro htidy
    rw [hserver, asked_answer] at htidy
    -- A client whose question the server has is waiting for the answer.
    cases htidy with
    | connect hasked | write i hasked | closed hasked => cases hasked
    | read i b' up' down hb hpending =>
        cases hpending with
        | asked => exact .read i b [] w hb (.answered w hw)
  · rw [hserver, asked_answer_of_ne b hne]
    rfl
  · have hqueued := queued_update (p := { s.peers c with down := (s.peers c).down ++ w }) h
      (Or.inr (Or.inr hserves)) c'
    rw [hserver] at hqueued
    exact hqueued

/-- A question that is being answered was asked. -/
theorem mem_of_asked {qs : Bytes} {b : UInt8} {p : Peer} (h : Tidy qs (some b) p) : b ∈ qs := by
  cases h with
  | connect hasked | write i hasked | closed hasked => cases hasked
  | read i b' up down hb hpending =>
      cases hpending with
      | asked => exact List.mem_of_getElem? hb

theorem known_answer (h : Inv asks s) (hknown : ∀ c, Known (asks c)) {c : Fin n} {b : UInt8}
    (hserver : s.server = .answer c b) : (answerOf b).isSome = true := by
  have htidy := h.tidy c
  rw [hserver, asked_answer] at htidy
  exact hknown c b (mem_of_asked htidy)

theorem inv_step (h : Inv asks s) (hknown : ∀ c, Known (asks c)) {e : Event n}
    (hstep : step asks s e = some s') : Inv asks s' := by
  cases step_move hstep with
  | connect c hplace => exact inv_connect h hplace
  | talk c p hplace htalk => exact inv_talk h htalk
  | read c b up hserver hup => exact inv_read h hserver hup
  | answer c b w hserver hw => exact inv_answer h hserver hw
  | ignore c b hserver hw =>
      -- All questions are in the table.
      have hsome := known_answer h hknown hserver
      rw [hw] at hsome
      cases hsome
  | accept c backlog hserver hbacklog =>
      refine ⟨fun c' => ?_, fun c' => ?_, nofun⟩
      · have htidy := h.tidy c'
        rw [hserver] at htidy
        exact htidy
      -- The first of the backlog is the one that is served now.
      · rcases h.queued c' with hplace | hwaits | hserves | hplace
        · exact Or.inl hplace
        · rw [hbacklog] at hwaits
          rcases List.mem_cons.mp hwaits with rfl | hrest
          · exact Or.inr (Or.inr (Or.inl rfl))
          · exact Or.inr (Or.inl hrest)
        · rw [hserver] at hserves
          cases hserves
        · exact Or.inr (Or.inr (Or.inr hplace))
  | atEnd c hserver hup hclosed =>
      refine ⟨fun c' => ?_, fun c' => ?_, fun c' heq => ?_⟩
      · have htidy := h.tidy c'
        rw [hserver] at htidy
        exact htidy
      -- The server stays with the same client.
      · have hqueued := h.queued c'
        rw [hserver] at hqueued
        exact hqueued
      · rwa [← Server.close.inj heq]
  | close c hserver =>
      refine ⟨fun c' => ?_, fun c' => ?_, nofun⟩
      · have htidy := h.tidy c'
        rw [hserver] at htidy
        exact htidy
      -- The one it served is closed, and the others wait as before.
      · rcases h.queued c' with hplace | hwaits | hserves | hplace
        · exact Or.inl hplace
        · exact Or.inr (Or.inl hwaits)
        · rw [hserver] at hserves
          rw [← Option.some.inj hserves]
          exact Or.inr (Or.inr (Or.inr (h.closing c hserver)))
        · exact Or.inr (Or.inr (Or.inr hplace))

end Steps

section Rank

variable {asks : Fin n → Bytes} {s s' : State n}

/-- What a client has still to do, with what that makes the server do. -/
def Place.left (total : Nat) : Place → Nat
  | .connect => 4 * total + 5
  | .write i => 4 * (total - i) + 1
  | .read i => 4 * (total - i) - 2
  | .closed => 0

def Peer.left (qs : Bytes) (p : Peer) : Nat := p.place.left qs.length + 2 * p.up.length

def Server.left : Server n → Nat
  | .accept => 0
  | .read _ => 2
  | .answer _ _ => 3
  | .close _ => 1

/-- How many steps are left, at most. -/
def rank (asks : Fin n → Bytes) (s : State n) : Nat :=
  (∑ c, (s.peers c).left (asks c)) + 3 * s.backlog.length + s.server.left

/-- A step that changes one connection is paid for there, or by the server. -/
theorem rank_lt_of_peer {c : Fin n} {p : Peer} {server : Server n} {backlog : List (Fin n)}
    (h : p.left (asks c) + 3 * backlog.length + server.left
      < (s.peers c).left (asks c) + 3 * s.backlog.length + s.server.left) :
    rank asks ⟨Function.update s.peers c p, server, backlog⟩ < rank asks s := by
  have hsum := sum_of_ne (f := fun c' => (s.peers c').left (asks c'))
    (g := fun c' => (Function.update s.peers c p c').left (asks c')) (i := c) fun c' hne => by
      rw [Function.update_of_ne hne]
  rw [Function.update_self] at hsum
  simp only [rank]
  omega

theorem left_talk {qs : Bytes} {asked : Option UInt8} {p p' : Peer} (h : Tidy qs asked p)
    (hstep : talk qs p = some p') : p'.left qs < p.left qs := by
  cases h with
  | connect | closed => cases hstep
  | write i hasked hi =>
      simp only [talk] at hstep
      cases hb : qs[i]? with
      | some b =>
          -- A question asked is two steps less for the client, and one more letter to be read.
          have hlt : i < qs.length := (List.getElem?_eq_some_iff.mp hb).1
          simp only [hb, Option.some.injEq] at hstep
          rw [← hstep]
          simp only [Peer.left, Place.left, List.nil_append, List.length_singleton,
            List.length_nil]
          omega
      | none =>
          simp only [hb, Option.some.injEq] at hstep
          rw [← hstep]
          simp only [Peer.left, Place.left, List.length_nil]
          omega
  | read i b up down hb hpending =>
      have hlt : i < qs.length := (List.getElem?_eq_some_iff.mp hb).1
      simp only [talk] at hstep
      -- With the answer read it goes on to the next question.
      split at hstep
      · rw [← Option.some.inj hstep]
        simp only [Peer.left, Place.left]
        omega
      · cases hstep

theorem rank_step (h : Inv asks s) (hknown : ∀ c, Known (asks c)) {e : Event n}
    (hstep : step asks s e = some s') : rank asks s' < rank asks s := by
  cases step_move hstep with
  | connect c hplace =>
      -- From here on two steps a question are left, and the backlog has one more.
      refine rank_lt_of_peer ?_
      simp only [Peer.left, hplace, Place.left, List.length_append, List.length_singleton]
      omega
  | talk c p hplace htalk =>
      -- The server and the backlog count as before.
      have hless := left_talk (h.tidy c) htalk
      exact rank_lt_of_peer (by omega)
  | accept c backlog hserver hbacklog =>
      simp only [rank, hserver, hbacklog, Server.left, List.length_cons]
      omega
  | read c b up hserver hup =>
      refine rank_lt_of_peer ?_
      simp only [Peer.left, hup, hserver, Server.left, List.length_cons]
      omega
  | atEnd c hserver hup hclosed =>
      simp only [rank, hserver, Server.left]
      omega
  | answer c b w hserver hw =>
      refine rank_lt_of_peer ?_
      simp only [Peer.left, hserver, Server.left]
      omega
  | ignore c b hserver hw =>
      -- A question out of the table would leave its client waiting.
      have hsome := known_answer h hknown hserver
      rw [hw] at hsome
      cases hsome
  | close c hserver =>
      simp only [rank, hserver, Server.left]
      omega

end Rank

/-- All clients have ended with their answers, and the server waits for the
    next. -/
structure Answered (asks : Fin n → Bytes) (s : State n) : Prop where
  closed : ∀ c, (s.peers c).place = .closed
  printed : ∀ c, (s.peers c).printed = answers (asks c)
  server : s.server = .accept
  backlog : s.backlog = []

section Progress

variable {asks : Fin n → Bytes} {s : State n}

/-- A client that cannot go on has ended, or its question has no answer yet. -/
theorem waits_of_stuck (h : Inv asks s) (hstuck : Stuck (step asks) s) (c : Fin n) :
    (s.peers c).place = .closed ∨ ∃ b, (s.peers c).up = [b] ∨ s.server.asked c = some b := by
  have hnone := hstuck (.client c)
  have htidy := h.tidy c
  simp only [step, clientStep] at hnone
  revert hnone htidy
  generalize s.peers c = p
  intro hnone htidy
  cases htidy with
  -- `connect` comes back.
  | connect hasked => cases hnone
  | closed hasked => exact Or.inl rfl
  | write i hasked hi =>
      -- To write takes no waiting, and neither does closing.
      simp only [talk, Option.map_eq_none_iff] at hnone
      split at hnone
      · cases hnone
      · cases hnone
  | read i b up down hb hpending =>
      right
      generalize s.server.asked c = asked at hpending ⊢
      cases hpending with
      | written => exact ⟨b, Or.inl rfl⟩
      | asked => exact ⟨b, Or.inr rfl⟩
      -- An answer that is there can be read.
      | answered w hw =>
          have hanswer := answer_of_answerOf hw
          have htake : down.take bufSize = down :=
            List.take_of_length_le (Nat.le_of_lt hanswer.short)
          simp only [talk, htake, if_pos (And.intro hanswer.ne_nil hanswer.short),
            Option.map_some, reduceCtorEq] at hnone

/-- Where nothing can happen the server waits for a client that is not there,
    and so all have been served. -/
theorem answered_of_stuck (h : Inv asks s) (hstuck : Stuck (step asks) s) : Answered asks s := by
  have hserver := hstuck .server
  simp only [step, serverStep] at hserver
  have haccept : s.server = .accept := by
    cases hs : s.server with
    | accept => rfl
    -- An answer or a close takes place in any case.
    | answer c b =>
        simp only [hs] at hserver
        split at hserver <;> cases hserver
    | close c =>
        simp only [hs] at hserver
        cases hserver
    -- The client it serves has an end open, and no question in the stream: then it has something
    -- to do itself.
    | read c =>
        simp only [hs] at hserver
        split at hserver
        · cases hserver
        · rename_i hup
          split at hserver
          · cases hserver
          · rename_i hopen
            rcases waits_of_stuck h hstuck c with hclosed | ⟨b, hwritten | hasked⟩
            · exact absurd hclosed hopen
            · rw [hup] at hwritten
              cases hwritten
            · rw [hs] at hasked
              cases hasked
  have hbacklog : s.backlog = [] := by
    simp only [haccept] at hserver
    split at hserver
    · cases hserver
    · rename_i hnil
      exact hnil
  have hclosed : ∀ c, (s.peers c).place = .closed := by
    intro c
    -- Every client is somewhere: before its `connect`, in the backlog, served, or closed.
    rcases h.queued c with hplace | hwaits | hserves | hplace
    · have hnone := hstuck (.client c)
      simp only [step, clientStep, hplace] at hnone
      cases hnone
    · rw [hbacklog] at hwaits
      cases hwaits
    · rw [haccept] at hserves
      cases hserves
    · exact hplace
  refine ⟨hclosed, fun c => ?_, haccept, hbacklog⟩
  have htidy := h.tidy c
  have hplace := hclosed c
  revert htidy hplace
  generalize s.peers c = p
  intro htidy hplace
  cases htidy with
  | connect | write | read => cases hplace
  | closed hasked => rfl

end Progress

/-- Every client gets its answers and ends, whoever is served first. -/
theorem completes_of_known {asks : Fin n → Bytes} (hknown : ∀ c, Known (asks c)) :
    Completes (step asks) (start n) (∑ c, (4 * (asks c).length + 5)) (Answered asks) := by
  have hkeep : ∀ s e s', Inv asks s → step asks s e = some s' → Inv asks s' :=
    fun _ _ _ hs hstep => inv_step hs hknown hstep
  have hlower : ∀ s e s', Inv asks s → step asks s e = some s' → rank asks s' < rank asks s :=
    fun _ _ _ hs hstep => rank_step hs hknown hstep
  exact completes_of_rank hkeep hlower (fun _ hs hstuck => answered_of_stuck hs hstuck)
    (inv_start asks)

/-- The questions of the client program. -/
def clientAsks : Bytes := text "abccbahhhh"

/-- Three clients ask what the program asks. -/
theorem completes_three_clients : Completes (step fun _ : Fin 3 => clientAsks) (start 3)
      (∑ _ : Fin 3, (4 * clientAsks.length + 5)) (Answered fun _ => clientAsks) ∧
    answers clientAsks = [text "alfa", text "bravo", text "charlie", text "charlie", text "bravo",
      text "alfa", text "hotel", text "hotel", text "hotel", text "hotel"] :=
  ⟨completes_of_known fun _ => by decide +kernel, by decide +kernel⟩

end Socket

end OsLabs
