import OsLabs.Tcp.Client
import OsLabs.Tcp.Handling
import OsLabs.Tcp.Service

/-!
# Framing on the TCP Connection

Both directions of the connection are byte streams, and both ends take what
one `recv` returns for one message. The client sends commands without any
mark between them; the server ends its texts with a newline, but the client
does not look for it.

Towards the server this works exactly when the network returns every command
by itself, and nothing follows a command that begins with `STOP`. Towards the
client the chunks of chat text may be cut anywhere, since they are printed one
after another; what must not happen is that a chunk mixes a probe with
anything else, cuts it, or begins with a probe's text inside a chat text. To
say this, the bytes of the stream are marked with what they belong to.

## Main definitions

* `ServerText`, `Mark`, `markedStream`: The texts sent to a client, and the
  stream they form.

## Theorems

* `commands_executed_iff`: When the server executes what the client sent.
* `alive_whole`, `pure_of_whole`: A chunk taken for a probe is one.
* `texts_received_iff`: When the client prints and answers what it should.
-/

namespace OsLabs

namespace Tcp

theorem dispatch_eq_remove {c : Command} : dispatch c = .remove ↔ c = .stop := by
  cases c <;> simp only [dispatch, reduceCtorEq]

/-- What is executed is taken from the first chunks. -/
theorem handleClient_prefix {chunks : List Bytes} (hnul : ∀ c ∈ chunks, NulFree c) :
    (handleClient chunks).map Prod.fst <+: chunks := by
  induction chunks with
  | nil => exact List.nil_prefix
  | cons chunk chunks ih =>
      have hchunk : cstr chunk = chunk := cstr_of_nulFree (hnul chunk List.mem_cons_self)
      have hrest := ih (fun c hc => hnul c (List.mem_cons_of_mem _ hc))
      simp only [handleClient, hchunk]
      by_cases hstop : dispatch (parse chunk) = .remove
      · rw [if_pos hstop, List.map_cons, List.map_nil]
        exact List.prefix_append [chunk] chunks
      · rw [if_neg hstop, List.map_cons]
        exact List.cons_prefix_cons.mpr ⟨rfl, hrest⟩

/-- All chunks are executed exactly when only the last may begin with `STOP`. -/
theorem handleClient_eq_iff {chunks : List Bytes} (hnul : ∀ c ∈ chunks, NulFree c) :
    handleClient chunks = chunks.map (fun b => (b, parse b)) ↔
      ∀ b ∈ chunks.dropLast, strncmpEq b (text "STOP") = false := by
  induction chunks with
  | nil => simp only [handleClient, List.map_nil, List.dropLast_nil, List.not_mem_nil,
      false_implies, implies_true]
  | cons chunk chunks ih =>
      have hchunk : cstr chunk = chunk := cstr_of_nulFree (hnul chunk List.mem_cons_self)
      have hrest := ih (fun c hc => hnul c (List.mem_cons_of_mem _ hc))
      have hstop : dispatch (parse chunk) = .remove ↔ strncmpEq chunk (text "STOP") = true :=
        dispatch_eq_remove.trans parse_eq_stop
      simp only [handleClient, hchunk, List.map_cons, List.cons.injEq, true_and, hstop]
      cases chunks with
      | nil =>
          simp only [handleClient, ite_self, List.map_nil, List.dropLast_singleton,
            List.not_mem_nil, false_implies, implies_true]
      | cons next chunks =>
          rw [List.dropLast_cons_of_ne_nil (List.cons_ne_nil next chunks)]
          cases hs : strncmpEq chunk (text "STOP") with
          | true =>
              -- Something follows a `STOP`, and it is not executed.
              rw [if_pos rfl]
              constructor
              · intro h
                exact absurd h (by simp only [List.map_cons, reduceCtorEq, not_false_eq_true])
              · intro h
                have hfalse := h chunk List.mem_cons_self
                rw [hs] at hfalse
                exact absurd hfalse (by simp only [Bool.true_eq_false, not_false_eq_true])
          | false =>
              rw [if_neg Bool.false_ne_true, hrest]
              simp only [List.mem_cons, forall_eq_or_imp, hs, true_and]

/-- A byte of a stream without NUL lies in a chunk without NUL. -/
theorem nulFree_of_flatten {pieces chunks : List Bytes} (h : chunks.flatten = pieces.flatten)
    (hnul : ∀ b ∈ pieces, NulFree b) : ∀ c ∈ chunks, NulFree c := by
  intro c hc hmem
  have hstream : (0 : UInt8) ∈ pieces.flatten := by
    rw [← h]
    exact List.mem_flatten.mpr ⟨c, hc, hmem⟩
  rcases List.mem_flatten.mp hstream with ⟨b, hb, hzero⟩
  exact hnul b hb hzero

/-- For whatever is typed, however many probes are answered in between, and
    however the stream is cut: the server executes the commands sent exactly
    when each comes in a chunk of its own and only the last may begin with
    `STOP`. -/
theorem commands_executed_iff (stdin : Bytes) (pings : Nat) (cmds chunks : List Bytes)
    (hcmds : Interleaved (inputLoop (fgetsLines [] stdin)) (List.replicate pings (text "PING"))
      cmds)
    (hstream : chunks.flatten = cmds.flatten)
    (hchunks : ∀ c ∈ chunks, c ≠ [] ∧ c.length ≤ bufferSize - 1) :
    handleClient chunks = cmds.map (fun b => (b, parse b)) ↔
      chunks = cmds ∧ ∀ b ∈ cmds.dropLast, strncmpEq b (text "STOP") = false := by
  have hnul : ∀ b ∈ cmds, NulFree b := by
    intro b hb
    rcases interleaved_mem hcmds hb with hinput | hping
    · exact (inputLoop_mem hinput).2
    · rw [List.eq_of_mem_replicate hping]
      decide
  have hnulc := nulFree_of_flatten hstream hnul
  constructor
  · intro h
    -- The executed strings begin the chunks and are the whole stream.
    have hpre := handleClient_prefix hnulc
    rw [h, List.map_map, Function.comp_def, List.map_id'] at hpre
    have heq : cmds = chunks :=
      eq_of_prefix_of_flatten hpre hstream.symm (fun c hc => (hchunks c hc).1)
    refine ⟨heq.symm, ?_⟩
    rw [heq] at h hnul ⊢
    exact (handleClient_eq_iff hnul).mp h
  · intro h
    rw [h.1]
    exact (handleClient_eq_iff hnul).mpr h.2

/-- A client asks for the list and leaves, answers a probe in between, and
    the network returns every command by itself. -/
theorem commands_executed_one_by_one :
    handleClient [text "LIST", text "PING", text "STOP"]
      = [(text "LIST", .list), (text "PING", .ping), (text "STOP", .stop)] := by
  have hinput : inputLoop (fgetsLines [] (text "LIST\nQUIT\n")) = [text "LIST", text "STOP"] := by
    decide +kernel
  have hcmds : Interleaved (inputLoop (fgetsLines [] (text "LIST\nQUIT\n")))
      (List.replicate 1 (text "PING")) [text "LIST", text "PING", text "STOP"] := by
    rw [hinput]
    exact .left (.right (.left .nil))
  exact (commands_executed_iff (text "LIST\nQUIT\n") 1 _ _ hcmds rfl (by decide)).mpr
    ⟨rfl, by decide⟩

/-- A command and a `PING` that arrive together are one command. -/
theorem commands_merged :
    ¬ ∀ (stdin : Bytes) (pings : Nat) (cmds chunks : List Bytes),
      Interleaved (inputLoop (fgetsLines [] stdin)) (List.replicate pings (text "PING")) cmds →
      chunks.flatten = cmds.flatten → (∀ c ∈ chunks, c ≠ [] ∧ c.length ≤ bufferSize - 1) →
      handleClient chunks = cmds.map (fun b => (b, parse b)) := by
  intro hall
  have hinput : inputLoop (fgetsLines [] (text "LIST\n")) = [text "LIST"] := by
    decide +kernel
  have hcmds : Interleaved (inputLoop (fgetsLines [] (text "LIST\n")))
      (List.replicate 1 (text "PING")) [text "LIST", text "PING"] := by
    rw [hinput]
    exact .left (.right .nil)
  have hlost := hall (text "LIST\n") 1 _ [text "LISTPING"] hcmds (by decide) (by decide)
  exact absurd (congrArg List.length hlost) (by decide)

/-- A text sent to a client: a probe of the sweep, or anything else. -/
inductive ServerText where
  | alive
  | chat (message : Bytes)
  deriving DecidableEq

/-- A byte of the stream, with what it belongs to. -/
structure Mark where
  byte : UInt8
  probe : Bool
  deriving DecidableEq

/-- The bytes of a text. -/
def ServerText.marks : ServerText → List Mark
  | .alive => (text "ALIVE\n").map fun b => ⟨b, true⟩
  | .chat message => message.map fun b => ⟨b, false⟩

/-- The stream that the texts form. -/
def markedStream (texts : List ServerText) : List Mark := texts.flatMap ServerText.marks

theorem markedStream_cons (t : ServerText) (texts : List ServerText) :
    markedStream (t :: texts) = t.marks ++ markedStream texts := List.flatMap_cons

theorem probe_of_chat {message : Bytes} {m : Mark} (h : m ∈ (ServerText.chat message).marks) :
    m.probe = false := by
  rcases List.mem_map.mp h with ⟨b, _, hb⟩
  rw [← hb]

/-- The texts of chat have no NUL, so no chunk of the stream has one. -/
theorem nulFree_chunk {texts : List ServerText} {chunks : List (List Mark)}
    (htexts : ∀ message, .chat message ∈ texts → NulFree message)
    (hstream : chunks.flatten = markedStream texts) :
    ∀ c ∈ chunks, NulFree (c.map Mark.byte) := by
  intro c hc hzero
  rcases List.mem_map.mp hzero with ⟨m, hm, hbyte⟩
  have hmem : m ∈ markedStream texts := by
    rw [← hstream]
    exact List.mem_flatten.mpr ⟨c, hc, hm⟩
  -- The byte comes from some text, and neither kind has a NUL.
  rcases List.mem_flatMap.mp hmem with ⟨t, ht, hmt⟩
  cases t with
  | alive =>
      have hnone : ∀ m ∈ ServerText.alive.marks, m.byte ≠ 0 := by decide
      exact hnone m hmt hbyte
  | chat message =>
      rcases List.mem_map.mp hmt with ⟨b, hb, heq⟩
      rw [← heq] at hbyte
      exact htexts message ht (hbyte ▸ hb)

/-- The chat texts are the bytes that belong to no probe. -/
theorem markedStream_chat (texts : List ServerText) :
    markedStream (texts.filter fun t => decide (t ≠ .alive))
      = (markedStream texts).filter fun m => !m.probe := by
  induction texts with
  | nil => rfl
  | cons t texts ih =>
      rw [markedStream_cons, List.filter_append, ← ih]
      cases t with
      | alive => rfl
      | chat message =>
          have hne : ServerText.chat message ≠ .alive := by
            simp only [ne_eq, reduceCtorEq, not_false_eq_true]
          have hall : (ServerText.chat message).marks.filter (fun m => !m.probe)
              = (ServerText.chat message).marks := by
            refine List.filter_eq_self.mpr (fun m hm => ?_)
            rw [probe_of_chat hm]
            rfl
          have hkeep : (ServerText.chat message :: texts).filter (fun t => decide (t ≠ .alive))
              = .chat message :: texts.filter fun t => decide (t ≠ .alive) :=
            List.filter_cons_of_pos (decide_eq_true hne)
          rw [hall, hkeep, markedStream_cons]

theorem length_probe_marks (texts : List ServerText) :
    ((markedStream texts).filter Mark.probe).length = 6 * texts.count .alive := by
  induction texts with
  | nil => rfl
  | cons t texts ih =>
      rw [markedStream_cons, List.filter_append, List.length_append, ih]
      cases t with
      | alive =>
          have hlen : (ServerText.alive.marks.filter Mark.probe).length = 6 := by decide
          -- A probe has six bytes.
          rw [hlen, List.count_cons_self]
          omega
      | chat message =>
          have hnone : (ServerText.chat message).marks.filter Mark.probe = [] := by
            refine List.filter_eq_nil_iff.mpr (fun m hm => ?_)
            rw [probe_of_chat hm]
            exact Bool.false_ne_true
          have hne : ServerText.chat message ≠ .alive := by
            simp only [ne_eq, reduceCtorEq, not_false_eq_true]
          rw [hnone, List.length_nil, Nat.zero_add, List.count_cons_of_ne hne]

/-- Inside a stream, the `E` of a probe is followed by its newline. -/
theorem newline_of_probe (texts : List ServerText) :
    ∀ u w, markedStream texts = u ++ ⟨69, true⟩ :: w → ∃ w', w = ⟨10, true⟩ :: w' := by
  induction texts with
  | nil =>
      intro u w h
      exact absurd h.symm (List.append_ne_nil_of_right_ne_nil u (List.cons_ne_nil _ w))
  | cons t texts ih =>
      intro u w h
      rw [markedStream_cons] at h
      rcases List.append_eq_append_iff.mp h with ⟨v, _, hrest⟩ | ⟨v, hmarks, hrest⟩
      · exact ih v w hrest
      · cases v with
        | nil => exact ih [] w hrest.symm
        | cons m v =>
            -- The `E` lies inside this text, which therefore is a probe.
            rw [List.cons_append, List.cons.injEq] at hrest
            rw [← hrest.1] at hmarks
            cases t with
            | chat message =>
                have hmem : (⟨69, true⟩ : Mark) ∈ (ServerText.chat message).marks := by
                  rw [hmarks]
                  exact List.mem_append_right _ List.mem_cons_self
                exact absurd (probe_of_chat hmem) (by decide)
            | alive =>
                -- It stands at the fifth place, and nowhere else.
                have hidx : ∀ i < 6, ServerText.alive.marks[i]? = some ⟨69, true⟩ → i = 4 := by
                  decide
                have hget : ServerText.alive.marks[u.length]? = some ⟨69, true⟩ := by
                  rw [hmarks, List.getElem?_append_right (le_refl _), Nat.sub_self]
                  rfl
                have hlen : u.length < 6 := (List.getElem?_eq_some_iff.mp hget).1
                have hu : u.length = 4 := hidx _ hlen hget
                have hv : v = [⟨10, true⟩] := by
                  have hdrop := congrArg (List.drop (u.length + 1)) hmarks
                  rw [List.drop_append, List.drop_eq_nil_of_le (Nat.le_succ _),
                    Nat.add_sub_cancel_left, hu] at hdrop
                  exact hdrop.symm
                rw [hrest.2, hv]
                exact ⟨_, rfl⟩

/-- Bytes of probes are known from their values. -/
theorem marks_of_probe {l : List Mark} (h : ∀ m ∈ l, m.probe = true) :
    l = (l.map Mark.byte).map fun b => ⟨b, true⟩ := by
  rw [List.map_map]
  refine (List.map_id l).symm.trans (List.map_congr_left (fun m hm => ?_))
  simp only [id, Function.comp_apply, ← h m hm]

/-- If chunks are pure, a chunk taken for a probe contains one from its first
    byte to its newline: the newline alone would not be taken for a probe. -/
theorem alive_chunk {texts : List ServerText} {chunks : List (List Mark)}
    (hstream : chunks.flatten = markedStream texts) (hne : ∀ c ∈ chunks, c ≠ [])
    (hnul : ∀ c ∈ chunks, NulFree (c.map Mark.byte))
    (hpure : ∀ c ∈ chunks, ∀ m ∈ c, m.probe = isAlive Mark.byte c) {c : List Mark}
    (hc : c ∈ chunks) (halive : isAlive Mark.byte c = true) :
    ∃ rest, c = ServerText.alive.marks ++ rest := by
  have hbegin : text "ALIVE" <+: c.map Mark.byte := by
    unfold isAlive at halive
    rw [cstr_of_nulFree (hnul c hc)] at halive
    exact List.isPrefixOf_iff_prefix.mp halive
  -- Its first five bytes are those of a probe, up to the `E`.
  rcases hbegin with ⟨rest, hrest⟩
  rcases List.map_eq_append_iff.mp hrest.symm with ⟨five, c', hsplit, hfive, _⟩
  have hmarks : five = (text "ALIV").map (fun b => ⟨b, true⟩) ++ [⟨69, true⟩] := by
    refine (marks_of_probe (fun m hm => ?_)).trans ?_
    · rw [hpure c hc m (by rw [hsplit]; exact List.mem_append_left _ hm), halive]
    · rw [hfive]
      rfl
  rcases List.append_of_mem hc with ⟨before, after, hchunks⟩
  have hnext : ∃ w, c' ++ after.flatten = ⟨10, true⟩ :: w := by
    refine newline_of_probe texts
      (before.flatten ++ (text "ALIV").map (fun b => ⟨b, true⟩)) _ ?_
    rw [← hstream, hchunks, List.flatten_append, List.flatten_cons, hsplit, hmarks]
    simp only [List.append_assoc, List.cons_append, List.nil_append]
  rcases hnext with ⟨w, hw⟩
  cases c' with
  | cons m c' =>
      rw [List.cons_append, List.cons.injEq] at hw
      refine ⟨c', ?_⟩
      rw [hsplit, hmarks, hw.1]
      rfl
  | nil =>
      -- Then the newline begins the next chunk, which is no probe's text.
      exfalso
      rw [List.nil_append] at hw
      cases after with
      | nil => exact absurd hw.symm (List.cons_ne_nil _ w)
      | cons d after =>
          have hd : d ∈ chunks := by
            rw [hchunks]
            exact List.mem_append_right _ (List.mem_cons_of_mem _ List.mem_cons_self)
          cases hcons : d with
          | nil => exact hne d hd hcons
          | cons m d' =>
              rw [List.flatten_cons, hcons, List.cons_append, List.cons.injEq] at hw
              have hm : m.probe = isAlive Mark.byte d := hpure d hd m (by
                rw [hcons]
                exact List.mem_cons_self)
              have hfalse : isAlive Mark.byte (⟨10, true⟩ :: d') = false := rfl
              rw [hcons, hw.1, hfalse] at hm
              exact absurd hm (by simp only [Bool.true_eq_false, not_false_eq_true])

/-- The chunks that are printed, and how many are answered. -/
theorem receiveMessages_filter {chunks : List (List Mark)}
    (hnul : ∀ c ∈ chunks, NulFree (c.map Mark.byte)) :
    (receiveMessages Mark.byte chunks).flatMap Response.printed
        = (chunks.filter fun c => !isAlive Mark.byte c).flatten ∧
      (receiveMessages Mark.byte chunks).count .ping
        = (chunks.filter (isAlive Mark.byte)).length := by
  induction chunks with
  | nil => exact ⟨rfl, rfl⟩
  | cons c chunks ih =>
      rcases ih (fun d hd => hnul d (List.mem_cons_of_mem _ hd)) with ⟨hprinted, hpings⟩
      have hcons : receiveMessages Mark.byte (c :: chunks)
          = answer Mark.byte c :: receiveMessages Mark.byte chunks := rfl
      rw [hcons, List.flatMap_cons, hprinted]
      cases halive : isAlive Mark.byte c with
      | true =>
          have hanswer : answer Mark.byte c = .ping := by
            rw [answer, halive, if_pos rfl]
          simp only [hanswer, Response.printed, List.nil_append, List.count_cons_self, hpings,
            List.filter_cons, halive, Bool.not_true, Bool.false_eq_true, if_false, if_true,
            List.length_cons, and_self]
      | false =>
          -- Printing stops at a NUL, and there is none.
          have hwhole : c.takeWhile (fun b => b.byte != 0) = c := by
            rw [List.takeWhile_eq_self_iff]
            intro m hm
            rw [bne_iff_ne]
            intro hzero
            exact hnul c List.mem_cons_self (hzero ▸ List.mem_map_of_mem hm)
          have hanswer : answer Mark.byte c = .print c := by
            rw [answer, halive, if_neg Bool.false_ne_true, hwhole]
          have hne : Response.print c ≠ .ping := by
            simp only [ne_eq, reduceCtorEq, not_false_eq_true]
          simp only [hanswer, Response.printed, List.count_cons_of_ne hne, hpings,
            List.filter_cons, halive, Bool.not_false, Bool.false_eq_true, if_false, if_true,
            List.flatten_cons, and_self]

/-- If chunks are pure and as many are answered as probes were sent, an
    answered chunk has room for one probe only. -/
theorem alive_whole {texts : List ServerText} {chunks : List (List Mark)}
    (hstream : chunks.flatten = markedStream texts) (hne : ∀ c ∈ chunks, c ≠ [])
    (hnul : ∀ c ∈ chunks, NulFree (c.map Mark.byte))
    (hpure : ∀ c ∈ chunks, ∀ m ∈ c, m.probe = isAlive Mark.byte c)
    (hcount : (chunks.filter (isAlive Mark.byte)).length = texts.count .alive) {c : List Mark}
    (hc : c ∈ chunks) (halive : isAlive Mark.byte c = true) : c = ServerText.alive.marks := by
  have hmarks : ServerText.alive.marks.length = 6 := by decide
  have hsix : ∀ c ∈ chunks.filter (isAlive Mark.byte), c.length = 6 := by
    refine length_eq_of_flatten_le (fun c hc => ?_) ?_
    · rcases List.mem_filter.mp hc with ⟨hmem, hc⟩
      rcases alive_chunk hstream hne hnul hpure hmem hc with ⟨rest, hrest⟩
      rw [hrest, List.length_append, hmarks]
      exact Nat.le_add_right 6 _
    · rw [filter_flatten_of_pure hpure, hstream, length_probe_marks, hcount]
  rcases alive_chunk hstream hne hnul hpure hc halive with ⟨rest, hrest⟩
  have hlen := hsix c (List.mem_filter.mpr ⟨hc, halive⟩)
  rw [hrest, List.length_append, hmarks] at hlen
  have hnil : rest = [] := List.eq_nil_of_length_eq_zero (by omega)
  rw [hrest, hnil, List.append_nil]

/-- A whole probe is taken for one, and so is nothing else. -/
theorem pure_of_whole {c : List Mark} (hnul : NulFree (c.map Mark.byte))
    (h : c = ServerText.alive.marks ∨
      ((∀ m ∈ c, m.probe = false) ∧ strncmpEq (c.map Mark.byte) (text "ALIVE") = false)) :
    (∀ m ∈ c, m.probe = isAlive Mark.byte c) ∧ (isAlive Mark.byte c = true → c.length = 6) := by
  rcases h with hprobe | ⟨hchat, hbegin⟩
  · have hyes : isAlive Mark.byte c = true := by
      rw [hprobe]
      decide
    refine ⟨fun m hm => ?_, fun _ => ?_⟩
    · rw [hprobe] at hm
      rcases List.mem_map.mp hm with ⟨b, _, hb⟩
      rw [hyes, ← hb]
    · rw [hprobe]
      decide
  · have hno : isAlive Mark.byte c = false := by
      rw [isAlive, cstr_of_nulFree hnul, hbegin]
    refine ⟨fun m hm => ?_, fun hyes => ?_⟩
    · rw [hchat m hm, hno]
    · rw [hno] at hyes
      exact absurd hyes Bool.false_ne_true

/-- For whatever texts are sent and however the stream is cut: the chat texts
    are printed in order, all else is dropped, and every probe is answered
    once, exactly when every chunk is a whole probe and no more, or consists of
    chat text and does not begin with the text of a probe. -/
theorem texts_received_iff (texts : List ServerText) (chunks : List (List Mark))
    (htexts : ∀ message, .chat message ∈ texts → NulFree message)
    (hstream : chunks.flatten = markedStream texts)
    (hchunks : ∀ c ∈ chunks, c ≠ [] ∧ c.length ≤ bufferSize - 1) :
    ((receiveMessages Mark.byte chunks).flatMap Response.printed
          = markedStream (texts.filter fun t => decide (t ≠ .alive)) ∧
        (receiveMessages Mark.byte chunks).count .ping = texts.count .alive) ↔
      ∀ c ∈ chunks, c = ServerText.alive.marks ∨
        ((∀ m ∈ c, m.probe = false) ∧
          strncmpEq (c.map Mark.byte) (text "ALIVE") = false) := by
  have hnul := nulFree_chunk htexts hstream
  have hne : ∀ c ∈ chunks, c ≠ [] := fun c hc => (hchunks c hc).1
  rcases receiveMessages_filter hnul with ⟨hprinted, hpings⟩
  rw [hprinted, hpings, markedStream_chat, ← hstream]
  constructor
  · rintro ⟨hchat, hcount⟩ c hc
    have hpure : ∀ c ∈ chunks, ∀ m ∈ c, m.probe = isAlive Mark.byte c := by
      intro c hc m hm
      exact Bool.not_inj (pure_of_filter_flatten hchat c hc m hm)
    cases halive : isAlive Mark.byte c with
    | true => exact Or.inl (alive_whole hstream hne hnul hpure hcount hc halive)
    | false =>
        refine Or.inr ⟨fun m hm => ?_, ?_⟩
        · rw [hpure c hc m hm, halive]
        · rw [← halive, isAlive, cstr_of_nulFree (hnul c hc)]
  · intro h
    have hpure : ∀ c ∈ chunks, ∀ m ∈ c, m.probe = isAlive Mark.byte c :=
      fun c hc => (pure_of_whole (hnul c hc) (h c hc)).1
    refine ⟨filter_flatten_of_pure (fun c hc m hm => by rw [hpure c hc m hm]), ?_⟩
    -- Every answered chunk has the length of a probe.
    have htotal : (chunks.filter (isAlive Mark.byte)).flatten.length
        = 6 * (chunks.filter (isAlive Mark.byte)).length := by
      refine length_flatten_of_forall fun c hc => ?_
      rcases List.mem_filter.mp hc with ⟨hmem, halive⟩
      exact (pure_of_whole (hnul c hmem) (h c hmem)).2 halive
    rw [filter_flatten_of_pure hpure, hstream, length_probe_marks] at htotal
    omega

/-- A public text, as the server formats it for the client `ala`. -/
def greeting : ServerText := .chat (allText (text "00:00:00") (text "ala") (text "hej"))

theorem nulFree_greeting :
    ∀ message, .chat message ∈ [ServerText.alive, greeting] → NulFree message := by
  intro message hmem
  simp only [greeting, List.mem_cons, reduceCtorEq, List.not_mem_nil, or_false, false_or,
    ServerText.chat.injEq] at hmem
  rw [hmem]
  decide

/-- A probe by itself and a chat text cut in two are received as they should. -/
theorem texts_received_cut :
    (receiveMessages Mark.byte
        [ServerText.alive.marks, greeting.marks.take 3, greeting.marks.drop 3]).flatMap
          Response.printed = greeting.marks ∧
      (receiveMessages Mark.byte
        [ServerText.alive.marks, greeting.marks.take 3, greeting.marks.drop 3]).count .ping = 1 :=
  (texts_received_iff [.alive, greeting] _ nulFree_greeting (by decide) (by decide)).mpr
    (by decide)

/-- A chat text that arrives together with a probe is swallowed. -/
theorem texts_merged :
    ¬ ∀ (texts : List ServerText) (chunks : List (List Mark)),
      (∀ message, .chat message ∈ texts → NulFree message) →
      chunks.flatten = markedStream texts →
      (∀ c ∈ chunks, c ≠ [] ∧ c.length ≤ bufferSize - 1) →
      (receiveMessages Mark.byte chunks).flatMap Response.printed
          = markedStream (texts.filter fun t => decide (t ≠ .alive)) ∧
        (receiveMessages Mark.byte chunks).count .ping = texts.count .alive := by
  intro hall
  have hlost := hall [.alive, greeting] [ServerText.alive.marks ++ greeting.marks]
    nulFree_greeting (by decide) (by decide)
  exact absurd hlost.1 (by decide)

end Tcp

end OsLabs
