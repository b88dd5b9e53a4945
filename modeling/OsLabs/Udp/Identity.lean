import OsLabs.Udp.Server
import OsLabs.Library.Machine

/-!
# What a Chat Text Says about Its Sender

A chat text begins with the time, the name of the sender and a separator,
which differs between public and private messages; then comes the message. A
name is any string that fits the table. So the name and the separator, the
head of a text, may go on with a part of what looks like the message, and the
message with what looks like a part of a head.

Two texts that were not cut can be equal only if the head of one begins with
the head of the other. And if it does, and the names or kinds differ, there
are two messages with one text: the message under the shorter head supplies
the rest of the longer one. Names without a colon, and without the mark of
private messages at their end, have no such heads.

## Main definitions

* `Kind`, `Kind.mark`, `Kind.head`: Public and private messages, and how their
  texts begin.
* `Kind.format`, `Kind.Whole`: The text that is sent, and that it is not cut.
* `Comparable`: Of two heads one begins with the other.
* `Identified`: The texts of two senders tell who sent them, and what.

## Theorems

* `format_eq_iff`: When texts are equal.
* `identified_iff`: When they tell.
* `identified_of_plain`: Names that do.
-/

namespace OsLabs

namespace Udp

/-- The two kinds of chat texts. -/
inductive Kind where
  | toAll
  | toOne
  deriving DecidableEq

/-- What stands between the name and the message. -/
def Kind.mark : Kind → Bytes
  | .toAll => text ": "
  | .toOne => text " (prywatnie): "

/-- How the texts of a sender begin, after the time. -/
def Kind.head (k : Kind) (name : Bytes) : Bytes := name ++ k.mark

/-- The text that is formatted for a message. -/
def Kind.format (k : Kind) (timestamp name message : Bytes) : Bytes :=
  match k with
  | .toAll => allText timestamp name message
  | .toOne => oneText timestamp name message

/-- The text fits the buffer. -/
def Kind.Whole (k : Kind) (timestamp name message : Bytes) : Prop :=
  (text "[" ++ timestamp ++ text "] " ++ k.head name ++ message).length < bufferSize

/-- Of two heads one begins with the other. -/
def Comparable (h h' : Bytes) : Prop := h <+: h' ∨ h' <+: h

/-- Texts of these two names and kinds that are equal have the same name, kind
    and message. -/
def Identified (timestamp : Bytes) (k l : Kind) (name name' : Bytes) : Prop :=
  ∀ message message', NulFree message → NulFree message' → k.Whole timestamp name message →
    l.Whole timestamp name' message' →
    k.format timestamp name message = l.format timestamp name' message' →
    name = name' ∧ k = l ∧ message = message'

theorem format_eq {k : Kind} {timestamp name message : Bytes} (h : k.Whole timestamp name message) :
    k.format timestamp name message
      = text "[" ++ timestamp ++ text "] " ++ (k.head name ++ message) := by
  have hle : (text "[" ++ timestamp ++ text "] " ++ k.head name ++ message).length
      ≤ bufferSize - 1 := Nat.le_sub_one_of_lt h
  cases k with
  | toAll =>
      refine (List.take_of_length_le ?_).trans ?_
      · rw [Kind.head, ← List.append_assoc] at hle
        exact hle
      · simp only [Kind.head, Kind.mark, List.append_assoc]
  | toOne =>
      refine (List.take_of_length_le ?_).trans ?_
      · rw [Kind.head, ← List.append_assoc] at hle
        exact hle
      · simp only [Kind.head, Kind.mark, List.append_assoc]

/-- Whole texts are equal if what follows the time is. -/
theorem format_eq_iff {k l : Kind} {timestamp name name' message message' : Bytes}
    (h : k.Whole timestamp name message) (h' : l.Whole timestamp name' message') :
    k.format timestamp name message = l.format timestamp name' message' ↔
      k.head name ++ message = l.head name' ++ message' := by
  rw [format_eq h, format_eq h', List.append_right_inj]

/-- Two lists that begin one list. -/
theorem comparable_of_append_eq {h h' m m' : Bytes} (heq : h ++ m = h' ++ m') : Comparable h h' :=
  List.prefix_or_prefix_of_prefix (List.prefix_append h m) (heq ▸ List.prefix_append h' m')

theorem Identified.symm {timestamp : Bytes} {k l : Kind} {name name' : Bytes}
    (h : Identified timestamp k l name name') : Identified timestamp l k name' name := by
  intro message message' hnul hnul' hwhole hwhole' heq
  have hsame := h message' message hnul' hnul hwhole' hwhole heq.symm
  exact ⟨hsame.1.symm, hsame.2.1.symm, hsame.2.2.symm⟩

theorem nulFree_mark (k : Kind) : NulFree k.mark := by
  cases k <;> decide

theorem length_mark_le (k : Kind) : k.mark.length ≤ 14 := by
  cases k <;> decide

/-- The message that makes up for the rest of the longer head. -/
theorem same_of_begins {clk : LocalClock} {now : Nat} {k l : Kind} {a b : CharArray maxNameLen}
    (hbegins : k.head a.str <+: l.head b.str)
    (h : Identified (clk.stamp now) k l a.str b.str) : a.str = b.str ∧ k = l := by
  rcases hbegins with ⟨rest, hrest⟩
  -- The rest has no NUL, since a name has none.
  have hnul : NulFree rest := by
    have hhead : NulFree (l.head b.str) := nulFree_append.mpr ⟨b.nulFree_str, nulFree_mark l⟩
    rw [← hrest] at hhead
    exact (nulFree_append.mp hhead).2
  -- Both texts fit the buffer, so none of them is cut.
  have hlength : (l.head b.str).length ≤ 46 := by
    have hname := cstr_length_le b.bytes
    rw [b.length_bytes] at hname
    have hmark := length_mark_le l
    rw [Kind.head, List.length_append]
    exact Nat.add_le_add hname hmark
  have hwhole : ∀ {m : Kind} {c : CharArray maxNameLen} {message : Bytes},
      m.head c.str ++ message = l.head b.str → m.Whole (clk.stamp now) c.str message := by
    intro m c message heq
    rw [Kind.Whole, List.append_assoc, heq]
    simp only [List.length_append, clk.length_stamp]
    have hbrackets : (text "[").length + 8 + (text "] ").length = 11 := by decide
    have hsize : bufferSize = 1024 := rfl
    omega
  have hempty : l.head b.str ++ [] = l.head b.str := List.append_nil _
  have hsame := h rest [] hnul (by decide) (hwhole hrest) (hwhole hempty) (by
    rw [format_eq_iff (hwhole hrest) (hwhole hempty), hrest, List.append_nil])
  exact ⟨hsame.1, hsame.2.1⟩

/-- A name and a kind are read off a text if no other head could begin it. -/
theorem identified_of {timestamp name name' : Bytes} {k l : Kind}
    (h : (name = name' ∧ k = l) ∨ ¬ Comparable (k.head name) (l.head name')) :
    Identified timestamp k l name name' := by
  intro message message' _ _ hwhole hwhole' heq
  rw [format_eq_iff hwhole hwhole'] at heq
  rcases h with ⟨hname, hkind⟩ | hc
  · rw [hname, hkind, List.append_right_inj] at heq
    exact ⟨hname, hkind, heq⟩
  · exact absurd (comparable_of_append_eq heq) hc

/-- For any two names in the table and any two kinds, the texts tell who sent
    them and what, exactly if names and kinds are the same or neither of the
    heads begins with the other. -/
theorem identified_iff (clk : LocalClock) (now : Nat) (s : Server) (i j : Slot) (k l : Kind) :
    Identified (clk.stamp now) k l (s.clients i).name.str (s.clients j).name.str ↔
      ((s.clients i).name.str = (s.clients j).name.str ∧ k = l) ∨
        ¬ Comparable (k.head (s.clients i).name.str) (l.head (s.clients j).name.str) := by
  constructor
  · intro h
    by_cases hc : Comparable (k.head (s.clients i).name.str) (l.head (s.clients j).name.str)
    · left
      rcases hc with hbegins | hbegins
      · exact same_of_begins hbegins h
      · have hsame := same_of_begins hbegins h.symm
        exact ⟨hsame.1.symm, hsame.2.symm⟩
    · exact .inr hc
  · exact identified_of

/-- A name without a colon, and without the mark of private messages at its
    end. -/
def Plain (name : Bytes) : Prop :=
  (58 : UInt8) ∉ name ∧ ¬ text " (prywatnie)" <:+ name

/-- What stands before the colon of a head. -/
def Kind.stem (k : Kind) (name : Bytes) : Bytes :=
  match k with
  | .toAll => name
  | .toOne => name ++ text " (prywatnie)"

theorem head_eq (k : Kind) (name : Bytes) : k.head name = k.stem name ++ 58 :: [32] := by
  cases k with
  | toAll => rfl
  | toOne =>
      rw [Kind.head, Kind.stem, List.append_assoc]
      rfl

theorem not_mem_stem {name : Bytes} (k : Kind) (h : Plain name) : (58 : UInt8) ∉ k.stem name := by
  cases k with
  | toAll => exact h.1
  | toOne =>
      intro hmem
      rcases List.mem_append.mp hmem with hname | hmark
      · exact h.1 hname
      · exact absurd hmark (by decide)

/-- The first colon of a head is that of its mark. -/
theorem stem_eq_of_begins {k l : Kind} {name name' : Bytes} (h : Plain name) (h' : Plain name')
    (hbegins : k.head name <+: l.head name') : k.stem name = l.stem name' := by
  rcases hbegins with ⟨rest, hrest⟩
  rw [head_eq, head_eq, List.append_assoc, List.cons_append] at hrest
  have hsplit := strchrSplit_append (32 :: rest) (not_mem_stem k h)
  have hsplit' := strchrSplit_append [32] (not_mem_stem l h')
  have hsame : some (k.stem name, 32 :: rest) = some (l.stem name', [32]) :=
    hsplit.symm.trans ((congrArg (strchrSplit 58) hrest).trans hsplit')
  exact (Prod.mk.inj (Option.some.inj hsame)).1

theorem same_of_stem {k l : Kind} {name name' : Bytes} (h : Plain name) (h' : Plain name')
    (hstem : k.stem name = l.stem name') : name = name' ∧ k = l := by
  cases k with
  | toAll =>
      cases l with
      | toAll => exact ⟨hstem, rfl⟩
      | toOne => exact absurd ⟨name', hstem.symm⟩ h.2
  | toOne =>
      cases l with
      | toAll => exact absurd ⟨name, hstem⟩ h'.2
      | toOne => exact ⟨List.append_cancel_right hstem, rfl⟩

/-- Plain names and their kinds can be told from the texts. -/
theorem identified_of_plain (clk : LocalClock) (now : Nat) (s : Server) {i j : Slot} (k l : Kind)
    (hi : Plain (s.clients i).name.str) (hj : Plain (s.clients j).name.str) :
    Identified (clk.stamp now) k l (s.clients i).name.str (s.clients j).name.str := by
  refine identified_of ?_
  by_cases hc : Comparable (k.head (s.clients i).name.str) (l.head (s.clients j).name.str)
  · left
    rcases hc with hbegins | hbegins
    · exact same_of_stem hi hj (stem_eq_of_begins hi hj hbegins)
    · exact same_of_stem hi hj (stem_eq_of_begins hj hi hbegins).symm
  · exact .inr hc

/-- Two clients register, the second under a name that goes on like a text of
    the first. -/
def twoNames : List Event :=
  [.datagram ⟨1, 1⟩ (text "REGISTER a"), .message, .message, .message,
    .datagram ⟨2, 2⟩ (text "REGISTER a: b"), .message, .message, .message]

/-- What the first says with one message, the second says with another. -/
theorem text_of_two_senders : ∃ s, Machine.Reaches (step stoppedClock) init s ∧
    (s.server.clients 0).active = true ∧ (s.server.clients 1).active = true ∧
    ¬ Identified (stoppedClock.stamp 0) .toAll .toAll (s.server.clients 0).name.str
      (s.server.clients 1).name.str := by
  have hend : (Machine.exec (step stoppedClock) init twoNames).any (fun s =>
      decide ((s.server.clients 0).active = true ∧ (s.server.clients 1).active = true ∧
        (s.server.clients 0).name.str = text "a" ∧
        (s.server.clients 1).name.str = text "a: b")) = true := by
    decide +kernel
  rcases Machine.exists_of_exec_any hend with ⟨s, hrun, htable⟩
  have ⟨hfirst, hsecond, hname, hname'⟩ := of_decide_eq_true htable
  refine ⟨s, ⟨twoNames, hrun⟩, hfirst, hsecond, fun h => ?_⟩
  rw [hname, hname'] at h
  have hsame := h (text "b: c") (text "c") (by decide) (by decide)
    (show (_ : Nat) < _ by decide) (show (_ : Nat) < _ by decide) (by decide)
  exact absurd hsame.1 (by decide)

end Udp

end OsLabs
