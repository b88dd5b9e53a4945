import OsLabs.Udp.Server

/-!
# The Input Loop of the UDP Client

`cw12/assignment/client.c` after the registration. What the user types goes
to the server, one datagram for each call of `fgets` and without its newline.
A line that is longer than the buffer is read by several calls, and nothing
tells the server, or the loop, that what the later ones read was not typed as
a line.

Left out are the receiving thread, the prompts and the help text, and a
`sendto` that fails.

## Main definitions

* `inputLoop`: The datagrams sent by the input loop of `main`.
* `InputTurn`, `inputTurn`: One turn of the loop.
* `typed`: The datagrams that one line becomes.

## Theorems

* `inputLoop_turn`: The loop is one turn after the other.
* `typed_mem`: A datagram has no NUL and fits the server's buffer.
* `typed_split`: A long line is a datagram and another line.
-/

namespace OsLabs

namespace Udp

/-- The datagrams that the input loop sends for what `fgets` reads. -/
def inputLoop : List Bytes → List Bytes
  | [] => []
  | line :: lines =>
      let input := (cstr line).takeWhile (· != 10)
      if input = [] then inputLoop lines
      else if input = text "QUIT" then [text "QUIT"]
      else if input = text "HELP" then inputLoop lines
      else input :: inputLoop lines

/-- The datagrams that a line becomes. -/
def typed (line : Bytes) : List Bytes := inputLoop (fgetsCalls bufferSize [] (line ++ [10]))

/-- What one turn of the input loop does with what `fgets` has read: it sends
    a datagram or not, and it goes on or, after a `QUIT`, does not. -/
inductive InputTurn where
  | skip
  | send (input : Bytes)
  | quit

/-- One turn of the input loop. -/
def inputTurn (line : Bytes) : InputTurn :=
  let input := (cstr line).takeWhile (· != 10)
  if input = [] then .skip
  else if input = text "QUIT" then .quit
  else if input = text "HELP" then .skip
  else .send input

/-- The loop is one turn after the other. -/
theorem inputLoop_turn (line : Bytes) (lines : List Bytes) :
    inputLoop (line :: lines) = match inputTurn line with
      | .skip => inputLoop lines
      | .send input => input :: inputLoop lines
      | .quit => [text "QUIT"] := by
  simp only [inputLoop, inputTurn]
  by_cases hempty : (cstr line).takeWhile (· != 10) = []
  · rw [if_pos hempty, if_pos hempty]
  · rw [if_neg hempty, if_neg hempty]
    by_cases hquit : (cstr line).takeWhile (· != 10) = text "QUIT"
    · rw [if_pos hquit, if_pos hquit]
    · rw [if_neg hquit, if_neg hquit]
      by_cases hhelp : (cstr line).takeWhile (· != 10) = text "HELP"
      · rw [if_pos hhelp, if_pos hhelp]
      · rw [if_neg hhelp, if_neg hhelp]

theorem inputLoop_mem {lines : List Bytes} {d : Bytes} (h : d ∈ inputLoop lines) :
    d = text "QUIT" ∨ ∃ line ∈ lines, d = (cstr line).takeWhile (· != 10) := by
  induction lines with
  | nil => exact absurd h List.not_mem_nil
  | cons line lines ih =>
      -- What a later turn sends comes from a later line.
      have hlater : d ∈ inputLoop lines →
          d = text "QUIT" ∨ ∃ l ∈ line :: lines, d = (cstr l).takeWhile (· != 10) := by
        intro hmem
        rcases ih hmem with hquit | ⟨l, hl, hd⟩
        · exact Or.inl hquit
        · exact Or.inr ⟨l, List.mem_cons_of_mem line hl, hd⟩
      simp only [inputLoop] at h
      by_cases hempty : (cstr line).takeWhile (· != 10) = []
      · rw [if_pos hempty] at h
        exact hlater h
      · rw [if_neg hempty] at h
        by_cases hquit : (cstr line).takeWhile (· != 10) = text "QUIT"
        · rw [if_pos hquit, List.mem_singleton] at h
          exact Or.inl h
        · rw [if_neg hquit] at h
          by_cases hhelp : (cstr line).takeWhile (· != 10) = text "HELP"
          · rw [if_pos hhelp] at h
            exact hlater h
          · rw [if_neg hhelp] at h
            rcases List.mem_cons.mp h with heq | hmem
            · exact Or.inr ⟨line, List.mem_cons_self, heq⟩
            · exact hlater hmem

/-- A datagram has no NUL and fits the server's buffer. -/
theorem typed_mem {line d : Bytes} (h : d ∈ typed line) :
    NulFree d ∧ d.length ≤ bufferSize - 1 := by
  rcases inputLoop_mem h with hquit | ⟨l, hl, hd⟩
  · rw [hquit]
    decide
  · have hpart : d <+: cstr l := by
      rw [hd]
      exact List.takeWhile_prefix _
    -- `fgets` leaves a byte for the NUL.
    have hlength : l.length < bufferSize := fgetsCalls_length (by decide) hl
    refine ⟨fun hmem => nulFree_cstr l (hpart.subset hmem), ?_⟩
    have hle := le_trans hpart.length_le (cstr_length_le l)
    omega

/-- One turn of the loop, for what is neither empty nor a command of its own. -/
theorem inputLoop_cons {line input : Bytes} (lines : List Bytes)
    (hinput : (cstr line).takeWhile (· != 10) = input) (hne : input ≠ [])
    (hquit : input ≠ text "QUIT") (hhelp : input ≠ text "HELP") :
    inputLoop (line :: lines) = input :: inputLoop lines := by
  simp only [inputLoop, hinput]
  rw [if_neg hne, if_neg hquit, if_neg hhelp]

theorem takeWhile_newline {a : Bytes} (b : Bytes) (h : (10 : UInt8) ∉ a) :
    (a ++ 10 :: b).takeWhile (· != 10) = a := by
  have hall : ∀ x ∈ a, (x != 10) = true := by
    intro x hx
    rw [bne_iff_ne]
    exact fun heq => h (heq ▸ hx)
  rw [List.takeWhile_append_of_pos hall, List.takeWhile_cons_of_neg (by decide), List.append_nil]

/-- What the loop sends first, unless it is a command of its own; what is left
    of the line is read as another one. -/
theorem typed_split {line : Bytes} (hnul : NulFree line) (hline : (10 : UInt8) ∉ line)
    (hne : line ≠ []) (hquit : line.take (bufferSize - 1) ≠ text "QUIT")
    (hhelp : line.take (bufferSize - 1) ≠ text "HELP") :
    typed line = line.take (bufferSize - 1) :: typed (line.drop (bufferSize - 1)) := by
  have hbuffer : bufferSize = 1024 := rfl
  unfold typed
  by_cases hshort : line.length < bufferSize - 1
  · -- The whole line is read at once, with its newline.
    have htake : line.take (bufferSize - 1) = line := List.take_of_length_le (by omega)
    have hdrop : line.drop (bufferSize - 1) = [] := List.drop_of_length_le (by omega)
    have hplain : cstr (line ++ [10]) = line ++ [10] :=
      cstr_of_nulFree (nulFree_append.mpr ⟨hnul, by decide⟩)
    rw [htake] at hquit hhelp
    rw [htake, hdrop, fgetsCalls_line [] hline (by rw [List.length_nil]; omega),
      inputLoop_cons _ ?_ hne hquit hhelp]
    · -- The newline alone is not sent.
      rfl
    · rw [List.nil_append, hplain]
      exact takeWhile_newline [] hline
  · -- The buffer is full before the newline comes.
    have hlength : (line.take (bufferSize - 1)).length = bufferSize - 1 :=
      List.length_take_of_le (Nat.not_lt.mp hshort)
    have hpart : (10 : UInt8) ∉ line.take (bufferSize - 1) :=
      fun hmem => hline (List.mem_of_mem_take hmem)
    have hpartNe : line.take (bufferSize - 1) ≠ [] := by
      intro hnil
      rw [hnil] at hlength
      exact absurd hlength (by decide)
    have hsplit : line ++ [10]
        = line.take (bufferSize - 1) ++ (line.drop (bufferSize - 1) ++ [10]) := by
      rw [← List.append_assoc, List.take_append_drop]
    rw [hsplit, fgetsCalls_part _ hpart hpartNe (by rw [List.length_nil, hlength, hbuffer]),
      inputLoop_cons _ ?_ hpartNe hquit hhelp]
    rw [List.nil_append, cstr_of_nulFree (nulFree_take _ hnul)]
    refine List.takeWhile_eq_self_iff.mpr fun x hx => ?_
    rw [bne_iff_ne]
    exact fun heq => hpart (heq ▸ hx)

end Udp

end OsLabs
