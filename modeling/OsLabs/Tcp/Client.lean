import OsLabs.Library.CString
import OsLabs.Library.Stream
import OsLabs.Tcp.Server

/-!
# The TCP Chat Client

`cw11/assignment/client.c` after the connection is made. Two threads use the
socket. The input loop sends what the user types, one `send` for a line and
without its newline; the receiving thread prints what arrives and answers
probes with `PING`. Nothing marks where one `send` ends and the next begins.

The receiving thread is written over bytes that may carry marks, so that it
can be said of a byte where it came from. The program's bytes are their own
value.

Left out are the connection set-up, the help text and the prompts, and a
`send` that fails.

## Main definitions

* `fgetsLines`: What successive calls of `fgets` return.
* `inputLoop`: The commands sent by the input loop of `main`.
* `answer`, `receiveMessages`: The receiving thread, chunk by chunk.

## Theorems

* `inputLoop_mem`: A command sent is not empty and has no NUL.
* `receiveMessages_map`: Marks on the bytes change nothing.
-/

namespace OsLabs

namespace Tcp

/-- What successive calls of `fgets(input, BUFFER_SIZE, stdin)` return, with
    `line` read so far: a call ends after a newline, or when the buffer is
    full, or at the end of input. -/
def fgetsLines (line : Bytes) : Bytes → List Bytes
  | [] => if line = [] then [] else [line]
  | b :: stdin =>
      if b = 10 ∨ line.length + 2 = bufferSize then (line ++ [b]) :: fgetsLines [] stdin
      else fgetsLines (line ++ [b]) stdin

/-- The commands that the input loop sends for the lines it reads. -/
def inputLoop : List Bytes → List Bytes
  | [] => []
  | line :: lines =>
      let input := (cstr line).takeWhile (· != 10)
      if input = [] then inputLoop lines
      else if input = text "QUIT" then [text "STOP"]
      else if input = text "HELP" then inputLoop lines
      else input :: inputLoop lines

theorem inputLoop_mem {lines : List Bytes} {b : Bytes} (h : b ∈ inputLoop lines) :
    b ≠ [] ∧ NulFree b := by
  induction lines with
  | nil => exact absurd h List.not_mem_nil
  | cons line lines ih =>
      -- What is left of a line is a part of a string.
      have hinput : NulFree ((cstr line).takeWhile (· != 10)) := by
        intro hmem
        exact nulFree_cstr line (List.IsPrefix.subset (List.takeWhile_prefix _) hmem)
      simp only [inputLoop] at h
      by_cases hempty : (cstr line).takeWhile (· != 10) = []
      · rw [if_pos hempty] at h
        exact ih h
      · rw [if_neg hempty] at h
        -- `QUIT` is sent as `STOP`, and `HELP` is not sent at all.
        by_cases hquit : (cstr line).takeWhile (· != 10) = text "QUIT"
        · rw [if_pos hquit, List.mem_singleton] at h
          rw [h]
          decide
        · rw [if_neg hquit] at h
          by_cases hhelp : (cstr line).takeWhile (· != 10) = text "HELP"
          · rw [if_pos hhelp] at h
            exact ih h
          · rw [if_neg hhelp] at h
            rcases List.mem_cons.mp h with heq | hmem
            · rw [heq]
              exact ⟨hempty, hinput⟩
            · exact ih hmem

section Receive

variable {β : Type*}

/-- What the receiving thread does with a chunk: it sends `PING` and drops the
    chunk, or prints it. -/
inductive Response (β : Type*) where
  | ping
  | print (bytes : List β)
  deriving DecidableEq

/-- The bytes that a response prints. -/
def Response.printed : Response β → List β
  | .ping => []
  | .print bytes => bytes

/-- The response to the same chunk without its marks. -/
def Response.map {γ : Type*} (f : β → γ) : Response β → Response γ
  | .ping => .ping
  | .print bytes => .print (bytes.map f)

/-- The chunk begins with a probe's text. -/
def isAlive (byte : β → UInt8) (chunk : List β) : Bool :=
  strncmpEq (cstr (chunk.map byte)) (text "ALIVE")

/-- The body of the loop in `receive_messages` for one chunk. -/
def answer (byte : β → UInt8) (chunk : List β) : Response β :=
  if isAlive byte chunk then .ping else .print (chunk.takeWhile fun b => byte b != 0)

/-- `receive_messages`, for the chunks that `recv` returns. -/
def receiveMessages (byte : β → UInt8) (chunks : List (List β)) : List (Response β) :=
  chunks.map (answer byte)

/-- Marks do not influence the receiving thread. -/
theorem receiveMessages_map (byte : β → UInt8) (chunks : List (List β)) :
    (receiveMessages byte chunks).map (Response.map byte)
      = receiveMessages id (chunks.map (List.map byte)) := by
  unfold receiveMessages
  rw [List.map_map, List.map_map]
  refine List.map_congr_left (fun chunk _ => ?_)
  simp only [Function.comp_apply, answer, isAlive, List.map_id]
  by_cases halive : strncmpEq (cstr (chunk.map byte)) (text "ALIVE") = true
  · simp only [halive, if_true, Response.map]
  · rw [Bool.not_eq_true] at halive
    simp only [halive, Bool.false_eq_true, if_false, Response.map, List.takeWhile_map,
      Function.comp_def, id]

end Receive

end Tcp

end OsLabs
