import OsLabs.Library.CString

/-!
# The Commands of the Chat

Both chat servers recognise what a client asks for with the same chain of
prefix tests, and differ in the word with which a client leaves: `STOP` over
TCP, `QUIT` over UDP. The chain is stated once here, with the word as a
parameter. That a message is a command depends on its first bytes only, so
the order of the tests matters little: no two of the words begin alike.

## Main definitions

* `Request`: What a message asks for.
* `request`: The chain of tests.

## Theorems

* `request_congr`: Where the word does not matter.
* `request_eq_leave`: Who leaves.
* `request_eq_toOne`: What a private message is made of.
-/

namespace OsLabs

namespace Chat

/-- What a message asks for. -/
inductive Request where
  | list
  | toAll (message : Bytes)
  | toOne (targetName message : Bytes)
  | leave
  | ping
  | other

/-- The request in a message, for the word with which a client leaves. -/
def request (word buffer : Bytes) : Request :=
  if strncmpEq buffer (text "LIST") then .list
  else if strncmpEq buffer (text "2ALL ") then .toAll (buffer.drop 5)
  else if strncmpEq buffer (text "2ONE ") then
    match strchrSplit 32 (buffer.drop 5) with
    | some (targetName, message) => .toOne targetName message
    | none => .other
  else if strncmpEq buffer word then .leave
  else if strncmpEq buffer (text "PING") then .ping
  else .other

/-- The word with which a client leaves matters to messages that begin with
    it. -/
theorem request_congr {word word' buffer : Bytes} (hword : ¬ strncmpEq buffer word = true)
    (hword' : ¬ strncmpEq buffer word' = true) : request word buffer = request word' buffer := by
  unfold request
  rw [if_neg hword, if_neg hword']

/-- The tests before that for the word lead to other requests. -/
theorem request_ne_leave {word buffer : Bytes} (hword : ¬ strncmpEq buffer word = true) :
    request word buffer ≠ .leave := by
  unfold request
  rw [if_neg hword]
  split
  · exact Request.noConfusion
  · split
    · exact Request.noConfusion
    · split
      · cases strchrSplit 32 (buffer.drop 5) <;> exact Request.noConfusion
      · split <;> exact Request.noConfusion

/-- A word with a first letter of its own is tested as if it were the first. -/
theorem request_eq_leave {a : UInt8} {word buffer : Bytes} (hlist : a ≠ 76) (hchat : a ≠ 50) :
    request (a :: word) buffer = .leave ↔ strncmpEq buffer (a :: word) = true := by
  constructor
  · intro h
    by_contra hword
    exact request_ne_leave hword h
  · intro h
    have htests : strncmpEq buffer (text "LIST") = false ∧
        strncmpEq buffer (text "2ALL ") = false ∧ strncmpEq buffer (text "2ONE ") = false :=
      ⟨strncmpEq_of_head h hlist, strncmpEq_of_head h hchat, strncmpEq_of_head h hchat⟩
    unfold request
    rw [htests.1, htests.2.1, htests.2.2, h]
    rfl

theorem request_eq_toOne {word buffer targetName message : Bytes}
    (h : request word buffer = .toOne targetName message) :
    strncmpEq buffer (text "2ONE ") = true ∧
      strchrSplit 32 (buffer.drop 5) = some (targetName, message) := by
  unfold request at h
  split at h
  · exact Request.noConfusion h
  · split at h
    · exact Request.noConfusion h
    · split at h
      · rename_i hone
        cases hsplit : strchrSplit 32 (buffer.drop 5) with
        | none =>
            rw [hsplit] at h
            exact Request.noConfusion h
        | some p =>
            simp only [hsplit, Request.toOne.injEq] at h
            exact ⟨hone, congrArg some (Prod.ext h.1 h.2)⟩
      · split at h
        · exact Request.noConfusion h
        · split at h <;> exact Request.noConfusion h

end Chat

end OsLabs
