import Mathlib.Data.List.TakeWhile
import Mathlib.Data.List.Infix

/-!
# C Strings

Byte buffers and the string functions of C that the programs use. A buffer is
a list of bytes; the string it holds ends before its first NUL, which is what
`cstr` reads. Every comparison in C is of the strings held, never of the
buffers, so two buffers that differ after the NUL count as equal.

`CharArray` is an array of a fixed size, the size being part of the type and
its proof part of the value. `strcpyCut` is the idiom `strncpy` of one byte
less than the size followed by a NUL in the last position. It cuts what does
not fit, and `str_strcpyCut` says what is left: the comparison of a string
with the stored copy of a longer one is where a table can go wrong.

## Main definitions

* `text`: The bytes of a string literal.
* `NulFree`: No NUL among the bytes.
* `cstr`: The string a buffer holds.
* `strncmpEq`: The prefix test `strncmp(s, lit, strlen(lit)) == 0`.
* `strchrSplit`, `strrchrSplit`: The two parts of a string around a byte, the
  first or the last of its kind.
* `fgetsCalls`: The lines and parts of lines that `fgets` reads.
* `strncpy`: Copying at most so many bytes, padding with NUL.
* `snprintf`: Formatted output cut to a buffer.
* `LocalClock`: The times of day that `strftime` prints.
* `CharArray`: A `char` array of fixed size.
* `CharArray.strcpyCut`: A cut, terminated copy into such an array.

## Theorems

* `nulFree_cstr`: The string held has no NUL.
* `strncmpEq_of_head`: Of two prefix tests at most one succeeds.
* `strchrSplit_eq`, `strrchrSplit_eq`: The parts of a split string.
* `flatten_fgetsCalls`: What `fgets` reads is the input.
* `fgetsCalls_line`, `fgetsCalls_part`: Whether a line fits the buffer.
* `cstr_of_nulFree`: A string without NUL is held whole.
* `str_strcpyCut`: The stored copy is the string cut to the array.
* `nul_mem_strcpyCut`: The stored copy is terminated inside the array.
-/

namespace OsLabs

/-- A byte buffer. -/
abbrev Bytes := List UInt8

/-- The bytes of a string literal. -/
def text (s : String) : Bytes := s.toList.flatMap String.utf8EncodeChar

/-- No NUL among the bytes. -/
def NulFree (b : Bytes) : Prop := (0 : UInt8) ∉ b

instance (b : Bytes) : Decidable (NulFree b) := inferInstanceAs (Decidable (_ ∉ _))

theorem nulFree_append {a b : Bytes} : NulFree (a ++ b) ↔ NulFree a ∧ NulFree b := by
  simp only [NulFree, List.mem_append, not_or]

theorem nulFree_take {b : Bytes} (n : Nat) (h : NulFree b) : NulFree (b.take n) :=
  fun hmem => h (List.mem_of_mem_take hmem)

theorem nulFree_drop {b : Bytes} (n : Nat) (h : NulFree b) : NulFree (b.drop n) :=
  fun hmem => h (List.mem_of_mem_drop hmem)

/-- The string a buffer holds: the bytes before the first NUL. -/
def cstr (b : Bytes) : Bytes := b.takeWhile (· != 0)

theorem nulFree_cstr (b : Bytes) : NulFree (cstr b) := by
  intro hmem
  have hne := List.mem_takeWhile_imp hmem
  exact absurd hne (by simp only [bne_self_eq_false, Bool.false_eq_true, not_false_eq_true])

theorem cstr_of_nulFree {b : Bytes} (h : NulFree b) : cstr b = b := by
  rw [cstr, List.takeWhile_eq_self_iff]
  intro x hx
  rw [bne_iff_ne]
  rintro rfl
  exact h hx

/-- A string followed by a NUL is what the buffer holds, whatever comes after. -/
theorem cstr_append_nul {a : Bytes} (b : Bytes) (h : NulFree a) : cstr (a ++ 0 :: b) = a := by
  have ha : ∀ x ∈ a, (x != 0) = true := by
    intro x hx
    rw [bne_iff_ne]
    rintro rfl
    exact h hx
  rw [cstr, List.takeWhile_append_of_pos ha, List.takeWhile_cons_of_neg, List.append_nil]
  simp only [bne_self_eq_false, Bool.false_eq_true, not_false_eq_true]

theorem cstr_length_le (b : Bytes) : (cstr b).length ≤ b.length :=
  List.IsPrefix.length_le (List.takeWhile_prefix _)

/-- An array that holds a NUL holds a shorter string. -/
theorem cstr_length_lt {b : Bytes} (h : (0 : UInt8) ∈ b) : (cstr b).length < b.length := by
  refine lt_of_le_of_ne (cstr_length_le b) fun hlen => nulFree_cstr b ?_
  have hall : cstr b = b := (List.takeWhile_prefix _).eq_of_length hlen
  rwa [hall]

/-- `strncmp(s, lit, strlen(lit)) == 0` for a string `s` held in a buffer. -/
def strncmpEq (s lit : Bytes) : Bool := lit.isPrefixOf s

/-- Two texts with different first bytes do not both begin a string. -/
theorem strncmpEq_of_head {s : Bytes} {a b : UInt8} {l m : Bytes}
    (h : strncmpEq s (a :: l) = true) (hab : a ≠ b) : strncmpEq s (b :: m) = false := by
  cases s with
  | nil => rfl
  | cons x s =>
      simp only [strncmpEq, List.isPrefixOf, Bool.and_eq_true, beq_iff_eq] at h
      simp only [strncmpEq, List.isPrefixOf, ← h.1, Bool.and_eq_false_imp, beq_iff_eq]
      intro hba
      exact absurd hba.symm hab

/-- Split a string around the first occurrence of a byte, as a program does
    that finds it with `strchr` and overwrites it with NUL. -/
def strchrSplit (c : UInt8) : Bytes → Option (Bytes × Bytes)
  | [] => none
  | x :: xs =>
      if x = c then some ([], xs)
      else (strchrSplit c xs).map fun p => (x :: p.1, p.2)

/-- The two parts around the byte make up the string. -/
theorem strchrSplit_eq {c : UInt8} {b : Bytes} {p : Bytes × Bytes} (h : strchrSplit c b = some p) :
    b = p.1 ++ c :: p.2 := by
  induction b generalizing p with
  | nil => exact absurd h (by simp only [strchrSplit, reduceCtorEq, not_false_eq_true])
  | cons x xs ih =>
      simp only [strchrSplit] at h
      by_cases hx : x = c
      · rw [if_pos hx, Option.some.injEq] at h
        rw [← h, hx, List.nil_append]
      · rw [if_neg hx, Option.map_eq_some_iff] at h
        rcases h with ⟨q, hq, hp⟩
        rw [← hp, ih hq, List.cons_append]

/-- Without the byte before it, the byte itself is found. -/
theorem strchrSplit_append {c : UInt8} {a : Bytes} (b : Bytes) (h : c ∉ a) :
    strchrSplit c (a ++ c :: b) = some (a, b) := by
  induction a with
  | nil => simp only [List.nil_append, strchrSplit, if_true]
  | cons x xs ih =>
      rw [List.mem_cons, not_or] at h
      rw [List.cons_append, strchrSplit, if_neg (Ne.symm h.1), ih h.2]
      rfl

/-- With the byte in the first part, less than this part is before it. -/
theorem strchrSplit_append_of_mem {c : UInt8} {a : Bytes} (b : Bytes) (h : c ∈ a) :
    ∃ p q, strchrSplit c (a ++ b) = some (p, q) ∧ p.length < a.length := by
  induction a with
  | nil => exact absurd h List.not_mem_nil
  | cons x xs ih =>
      rw [List.cons_append, strchrSplit, List.length_cons]
      by_cases hx : x = c
      · rw [if_pos hx]
        exact ⟨[], xs ++ b, rfl, Nat.succ_pos _⟩
      · rcases ih (List.mem_of_ne_of_mem (Ne.symm hx) h) with ⟨p, q, hsplit, hlen⟩
        rw [if_neg hx, hsplit]
        exact ⟨x :: p, q, rfl, Nat.succ_lt_succ hlen⟩

/-- Split a string around the last occurrence of a byte, which `strrchr`
    finds. -/
def strrchrSplit (c : UInt8) : Bytes → Option (Bytes × Bytes)
  | [] => none
  | x :: xs =>
      match strrchrSplit c xs with
      | some p => some (x :: p.1, p.2)
      | none => if x = c then some ([], xs) else none

theorem strrchrSplit_of_not_mem {c : UInt8} {b : Bytes} (h : c ∉ b) : strrchrSplit c b = none := by
  induction b with
  | nil => rfl
  | cons x xs ih =>
      rw [List.mem_cons, not_or] at h
      rw [strrchrSplit, ih h.2]
      exact if_neg (Ne.symm h.1)

/-- Without the byte after it, the byte itself is found. -/
theorem strrchrSplit_append {c : UInt8} (a : Bytes) {b : Bytes} (h : c ∉ b) :
    strrchrSplit c (a ++ c :: b) = some (a, b) := by
  induction a with
  | nil =>
      rw [List.nil_append, strrchrSplit, strrchrSplit_of_not_mem h]
      exact if_pos rfl
  | cons x xs ih => rw [List.cons_append, strrchrSplit, ih]

/-- The two parts around the byte make up the string. -/
theorem strrchrSplit_eq {c : UInt8} {b : Bytes} {p : Bytes × Bytes}
    (h : strrchrSplit c b = some p) : b = p.1 ++ c :: p.2 := by
  induction b generalizing p with
  | nil => cases h
  | cons x xs ih =>
      rw [strrchrSplit] at h
      cases hrest : strrchrSplit c xs with
      | some q =>
          rw [hrest, Option.some.injEq] at h
          rw [← h, ih hrest, List.cons_append]
      | none =>
          rw [hrest] at h
          by_cases hx : x = c
          · rw [if_pos hx, Option.some.injEq] at h
            rw [← h, hx, List.nil_append]
          · rw [if_neg hx] at h
            cases h

/-- What successive calls of `fgets` with a buffer of `size` bytes return,
    with `line` read so far: a call ends after a newline, or when the buffer
    is full, or at the end of input. -/
def fgetsCalls (size : Nat) (line : Bytes) : Bytes → List Bytes
  | [] => if line = [] then [] else [line]
  | b :: stdin =>
      if b = 10 ∨ line.length + 2 = size then (line ++ [b]) :: fgetsCalls size [] stdin
      else fgetsCalls size (line ++ [b]) stdin

/-- All that is read is the input. -/
theorem flatten_fgetsCalls (size : Nat) (line stdin : Bytes) :
    (fgetsCalls size line stdin).flatten = line ++ stdin := by
  induction stdin generalizing line with
  | nil =>
      rw [fgetsCalls]
      by_cases hempty : line = []
      · rw [if_pos hempty, hempty]
        rfl
      · rw [if_neg hempty, List.flatten_cons, List.flatten_nil]
  | cons b stdin ih =>
      rw [fgetsCalls]
      by_cases hend : b = 10 ∨ line.length + 2 = size
      · rw [if_pos hend, List.flatten_cons, ih, List.nil_append, List.append_assoc,
          List.singleton_append]
      · rw [if_neg hend, ih, List.append_assoc, List.singleton_append]

/-- A line that fits the buffer is read by one call. -/
theorem fgetsCalls_line {size : Nat} {line t : Bytes} (rest : Bytes) (ht : (10 : UInt8) ∉ t)
    (hfits : line.length + t.length + 1 < size) :
    fgetsCalls size line (t ++ 10 :: rest) = (line ++ t ++ [10]) :: fgetsCalls size [] rest := by
  induction t generalizing line with
  | nil => rw [List.nil_append, fgetsCalls, if_pos (Or.inl rfl), List.append_nil]
  | cons b t ih =>
      rw [List.mem_cons, not_or] at ht
      rw [List.length_cons] at hfits
      have hgo : ¬ (b = 10 ∨ line.length + 2 = size) := by
        rintro (hb | hfull)
        · exact ht.1 hb.symm
        · omega
      rw [List.cons_append, fgetsCalls, if_neg hgo, ih ht.2, List.append_assoc line]
      · rfl
      · rw [List.length_append, List.length_singleton]
        omega

/-- Of a line that does not fit, a call reads as much as the buffer holds. -/
theorem fgetsCalls_part {size : Nat} {line t : Bytes} (rest : Bytes) (ht : (10 : UInt8) ∉ t)
    (hne : t ≠ []) (hfull : line.length + t.length + 1 = size) :
    fgetsCalls size line (t ++ rest) = (line ++ t) :: fgetsCalls size [] rest := by
  induction t generalizing line with
  | nil => exact absurd rfl hne
  | cons b t ih =>
      rw [List.mem_cons, not_or] at ht
      rw [List.length_cons] at hfull
      rw [List.cons_append, fgetsCalls]
      cases t with
      | nil =>
          have hlast : line.length + 2 = size := by
            rw [List.length_nil] at hfull
            omega
          rw [if_pos (Or.inr hlast)]
          rfl
      | cons c t =>
          have hgo : ¬ (b = 10 ∨ line.length + 2 = size) := by
            rintro (hb | hlast)
            · exact ht.1 hb.symm
            · rw [List.length_cons] at hfull
              omega
          rw [if_neg hgo, ih ht.2 (List.cons_ne_nil c t), List.append_assoc]
          · rfl
          · rw [List.length_append, List.length_singleton]
            omega

/-- A call reads less than the buffer holds. -/
theorem fgetsCalls_length {size : Nat} {line stdin : Bytes} (hline : line.length + 1 < size)
    {l : Bytes} (hl : l ∈ fgetsCalls size line stdin) : l.length < size := by
  induction stdin generalizing line with
  | nil =>
      rw [fgetsCalls] at hl
      by_cases hempty : line = []
      · rw [if_pos hempty] at hl
        exact absurd hl List.not_mem_nil
      · rw [if_neg hempty, List.mem_singleton] at hl
        rw [hl]
        omega
  | cons b stdin ih =>
      rw [fgetsCalls] at hl
      have hlength : (line ++ [b]).length = line.length + 1 := List.length_append
      by_cases hend : b = 10 ∨ line.length + 2 = size
      · rw [if_pos hend] at hl
        rcases List.mem_cons.mp hl with heq | hmem
        · rw [heq, hlength]
          exact hline
        · exact ih (by rw [List.length_nil]; omega) hmem
      · rw [if_neg hend] at hl
        refine ih ?_ hl
        rw [hlength]
        omega

/-- `strncpy(dst, src, n)`: at most `n` bytes of the string, padded with NUL
    to `n`; the rest of the destination is left alone. -/
def strncpy (dst src : Bytes) (n : Nat) : Bytes :=
  src.take n ++ List.replicate (n - src.length) 0 ++ dst.drop n

theorem strncpy_length {dst : Bytes} (src : Bytes) {n : Nat} (h : n ≤ dst.length) :
    (strncpy dst src n).length = dst.length := by
  simp only [strncpy, List.length_append, List.length_take, List.length_replicate,
    List.length_drop]
  omega

/-- `snprintf` into a buffer of `size` bytes: the output, cut to leave room
    for the NUL. -/
def snprintf (size : Nat) (out : Bytes) : Bytes := out.take (size - 1)

/-- The text that `strftime` makes of a local time, `%H:%M:%S`. -/
structure LocalClock where
  stamp : Nat → Bytes
  length_stamp : ∀ t, (stamp t).length = 8
  nulFree_stamp : ∀ t, NulFree (stamp t)

/-- A clock that stands still, for runs on fixed inputs. -/
def stoppedClock : LocalClock where
  stamp := fun _ => text "00:00:00"
  length_stamp := fun _ => rfl
  nulFree_stamp := fun _ => by decide

/-- A `char` array of `n` bytes. -/
structure CharArray (n : Nat) where
  bytes : Bytes
  length_bytes : bytes.length = n
  deriving DecidableEq

namespace CharArray

variable {n : Nat}

/-- The array after `memset(a, 0, n)`. -/
def zero (n : Nat) : CharArray n := ⟨List.replicate n 0, List.length_replicate ..⟩

/-- The string held in the array. -/
def str (a : CharArray n) : Bytes := cstr a.bytes

/-- The array after `strncpy(a, src, n - 1); a[n - 1] = '\0'`. -/
def strcpyCut (a : CharArray n) (src : Bytes) : CharArray n where
  bytes := (strncpy a.bytes src (n - 1)).set (n - 1) 0
  length_bytes := by
    rw [List.length_set, strncpy_length src (by rw [a.length_bytes]; omega), a.length_bytes]

theorem nul_mem_strcpyCut (a : CharArray n) (src : Bytes) (hn : 0 < n) :
    (0 : UInt8) ∈ (a.strcpyCut src).bytes := by
  have hlen : n - 1 < (strncpy a.bytes src (n - 1)).length := by
    rw [strncpy_length src (by rw [a.length_bytes]; omega), a.length_bytes]
    omega
  exact List.mem_set hlen 0

/-- The stored copy is the string cut to the array, its NUL included. -/
theorem str_strcpyCut (a : CharArray n) {src : Bytes} (hsrc : NulFree src) (hn : 0 < n) :
    (a.strcpyCut src).str = src.take (n - 1) := by
  -- Both the padding and the last byte are NUL, so a NUL follows the cut string.
  have hbytes : (a.strcpyCut src).bytes
      = src.take (n - 1) ++ 0 :: List.replicate (n - 1 - src.length) 0 := by
    have hlt : n - 1 < a.bytes.length := by
      rw [a.length_bytes]
      omega
    have hdrop : a.bytes.drop (n - 1) = [a.bytes[n - 1]] := by
      rw [List.drop_eq_getElem_cons hlt, List.drop_eq_nil_of_le (by rw [a.length_bytes]; omega)]
    have hlen : (src.take (n - 1) ++ List.replicate (n - 1 - src.length) (0 : UInt8)).length
        = n - 1 := by
      simp only [List.length_append, List.length_take, List.length_replicate]
      omega
    simp only [strcpyCut, strncpy, hdrop]
    rw [List.set_append_right _ _ (le_of_eq hlen), hlen, Nat.sub_self, List.set_cons_zero,
      List.append_assoc, ← List.replicate_succ', List.replicate_succ]
  rw [str, hbytes, cstr_append_nul _ (nulFree_take _ hsrc)]

theorem nulFree_str (a : CharArray n) : NulFree a.str := nulFree_cstr _

end CharArray

end OsLabs
