import Mathlib.Data.List.Perm.Basic
import OsLabs.Flipper.Lines
import OsLabs.Library.Loop

/-!
# The Buffer of a Line

`cw03/assignment/flipper.c`. `reverse_line` works in the memory it is given,
between two indices that move towards each other, and what it may touch there
is the string and nothing else. The length of the string is taken up to the
first NUL and held in an `int`; where the last index does not fit one there is
no result.

`getline` counts the bytes of a line itself and puts a NUL after them. It reads
a NUL of the file like any other byte. From then on there are two lengths: the
one that `getline` returned, which `process_file` only compares with -1, and
the one up to the NUL, which `reverse_line` and `fprintf` go by.

## Main definitions

* `Locals`: The variables of `reverse_line`, and the indices it has used.
* `reverseLineAt`: `reverse_line` in its memory.
* `Reverses`: What it is for.
* `Reversible`: The strings that are reversed.
* `Kept`: No byte is lost or added.

## Theorems

* `exists_ends`: The loop in memory ends, and where.
* `reverseLineAt_eq_none`, `reverseLineAt_eq`: It does to the string what
  `reverseLine` does.
* `reverses_iff`: When a string is reversed in place.
* `written_eq`: What `process_file` writes of a chunk in the buffer.
* `processFile_perm`: The bytes it writes of a file.
* `processFile_perm_iff`: When these are the bytes of the file.
-/

namespace OsLabs

namespace Flipper

open Loop

/-- The variables of `reverse_line`, with the memory at `str`. The indices that
    it has used are not a variable of the program. -/
structure Locals where
  str : Bytes
  i : Int
  j : Int
  accessed : List Int

/-- `i < j` -/
def Locals.Inner (l : Locals) : Prop := l.i < l.j

instance : DecidablePred Locals.Inner := fun l => inferInstanceAs (Decidable (l.i < l.j))

/-- A turn of the loop, with the increments. -/
def Locals.turn (l : Locals) : Locals where
  str := swap l.str l.i.toNat l.j.toNat
  i := l.i + 1
  j := l.j - 1
  accessed := l.accessed ++ [l.i, l.j]

/-- The variables before the first turn, unless `len - 1` overflows. -/
def Locals.enter (str : Bytes) : Option Locals :=
  let len := int32 (cstr str).length
  if len = -2 ^ 31 then none else some ⟨str, 0, len - 1, []⟩

/-- `reverse_line`, in its memory. -/
def reverseLineAt (str : Bytes) : Part Locals :=
  (Part.ofOption (Locals.enter str)).bind (loop Locals.Inner Locals.turn)

/-- The loop ends with what `reverseLoop` makes of the memory, and has used no
    index outside the two that it was entered with. -/
theorem exists_ends (l : Locals) :
    ∃ n, Ends Locals.Inner Locals.turn l n ∧
      (Locals.turn^[n] l).str = reverseLoop l.str l.i l.j ∧
      ∀ k ∈ (Locals.turn^[n] l).accessed, k ∈ l.accessed ∨ l.i ≤ k ∧ k ≤ l.j := by
  rcases l with ⟨str, i, j, accessed⟩
  induction str, i, j using reverseLoop.induct generalizing accessed with
  | case1 str i j hlt ih =>
      rcases ih (accessed ++ [i, j]) with ⟨n, hends, hstr, haccessed⟩
      have hfirst : Locals.Inner ⟨str, i, j, accessed⟩ := hlt
      -- One turn, then those that the hypothesis counts.
      refine ⟨n + 1, hends.of_body hfirst, ?_, ?_⟩
      · rw [reverseLoop, if_pos hlt]
        exact hstr
      · intro k hk
        rcases haccessed k hk with hbefore | hinner
        · rcases List.mem_append.mp hbefore with hearlier | hturn
          · exact .inl hearlier
          · -- The two ends of this turn, between which the later ones are.
            rw [List.mem_pair] at hturn
            exact .inr (by change i ≤ k ∧ k ≤ j; omega)
        · exact .inr (by change i + 1 ≤ k ∧ k ≤ j - 1 at hinner; change i ≤ k ∧ k ≤ j; omega)
  | case2 str i j hge =>
      refine ⟨0, ends_of_not_guard hge, ?_, fun k hk => .inl hk⟩
      rw [reverseLoop, if_neg hge]
      rfl

/-- There is no result exactly where the subtraction overflows. -/
theorem enter_string {s : Bytes} (rest : Bytes) (h : NulFree s) :
    Locals.enter (s ++ 0 :: rest) = if s.length % 2 ^ 32 = 2 ^ 31 then none
      else some ⟨s ++ 0 :: rest, 0, int32 s.length - 1, []⟩ := by
  rw [Locals.enter, cstr_append_nul rest h]
  simp only [int32_eq_min_iff]

theorem reverseLineAt_eq_none {s : Bytes} (rest : Bytes) (h : NulFree s)
    (hover : s.length % 2 ^ 32 = 2 ^ 31) : reverseLineAt (s ++ 0 :: rest) = Part.none := by
  rw [reverseLineAt, enter_string rest h, if_pos hover, Part.ofOption, Part.bind_none]

/-- What `reverse_line` does to the memory of a string: it reverses the string
    as `reverseLine` says, leaves the NUL and what comes after it alone, and
    stays inside the string. -/
theorem reverseLineAt_eq {s turned : Bytes} (rest : Bytes) (h : NulFree s)
    (hturned : reverseLine s = some turned) :
    ∃ l, reverseLineAt (s ++ 0 :: rest) = Part.some l ∧ l.str = turned ++ 0 :: rest ∧
      ∀ k ∈ l.accessed, 0 ≤ k ∧ k < s.length := by
  -- The two ends of the string, where the length as an `int` is not the least one.
  have hlast := right_end_lt s.length
  have hover : s.length % 2 ^ 32 ≠ 2 ^ 31 := by
    intro hover
    rw [(reverseLine_eq_none_iff s).mpr hover] at hturned
    exact absurd hturned (Option.some_ne_none turned).symm
  rw [reverseLine_eq hover, Option.some.injEq] at hturned
  rcases exists_ends ⟨s ++ 0 :: rest, 0, int32 s.length - 1, []⟩ with
    ⟨n, hends, hstr, haccessed⟩
  dsimp only at hstr haccessed
  refine ⟨Locals.turn^[n] ⟨s ++ 0 :: rest, 0, int32 s.length - 1, []⟩, ?_, ?_, ?_⟩
  · rw [reverseLineAt, enter_string rest h, if_neg hover, Part.ofOption, Part.bind_some]
    exact loop_eq_some hends
  · -- The upper end is inside the string, so the reversal stops short of the NUL.
    have hlonger : int32 s.length - 1 < ((s ++ 0 :: rest).length : Int) := by
      rw [List.length_append]
      omega
    have hprefix : reach s.length ≤ s.length := by
      rw [reach]
      omega
    have hreach : (int32 s.length - 1 + 1).toNat = reach s.length := by
      rw [reach, Int.sub_add_cancel]
    rw [hstr, reverseLoop_eq hlonger, hreach, reversePrefix_append (0 :: rest) hprefix, hturned]
  -- Every turn is between the two ends.
  · intro k hk
    rcases haccessed k hk with hnone | ⟨hleft, hright⟩
    · exact absurd hnone List.not_mem_nil
    · exact ⟨hleft, Int.lt_of_le_of_lt hright hlast⟩

/-- `reverse_line` reverses the string in place: it ends, uses only positions
    of the string, leaves the string reversed before the same NUL and the same
    memory, and a second time restores it. -/
structure Reverses (s rest : Bytes) : Prop where
  ends : (reverseLineAt (s ++ 0 :: rest)).Dom
  accesses : ∀ l ∈ reverseLineAt (s ++ 0 :: rest), ∀ k ∈ l.accessed, 0 ≤ k ∧ k < s.length
  reversed : ∀ l ∈ reverseLineAt (s ++ 0 :: rest), l.str = s.reverse ++ 0 :: rest
  restored : ∀ l ∈ reverseLineAt (s ++ 0 :: rest),
    ∃ l' ∈ reverseLineAt l.str, l'.str = s ++ 0 :: rest

/-- The strings whose length an `int` holds, and the longer ones where nothing
    overflows and that happen to be of the right form. -/
def Reversible (s : Bytes) : Prop :=
  s.length ≤ intMax ∨ s.length % 2 ^ 32 ≠ 2 ^ 31 ∧ Folded (reach s.length) s

/-- The second time the string is as long as the first time, so the same prefix
    is reversed. -/
theorem reverses_iff_reverseLine_eq {s : Bytes} (rest : Bytes) (h : NulFree s) :
    Reverses s rest ↔ reverseLine s = some s.reverse := by
  -- The memory after the first call shows the reversed string, by the rest that follows it.
  constructor
  · intro hreverses
    cases hturned : reverseLine s with
    | none =>
        have hnone := reverseLineAt_eq_none rest h ((reverseLine_eq_none_iff s).mp hturned)
        have hends := hreverses.ends
        rw [hnone] at hends
        exact absurd hends Part.not_none_dom
    | some turned =>
        rcases reverseLineAt_eq rest h hturned with ⟨l, hrun, hstr, _⟩
        have hreversed := hreverses.reversed l (hrun ▸ Part.mem_some l)
        rw [hstr] at hreversed
        rw [List.append_cancel_right hreversed]
  -- The second call finds the reversed string, which has the same length.
  · intro heq
    rcases reverseLineAt_eq rest h heq with ⟨l, hrun, hstr, haccessed⟩
    refine ⟨?_, ?_, ?_, ?_⟩
    · rw [hrun]
      exact trivial
    · intro l' hl'
      rw [hrun, Part.mem_some_iff] at hl'
      rw [hl']
      exact haccessed
    · intro l' hl'
      rw [hrun, Part.mem_some_iff] at hl'
      rw [hl', hstr]
    · intro l' hl'
      rw [hrun, Part.mem_some_iff] at hl'
      have hfree : NulFree s.reverse := fun hmem => h (List.mem_reverse.mp hmem)
      rcases reverseLineAt_eq rest hfree (reverseLine_reverse heq) with
        ⟨back, hback, hrestored, _⟩
      rw [hl', hstr]
      exact ⟨back, hback ▸ Part.mem_some back, hrestored⟩

/-- A string is reversed in place exactly if it is reversible. -/
theorem reverses_iff {s : Bytes} (rest : Bytes) (h : NulFree s) :
    Reverses s rest ↔ Reversible s := by
  rw [reverses_iff_reverseLine_eq rest h]
  exact reverseLine_eq_reverse_iff s

/-- A string with something behind its NUL. -/
theorem reverses_abc : NulFree (text "abc") ∧ Reverses (text "abc") (text "de") :=
  ⟨by decide, (reverses_iff (text "de") (by decide)).mpr (.inl (by decide))⟩

/-- A run of one byte with a different one at the end, between 2 and 4 GiB. -/
theorem not_reversible_replicate {n : Nat} (h : intMax ≤ n) (hlt : n < 2 ^ 32) :
    ¬ Reversible (List.replicate n 97 ++ [98]) := by
  have hlength : (List.replicate n (97 : UInt8) ++ [98]).length = n + 1 := by
    rw [List.length_append, List.length_replicate, List.length_singleton]
  have hreach : reach (n + 1) = 0 := reach_eq_zero (Nat.lt_succ_of_le h) hlt
  rintro (hfits | ⟨_, hfolded⟩)
  · omega
  · -- Nothing is reversed, so only a palindrome would do.
    rw [hlength, hreach, Folded, List.drop_zero, List.take_zero, List.append_nil,
      List.reverse_append, List.reverse_singleton, List.reverse_replicate] at hfolded
    have hhead := congrArg List.head? hfolded
    rw [List.singleton_append, List.head?_cons, List.head?_append_of_ne_nil _ ?_,
      List.head?_replicate, if_neg (by unfold intMax at h; omega), Option.some.injEq] at hhead
    · exact absurd hhead (by decide)
    · rw [ne_eq, List.replicate_eq_nil_iff]
      unfold intMax at h
      omega

/-- A line that is too long, and whose length is converted without an
    overflow. -/
theorem long_line_not_reversed : ¬ Reverses (List.replicate (2 ^ 31) 97 ++ [98]) [] := by
  have hnul : NulFree (List.replicate (2 ^ 31) (97 : UInt8) ++ [98]) := by
    rw [nulFree_append]
    refine ⟨fun hmem => ?_, by decide⟩
    exact absurd (List.eq_of_mem_replicate hmem) (by decide)
  rw [reverses_iff_reverseLine_eq [] hnul, reverseLine_eq_reverse_iff]
  exact not_reversible_replicate (by decide) (by decide)

/-- The string that is in the buffer after `getline`, which ends before the
    first NUL of what was read or the one after it. -/
theorem exists_cstr_append (chunk rest : Bytes) :
    ∃ rest', chunk ++ 0 :: rest = cstr chunk ++ 0 :: rest' := by
  induction chunk with
  | nil => exact ⟨rest, rfl⟩
  | cons b chunk ih =>
      by_cases hb : b = 0
      · rw [hb]
        exact ⟨chunk ++ 0 :: rest, rfl⟩
      · rcases ih with ⟨rest', hrest⟩
        have hcons : cstr (b :: chunk) = b :: cstr chunk :=
          List.takeWhile_cons_of_pos (bne_iff_ne.mpr hb)
        exact ⟨rest', by rw [hcons, List.cons_append, hrest, List.cons_append]⟩

/-- With a chunk in the buffer, what `fprintf` is given is the string as
    `reverseLine` leaves it. -/
theorem written_eq (chunk rest : Bytes) :
    (reverseLineAt (chunk ++ 0 :: rest)).map (fun l => cstr l.str)
      = Part.ofOption (reverseLine (cstr chunk)) := by
  rcases exists_cstr_append chunk rest with ⟨rest', hrest⟩
  have hnul := nulFree_cstr chunk
  rw [hrest]
  cases hturned : reverseLine (cstr chunk) with
  | none =>
      rw [reverseLineAt_eq_none rest' hnul ((reverseLine_eq_none_iff _).mp hturned),
        Part.map_none, Part.ofOption]
  | some turned =>
      rcases reverseLineAt_eq rest' hnul hturned with ⟨l, hrun, hstr, _⟩
      rw [hrun, Part.map_some, hstr, cstr_append_nul rest' (nulFree_reverseLine hnul hturned),
        Part.ofOption]

/-- The bytes that `process_file` writes: of every chunk those before its first
    NUL. -/
theorem processFile_perm (platform : Platform) {content : Bytes} (h : Counted content) :
    (processFile platform content).Perm ((getlines [] content).flatMap cstr) := by
  rw [processFile_of_counted platform h, ← List.flatMap_def]
  exact List.Perm.flatMap_left _ fun chunk _ => List.reverse_perm _

theorem nulFree_flatMap_cstr (chunks : List Bytes) : NulFree (chunks.flatMap cstr) := by
  rw [NulFree, List.mem_flatMap]
  rintro ⟨chunk, _, hnul⟩
  exact nulFree_cstr chunk hnul

/-- The file written has the bytes of the file read. -/
structure Kept (platform : Platform) (content : Bytes) : Prop where
  length : (processFile platform content).length = content.length
  perm : (processFile platform content).Perm content

/-- Where every string can be counted, they are the bytes of the file exactly if
    there is no NUL among these. There is none in what is written. -/
theorem kept_iff_nulFree (platform : Platform) {content : Bytes} (h : Counted content) :
    Kept platform content ↔ NulFree content := by
  have hperm := processFile_perm platform h
  constructor
  · -- A NUL of the file would have to be among the bytes written.
    intro hkept hnul
    exact nulFree_flatMap_cstr _ ((hkept.perm.symm.trans hperm).mem_iff.mp hnul)
  · intro hnul
    have hcontent : (getlines [] content).flatMap cstr = content := by
      rw [List.flatMap_def, List.map_congr_left fun chunk hmem => cstr_chunk hnul hmem,
        List.map_id', flatten_getlines, List.nil_append]
    rw [hcontent] at hperm
    exact ⟨hperm.length_eq, hperm⟩

/-- Whatever the platform is, no byte is lost or added, exactly if there is no
    NUL in the file and an `int` can count every string. Where it can, the
    platform makes no difference. -/
theorem processFile_perm_iff (content : Bytes) :
    ((∀ platform, Kept platform content) ↔ NulFree content ∧ Counted content) ∧
      (Counted content → ∀ platform, (Kept platform content ↔ NulFree content)) := by
  refine ⟨⟨fun hall => ?_, ?_⟩, fun h platform => kept_iff_nulFree platform h⟩
  · have hcount : Counted content := by
      by_contra hlong
      have hshorter := length_processFile_silent hlong
      have hsame := (hall Platform.silent).length
      omega
    exact ⟨(kept_iff_nulFree Platform.silent hcount).mp (hall Platform.silent), hcount⟩
  · rintro ⟨hnul, hcount⟩ platform
    exact (kept_iff_nulFree platform hcount).mpr hnul

/-- Of a line with a NUL in it what follows the NUL is not written, whatever the
    platform is. -/
theorem bytes_after_nul_lost : ¬ ∃ platform, Kept platform [97, 0, 98, 10] := by
  have hchunks : getlines [] [97, 0, 98, 10] = [[97, 0, 98, 10]] := by decide
  have hcount : Counted [97, 0, 98, 10] := by
    intro chunk hmem
    rw [hchunks, List.mem_singleton] at hmem
    rw [hmem]
    decide
  rintro ⟨platform, hkept⟩
  exact absurd ((kept_iff_nulFree platform hcount).mp hkept) (by decide)

end Flipper

end OsLabs
