import Mathlib.Algebra.Order.BigOperators.Group.List
import Mathlib.Algebra.Order.Group.Nat
import OsLabs.Library.CString
import OsLabs.Library.Reversal

/-!
# Mirroring the Lines of a File

`cw03/assignment/flipper.c`. `process_file` reads a file with `getline`,
reverses what it gets in place and writes it out. What `getline` returns ends
with the newline, except at the end of a file that has none there, and
`reverse_line` turns the newline round with the rest: it comes to stand before
the line.

The length is held in an `int`. For everything up to `INT_MAX` it is the length,
and a longer line is converted to something smaller, so that a prefix of it is
reversed. Where the conversion gives the least `int`, the subtraction that
follows overflows and there is no result. Nor is it laid down what `fprintf`
writes of a string that it cannot count. `Platform` stands for what happens in
these two cases, and what is said about every file is said for all platforms.

Left out are the opening of the files and the messages printed.

## Main definitions

* `int32`: The value of a number in an `int`.
* `reverseLine`, `getlines`, `processFile`: The program.
* `Platform`: What happens to strings that an `int` cannot count.
* `fileLines`, `EndsWithNewline`, `Mirrored`, `Restored`: What it is for.
* `Chunks`: What `getline` returns, as a list.
* `mirror`: A chunk that is mirrored in place.
* `reach`: How much of a string `reverse_line` reverses.
* `Folded`: The lines that this mirrors.
* `Fits`, `Flippable`: The chunks and the files that are mirrored.
* `Counted`: The files whose strings an `int` can count.

## Theorems

* `chunks_getlines`, `flatten_getlines`, `getlines_flatten`: Files and chunks.
* `Chunks.eq_of_lines`: The lines and the end of a file determine it.
* `mirrored_iff_eq`: What a mirrored file is made of.
* `reverseLine_eq_none_iff`, `reverseLine_eq`: What `reverse_line` does.
* `reverseLine_eq_reverse_iff`: When that is the reverse.
* `reverse_eq_mirror_iff`: When the reverse mirrors a chunk.
* `processFile_eq`: What is written where everything can be counted.
* `processFile_processFile`: The second run.
* `length_processFile_silent`: What may be lost elsewhere.
* `mirrored_iff`: When a file is mirrored, and restored by a second run.
-/

namespace OsLabs

namespace Flipper

/-- `INT_MAX` -/
def intMax : Nat := 2 ^ 31 - 1

/-- The value of a number that is converted to `int`. -/
def int32 (n : Int) : Int := n.bmod (2 ^ 32)

/-- `reverse_line`, for the string in the buffer. There is no result where
    `len - 1` overflows. -/
def reverseLine (str : Bytes) : Option Bytes :=
  let len := int32 str.length
  if len = -2 ^ 31 then none else some (reverseLoop str 0 (len - 1))

/-- What is left open: the string in the buffer after `len - 1` has overflowed,
    and what `fprintf` writes with "%s" of a string that an `int` cannot count.
    Other strings are written as they are. -/
structure Platform where
  overflowed : Bytes → Bytes
  fprintf : Bytes → Bytes
  fprintf_eq : ∀ str, str.length ≤ intMax → fprintf str = str

/-- What is written for a chunk in the buffer. -/
def Platform.written (platform : Platform) (chunk : Bytes) : Bytes :=
  let str := cstr chunk
  platform.fprintf ((reverseLine str).getD (platform.overflowed str))

/-- What successive calls of `getline` return, with `line` read so far: the
    bytes up to a newline, or up to the end of the file. -/
def getlines (line : Bytes) : Bytes → List Bytes
  | [] => if line = [] then [] else [line]
  | b :: content =>
      if b = 10 then (line ++ [b]) :: getlines [] content else getlines (line ++ [b]) content

/-- What `process_file` writes for the content of a file. -/
def processFile (platform : Platform) (content : Bytes) : Bytes :=
  (getlines [] content).flatMap platform.written

/-- The lines of a file, without their newlines. -/
def fileLines (content : Bytes) : List Bytes :=
  (getlines [] content).map fun chunk => chunk.takeWhile (· != 10)

/-- The last line of the file is terminated. -/
def EndsWithNewline (content : Bytes) : Prop := content.getLast? = some 10

instance (content : Bytes) : Decidable (EndsWithNewline content) :=
  inferInstanceAs (Decidable (_ = _))

/-- The second file has the lines of the first, each one reversed. -/
structure Mirrored (content output : Bytes) : Prop where
  lines : fileLines output = (fileLines content).map List.reverse
  ends : EndsWithNewline output ↔ EndsWithNewline content

/-- The file is mirrored, and a second run restores it. -/
structure Restored (platform : Platform) (content : Bytes) : Prop where
  mirrored : Mirrored content (processFile platform content)
  restored : processFile platform (processFile platform content) = content

/-- What `getline` returns for a file, as a list: terminated lines, and at the
    end perhaps one that is not. -/
inductive Chunks : List Bytes → Prop where
  | nil : Chunks []
  | last (l : Bytes) (hne : l ≠ []) (hl : (10 : UInt8) ∉ l) : Chunks [l]
  | line (l : Bytes) (cs : List Bytes) (hl : (10 : UInt8) ∉ l) (hcs : Chunks cs) :
      Chunks ((l ++ [10]) :: cs)

theorem chunks_getlines {line : Bytes} (content : Bytes) (hline : (10 : UInt8) ∉ line) :
    Chunks (getlines line content) := by
  induction content generalizing line with
  | nil =>
      rw [getlines]
      by_cases hempty : line = []
      · rw [if_pos hempty]
        exact .nil
      · rw [if_neg hempty]
        exact .last line hempty hline
  | cons b content ih =>
      rw [getlines]
      by_cases hb : b = 10
      · rw [if_pos hb, hb]
        exact .line line _ hline (ih List.not_mem_nil)
      · rw [if_neg hb]
        refine ih fun hmem => ?_
        rcases List.mem_append.mp hmem with hfront | hlast
        · exact hline hfront
        · exact hb (List.mem_singleton.mp hlast).symm

theorem flatten_getlines (line content : Bytes) :
    (getlines line content).flatten = line ++ content := by
  induction content generalizing line with
  | nil =>
      rw [getlines]
      by_cases hempty : line = []
      · rw [if_pos hempty, hempty]
        rfl
      · rw [if_neg hempty, List.flatten_cons, List.flatten_nil]
  | cons b content ih =>
      rw [getlines]
      by_cases hb : b = 10
      · rw [if_pos hb, List.flatten_cons, ih, List.nil_append, List.append_assoc,
          List.singleton_append]
      · rw [if_neg hb, ih, List.append_assoc, List.singleton_append]

/-- A line that is read up to its newline, or up to the end. -/
theorem getlines_append {l : Bytes} (line rest : Bytes) (hl : (10 : UInt8) ∉ l) :
    getlines line (l ++ rest) = getlines (line ++ l) rest := by
  induction l generalizing line with
  | nil => rw [List.nil_append, List.append_nil]
  | cons b l ih =>
      rw [List.mem_cons, not_or] at hl
      rw [List.cons_append, getlines, if_neg (Ne.symm hl.1), ih _ hl.2, List.append_assoc,
        List.singleton_append]

theorem getlines_flatten {cs : List Bytes} (h : Chunks cs) : getlines [] cs.flatten = cs := by
  induction h with
  | nil => rfl
  | last l hne hl =>
      rw [List.flatten_cons, List.flatten_nil, getlines_append [] [] hl, List.nil_append, getlines,
        if_neg hne]
  | line l cs hl _ ih =>
      rw [List.flatten_cons, List.append_assoc, getlines_append [] _ hl, List.nil_append,
        List.singleton_append, getlines, if_pos rfl, ih]

/-- The part of a chunk before its newline. -/
theorem takeWhile_line {l : Bytes} (hl : (10 : UInt8) ∉ l) :
    (l ++ [10]).takeWhile (fun b => b != 10) = l ∧
      (l ++ [10]).dropWhile (fun b => b != 10) = [10] := by
  have hall : ∀ x ∈ l, (x != 10) = true := by
    intro x hx
    rw [bne_iff_ne]
    rintro rfl
    exact hl hx
  rw [List.takeWhile_append_of_pos hall, List.dropWhile_append_of_pos hall]
  exact ⟨List.append_nil l, rfl⟩

theorem takeWhile_last {l : Bytes} (hl : (10 : UInt8) ∉ l) :
    l.takeWhile (fun b => b != 10) = l ∧ l.dropWhile (fun b => b != 10) = [] := by
  have hall : ∀ x ∈ l, (x != 10) = true := by
    intro x hx
    rw [bne_iff_ne]
    rintro rfl
    exact hl hx
  exact ⟨List.takeWhile_eq_self_iff.mpr hall, List.dropWhile_eq_nil_iff.mpr hall⟩

theorem ends_line (l : Bytes) : EndsWithNewline (l ++ [10]) :=
  List.getLast?_concat

theorem not_ends_last {l : Bytes} (hl : (10 : UInt8) ∉ l) : ¬ EndsWithNewline l :=
  fun hends => hl (List.mem_of_getLast? hends)

theorem Chunks.flatten_ne_nil {cs : List Bytes} (h : Chunks cs) (hne : cs ≠ []) :
    cs.flatten ≠ [] := by
  cases h with
  | nil => exact absurd rfl hne
  | last l hl _ => rwa [List.flatten_cons, List.flatten_nil, List.append_nil]
  | line l cs _ _ =>
      rw [List.flatten_cons, List.append_assoc]
      exact List.append_ne_nil_of_right_ne_nil _ (List.cons_ne_nil _ _)

/-- Whether a file ends with a newline is decided after its first chunk. -/
theorem ends_cons {cs : List Bytes} (chunk : Bytes) (h : Chunks cs) (hne : cs ≠ []) :
    EndsWithNewline (chunk :: cs).flatten ↔ EndsWithNewline cs.flatten := by
  rw [EndsWithNewline, EndsWithNewline, List.flatten_cons,
    List.getLast?_append_of_ne_nil _ (h.flatten_ne_nil hne)]

/-- The lines and the end of a file determine its chunks. -/
theorem Chunks.eq_of_lines {cs ds : List Bytes} (hc : Chunks cs) (hd : Chunks ds)
    (hlines : cs.map (fun chunk => chunk.takeWhile fun b => b != 10)
      = ds.map fun chunk => chunk.takeWhile fun b => b != 10)
    (hends : EndsWithNewline cs.flatten ↔ EndsWithNewline ds.flatten) : cs = ds := by
  -- By the shape of both lists: a last chunk without newline, or a line before more.
  induction hc generalizing ds with
  | nil => exact (List.map_eq_nil_iff.mp hlines.symm).symm
  | last l hne hl =>
      cases hd with
      | nil => exact absurd hlines (List.cons_ne_nil _ _)
      | last m _ hm =>
          rw [List.map_singleton, List.map_singleton, (takeWhile_last hl).1,
            (takeWhile_last hm).1] at hlines
          exact hlines
      | line m ds hm _ =>
          -- One of the two files has no newline at all.
          rw [List.map_cons, List.map_cons, List.map_nil, List.cons.injEq, eq_comm (a := []),
            List.map_eq_nil_iff] at hlines
          rw [hlines.2, List.flatten_singleton, List.flatten_singleton] at hends
          exact absurd (hends.mpr (ends_line m)) (not_ends_last hl)
  | line l cs hl hcs ih =>
      cases hd with
      | nil => exact absurd hlines (List.cons_ne_nil _ _)
      | last m _ hm =>
          rw [List.map_cons, List.map_cons, List.map_nil, List.cons.injEq,
            List.map_eq_nil_iff] at hlines
          rw [hlines.2, List.flatten_singleton, List.flatten_singleton] at hends
          exact absurd (hends.mp (ends_line l)) (not_ends_last hm)
      | line m ds hm hds =>
          -- Both begin with a line: the rest agrees by induction, if there is one.
          rw [List.map_cons, List.map_cons, (takeWhile_line hl).1, (takeWhile_line hm).1,
            List.cons.injEq] at hlines
          rw [hlines.1]
          by_cases hempty : cs = []
          · rw [hempty] at hlines ⊢
            rw [List.map_eq_nil_iff.mp hlines.2.symm]
          · have hempty' : ds ≠ [] := fun hnil => hempty (by
              rw [hnil] at hlines
              exact List.map_eq_nil_iff.mp hlines.2)
            rw [ends_cons _ hcs hempty, ends_cons _ hds hempty'] at hends
            rw [ih hds hlines.2 hends]

/-- A chunk whose line is mirrored in place, with its newline after it. -/
def mirror (chunk : Bytes) : Bytes :=
  (chunk.takeWhile fun b => b != 10).reverse ++ chunk.dropWhile fun b => b != 10

theorem mirror_line {l : Bytes} (hl : (10 : UInt8) ∉ l) :
    mirror (l ++ [10]) = l.reverse ++ [10] := by
  rw [mirror, (takeWhile_line hl).1, (takeWhile_line hl).2]

theorem mirror_last {l : Bytes} (hl : (10 : UInt8) ∉ l) : mirror l = l.reverse := by
  rw [mirror, (takeWhile_last hl).1, (takeWhile_last hl).2, List.append_nil]

theorem not_mem_reverse {l : Bytes} (hl : (10 : UInt8) ∉ l) : (10 : UInt8) ∉ l.reverse :=
  fun hmem => hl (List.mem_reverse.mp hmem)

theorem length_mirror (chunk : Bytes) : (mirror chunk).length = chunk.length := by
  rw [mirror, List.length_append, List.length_reverse, ← List.length_append,
    List.takeWhile_append_dropWhile]

/-- Mirrored chunks are chunks again. -/
theorem chunks_mirror {cs : List Bytes} (h : Chunks cs) : Chunks (cs.map mirror) := by
  induction h with
  | nil => exact .nil
  | last l hne hl =>
      rw [List.map_cons, List.map_nil, mirror_last hl]
      exact .last _ (List.reverse_ne_nil_iff.mpr hne) (not_mem_reverse hl)
  | line l cs hl _ ih =>
      rw [List.map_cons, mirror_line hl]
      exact .line _ _ (not_mem_reverse hl) ih

/-- The lines of mirrored chunks are the reversed lines. -/
theorem lines_mirror {cs : List Bytes} (h : Chunks cs) :
    (cs.map mirror).map (fun chunk => chunk.takeWhile fun b => b != 10)
      = (cs.map fun chunk => chunk.takeWhile fun b => b != 10).map List.reverse := by
  induction h with
  | nil => rfl
  | last l hne hl =>
      rw [List.map_singleton, List.map_singleton, List.map_singleton, List.map_singleton,
        mirror_last hl, (takeWhile_last (not_mem_reverse hl)).1, (takeWhile_last hl).1]
  | line l cs hl _ ih =>
      rw [List.map_cons, List.map_cons, List.map_cons, List.map_cons, ih, mirror_line hl,
        (takeWhile_line (not_mem_reverse hl)).1, (takeWhile_line hl).1]

theorem ends_mirror {cs : List Bytes} (h : Chunks cs) :
    EndsWithNewline (cs.map mirror).flatten ↔ EndsWithNewline cs.flatten := by
  induction h with
  | nil => exact Iff.rfl
  | last l hne hl =>
      rw [List.map_singleton, List.flatten_singleton, List.flatten_singleton, mirror_last hl]
      exact iff_of_false (not_ends_last (not_mem_reverse hl)) (not_ends_last hl)
  | line l cs hl hcs ih =>
      by_cases hempty : cs = []
      · rw [hempty, List.map_singleton, List.flatten_singleton, List.flatten_singleton,
          mirror_line hl]
        exact iff_of_true (ends_line _) (ends_line _)
      · rw [List.map_cons, ends_cons _ (chunks_mirror hcs) fun hnil =>
            hempty (List.map_eq_nil_iff.mp hnil), ends_cons _ hcs hempty]
        exact ih

/-- A file is mirrored by another if that one is made of the mirrored
    chunks. -/
theorem mirrored_iff_eq (content output : Bytes) :
    Mirrored content output ↔ output = ((getlines [] content).map mirror).flatten := by
  have hchunks := chunks_getlines content List.not_mem_nil
  have hcontent := flatten_getlines [] content
  constructor
  · intro h
    have hlines := h.lines
    have hends := h.ends
    rw [fileLines, fileLines, ← lines_mirror hchunks] at hlines
    have houtput := flatten_getlines [] output
    rw [List.nil_append] at hcontent houtput
    rw [← houtput]
    congr 1
    -- Both lists are chunks, and chunks are determined by their lines.
    refine Chunks.eq_of_lines (chunks_getlines output List.not_mem_nil) (chunks_mirror hchunks)
      hlines ?_
    rw [houtput, ends_mirror hchunks, hcontent]
    exact hends
  · rintro rfl
    rw [List.nil_append] at hcontent
    refine ⟨?_, ?_⟩
    · rw [fileLines, getlines_flatten (chunks_mirror hchunks), lines_mirror hchunks, fileLines]
    · rw [ends_mirror hchunks, hcontent]

/-- How much of a string of this length `reverse_line` reverses. -/
def reach (len : Nat) : Nat := (int32 len).toNat

/-- Up to `INT_MAX` an `int` holds the length. -/
theorem int32_of_le {len : Nat} (h : len ≤ intMax) : int32 len = len := by
  unfold intMax at h
  rw [int32, Int.bmod_def]
  split <;> omega

theorem reach_of_le {len : Nat} (h : len ≤ intMax) : reach len = len := by
  rw [reach, int32_of_le h, Int.toNat_natCast]

/-- From there to 4 GiB the `int` is negative, or zero, and nothing is reversed. -/
theorem reach_eq_zero {len : Nat} (h : intMax < len) (hle : len ≤ 2 ^ 32) : reach len = 0 := by
  unfold intMax at h
  rw [reach, int32, Int.bmod_def]
  split <;> omega

/-- The lengths for which `len - 1` overflows. -/
theorem int32_eq_min_iff (len : Nat) : int32 len = -2 ^ 31 ↔ len % 2 ^ 32 = 2 ^ 31 := by
  rw [int32, Int.bmod_def]
  split <;> omega

theorem not_overflow_of_le {len : Nat} (h : len ≤ intMax) : len % 2 ^ 32 ≠ 2 ^ 31 := by
  unfold intMax at h
  omega

/-- The conversion only makes the right end smaller. -/
theorem right_end_lt (len : Nat) : int32 len - 1 < len := by
  rw [int32, Int.bmod_def]
  split <;> omega

theorem reverseLine_eq_none_iff (str : Bytes) :
    reverseLine str = none ↔ str.length % 2 ^ 32 = 2 ^ 31 := by
  rw [reverseLine, ← int32_eq_min_iff]
  by_cases hmin : int32 str.length = -2 ^ 31
  · simp only [hmin, if_true]
  · simp only [hmin, if_false, reduceCtorEq]

/-- Where nothing overflows a prefix is reversed. -/
theorem reverseLine_eq {str : Bytes} (h : str.length % 2 ^ 32 ≠ 2 ^ 31) :
    reverseLine str = some (reversePrefix (reach str.length) str) := by
  have hmin : ¬ int32 str.length = -2 ^ 31 := fun heq => h ((int32_eq_min_iff _).mp heq)
  rw [reverseLine]
  simp only [hmin, if_false]
  rw [reverseLoop_eq (right_end_lt str.length), reach, Int.sub_add_cancel]

/-- A string that an `int` can count is reversed. -/
theorem reverseLine_of_le {str : Bytes} (h : str.length ≤ intMax) :
    reverseLine str = some str.reverse := by
  rw [reverseLine_eq (not_overflow_of_le h), reach_of_le h,
    reversePrefix_of_length_le (Nat.le_refl _)]

/-- A line that stays the same when what follows its first `n` bytes is turned
    round and put in front. A palindrome does for every `n`. -/
def Folded (n : Nat) (l : Bytes) : Prop := (l.drop n).reverse ++ l.take n = l

/-- The lines that reversing their first `n` bytes mirrors. -/
theorem reversePrefix_eq_reverse_iff (n : Nat) (l : Bytes) :
    reversePrefix n l = l.reverse ↔ Folded n l := by
  rw [← List.reverse_eq_iff, reversePrefix, List.reverse_append, List.reverse_reverse, Folded]

/-- The strings that `reverse_line` reverses: those whose length an `int` holds,
    and longer ones that happen to be of the right form and where nothing
    overflows. -/
theorem reverseLine_eq_reverse_iff (str : Bytes) :
    reverseLine str = some str.reverse ↔ str.length ≤ intMax ∨
      str.length % 2 ^ 32 ≠ 2 ^ 31 ∧ Folded (reach str.length) str := by
  by_cases hfits : str.length ≤ intMax
  · exact iff_of_true (reverseLine_of_le hfits) (.inl hfits)
  · rw [or_iff_right hfits]
    by_cases hover : str.length % 2 ^ 32 = 2 ^ 31
    · rw [(reverseLine_eq_none_iff str).mpr hover]
      exact iff_of_false (Option.some_ne_none _).symm fun h => h.1 hover
    · rw [reverseLine_eq hover, Option.some.injEq, reversePrefix_eq_reverse_iff]
      exact (and_iff_right hover).symm

/-- What is reversed is as long as before, so a second call turns it back. -/
theorem reverseLine_reverse {str : Bytes} (h : reverseLine str = some str.reverse) :
    reverseLine str.reverse = some str := by
  have hover : str.length % 2 ^ 32 ≠ 2 ^ 31 := by
    intro hover
    rw [(reverseLine_eq_none_iff str).mpr hover] at h
    exact absurd h (Option.some_ne_none _).symm
  rw [reverseLine_eq hover, Option.some.injEq] at h
  rw [reverseLine_eq (by rwa [List.length_reverse]), List.length_reverse, ← h,
    reversePrefix_reversePrefix]

theorem nulFree_reverseLine {str turned : Bytes} (h : NulFree str)
    (hturned : reverseLine str = some turned) : NulFree turned := by
  by_cases hover : str.length % 2 ^ 32 = 2 ^ 31
  · rw [(reverseLine_eq_none_iff str).mpr hover] at hturned
    exact absurd hturned (Option.some_ne_none turned).symm
  · rw [reverseLine_eq hover, Option.some.injEq] at hturned
    rw [NulFree, ← hturned, mem_reversePrefix]
    exact h

/-- The chunks that are mirrored whatever the platform is: an empty line with
    its newline, and a line without one, of a length that an `int` holds. -/
def Fits (chunk : Bytes) : Prop :=
  chunk.length ≤ intMax ∧ (EndsWithNewline chunk → chunk = [10])

/-- The newline is turned round with the line, unless the line is empty. -/
theorem reverse_line_iff {l : Bytes} (hl : (10 : UInt8) ∉ l) :
    (l ++ [10]).reverse = mirror (l ++ [10]) ↔ l ++ [10] = [10] := by
  rw [mirror_line hl, List.reverse_append, List.reverse_singleton, List.singleton_append]
  constructor
  · intro h
    -- The first byte is a newline, and only an empty line begins with one.
    cases hrev : l.reverse with
    | nil => rw [List.reverse_eq_nil_iff.mp hrev, List.nil_append]
    | cons b r =>
        rw [hrev, List.cons_append, List.cons.injEq] at h
        refine absurd ?_ (not_mem_reverse hl)
        rw [hrev, h.1]
        exact List.mem_cons_self
  · intro hempty
    rw [List.append_eq_singleton_iff] at hempty
    rcases hempty with ⟨rfl, _⟩ | ⟨_, hcons⟩
    · rfl
    · exact absurd hcons (List.cons_ne_nil _ _)

theorem reverse_eq_mirror_iff {cs : List Bytes} (h : Chunks cs) :
    ∀ chunk ∈ cs, (chunk.reverse = mirror chunk ↔ (EndsWithNewline chunk → chunk = [10])) := by
  induction h with
  | nil => exact fun chunk hmem => absurd hmem List.not_mem_nil
  | last l _ hl =>
      intro chunk hmem
      rw [List.mem_singleton.mp hmem]
      exact iff_of_true (mirror_last hl).symm fun hends => absurd hends (not_ends_last hl)
  | line l cs hl _ ih =>
      intro chunk hmem
      rcases List.mem_cons.mp hmem with rfl | hrest
      · rw [reverse_line_iff hl]
        exact ⟨fun hempty _ => hempty, fun hempty => hempty (ends_line l)⟩
      · exact ih chunk hrest

/-- The files that `process_file` mirrors: what `getline` returns for them fits
    throughout. -/
def Flippable (content : Bytes) : Prop := ∀ chunk ∈ getlines [] content, Fits chunk

/-- An `int` can count every string that is written. -/
def Counted (content : Bytes) : Prop :=
  ∀ chunk ∈ getlines [] content, (cstr chunk).length ≤ intMax

/-- Blocks of the same lengths are equal if they make up the same file. -/
theorem flatten_map_eq_iff {cs : List Bytes} {f g : Bytes → Bytes}
    (hlength : ∀ chunk ∈ cs, (f chunk).length = (g chunk).length) :
    (cs.map f).flatten = (cs.map g).flatten ↔ ∀ chunk ∈ cs, f chunk = g chunk := by
  induction cs with
  | nil => exact iff_of_true rfl fun chunk hmem => absurd hmem List.not_mem_nil
  | cons c cs ih =>
      rw [List.forall_mem_cons] at hlength ⊢
      rw [List.map_cons, List.map_cons, List.flatten_cons, List.flatten_cons, ← ih hlength.2]
      constructor
      · exact fun heq => List.append_inj heq hlength.1
      · rintro ⟨hfirst, hrest⟩
        rw [hfirst, hrest]

/-- Every byte of a chunk is a byte of the file. -/
theorem mem_of_mem_getlines {content chunk : Bytes} {b : UInt8}
    (hchunk : chunk ∈ getlines [] content) (hb : b ∈ chunk) : b ∈ content := by
  have hflatten := flatten_getlines [] content
  rw [List.nil_append] at hflatten
  rw [← hflatten]
  exact List.mem_flatten_of_mem hchunk hb

/-- Without NUL bytes the string in the buffer is the chunk. -/
theorem cstr_chunk {content chunk : Bytes} (h : NulFree content)
    (hchunk : chunk ∈ getlines [] content) : cstr chunk = chunk :=
  cstr_of_nulFree fun hnul => h (mem_of_mem_getlines hchunk hnul)

theorem length_cstr_le (chunk : Bytes) : (cstr chunk).length ≤ chunk.length :=
  (List.takeWhile_prefix _).length_le

theorem Flippable.counted {content : Bytes} (h : Flippable content) : Counted content :=
  fun chunk hmem => (length_cstr_le chunk).trans (h chunk hmem).1

/-- The reversed string is written, where it can be counted. -/
theorem written_of_le (platform : Platform) {chunk : Bytes} (h : (cstr chunk).length ≤ intMax) :
    platform.written chunk = (cstr chunk).reverse := by
  rw [Platform.written, reverseLine_of_le h, Option.getD_some]
  exact platform.fprintf_eq _ (by rwa [List.length_reverse])

theorem processFile_of_counted (platform : Platform) {content : Bytes} (h : Counted content) :
    processFile platform content
      = ((getlines [] content).map fun chunk => (cstr chunk).reverse).flatten := by
  rw [processFile, List.flatMap_def]
  congr 1
  exact List.map_congr_left fun chunk hmem => written_of_le platform (h chunk hmem)

theorem processFile_eq (platform : Platform) {content : Bytes} (hnul : NulFree content)
    (h : Counted content) :
    processFile platform content = ((getlines [] content).map List.reverse).flatten := by
  rw [processFile_of_counted platform h]
  congr 1
  refine List.map_congr_left fun chunk hmem => ?_
  rw [cstr_chunk hnul hmem]

/-- A file is mirrored exactly if its chunks fit. -/
theorem mirrored_processFile_iff (platform : Platform) {content : Bytes} (hnul : NulFree content)
    (h : Counted content) :
    Mirrored content (processFile platform content) ↔ Flippable content := by
  have hchunks := chunks_getlines content List.not_mem_nil
  rw [mirrored_iff_eq, processFile_eq platform hnul h, flatten_map_eq_iff]
  · refine forall₂_congr fun chunk hmem => ?_
    have hcount := h chunk hmem
    rw [cstr_chunk hnul hmem] at hcount
    rw [reverse_eq_mirror_iff hchunks chunk hmem, Fits]
    exact (and_iff_right hcount).symm
  · intro chunk _
    rw [List.length_reverse, length_mirror]

/-- The second run finds the chunks of the first, and turns them back. -/
theorem processFile_processFile (platform : Platform) {content : Bytes} (hnul : NulFree content)
    (hflip : Flippable content) :
    processFile platform (processFile platform content) = content := by
  have hchunks := chunks_getlines content List.not_mem_nil
  -- Each chunk is turned to its mirror image, which keeps the newline where it is.
  have hmirror : (getlines [] content).map List.reverse = (getlines [] content).map mirror :=
    List.map_congr_left fun chunk hmem =>
      (reverse_eq_mirror_iff hchunks chunk hmem).mpr (hflip chunk hmem).2
  have hfirst := processFile_eq platform hnul hflip.counted
  have houtput : getlines [] (processFile platform content)
      = (getlines [] content).map List.reverse := by
    rw [hfirst, hmirror, getlines_flatten (chunks_mirror hchunks)]
  -- The second time as well the chunk is written as it is turned.
  have hback : ∀ chunk ∈ getlines [] content,
      platform.written chunk.reverse = chunk := by
    intro chunk hmem
    have hfree : NulFree chunk.reverse := fun hmem' =>
      hnul (mem_of_mem_getlines hmem (List.mem_reverse.mp hmem'))
    rw [written_of_le platform, cstr_of_nulFree hfree, List.reverse_reverse]
    rw [cstr_of_nulFree hfree, List.length_reverse]
    exact (hflip chunk hmem).1
  calc processFile platform (processFile platform content)
      = (((getlines [] content).map List.reverse).map platform.written).flatten := by
        rw [processFile, houtput, List.flatMap_def]
    _ = ((getlines [] content).map id).flatten := by
        rw [List.map_map]
        congr 1
        exact List.map_congr_left hback
    _ = content := by
        rw [List.map_id, flatten_getlines, List.nil_append]

/-- The platform on which `fprintf` writes nothing of a string that it cannot
    count. -/
def Platform.silent : Platform where
  overflowed := id
  fprintf := fun str => if str.length ≤ intMax then str else []
  fprintf_eq := fun _ h => if_pos h

/-- The buffer has a string of the same length after the call. -/
theorem length_reverseLine (str : Bytes) : ((reverseLine str).getD str).length = str.length := by
  by_cases hover : str.length % 2 ^ 32 = 2 ^ 31
  · rw [(reverseLine_eq_none_iff str).mpr hover, Option.getD_none]
  · rw [reverseLine_eq hover, Option.getD_some, length_reversePrefix]

theorem length_written_silent (chunk : Bytes) :
    (Platform.silent.written chunk).length
      = if (cstr chunk).length ≤ intMax then (cstr chunk).length else 0 := by
  have hlength := length_reverseLine (cstr chunk)
  rw [Platform.written]
  simp only [Platform.silent, id]
  rw [apply_ite List.length, hlength, List.length_nil]

/-- There the file gets shorter if some string cannot be counted. -/
theorem length_processFile_silent {content : Bytes} (h : ¬ Counted content) :
    (processFile Platform.silent content).length < content.length := by
  have hle : ∀ chunk ∈ getlines [] content,
      (Platform.silent.written chunk).length ≤ chunk.length := by
    intro chunk _
    have hstr := length_cstr_le chunk
    rw [length_written_silent]
    split <;> omega
  have hlt : ∃ chunk ∈ getlines [] content,
      (Platform.silent.written chunk).length < chunk.length := by
    rw [Counted] at h
    push Not at h
    rcases h with ⟨chunk, hmem, hlong⟩
    have hstr := length_cstr_le chunk
    refine ⟨chunk, hmem, ?_⟩
    rw [length_written_silent, if_neg (Nat.not_le.mpr hlong)]
    omega
  have hcontent := congrArg List.length (flatten_getlines [] content)
  rw [List.nil_append, List.length_flatten] at hcontent
  rw [processFile, List.length_flatMap, ← hcontent]
  exact List.sum_lt_sum _ _ hle hlt

theorem Mirrored.length_eq {content output : Bytes} (h : Mirrored content output) :
    output.length = content.length := by
  have hcontent := congrArg List.length (flatten_getlines [] content)
  rw [List.nil_append, List.length_flatten] at hcontent
  rw [(mirrored_iff_eq content output).mp h, List.length_flatten, List.map_map, ← hcontent]
  congr 1
  exact List.map_congr_left fun chunk _ => length_mirror chunk

/-- A file without NUL bytes is mirrored line by line, and restored by a second
    run, whatever the platform is, exactly if it is flippable. Where every
    string can be counted the platform makes no difference. -/
theorem mirrored_iff {content : Bytes} (h : NulFree content) :
    ((∀ platform, Restored platform content) ↔ Flippable content) ∧
      (Counted content → ∀ platform, (Restored platform content ↔ Flippable content)) := by
  have hcounted : Counted content →
      ∀ platform, (Restored platform content ↔ Flippable content) := by
    intro hcount platform
    constructor
    · exact fun hrestored => (mirrored_processFile_iff platform h hcount).mp hrestored.mirrored
    · exact fun hflip => ⟨(mirrored_processFile_iff platform h hcount).mpr hflip,
        processFile_processFile platform h hflip⟩
  refine ⟨⟨fun hall => ?_, fun hflip platform => ?_⟩, hcounted⟩
  · -- On the silent platform a string that cannot be counted would be missed.
    have hcount : Counted content := by
      by_contra hlong
      have hshorter := length_processFile_silent hlong
      have hsame := (hall Platform.silent).mirrored.length_eq
      omega
    exact (hcounted hcount Platform.silent).mp (hall Platform.silent)
  · exact (hcounted hflip.counted platform).mpr hflip

/-- Two empty lines and a last one without a newline are mirrored. -/
theorem mirrored_empty_lines :
    NulFree (text "\n\nab") ∧ ∀ platform, Restored platform (text "\n\nab") := by
  have hnul : NulFree (text "\n\nab") := by decide
  refine ⟨hnul, (mirrored_iff hnul).1.mpr fun chunk hmem => ?_⟩
  have hchunks : getlines [] (text "\n\nab") = [[10], [10], text "ab"] := by decide
  rw [hchunks, List.mem_cons, List.mem_cons, List.mem_singleton] at hmem
  rcases hmem with rfl | rfl | rfl
  · exact ⟨by decide, fun _ => rfl⟩
  · exact ⟨by decide, fun _ => rfl⟩
  · exact ⟨by decide, by decide⟩

/-- A single line with its newline is written with the newline first, whatever
    the platform is. -/
theorem newline_moves_in_front : ¬ ∃ platform, Restored platform (text "ab\n") := by
  have hnul : NulFree (text "ab\n") := by decide
  have hchunks : getlines [] (text "ab\n") = [text "ab\n"] := by decide
  have hcount : Counted (text "ab\n") := by
    intro chunk hmem
    rw [hchunks, List.mem_singleton] at hmem
    rw [hmem]
    decide
  rintro ⟨platform, hrestored⟩
  have hfits := (mirrored_processFile_iff platform hnul hcount).mp hrestored.mirrored (text "ab\n")
    (by rw [hchunks]; exact List.mem_singleton_self _)
  exact absurd (hfits.2 (by decide)) (by decide)

end Flipper

end OsLabs
