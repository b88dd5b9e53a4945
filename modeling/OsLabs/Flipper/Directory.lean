import Mathlib.Data.List.Nodup
import Mathlib.Logic.Function.Basic
import OsLabs.Flipper.Lines

/-!
# Mirroring a Directory

`process_directory` and `process_file` of `cw03/assignment/flipper.c`. For each
entry with the right ending the paths of the input and of the output are
formatted into buffers of a fixed size, and the output is opened for writing
before anything is read.

The file system is a map from directories and names to contents. Which
directory a path leads to, if any, is left open, so that different paths may
lead to the same one; of a path to a file the part after the last slash is the
name. A name that is empty, or a dot, or two dots, is that of a directory,
which can be opened and read like an empty file but not written.

An output is what it should be if both paths survive the formatting and the two
directories are not the same. In one and the same directory the input is empty
by the time it is read. A path that was cut leads to another name, or the same
one for all entries.

What is proved here holds whatever happens to lines that an `int` cannot count.

Left out are entries that are directories themselves, the names that `mkdir`
could not be given, permissions, and the messages printed.

## Main definitions

* `splitPath`, `target`, `resolve`: Where a path leads.
* `processPaths`, `processEntry`, `processDirectory`: The program.
* `Listed`: The entries are the files of the directory.
* `Flipped`: The outputs are complete and the inputs intact.
* `Separate`: All paths lead to where they should, and not to the same files.

## Theorems

* `processEntry_move`: What an entry can do.
* `processEntry_separate`: What it does where the paths are right.
* `resolve_filePath_of_cut`: A cut path takes away no name from another entry.
* `flipped_iff`: When a directory is mirrored.
-/

namespace OsLabs

namespace Flipper

variable {δ : Type*}

/-- The directory of a path and the name in it. -/
def splitPath (path : Bytes) : Bytes × Bytes :=
  match strrchrSplit 47 path with
  | some ([], name) => (text "/", name)
  | some (dir, name) => (dir, name)
  | none => (text ".", path)

/-- What a path leads to: a directory, or a name in a directory, under which
    there may be a file. -/
inductive Target (δ : Type*) where
  | directory
  | file (p : δ × Bytes)

/-- What a name stands for in a directory. -/
def target (name : Bytes) (d : δ) : Target δ :=
  if name = [] ∨ name = text "." ∨ name = text ".." then .directory else .file (d, name)

/-- Where a path leads. -/
def resolve (dirOf : Bytes → Option δ) (path : Bytes) : Option (Target δ) :=
  (dirOf (splitPath path).1).map (target (splitPath path).2)

/-- The contents of all files. -/
abbrev Files (δ : Type*) := δ × Bytes → Option Bytes

/-- What can be read after `fopen` for reading, if that succeeds. -/
def contentOf (files : Files δ) : Option (Target δ) → Option Bytes
  | some (.file p) => files p
  | some .directory => some []
  | none => none

/-- The files, and those that were opened for writing, in order. -/
structure Disk (δ : Type*) where
  files : Files δ
  outputs : List (δ × Bytes)

section Program

variable [DecidableEq δ] (os : Platform) (dirOf : Bytes → Option δ)

/-- `process_file`, for two paths. -/
def processPaths (disk : Disk δ) (fileIn fileOut : Bytes) : Disk δ :=
  if (contentOf disk.files (resolve dirOf fileIn)).isSome then
    match resolve dirOf fileOut with
    | some (.file p) =>
        -- Opening for writing empties the file, before anything is read.
        let emptied := Function.update disk.files p (some [])
        { files := Function.update emptied p
            ((contentOf emptied (resolve dirOf fileIn)).map (processFile os))
          outputs := disk.outputs ++ [p] }
    | _ => disk
  else disk

/-- `file_in` and `file_out` -/
def filePath (dir name : Bytes) : Bytes := snprintf 1024 (dir ++ 47 :: name)

/-- The entries that are not skipped. -/
def isTxt (name : Bytes) : Bool := (strrchrSplit 46 name).map Prod.snd == some (text "txt")

/-- A turn of the loop in `process_directory`. -/
def processEntry (dirIn dirOut : Bytes) (disk : Disk δ) (name : Bytes) : Disk δ :=
  if isTxt name then processPaths os dirOf disk (filePath dirIn name) (filePath dirOut name)
  else disk

/-- `process_directory`, with what `readdir` returns. -/
def processDirectory (dirIn dirOut : Bytes) (entries : List Bytes) (disk : Disk δ) : Disk δ :=
  match dirOf dirIn with
  | some _ => entries.foldl (processEntry os dirOf dirIn dirOut) disk
  | none => disk

/-- With regard to the ending, the entries are the files of the directory. -/
def Listed (entries : List Bytes) (din : δ) (files : Files δ) : Prop :=
  ∀ name, text ".txt" <:+ name → (name ∈ entries ↔ (files (din, name)).isSome)

/-- What the program should have done to the files: every output is complete,
    the inputs are as they were if the directories differ, and no output was
    written over another one. -/
structure Flipped (dirIn dirOut : Bytes) (entries : List Bytes) (din : δ) (files : Files δ) :
    Prop where
  complete : ∀ name ∈ entries, text ".txt" <:+ name → ∀ c, files (din, name) = some c →
    ∃ dout, dirOf dirOut = some dout ∧
      (processDirectory os dirOf dirIn dirOut entries ⟨files, []⟩).files (dout, name)
        = some (processFile os c)
  intact : dirOf dirOut ≠ some din → ∀ name,
    (processDirectory os dirOf dirIn dirOut entries ⟨files, []⟩).files (din, name)
      = files (din, name)
  apart : (processDirectory os dirOf dirIn dirOut entries ⟨files, []⟩).outputs.Nodup

/-- For every entry with the ending, both paths lead to its name in their
    directory, and these are different directories. -/
def Separate (dirIn dirOut : Bytes) (entries : List Bytes) (din : δ) : Prop :=
  ∀ name ∈ entries, text ".txt" <:+ name → ∃ dout, dirOf dirOut = some dout ∧ dout ≠ din ∧
    resolve dirOf (filePath dirIn name) = some (.file (din, name)) ∧
    resolve dirOf (filePath dirOut name) = some (.file (dout, name))

end Program

section Paths

variable {dirOf : Bytes → Option δ} {dir name other : Bytes}

/-- An entry is not skipped exactly if it has the ending. -/
theorem isTxt_iff : isTxt name = true ↔ text ".txt" <:+ name := by
  have hdot : (46 : UInt8) ∉ text "txt" := by decide
  rw [isTxt, beq_iff_eq]
  constructor
  · intro h
    rcases Option.map_eq_some_iff.mp h with ⟨p, hsplit, hsnd⟩
    refine ⟨p.1, ?_⟩
    rw [strrchrSplit_eq hsplit, hsnd]
    rfl
  · rintro ⟨front, rfl⟩
    change (strrchrSplit 46 (front ++ 46 :: text "txt")).map Prod.snd = _
    rw [strrchrSplit_append front hdot]
    rfl

/-- What follows the last slash is the name. -/
theorem eq_of_resolve {d : δ} (hname : (47 : UInt8) ∉ name)
    (h : resolve dirOf (dir ++ 47 :: name) = some (.file (d, other))) : name = other := by
  have hsnd : (splitPath (dir ++ 47 :: name)).2 = name := by
    rw [splitPath, strrchrSplit_append dir hname]
    cases dir <;> rfl
  rcases Option.map_eq_some_iff.mp h with ⟨d', _, hfile⟩
  rw [hsnd, target] at hfile
  split at hfile
  · cases hfile
  · exact (Prod.mk.inj (Target.file.inj hfile)).2

/-- A path that is formatted whole, or cut inside the name. -/
theorem filePath_of_short (hdir : dir.length ≤ 1022) :
    filePath dir name = dir ++ 47 :: name.take (1022 - dir.length) := by
  have hroom : 1023 - dir.length = (1022 - dir.length) + 1 := by omega
  rw [filePath, snprintf, List.take_append, List.take_of_length_le (by omega), hroom,
    List.take_succ_cons]

/-- A path that is cut before the name. -/
theorem filePath_of_long (hdir : 1023 ≤ dir.length) : filePath dir name = dir.take 1023 := by
  rw [filePath, snprintf, List.take_append_of_le_length hdir]

/-- Where the path of one entry leads to the name of another entry, so does the
    path of the latter. -/
theorem resolve_filePath_of_cut {d : δ} (hname : (47 : UInt8) ∉ name)
    (h : resolve dirOf (filePath dir name) = some (.file (d, other))) :
    resolve dirOf (filePath dir other) = some (.file (d, other)) := by
  rcases Nat.lt_or_ge 1022 dir.length with hlong | hshort
  · rw [filePath_of_long hlong] at h ⊢
    exact h
  · rw [filePath_of_short hshort] at h
    have hcut : name.take (1022 - dir.length) = other :=
      eq_of_resolve (fun hmem => hname (List.mem_of_mem_take hmem)) h
    -- What is left of a name that was cut is not cut again.
    have hkept : other.take (1022 - dir.length) = name.take (1022 - dir.length) := by
      rw [← hcut, List.take_take, Nat.min_self]
    rw [filePath_of_short hshort, hkept]
    exact h

/-- A path that fits leads to the name in the directory. -/
theorem resolve_filePath_of_fits {d : δ} (hd : dirOf dir = some d) (hdir : dir ≠ [])
    (hname : (47 : UInt8) ∉ name) (htxt : text ".txt" <:+ name)
    (hfits : dir.length + 1 + name.length ≤ 1023) :
    resolve dirOf (filePath dir name) = some (.file (d, name)) := by
  have hwhole : filePath dir name = dir ++ 47 :: name := by
    rw [filePath_of_short (by omega), List.take_of_length_le (by omega)]
  have hsplit : splitPath (dir ++ 47 :: name) = (dir, name) := by
    rw [splitPath, strrchrSplit_append dir hname]
    cases dir with
    | nil => exact absurd rfl hdir
    | cons _ _ => rfl
  have hlength : 4 ≤ name.length := htxt.length_le
  have hfile : ¬ (name = [] ∨ name = text "." ∨ name = text "..") := by
    rintro (rfl | rfl | rfl) <;> exact absurd hlength (by decide)
  rw [resolve, hwhole, hsplit, hd, Option.map_some, target, if_neg hfile]

end Paths

section Entries

section Write

variable [DecidableEq δ] {disk : Disk δ} {p q : δ × Bytes} {b : Bytes}

/-- A file is opened for writing and has a new content at the end. -/
def Disk.write (disk : Disk δ) (p : δ × Bytes) (b : Bytes) : Disk δ :=
  ⟨Function.update disk.files p (some b), disk.outputs ++ [p]⟩

theorem files_write_self : (disk.write p b).files p = some b := Function.update_self _ _ _

theorem files_write_of_ne (h : q ≠ p) : (disk.write p b).files q = disk.files q :=
  Function.update_of_ne h _ _

end Write

variable [DecidableEq δ] {os : Platform} {dirOf : Bytes → Option δ} {dirIn dirOut name : Bytes}

/-- What can be read can still be read after another opening, though it may be
    less. -/
theorem contentOf_update {files : Files δ} {t : Option (Target δ)} (p : δ × Bytes) (b : Bytes)
    (h : (contentOf files t).isSome) :
    ∃ c, contentOf (Function.update files p (some b)) t = some c := by
  cases t with
  | none => cases h
  | some t =>
      cases t with
      | directory => exact ⟨[], rfl⟩
      | file q =>
          by_cases hq : q = p
          · subst hq
            exact ⟨b, Function.update_self _ _ _⟩
          · rw [contentOf, Function.update_of_ne hq]
            exact Option.isSome_iff_exists.mp h

/-- An entry changes nothing, or it leaves the image of what it read in the
    file that it opened. -/
theorem processEntry_move (os : Platform) (dirOf : Bytes → Option δ) (dirIn dirOut : Bytes)
    (disk : Disk δ) (name : Bytes) : processEntry os dirOf dirIn dirOut disk name = disk ∨
    ∃ p c, resolve dirOf (filePath dirOut name) = some (.file p) ∧
      contentOf (Function.update disk.files p (some [])) (resolve dirOf (filePath dirIn name))
        = some c ∧
      processEntry os dirOf dirIn dirOut disk name = disk.write p (processFile os c) := by
  rw [processEntry]
  -- A name without `.txt` is skipped, and so is an input that cannot be opened.
  by_cases htxt : isTxt name = true
  · rw [if_pos htxt, processPaths]
    by_cases hread : (contentOf disk.files (resolve dirOf (filePath dirIn name))).isSome
    · rw [if_pos hread]
      split
      · rename_i p hout
        -- Opening the output has emptied it, also where the input is the same file.
        rcases contentOf_update p [] hread with ⟨c, hc⟩
        refine Or.inr ⟨p, c, hout, hc, ?_⟩
        dsimp only
        rw [hc, Option.map_some, Function.update_idem]
        rfl
      · exact Or.inl rfl
    · rw [if_neg hread]
      exact Or.inl rfl
  · rw [if_neg htxt]
    exact Or.inl rfl

/-- Where both paths lead to where they should, the image of the input is in
    the output. -/
theorem processEntry_separate {disk : Disk δ} {din dout : δ} {c : Bytes}
    (htxt : text ".txt" <:+ name)
    (hin : resolve dirOf (filePath dirIn name) = some (.file (din, name)))
    (hout : resolve dirOf (filePath dirOut name) = some (.file (dout, name)))
    (hne : dout ≠ din) (hc : disk.files (din, name) = some c) :
    processEntry os dirOf dirIn dirOut disk name = disk.write (dout, name) (processFile os c) := by
  have hother : (din, name) ≠ (dout, name) := fun h => hne (Prod.mk.inj h).1.symm
  rw [processEntry, if_pos (isTxt_iff.mpr htxt), processPaths, hin, hout]
  simp only [contentOf, hc, Option.isSome_some, if_true, Function.update_of_ne hother,
    Option.map_some, Function.update_idem]
  rfl

theorem processEntry_missing {disk : Disk δ} {din : δ}
    (hin : resolve dirOf (filePath dirIn name) = some (.file (din, name)))
    (hc : disk.files (din, name) = none) : processEntry os dirOf dirIn dirOut disk name = disk := by
  rw [processEntry, processPaths, hin, contentOf, hc, Option.isSome_none, if_neg Bool.false_ne_true,
    ite_self]

theorem processEntry_skip {disk : Disk δ} (htxt : ¬ text ".txt" <:+ name) :
    processEntry os dirOf dirIn dirOut disk name = disk := by
  rw [processEntry, if_neg (fun h => htxt (isTxt_iff.mp h))]

end Entries

section Enough

variable {os : Platform} {dirOf : Bytes → Option δ} {dirIn dirOut : Bytes} {din : δ}
  {entries : List Bytes} {files : Files δ}

/-- Where the program is after some of the entries. -/
structure Done (os : Platform) (dirOf : Bytes → Option δ) (dirOut : Bytes) (din : δ)
    (files : Files δ) (seen : List Bytes) (disk : Disk δ) : Prop where
  complete : ∀ name ∈ seen, text ".txt" <:+ name → ∀ c, files (din, name) = some c →
    ∃ dout, dirOf dirOut = some dout ∧ disk.files (dout, name) = some (processFile os c)
  intact : dirOf dirOut ≠ some din → ∀ name, disk.files (din, name) = files (din, name)
  outputs : List.Sublist (disk.outputs.map Prod.snd) seen

theorem done_skip {seen : List Bytes} {disk : Disk δ} {name : Bytes}
    (h : Done os dirOf dirOut din files seen disk)
    (hnone : text ".txt" <:+ name → files (din, name) = none) :
    Done os dirOf dirOut din files (seen ++ [name]) disk where
  complete := by
    intro n hn htxt c hc
    rcases List.mem_append.mp hn with hearlier | hlast
    · exact h.complete n hearlier htxt c hc
    · rw [List.mem_singleton.mp hlast] at htxt hc
      rw [hnone htxt] at hc
      cases hc
  intact := h.intact
  outputs := h.outputs.trans (List.sublist_append_left seen [name])

variable [DecidableEq δ]

/-- One more output, in the other directory and under another name than those
    before. -/
theorem done_write {seen : List Bytes} {disk : Disk δ} {name c : Bytes} {dout : δ}
    (h : Done os dirOf dirOut din files seen disk) (hnew : name ∉ seen)
    (hdout : dirOf dirOut = some dout) (hne : dout ≠ din) (hc : files (din, name) = some c) :
    Done os dirOf dirOut din files (seen ++ [name])
      (disk.write (dout, name) (processFile os c)) where
  complete := by
    intro n hn htxt c' hc'
    rcases List.mem_append.mp hn with hearlier | hlast
    · rcases h.complete n hearlier htxt c' hc' with ⟨d, hd, hfile⟩
      -- Names of entries differ, so the new output overwrites no earlier one.
      have hother : (d, n) ≠ (dout, name) := by
        intro heq
        rw [(Prod.mk.inj heq).2] at hearlier
        exact hnew hearlier
      exact ⟨d, hd, (files_write_of_ne hother).trans hfile⟩
    · rw [List.mem_singleton.mp hlast, hc, Option.some.injEq] at hc'
      rw [List.mem_singleton.mp hlast, ← hc']
      exact ⟨dout, hdout, files_write_self⟩
  intact := by
    intro hdiffer n
    have hother : (din, n) ≠ (dout, name) := fun heq => hne (Prod.mk.inj heq).1.symm
    exact (files_write_of_ne hother).trans (h.intact hdiffer n)
  outputs := by
    rw [Disk.write, List.map_append]
    exact h.outputs.append (List.Sublist.refl _)

/-- The entries one after another. -/
theorem done_entries (hnodup : entries.Nodup)
    (hseparate : Separate dirOf dirIn dirOut entries din) :
    Done os dirOf dirOut din files entries
      (entries.foldl (processEntry os dirOf dirIn dirOut) ⟨files, []⟩) := by
  -- By induction from the back, along the order in which the entries are read.
  induction entries using List.reverseRecOn with
  | nil =>
      exact ⟨fun _ h => absurd h List.not_mem_nil, fun _ _ => rfl, List.Sublist.refl _⟩
  | append_singleton seen name ih =>
      have hdone := ih (List.Nodup.sublist (List.sublist_append_left _ _) hnodup)
        (fun n hn => hseparate n (List.mem_append_left _ hn))
      have hnew : name ∉ seen := by
        intro hmem
        exact (List.nodup_append.mp hnodup).2.2 name hmem name (List.mem_singleton_self _) rfl
      rw [List.foldl_append, List.foldl_cons, List.foldl_nil]
      by_cases htxt : text ".txt" <:+ name
      · rcases hseparate name (List.mem_append_right _ (List.mem_singleton_self _)) htxt with
          ⟨dout, hdout, hne, hin, hout⟩
        have hdiffer : dirOf dirOut ≠ some din := by
          rw [hdout]
          exact fun h => hne (Option.some.inj h)
        -- The input is as it was, since all outputs are in the other directory.
        have hkept := hdone.intact hdiffer name
        cases hc : files (din, name) with
        | some c =>
            rw [processEntry_separate htxt hin hout hne (hkept.trans hc)]
            exact done_write hdone hnew hdout hne hc
        | none =>
            rw [processEntry_missing hin (hkept.trans hc)]
            exact done_skip hdone fun _ => hc
      · rw [processEntry_skip htxt]
        exact done_skip hdone fun h => absurd h htxt

theorem flipped_of_separate (hdin : dirOf dirIn = some din) (hnodup : entries.Nodup)
    (hseparate : Separate dirOf dirIn dirOut entries din) :
    Flipped os dirOf dirIn dirOut entries din files := by
  have hdone := @done_entries _ os dirOf dirIn dirOut din entries files _ hnodup hseparate
  have hrun : processDirectory os dirOf dirIn dirOut entries ⟨files, []⟩
      = entries.foldl (processEntry os dirOf dirIn dirOut) ⟨files, []⟩ := by
    rw [processDirectory, hdin]
  refine ⟨?_, ?_, ?_⟩
  · rw [hrun]
    exact hdone.complete
  · rw [hrun]
    exact hdone.intact
  · rw [hrun]
    exact List.Nodup.of_map _ (hdone.outputs.nodup hnodup)

end Enough

section Needed

variable [DecidableEq δ] {os : Platform} {dirOf : Bytes → Option δ} {dirIn dirOut : Bytes} {din : δ}
  {entries : List Bytes} {files : Files δ} {p : δ × Bytes} {name : Bytes}

/-- A file that no path of an output leads to stays as it is. -/
theorem files_of_not_written
    (hout : ∀ e ∈ entries, resolve dirOf (filePath dirOut e) ≠ some (.file p)) :
    (entries.foldl (processEntry os dirOf dirIn dirOut) ⟨files, []⟩).files p = files p := by
  refine List.foldlRecOn (motive := fun disk : Disk δ => disk.files p = files p) _ _ rfl ?_
  intro disk hdisk e he
  rcases processEntry_move os dirOf dirIn dirOut disk e with hsame | ⟨q, c, hq, _, hmove⟩
  · rw [hsame]
    exact hdisk
  · rw [hmove]
    refine (files_write_of_ne fun hpq => hout e he ?_).trans hdisk
    rw [hq, hpq]

/-- If all other files are empty, and no path of an input leads to this one,
    nothing but its content is ever anywhere. -/
theorem eq_of_not_read {b : Bytes} (hfiles : ∀ q c, files q = some c → c = [] ∨ c = b ∧ q = p)
    (hin : ∀ e ∈ entries, resolve dirOf (filePath dirIn e) ≠ some (.file p)) {q : δ × Bytes}
    {c : Bytes}
    (hc : (entries.foldl (processEntry os dirOf dirIn dirOut) ⟨files, []⟩).files q = some c) :
    c = [] ∨ c = b := by
  -- Along the entries: a file is empty, or it is the one with the content.
  have hrun : ∀ q c, (entries.foldl (processEntry os dirOf dirIn dirOut) ⟨files, []⟩).files q
      = some c → c = [] ∨ c = b ∧ q = p := by
    refine List.foldlRecOn (motive := fun disk : Disk δ =>
      ∀ q c, disk.files q = some c → c = [] ∨ c = b ∧ q = p) _ _ hfiles ?_
    intro disk hdisk e he
    rcases processEntry_move os dirOf dirIn dirOut disk e with hsame | ⟨q, c, _, hread, hmove⟩
    · rw [hsame]
      exact hdisk
    · -- What was read is empty: the one file that is not has not been opened.
      have hempty : c = [] := by
        cases htarget : resolve dirOf (filePath dirIn e) with
        | none =>
            rw [htarget] at hread
            cases hread
        | some t =>
            rw [htarget] at hread
            cases t with
            | directory => exact (Option.some.inj hread).symm
            | file r =>
                by_cases hr : r = q
                · rw [contentOf, hr, Function.update_self] at hread
                  exact (Option.some.inj hread).symm
                · rw [contentOf, Function.update_of_ne hr] at hread
                  rcases hdisk r c hread with hnil | ⟨_, hp⟩
                  · exact hnil
                  · rw [hp] at htarget
                    exact absurd htarget (hin e he)
      rw [hmove]
      intro q' c' hc'
      by_cases hq' : q' = q
      · rw [hq', files_write_self, Option.some.injEq, hempty] at hc'
        exact Or.inl hc'.symm
      · rw [files_write_of_ne hq'] at hc'
        exact hdisk q' c' hc'
  rcases hrun q c hc with hnil | ⟨hb, _⟩
  · exact Or.inl hnil
  · exact Or.inr hb

theorem isSome_processEntry {disk : Disk δ} (h : (disk.files p).isSome) (e : Bytes) :
    ((processEntry os dirOf dirIn dirOut disk e).files p).isSome := by
  rcases processEntry_move os dirOf dirIn dirOut disk e with hsame | ⟨q, c, _, _, hmove⟩
  · rw [hsame]
    exact h
  · rw [hmove]
    by_cases hp : p = q
    · rw [hp, files_write_self]
      rfl
    · rw [files_write_of_ne hp]
      exact h

/-- A file that was opened as an output and is empty stays empty, unless it is
    opened once more. -/
theorem empty_of_nodup {disk : Disk δ} (hmem : p ∈ disk.outputs) (hempty : disk.files p = some [])
    (hnodup : (entries.foldl (processEntry os dirOf dirIn dirOut) disk).outputs.Nodup) :
    (entries.foldl (processEntry os dirOf dirIn dirOut) disk).files p = some [] := by
  have hrun : p ∈ (entries.foldl (processEntry os dirOf dirIn dirOut) disk).outputs ∧
      ((entries.foldl (processEntry os dirOf dirIn dirOut) disk).outputs.Nodup →
        (entries.foldl (processEntry os dirOf dirIn dirOut) disk).files p = some []) := by
    refine List.foldlRecOn (motive := fun disk : Disk δ =>
      p ∈ disk.outputs ∧ (disk.outputs.Nodup → disk.files p = some [])) _ _
        ⟨hmem, fun _ => hempty⟩ ?_
    intro disk hdisk e _
    rcases processEntry_move os dirOf dirIn dirOut disk e with hsame | ⟨q, c, _, _, hmove⟩
    · rw [hsame]
      exact hdisk
    · rw [hmove]
      refine ⟨List.mem_append_left _ hdisk.1, fun hnodup => ?_⟩
      have hparts := List.nodup_append.mp hnodup
      have hother : p ≠ q := fun hpq => hparts.2.2 p hdisk.1 q (List.mem_singleton_self q) hpq
      exact (files_write_of_ne hother).trans (hdisk.2 hparts.1)
  exact hrun.2 hnodup

/-- An input that is opened as its own output ends up empty. -/
theorem empty_of_same (hmem : name ∈ entries) (htxt : text ".txt" <:+ name)
    (hin : resolve dirOf (filePath dirIn name) = some (.file p))
    (hout : resolve dirOf (filePath dirOut name) = some (.file p)) (hfile : (files p).isSome)
    (hnodup : (entries.foldl (processEntry os dirOf dirIn dirOut) ⟨files, []⟩).outputs.Nodup) :
    (entries.foldl (processEntry os dirOf dirIn dirOut) ⟨files, []⟩).files p = some [] := by
  rcases List.append_of_mem hmem with ⟨before, after, rfl⟩
  rw [List.foldl_append, List.foldl_cons] at hnodup ⊢
  have hthere : ((before.foldl (processEntry os dirOf dirIn dirOut) ⟨files, []⟩).files p).isSome :=
    List.foldlRecOn (motive := fun disk : Disk δ => (disk.files p).isSome) _ _ hfile
      (fun disk h e _ => isSome_processEntry h e)
  generalize before.foldl (processEntry os dirOf dirIn dirOut) ⟨files, []⟩ = disk at hthere hnodup ⊢
  have hmove : processEntry os dirOf dirIn dirOut disk name = disk.write p [] := by
    rw [processEntry, if_pos (isTxt_iff.mpr htxt), processPaths, hin, hout]
    simp only [contentOf, hthere, if_true, Function.update_self, Function.update_idem,
      Option.map_some]
    rfl
  rw [hmove] at hnodup ⊢
  exact empty_of_nodup (List.mem_append_right _ (List.mem_singleton_self p))
    files_write_self hnodup

/-- Files with the given names, all of them empty but one. -/
def filesWith (din : δ) (entries : List Bytes) (name b : Bytes) : Files δ := fun q =>
  if q.1 = din ∧ q.2 ∈ entries then some (if q.2 = name then b else []) else none

theorem listed_filesWith (name b : Bytes) : Listed entries din (filesWith din entries name b) := by
  intro n _
  rw [filesWith]
  by_cases hn : n ∈ entries
  · rw [if_pos ⟨rfl, hn⟩]
    exact iff_of_true hn rfl
  · rw [if_neg (fun h => hn h.2)]
    exact iff_of_false hn Bool.false_ne_true

theorem filesWith_self (hmem : name ∈ entries) (b : Bytes) :
    filesWith din entries name b (din, name) = some b := by
  rw [filesWith, if_pos ⟨rfl, hmem⟩, if_pos rfl]

theorem eq_of_filesWith {b : Bytes} (q : δ × Bytes) (c : Bytes)
    (h : filesWith din entries name b q = some c) : c = [] ∨ c = b ∧ q = (din, name) := by
  rw [filesWith] at h
  split at h
  · rename_i hq
    rw [Option.some.injEq] at h
    split at h
    · rename_i hname
      exact Or.inr ⟨h.symm, Prod.ext hq.1 hname⟩
    · exact Or.inl h.symm
  · cases h

/-- Only a separate output is complete whatever the files are. -/
theorem separate_of_flipped (hdin : dirOf dirIn = some din)
    (hnames : ∀ e ∈ entries, (47 : UInt8) ∉ e)
    (hflipped : ∀ files, Listed entries din files →
      Flipped os dirOf dirIn dirOut entries din files) :
    Separate dirOf dirIn dirOut entries din := by
  intro name hmem htxt
  -- A content that is not its own image, and nothing else to read.
  have hself : filesWith din entries name (text "ab") (din, name) = some (text "ab") :=
    filesWith_self hmem _
  have himage : processFile os (text "ab") = text "ba" := by
    have hchunks : getlines [] (text "ab") = [text "ab"] := by decide
    rw [processFile, hchunks, List.flatMap_singleton, written_of_le os (by decide)]
    decide
  have hdone := hflipped _ (listed_filesWith name (text "ab"))
  have hrun : ∀ files, processDirectory os dirOf dirIn dirOut entries ⟨files, []⟩
      = entries.foldl (processEntry os dirOf dirIn dirOut) ⟨files, []⟩ := by
    intro files
    rw [processDirectory, hdin]
  -- By what is promised this file's output is the image.
  rcases hdone.complete name hmem htxt _ hself with ⟨dout, hdout, hfile⟩
  have hapart := hdone.apart
  rw [hrun] at hfile hapart
  rw [himage] at hfile
  -- The image is no content that was there, so the input has been read.
  have hin : resolve dirOf (filePath dirIn name) = some (.file (din, name)) := by
    by_contra hin
    have hnot : ∀ e ∈ entries, resolve dirOf (filePath dirIn e) ≠ some (.file (din, name)) :=
      fun e he h => hin (resolve_filePath_of_cut (hnames e he) h)
    rcases eq_of_not_read eq_of_filesWith hnot hfile with h | h
    · exact absurd h (by decide)
    · exact absurd h (by decide)
  -- And the output has been written.
  have hout : resolve dirOf (filePath dirOut name) = some (.file (dout, name)) := by
    by_contra hout
    have hnot : ∀ e ∈ entries, resolve dirOf (filePath dirOut e) ≠ some (.file (dout, name)) :=
      fun e he h => hout (resolve_filePath_of_cut (hnames e he) h)
    rw [files_of_not_written hnot] at hfile
    rcases eq_of_filesWith _ _ hfile with h | h
    · exact absurd h (by decide)
    · exact absurd h.1 (by decide)
  refine ⟨dout, hdout, fun hsame => ?_, hin, hout⟩
  rw [hsame] at hout hfile
  have hthere : (filesWith din entries name (text "ab") (din, name)).isSome := by
    rw [hself]
    rfl
  -- In one directory the output would be its own input, emptied before it is read.
  rw [empty_of_same hmem htxt hin hout hthere hapart, Option.some.injEq] at hfile
  exact absurd hfile (by decide)

end Needed

section Result

variable {os : Platform} {dirOf : Bytes → Option δ} {dirIn dirOut : Bytes} {din dout : δ}
  {entries : List Bytes}

/-- Different directories and paths that fit the buffers. -/
theorem separate_of_fits (hdin : dirOf dirIn = some din) (hdout : dirOf dirOut = some dout)
    (hne : dout ≠ din) (hin : dirIn ≠ []) (hout : dirOut ≠ [])
    (hnames : ∀ e ∈ entries, (47 : UInt8) ∉ e ∧ dirIn.length + 1 + e.length ≤ 1023 ∧
      dirOut.length + 1 + e.length ≤ 1023) : Separate dirOf dirIn dirOut entries din := by
  intro name hmem htxt
  rcases hnames name hmem with ⟨hslash, hfitsIn, hfitsOut⟩
  exact ⟨dout, hdout, hne, resolve_filePath_of_fits hdin hin hslash htxt hfitsIn,
    resolve_filePath_of_fits hdout hout hslash htxt hfitsOut⟩

variable [DecidableEq δ]

/-- The directory is mirrored, whatever the files contain, exactly if all paths
    lead to where they should, and the directories are different ones. -/
theorem flipped_iff (hdin : dirOf dirIn = some din) (hnames : ∀ e ∈ entries, (47 : UInt8) ∉ e)
    (hnodup : entries.Nodup) :
    (∀ files, Listed entries din files → Flipped os dirOf dirIn dirOut entries din files) ↔
      Separate dirOf dirIn dirOut entries din := by
  constructor
  · exact separate_of_flipped hdin hnames
  · intro hseparate files _
    exact flipped_of_separate hdin hnodup hseparate

/-- Two directories, for tests. -/
def twoDirs (path : Bytes) : Option Nat :=
  if path = text "in" then some 0 else if path = text "out" then some 1 else none

theorem flipped_usual :
    Flipped .silent twoDirs (text "in") (text "out") [text "a.txt", text "b.txt", text "c"] 0
      (filesWith 0 [text "a.txt", text "b.txt", text "c"] (text "a.txt") (text "ab")) :=
  (flipped_iff (by decide) (by decide) (by decide)).mpr
    (separate_of_fits (by decide) (show twoDirs (text "out") = some 1 by decide) (by decide)
      (by decide) (by decide) (by decide)) _ (listed_filesWith _ _)

/-- With the directory of the inputs for that of the outputs, the file is
    lost. -/
theorem same_directory_empties : ¬ ∃ os : Platform, ∀ files, Listed [text "a.txt"] 0 files →
    Flipped os twoDirs (text "in") (text "in") [text "a.txt"] 0 files := by
  rintro ⟨os, h⟩
  rcases separate_of_flipped (by decide) (by decide) h (text "a.txt") (by decide) (by decide) with
    ⟨dout, hdout, hne, _⟩
  have hzero : dout = 0 := (Option.some.inj hdout).symm
  exact hne hzero

end Result

end Flipper

end OsLabs
