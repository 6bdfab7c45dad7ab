import Mathlib

/-!
# Trees of directories and files

A tree holds files and directories under paths, which are lists of names from the root. Every
directory above a file or a directory is there, and no path is both.

## Implementation notes

The root itself is the empty path, and may be missing. Links, permissions and the lengths of
names are left out.
-/

namespace Dalston.Foundation

/-- The errors of the operations on files. -/
inductive FileError
  | fileNotFound | fileExists | notADirectory | isADirectory
  deriving DecidableEq

structure FileTree (N B : Type) where
  files : List (List N × B)
  dirs : List (List N)
  parents : ∀ p, p ∈ dirs ∨ p ∈ files.map Prod.fst → ∀ d, d <+: p → d ≠ p → d ∈ dirs
  apart : ∀ p ∈ dirs, p ∉ files.map Prod.fst

namespace FileTree

variable {N B : Type} [DecidableEq N]

/-- The contents of the file at a path. -/
def file? (t : FileTree N B) (p : List N) : Option B :=
  (t.files.find? fun entry => entry.1 = p).map Prod.snd

def isFile (t : FileTree N B) (p : List N) : Bool := (t.file? p).isSome

def isDir (t : FileTree N B) (p : List N) : Bool := decide (p ∈ t.dirs)

/-- The paths above a path, from the root. -/
def above (p : List N) : List (List N) := p.inits.filter (· ≠ p)

/-- There is an entry in the directory. -/
def hasEntry (t : FileTree N B) (p : List N) : Bool :=
  (t.dirs ++ t.files.map Prod.fst).any fun q => p <+: q && q.length = p.length + 1

omit [DecidableEq N] in
/-- A tree without entries, with or without its root. -/
def empty (root : Bool) : FileTree N B where
  files := []
  dirs := if root then [[]] else []
  parents := by
    rintro p (hp | hp) d hd hne
    · cases root with
      | false => cases hp
      | true =>
          rw [List.mem_singleton.mp hp] at hd hne
          exact absurd (List.prefix_nil.mp hd) hne
    · cases hp
  apart := by simp

theorem mem_above {p d : List N} : d ∈ above p ↔ d <+: p ∧ d ≠ p := by
  simp [above]

theorem isFile_iff {t : FileTree N B} {p : List N} :
    t.isFile p = true ↔ p ∈ t.files.map Prod.fst := by
  rw [isFile, file?, Option.isSome_map, List.find?_isSome, List.mem_map]
  simp only [decide_eq_true_eq]

theorem isDir_iff {t : FileTree N B} {p : List N} : t.isDir p = true ↔ p ∈ t.dirs := by
  rw [isDir, decide_eq_true_eq]

theorem isFile_eq_false_of_isDir {t : FileTree N B} {p : List N} (h : t.isDir p = true) :
    t.isFile p = false := by
  rw [Bool.eq_false_iff, ne_eq, isFile_iff]
  exact t.apart p (isDir_iff.mp h)

/-- A path above a file is a directory. -/
theorem isDir_of_above {t : FileTree N B} {p d : List N} (h : t.isFile p = true)
    (hd : d <+: p) (hne : d ≠ p) : t.isDir d = true :=
  isDir_iff.mpr (t.parents p (Or.inr (isFile_iff.mp h)) d hd hne)

/-- The file of a path is below every file that is above the path. -/
theorem not_isFile_of_above {t : FileTree N B} {p d : List N} (h : t.isFile d = true)
    (hd : d <+: p) (hne : d ≠ p) : t.isFile p = false := by
  cases hp : t.isFile p with
  | false => rfl
  | true =>
      have hdir := isFile_eq_false_of_isDir (isDir_of_above hp hd hne)
      rw [h] at hdir
      cases hdir

/-- A directory above a file has an entry. -/
theorem hasEntry_of_above {t : FileTree N B} {p d : List N} (h : t.isFile p = true)
    (hd : d <+: p) (hne : d ≠ p) : t.hasEntry d = true := by
  obtain ⟨rest, rfl⟩ := hd
  cases rest with
  | nil => simp at hne
  | cons name rest =>
      have hentry : d ++ [name] ∈ t.dirs ++ t.files.map Prod.fst := by
        rw [List.mem_append]
        by_cases hlast : rest = []
        · subst hlast
          exact Or.inr (isFile_iff.mp h)
        · left
          refine isDir_iff.mp (isDir_of_above h ⟨rest, by simp⟩ ?_)
          simpa using hlast
      rw [hasEntry, List.any_eq_true]
      exact ⟨d ++ [name], hentry, by simp⟩

section Operations

/-- The files whose paths pass a test. -/
def keepFiles (files : List (List N × B)) (keep : List N → Bool) : List (List N × B) :=
  files.filter fun entry => keep entry.1

omit [DecidableEq N] in
theorem mem_keepFiles {files : List (List N × B)} {keep : List N → Bool} {q : List N} :
    q ∈ (keepFiles files keep).map Prod.fst ↔ keep q = true ∧ q ∈ files.map Prod.fst := by
  simp only [keepFiles, List.mem_map, List.mem_filter]
  constructor
  · rintro ⟨entry, ⟨hentry, hkeep⟩, rfl⟩
    exact ⟨hkeep, entry, hentry, rfl⟩
  · rintro ⟨hkeep, entry, hentry, rfl⟩
    exact ⟨entry, ⟨hentry, hkeep⟩, rfl⟩

theorem find?_keepFiles {files : List (List N × B)} {keep : List N → Bool} (q : List N) :
    ((keepFiles files keep).find? fun entry => entry.1 = q) =
      if keep q = true then files.find? fun entry => entry.1 = q else none := by
  rw [keepFiles]
  induction files with
  | nil => simp
  | cons entry files ih =>
      by_cases hq : entry.1 = q
      · cases hkeep : keep entry.1 with
        | true => simp [hkeep, ← hq]
        | false =>
            rw [hq] at hkeep
            simp [hq, hkeep, ih]
      · cases hkeep : keep entry.1 with
        | true => simp [hkeep, hq, ih]
        | false => simp [hkeep, hq, ih]

/-- A file can stand at the path: no directory does, and no file stands above it. -/
structure Free (t : FileTree N B) (p : List N) : Prop where
  above : ∀ d ∈ above p, t.isFile d = false
  isDir : t.isDir p = false

/-- The tree with a file written in a directory that is made for it. -/
def withFile (t : FileTree N B) (p : List N) (b : B) (h : t.Free p) : FileTree N B where
  files := (p, b) :: keepFiles t.files fun q => q ≠ p
  dirs := t.dirs ++ above p
  parents := by
    have hold (q : List N) (hq : q ∈ t.dirs ∨ q ∈ t.files.map Prod.fst) (d : List N)
        (hd : d <+: q) (hne : d ≠ q) : d ∈ t.dirs ++ above p :=
      List.mem_append_left _ (t.parents q hq d hd hne)
    intro q hq d hd hne
    rw [List.mem_append, List.map_cons, List.mem_cons, mem_keepFiles] at hq
    obtain (hq | hq) | rfl | ⟨-, hq⟩ := hq
    · exact hold q (Or.inl hq) d hd hne
    · obtain ⟨hqp, hqne⟩ := mem_above.mp hq
      refine List.mem_append_right _ (mem_above.mpr ⟨hd.trans hqp, ?_⟩)
      rintro rfl
      exact hqne (hqp.eq_of_length_le hd.length_le)
    · exact List.mem_append_right _ (mem_above.mpr ⟨hd, hne⟩)
    · exact hold q (Or.inr hq) d hd hne
  apart := by
    intro q hq
    rw [List.map_cons, List.mem_cons, mem_keepFiles, not_or, not_and]
    obtain hold | hnew := List.mem_append.mp hq
    · refine ⟨?_, fun _ => t.apart q hold⟩
      rintro rfl
      have hdir := h.isDir
      rw [isDir_iff.mpr hold] at hdir
      cases hdir
    · refine ⟨(mem_above.mp hnew).2, fun _ hfile => ?_⟩
      have hnot := h.above q hnew
      rw [isFile_iff.mpr hfile] at hnot
      cases hnot

/-- `path.parent.mkdir(parents=True, exist_ok=True)` and `path.write_bytes(…)`. -/
def write (t : FileTree N B) (p : List N) (b : B) : Except FileError (FileTree N B) :=
  if habove : ∀ d ∈ FileTree.above p, t.isFile d = false then
    if hdir : t.isDir p = false then .ok (t.withFile p b ⟨habove, hdir⟩)
    else .error .isADirectory
  else if t.isFile p.dropLast then .error .fileExists
  else .error .notADirectory

/-- `path.read_bytes()`. -/
def read (t : FileTree N B) (p : List N) : Except FileError B :=
  match t.file? p with
  | some b => .ok b
  | none =>
      if t.isDir p then .error .isADirectory
      else if (above p).any t.isFile then .error .notADirectory
      else .error .fileNotFound

/-- `path.exists()`. -/
def pathExists (t : FileTree N B) (p : List N) : Bool := t.isFile p || t.isDir p

/-- `path.unlink()`. -/
def unlink (t : FileTree N B) (p : List N) : FileTree N B where
  files := keepFiles t.files fun q => q ≠ p
  dirs := t.dirs
  parents := by
    intro q hq
    rw [mem_keepFiles] at hq
    exact t.parents q (hq.imp_right And.right)
  apart := by
    intro q hq
    rw [mem_keepFiles, not_and]
    exact fun _ => t.apart q hq

/-- `shutil.rmtree(path)`. -/
def rmtree (t : FileTree N B) (p : List N) : FileTree N B where
  files := keepFiles t.files fun q => !(p <+: q)
  dirs := t.dirs.filter fun q => !(p <+: q)
  parents := by
    intro q hq d hd hne
    have hkeep : ¬ p <+: q ∧ (q ∈ t.dirs ∨ q ∈ t.files.map Prod.fst) := by
      rw [List.mem_filter, mem_keepFiles] at hq
      simpa [and_comm, ← and_or_left] using hq
    rw [List.mem_filter]
    refine ⟨t.parents q hkeep.2 d hd hne, ?_⟩
    simpa using fun hp : p <+: d => hkeep.1 (hp.trans hd)
  apart := by
    intro q hq
    rw [mem_keepFiles, not_and]
    exact fun _ => t.apart q (List.mem_of_mem_filter hq)

variable {t : FileTree N B} {p q : List N} {b : B}

theorem write_of_free (h : t.Free p) : t.write p b = .ok (t.withFile p b h) := by
  rw [write, dif_pos h.above, dif_pos h.isDir]

theorem write_of_not_free (h : ¬ t.Free p) : ∃ e, t.write p b = .error e := by
  rw [write]
  split_ifs with habove hdir
  · exact absurd ⟨habove, hdir⟩ h
  · exact ⟨_, rfl⟩
  · exact ⟨_, rfl⟩
  · exact ⟨_, rfl⟩

theorem read_of_file? (h : t.file? p = some b) : t.read p = .ok b := by
  rw [read, h]

/-- A path without a file is free when its file is not found. -/
theorem read_eq_fileNotFound_iff (h : t.file? p = none) :
    t.read p = .error .fileNotFound ↔ t.Free p := by
  rw [read, h]
  simp only
  split_ifs with hdir habove
  · refine iff_of_false (by simp) fun hfree => ?_
    simp [hfree.isDir] at hdir
  · refine iff_of_false (by simp) fun hfree => ?_
    obtain ⟨d, hd, hfile⟩ := List.any_eq_true.mp habove
    simp [hfree.above d hd] at hfile
  · exact iff_of_true rfl ⟨by simpa using habove, by simpa using hdir⟩

/-- A file is free to be written again. -/
theorem free_of_isFile (h : t.isFile p = true) : t.Free p := by
  constructor
  · intro d hd
    obtain ⟨hdp, hne⟩ := mem_above.mp hd
    cases hfile : t.isFile d with
    | false => rfl
    | true =>
        rw [not_isFile_of_above hfile hdp hne] at h
        cases h
  · cases hdir : t.isDir p with
    | false => rfl
    | true =>
        rw [isFile_eq_false_of_isDir hdir] at h
        cases h

theorem file?_withFile {h : t.Free p} :
    (t.withFile p b h).file? q = if q = p then some b else t.file? q := by
  rw [file?, withFile, List.find?_cons]
  by_cases hq : p = q
  · simp [hq]
  · simp [hq, Ne.symm hq, file?, find?_keepFiles]

theorem file?_unlink : (t.unlink p).file? q = if q = p then none else t.file? q := by
  rw [file?, unlink, find?_keepFiles]
  by_cases hq : q = p
  · simp [hq]
  · simp [hq, file?]

theorem file?_rmtree : (t.rmtree p).file? q = if p <+: q then none else t.file? q := by
  rw [file?, rmtree, find?_keepFiles]
  by_cases hq : p <+: q
  · simp [hq]
  · simp [hq, file?]

end Operations

end FileTree

end Dalston.Foundation
