import JniHeader.Proofs.Files.Changes
import JniHeader.Proofs.Files.MadeDirectories

/-!
# Obstructed paths

Without symbolic links the directories of a path cannot be made only if the path names no
file or is too deep, a name is too long, the system refuses to make one or to look a name
up, or a file stands in the place of a directory. Where a file stands in the way in the
end, every later try fails too and makes nothing, although the first may have made some
directories: those that were missing before two dots.
-/
namespace JniHeader

namespace FileSystem

variable {fs fs' : FileSystem} {p : FilePath} {e : SystemError} {problem : SystemProblem}
  {here d : Location} {parts rest : List Text} {name : Text} {levels : ℕ}

theorem find_false_of_linkFree (hlinks : fs.LinkFree) (p : FilePath) :
    fs.find false p = fs.find true p := by
  apply find_congr
  rw [walk_of_linkFree hlinks, walk_of_linkFree hlinks]

/-- Without links a directory is made where its path leads to a vacant place that may be filled,
and nowhere else. -/
theorem ensureDirectory_of_linkFree (hlinks : fs.LinkFree) (p : FilePath) :
    fs.ensureDirectory p =
      match fs.find true p with
      | .ok (.vacant parent name) =>
        match fs.limits.making (name :: parent) with
        | some r => (fs, .error (.file (.system ⟨.refused r, some p⟩)))
        | none => (fs.put (name :: parent) .directory, .ok ())
      | .ok (.directory _) => (fs, .ok ())
      | .ok _ => (fs, .error (.file (.system ⟨.exists, some p⟩)))
      | .error e => (fs, .error (.file e)) := by
  rw [ensureDirectory, makeDirectory, find_false_of_linkFree hlinks]
  cases hfind : fs.find true p with
  | ok place =>
      cases place with
      | directory d => simp only [isDirectory, look, hfind]; rfl
      | file location f => simp only [isDirectory, look, hfind]; rfl
      | link location target => simp only [isDirectory, look, hfind]; rfl
      | vacant parent name =>
          cases hmaking : fs.limits.making (name :: parent) with
          | some r => simp only [isDirectory, look, hfind, hmaking]; rfl
          | none => simp only [hmaking]
  | error e =>
      cases e with
      | name e => rfl
      | system e =>
          simp only [isDirectory, look, hfind]
          by_cases habsent : e.problem.isAbsence = true
          · simp only [habsent, if_true]
            split_ifs <;> rfl
          · simp only [habsent]
            split_ifs <;> rfl

/-- Without links a walk fails for a barrier, for a missing directory or for a file in the place of
one. -/
theorem plainWalk_problem (hlinks : fs.LinkFree)
    (h : fs.plainWalk here parts = .error problem) :
    problem.isBarrier = true ∨ problem = .notFound ∨ problem = .notDirectory := by
  induction parts generalizing here with
  | nil => cases h
  | cons name rest ih =>
      rw [plainWalk, walkWith] at h
      split at h
      · next hbarred =>
          rw [Except.error.inj h] at hbarred
          exact .inl (isBarrier_of_barrier? hbarred)
      · split at h
        · exact ih h
        · split at h
          · split at h
            · cases h
            · exact .inr (.inl (Except.error.inj h).symm)
          · exact ih h
          · split at h
            · cases h
            · exact .inr (.inr (Except.error.inj h).symm)
          · next target htarget => exact absurd htarget (hlinks.entryAt_ne_link _ target)

/-- A walk comes to a file before its end, or at its end. -/
def StopsAtFile (r : Except SystemProblem Place) : Prop :=
  r = .error .notDirectory ∨ ∃ location f, r = .ok (.file location f)

/-- What comes behind a file is not a directory. -/
theorem StopsAtFile.append (h : StopsAtFile (fs.plainWalk here parts)) (hrest : rest ≠ []) :
    fs.plainWalk here (parts ++ rest) = .error .notDirectory := by
  induction parts generalizing here with
  | nil => rcases h with h | ⟨location, f, h⟩ <;> cases h
  | cons name parts ih =>
      rw [plainWalk, walkWith] at h
      rw [List.cons_append, plainWalk, walkWith]
      split at h
      · next hbarred =>
          rcases h with h | ⟨location, f, h⟩
          · rw [Except.error.inj h] at hbarred
            cases isBarrier_of_barrier? hbarred
          · cases h
      · split at h
        · next hdots =>
            rw [if_pos hdots]
            exact ih h
        · next hdots =>
            rw [if_neg hdots]
            have hmore : (parts ++ rest).isEmpty = false := by simp [hrest]
            split at h
            · split at h
              · rcases h with h | ⟨location, f, h⟩ <;> cases h
              · rcases h with h | ⟨location, f, h⟩ <;> cases h
            · exact ih h
            · simp only [hmore]
              rfl
            · rcases h with h | ⟨location, f, h⟩ <;> simp at h

/-- A file stands on the way along a path or at its end. -/
def Obstructed (fs : FileSystem) (p : FilePath) : Prop :=
  StopsAtFile (fs.plainWalk (startOf p fs.workingDirectory) p.parts)

theorem find_system (hlinks : fs.LinkFree) (h : fs.find true p = .error (.system e)) :
    e.problem.isBarrier = true ∨
      unusableName? p.text = none ∧ ¬ maxPathSize < p.text.nameSize ∧
        fs.plainWalk (startOf p fs.workingDirectory) p.parts = .error e.problem := by
  unfold find at h
  rw [walk_of_linkFree hlinks] at h
  split at h
  · cases h
  · next husable =>
      split at h
      · next hsize =>
          obtain rfl := FileError.system.inj (Except.error.inj h)
          exact .inl rfl
      · next hsize =>
          split at h
          · cases h
          · next problem hwalk =>
              obtain rfl := FileError.system.inj (Except.error.inj h)
              exact .inr ⟨husable, hsize, hwalk⟩

/-- A directory that cannot be made is behind a barrier, obstructed, or in a directory that is
missing. -/
theorem ensureDirectory_error (hlinks : fs.LinkFree)
    (h : (fs.ensureDirectory p).2 = .error (.file (.system e))) :
    e.problem.isBarrier = true ∨ e.problem ≠ .notFound ∧ Obstructed fs p ∨
      e.problem = .notFound ∧ unusableName? p.text = none ∧ ¬ maxPathSize < p.text.nameSize ∧
        fs.plainWalk (startOf p fs.workingDirectory) p.parts = .error .notFound := by
  rw [ensureDirectory_of_linkFree hlinks] at h
  split at h
  · split at h
    · obtain rfl := FileError.system.inj (DirectoryError.file.inj (Except.error.inj h))
      exact .inl rfl
    · cases h
  · cases h
  · next place hvacant hdirectory hfind =>
      obtain rfl := FileError.system.inj (DirectoryError.file.inj (Except.error.inj h))
      have hwalk := plainWalk_of_find hlinks hfind
      refine .inr (.inl ⟨SystemProblem.noConfusion, .inr ?_⟩)
      cases place with
      | directory d => exact absurd rfl (hdirectory d)
      | file location f => exact ⟨location, f, hwalk⟩
      | link location target =>
          rcases directory_or_ends_of_plainWalk hwalk with ⟨d, hd⟩ | ⟨d, name, hends⟩
          · cases hd
          · cases hends
      | vacant parent name => exact absurd rfl (hvacant parent name)
  · next hfind =>
      rw [DirectoryError.file.inj (Except.error.inj h)] at hfind
      rcases find_system hlinks hfind with hlong | ⟨husable, hsize, hwalk⟩
      · exact .inl hlong
      · rcases plainWalk_problem hlinks hwalk with hproblem | hproblem | hproblem
        · exact .inl hproblem
        · rw [hproblem] at hwalk ⊢
          exact .inr (.inr ⟨rfl, husable, hsize, hwalk⟩)
        · rw [hproblem] at hwalk ⊢
          exact .inr (.inl ⟨SystemProblem.noConfusion, .inl hwalk⟩)

theorem Missing.walk (hlinks : fs.LinkFree) (h : Missing fs p) :
    unusableName? p.text = none ∧ ¬ maxPathSize < p.text.nameSize ∧
      fs.plainWalk (startOf p fs.workingDirectory) p.parts = .error .notFound := by
  obtain ⟨e, he, hproblem⟩ := h
  rcases ensureDirectory_error hlinks (congrArg Prod.snd he) with hlong | ⟨hne, -⟩ | ⟨-, hwalk⟩
  · rw [hproblem] at hlong
    cases hlong
  · exact absurd hproblem hne
  · exact hwalk

/-- The directories of a path cannot be made although some of them can. -/
def HalfMade (fs : FileSystem) (p : FilePath) : Prop :=
  (∃ e, (fs.makeDirectories p).2 = .error e) ∧ (fs.makeDirectories p).1 ≠ fs

/-- Directories are half made only where one was missing. -/
theorem HalfMade.missing (h : HalfMade fs p) : Missing fs p := by
  obtain ⟨⟨e, he⟩, hchanged⟩ := h
  by_contra hnot
  rw [(ensured_makeDirectories fs p).eq_ensureDirectory hnot] at he hchanged
  exact hchanged (ensureDirectory_unchanged he)

end FileSystem

end JniHeader
