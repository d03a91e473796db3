import JniHeader.Files.System
import Mathlib.Tactic.Common

/-!
# How the directories of a path are made

The directories of a path are made in one try. Only when a directory around the path is
missing are there two tries, with the directories of the parent made in between, unless
this leads up too many levels. What holds of one try is carried to all of them by
induction on this course.
-/
namespace JniHeader

theorem FilePath.parent_eq_self_iff {p : FilePath} : p.parent = p ↔ p.parts = [] := by
  obtain ⟨root, parts⟩ := p
  constructor
  · intro h
    have hlength : parts.dropLast.length = parts.length :=
      congrArg List.length (FilePath.mk.inj h).2
    rw [List.length_dropLast] at hlength
    exact List.length_eq_zero_iff.1 (show parts.length = 0 by omega)
  · rintro rfl
    rfl

namespace FileSystem

variable {fs : FileSystem} {p : FilePath} {levels : ℕ} {r : FileSystem × Except DirectoryError Unit}

/-- A try that fails changes nothing. -/
theorem ensureDirectory_unchanged {e : DirectoryError} (h : (fs.ensureDirectory p).2 = .error e) :
    (fs.ensureDirectory p).1 = fs := by
  unfold ensureDirectory at h ⊢
  split at h
  · cases h
  · split_ifs
    · rfl
    · split <;> rfl
  · rfl

/-- The path cannot be tried, since a directory around it is missing. -/
def Missing (fs : FileSystem) (p : FilePath) : Prop :=
  ∃ e, fs.ensureDirectory p = (fs, .error (.file (.system e))) ∧ e.problem = .notFound

/-- The course of making the directories of a path, at most so many levels up, and what it comes
to. -/
inductive Ensured (fs : FileSystem) : ℕ → FilePath → FileSystem × Except DirectoryError Unit → Prop
  | once {levels : ℕ} {p : FilePath} :
      (Missing fs p → p.parts = []) → Ensured fs levels p (fs.ensureDirectory p)
  | deep {p : FilePath} :
      Missing fs p → p.parts ≠ [] → Ensured fs 0 p (fs, .error .tooDeep)
  | blocked {fs' : FileSystem} {levels : ℕ} {p : FilePath} {e : DirectoryError} :
      Missing fs p → p.parts ≠ [] → Ensured fs levels p.parent (fs', .error e) →
      Ensured fs (levels + 1) p (fs', .error e)
  | again {fs' : FileSystem} {levels : ℕ} {p : FilePath} :
      Missing fs p → Ensured fs levels p.parent (fs', .ok ()) →
      Ensured fs (levels + 1) p (fs'.ensureDirectory p)

/-- A path is tried once, unless a directory above it is missing. -/
theorem ensurePath_once (hnot : Missing fs p → p.parts = []) (levels : ℕ) :
    fs.ensurePath levels p = fs.ensureDirectory p := by
  rw [ensurePath.eq_def]
  split
  · next fs₁ e hensure =>
      have hunchanged := ensureDirectory_unchanged (congrArg Prod.snd hensure)
      rw [hensure] at hunchanged
      obtain rfl : fs₁ = fs := hunchanged
      rw [hensure, if_neg]
      rintro ⟨hproblem, hparent⟩
      exact hparent (FilePath.parent_eq_self_iff.2 (hnot ⟨e, hensure, hproblem⟩))
  · rfl

theorem ensurePath_zero (hmissing : Missing fs p) (hparts : p.parts ≠ []) :
    fs.ensurePath 0 p = (fs, .error .tooDeep) := by
  obtain ⟨e, he, hproblem⟩ := hmissing
  rw [ensurePath, he]
  exact if_pos ⟨hproblem, mt FilePath.parent_eq_self_iff.1 hparts⟩

theorem ensurePath_succ (hmissing : Missing fs p) (hparts : p.parts ≠ []) (levels : ℕ) :
    fs.ensurePath (levels + 1) p =
      match fs.ensurePath levels p.parent with
      | (fs', .ok ()) => fs'.ensureDirectory p
      | failed => failed := by
  obtain ⟨e, he, hproblem⟩ := hmissing
  rw [ensurePath, he]
  exact if_pos ⟨hproblem, mt FilePath.parent_eq_self_iff.1 hparts⟩

theorem ensured_ensurePath (fs : FileSystem) (levels : ℕ) (p : FilePath) :
    Ensured fs levels p (fs.ensurePath levels p) := by
  induction levels generalizing p with
  | zero =>
      by_cases honce : Missing fs p → p.parts = []
      · rw [ensurePath_once honce]
        exact .once honce
      · obtain ⟨hmissing, hparts⟩ := Classical.not_imp.1 honce
        rw [ensurePath_zero hmissing hparts]
        exact .deep hmissing hparts
  | succ levels ih =>
      by_cases honce : Missing fs p → p.parts = []
      · rw [ensurePath_once honce]
        exact .once honce
      · obtain ⟨hmissing, hparts⟩ := Classical.not_imp.1 honce
        have hcourse := ih p.parent
        rw [ensurePath_succ hmissing hparts]
        generalize fs.ensurePath levels p.parent = r at hcourse ⊢
        obtain ⟨fs', e | ⟨⟩⟩ := r
        · exact .blocked hmissing hparts hcourse
        · exact .again hmissing hcourse

theorem ensured_makeDirectories (fs : FileSystem) (p : FilePath) :
    Ensured fs (fs.limits.levels.getD p.parts.length) p (fs.makeDirectories p) :=
  ensured_ensurePath fs _ p

/-- Only for a missing directory is more done than to try once. -/
theorem Ensured.eq_ensureDirectory (h : Ensured fs levels p r) (hnot : ¬ Missing fs p) :
    r = fs.ensureDirectory p := by
  cases h with
  | once _ => rfl
  | deep hmissing _ => exact absurd hmissing hnot
  | blocked hmissing _ _ => exact absurd hmissing hnot
  | again hmissing _ => exact absurd hmissing hnot

/-- One try is never too deep. -/
theorem ensureDirectory_ne_tooDeep (fs : FileSystem) (p : FilePath) :
    (fs.ensureDirectory p).2 ≠ .error .tooDeep := by
  intro h
  unfold ensureDirectory at h
  split at h
  · cases h
  · split_ifs at h
    · cases h
    · split at h <;> cases h
  · cases h

/-- A path is too deep only if it has more components than levels can be made. -/
theorem Ensured.levels_lt (h : Ensured fs levels p r) (hdeep : r.2 = .error .tooDeep) :
    levels < p.parts.length := by
  induction h with
  | once _ => exact absurd hdeep (ensureDirectory_ne_tooDeep _ _)
  | deep _ hparts => exact List.length_pos_iff.2 hparts
  | blocked _ hparts _ ih =>
      have hparent := ih hdeep
      rw [FilePath.parent, List.length_dropLast] at hparent
      omega
  | again _ _ _ => exact absurd hdeep (ensureDirectory_ne_tooDeep _ _)

theorem exists_levels_of_tooDeep (h : (fs.makeDirectories p).2 = .error .tooDeep) :
    ∃ levels, fs.limits.levels = some levels ∧ levels < p.parts.length := by
  have hlt := (ensured_makeDirectories fs p).levels_lt h
  cases hlevels : fs.limits.levels with
  | none =>
      rw [hlevels, Option.getD_none] at hlt
      exact absurd hlt (Nat.lt_irrefl _)
  | some levels =>
      rw [hlevels, Option.getD_some] at hlt
      exact ⟨levels, rfl, hlt⟩

end FileSystem

end JniHeader
