import JniHeader.Generation.Batch
import JniHeader.Proofs.Files.PlainWalk

/-!
# Failures of lookups

Asking for what is at a path fails in two ways only: a name is longer than the system
takes, or the system refuses to look one up. With directories that may not be listed
these are also the only system errors of every question about files that a search asks,
and with archives that are faulty in a way which nobody expects they are the only
failures of a lookup that are no fault of a class file.
-/
namespace JniHeader

/-- A barrier that was met at a path. -/
def SystemError.Barred (e : SystemError) : Prop :=
  ∃ problem p, problem.isBarrier = true ∧ e = ⟨problem, some p⟩

namespace FileSystem

variable {fs : FileSystem} {followLast : Bool} {here : Location} {parts : List Text}
  {p : FilePath} {problem : SystemProblem} {e : SystemError}

/-- A walk meets a barrier or comes to nothing. -/
theorem walkWith_problem {onLink : Location → FilePath → List Text → Except SystemProblem Place}
    (hlink : ∀ here target rest problem, onLink here target rest = .error problem →
      problem.isBarrier = true ∨ problem.isAbsence = true)
    (h : fs.walkWith followLast onLink here parts = .error problem) :
    problem.isBarrier = true ∨ problem.isAbsence = true := by
  induction parts generalizing here with
  | nil => cases h
  | cons name rest ih =>
      rw [walkWith] at h
      split at h
      · next hbarred =>
          obtain rfl := Except.error.inj h
          exact .inl (isBarrier_of_barrier? hbarred)
      · split at h
        · exact ih h
        · split at h
          · split at h
            · cases h
            · obtain rfl := Except.error.inj h
              exact .inr rfl
          · exact ih h
          · split at h
            · cases h
            · obtain rfl := Except.error.inj h
              exact .inr rfl
          · split at h
            · cases h
            · exact hlink _ _ _ _ h

theorem walk_problem {links : ℕ} (h : fs.walk followLast links here parts = .error problem) :
    problem.isBarrier = true ∨ problem.isAbsence = true := by
  induction links generalizing here parts problem with
  | zero =>
      apply walkWith_problem _ h
      intro _ _ _ problem hproblem
      obtain rfl := Except.error.inj hproblem
      exact .inr rfl
  | succ links ih => exact walkWith_problem (fun _ _ _ _ hproblem => ih hproblem) h

theorem find_of_look_error (h : fs.look p = .error e) :
    fs.find true p = .error (.system e) ∧ e.problem.isAbsence = false := by
  unfold look at h
  split at h
  · cases h
  · cases h
  · cases h
  · next hfind =>
      split_ifs at h with habsence
      obtain rfl := Except.error.inj h
      exact ⟨hfind, by simpa using habsence⟩

theorem look_error (h : fs.look p = .error e) :
    ∃ problem, problem.isBarrier = true ∧ e = ⟨problem, some p⟩ := by
  obtain ⟨hfind, hpresent⟩ := find_of_look_error h
  unfold find at hfind
  split at hfind
  · cases hfind
  · split at hfind
    · exact ⟨.nameTooLong, rfl, (FileError.system.inj (Except.error.inj hfind)).symm⟩
    · split at hfind
      · cases hfind
      · next problem hwalk =>
          obtain rfl := FileError.system.inj (Except.error.inj hfind)
          rcases walk_problem hwalk with hbarrier | habsence
          · exact ⟨problem, hbarrier, rfl⟩
          · rw [hpresent] at habsence
            cases habsence

theorem children_error (h : fs.children p = .error e) :
    ∃ problem, problem.isBarrier = true ∧ e = ⟨problem, some p⟩ := by
  unfold children at h
  split at h
  · next hlook =>
      obtain rfl := Except.error.inj h
      exact look_error hlook
  · split at h
    · next refusal _ => exact ⟨.refused refusal, rfl, (Except.error.inj h).symm⟩
    · cases h
  · cases h

end FileSystem

/-- The question fails for nothing but a barrier, and the property holds of its answer. -/
structure Answers {α : Type} (r : Except SystemError α) (P : α → Prop) : Prop where
  ok : ∀ x, r = .ok x → P x
  error : ∀ e, r = .error e → e.Barred

namespace Answers

variable {α β : Type} {P : α → Prop} {Q : β → Prop}

theorem pure {x : α} (h : P x) : Answers (Pure.pure x : Except SystemError α) P where
  ok y hy := by
    obtain rfl := Except.ok.inj hy
    exact h
  error e he := by cases he

theorem bind {r : Except SystemError α} {f : α → Except SystemError β} (hr : Answers r P)
    (hf : ∀ x, P x → Answers (f x) Q) : Answers (r >>= f) Q := by
  cases hresult : r with
  | error e =>
      constructor
      · intro y hy
        cases hy
      · intro e' he'
        obtain rfl := Except.error.inj he'
        exact hr.error e hresult
  | ok x => exact hf x (hr.ok x hresult)

/-- An answer may be disregarded. -/
theorem bind_any {r : Except SystemError α} {f : α → Except SystemError β}
    (hr : Answers r fun _ => True) (hf : ∀ x, Answers (f x) Q) : Answers (r >>= f) Q :=
  hr.bind fun x _ => hf x

theorem ite {c : Prop} [Decidable c] {r r' : Except SystemError α} (h : Answers r P)
    (h' : Answers r' P) : Answers (if c then r else r') P := by
  split_ifs
  · exact h
  · exact h'

theorem joinAll {step : α → Except SystemError (List β)} {xs : List α}
    (h : ∀ x, Answers (step x) fun ys => ∀ y ∈ ys, Q y) :
    Answers (JniHeader.joinAll step xs) fun ys => ∀ y ∈ ys, Q y := by
  induction xs with
  | nil => exact pure (by simp)
  | cons x xs ih =>
      refine (h x).bind fun ys hys => ih.bind fun rest hrest => pure ?_
      exact List.forall_mem_append.2 ⟨hys, hrest⟩

theorem map {r : Except SystemError α} (hr : Answers r P) (g : α → β) :
    Answers (r.map g) fun _ => True :=
  hr.bind (f := fun x => .ok (g x)) fun _ _ => pure trivial

section Files
variable (fs : FileSystem) (p : FilePath)

theorem look : Answers (fs.look p) fun _ => True where
  ok _ _ := trivial
  error _ he := by
    obtain ⟨problem, hbarrier, rfl⟩ := FileSystem.look_error he
    exact ⟨problem, p, hbarrier, rfl⟩

theorem isDirectory : Answers (fs.isDirectory p) fun _ => True := (look fs p).map _

theorem regularFile? : Answers (fs.regularFile? p) fun _ => True := (look fs p).map _

theorem isFile : Answers (fs.isFile p) fun _ => True := (regularFile? fs p).map _

theorem children : Answers (fs.children p) fun _ => True where
  ok _ _ := trivial
  error _ he := by
    obtain ⟨problem, hbarrier, rfl⟩ := FileSystem.children_error he
    exact ⟨problem, p, hbarrier, rfl⟩

theorem permittedChildren : Answers (fs.permittedChildren p) fun _ => True where
  ok _ _ := trivial
  error e he := by
    unfold FileSystem.permittedChildren at he
    split at he
    · next hdirectory =>
        obtain rfl := Except.error.inj he
        exact (isDirectory fs p).error _ hdirectory
    · next hchildren =>
        split_ifs at he
        obtain rfl := Except.error.inj he
        exact (children fs p).error _ hchildren
    · cases he

end Files

end Answers

/-- All providers are of known kinds. -/
def SearchPath.Known (path : SearchPath) : Prop := ∀ p ∈ path, ∀ label, p ≠ .unknown label

/-- The suffixes of archives that are searched. -/
def archiveSuffixes : List Text := [".jar", ".zip", ".jmod"]

/-- A provider as a path text gives it. -/
def Provider.Built : Provider → Prop
  | .directory _ => True
  | .archive a => a.path.suffix ∈ archiveSuffixes
  | .runtime _ => True
  | .unknown _ => False

def SearchPath.Built (path : SearchPath) : Prop := ∀ p ∈ path, p.Built

theorem SearchPath.Built.known {path : SearchPath} (h : path.Built) : path.Known := by
  rintro p hp label rfl
  exact h _ hp

section Paths
variable (fs : FileSystem)

theorem archiveAt_answers {suffixes : List Text} (hsuffixes : suffixes ⊆ archiveSuffixes)
    (p : FilePath) : Answers (archiveAt fs suffixes p) SearchPath.Built := by
  refine (Answers.isFile fs p).bind_any fun found => ?_
  split_ifs with hfound
  · have hsuffix : p.suffix ∈ suffixes := by simpa using (Bool.and_eq_true_iff.1 hfound).2
    exact .pure (List.forall_mem_singleton.2 (hsuffixes hsuffix))
  · exact .pure (List.forall_mem_nil _)

theorem directory_answers (p : FilePath) :
    Answers (pure [.directory p] : Except SystemError SearchPath) SearchPath.Built :=
  .pure (List.forall_mem_singleton.2 trivial)

namespace ClassPath

theorem jarsIn_answers (directory : FilePath) : Answers (jarsIn fs directory) SearchPath.Built :=
  (Answers.children fs directory).bind_any fun _ => .joinAll (archiveAt_answers fs (by decide))

theorem ofEntry_answers (entry : Text) : Answers (ofEntry fs entry) SearchPath.Built := by
  unfold ofEntry
  split
  · exact jarsIn_answers fs _
  · refine (Answers.isDirectory fs _).bind_any fun found => ?_
    exact .ite (directory_answers _) (archiveAt_answers fs (by decide) _)

theorem parse_answers (t : Text) : Answers (parse fs t) SearchPath.Built :=
  .joinAll (ofEntry_answers fs)

end ClassPath

namespace ModulePath

theorem isExploded_answers (p : FilePath) : Answers (isExploded fs p) fun _ => True := by
  refine (Answers.isDirectory fs p).bind_any fun found => ?_
  exact .ite (.isFile fs _) (.pure trivial)

theorem ofModule_answers (p : FilePath) : Answers (ofModule fs p) SearchPath.Built := by
  refine (isExploded_answers fs p).bind_any fun exploded => ?_
  exact .ite (directory_answers p) (archiveAt_answers fs (by decide) p)

theorem ofEntry_answers (entry : Text) : Answers (ofEntry fs entry) SearchPath.Built := by
  refine (isExploded_answers fs _).bind_any fun exploded => ?_
  apply Answers.ite
  · exact directory_answers _
  · refine (Answers.isDirectory fs _).bind_any fun found => ?_
    apply Answers.ite
    · exact (Answers.children fs _).bind_any fun _ => .joinAll (ofModule_answers fs)
    · exact archiveAt_answers fs (by decide) _

theorem parse_answers (t : Text) : Answers (parse fs t) SearchPath.Built :=
  .joinAll (ofEntry_answers fs)

end ModulePath

theorem Config.searchPath_built (c : Config) : Answers (c.searchPath fs) SearchPath.Built := by
  refine (ModulePath.parse_answers fs _).bind fun modules hmodules => ?_
  refine (ClassPath.parse_answers fs _).bind fun classes hclasses => .pure ?_
  exact List.forall_mem_append.2 ⟨List.forall_mem_append.2 ⟨hmodules, hclasses⟩,
    List.forall_mem_singleton.2 trivial⟩

theorem Config.searchPath_answers (c : Config) : Answers (c.searchPath fs) SearchPath.Known where
  ok path hpath := ((searchPath_built fs c).ok path hpath).known
  error := (searchPath_built fs c).error

end Paths

theorem runtimeArchives_answers (fs : FileSystem) (home : FilePath) (module : Option Text) :
    Answers (runtimeArchives fs home module) fun _ => True := by
  refine (Answers.isFile fs _).bind_any fun old => ?_
  apply Answers.ite
  · exact .pure trivial
  · refine (Answers.isFile fs _).bind_any fun flat => ?_
    apply Answers.ite
    · exact .pure trivial
    · exact (Answers.permittedChildren fs _).bind_any fun files => .pure trivial

/-- A failure of a lookup that is no fault of a class file. -/
inductive LookupFailure : Failure → Prop
  | barred {e : SystemError} : e.Barred → LookupFailure (.file (.system e))
  | archive {e : Archive.Error} : e.isExpected = false → LookupFailure (.archive e)

/-- The lookup has an answer, is at fault with a class file, or fails as lookups can. -/
def FailsAsLookup {α : Type} (r : Except Failure α) : Prop :=
  ∀ f, r = .error f → (∃ e, f = .classFile e) ∨ LookupFailure f

theorem readDirectoryClass_fails (fs : FileSystem) (root : FilePath) (binary : Text) :
    FailsAsLookup (readDirectoryClass fs root binary) := by
  intro f h
  simp only [readDirectoryClass] at h
  split at h
  · next e he =>
      obtain rfl := Except.error.inj h
      exact .inr (.barred ((Answers.regularFile? fs _).error e he))
  · cases h
  · split at h
    · obtain rfl := Except.error.inj h
      exact .inl ⟨_, rfl⟩
    · cases h

theorem readArchiveClass_fails (fs : FileSystem) (a : ArchivePath) (binary : Text) :
    FailsAsLookup (readArchiveClass fs a binary) := by
  intro f h
  simp only [readArchiveClass] at h
  split at h
  · next e he =>
      obtain rfl := Except.error.inj h
      exact .inr (.barred ((Answers.regularFile? fs _).error e he))
  · cases h
  · split at h
    · obtain rfl := Except.error.inj h
      exact .inl ⟨_, rfl⟩
    · split at h
      · cases h
      · obtain rfl := Except.error.inj h
        split_ifs with hexpected
        · exact .inl ⟨_, rfl⟩
        · exact .inr (.archive (by simpa using hexpected))

theorem firstFound_fails {α β : Type} {look : α → Except Failure (Option β)} {xs : List α}
    (h : ∀ x ∈ xs, FailsAsLookup (look x)) : FailsAsLookup (firstFound look xs) := by
  intro f hf
  induction xs with
  | nil => cases hf
  | cons x xs ih =>
      rw [List.forall_mem_cons] at h
      rw [firstFound] at hf
      split at hf
      · exact ih h.2 hf
      · exact h.1 f hf

theorem readRuntimeClass_fails (host : Host) (home : Option FilePath) (name : QualifiedName) :
    FailsAsLookup (readRuntimeClass host home name) := by
  intro f h
  simp only [readRuntimeClass] at h
  split at h
  · cases h
  · split at h
    · next e he =>
        obtain rfl := Except.error.inj h
        exact .inr (.barred ((runtimeArchives_answers host.files _ _).error e he))
    · exact firstFound_fails (fun a _ => readArchiveClass_fails host.files a _) f h

/-- The lookups of a search path fail for class files, for barriers and for archives with faults
that are not expected. -/
theorem SearchPath.resolve_fails {host : Host} {path : SearchPath} (hknown : path.Known)
    (name : QualifiedName) : FailsAsLookup (path.resolve host name) := by
  apply firstFound_fails
  intro provider hprovider
  cases provider with
  | directory root => exact readDirectoryClass_fails host.files root _
  | archive a => exact readArchiveClass_fails host.files a _
  | runtime home => exact readRuntimeClass_fails host home name
  | unknown label => exact absurd rfl (hknown _ hprovider label)

end JniHeader
