import JniHeader.Proofs.Files.Changes
import JniHeader.Proofs.Files.Children
import JniHeader.Proofs.Files.Reaches

/-!
# Files written in a directory

Files are written under some of the names in one directory, where there was nothing or a
file. A walk that does not end at such a name comes to the same place as before, or both
times to nothing: only a directory can be passed. So all questions about other paths
have their answers kept, and the names in a directory are kept but for those.
-/
namespace JniHeader

namespace FileSystem

variable {H : Text → Prop} {d here location : Location} {fs fs' fs'' : FileSystem}
  {parts : List Text} {p : FilePath} {name : Text} {content : ByteArray}

/-- A file can be written at the location: there is nothing and a file can be made, or there is a
file that takes contents. -/
def Writable (fs : FileSystem) (location : Location) : Prop :=
  fs.entryAt location = none ∧ fs.limits.making location = none ∨
    ∃ f, fs.entryAt location = some (.file f) ∧ f.takesContent = true

/-- Files have been written under names in a directory. -/
structure FilesWritten (H : Text → Prop) (d : Location) (fs fs' : FileSystem) : Prop where
  workingDirectory : fs'.workingDirectory = fs.workingDirectory
  limits : fs'.limits = fs.limits
  entry : ∀ location, fs'.entryAt location = fs.entryAt location ∨
    (∃ name, H name ∧ location = name :: d) ∧ fs.Writable location ∧
      ∃ f, fs'.entryAt location = some (.file f) ∧ f.takesContent = true

namespace FilesWritten

theorem refl (H : Text → Prop) (d : Location) (fs : FileSystem) : FilesWritten H d fs fs :=
  ⟨rfl, rfl, fun _ => .inl rfl⟩

/-- One more file is written. -/
theorem put (h : FilesWritten H d fs fs') (hname : H name) (hadmits : fs'.Admits (name :: d))
    (hwritable : fs'.Writable (name :: d)) {f : RegularFile} (htakes : f.takesContent = true) :
    FilesWritten H d fs (fs'.put (name :: d) (.file f)) where
  workingDirectory := (workingDirectory_put _ _ _).trans h.workingDirectory
  limits := (limits_put _ _ _).trans h.limits
  entry location := by
    by_cases hsame : location = name :: d
    · rw [hsame, entryAt_put _ hadmits]
      refine .inr ⟨⟨name, hname, rfl⟩, ?_, f, rfl, htakes⟩
      rcases h.entry (name :: d) with hkept | ⟨-, hbefore, -⟩
      · rwa [Writable, hkept, h.limits] at hwritable
      · exact hbefore
    · rw [entryAt_put_of_ne _ hsame]
      exact h.entry location

theorem keepsDirectories (h : FilesWritten H d fs fs') : KeepsDirectories fs fs' where
  limits := h.limits
  directory location hdirectory := by
    rcases h.entry location with hkept | ⟨-, ⟨hnone, -⟩ | ⟨f, hf, -⟩, -⟩
    · rw [hkept, hdirectory]
    · cases hdirectory.symm.trans hnone
    · cases hdirectory.symm.trans hf

theorem leads {directory : FilePath} (h : FilesWritten H d fs fs')
    (hd : Leads fs directory location) : Leads fs' directory location := by
  rw [Leads, h.workingDirectory]
  exact h.keepsDirectories.plainWalk hd

theorem barrier?_eq (h : FilesWritten H d fs fs') (here : Location) (name : Text) :
    fs'.barrier? here name = fs.barrier? here name :=
  barrier?_congr (by rw [h.limits]) name

end FilesWritten

/-- Two walks come to the same, or both come to nothing. -/
inductive Alike : Except SystemProblem Place → Except SystemProblem Place → Prop
  | refl (r : Except SystemProblem Place) : Alike r r
  | absent {problem problem' : SystemProblem} : problem.isAbsence = true →
      problem'.isAbsence = true → Alike (.error problem) (.error problem')

theorem FilesWritten.plainWalk (h : FilesWritten H d fs fs')
    (hlast : ∀ name ∈ parts.getLast?, ¬ H name) :
    Alike (fs.plainWalk here parts) (fs'.plainWalk here parts) := by
  induction parts generalizing here with
  | nil => exact .refl _
  | cons name rest ih =>
      have hrest : ∀ name ∈ rest.getLast?, ¬ H name := by
        intro other hother
        apply hlast other
        rw [List.getLast?_cons, Option.mem_def.1 hother]
        rfl
      rw [FileSystem.plainWalk, FileSystem.plainWalk, walkWith, walkWith, h.barrier?_eq here name]
      split
      · exact .refl _
      · split
        · exact ih hrest
        · rcases h.entry (name :: here) with hkept | ⟨⟨other, hother, heq⟩, hbefore, f, hf, -⟩
          · rw [hkept]
            split
            · exact .refl _
            · exact ih hrest
            · exact .refl _
            · exact .refl _
          · -- Something comes after a written file, so neither walk can go on from it.
            obtain rfl : name = other := (List.cons.inj heq).1
            have hmore : rest.isEmpty = false := by
              rw [List.isEmpty_eq_false_iff]
              rintro rfl
              exact hlast name rfl hother
            rw [hf]
            simp only [hmore]
            rcases hbefore with ⟨hnone, -⟩ | ⟨g, hg, -⟩
            · rw [hnone]
              exact .absent rfl rfl
            · rw [hg]
              exact .absent rfl rfl

section Questions
variable (h : FilesWritten H d fs fs') (hlinks : fs.LinkFree) (hlinks' : fs'.LinkFree)
  (hlast : ∀ name ∈ p.parts.getLast?, ¬ H name)
include h hlinks hlinks' hlast

theorem FilesWritten.find :
    fs'.find true p = fs.find true p ∨
      ∃ e e', fs.find true p = .error (.system e) ∧ fs'.find true p = .error (.system e') ∧
        e.problem.isAbsence = true ∧ e'.problem.isAbsence = true := by
  rcases find_related hlinks hlinks' h.workingDirectory (h.plainWalk hlast) with
    hsame | ⟨r, r', halike, hfind, hfind'⟩
  · exact .inl hsame
  · cases halike with
    | refl r => exact .inl (hfind'.trans hfind.symm)
    | absent habsent habsent' => exact .inr ⟨_, _, hfind, hfind', habsent, habsent'⟩

theorem FilesWritten.look : fs'.look p = fs.look p := by
  rcases h.find hlinks hlinks' hlast with hfind | ⟨e, e', hfind, hfind', habsent, habsent'⟩
  · rw [FileSystem.look, FileSystem.look, hfind]
  · rw [FileSystem.look, FileSystem.look, hfind, hfind']
    simp only [habsent, habsent', if_true]

theorem FilesWritten.regularFile? : fs'.regularFile? p = fs.regularFile? p := by
  rw [FileSystem.regularFile?, FileSystem.regularFile?, h.look hlinks hlinks' hlast]

theorem FilesWritten.isFile : fs'.isFile p = fs.isFile p := by
  rw [FileSystem.isFile, FileSystem.isFile, h.regularFile? hlinks hlinks' hlast]

end Questions

/-- A file can be written in the place at the location. -/
structure WritableAt (fs : FileSystem) (location : Location) (place : Place) : Prop where
  location_eq : place.location = location
  fillable : fs.Fillable place

theorem WritableAt.congr {place : Place} (h : fs.WritableAt location place)
    (hlimits : fs'.limits = fs.limits) : fs'.WritableAt location place :=
  ⟨h.location_eq, h.fillable.congr hlimits⟩

end FileSystem

end JniHeader
