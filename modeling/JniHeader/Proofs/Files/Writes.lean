import JniHeader.Proofs.Files.MadeDirectories

/-!
# Writing and removing files

To write a file is to put one into the place that its path leads to, if one can be put
there. The whole content is in it then, or its first part when the system refuses the
rest. To remove a file is to take away what stands at its path, whether it is a file or a
link.
-/
namespace JniHeader

/-- The file takes a new content. -/
def RegularFile.takesContent (f : RegularFile) : Bool := f.isWritable && !f.isDamaged

/-- There is a file or a link in the place. -/
inductive Place.IsRemovable : Place → Prop
  | file {location : Location} {f : RegularFile} : IsRemovable (.file location f)
  | link {location : Location} {target : FilePath} : IsRemovable (.link location target)

theorem Place.IsRemovable.not_directory {place : Place} (h : place.IsRemovable)
    (location : Location) : place ≠ .directory location := by
  rintro rfl
  cases h

namespace FileSystem

variable {fs fs' : FileSystem} {p : FilePath} {content : ByteArray} {place : Place}
  {r : FileSystem × Except FileError Unit}

/-- A file can be opened for writing in the place. -/
inductive Fillable (fs : FileSystem) : Place → Prop
  | vacant {parent : Location} {name : Text} : fs.limits.making (name :: parent) = none →
      Fillable fs (.vacant parent name)
  | file {location : Location} {f : RegularFile} : f.takesContent = true →
      Fillable fs (.file location f)

/-- The file that has a content written in the place. -/
def filled (content : ByteArray) : Place → RegularFile
  | .file _ f => { f with content }
  | _ => { content }

theorem content_filled (content : ByteArray) (place : Place) :
    (filled content place).content = content := by
  cases place <;> rfl

theorem Fillable.not_directory (h : fs.Fillable place) (location : Location) :
    place ≠ .directory location := by
  rintro rfl
  cases h

theorem Fillable.congr (h : fs.Fillable place) (hlimits : fs'.limits = fs.limits) :
    fs'.Fillable place := by
  cases h with
  | vacant hmaking => exact .vacant (by rwa [hlimits])
  | file htakes => exact .file htakes

theorem Fillable.takesContent (h : fs.Fillable place) (content : ByteArray) :
    (filled content place).takesContent = true := by
  cases h with
  | vacant _ => rfl
  | file htakes => exact htakes

/-- What writing a content at a path comes to. -/
inductive Written (fs : FileSystem) (p : FilePath) (content : ByteArray) :
    FileSystem × Except FileError Unit → Prop
  | refused {e : FileError} : (∀ place, fs.find true p = .ok place → ¬ fs.Fillable place) →
      Written fs p content (fs, .error e)
  | whole {place : Place} : fs.find true p = .ok place → fs.Fillable place →
      fs.limits.cut place.location content.size = none →
      Written fs p content (fs.put place.location (.file (filled content place)), .ok ())
  | part {place : Place} {size : ℕ} {refusal : Refusal} :
      fs.find true p = .ok place → fs.Fillable place →
      fs.limits.cut place.location content.size = some (size, refusal) →
      Written fs p content
        (fs.put place.location (.file (filled (content.extract 0 size) place)),
          .error (.system ⟨.refused refusal, none⟩))

theorem written_store (hfind : fs.find true p = .ok place) (hfillable : fs.Fillable place) :
    Written fs p content (fs.store place.location (filled content place)) := by
  rw [store, content_filled]
  cases hcut : fs.limits.cut place.location content.size with
  | none => exact .whole hfind hfillable hcut
  | some stop =>
      obtain ⟨size, refusal⟩ := stop
      have hpart : { filled content place with content := content.extract 0 size } =
          filled (content.extract 0 size) place := by
        cases place <;> rfl
      change Written fs p content (fs.put _ (.file { filled content place with
        content := content.extract 0 size }), _)
      rw [hpart]
      exact .part hfind hfillable hcut

theorem written_writeFile (fs : FileSystem) (p : FilePath) (content : ByteArray) :
    Written fs p content (fs.writeFile p content) := by
  have hrefused : ∀ {place e}, fs.find true p = .ok place → ¬ fs.Fillable place →
      Written fs p content (fs, .error e) := by
    intro place e hfind hnot
    refine .refused fun other hother => ?_
    rwa [← Except.ok.inj (hfind.symm.trans hother)]
  unfold writeFile
  split
  · next parent name hfind =>
      split
      · next hmaking =>
          refine hrefused hfind ?_
          rintro ⟨hfree⟩
          cases hmaking.symm.trans hfree
      · next hmaking => exact written_store hfind (.vacant hmaking)
  · next location f hfind =>
      have hrefuses : f.takesContent = false → ∀ {e}, Written fs p content (fs, .error e) := by
        intro hnot e
        refine hrefused hfind ?_
        rintro (_ | htakes)
        cases hnot.symm.trans htakes
      split_ifs with hwritable hdamaged
      · exact hrefuses (by simp_all [RegularFile.takesContent])
      · exact hrefuses (by simp_all [RegularFile.takesContent])
      · exact written_store hfind (.file (by simp_all [RegularFile.takesContent]))
  · next hfind => exact hrefused hfind fun h => h.not_directory _ rfl
  · next hfind => exact hrefused hfind fun h => by cases h
  · next hfind => exact .refused fun place hplace => by cases hfind.symm.trans hplace

theorem written_of_writeFile (h : fs.writeFile p content = r) : Written fs p content r := by
  rw [← h]
  exact written_writeFile fs p content

/-- A file that has been written holds the content, where its path leads. -/
theorem writeFile_ok (h : fs.writeFile p content = (fs', .ok ())) :
    ∃ place, fs.find true p = .ok place ∧ fs.Fillable place ∧
      fs' = fs.put place.location (.file (filled content place)) := by
  cases written_of_writeFile h with
  | whole hfind hfillable _ => exact ⟨_, hfind, hfillable, rfl⟩

/-- What is removable goes away, unless the system refuses. -/
theorem removeFile_of_removable (hfind : fs.find false p = .ok place) (h : place.IsRemovable) :
    fs.removeFile p =
      match fs.limits.removing place.location with
      | some r => .error (.system ⟨.refused r, some p⟩)
      | none => .ok (fs.erase place.location) := by
  cases h with
  | file =>
      simp only [removeFile, hfind]
      rfl
  | link =>
      simp only [removeFile, hfind]
      rfl

/-- Nothing else does. -/
theorem removeFile_of_not_removable
    (h : ∀ place, fs.find false p = .ok place → ¬ place.IsRemovable) :
    ∃ e, fs.removeFile p = .error e := by
  rw [removeFile]
  cases hfind : fs.find false p with
  | error e => exact ⟨e, rfl⟩
  | ok place =>
      cases place with
      | directory location => exact ⟨_, rfl⟩
      | file location f => exact absurd .file (h _ hfind)
      | link location target => exact absurd .link (h _ hfind)
      | vacant parent name => exact ⟨_, rfl⟩

theorem removeFile_ok (h : fs.removeFile p = .ok fs') :
    ∃ place, fs.find false p = .ok place ∧ place.IsRemovable ∧ fs' = fs.erase place.location := by
  by_cases hplace : ∃ place, fs.find false p = .ok place ∧ place.IsRemovable
  · obtain ⟨place, hfind, hremovable⟩ := hplace
    rw [removeFile_of_removable hfind hremovable] at h
    split at h
    · cases h
    · exact ⟨place, hfind, hremovable, (Except.ok.inj h).symm⟩
  · obtain ⟨e, he⟩ := removeFile_of_not_removable fun place hfind hremovable =>
      hplace ⟨place, hfind, hremovable⟩
    cases he.symm.trans h

end FileSystem

end JniHeader
