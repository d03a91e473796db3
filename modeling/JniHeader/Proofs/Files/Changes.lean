import JniHeader.Proofs.Files.Writes

/-!
# What operations on files keep

Directories are only ever added, and an operation on a file changes the entry that
its path leads to. So a file that is stored in a directory can be read back at its
path, whatever happens to files of other names in that directory.
-/
namespace JniHeader

namespace FileSystem

variable {fs fs' fs'' : FileSystem} {location d : Location} {p directory : FilePath}
  {name other : Text} {content : ByteArray} {f : RegularFile} {levels : ℕ}
  {r : FileSystem × Except FileError Unit}

/-- Directories stay, the file at a location stays, and no link is put in. -/
structure Keeps (location : Location) (fs fs' : FileSystem) : Prop where
  workingDirectory : fs'.workingDirectory = fs.workingDirectory
  linkFree : fs.LinkFree → fs'.LinkFree
  directories : KeepsDirectories fs fs'
  file : ∀ f, fs.entryAt location = some (.file f) → fs'.entryAt location = some (.file f)

namespace Keeps

theorem refl (location : Location) (fs : FileSystem) : Keeps location fs fs :=
  ⟨rfl, id, ⟨rfl, fun _ h => h⟩, fun _ h => h⟩

theorem trans (h : Keeps location fs fs') (h' : Keeps location fs' fs'') :
    Keeps location fs fs'' where
  workingDirectory := h'.workingDirectory.trans h.workingDirectory
  linkFree hlinks := h'.linkFree (h.linkFree hlinks)
  directories := h.directories.trans h'.directories
  file f hf := h'.file f (h.file f hf)

theorem put_directory {l : Location} (hvacant : fs.entryAt l = none) :
    Keeps location fs (fs.put l .directory) where
  workingDirectory := workingDirectory_put fs l _
  linkFree hlinks := hlinks.put l rfl
  directories := (keepsEntries_put hvacant _).keepsDirectories
  file _ hf := (keepsEntries_put hvacant _).entry location _ hf

theorem put_file {l : Location} (hdirectory : fs.entryAt l ≠ some .directory)
    (hne : location ≠ l) : Keeps location fs (fs.put l (.file f)) where
  workingDirectory := workingDirectory_put fs l _
  linkFree hlinks := hlinks.put l rfl
  directories :=
    ⟨limits_put fs l _, fun k hk => by
      rw [entryAt_put_of_ne (.file f), hk]
      rintro rfl
      exact hdirectory hk⟩
  file g hg := (entryAt_put_of_ne (.file f) hne).trans hg

theorem erase {l : Location} (hdirectory : fs.entryAt l ≠ some .directory)
    (hne : location ≠ l) : Keeps location fs (fs.erase l) where
  workingDirectory := workingDirectory_erase fs l
  linkFree hlinks := hlinks.erase l
  directories :=
    ⟨limits_erase fs l, fun k hk => by
      rw [entryAt_erase_of_ne, hk]
      rintro rfl
      exact hdirectory hk⟩
  file g hg := (entryAt_erase_of_ne hne).trans hg

end Keeps

theorem plainWalk_of_find (hlinks : fs.LinkFree) {followLast : Bool} {place : Place}
    (h : fs.find followLast p = .ok place) :
    fs.plainWalk (startOf p fs.workingDirectory) p.parts = .ok place := by
  unfold find at h
  rw [walk_of_linkFree hlinks] at h
  split at h
  · cases h
  · split at h
    · cases h
    · split at h
      · next hwalk => rw [hwalk, Except.ok.inj h]
      · cases h

theorem makeDirectory_keeps (h : fs.makeDirectory p = .ok fs') : Keeps location fs fs' := by
  obtain ⟨l, hvacant, rfl, -, -⟩ := find_of_makeDirectory h
  exact .put_directory hvacant

theorem ensureDirectory_keeps (fs : FileSystem) (p : FilePath) :
    Keeps location fs (fs.ensureDirectory p).1 := by
  unfold ensureDirectory
  split
  · next hmade => exact makeDirectory_keeps hmade
  · split
    · exact .refl _ _
    · split <;> exact .refl _ _
  · exact .refl _ _

/-- Making the missing directories of a path keeps all that is there. -/
theorem Ensured.keeps {r : FileSystem × Except DirectoryError Unit} (h : Ensured fs levels p r) :
    Keeps location fs r.1 := by
  induction h with
  | once _ => exact ensureDirectory_keeps _ _
  | deep _ _ => exact .refl _ _
  | blocked _ _ _ ih => exact ih
  | again _ _ ih => exact ih.trans (ensureDirectory_keeps _ _)

theorem makeDirectories_keeps (fs : FileSystem) (p : FilePath) :
    Keeps location fs (fs.makeDirectories p).1 :=
  (ensured_makeDirectories fs p).keeps

/-- The directory that a path leads to. -/
def Leads (fs : FileSystem) (directory : FilePath) (d : Location) : Prop :=
  fs.plainWalk (startOf directory fs.workingDirectory) directory.parts = .ok (.directory d)

theorem Leads.keep (hkeep : Keeps location fs fs') (h : Leads fs directory d) :
    Leads fs' directory d := by
  rw [Leads, hkeep.workingDirectory]
  exact hkeep.directories.plainWalk h

/-- What a name in a directory leads to. -/
theorem Leads.ends (h : Leads fs directory d) (hlinks : fs.LinkFree) {followLast : Bool}
    {place : Place} (hfind : fs.find followLast (inDirectory directory name) = .ok place)
    (hplace : ∀ l, place ≠ .directory l) : fs.Ends d name place := by
  have hwalk : fs.plainWalk d [name] = .ok place :=
    (plainWalk_append h [name]).symm.trans (plainWalk_of_find hlinks hfind)
  rcases plainWalk_cons_ok hwalk with ⟨next, -, hnext⟩ | ⟨-, hends⟩
  · exact absurd (Except.ok.inj hnext).symm (hplace next)
  · exact hends

/-- A file that can be written is in a directory. -/
theorem exists_leads_of_find (hlinks : fs.LinkFree) {followLast : Bool} {place : Place}
    (hfind : fs.find followLast (inDirectory directory name) = .ok place) :
    ∃ d, Leads fs directory d := by
  obtain ⟨d, hd, -⟩ := exists_directory_of_plainWalk_append (List.cons_ne_nil name [])
    (plainWalk_of_find hlinks hfind)
  exact ⟨d, hd⟩

theorem Written.linkFree (h : Written fs p content r) (hlinks : fs.LinkFree) : r.1.LinkFree := by
  cases h with
  | refused _ => exact hlinks
  | whole _ _ _ => exact hlinks.put _ rfl
  | part _ _ _ => exact hlinks.put _ rfl

theorem removeFile_linkFree (hlinks : fs.LinkFree) (h : fs.removeFile p = .ok fs') :
    fs'.LinkFree := by
  obtain ⟨place, -, -, rfl⟩ := removeFile_ok h
  exact hlinks.erase _

/-- Whatever the writing of a file comes to, files of other names are kept. -/
theorem Written.keeps (h : Written fs (inDirectory directory name) content r)
    (hlinks : fs.LinkFree) (hd : Leads fs directory d) (hne : other ≠ name) :
    Keeps (other :: d) fs r.1 := by
  have hput : ∀ {place : Place} {f : RegularFile},
      fs.find true (inDirectory directory name) = .ok place → fs.Fillable place →
      Keeps (other :: d) fs (fs.put place.location (.file f)) := by
    intro place f hfind hfillable
    have hends := hd.ends hlinks hfind hfillable.not_directory
    rw [hends.location_eq]
    exact .put_file hends.not_directory (by simpa using hne)
  cases h with
  | refused _ => exact .refl _ fs
  | whole hfind hfillable _ => exact hput hfind hfillable
  | part hfind hfillable _ => exact hput hfind hfillable

theorem removeFile_keeps (hlinks : fs.LinkFree) (hd : Leads fs directory d) (hne : other ≠ name)
    (h : fs.removeFile (inDirectory directory name) = .ok fs') : Keeps (other :: d) fs fs' := by
  obtain ⟨place, hfind, hplace, rfl⟩ := removeFile_ok h
  have hends := hd.ends hlinks hfind hplace.not_directory
  rw [hends.location_eq]
  exact .erase hends.not_directory (by simpa using hne)

/-- A file under a name in a directory, which its path leads to. -/
structure Stored (fs : FileSystem) (directory : FilePath) (d : Location) (name : Text)
    (f : RegularFile) : Prop where
  linkFree : fs.LinkFree
  leads : Leads fs directory d
  entry : fs.entryAt (name :: d) = some (.file f)
  usable : unusableName? (inDirectory directory name).text = none
  short : ¬ maxPathSize < (inDirectory directory name).text.nameSize
  isOpen : fs.barrier? d name = none
  notDots : name ≠ ".."

namespace Stored

theorem keep (hkeep : Keeps (name :: d) fs fs') (h : Stored fs directory d name f) :
    Stored fs' directory d name f :=
  { h with
    linkFree := hkeep.linkFree h.linkFree
    leads := h.leads.keep hkeep
    entry := hkeep.file f h.entry
    isOpen := hkeep.directories.barrier? h.isOpen }

theorem find (h : Stored fs directory d name f) :
    fs.find true (inDirectory directory name) = .ok (.file (name :: d) f) := by
  have hwalk : fs.walk true maxLinks (startOf (inDirectory directory name) fs.workingDirectory)
      (inDirectory directory name).parts = .ok (.file (name :: d) f) := by
    rw [walk_of_linkFree h.linkFree]
    exact (plainWalk_append h.leads [name]).trans
      (plainWalk_file h.isOpen h.notDots h.entry)
  unfold FileSystem.find
  rw [h.usable]
  simp only [if_neg h.short, hwalk]

theorem regularFile? (h : Stored fs directory d name f) :
    fs.regularFile? (inDirectory directory name) = .ok (some f) := by
  rw [FileSystem.regularFile?, look, h.find]
  rfl

end Stored

theorem usable_of_find {followLast : Bool} {place : Place} (h : fs.find followLast p = .ok place) :
    unusableName? p.text = none ∧ ¬ maxPathSize < p.text.nameSize := by
  unfold find at h
  split at h
  · cases h
  · next husable =>
      split at h
      · cases h
      · next hshort => exact ⟨husable, hshort⟩

/-- A file that has been written is stored where it has been put. -/
theorem stored_put_of_writeFile (hlinks : fs.LinkFree)
    (h : fs.writeFile (inDirectory directory name) content = (fs', .ok ())) :
    ∃ d f, Stored fs' directory d name f ∧ f.content = content ∧
      fs' = fs.put (name :: d) (.file f) ∧ KeepsDirectories fs fs' := by
  obtain ⟨place, hfind, hfillable, rfl⟩ := writeFile_ok h
  obtain ⟨d, hd⟩ := exists_leads_of_find hlinks hfind
  have hends := hd.ends hlinks hfind hfillable.not_directory
  have hadmits := (find_stands hfind).admits hfillable.not_directory
  rw [hends.location_eq] at hadmits ⊢
  have hkeep : Keeps [] fs (fs.put (name :: d) (.file (filled content place))) :=
    .put_file hends.not_directory (List.cons_ne_nil _ _).symm
  obtain ⟨husable, hshort⟩ := usable_of_find hfind
  obtain ⟨hopen, hdots⟩ := hends.name_usable
  exact ⟨d, filled content place, ⟨hkeep.linkFree hlinks, hd.keep hkeep, entryAt_put _ hadmits,
    husable, hshort, hkeep.directories.barrier? hopen, hdots⟩, content_filled content place, rfl,
    hkeep.directories⟩

theorem stored_of_writeFile (hlinks : fs.LinkFree)
    (h : fs.writeFile (inDirectory directory name) content = (fs', .ok ())) :
    ∃ d f, Stored fs' directory d name f ∧ f.content = content := by
  obtain ⟨d, f, hstored, hcontent, -⟩ := stored_put_of_writeFile hlinks h
  exact ⟨d, f, hstored, hcontent⟩

end FileSystem

end JniHeader
