import JniHeader.Proofs.Files.EnsuredPaths
import JniHeader.Proofs.Files.Reaches

/-!
# Made directories

To make the directories of a path keeps every entry and puts directories on the way
along the path, whether it succeeds or not. When it succeeds, the path leads to a
directory.
-/
namespace JniHeader

namespace FileSystem

variable {fs fs' fs'' : FileSystem} {p q : FilePath} {location : Location} {parts : List Text}
  {levels : ℕ}

theorem keepsEntries_put (hvacant : fs.entryAt location = none) (e : FileEntry) :
    KeepsEntries fs (fs.put location e) where
  limits := limits_put fs location e
  entry other e' h := by
    rw [entryAt_put_of_ne e, h]
    rintro rfl
    rw [hvacant] at h
    cases h

/-- A directory that the path, or a first part of it, leads to. -/
def OnTheWay (fs : FileSystem) (p : FilePath) (location : Location) : Prop :=
  ∃ parts, parts <+: p.parts ∧
    fs.walk true maxLinks (startOf p fs.workingDirectory) parts = .ok (.directory location)

theorem OnTheWay.keep (hkeep : KeepsEntries fs fs')
    (hhere : fs'.workingDirectory = fs.workingDirectory) (h : OnTheWay fs p location) :
    OnTheWay fs' p location := by
  obtain ⟨parts, hparts, hwalk⟩ := h
  refine ⟨parts, hparts, ?_⟩
  rw [hhere, walk_eq_ok_iff]
  exact (walk_eq_ok_iff.1 hwalk).becomes hkeep.keepsWays .directory

/-- Nothing but directories on the way along a path has been added. -/
structure MadeAlong (p : FilePath) (fs fs' : FileSystem) : Prop where
  workingDirectory : fs'.workingDirectory = fs.workingDirectory
  keeps : KeepsEntries fs fs'
  made : ∀ location, fs.entryAt location = none → fs'.entryAt location = none ∨
    fs'.entryAt location = some .directory ∧ OnTheWay fs' p location

namespace MadeAlong

theorem refl (p : FilePath) (fs : FileSystem) : MadeAlong p fs fs :=
  ⟨rfl, ⟨rfl, fun _ _ h => h⟩, fun _ h => .inl h⟩

theorem trans (h : MadeAlong p fs fs') (h' : MadeAlong p fs' fs'') : MadeAlong p fs fs'' where
  workingDirectory := h'.workingDirectory.trans h.workingDirectory
  keeps := h.keeps.trans h'.keeps
  made location hnone := by
    rcases h.made location hnone with hnone' | ⟨hdirectory, hway⟩
    · exact h'.made location hnone'
    · exact .inr ⟨h'.keeps.entry _ _ hdirectory, hway.keep h'.keeps h'.workingDirectory⟩

end MadeAlong

theorem makeDirectory_ok (h : fs.makeDirectory p = .ok fs') :
    ∃ parent name, fs.find false p = .ok (.vacant parent name) ∧
      fs' = fs.put (name :: parent) .directory := by
  unfold makeDirectory at h
  split at h
  · next hfind =>
      split at h
      · cases h
      · exact ⟨_, _, hfind, (Except.ok.inj h).symm⟩
  · cases h
  · cases h

/-- A directory that has been made is where its path leads. -/
theorem find_of_makeDirectory (h : fs.makeDirectory p = .ok fs') :
    ∃ location, fs.entryAt location = none ∧ fs' = fs.put location .directory ∧
      fs'.entryAt location = some .directory ∧ fs'.find true p = .ok (.directory location) := by
  obtain ⟨parent, name, hfind, rfl⟩ := makeDirectory_ok h
  obtain ⟨husable, hsize, hreaches⟩ := find_eq_ok_iff.1 hfind
  have hstands := find_stands hfind
  have hadmits : fs.Admits (name :: parent) := hstands.admits fun _ => Place.noConfusion
  obtain _ | _ | _ | ⟨-, -, hvacant⟩ := hstands
  refine ⟨name :: parent, hvacant, rfl, entryAt_put _ hadmits,
    find_eq_ok_iff.2 ⟨husable, hsize, ?_⟩⟩
  rw [workingDirectory_put]
  exact (hreaches.followEnd fun _ _ => Place.noConfusion).becomes
    (keepsEntries_put hvacant _).keepsWays (.made (entryAt_put _ hadmits))

theorem makeDirectory_made (hroot : q.root = p.root) (hparts : q.parts <+: p.parts)
    (h : fs.makeDirectory q = .ok fs') : MadeAlong p fs fs' := by
  obtain ⟨location, hvacant, rfl, hmade, hfind⟩ := find_of_makeDirectory h
  obtain ⟨-, -, hreaches⟩ := find_eq_ok_iff.1 hfind
  refine ⟨workingDirectory_put _ _ _, keepsEntries_put hvacant _, fun other hother => ?_⟩
  by_cases hsame : other = location
  · rw [hsame]
    have hstart : ∀ here, startOf q here = startOf p here := by
      intro here
      rw [startOf, startOf, hroot]
    rw [hstart] at hreaches
    exact .inr ⟨hmade, q.parts, hparts, hreaches.walk⟩
  · left
    rw [entryAt_put_of_ne _ hsame, hother]

theorem ensureDirectory_made (hroot : q.root = p.root) (hparts : q.parts <+: p.parts) :
    MadeAlong p fs (fs.ensureDirectory q).1 := by
  unfold ensureDirectory
  split
  · next hmade => exact makeDirectory_made hroot hparts hmade
  · split
    · exact .refl p fs
    · split <;> exact .refl p fs
  · exact .refl p fs

theorem Ensured.made {r : FileSystem × Except DirectoryError Unit} (h : Ensured fs levels q r)
    (hroot : q.root = p.root) (hparts : q.parts <+: p.parts) : MadeAlong p fs r.1 := by
  induction h with
  | once _ => exact ensureDirectory_made hroot hparts
  | deep _ _ => exact .refl p _
  | @blocked _ _ q _ _ _ _ ih => exact ih hroot ((List.dropLast_prefix q.parts).trans hparts)
  | @again _ _ q _ _ ih =>
      have hparent := ih hroot ((List.dropLast_prefix q.parts).trans hparts)
      exact hparent.trans (ensureDirectory_made hroot hparts)

/-- Making the directories of a path adds nothing else. -/
theorem makeDirectories_made (fs : FileSystem) (p : FilePath) :
    MadeAlong p fs (fs.makeDirectories p).1 :=
  (ensured_makeDirectories fs p).made rfl (List.prefix_refl p.parts)

theorem isDirectory_eq_true_iff :
    fs.isDirectory p = .ok true ↔ ∃ d, fs.find true p = .ok (.directory d) := by
  rw [isDirectory, look]
  constructor
  · intro h
    split at h
    · cases h
    · next place hplace hfind =>
        cases place with
        | directory d => exact ⟨d, hfind⟩
        | file _ _ => cases h
        | link _ _ => cases h
        | vacant _ _ => cases h
    · cases h
    · split at h <;> cases h
  · rintro ⟨d, hd⟩
    rw [hd]
    rfl

/-- When a directory has been made or was there, its path leads to it. -/
theorem find_of_ensureDirectory (h : (fs.ensureDirectory p).2 = .ok ()) :
    ∃ d, (fs.ensureDirectory p).1.find true p = .ok (.directory d) := by
  unfold ensureDirectory at h ⊢
  split at h
  · next hmade =>
      obtain ⟨d, -, -, -, hd⟩ := find_of_makeDirectory hmade
      exact ⟨d, hd⟩
  · split_ifs at h ⊢
    split at h
    · next hdirectory => exact isDirectory_eq_true_iff.1 hdirectory
    · cases h
    · cases h
  · cases h

theorem Ensured.find {r : FileSystem × Except DirectoryError Unit} (h : Ensured fs levels p r)
    (hmade : r.2 = .ok ()) : ∃ d, r.1.find true p = .ok (.directory d) := by
  cases h with
  | once _ => exact find_of_ensureDirectory hmade
  | deep _ _ => cases hmade
  | blocked _ _ _ => cases hmade
  | again _ _ => exact find_of_ensureDirectory hmade

end FileSystem

end JniHeader
