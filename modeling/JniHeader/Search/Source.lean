import JniHeader.Search.Runtime

/-!
# Class sources

A source answers lookups of classes. It has finitely many different answers,
and `extent` bounds their number; a walk from class to class that comes to no
class twice therefore ends. Every search path on a host is a source: what it
finds is the content of a file, or an entry of a file that is an archive.
-/
namespace JniHeader

structure ClassSource where
  lookup : QualifiedName → Except Failure (Option (List UInt8))
  extent : Nat
  finite : ∃ pool : List (List UInt8), pool.length ≤ extent ∧
    ∀ name bytes, lookup name = .ok (some bytes) → bytes ∈ pool

namespace FileEntry

/-- The bytes of classes that an entry of a file system can supply. -/
def classData : FileEntry → List (List UInt8)
  | .file f => f.content.data.toList :: Archive.allData f.content
  | _ => []

/-- A bound on the number of such byte strings. -/
def extent : FileEntry → Nat
  | .file f => f.content.size + 1
  | _ => 0

theorem length_classData (e : FileEntry) : e.classData.length ≤ e.extent := by
  cases e with
  | file f => exact Nat.succ_le_succ (Archive.length_allData f.content)
  | directory => exact Nat.le_refl 0
  | link target => exact Nat.le_refl 0

end FileEntry

namespace FileSystem

def classData (fs : FileSystem) : List (List UInt8) :=
  fs.entries.flatMap fun x => x.2.classData

def extent (fs : FileSystem) : Nat := fs.entries.foldr (fun x n => x.2.extent + n) 0

theorem length_classData (fs : FileSystem) : fs.classData.length ≤ fs.extent := by
  unfold classData extent
  induction fs.entries with
  | nil => exact Nat.le_refl 0
  | cons x xs ih =>
    simp only [List.flatMap_cons, List.length_append, List.foldr_cons]
    exact Nat.add_le_add x.2.length_classData ih

theorem mem_entries_of_entryAt {fs : FileSystem} {location : Location} {f : RegularFile}
    (h : fs.entryAt location = some (.file f)) : (location, FileEntry.file f) ∈ fs.entries := by
  refine FileTable.mem_of_entryAt ?_ h
  rintro rfl
  cases h

/-- A step-by-step walk finds a file only where the table has it. -/
theorem walkWith_file {fs : FileSystem} {followLast : Bool}
    {onLink : Location → FilePath → List Text → Except SystemProblem Place}
    (hlink : ∀ here target rest location f, onLink here target rest = .ok (.file location f) →
      fs.entryAt location = some (.file f))
    {here : Location} {parts : List Text} {location : Location} {f : RegularFile}
    (h : fs.walkWith followLast onLink here parts = .ok (.file location f)) :
    fs.entryAt location = some (.file f) := by
  induction parts generalizing here with
  | nil => simp [walkWith] at h
  | cons name rest ih =>
    rw [walkWith] at h
    split at h
    · cases h
    · split at h
      · exact ih h
      · split at h
        · split at h <;> simp at h
        · exact ih h
        · next g hg =>
          split at h
          · simp only [Except.ok.injEq, Place.file.injEq] at h
            obtain ⟨rfl, rfl⟩ := h
            exact hg
          · simp at h
        · split at h
          · simp at h
          · exact hlink _ _ _ _ _ h

theorem walk_file {fs : FileSystem} {followLast : Bool} {links : Nat} {here : Location}
    {parts : List Text} {location : Location} {f : RegularFile}
    (h : fs.walk followLast links here parts = .ok (.file location f)) :
    fs.entryAt location = some (.file f) := by
  induction links generalizing here parts location f with
  | zero => exact walkWith_file (fun _ _ _ _ _ hl => by simp at hl) h
  | succ links ih => exact walkWith_file (fun _ _ _ _ _ hl => ih hl) h

theorem find_file {fs : FileSystem} {followLast : Bool} {p : FilePath} {location : Location}
    {f : RegularFile} (h : fs.find followLast p = .ok (.file location f)) :
    fs.entryAt location = some (.file f) := by
  unfold find at h
  split at h
  · simp at h
  · split at h
    · simp at h
    · split at h
      · next place hw =>
        simp only [Except.ok.injEq] at h
        subst h
        exact walk_file hw
      · simp at h

theorem regularFile?_mem {fs : FileSystem} {p : FilePath} {f : RegularFile}
    (h : fs.regularFile? p = .ok (some f)) :
    ∃ location, (location, FileEntry.file f) ∈ fs.entries := by
  unfold regularFile? look at h
  split at h
  · simp [Except.map] at h
  · next place _ hf =>
    cases place with
    | file location g =>
      simp only [Except.map, Except.ok.injEq, Option.some.injEq] at h
      subst h
      exact ⟨location, mem_entries_of_entryAt (find_file hf)⟩
    | directory => simp [Except.map] at h
    | link => simp [Except.map] at h
    | vacant => simp [Except.map] at h
  · simp [Except.map] at h
  · split at h <;> simp [Except.map] at h

theorem mem_classData {fs : FileSystem} {location : Location} {f : RegularFile}
    {bytes : List UInt8} (hf : (location, FileEntry.file f) ∈ fs.entries)
    (hb : bytes ∈ (FileEntry.file f).classData) : bytes ∈ fs.classData :=
  List.mem_flatMap.2 ⟨_, hf, hb⟩

end FileSystem

theorem content_of_read {f : RegularFile} {p : FilePath} {content : ByteArray}
    (h : f.read p = .ok content) : f.content = content := by
  unfold RegularFile.read at h
  split at h
  · cases h
  · split at h
    · cases h
    · exact Except.ok.inj h

theorem readDirectoryClass_mem {fs : FileSystem} {root : FilePath} {binary : Text}
    {bytes : List UInt8} (h : readDirectoryClass fs root binary = .ok (some bytes)) :
    bytes ∈ fs.classData := by
  simp only [readDirectoryClass] at h
  split at h
  · simp at h
  · simp at h
  · next f hf =>
    obtain ⟨location, hm⟩ := FileSystem.regularFile?_mem hf
    split at h
    · cases h
    · next content hr =>
      obtain rfl := content_of_read hr
      simp only [Except.ok.injEq, Option.some.injEq] at h
      subst h
      exact FileSystem.mem_classData hm (by simp [FileEntry.classData])

theorem readArchiveClass_mem {fs : FileSystem} {a : ArchivePath} {binary : Text}
    {bytes : List UInt8} (h : readArchiveClass fs a binary = .ok (some bytes)) :
    bytes ∈ fs.classData := by
  simp only [readArchiveClass] at h
  split at h
  · simp at h
  · simp at h
  · next f hf =>
    obtain ⟨location, hm⟩ := FileSystem.regularFile?_mem hf
    split at h
    · cases h
    · split at h
      · next found hr =>
        simp only [Except.ok.injEq] at h
        subst h
        unfold readArchiveFile at hr
        split at hr
        · simp at hr
        · exact FileSystem.mem_classData hm (List.mem_cons_of_mem _ (Archive.mem_allData hr))
      · cases h

theorem firstFound_mem {α β : Type} {look : α → Except Failure (Option β)} {xs : List α} {y : β}
    (h : firstFound look xs = .ok (some y)) : ∃ x ∈ xs, look x = .ok (some y) := by
  induction xs with
  | nil => simp [firstFound] at h
  | cons x xs ih =>
    rw [firstFound] at h
    split at h
    · obtain ⟨z, hz, hy⟩ := ih h
      exact ⟨z, List.mem_cons_of_mem _ hz, hy⟩
    · exact ⟨x, List.mem_cons_self, h⟩

theorem Provider.resolve_mem {host : Host} {p : Provider} {name : QualifiedName}
    {bytes : List UInt8} (h : p.resolve host name = .ok (some bytes)) :
    bytes ∈ host.files.classData := by
  cases p with
  | directory root => exact readDirectoryClass_mem h
  | archive a => exact readArchiveClass_mem h
  | unknown label => simp [resolve] at h
  | runtime home =>
    simp only [resolve, readRuntimeClass] at h
    split at h
    · simp at h
    · split at h
      · simp at h
      · obtain ⟨a, -, ha⟩ := firstFound_mem h
        exact readArchiveClass_mem ha

/-- The lookups of a search path. -/
def SearchPath.source (host : Host) (path : SearchPath) : ClassSource where
  lookup := path.resolve host
  extent := host.files.extent
  finite := ⟨host.files.classData, host.files.length_classData, fun _ _ h =>
    let ⟨_, _, hp⟩ := firstFound_mem h
    Provider.resolve_mem hp⟩

end JniHeader
