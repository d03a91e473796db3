import JniHeader.Proofs.Files.Entries
import JniHeader.Proofs.Text.Order
import Mathlib.Data.List.Nodup

/-!
# Names in a directory

The names in a directory are those under which there is an entry, each once. So two
tables give the same names, as far as they are kept, if they have entries under the same
ones of those.
-/
namespace JniHeader.FileSystem

variable {fs fs' : FileSystem} {location : Location} {name : Text}

/-- The name of a location that is directly in the directory. -/
def nameIn (location : Location) : Location → Option Text
  | name :: parent => if parent = location then some name else none
  | [] => none

theorem nameIn_eq_some_iff {key : Location} :
    nameIn location key = some name ↔ key = name :: location := by
  cases key with
  | nil => simp [nameIn]
  | cons first parent => simp [nameIn, and_comm]

/-- The names in a directory, in the order of the table. -/
def namesIn (fs : FileSystem) (location : Location) : List Text :=
  (fs.entries.map Prod.fst).filterMap (nameIn location)

theorem childNames_eq_sort (fs : FileSystem) (location : Location) :
    fs.childNames location = Text.sort (fs.namesIn location) := by
  rw [childNames, namesIn, List.filterMap_map]
  congr 2
  funext x
  obtain ⟨key, e⟩ := x
  cases key with
  | nil => rfl
  | cons name parent => rfl

theorem nodup_namesIn (fs : FileSystem) (location : Location) : (fs.namesIn location).Nodup := by
  refine List.Nodup.filterMap ?_ fs.isTree.nodup
  intro key key' name h h'
  rw [nameIn_eq_some_iff.1 h, nameIn_eq_some_iff.1 h']

theorem mem_namesIn_iff : name ∈ fs.namesIn location ↔ fs.entryAt (name :: location) ≠ none := by
  rw [entryAt, FileTable.entryAt_eq_lookup (List.cons_ne_nil name location), Ne,
    List.lookup_eq_none_iff, namesIn, List.mem_filterMap]
  constructor
  · rintro ⟨key, hkey, hname⟩ hnone
    obtain ⟨x, hx, rfl⟩ := List.mem_map.1 hkey
    have hne := hnone x hx
    rw [nameIn_eq_some_iff.1 hname] at hne
    simp at hne
  · intro h
    simp only [not_forall] at h
    obtain ⟨x, hx, hkey⟩ := h
    refine ⟨x.1, List.mem_map_of_mem hx, nameIn_eq_some_iff.2 ?_⟩
    have heq : name :: location = x.1 := by simpa using hkey
    exact heq.symm

theorem mem_childNames_iff :
    name ∈ fs.childNames location ↔ fs.entryAt (name :: location) ≠ none := by
  rw [childNames_eq_sort, (Text.perm_sort _).mem_iff, mem_namesIn_iff]

/-- The children that may be listed, from what the path leads to. -/
theorem permittedChildren_eq (fs : FileSystem) (p : FilePath) :
    fs.permittedChildren p =
      match fs.look p with
      | .error e => .error e
      | .ok (some (.directory location)) =>
        match fs.limits.listing location with
        | some r => if r.isPermission then .ok [] else .error ⟨.refused r, some p⟩
        | none => .ok ((fs.childNames location).map (inDirectory p))
      | .ok _ => .ok [] := by
  rw [permittedChildren, isDirectory, children]
  cases fs.look p with
  | error e => rfl
  | ok answer =>
      cases answer with
      | none => rfl
      | some place =>
          cases place with
          | directory location =>
              cases hlisting : fs.limits.listing location with
              | none => simp only [hlisting]; rfl
              | some refusal => simp only [hlisting]; rfl
          | file location f => rfl
          | link location target => rfl
          | vacant parent name => rfl

theorem mem_children_iff {p q : FilePath} {files : List FilePath} (h : fs.children p = .ok files) :
    q ∈ files ↔ ∃ location name, fs.look p = .ok (some (.directory location)) ∧
      fs.entryAt (name :: location) ≠ none ∧ q = inDirectory p name := by
  unfold children at h
  split at h
  · cases h
  · next location hlook =>
      split at h
      · cases h
      · obtain rfl := Except.ok.inj h
        rw [List.mem_map]
        constructor
        · rintro ⟨name, hname, rfl⟩
          exact ⟨location, name, hlook, mem_childNames_iff.1 hname, rfl⟩
        · rintro ⟨location', name, hlook', hentry, rfl⟩
          rw [hlook] at hlook'
          cases hlook'
          exact ⟨name, mem_childNames_iff.2 hentry, rfl⟩
  · next place hnot hlook =>
      obtain rfl := Except.ok.inj h
      refine iff_of_false List.not_mem_nil ?_
      rintro ⟨location, -, hlook', -⟩
      rw [hlook] at hlook'
      exact hnot location (Except.ok.inj hlook')

/-- What can be listed may be listed. -/
theorem permittedChildren_of_children {p : FilePath} {files : List FilePath}
    (h : fs.children p = .ok files) : fs.permittedChildren p = .ok files := by
  rw [permittedChildren, h]
  rw [children] at h
  rw [isDirectory]
  cases hlook : fs.look p with
  | error e =>
      rw [hlook] at h
      cases h
  | ok answer => rfl

theorem filter_childNames_congr {keep : Text → Bool}
    (h : ∀ name, keep name = true →
      (fs'.entryAt (name :: location) = none ↔ fs.entryAt (name :: location) = none)) :
    (fs'.childNames location).filter keep = (fs.childNames location).filter keep := by
  rw [childNames_eq_sort, childNames_eq_sort]
  apply Text.filter_sort_congr (nodup_namesIn fs' location) (nodup_namesIn fs location)
  intro name hname
  rw [mem_namesIn_iff, mem_namesIn_iff]
  exact not_congr (h name hname)

end JniHeader.FileSystem
