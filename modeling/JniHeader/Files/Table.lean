import JniHeader.Files.Error

/-!
# Tables of files

What stands in a file system is a finite table from locations to directories, regular
files and symbolic links. A table is a tree: every entry stands in a directory, and no
name is two dots. It stays one when an entry that is no directory is taken away, and
when an entry is put into a directory where no directory was.
-/
namespace JniHeader

/-- A regular file. One that is damaged can be opened but neither read nor written. -/
structure RegularFile where
  content : ByteArray
  isExecutable : Bool := false
  isReadable : Bool := true
  isWritable : Bool := true
  isDamaged : Bool := false

instance : DecidableEq RegularFile := fun f g =>
  decidable_of_decidable_of_iff
    (p := f.content.data = g.content.data ∧ f.isExecutable = g.isExecutable ∧
      f.isReadable = g.isReadable ∧ f.isWritable = g.isWritable ∧ f.isDamaged = g.isDamaged)
    (by cases f; cases g; simp [ByteArray.ext_iff])

/-- The content of a file that is opened at a path. -/
def RegularFile.read (f : RegularFile) (p : FilePath) : Except SystemError ByteArray :=
  if !f.isReadable then .error ⟨.refused .accessDenied, some p⟩
  else if f.isDamaged then .error ⟨.refused .inputOutput, none⟩
  else .ok f.content

inductive FileEntry where
  | directory
  | file (f : RegularFile)
  | link (target : FilePath)
deriving DecidableEq

/-- The names on the way from a place up to the root, innermost first. -/
abbrev Location := List Text

abbrev FileTable := List (Location × FileEntry)

namespace FileTable

variable {t : FileTable} {location other : Location}

/-- What stands at a location. The root is a directory. -/
def entryAt (t : FileTable) : Location → Option FileEntry
  | [] => some .directory
  | location => t.lookup location

/-- The table with nothing at a location. -/
def without (t : FileTable) (location : Location) : FileTable := t.filter fun x => x.1 ≠ location

theorem entryAt_eq_lookup (h : location ≠ []) : t.entryAt location = t.lookup location := by
  cases location with
  | nil => exact absurd rfl h
  | cons name parent => rfl

/-- What stands elsewhere than at the root is in the table. -/
theorem mem_of_entryAt {e : FileEntry} (hlocation : location ≠ [])
    (h : t.entryAt location = some e) : (location, e) ∈ t := by
  rw [entryAt_eq_lookup hlocation] at h
  obtain ⟨before, after, hsplit, -⟩ := List.lookup_eq_some_iff.1 h
  rw [hsplit]
  simp

theorem lookup_without (h : other ≠ location) :
    (t.without location).lookup other = t.lookup other := by
  induction t with
  | nil => rfl
  | cons x rest ih =>
    obtain ⟨key, e⟩ := x
    rw [without, List.filter_cons]
    by_cases hkey : key = location
    · have hother : (other == key) = false := by
        rw [hkey]
        exact beq_false_of_ne h
      rw [if_neg (by simpa using hkey), List.lookup_cons, hother]
      exact ih
    · rw [if_pos (by simpa using hkey), List.lookup_cons, List.lookup_cons]
      split
      · rfl
      · exact ih

theorem lookup_without_self (t : FileTable) (location : Location) :
    (t.without location).lookup location = none := by
  rw [List.lookup_eq_none_iff]
  intro x hx
  have hne : x.1 ≠ location := of_decide_eq_true (List.mem_filter.1 hx).2
  exact bne_iff_ne.2 hne.symm

theorem entryAt_without (h : other ≠ location) :
    (t.without location).entryAt other = t.entryAt other := by
  cases other with
  | nil => rfl
  | cons name parent => exact lookup_without h

theorem entryAt_insert_of_ne (e : FileEntry) (h : other ≠ location) :
    entryAt ((location, e) :: t.without location) other = t.entryAt other := by
  cases other with
  | nil => rfl
  | cons name parent =>
    rw [entryAt_eq_lookup (List.cons_ne_nil _ _), List.lookup_cons, beq_false_of_ne h]
    exact lookup_without h

theorem entryAt_insert (e : FileEntry) (h : location ≠ []) :
    entryAt ((location, e) :: t.without location) location = some e := by
  rw [entryAt_eq_lookup h, List.lookup_cons, beq_self_eq_true]

/-- Locations are listed once, every entry stands in a directory, and no name is two dots. -/
structure IsTree (t : FileTable) : Prop where
  nodup : (t.map Prod.fst).Nodup
  named : ∀ location ∈ t.map Prod.fst, location.head? ≠ some ".."
  parent : ∀ x ∈ t, t.entryAt x.1.tail = some .directory

instance (t : FileTable) : Decidable t.IsTree :=
  decidable_of_iff ((t.map Prod.fst).Nodup ∧
      (∀ location ∈ t.map Prod.fst, location.head? ≠ some "..") ∧
      ∀ x ∈ t, t.entryAt x.1.tail = some .directory)
    ⟨fun h => ⟨h.1, h.2.1, h.2.2⟩, fun h => ⟨h.nodup, h.named, h.parent⟩⟩

namespace IsTree

theorem without (h : t.IsTree) (hnot : t.entryAt location ≠ some .directory) :
    (t.without location).IsTree where
  nodup := h.nodup.sublist (List.filter_sublist.map Prod.fst)
  named other hother := h.named other ((List.filter_sublist.map Prod.fst).subset hother)
  parent x hx := by
    have hparent := h.parent x (List.mem_filter.1 hx).1
    rw [entryAt_without, hparent]
    intro hsame
    rw [hsame] at hparent
    exact hnot hparent

theorem insert (h : t.IsTree) (e : FileEntry) (hparent : t.entryAt location.tail = some .directory)
    (hnot : t.entryAt location ≠ some .directory) (hname : location.head? ≠ some "..") :
    IsTree ((location, e) :: t.without location) where
  nodup := by
    refine List.nodup_cons.2 ⟨?_, (h.without hnot).nodup⟩
    simp [FileTable.without]
  named other hother := by
    rcases List.mem_cons.1 hother with rfl | hother
    · exact hname
    · exact (h.without hnot).named other hother
  parent x hx := by
    have hdirectory : t.entryAt x.1.tail = some .directory := by
      rcases List.mem_cons.1 hx with rfl | hx
      · exact hparent
      · exact h.parent x (List.mem_filter.1 hx).1
    rw [entryAt_insert_of_ne, hdirectory]
    intro hsame
    rw [hsame] at hdirectory
    exact hnot hdirectory

end IsTree

end FileTable

end JniHeader
