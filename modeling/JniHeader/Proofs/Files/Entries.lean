import JniHeader.Files.System
import Mathlib.Tactic.Common

/-!
# Entries of a file system

Letting an entry stand at a location and taking one away change what is there and
nothing else. Whatever stands anywhere stands in a directory. A file system without
symbolic links stays one as long as no link is put into it.
-/
namespace JniHeader

def FileEntry.isLink : FileEntry → Bool
  | .link _ => true
  | _ => false

namespace FileSystem

variable {fs : FileSystem} {location other : Location} {name : Text} {e : FileEntry}

/-- What stands elsewhere than at the root is in the table. -/
theorem mem_entries (hlocation : location ≠ []) (h : fs.entryAt location = some e) :
    (location, e) ∈ fs.entries :=
  FileTable.mem_of_entryAt hlocation h

/-- What stands under a name stands in a directory. -/
theorem directory_of_entryAt (h : fs.entryAt (name :: location) = some e) :
    fs.entryAt location = some .directory :=
  fs.isTree.parent _ (mem_entries (List.cons_ne_nil name location) h)

theorem ne_dots_of_entryAt (h : fs.entryAt (name :: location) = some e) : name ≠ ".." := by
  rintro rfl
  have hkey := List.mem_map_of_mem (f := Prod.fst) (mem_entries (List.cons_ne_nil _ location) h)
  exact fs.isTree.named _ hkey rfl

theorem dots_not_mem_of_entryAt (h : fs.entryAt location = some e) : (".." : Text) ∉ location := by
  induction location generalizing e with
  | nil => exact List.not_mem_nil
  | cons name parent ih =>
      intro hmem
      rcases List.mem_cons.1 hmem with hname | hparent
      · exact ne_dots_of_entryAt h hname.symm
      · exact ih (directory_of_entryAt h) hparent

/-- What is around a directory is a directory. -/
theorem directory_tail (h : fs.entryAt location = some .directory) :
    fs.entryAt location.tail = some .directory := by
  cases location with
  | nil => rfl
  | cons name parent => exact directory_of_entryAt h

/-- Only directories have entries below them. -/
theorem directory_of_append {inner : Location} (hinner : inner ≠ [])
    (h : fs.entryAt (inner ++ location) = some e) : fs.entryAt location = some .directory := by
  induction inner generalizing e with
  | nil => exact absurd rfl hinner
  | cons name inner ih =>
      have hparent := directory_of_entryAt h
      by_cases hnil : inner = []
      · rwa [hnil] at hparent
      · exact ih hnil hparent

theorem ne_nil_of_not_directory (h : fs.entryAt location ≠ some .directory) : location ≠ [] := by
  rintro rfl
  exact h rfl

/-- What is no directory can be replaced. -/
theorem admits_of_entryAt (h : fs.entryAt location = some e) (hne : e ≠ .directory) :
    fs.Admits location := by
  cases location with
  | nil => exact absurd (Option.some.inj h).symm hne
  | cons name parent =>
      refine ⟨directory_of_entryAt h, ?_, ?_⟩
      · rw [h]
        exact fun heq => hne (Option.some.inj heq)
      · exact fun heq => ne_dots_of_entryAt h (Option.some.inj heq)

/-- A vacant place in a directory can be filled. -/
theorem admits_of_none (hparent : fs.entryAt location = some .directory) (hdots : name ≠ "..")
    (hnone : fs.entryAt (name :: location) = none) : fs.Admits (name :: location) := by
  refine ⟨hparent, ?_, fun heq => hdots (Option.some.inj heq)⟩
  rw [hnone]
  exact (Option.some_ne_none _).symm

theorem workingDirectory_put (fs : FileSystem) (location : Location) (e : FileEntry) :
    (fs.put location e).workingDirectory = fs.workingDirectory := by
  rw [put]
  split <;> rfl

theorem limits_put (fs : FileSystem) (location : Location) (e : FileEntry) :
    (fs.put location e).limits = fs.limits := by
  rw [put]
  split <;> rfl

theorem workingDirectory_erase (fs : FileSystem) (location : Location) :
    (fs.erase location).workingDirectory = fs.workingDirectory := by
  rw [erase]
  split <;> rfl

theorem limits_erase (fs : FileSystem) (location : Location) :
    (fs.erase location).limits = fs.limits := by
  rw [erase]
  split <;> rfl

theorem entryAt_erase_of_ne (h : other ≠ location) :
    (fs.erase location).entryAt other = fs.entryAt other := by
  rw [erase]
  split
  · rfl
  · exact FileTable.entryAt_without h

theorem entryAt_erase (h : fs.entryAt location ≠ some .directory) :
    (fs.erase location).entryAt location = none := by
  rw [erase, dif_neg h]
  change FileTable.entryAt (fs.entries.without location) location = none
  rw [FileTable.entryAt_eq_lookup (ne_nil_of_not_directory h), FileTable.lookup_without_self]

theorem entryAt_put_of_ne (e : FileEntry) (h : other ≠ location) :
    (fs.put location e).entryAt other = fs.entryAt other := by
  rw [put]
  split
  · exact FileTable.entryAt_insert_of_ne e h
  · rfl

theorem entryAt_put (e : FileEntry) (h : fs.Admits location) :
    (fs.put location e).entryAt location = some e := by
  rw [put, dif_pos h]
  exact FileTable.entryAt_insert e (ne_nil_of_not_directory h.2.1)

/-- There are no symbolic links. -/
def LinkFree (fs : FileSystem) : Prop := ∀ x ∈ fs.entries, x.2.isLink = false

instance (fs : FileSystem) : Decidable fs.LinkFree :=
  inferInstanceAs (Decidable (∀ x ∈ fs.entries, x.2.isLink = false))

namespace LinkFree

theorem erase (h : fs.LinkFree) (location : Location) : (fs.erase location).LinkFree := by
  rw [FileSystem.erase]
  split
  · exact h
  · exact fun x hx => h x (List.mem_filter.1 hx).1

theorem put (h : fs.LinkFree) (location : Location) (he : e.isLink = false) :
    (fs.put location e).LinkFree := by
  rw [FileSystem.put]
  split
  · exact List.forall_mem_cons.2 ⟨he, fun x hx => h x (List.mem_filter.1 hx).1⟩
  · exact h

theorem entryAt_ne_link (h : fs.LinkFree) (location : Location) (target : FilePath) :
    fs.entryAt location ≠ some (.link target) := by
  intro hlink
  cases location with
  | nil => cases hlink
  | cons name parent =>
      have hmem := mem_entries (List.cons_ne_nil name parent) hlink
      cases h _ hmem

end LinkFree

end FileSystem

end JniHeader
