import JniHeader.Proofs.Files.Components
import JniHeader.Proofs.Files.PlainWalk
import JniHeader.Proofs.Generation.Lookups
import JniHeader.Proofs.Name.Accepted

/-!
# Confined lookups

A class is looked for in a directory at a path below it, unless its binary name
starts with a slash: then the path is the name's own, wherever that leads. So over
directories alone no file outside them can influence a header, provided that no
class it depends on has such a name. Accepted names are never of this kind. Names
from descriptors and from superclass entries can be, and with one that is, a header
depends on a file that no directory of the search path contains.
-/
namespace JniHeader

/-- A class is looked for below every directory at the same relative path. -/
theorem exists_classParts {name : QualifiedName} (h : ¬ name.Rooted) :
    ∃ parts, (".." : Text) ∉ parts ∧
      ∀ root : FilePath, root.append (name.binaryName ++ classSuffix) =
        ⟨root.root, root.parts ++ parts⟩ := by
  refine ⟨FilePath.partsOf (name.binaryName ++ classSuffix), ?_, ?_⟩
  · apply FilePath.two_dots_not_mem_partsOf
    have hnone : List.count (CodePoint.ofChar '.') name.binaryName = 0 :=
      List.count_eq_zero.2 (Text.not_mem_replace (by decide) _)
    have hone : List.count (CodePoint.ofChar '.') classSuffix = 1 := by decide
    rw [List.count_append]
    omega
  · apply FilePath.append_of_head_ne
    cases hname : name.binaryName with
    | nil => decide
    | cons c rest =>
        rw [QualifiedName.Rooted, hname] at h
        exact h

namespace FileSystem

/-- Both file systems answer alike about every path at or below the root. Only a path with two dots
could lead back out of it. -/
def AgreeBelow (root : FilePath) (fs fs' : FileSystem) : Prop :=
  ∀ parts, (".." : Text) ∉ parts →
    fs'.look ⟨root.root, root.parts ++ parts⟩ = fs.look ⟨root.root, root.parts ++ parts⟩

/-- File systems without links agree below a directory below which they are the same. -/
theorem agreeBelow_of_sameBelow {root : FilePath} {here : Location} {fs fs' : FileSystem}
    (hlinks : fs.LinkFree) (hlinks' : fs'.LinkFree)
    (hroot : fs.plainWalk (startOf root fs.workingDirectory) root.parts = .ok (.directory here))
    (hroot' : fs'.plainWalk (startOf root fs'.workingDirectory) root.parts = .ok (.directory here))
    (hsame : SameBelow fs fs' here) :
    AgreeBelow root fs fs' := by
  intro parts hdots
  have hwalk : fs'.plainWalk (startOf root fs'.workingDirectory) (root.parts ++ parts) =
      fs.plainWalk (startOf root fs.workingDirectory) (root.parts ++ parts) := by
    rw [plainWalk_append hroot, plainWalk_append hroot', hsame.plainWalk hdots]
  have hfind : fs'.find true ⟨root.root, root.parts ++ parts⟩ =
      fs.find true ⟨root.root, root.parts ++ parts⟩ := by
    apply find_congr
    rw [walk_of_linkFree hlinks, walk_of_linkFree hlinks']
    exact hwalk
  rw [look, look, hfind]

end FileSystem

variable {root : FilePath} {name : QualifiedName}

theorem readDirectoryClass_congr {fs fs' : FileSystem} (hagree : fs.AgreeBelow root fs')
    (hname : ¬ name.Rooted) :
    readDirectoryClass fs' root name.binaryName = readDirectoryClass fs root name.binaryName := by
  obtain ⟨parts, hdots, hpath⟩ := exists_classParts hname
  have hfile : fs'.regularFile? (root.append (name.binaryName ++ classSuffix)) =
      fs.regularFile? (root.append (name.binaryName ++ classSuffix)) := by
    rw [FileSystem.regularFile?, FileSystem.regularFile?, hpath, hagree parts hdots]
  simp only [readDirectoryClass, hfile]

theorem firstFound_congr {α β : Type} {look look' : α → Except Failure (Option β)} {xs : List α}
    (h : ∀ x ∈ xs, look' x = look x) : firstFound look' xs = firstFound look xs := by
  induction xs with
  | nil => rfl
  | cons x xs ih =>
      rw [List.forall_mem_cons] at h
      rw [firstFound, firstFound, h.1, ih h.2]

namespace SearchPath

/-- The providers for directories of class files. -/
def ofDirectories (roots : List FilePath) : SearchPath := roots.map .directory

theorem resolve_ofDirectories_congr {host host' : Host} {roots : List FilePath}
    (hagree : ∀ root ∈ roots, FileSystem.AgreeBelow root host.files host'.files)
    (hname : ¬ name.Rooted) :
    (ofDirectories roots).resolve host' name = (ofDirectories roots).resolve host name := by
  apply firstFound_congr
  intro provider hprovider
  obtain ⟨root, hroot, rfl⟩ := List.mem_map.1 hprovider
  exact readDirectoryClass_congr (hagree root hroot) hname

/-- Over directories, file systems that agree below them give one header with one report, provided
that no class named in a class file on the way starts with a slash. -/
theorem headerOf_ofDirectories_congr (host host' : Host) (roots : List FilePath) (text : Text)
    (name : QualifiedName) (hname : QualifiedName.parse text = .ok name)
    (hagree : ∀ root ∈ roots, FileSystem.AgreeBelow root host.files host'.files)
    (hconsulted : ∀ a ≠ name, Consults ((ofDirectories roots).resolve host) name a → ¬ a.Rooted) :
    headerOf ((ofDirectories roots).source host') name =
      headerOf ((ofDirectories roots).source host) name := by
  apply headerOf_congr
  intro a ha
  apply resolve_ofDirectories_congr hagree
  by_cases hsame : a = name
  · rw [hsame]
    exact QualifiedName.not_rooted_of_parse hname
  · exact hconsulted a hsame ha

/-- A directory outside the search path is added. -/
theorem headerOf_ofDirectories_congr_userAndError :
    let host := userAndErrorHost [69]
    let host' : Host := { host with files := host.files.put ["x"] .directory }
    let path := ofDirectories [userRoot, errorRoot]
    QualifiedName.parse "A" = .ok ⟨"A", none⟩ ∧
    (∀ root ∈ [userRoot, errorRoot], FileSystem.AgreeBelow root host.files host'.files) ∧
    (∀ a ≠ ⟨"A", none⟩, Consults (path.resolve host) ⟨"A", none⟩ a → ¬ a.Rooted) ∧
    headerOf (path.source host') ⟨"A", none⟩ = headerOf (path.source host) ⟨"A", none⟩ := by
  intro host host' path
  have hname : QualifiedName.parse "A" = .ok ⟨"A", none⟩ := by decide
  have hlinks : host.files.LinkFree := by decide
  have hlinks' : host'.files.LinkFree := hlinks.put ["x"] rfl
  have hagree : ∀ root ∈ [userRoot, errorRoot],
      FileSystem.AgreeBelow root host.files host'.files := by
    intro root hroot
    have hsame : ∀ here : Location, ¬ here <:+ ["x"] →
        FileSystem.SameBelow host.files host'.files here := by
      refine fun here hhere => ⟨fun location hlocation => ?_, fun _ _ => ?_⟩
      · apply FileSystem.entryAt_put_of_ne
        rintro rfl
        exact hhere hlocation
      · rw [FileSystem.limits_put]
    simp only [List.mem_cons, List.not_mem_nil, or_false] at hroot
    rcases hroot with rfl | rfl
    · exact FileSystem.agreeBelow_of_sameBelow hlinks hlinks' rfl rfl (hsame ["a"] (by decide))
    · exact FileSystem.agreeBelow_of_sameBelow hlinks hlinks' rfl rfl (hsame ["e"] (by decide))
  have hconsulted : ∀ a ≠ ⟨"A", none⟩, Consults (path.resolve host) ⟨"A", none⟩ a →
      ¬ a.Rooted := by
    intro a hne ha
    rcases consults_userAndErrorHost ha with rfl | rfl | rfl
    · exact absurd rfl hne
    · decide
    · decide
  exact ⟨hname, hagree, hconsulted, headerOf_ofDirectories_congr host host' [userRoot, errorRoot]
    "A" ⟨"A", none⟩ hname hagree hconsulted⟩

/-- The class `A` uses a class whose binary name is `/e/E`. Its header depends on the file at that
path, which is not in the directory of `A`. -/
theorem headerOf_ofDirectories_rooted :
    let host := userAndErrorHost [47, 101, 47, 69]
    let host' : Host := { host with files := host.files.erase ["E.class", "e"] }
    let path := ofDirectories [userRoot]
    QualifiedName.parse "A" = .ok ⟨"A", none⟩ ∧
    host.files.LinkFree ∧ host'.files.LinkFree ∧
    (∀ root ∈ [userRoot], FileSystem.AgreeBelow root host.files host'.files) ∧
    (headerOf (path.source host') ⟨"A", none⟩).result ≠
      (headerOf (path.source host) ⟨"A", none⟩).result := by
  intro host host' path
  have hlinks : host.files.LinkFree := by decide
  have hlinks' : host'.files.LinkFree := hlinks.erase _
  refine ⟨by decide, hlinks, hlinks', ?_, by decide +kernel⟩
  intro root hroot
  obtain rfl := List.mem_singleton.1 hroot
  refine FileSystem.agreeBelow_of_sameBelow hlinks hlinks'
    (show host.files.plainWalk [] userRoot.parts = .ok (.directory ["a"]) from rfl) rfl
    ⟨fun location hlocation => ?_, fun _ _ => ?_⟩
  · apply FileSystem.entryAt_erase_of_ne
    rintro rfl
    revert hlocation
    decide
  · rw [FileSystem.limits_erase]

end SearchPath

end JniHeader
