import JniHeader.Proofs.Files.Components
import JniHeader.Proofs.Files.Trees
import JniHeader.Proofs.Generation.Lookups

/-!
# Packed class trees

A tree of class files and an archive that holds the files of the tree under their
relative paths are asked in different ways: one for a path, whose components lead from
directory to directory, the other for the name of an entry. For names whose segments are
components of paths both have the same answers. A header and its report are therefore
the same from either.
-/
namespace JniHeader

theorem slash_not_mem_classSuffix : CodePoint.ofChar '/' ∉ classSuffix := by decide

namespace QualifiedName

/-- Below the root there can be a class file of this name, and an entry of an archive that names
it. The segments of a binary name hold no dots. -/
structure Packable (root : FilePath) (n : QualifiedName) : Prop where
  segments : ∀ part ∈ Text.splitAt '/' n.binaryName, part ≠ []
  characters : ∀ c ∈ n.binaryName, c.val ≠ 0 ∧ c.isSurrogate = false
  segmentSize : ∀ part ∈ Text.splitAt '/' (n.binaryName ++ classSuffix),
    part.nameSize ≤ FileSystem.maxNameSize
  pathSize : (root.append (n.binaryName ++ classSuffix)).text.nameSize ≤ FileSystem.maxPathSize

/-- The components of the path of a class file. -/
def fileParts (n : QualifiedName) : List Text := Text.splitAt '/' (n.binaryName ++ classSuffix)

theorem dot_not_mem_binaryName (n : QualifiedName) : CodePoint.ofChar '.' ∉ n.binaryName :=
  Text.not_mem_replace (by decide) _

namespace Packable

variable {root : FilePath} {n : QualifiedName} {part : Text}

theorem part_cases (h : n.Packable root) (hpart : part ∈ n.fileParts) :
    (part ≠ [] ∧ CodePoint.ofChar '.' ∉ part) ∨
      ∃ stem, stem ≠ [] ∧ CodePoint.ofChar '.' ∉ stem ∧ part = stem ++ classSuffix := by
  obtain ⟨init, last, hname, hparts⟩ :=
    Text.splitAt_append_of_not_mem slash_not_mem_classSuffix n.binaryName
  have hsegment : ∀ segment ∈ init ++ [last], segment ≠ [] ∧ CodePoint.ofChar '.' ∉ segment := by
    intro segment hsegment
    rw [← hname] at hsegment
    refine ⟨h.segments segment hsegment, fun hdot => ?_⟩
    exact n.dot_not_mem_binaryName ((Text.sublist_of_mem_splitAt hsegment).subset hdot)
  rw [fileParts, hparts, List.mem_append, List.mem_singleton] at hpart
  rcases hpart with hpart | rfl
  · exact .inl (hsegment part (List.mem_append_left _ hpart))
  · obtain ⟨hne, hdot⟩ := hsegment last (List.mem_append_right _ (List.mem_singleton_self last))
    exact .inr ⟨last, hne, hdot, rfl⟩

theorem part_ne (h : n.Packable root) (hpart : part ∈ n.fileParts) :
    part ≠ [] ∧ part ≠ "." ∧ part ≠ ".." := by
  rcases h.part_cases hpart with ⟨hne, hdot⟩ | ⟨stem, hne, hdot, rfl⟩
  · refine ⟨hne, ?_, ?_⟩
    · rintro rfl
      exact hdot (by decide)
    · rintro rfl
      exact hdot (by decide)
  · have hlength : classSuffix.length = 6 := by decide
    have hlong : ∀ t : Text, t.length ≤ 5 → stem ++ classSuffix ≠ t := by
      rintro t ht rfl
      rw [List.length_append, hlength] at ht
      omega
    exact ⟨hlong _ (by decide), hlong _ (by decide), hlong _ (by decide)⟩

/-- The path of the class file of a packable name has the name's components. -/
theorem append_eq (h : n.Packable root) :
    root.append (n.binaryName ++ classSuffix) = ⟨root.root, root.parts ++ n.fileParts⟩ := by
  have hhead : (n.binaryName ++ classSuffix).head? ≠ some (CodePoint.ofChar '/') := by
    intro hhead
    have hempty : ([] : Text) ∈ n.fileParts := by
      obtain ⟨rest, hrest⟩ := List.head?_eq_some_iff.1 hhead
      rw [fileParts, hrest, Text.splitAt_sep]
      exact List.mem_cons_self
    exact (h.part_ne hempty).1 rfl
  have hparts : FilePath.partsOf (n.binaryName ++ classSuffix) = n.fileParts := by
    refine List.filter_eq_self.2 fun part hpart => ?_
    obtain ⟨hne, hdot, -⟩ := h.part_ne hpart
    simp [hne, hdot]
  rw [FilePath.append_of_head_ne hhead, hparts]

theorem enterable (h : n.Packable root) : FileSystem.Enterable n.fileParts :=
  fun part hpart => ⟨Nat.not_lt.2 (h.segmentSize part hpart), (h.part_ne hpart).2.2⟩

theorem isNameable (h : n.Packable root) (hpart : part ∈ n.fileParts) :
    ∀ c ∈ part, c.IsNameable := by
  intro c hc
  have hmem := (Text.sublist_of_mem_splitAt hpart).subset hc
  have hplain : c.val ≠ 0 ∧ c.isSurrogate = false := by
    rcases List.mem_append.1 hmem with hmem | hmem
    · exact h.characters c hmem
    · have hall : ∀ c ∈ classSuffix, c.val ≠ 0 ∧ c.isSurrogate = false := by decide
      exact hall c hmem
  refine ⟨fun hsurrogate => ?_, hplain.1⟩
  rw [hplain.2] at hsurrogate
  cases hsurrogate

end Packable

end QualifiedName

/-- The bytes of a file. -/
def RegularFile.bytes (f : RegularFile) : List UInt8 := f.content.data.toList

/-- A folder of the archive holds the class files below a location, and no other class files, under
their relative paths. -/
def FileSystem.PackedIn (fs : FileSystem) (here : Location) (archive : ByteArray) (folder : Text) :
    Prop :=
  ∀ path, classSuffix <:+ path → Archive.read archive (folder ++ path) =
    .ok ((fs.fileAt ((Text.splitAt '/' path).reverse ++ here)).map RegularFile.bytes)

variable {fs fs' : FileSystem} {here : Location} {root : FilePath} {n : QualifiedName}

/-- A tree gives the bytes of the file that the components of a name lead to. -/
theorem readDirectoryClass_tree (htree : fs.TreeAt here)
    (hroot : fs.look root = .ok (some (.directory here))) (hname : n.Packable root) :
    readDirectoryClass fs root n.binaryName =
      .ok ((fs.fileAt (n.fileParts.reverse ++ here)).map RegularFile.bytes) := by
  have hpath := hname.pathSize
  rw [hname.append_eq] at hpath
  have hfile := htree.regularFile? hroot hname.enterable (fun _ => hname.isNameable) hpath
  unfold readDirectoryClass
  simp only [hname.append_eq, hfile]
  cases hat : fs.fileAt (n.fileParts.reverse ++ here) with
  | none => rfl
  | some f =>
      have hsound : f.isSound = true := htree.sound _ f (List.suffix_append _ here)
        (FileSystem.fileAt_eq_some_iff.1 hat)
      simp only [RegularFile.read_of_isSound hsound]
      rfl

theorem readArchiveClass_packed {a : ArchivePath} {f : RegularFile}
    (harchive : fs'.regularFile? a.path = .ok (some f)) (hsound : f.isSound = true)
    (hpacked : fs.PackedIn here f.content a.folder) :
    readArchiveClass fs' a n.binaryName =
      .ok ((fs.fileAt (n.fileParts.reverse ++ here)).map RegularFile.bytes) := by
  obtain ⟨hreadable, hdamaged⟩ := Bool.and_eq_true_iff.1 hsound
  rw [Bool.not_eq_true'] at hdamaged
  have hread : readArchiveFile f (a.folder ++ n.binaryName ++ classSuffix) =
      .ok ((fs.fileAt (n.fileParts.reverse ++ here)).map RegularFile.bytes) := by
    rw [readArchiveFile, hdamaged, List.append_assoc]
    exact hpacked (n.binaryName ++ classSuffix) (List.suffix_append _ _)
  unfold readArchiveClass
  simp only [harchive, hreadable, hread]
  rfl

namespace SearchPath

theorem resolve_singleton (host : Host) (p : Provider) (name : QualifiedName) :
    SearchPath.resolve host [p] name = p.resolve host name := by
  rw [SearchPath.resolve, firstFound]
  split
  · next h => exact h.symm
  · rfl

/-- A class tree and an archive of it give one header with one report. -/
theorem headerOf_archive_eq_directory (host host' : Host) (root archive : FilePath)
    (name : QualifiedName) {here : Location} {f : RegularFile}
    (hroot : host.files.look root = .ok (some (.directory here)))
    (htree : host.files.TreeAt here)
    (harchive : host'.files.regularFile? archive = .ok (some f)) (hsound : f.isSound = true)
    (hpacked : host.files.PackedIn here f.content (ArchivePath.ofPath archive).folder)
    (hnames : ∀ a, Consults (SearchPath.resolve host [.directory root]) name a →
      a.Packable root) :
    headerOf (SearchPath.source host' [.archive (.ofPath archive)]) name =
      headerOf (SearchPath.source host [.directory root]) name := by
  apply headerOf_congr
  intro a ha
  change SearchPath.resolve host' [.archive (.ofPath archive)] a =
    SearchPath.resolve host [.directory root] a
  rw [resolve_singleton, resolve_singleton]
  exact (readArchiveClass_packed harchive hsound hpacked).trans
    (readDirectoryClass_tree htree hroot (hnames a ha)).symm

end SearchPath

/-- A tree of a class `A`, which uses a class `p.E`, and of that class. -/
def moduleTree : Host where
  files :=
    { entries :=
        [(["A.class"], .file { content := ⟨(userBytes [112, 47, 69]).toArray⟩ }),
          (["p"], .directory),
          (["E.class", "p"], .file { content := ⟨ClassSource.errorSubclassBytes.toArray⟩ })]
      workingDirectory := []
      isTree := by decide
      inside := rfl }
  environment := ⟨none, none, none⟩

/-- A module file of these two classes. -/
def moduleBytes : List UInt8 :=
  [80, 75, 3, 4, 20, 0, 0, 0, 0, 0, 0, 0, 33, 0, 164, 126, 191, 255, 54, 0, 0, 0, 54, 0, 0,
    0, 15, 0, 0, 0, 99, 108, 97, 115, 115, 101, 115, 47, 65, 46, 99, 108, 97, 115, 115]
  ++ userBytes [112, 47, 69] ++
  [80, 75, 3, 4, 20, 0, 0, 0, 0, 0, 0, 0, 33, 0, 33, 174, 13, 180, 50, 0, 0, 0, 50, 0, 0,
    0, 17, 0, 0, 0, 99, 108, 97, 115, 115, 101, 115, 47, 112, 47, 69, 46, 99, 108, 97, 115,
    115]
  ++ ClassSource.errorSubclassBytes ++
  [80, 75, 1, 2, 20, 0, 20, 0, 0, 0, 0, 0, 0, 0, 33, 0, 33, 174, 13, 180, 50, 0, 0, 0, 50,
    0, 0, 0, 17, 0, 0, 0, 0, 0, 0, 0, 0, 0, 0, 0, 0, 0, 99, 0, 0, 0, 99, 108, 97, 115, 115,
    101, 115, 47, 112, 47, 69, 46, 99, 108, 97, 115, 115, 80, 75, 1, 2, 20, 0, 20, 0, 0, 0,
    0, 0, 0, 0, 33, 0, 164, 126, 191, 255, 54, 0, 0, 0, 54, 0, 0, 0, 15, 0, 0, 0, 0, 0, 0,
    0, 0, 0, 0, 0, 0, 0, 0, 0, 0, 0, 99, 108, 97, 115, 115, 101, 115, 47, 65, 46, 99, 108,
    97, 115, 115, 80, 75, 5, 6, 0, 0, 0, 0, 2, 0, 2, 0, 124, 0, 0, 0, 196, 0, 0, 0, 0, 0]

def moduleFile : RegularFile := { content := ⟨moduleBytes.toArray⟩ }

/-- The module file on another machine. -/
def moduleHost : Host where
  files :=
    { entries := [(["m.jmod"], .file moduleFile)]
      workingDirectory := []
      isTree := by decide
      inside := rfl }
  environment := ⟨none, none, none⟩

def moduleArchive : Archive where
  content := moduleFile.content
  entries :=
    [⟨"classes/p/E.class", 0, 0, 3020795425, 50, 50, 99⟩,
      ⟨"classes/A.class", 0, 0, 4290739876, 54, 54, 0⟩]
  directoryStart := 196

theorem ofBytes_moduleFile : Archive.ofBytes moduleFile.content = .ok moduleArchive := by
  have hfields : (Archive.ofBytes moduleFile.content).toOption.map
      (fun a => (a.entries, a.directoryStart)) =
        some (moduleArchive.entries, moduleArchive.directoryStart) := by decide +kernel
  cases hopen : Archive.ofBytes moduleFile.content with
  | error e =>
      rw [hopen] at hfields
      cases hfields
  | ok a =>
      have hcontent := (Archive.exists_directory_of_ofBytes hopen).1
      rw [hopen] at hfields
      obtain ⟨content, entries, directoryStart⟩ := a
      obtain ⟨rfl, rfl⟩ := Prod.mk.inj (Option.some.inj hfields)
      rw [show content = moduleFile.content from hcontent]
      rfl

theorem read_moduleFile (name : Text) :
    Archive.read moduleFile.content name =
      if name = "classes/A.class" then .ok (some (userBytes [112, 47, 69]))
      else if name = "classes/p/E.class" then .ok (some ClassSource.errorSubclassBytes)
      else .ok none := by
  -- The entries stand in the order of the data, from the end on.
  have hsorted : moduleArchive.entries.mergeSort
      (fun x y => decide (y.headerOffset ≤ x.headerOffset)) = moduleArchive.entries :=
    List.mergeSort_of_pairwise (by decide)
  have hread : ∀ e ∈ moduleArchive.entries, moduleArchive.readEntry e =
      .ok (if e.name = "classes/A.class" then userBytes [112, 47, 69]
        else ClassSource.errorSubclassBytes) := by
    unfold Archive.readEntry Archive.dataStart Archive.dataLimit
    rw [hsorted]
    decide +kernel
  have hopen : Archive.read moduleFile.content name =
      (moduleArchive.find? name).elim (.ok none) fun e => some <$> moduleArchive.readEntry e := by
    rw [Archive.read, ofBytes_moduleFile]
    simp only [bind, Except.bind]
    cases moduleArchive.find? name <;> rfl
  rw [hopen]
  split_ifs with huser herror
  · rw [huser]
    have hfind : moduleArchive.find? "classes/A.class" =
        some ⟨"classes/A.class", 0, 0, 4290739876, 54, 54, 0⟩ := by decide
    rw [hfind]
    exact congrArg (some <$> ·) (hread _ (by decide))
  · rw [herror]
    have hfind : moduleArchive.find? "classes/p/E.class" =
        some ⟨"classes/p/E.class", 0, 0, 3020795425, 50, 50, 99⟩ := by decide
    rw [hfind]
    exact congrArg (some <$> ·) (hread _ (by decide))
  · have hfind : moduleArchive.find? name = none := by
      refine List.find?_eq_none.2 fun e he hname => ?_
      have hall : ∀ e ∈ moduleArchive.entries.reverse,
          e.name = "classes/A.class" ∨ e.name = "classes/p/E.class" := by decide
      have hname := eq_of_beq hname
      rcases hall e he with h | h
      · exact huser (hname.symm.trans h)
      · exact herror (hname.symm.trans h)
    rw [hfind]
    rfl

theorem packedIn_moduleFile :
    moduleTree.files.PackedIn [] moduleFile.content "classes/" := by
  intro path _
  have hfolder : ∀ t : Text, "classes/" ++ path = "classes/" ++ t ↔ path = t :=
    fun t => List.append_right_inj _
  have huser : ("classes/" ++ path = ("classes/A.class" : Text)) ↔ path = "A.class" :=
    hfolder "A.class"
  have herror : ("classes/" ++ path = ("classes/p/E.class" : Text)) ↔ path = "p/E.class" :=
    hfolder "p/E.class"
  rw [read_moduleFile]
  simp only [huser, herror]
  split_ifs with h h'
  · rw [h]
    decide +kernel
  · rw [h']
    decide +kernel
  · have hnone : moduleTree.files.fileAt ((Text.splitAt '/' path).reverse ++ []) = none := by
      rw [List.append_nil, Option.eq_none_iff_forall_ne_some]
      intro f hf
      have hne : (Text.splitAt '/' path).reverse ≠ [] :=
        List.reverse_ne_nil_iff.2 (Text.splitAt_ne_nil _ path)
      have hmem := FileSystem.mem_entries hne (FileSystem.fileAt_eq_some_iff.1 hf)
      have hparts : ∀ t : Text, (Text.splitAt '/' path).reverse = (Text.splitAt '/' t).reverse →
          path = t := fun t ht => Text.splitAt_injective '/' (List.reverse_injective ht)
      simp only [moduleTree, List.mem_cons, Prod.mk.injEq, List.not_mem_nil, or_false,
        reduceCtorEq, and_false, false_or] at hmem
      rcases hmem with ⟨hlocation, -⟩ | ⟨hlocation, -⟩
      · exact h (hparts "A.class" hlocation)
      · exact h' (hparts "p/E.class" hlocation)
    rw [hnone]
    rfl

namespace SearchPath

/-- The header of `A` from the module file, in which `p.E` is found to be throwable. -/
theorem headerOf_archive_eq_directory_module :
    (headerOf (SearchPath.source moduleHost [.archive (.ofPath ⟨.relative, ["m.jmod"]⟩)])
        ⟨"A", none⟩).result =
      .ok (some (Header.ofPrototypes ⟨"A", none⟩ []
        [⟨⟨"f", "(Lp/E;)V", false⟩, "Java_A_f", [.throwable], .void⟩])) := by
  have hfound : SearchPath.resolve moduleTree [.directory ⟨.relative, []⟩] ⟨"A", none⟩ =
      .ok (some (userBytes [112, 47, 69])) := by decide +kernel
  have hparse : ClassMeta.parse (userBytes [112, 47, 69]) =
      .ok ⟨none, [], [⟨"f", "(Lp/E;)V", false⟩]⟩ := by decide +kernel
  have hstep : superClassStep (SearchPath.resolve moduleTree [.directory ⟨.relative, []⟩])
      ⟨"p.E", none⟩ = .inr ⟨"java.lang.Error", none⟩ := by decide +kernel
  have hstop : superClassStep (SearchPath.resolve moduleTree [.directory ⟨.relative, []⟩])
      ⟨"java.lang.Error", none⟩ = .inl (.missing ⟨"java.lang.Error", none⟩) := by decide +kernel
  have heq := headerOf_archive_eq_directory moduleTree moduleHost ⟨.relative, []⟩
    ⟨.relative, ["m.jmod"]⟩ ⟨"A", none⟩ rfl
    (FileSystem.treeAt_root (by decide) (by decide) fun _ => rfl) rfl rfl packedIn_moduleFile (by
      intro a ha
      rcases ha.eq_or_ancestor hfound hparse with rfl | ⟨n, hn, ha⟩
      · exact ⟨by decide, by decide, by decide, by decide⟩
      · obtain rfl : n = ⟨"p.E", none⟩ := List.mem_singleton.1 hn
        rcases ha.eq_or_of_step hstep with rfl | ha
        · exact ⟨by decide, by decide, by decide, by decide⟩
        · obtain rfl := ha.eq_of_stop hstop
          exact ⟨by decide, by decide, by decide, by decide⟩)
  rw [heq]
  decide +kernel

end SearchPath

end JniHeader
