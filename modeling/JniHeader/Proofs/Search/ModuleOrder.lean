import JniHeader.Proofs.Files.Changes
import JniHeader.Proofs.Files.Children
import JniHeader.Proofs.Generation.Packing

/-!
# The order of modules

The modules of a runtime are searched in the order of a rank, that of the module asked for
and of the base module before all others, and where ranks are equal by the names of their
files. The files of a directory have different names, so this order has no ties: sorting
lists the files rank by rank, each with the names in ascending order. Which module is asked
for changes the order of the archives alone, and the first archive that has a class is the
same in any order if it is the only one.
-/
namespace JniHeader

namespace FileSystem

/-- The files of a directory come in the order of their names, none of them twice. -/
theorem children_ascending {fs : FileSystem} {p : FilePath} {files : List FilePath}
    (h : fs.children p = .ok files) : files.Pairwise fun q r => q.fileName < r.fileName := by
  have hnames : ∀ location,
      ((fs.childNames location).map (inDirectory p)).Pairwise
        fun q r => q.fileName < r.fileName := by
    intro location
    have hdistinct : (fs.childNames location).Nodup := by
      rw [childNames_eq_sort]
      exact (Text.perm_sort _).nodup_iff.2 (nodup_namesIn fs location)
    rw [List.pairwise_map, childNames_eq_sort]
    rw [childNames_eq_sort] at hdistinct
    refine ((Text.pairwise_sort _).and hdistinct).imp ?_
    rintro s t ⟨hle, hne⟩
    have hlt : s < t := by
      by_contra hnot
      exact hne (Text.eq_of_not_lt hle hnot)
    simpa [FilePath.fileName, inDirectory] using hlt
  unfold children at h
  split at h
  · cases h
  · split at h
    · cases h
    · obtain rfl := Except.ok.inj h
      exact hnames _
  · obtain rfl := Except.ok.inj h
    exact List.Pairwise.nil

theorem permittedChildren_ascending {fs : FileSystem} {p : FilePath} {files : List FilePath}
    (h : fs.permittedChildren p = .ok files) :
    files.Pairwise fun q r => q.fileName < r.fileName := by
  unfold permittedChildren at h
  split at h
  · cases h
  · split at h
    · obtain rfl := Except.ok.inj h
      exact List.Pairwise.nil
    · cases h
  · next hfiles =>
      obtain rfl := Except.ok.inj h
      exact children_ascending hfiles

theorem inDirectory_mem_children_iff {fs : FileSystem} {p : FilePath} {files : List FilePath}
    {location : Location} (hlook : fs.look p = .ok (some (.directory location)))
    (h : fs.children p = .ok files) {name : Text} :
    inDirectory p name ∈ files ↔ fs.entryAt (name :: location) ≠ none := by
  rw [mem_children_iff h]
  constructor
  · rintro ⟨location', name', hlook', hentry, heq⟩
    rw [hlook] at hlook'
    cases hlook'
    have hparts := List.append_cancel_left (congrArg FilePath.parts heq)
    obtain rfl := List.singleton_inj.1 hparts
    exact hentry
  · exact fun hentry => ⟨location, name, hlook, hentry, rfl⟩

end FileSystem

namespace FilePath

/-- The path is that of a module's file. -/
def isOf (module : Text) (p : FilePath) : Bool := p.fileName == module ++ ".jmod"

theorem splitSuffix_module {module : Text} (h : module ≠ []) :
    splitSuffix (module ++ ".jmod") = (module, (".jmod" : Text)) := by
  have hlast : Text.afterLast '.' (module ++ ".jmod") = "jmod" := by
    rw [Text.afterLast, List.reverse_append]
    rfl
  have hlength : (module ++ (".jmod" : Text)).length - ("jmod" : Text).length - 1 =
      module.length := by
    rw [List.length_append]
    exact Nat.add_sub_cancel module.length 5
  simp only [splitSuffix, hlast, hlength, List.take_left]
  have hsome : ((Text.ofString "jmod").isEmpty || module.isEmpty) = false := by
    rw [List.isEmpty_eq_false_iff.2 h]
    rfl
  rw [if_neg (by rw [hsome]; exact Bool.false_ne_true)]
  rfl

/-- The file of a module has the module for its stem, and no other module file has. -/
theorem isOf_eq {module : Text} (h : QualifiedName.isDotted module = true) (p : FilePath) :
    p.isOf module = (isModuleFile p && p.stem == module) := by
  have hne : module ≠ [] := by
    rintro rfl
    exact absurd h (by decide)
  have hhidden : module ≠ ".jmod" := by
    rintro rfl
    exact absurd h (by decide)
  rw [Bool.eq_iff_iff, Bool.and_eq_true, isOf, beq_iff_eq, beq_iff_eq, isModuleFile,
    List.isSuffixOf_iff_suffix]
  constructor
  · intro hname
    rw [hname, stem, hname, splitSuffix_module hne]
    exact ⟨List.suffix_append module _, rfl⟩
  · rintro ⟨⟨stem', hname⟩, hstem⟩
    rw [stem, ← hname] at hstem
    by_cases hempty : stem' = []
    · rw [hempty] at hstem
      exact absurd hstem.symm hhidden
    · rw [← hname]
      have hmodule : stem' = module := by
        rw [← hstem]
        exact (congrArg Prod.fst (splitSuffix_module hempty)).symm
      rw [hmodule]

end FilePath

theorem moduleBefore_iff {preferred : List Text} {p q : FilePath} :
    moduleBefore preferred p q = true ↔ preferred.idxOf p.stem < preferred.idxOf q.stem ∨
      preferred.idxOf p.stem = preferred.idxOf q.stem ∧ ¬ q.fileName < p.fileName := by
  simp [moduleBefore]

theorem moduleBefore_trans {preferred : List Text} {p q r : FilePath}
    (h : moduleBefore preferred p q = true) (h' : moduleBefore preferred q r = true) :
    moduleBefore preferred p r = true := by
  rw [moduleBefore_iff] at *
  rcases h with h | ⟨h, hname⟩
  · exact .inl (by omega)
  · rcases h' with h' | ⟨h', hname'⟩
    · exact .inl (by omega)
    · exact .inr ⟨by omega, Text.not_lt_trans hname hname'⟩

theorem moduleBefore_total (preferred : List Text) (p q : FilePath) :
    (moduleBefore preferred p q || moduleBefore preferred q p) = true := by
  rw [Bool.or_eq_true, moduleBefore_iff, moduleBefore_iff]
  rcases Nat.lt_trichotomy (preferred.idxOf p.stem) (preferred.idxOf q.stem) with h | h | h
  · exact .inl (.inl h)
  · exact (Text.not_lt_or_not_lt p.fileName q.fileName).imp (fun hn => .inr ⟨h, hn⟩)
      fun hn => .inr ⟨h.symm, hn⟩
  · exact .inr (.inl h)

section
variable (preferred : List Text) {files : List FilePath}

/-- The files of one rank after those of the other. -/
def byRank (files : List FilePath) : List FilePath :=
  (List.range (preferred.length + 1)).flatMap fun i =>
    files.filter fun p => preferred.idxOf p.stem == i

theorem byRank_nil (files : List FilePath) : byRank [] files = files := by
  have hall : files.filter (fun p => ([] : List Text).idxOf p.stem == 0) = files :=
    List.filter_eq_self.2 fun _ _ => rfl
  exact (List.append_nil _).trans hall

theorem byRank_cons (module : Text) (preferred : List Text) (files : List FilePath) :
    byRank (module :: preferred) files = files.filter (fun p => p.stem == module) ++
      byRank preferred (files.filter fun p => !(p.stem == module)) := by
  have hfirst : ∀ p : FilePath,
      ((module :: preferred).idxOf p.stem == 0) = (p.stem == module) := by
    intro p
    by_cases h : p.stem = module
    · rw [h, List.idxOf_cons_self]
      simp
    · rw [List.idxOf_cons_ne _ (Ne.symm h)]
      simp [h]
  have hlater : ∀ (p : FilePath) (i : ℕ), ((module :: preferred).idxOf p.stem == i + 1) =
      (preferred.idxOf p.stem == i && !(p.stem == module)) := by
    intro p i
    by_cases h : p.stem = module
    · rw [h, List.idxOf_cons_self]
      simp
    · rw [List.idxOf_cons_ne _ (Ne.symm h)]
      simp [h]
  simp only [byRank, List.length_cons, List.range_succ_eq_map,
    List.flatMap_cons, List.flatMap_map, List.filter_filter, hfirst, hlater, Nat.succ_eq_add_one]

theorem mem_byRank_iff {p : FilePath} : p ∈ byRank preferred files ↔ p ∈ files := by
  simp only [byRank, List.mem_flatMap, List.mem_range, List.mem_filter, beq_iff_eq]
  constructor
  · rintro ⟨i, -, hp, -⟩
    exact hp
  · exact fun hp => ⟨_, Nat.lt_succ_of_le List.idxOf_le_length, hp, rfl⟩

theorem nodup_byRank (h : files.Nodup) : (byRank preferred files).Nodup := by
  rw [byRank, List.nodup_flatMap]
  refine ⟨fun i _ => h.filter _, List.pairwise_lt_range.imp ?_⟩
  intro i j hij p hp hq
  have hi : preferred.idxOf p.stem = i := beq_iff_eq.1 (List.mem_filter.1 hp).2
  have hj : preferred.idxOf p.stem = j := beq_iff_eq.1 (List.mem_filter.1 hq).2
  exact absurd (hi.symm.trans hj) (Nat.ne_of_lt hij)

variable (hfiles : files.Pairwise fun p q => p.fileName < q.fileName)
include hfiles

omit preferred in
theorem nodup_of_ascending : files.Nodup := by
  refine hfiles.imp ?_
  rintro p q hlt rfl
  exact (Text.not_lt_or_not_lt p.fileName p.fileName).elim (absurd hlt) (absurd hlt)

theorem pairwise_byRank :
    (byRank preferred files).Pairwise fun p q => moduleBefore preferred p q = true := by
  have hrank : ∀ {i : ℕ} {p : FilePath},
      p ∈ (files.filter fun p => preferred.idxOf p.stem == i) → preferred.idxOf p.stem = i :=
    fun hp => beq_iff_eq.1 (List.mem_filter.1 hp).2
  rw [byRank, List.pairwise_flatMap]
  constructor
  · intro i _
    refine (hfiles.filter _).imp_of_mem fun {p q} hp hq hlt => ?_
    have hle := (Text.not_lt_or_not_lt p.fileName q.fileName).resolve_right (not_not.2 hlt)
    exact moduleBefore_iff.2 (.inr ⟨(hrank hp).trans (hrank hq).symm, hle⟩)
  · refine List.pairwise_lt_range.imp fun {i j} hij p hp q hq => ?_
    rw [moduleBefore_iff, hrank hp, hrank hq]
    exact .inl hij

omit preferred in
theorem eq_of_fileName_eq {p q : FilePath} (hp : p ∈ files) (hq : q ∈ files)
    (h : p.fileName = q.fileName) : p = q := by
  have hnames : (files.map FilePath.fileName).Nodup := by
    rw [List.Nodup, List.pairwise_map]
    refine hfiles.imp fun {p q} hlt heq => ?_
    rw [heq] at hlt
    exact (Text.not_lt_or_not_lt q.fileName q.fileName).elim (absurd hlt) (absurd hlt)
  exact List.inj_on_of_nodup_map hnames hp hq h

/-- Files with different names are sorted rank by rank. -/
theorem mergeSort_moduleBefore :
    files.mergeSort (moduleBefore preferred) = byRank preferred files := by
  have hnodup := nodup_of_ascending hfiles
  have hperm : (files.mergeSort (moduleBefore preferred)).Perm (byRank preferred files) := by
    refine (List.mergeSort_perm files _).trans ?_
    rw [List.perm_ext_iff_of_nodup hnodup (nodup_byRank preferred hnodup)]
    exact fun p => (mem_byRank_iff preferred).symm
  have hsorted : (files.mergeSort (moduleBefore preferred)).Pairwise
      fun p q => moduleBefore preferred p q = true := by
    apply List.pairwise_mergeSort
    · intro p q r h h'
      exact moduleBefore_trans h h'
    · exact moduleBefore_total preferred
  refine hperm.eq_of_pairwise ?_ hsorted (pairwise_byRank preferred hfiles)
  intro p q hp hq h h'
  rw [List.mem_mergeSort] at hp
  rw [mem_byRank_iff] at hq
  rw [moduleBefore_iff] at h h'
  have hname : p.fileName = q.fileName := by
    rcases h with h | ⟨hrank, hle⟩
    · rcases h' with h' | ⟨hrank, -⟩
      · exact absurd h (Nat.lt_asymm h')
      · exact absurd hrank (Nat.ne_of_gt h)
    · rcases h' with h' | ⟨-, hle'⟩
      · exact absurd hrank (Nat.ne_of_gt h')
      · exact Text.eq_of_not_lt hle hle'
  exact eq_of_fileName_eq hfiles hp hq hname

end

/-- The files of the modules of a runtime in the order of a search: that of the module asked for,
that of the base module if it is another, and the others. -/
def searchOrder (module : Option Text) (files : List FilePath) : List FilePath :=
  let asked (p : FilePath) : Bool := module.any fun m => p.isOf m
  files.filter asked ++ files.filter (fun p => p.isOf baseModule && !asked p) ++
    files.filter fun p => isModuleFile p && !p.isOf baseModule && !asked p

theorem byRank_preferredModules {module : Option Text}
    (hmodule : ∀ m ∈ module, QualifiedName.isDotted m = true) (files : List FilePath) :
    byRank (preferredModules module) (files.filter isModuleFile) = searchOrder module files := by
  have hbase : QualifiedName.isDotted baseModule = true := by decide
  cases module with
  | none =>
      have hpreferred : preferredModules none = [baseModule] := by decide
      simp only [hpreferred, byRank_cons, byRank_nil, searchOrder, List.filter_filter,
        FilePath.isOf_eq hbase, Option.any_none, List.filter_false, List.nil_append]
      congr 2
      · funext p
        cases isModuleFile p <;> cases p.stem == baseModule <;> rfl
      · funext p
        cases isModuleFile p <;> cases p.stem == baseModule <;> rfl
  | some m =>
      have hm : QualifiedName.isDotted m = true := hmodule m rfl
      have hpreferred : preferredModules (some m) = [m, baseModule] := by
        cases m with
        | nil => exact absurd hm (by decide)
        | cons c m => rfl
      simp only [hpreferred, byRank_cons, byRank_nil, searchOrder, List.filter_filter,
        FilePath.isOf_eq hbase, FilePath.isOf_eq hm, Option.any_some, List.append_assoc]
      congr 2
      · funext p
        exact Bool.and_comm _ _
      · congr 1
        funext p
        cases isModuleFile p <;> cases p.stem == m <;> cases p.stem == baseModule <;> rfl
      · congr 1
        funext p
        cases isModuleFile p <;> cases p.stem == m <;> cases p.stem == baseModule <;> rfl

theorem searchOrder_perm {module : Option Text}
    (hmodule : ∀ m ∈ module, QualifiedName.isDotted m = true) {files : List FilePath}
    (hfiles : files.Pairwise fun p q => p.fileName < q.fileName) :
    (searchOrder module files).Perm (files.filter isModuleFile) := by
  rw [← byRank_preferredModules hmodule, ← mergeSort_moduleBefore _ (hfiles.filter isModuleFile)]
  exact List.mergeSort_perm _ _

/-- The modules of a runtime without an archive of all classes. -/
theorem runtimeArchives_modules {fs : FileSystem} {home : FilePath} {module : Option Text}
    {files : List FilePath} (hold : fs.isFile (home.append "jre/lib/rt.jar") = .ok false)
    (hflat : fs.isFile (home.append "lib/rt.jar") = .ok false)
    (hfiles : fs.children (home.append "jmods") = .ok files)
    (hmodule : ∀ m ∈ module, QualifiedName.isDotted m = true) :
    runtimeArchives fs home module = .ok ((searchOrder module files).map ArchivePath.ofPath) := by
  have hascending := (FileSystem.children_ascending hfiles).filter isModuleFile
  simp only [runtimeArchives, hold, hflat, FileSystem.permittedChildren_of_children hfiles,
    mergeSort_moduleBefore _ hascending, byRank_preferredModules hmodule, bind, Except.bind, pure,
    Except.pure, Bool.false_eq_true, if_false]

/-- Where no other archive has an answer, the search comes to that of the one that has. -/
theorem firstFound_of_unique {α β : Type} {look : α → Except Failure (Option β)} {xs : List α}
    {x : α} (hx : x ∈ xs) (hfound : look x ≠ .ok none)
    (hunique : ∀ y ∈ xs, look y ≠ .ok none → y = x) : firstFound look xs = look x := by
  induction xs with
  | nil => cases hx
  | cons y xs ih =>
      obtain ⟨hy, hxs⟩ := List.forall_mem_cons.1 hunique
      rw [firstFound]
      split
      · next hnone =>
          rcases List.mem_cons.1 hx with rfl | hx
          · exact absurd hnone hfound
          · exact ih hx hxs
      · next hsome => rw [hy fun hnone => hsome hnone]

theorem firstFound_of_absent {α β : Type} {look : α → Except Failure (Option β)} {xs : List α}
    (h : ∀ x ∈ xs, look x = .ok none) : firstFound look xs = .ok none := by
  induction xs with
  | nil => rfl
  | cons x xs ih =>
      obtain ⟨hx, hxs⟩ := List.forall_mem_cons.1 h
      rw [firstFound, hx]
      exact ih hxs

/-- Where one member at most has an answer, the order of the members does not matter. -/
theorem firstFound_perm {α β : Type} {look : α → Except Failure (Option β)} {xs ys : List α}
    (hperm : xs.Perm ys)
    (hunique : ∀ x ∈ xs, ∀ y ∈ xs, look x ≠ .ok none → look y ≠ .ok none → x = y) :
    firstFound look xs = firstFound look ys := by
  by_cases hall : ∀ x ∈ xs, look x = .ok none
  · rw [firstFound_of_absent hall, firstFound_of_absent fun y hy => hall y (hperm.mem_iff.2 hy)]
  · simp only [not_forall] at hall
    obtain ⟨x, hx, hfound⟩ := hall
    rw [firstFound_of_unique hx hfound fun y hy hy' => hunique y hy x hx hy' hfound,
      firstFound_of_unique (hperm.mem_iff.1 hx) hfound fun y hy hy' =>
        hunique y (hperm.mem_iff.2 hy) x hx hy' hfound]

theorem firstFound_map {α β γ : Type} (look : β → Except Failure (Option γ)) (f : α → β)
    (xs : List α) : firstFound look (xs.map f) = firstFound (fun x => look (f x)) xs := by
  induction xs with
  | nil => rfl
  | cons x xs ih => rw [List.map_cons, firstFound, firstFound, ih]

/-- The bytes of a class from a module file. -/
def readModuleClass (fs : FileSystem) (className : Text) (p : FilePath) :
    Except Failure (Option (List UInt8)) :=
  readArchiveClass fs (.ofPath p) (QualifiedName.binaryName ⟨className, none⟩)

section
variable {host : Host} {home : FilePath} {files : List FilePath} {module module' : Option Text}

/-- The class is looked for in the module files, one after the other. -/
theorem resolve_modules (hold : host.files.isFile (home.append "jre/lib/rt.jar") = .ok false)
    (hflat : host.files.isFile (home.append "lib/rt.jar") = .ok false)
    (hfiles : host.files.children (home.append "jmods") = .ok files)
    (hmodule : ∀ m ∈ module, QualifiedName.isDotted m = true) (className : Text) :
    Provider.resolve host ⟨className, module⟩ (.runtime (some home)) =
      firstFound (readModuleClass host.files className) (searchOrder module files) := by
  simp only [Provider.resolve, readRuntimeClass, Option.some_or,
    runtimeArchives_modules hold hflat hfiles hmodule, firstFound_map]
  rfl

/-- The archives of a runtime's modules are the module files of its directory, each once: first that
of the module asked for, then that of the base module, then the others in the order of their names.
Asking for another module reorders them, and finds the same class if they can be read and one of
them at most has it. -/
theorem module_is_hint
    (hold : host.files.isFile (home.append "jre/lib/rt.jar") = .ok false)
    (hflat : host.files.isFile (home.append "lib/rt.jar") = .ok false)
    (hfiles : host.files.children (home.append "jmods") = .ok files)
    (hmodule : ∀ m ∈ module, QualifiedName.isDotted m = true)
    (hmodule' : ∀ m ∈ module', QualifiedName.isDotted m = true) :
    runtimeArchives host.files home module =
        .ok ((searchOrder module files).map ArchivePath.ofPath) ∧
      files.Pairwise (fun p q => p.fileName < q.fileName) ∧
      (searchOrder module files).Nodup ∧
      (∀ p, p ∈ searchOrder module files ↔ p ∈ files ∧ isModuleFile p = true) ∧
      (∀ location, host.files.look (home.append "jmods") = .ok (some (.directory location)) →
        ∀ name, FileSystem.inDirectory (home.append "jmods") name ∈ searchOrder module files ↔
          Text.ofString ".jmod" <:+ name ∧ host.files.entryAt (name :: location) ≠ none) ∧
      (searchOrder module files).Perm (searchOrder module' files) ∧
      ∀ className : Text,
        (∀ p ∈ searchOrder module files, ∃ found,
          readModuleClass host.files className p = .ok found) →
        (∀ p ∈ searchOrder module files, ∀ q ∈ searchOrder module files, ∀ bytes bytes',
          readModuleClass host.files className p = .ok (some bytes) →
          readModuleClass host.files className q = .ok (some bytes') → p = q) →
        Provider.resolve host ⟨className, module⟩ (.runtime (some home)) =
          Provider.resolve host ⟨className, module'⟩ (.runtime (some home)) := by
  have hascending := FileSystem.children_ascending hfiles
  have hperm := searchOrder_perm hmodule hascending
  have hperm' := searchOrder_perm hmodule' hascending
  have hmem : ∀ p, p ∈ searchOrder module files ↔ p ∈ files ∧ isModuleFile p = true :=
    fun p => hperm.mem_iff.trans List.mem_filter
  refine ⟨runtimeArchives_modules hold hflat hfiles hmodule, hascending,
    hperm.nodup_iff.2 ((nodup_of_ascending hascending).filter _), hmem, ?_,
    hperm.trans hperm'.symm, ?_⟩
  · intro location hlook name
    have hname : isModuleFile (FileSystem.inDirectory (home.append "jmods") name) = true ↔
        Text.ofString ".jmod" <:+ name := by
      rw [isModuleFile, FilePath.fileName, FileSystem.inDirectory, List.getLast?_concat,
        List.isSuffixOf_iff_suffix]
      rfl
    rw [hmem, FileSystem.inDirectory_mem_children_iff hlook hfiles, hname, and_comm]
  · intro className hread hunique
    rw [resolve_modules hold hflat hfiles hmodule, resolve_modules hold hflat hfiles hmodule']
    apply firstFound_perm (hperm.trans hperm'.symm)
    intro p hp q hq hfound hfound'
    have hbytes : ∀ r ∈ searchOrder module files,
        readModuleClass host.files className r ≠ .ok none →
        ∃ bytes, readModuleClass host.files className r = .ok (some bytes) := by
      intro r hr hsome
      obtain ⟨found, hread⟩ := hread r hr
      cases found with
      | none => exact absurd hread hsome
      | some bytes => exact ⟨bytes, hread⟩
    obtain ⟨bytes, hp'⟩ := hbytes p hp hfound
    obtain ⟨bytes', hq'⟩ := hbytes q hq hfound'
    exact hunique p hp q hq bytes bytes' hp' hq'

end

/-- An archive without entries. -/
def emptyArchiveBytes : List UInt8 := [80, 75, 5, 6] ++ List.replicate 18 0

def emptyArchive : RegularFile := { content := ⟨emptyArchiveBytes.toArray⟩ }

/-- A runtime with three modules, of which the first has a class `A`, and a file that is no
module's. -/
def threeModules : Host where
  files :=
    { entries :=
        [(["jmods"], .directory), (["a.jmod", "jmods"], .file moduleFile),
          (["b.c.jmod", "jmods"], .file emptyArchive),
          (["java.base.jmod", "jmods"], .file emptyArchive),
          (["notes", "jmods"], .file emptyArchive)]
      workingDirectory := []
      isTree := by decide
      inside := rfl }
  environment := ⟨none, none, none⟩

def moduleFilePath (name : Text) : FilePath := ⟨.absolute, ["jmods", name]⟩

theorem children_threeModules :
    threeModules.files.children ((⟨.absolute, []⟩ : FilePath).append "jmods") =
      .ok [moduleFilePath "a.jmod", moduleFilePath "b.c.jmod", moduleFilePath "java.base.jmod",
        moduleFilePath "notes"] := by
  have hlook : threeModules.files.look ((⟨.absolute, []⟩ : FilePath).append "jmods") =
      .ok (some (.directory ["jmods"])) := rfl
  have hnames : threeModules.files.childNames ["jmods"] =
      ["a.jmod", "b.c.jmod", "java.base.jmod", "notes"] := by
    rw [FileSystem.childNames_eq_sort]
    exact List.mergeSort_of_pairwise (by decide)
  rw [FileSystem.children, hlook]
  change Except.ok ((threeModules.files.childNames ["jmods"]).map _) = _
  rw [hnames]
  rfl

theorem readModuleClass_threeModules {f : RegularFile} {found : Option (List UInt8)} {p : FilePath}
    (hsuffix : p.suffix = ".jmod") (hfile : threeModules.files.regularFile? p = .ok (some f))
    (hreadable : f.isReadable = true)
    (hread : readArchiveFile f "classes/A.class" = .ok found) :
    readModuleClass threeModules.files "A" p = .ok found := by
  have hfolder : (ArchivePath.ofPath p).folder = "classes/" := by
    rw [ArchivePath.ofPath, if_pos hsuffix]
  have hentry : (ArchivePath.ofPath p).folder ++ QualifiedName.binaryName ⟨"A", none⟩ ++
      classSuffix = "classes/A.class" := by
    rw [hfolder]
    rfl
  have hpath : threeModules.files.regularFile? (ArchivePath.ofPath p).path = .ok (some f) := hfile
  unfold readModuleClass readArchiveClass
  simp only [hpath, hentry, hreadable, hread]
  rfl

/-- The class is found in `a`, whether `b.c` is asked for or no module is. -/
theorem module_is_hint_three :
    runtimeArchives threeModules.files ⟨.absolute, []⟩ (some "b.c") =
        .ok ([moduleFilePath "b.c.jmod", moduleFilePath "java.base.jmod",
          moduleFilePath "a.jmod"].map ArchivePath.ofPath) ∧
      runtimeArchives threeModules.files ⟨.absolute, []⟩ none =
        .ok ([moduleFilePath "java.base.jmod", moduleFilePath "a.jmod",
          moduleFilePath "b.c.jmod"].map ArchivePath.ofPath) ∧
      Provider.resolve threeModules ⟨"A", some "b.c"⟩ (.runtime (some ⟨.absolute, []⟩)) =
        .ok (some (userBytes [112, 47, 69])) ∧
      Provider.resolve threeModules ⟨"A", none⟩ (.runtime (some ⟨.absolute, []⟩)) =
        .ok (some (userBytes [112, 47, 69])) := by
  have hmodule : ∀ m ∈ some ("b.c" : Text), QualifiedName.isDotted m = true := by decide
  have hnone : ∀ m ∈ (none : Option Text), QualifiedName.isDotted m = true := by decide
  have hold : threeModules.files.isFile ((⟨.absolute, []⟩ : FilePath).append "jre/lib/rt.jar") =
      .ok false := by decide +kernel
  have hflat : threeModules.files.isFile ((⟨.absolute, []⟩ : FilePath).append "lib/rt.jar") =
      .ok false := by decide +kernel
  obtain ⟨horder, -, -, -, -, -, hresolve⟩ :=
    module_is_hint hold hflat children_threeModules hmodule hnone
  obtain ⟨horder', -⟩ := module_is_hint hold hflat children_threeModules hnone hmodule
  have hempty : readArchiveFile emptyArchive "classes/A.class" = .ok none := by decide +kernel
  have ha := readModuleClass_threeModules (p := moduleFilePath "a.jmod") (by decide) rfl rfl
    (read_moduleFile "classes/A.class")
  have hb := readModuleClass_threeModules (p := moduleFilePath "b.c.jmod") (by decide) rfl rfl
    hempty
  have hbase := readModuleClass_threeModules (p := moduleFilePath "java.base.jmod") (by decide) rfl
    rfl hempty
  have hmembers : searchOrder (some "b.c") [moduleFilePath "a.jmod", moduleFilePath "b.c.jmod",
      moduleFilePath "java.base.jmod", moduleFilePath "notes"] = [moduleFilePath "b.c.jmod",
        moduleFilePath "java.base.jmod", moduleFilePath "a.jmod"] := by decide
  have hmembers' : searchOrder none [moduleFilePath "a.jmod", moduleFilePath "b.c.jmod",
      moduleFilePath "java.base.jmod", moduleFilePath "notes"] = [moduleFilePath "java.base.jmod",
        moduleFilePath "a.jmod", moduleFilePath "b.c.jmod"] := by decide
  have hfound : Provider.resolve threeModules ⟨"A", none⟩ (.runtime (some ⟨.absolute, []⟩)) =
      .ok (some (userBytes [112, 47, 69])) := by
    rw [resolve_modules hold hflat children_threeModules hnone, hmembers', firstFound, hbase,
      firstFound, ha]
  rw [hmembers] at hresolve
  refine ⟨horder, horder', (hresolve "A" ?_ ?_).trans hfound, hfound⟩
  · simp only [List.forall_mem_cons]
    exact ⟨⟨_, hb⟩, ⟨_, hbase⟩, ⟨_, ha⟩, List.forall_mem_nil _⟩
  · intro p hp q hq bytes bytes' hbytes hbytes'
    simp only [List.mem_cons, List.not_mem_nil, or_false] at hp hq
    rcases hp with rfl | rfl | rfl
    · rw [hb] at hbytes
      cases hbytes
    · rw [hbase] at hbytes
      cases hbytes
    · rcases hq with rfl | rfl | rfl
      · rw [hb] at hbytes'
        cases hbytes'
      · rw [hbase] at hbytes'
        cases hbytes'
      · rfl

end JniHeader
