import JniHeader.Proofs.Files.SettledPaths
import JniHeader.Proofs.Search.ModuleOrder

/-!
# Lookups on settled paths

When directories have been made, a provider whose paths are settled finds every class as
before, or the system refuses to look for it. A runtime may have new directories among its
modules. They come between the old ones in the order of the search, and since there is no
file at them, no class is found there.
-/
namespace JniHeader

open FileSystem

/-- The answer is as before, or the system refuses to give one. -/
def Kept {α : Type} (before after : Except Failure α) : Prop :=
  after = before ∨ ∃ e, after = .error (.file e)

/-- A search comes to what the old members come to, if there is nothing at the others. -/
theorem firstFound_kept {α β : Type} {look look' : α → Except Failure (Option β)} {xs : List α}
    {old : α → Bool} (hold : ∀ x ∈ xs, old x = true → Kept (look x) (look' x))
    (hnew : ∀ x ∈ xs, old x = false → Kept (.ok none) (look' x)) :
    Kept (firstFound look (xs.filter old)) (firstFound look' xs) := by
  induction xs with
  | nil => exact .inl rfl
  | cons x xs ih =>
      rw [List.forall_mem_cons] at hold hnew
      have hrest := ih hold.2 hnew.2
      cases hx : old x with
      | true =>
          rw [List.filter_cons_of_pos hx, firstFound, firstFound]
          rcases hold.1 hx with hsame | ⟨e, he⟩
          · rw [hsame]
            split
            · exact hrest
            · exact .inl rfl
          · rw [he]
            exact .inr ⟨e, rfl⟩
      | false =>
          rw [List.filter_cons_of_neg (by simp [hx]), firstFound]
          rcases hnew.1 hx with hnone | ⟨e, he⟩
          · rw [hnone]
            exact hrest
          · rw [he]
            exact .inr ⟨e, rfl⟩

theorem filter_byRank (preferred : List Text) (files : List FilePath) (old : FilePath → Bool) :
    (byRank preferred files).filter old = byRank preferred (files.filter old) := by
  simp only [byRank, List.filter_flatMap, List.filter_filter, Bool.and_comm]

theorem QualifiedName.count_dot_classFile (name : QualifiedName) :
    (name.binaryName ++ classSuffix).count (CodePoint.ofChar '.') ≤ 1 := by
  have hnone : List.count (CodePoint.ofChar '.') name.binaryName = 0 :=
    List.count_eq_zero.2 name.dot_not_mem_binaryName
  have hone : List.count (CodePoint.ofChar '.') classSuffix = 1 := by decide
  rw [List.count_append, hnone, hone]

/-- The paths at which a provider looks go up only out of directories that were there before: its
root, its archive or its home, or where the home is located, the directories in which the program
is looked for. -/
def Provider.Settled (environment : Environment) (fs fs' : FileSystem) : Provider → Prop
  | .directory root => FileSystem.Settled fs fs' root
  | .archive a => FileSystem.Settled fs fs' a.path
  | .runtime (some home) => FileSystem.Settled fs fs' home
  | .runtime none =>
    match environment.javaHome with
    | some (c :: home) => FileSystem.Settled fs fs' (.ofText (c :: home))
    | _ => ∀ directory ∈ Text.splitAt ':' (environment.path.getD defaultProgramPath),
        FileSystem.Settled fs fs' (.ofText directory)
  | .unknown _ => True

def SearchPath.Settled (environment : Environment) (fs fs' : FileSystem) (search : SearchPath) :
    Prop :=
  ∀ provider ∈ search, provider.Settled environment fs fs'

section Lookups
variable {q : FilePath} {fs fs' : FileSystem} (h : MadeAlong q fs fs') (hlinks : fs.LinkFree)
  (hlinks' : fs'.LinkFree)
include h hlinks hlinks'

theorem readDirectoryClass_kept {root : FilePath} (hroot : Settled fs fs' root)
    (name : QualifiedName) :
    Kept (readDirectoryClass fs root name.binaryName)
      (readDirectoryClass fs' root name.binaryName) := by
  have hpath : Settled fs fs' (root.append (name.binaryName ++ classSuffix)) :=
    hroot.append name.count_dot_classFile
  simp only [readDirectoryClass]
  rcases h.regularFile? hlinks hlinks' hpath with hsame | ⟨e, he⟩
  · rw [hsame]
    exact .inl rfl
  · rw [he]
    exact .inr ⟨_, rfl⟩

theorem readArchiveClass_kept {a : ArchivePath} (ha : Settled fs fs' a.path) (binary : Text) :
    Kept (readArchiveClass fs a binary) (readArchiveClass fs' a binary) := by
  simp only [readArchiveClass]
  rcases h.regularFile? hlinks hlinks' ha with hsame | ⟨e, he⟩
  · rw [hsame]
    exact .inl rfl
  · rw [he]
    exact .inr ⟨_, rfl⟩

omit h hlinks hlinks' in
theorem readArchiveClass_noFile {a : ArchivePath}
    (ha : ∀ f, fs.regularFile? a.path ≠ .ok (some f)) (binary : Text) :
    Kept (.ok none) (readArchiveClass fs a binary) := by
  simp only [readArchiveClass]
  cases hfile : fs.regularFile? a.path with
  | error e => exact .inr ⟨_, rfl⟩
  | ok file? =>
      cases file? with
      | none => exact .inl rfl
      | some f => exact absurd hfile (ha f)

omit h hlinks hlinks' in
theorem findSome?_congr {α β : Type} {f g : α → Option β} {xs : List α}
    (hall : ∀ x ∈ xs, f x = g x) : xs.findSome? f = xs.findSome? g := by
  induction xs with
  | nil => rfl
  | cons x xs ih =>
      obtain ⟨hx, hxs⟩ := List.forall_mem_cons.1 hall
      rw [List.findSome?_cons, List.findSome?_cons, hx, ih hxs]

theorem findJava?_kept {path : Text}
    (hpath : ∀ directory ∈ Text.splitAt ':' path, Settled fs fs' (.ofText directory)) :
    findJava? fs' path = findJava? fs path := by
  rw [findJava?, findJava?]
  congr 1
  apply findSome?_congr
  intro directory hdirectory
  have hjava : Settled fs fs' ((FilePath.ofText directory).append "java") :=
    (hpath directory hdirectory).append (by decide)
  have hfile : ∀ location f,
      fs'.find true ((FilePath.ofText directory).append "java") = .ok (.file location f) ↔
        fs.find true ((FilePath.ofText directory).append "java") = .ok (.file location f) :=
    fun _ _ => h.find_file hlinks hlinks' hjava
  split
  · next location f hfind =>
      rw [(hfile location f).1 hfind]
  · next hother =>
      split
      · next location f hfind => exact absurd ((hfile location f).2 hfind) (hother location f)
      · rfl

omit hlinks hlinks' h in
theorem entryAt_of_findJava? {path : Text} {location : Location}
    (hjava : findJava? fs path = some location) :
    ∃ f, fs.entryAt location = some (.file f) := by
  rw [findJava?] at hjava
  split_ifs at hjava
  obtain ⟨directory, -, hfound⟩ := List.exists_of_findSome?_eq_some hjava
  split at hfound
  · next location' f hfind =>
      split_ifs at hfound
      obtain rfl := Option.some.inj hfound
      exact ⟨f, find_file hfind⟩
  · cases hfound

section Runtime
variable {environment : Environment}

theorem locateJavaHome_kept (hruntime : Provider.Settled environment fs fs' (.runtime none)) :
    locateJavaHome fs' environment.javaHome environment.path =
      locateJavaHome fs environment.javaHome environment.path := by
  obtain ⟨javaHome, path, classPath⟩ := environment
  match javaHome with
  | none => simp only [locateJavaHome, findJava?_kept h hlinks hlinks' hruntime]
  | some [] => simp only [locateJavaHome, findJava?_kept h hlinks hlinks' hruntime]
  | some (c :: home) => rfl

omit h hlinks hlinks' in
theorem settled_of_located {home : FilePath}
    (hruntime : Provider.Settled environment fs fs' (.runtime none))
    (hhome : locateJavaHome fs environment.javaHome environment.path = some home) :
    Settled fs fs' home := by
  obtain ⟨javaHome, path, classPath⟩ := environment
  have hprogram : ∀ path, (findJava? fs path).map (fun location =>
      (⟨.absolute, (location.drop 2).reverse⟩ : FilePath)) = some home → Settled fs fs' home := by
    intro path hlocated
    obtain ⟨location, hjava, rfl⟩ := Option.map_eq_some_iff.1 hlocated
    obtain ⟨f, hentry⟩ := entryAt_of_findJava? hjava
    apply settled_of_no_dots
    intro hmem
    exact dots_not_mem_of_entryAt hentry (List.mem_of_mem_drop (List.mem_reverse.1 hmem))
  match javaHome with
  | none => exact hprogram _ hhome
  | some [] => exact hprogram _ hhome
  | some (c :: text) =>
      obtain rfl := Option.some.inj hhome
      exact hruntime

/-- The home of a runtime is where it was, and its path is settled. -/
theorem home_kept {home : Option FilePath}
    (hruntime : Provider.Settled environment fs fs' (.runtime home)) :
    home.or (locateJavaHome fs' environment.javaHome environment.path) =
        home.or (locateJavaHome fs environment.javaHome environment.path) ∧
      ∀ p ∈ home.or (locateJavaHome fs environment.javaHome environment.path),
        Settled fs fs' p := by
  cases home with
  | none =>
      rw [Option.none_or, Option.none_or, locateJavaHome_kept h hlinks hlinks' hruntime]
      exact ⟨rfl, fun p hp => settled_of_located hruntime hp⟩
  | some p =>
      rw [Option.some_or, Option.some_or]
      refine ⟨rfl, fun p' hp' => ?_⟩
      obtain rfl := Option.some.inj hp'
      exact hruntime

end Runtime

end Lookups

/-- The later question is refused, or both have related answers. -/
def Follows {α : Type} (R : α → α → Prop) (r r' : Except SystemError α) : Prop :=
  (∃ e, r' = .error e) ∨ ∃ x x', r = .ok x ∧ r' = .ok x' ∧ R x x'

namespace Follows

variable {α β : Type} {R : α → α → Prop} {S : β → β → Prop}

theorem of_same {r r' : Except SystemError α} (h : r' = r ∨ ∃ e, r' = .error e) :
    Follows Eq r r' := by
  rcases h with rfl | he
  · cases r' with
    | error e => exact .inl ⟨e, rfl⟩
    | ok x => exact .inr ⟨x, x, rfl, rfl, rfl⟩
  · exact .inl he

theorem pure {x x' : α} (h : R x x') : Follows R (.ok x) (.ok x') := .inr ⟨x, x', rfl, rfl, h⟩

theorem bind {r r' : Except SystemError α} {f f' : α → Except SystemError β}
    (h : Follows R r r') (hf : ∀ x x', R x x' → Follows S (f x) (f' x')) :
    Follows S (r >>= f) (r' >>= f') := by
  rcases h with ⟨e, rfl⟩ | ⟨x, x', rfl, rfl, hx⟩
  · exact .inl ⟨e, rfl⟩
  · exact hf x x' hx

theorem ite {c : Prop} [Decidable c] {r r' s s' : Except SystemError α} (h : Follows R r r')
    (h' : Follows R s s') : Follows R (if c then r else s) (if c then r' else s') := by
  split_ifs
  · exact h
  · exact h'

end Follows

/-- The archives that a runtime had are some of those that it has, at settled paths. There is no
file at the paths of the others. -/
structure ArchivesKept (fs fs' : FileSystem) (before after : List ArchivePath)
    (old : ArchivePath → Bool) : Prop where
  before : before = after.filter old
  settled : ∀ a ∈ after, old a = true → Settled fs fs' a.path
  noFile : ∀ a ∈ after, old a = false → ∀ f, fs'.regularFile? a.path ≠ .ok (some f)

theorem ArchivesKept.singleton {fs fs' : FileSystem} {a : ArchivePath}
    (ha : Settled fs fs' a.path) : ArchivesKept fs fs' [a] [a] fun _ => true where
  before := rfl
  settled := List.forall_mem_singleton.2 fun _ => ha
  noFile := List.forall_mem_singleton.2 fun hold => absurd hold (by decide)

/-- Sorting the module files of a directory keeps the old ones in their order. -/
theorem ArchivesKept.modules {fs fs' : FileSystem} {p : FilePath} {before files : List FilePath}
    {old : FilePath → Bool} (h : ChildrenKept fs fs' before files old)
    (hbefore : fs.permittedChildren p = .ok before)
    (hfiles : fs'.permittedChildren p = .ok files) (preferred : List Text) :
    ArchivesKept fs fs'
      (((before.filter isModuleFile).mergeSort (moduleBefore preferred)).map ArchivePath.ofPath)
      (((files.filter isModuleFile).mergeSort (moduleBefore preferred)).map ArchivePath.ofPath)
      fun a => old a.path := by
  have hascending := (permittedChildren_ascending hfiles).filter isModuleFile
  have hascending' := (permittedChildren_ascending hbefore).filter isModuleFile
  obtain rfl := h.before
  rw [mergeSort_moduleBefore _ hascending, mergeSort_moduleBefore _ hascending']
  have hmem : ∀ a ∈ (byRank preferred (files.filter isModuleFile)).map ArchivePath.ofPath,
      a.path ∈ files := by
    intro a ha
    obtain ⟨x, hx, rfl⟩ := List.mem_map.1 ha
    exact (List.mem_filter.1 ((mem_byRank_iff preferred).1 hx)).1
  refine ⟨?_, fun a ha => h.settled _ (hmem a ha), fun a ha => h.noFile _ (hmem a ha)⟩
  rw [List.filter_filter, List.filter_map, filter_byRank, List.filter_filter]
  congr 3
  funext x
  exact Bool.and_comm _ _

section Lookups
variable {q : FilePath} {fs fs' : FileSystem} (h : MadeAlong q fs fs') (hlinks : fs.LinkFree)
  (hlinks' : fs'.LinkFree)
include h hlinks hlinks'

theorem runtimeArchives_kept {home : FilePath} (hhome : Settled fs fs' home)
    (module : Option Text) :
    Follows (fun before after => ∃ old, ArchivesKept fs fs' before after old)
      (runtimeArchives fs home module) (runtimeArchives fs' home module) := by
  have hold : Settled fs fs' (home.append "jre/lib/rt.jar") := hhome.append (by decide)
  have hflat : Settled fs fs' (home.append "lib/rt.jar") := hhome.append (by decide)
  have hmodules : Settled fs fs' (home.append "jmods") := hhome.append (by decide)
  refine (Follows.of_same (h.isFile hlinks hlinks' hold)).bind ?_
  rintro old _ rfl
  refine .ite (.pure ⟨_, .singleton hold⟩) ?_
  refine (Follows.of_same (h.isFile hlinks hlinks' hflat)).bind ?_
  rintro flat _ rfl
  refine .ite (.pure ⟨_, .singleton hflat⟩) ?_
  cases hfiles : fs'.permittedChildren (home.append "jmods") with
  | error e => exact .inl ⟨e, rfl⟩
  | ok files =>
      obtain ⟨before, old, hbefore, hkept⟩ := h.permittedChildren hlinks hlinks' hmodules hfiles
      rw [hbefore]
      exact .pure ⟨_, .modules hkept hbefore hfiles (preferredModules module)⟩

theorem readRuntimeClass_kept (host : Host) {home : Option FilePath}
    (hruntime : Provider.Settled host.environment fs fs' (.runtime home)) (name : QualifiedName) :
    Kept (readRuntimeClass { host with files := fs } home name)
      (readRuntimeClass { host with files := fs' } home name) := by
  obtain ⟨hsame, hsettled⟩ := home_kept h hlinks hlinks' hruntime
  simp only [readRuntimeClass, hsame]
  cases hhome : home.or (locateJavaHome fs host.environment.javaHome host.environment.path) with
  | none => exact .inl rfl
  | some p =>
      rcases runtimeArchives_kept h hlinks hlinks' (hsettled p hhome) name.module with
        ⟨e, he⟩ | ⟨before, after, hbefore, hafter, old, hkept⟩
      · simp only [he]
        exact .inr ⟨_, rfl⟩
      · obtain rfl := hkept.before
        simp only [hbefore, hafter]
        apply firstFound_kept
        · intro a ha hold
          exact readArchiveClass_kept h hlinks hlinks' (hkept.settled a ha hold) _
        · intro a ha hnew
          exact readArchiveClass_noFile (hkept.noFile a ha hnew) _

/-- A settled search path keeps its answers when directories are made. -/
theorem SearchPath.resolve_kept (host : Host) {search : SearchPath}
    (hsearch : search.Settled host.environment fs fs') (name : QualifiedName) :
    Kept (search.resolve { host with files := fs } name)
      (search.resolve { host with files := fs' } name) := by
  have hall : Kept (firstFound (Provider.resolve { host with files := fs } name)
      (search.filter fun _ => true)) (search.resolve { host with files := fs' } name) := by
    apply firstFound_kept
    · intro provider hprovider _
      have hsettled := hsearch provider hprovider
      cases provider with
      | directory root => exact readDirectoryClass_kept h hlinks hlinks' hsettled name
      | archive a => exact readArchiveClass_kept h hlinks hlinks' hsettled name.binaryName
      | runtime home => exact readRuntimeClass_kept h hlinks hlinks' host hsettled name
      | unknown label => exact .inl rfl
    · intro provider _ hnew
      cases hnew
  rwa [List.filter_true] at hall

end Lookups

end JniHeader
