import JniHeader.Generation.Batch
import JniHeader.Proofs.Search.PathEntries

/-!
# The order of entries

A search goes through the entries of the module path, those of the class path and the
runtime, and comes to what the first of them has. An entry has what the first of its
providers has. So the runtime has a part in the answer only if no entry has the class, and
entries that stand for no provider have none.
-/
namespace JniHeader

variable {α β : Type}

/-- What a search through members comes to, each of which may have something: that of the first
which has it. -/
def Searched (Has : α → Option β → Prop) (xs : List α) : Option β → Prop
  | none => ∀ x ∈ xs, Has x none
  | some y => ∃ before x after, xs = before ++ x :: after ∧ (∀ z ∈ before, Has z none) ∧
      Has x (some y)

section Searches
variable {Has : α → Option β → Prop} {found : Option β}

theorem searched_cons {x : α} {xs : List α} :
    Searched Has (x :: xs) found ↔
      (found ≠ none ∧ Has x found) ∨ (Has x none ∧ Searched Has xs found) := by
  cases found with
  | none => simp [Searched]
  | some y =>
      constructor
      · rintro ⟨before, x', after, hxs, hbefore, hx'⟩
        cases before with
        | nil =>
            obtain ⟨rfl, rfl⟩ := List.cons.inj hxs
            exact .inl ⟨Option.some_ne_none y, hx'⟩
        | cons z before =>
            obtain ⟨rfl, rfl⟩ := List.cons.inj hxs
            obtain ⟨hx, hbefore⟩ := List.forall_mem_cons.1 hbefore
            exact .inr ⟨hx, before, x', after, rfl, hbefore, hx'⟩
      · rintro (⟨-, hx⟩ | ⟨hx, before, x', after, rfl, hbefore, hx'⟩)
        · exact ⟨[], x, xs, rfl, List.forall_mem_nil _, hx⟩
        · exact ⟨x :: before, x', after, rfl, List.forall_mem_cons.2 ⟨hx, hbefore⟩, hx'⟩

theorem searched_nil : Searched Has [] found ↔ found = none := by
  cases found with
  | none => simp [Searched]
  | some y => simp [Searched]

/-- The second list counts if nothing is found in the first. -/
theorem searched_append {xs ys : List α} :
    Searched Has (xs ++ ys) found ↔
      (found ≠ none ∧ Searched Has xs found) ∨ (Searched Has xs none ∧ Searched Has ys found) := by
  induction xs with
  | nil => simp only [List.nil_append, searched_nil, true_and]; tauto
  | cons x xs ih =>
      rw [List.cons_append, searched_cons, ih, searched_cons, searched_cons]
      tauto

theorem searched_singleton {x : α} : Searched Has [x] found ↔ Has x found := by
  rw [searched_cons, searched_nil]
  constructor
  · rintro (⟨-, hx⟩ | ⟨hx, rfl⟩)
    · exact hx
    · exact hx
  · intro hx
    cases found with
    | none => exact .inr ⟨hx, rfl⟩
    | some y => exact .inl ⟨Option.some_ne_none y, hx⟩

theorem searched_unique {found' : Option β} (hHas : Relator.RightUnique Has) {xs : List α}
    (h : Searched Has xs found) (h' : Searched Has xs found') : found = found' := by
  induction xs with
  | nil => rw [searched_nil.1 h, searched_nil.1 h']
  | cons x xs ih =>
      rw [searched_cons] at h h'
      rcases h with ⟨hne, hx⟩ | ⟨hx, hxs⟩
      · rcases h' with ⟨-, hx'⟩ | ⟨hx', -⟩
        · exact hHas hx hx'
        · exact absurd (hHas hx hx') hne
      · rcases h' with ⟨hne', hx'⟩ | ⟨-, hxs'⟩
        · exact absurd (hHas hx' hx) hne'
        · exact ih hxs hxs'

theorem firstFound_eq_ok_iff {look : α → Except Failure (Option β)} {xs : List α} :
    firstFound look xs = .ok found ↔ Searched (fun x found => look x = .ok found) xs found := by
  induction xs with
  | nil =>
      rw [searched_nil]
      exact ⟨fun h => (Except.ok.inj h).symm, fun h => congrArg Except.ok h.symm⟩
  | cons x xs ih =>
      rw [searched_cons, ← ih, firstFound]
      cases hx : look x with
      | error e => simp
      | ok here =>
          cases here with
          | none =>
              simp only [Except.ok.injEq, true_and]
              exact ⟨.inr, fun h => h.resolve_left fun hne => hne.1 hne.2.symm⟩
          | some y =>
              simp only [Except.ok.injEq, Option.some_ne_none, false_and, or_false]
              exact ⟨fun h => ⟨h ▸ Option.some_ne_none y, h⟩, fun h => h.2⟩

end Searches

theorem joinAll_filter {step : α → Except SystemError (List β)} {keep : α → Bool} {xs : List α}
    {ys : List β} (h : joinAll step xs = .ok ys)
    (hidle : ∀ x ∈ xs, keep x = false → ∀ part, step x = .ok part → part = []) :
    joinAll step (xs.filter keep) = .ok ys := by
  induction xs generalizing ys with
  | nil => exact h
  | cons x xs ih =>
      obtain ⟨hx, hxs⟩ := List.forall_mem_cons.1 hidle
      obtain ⟨part, rest, hpart, hrest, rfl⟩ := joinAll_cons_ok_iff.1 h
      cases hkeep : keep x with
      | true =>
          rw [List.filter_cons_of_pos hkeep]
          exact joinAll_cons_ok_iff.2 ⟨part, rest, hpart, ih hrest hxs, rfl⟩
      | false =>
          rw [List.filter_cons_of_neg (by simp [hkeep]), hx hkeep part hpart]
          exact ih hrest hxs

/-- What a provider has of a class. -/
def Provider.Has (host : Host) (name : QualifiedName) (provider : Provider)
    (found : Option (List UInt8)) : Prop :=
  provider.resolve host name = .ok found

/-- What an entry has of a class: what a search through the providers that it stands for comes
to. -/
def EntryHas (Provides : Text → SearchPath → Prop) (host : Host) (name : QualifiedName)
    (entry : Text) (found : Option (List UInt8)) : Prop :=
  ∃ providers, Provides entry providers ∧ Searched (Provider.Has host name) providers found

section Entries
variable {Provides : Text → SearchPath → Prop} {host : Host} {name : QualifiedName}
  {found : Option (List UInt8)}

theorem Provider.has_unique : Relator.RightUnique (Provider.Has host name) := by
  intro provider found found' h h'
  exact Except.ok.inj (h.symm.trans h')

theorem entryHas_iff (hunique : Relator.RightUnique Provides) {entry : Text}
    {providers : SearchPath} (h : Provides entry providers) :
    EntryHas Provides host name entry found ↔
      Searched (Provider.Has host name) providers found := by
  constructor
  · rintro ⟨providers', h', hfound⟩
    rwa [hunique h h']
  · exact fun hfound => ⟨providers, h, hfound⟩

theorem entryHas_unique (hunique : Relator.RightUnique Provides) :
    Relator.RightUnique (EntryHas Provides host name) := by
  rintro entry found found' ⟨providers, h, hfound⟩ ⟨providers', h', hfound'⟩
  obtain rfl := hunique h h'
  exact searched_unique Provider.has_unique hfound hfound'

/-- A search through all providers of entries goes from entry to entry. -/
theorem searched_flatten (hunique : Relator.RightUnique Provides) {entries : List Text}
    {parts : List SearchPath} (h : List.Forall₂ Provides entries parts) :
    Searched (Provider.Has host name) parts.flatten found ↔
      Searched (EntryHas Provides host name) entries found := by
  induction h with
  | nil => rw [List.flatten_nil, searched_nil, searched_nil]
  | cons hentry _ ih =>
      rw [List.flatten_cons, searched_append, searched_cons, ih, entryHas_iff hunique hentry,
        entryHas_iff hunique hentry]

/-- A search through what a path gives goes through the entries of the path. -/
theorem searched_joinAll (hunique : Relator.RightUnique Provides)
    {ofEntry : Text → Except SystemError SearchPath}
    (hofEntry : ∀ entry providers, ofEntry entry = .ok providers → Provides entry providers)
    {entries : List Text} {providers : SearchPath} (h : joinAll ofEntry entries = .ok providers) :
    Searched (Provider.Has host name) providers found ↔
      Searched (EntryHas Provides host name) entries found := by
  obtain ⟨parts, hparts, rfl⟩ := joinAll_ok_iff.1 h
  exact searched_flatten hunique (hparts.imp hofEntry)

end Entries

/-- What an entry of a module path has of a class. -/
def ModulePath.Has (host : Host) : QualifiedName → Text → Option (List UInt8) → Prop :=
  EntryHas (ModulePath.Provides host.files) host

/-- What an entry of a class path has of a class. -/
def ClassPath.Has (host : Host) : QualifiedName → Text → Option (List UInt8) → Prop :=
  EntryHas (ClassPath.Provides host.files) host

namespace Config

def moduleEntries (c : Config) : List Text := pathEntries (c.modulePath.getD [])

def classEntries (c : Config) : List Text := pathEntries c.classPath

theorem searchPath_eq_ok_iff {fs : FileSystem} {c : Config} {search : SearchPath} :
    c.searchPath fs = .ok search ↔ ∃ modules classes,
      joinAll (ModulePath.ofEntry fs) c.moduleEntries = .ok modules ∧
      joinAll (ClassPath.ofEntry fs) c.classEntries = .ok classes ∧
      search = modules ++ classes ++ [.runtime none] := by
  simp only [searchPath, bind_ok_iff]
  constructor
  · rintro ⟨modules, hmodules, classes, hclasses, hsearch⟩
    exact ⟨modules, classes, hmodules, hclasses, (Except.ok.inj hsearch).symm⟩
  · rintro ⟨modules, classes, hmodules, hclasses, rfl⟩
    exact ⟨modules, hmodules, classes, hclasses, rfl⟩

end Config

section Paths
variable {host : Host} {name : QualifiedName} {found : Option (List UInt8)}

theorem SearchPath.resolve_eq_ok_iff {path : SearchPath} :
    path.resolve host name = .ok found ↔ Searched (Provider.Has host name) path found :=
  firstFound_eq_ok_iff

/-- A search path is made up of the parts that its two paths give, and the runtime. -/
theorem Config.exists_parts_of_searchPath {c : Config} {search : SearchPath}
    (h : c.searchPath host.files = .ok search) : ∃ modules classes : SearchPath,
      search = modules ++ classes ++ [.runtime none] ∧
      (∀ name found, Searched (Provider.Has host name) modules found ↔
        Searched (ModulePath.Has host name) c.moduleEntries found) ∧
      ∀ name found, Searched (Provider.Has host name) classes found ↔
        Searched (ClassPath.Has host name) c.classEntries found := by
  obtain ⟨modules, classes, hmodules, hclasses, rfl⟩ := searchPath_eq_ok_iff.1 h
  refine ⟨modules, classes, rfl, fun name found => ?_, fun name found => ?_⟩
  · exact searched_joinAll ModulePath.provides_unique
      (fun _ _ => ModulePath.provides_of_ofEntry) hmodules
  · exact searched_joinAll ClassPath.provides_unique
      (fun _ _ => ClassPath.provides_of_ofEntry) hclasses

end Paths

namespace Config

variable {host : Host} {c : Config} {search : SearchPath}

/-- A search goes through the entries of the module path, those of the class path and the
runtime. -/
theorem resolve_eq_ok_iff (hsearch : c.searchPath host.files = .ok search) (name : QualifiedName)
    (found : Option (List UInt8)) : search.resolve host name = .ok found ↔
      (found ≠ none ∧ Searched (ModulePath.Has host name) c.moduleEntries found) ∨
      (Searched (ModulePath.Has host name) c.moduleEntries none ∧
        ((found ≠ none ∧ Searched (ClassPath.Has host name) c.classEntries found) ∨
        (Searched (ClassPath.Has host name) c.classEntries none ∧
          Provider.resolve host name (.runtime none) = .ok found))) := by
  obtain ⟨modules, classes, rfl, hmodules, hclasses⟩ := exists_parts_of_searchPath hsearch
  rw [SearchPath.resolve_eq_ok_iff, List.append_assoc, searched_append, searched_append,
    searched_singleton, hmodules, hmodules, hclasses, hclasses]
  rfl

/-- If an entry has a class, a search without errors comes to no provider after the entries. -/
theorem resolve_dropLast (hsearch : c.searchPath host.files = .ok search) {name : QualifiedName}
    {found : Option (List UInt8)} (hfound : search.resolve host name = .ok found)
    (hentry : (∃ entry ∈ c.moduleEntries, ∃ bytes, ModulePath.Has host name entry (some bytes)) ∨
      (∃ entry ∈ c.classEntries, ∃ bytes, ClassPath.Has host name entry (some bytes))) :
    found ≠ none ∧ ∀ rest, SearchPath.resolve host (search.dropLast ++ rest) name = .ok found := by
  have hcases := (resolve_eq_ok_iff hsearch name found).1 hfound
  obtain ⟨modules, classes, rfl, hmodules, hclasses⟩ := exists_parts_of_searchPath hsearch
  have hpaths : found ≠ none ∧ Searched (Provider.Has host name) (modules ++ classes) found := by
    rw [searched_append, hmodules, hmodules, hclasses]
    rcases hcases with ⟨hne, hm⟩ | ⟨hm, ⟨hne, hc⟩ | ⟨hc, -⟩⟩
    · exact ⟨hne, .inl ⟨hne, hm⟩⟩
    · exact ⟨hne, .inr ⟨hm, hc⟩⟩
    · -- The runtime is asked only if no entry has the class, and one does.
      rcases hentry with ⟨entry, hmem, bytes, hhas⟩ | ⟨entry, hmem, bytes, hhas⟩
      · cases entryHas_unique ModulePath.provides_unique hhas (hm entry hmem)
      · cases entryHas_unique ClassPath.provides_unique hhas (hc entry hmem)
  refine ⟨hpaths.1, fun rest => ?_⟩
  rw [List.dropLast_concat, SearchPath.resolve_eq_ok_iff, searched_append]
  exact .inl hpaths

/-- Entries that stand for no provider may be left out of both paths. -/
theorem searchPath_filter (hsearch : c.searchPath host.files = .ok search) {c' : Config}
    {keepModule keepClass : Text → Bool}
    (hmodule : ∀ entry ∈ c.moduleEntries, keepModule entry = false →
      ModulePath.Provides host.files entry [])
    (hclass : ∀ entry ∈ c.classEntries, keepClass entry = false →
      ClassPath.Provides host.files entry [])
    (hmodules' : c'.moduleEntries = c.moduleEntries.filter keepModule)
    (hclasses' : c'.classEntries = c.classEntries.filter keepClass) :
    c'.searchPath host.files = .ok search := by
  obtain ⟨modules, classes, hmodules, hclasses, rfl⟩ := searchPath_eq_ok_iff.1 hsearch
  refine searchPath_eq_ok_iff.2 ⟨modules, classes, ?_, ?_, rfl⟩
  · rw [hmodules']
    refine joinAll_filter hmodules fun entry hentry hkeep part hpart => ?_
    exact ModulePath.provides_unique (ModulePath.provides_of_ofEntry hpart)
      (hmodule entry hentry hkeep)
  · rw [hclasses']
    refine joinAll_filter hclasses fun entry hentry hkeep part hpart => ?_
    exact ClassPath.provides_unique (ClassPath.provides_of_ofEntry hpart)
      (hclass entry hentry hkeep)

/-- Colons join paths. A class is taken from the first entry of the module path that has it, or else
from the first entry of the class path that has it, or else from the runtime. If an entry has it,
nothing depends on what is searched after the entries. Missing and unsupported entries may be left
out. -/
theorem searches_entries_in_order (hsearch : c.searchPath host.files = .ok search) :
    (∀ fs a b, ClassPath.parse fs (a ++ ":" ++ b) =
      do let before ← ClassPath.parse fs a; let after ← ClassPath.parse fs b
         pure (before ++ after)) ∧
    (∀ fs a b, ModulePath.parse fs (a ++ ":" ++ b) =
      do let before ← ModulePath.parse fs a; let after ← ModulePath.parse fs b
         pure (before ++ after)) ∧
    (∀ name found, search.resolve host name = .ok found ↔
      (found ≠ none ∧ Searched (ModulePath.Has host name) c.moduleEntries found) ∨
      (Searched (ModulePath.Has host name) c.moduleEntries none ∧
        ((found ≠ none ∧ Searched (ClassPath.Has host name) c.classEntries found) ∨
        (Searched (ClassPath.Has host name) c.classEntries none ∧
          Provider.resolve host name (.runtime none) = .ok found)))) ∧
    (∀ name found, search.resolve host name = .ok found →
      (∃ entry ∈ c.moduleEntries, ∃ bytes, ModulePath.Has host name entry (some bytes)) ∨
        (∃ entry ∈ c.classEntries, ∃ bytes, ClassPath.Has host name entry (some bytes)) →
      found ≠ none ∧ ∀ rest, SearchPath.resolve host (search.dropLast ++ rest) name = .ok found) ∧
    ∀ (c' : Config) (keepModule keepClass : Text → Bool),
      (∀ entry ∈ c.moduleEntries, keepModule entry = false →
        ModulePath.Unsupported host.files entry) →
      (∀ entry ∈ c.classEntries, keepClass entry = false →
        ClassPath.Unsupported host.files entry) →
      c'.moduleEntries = c.moduleEntries.filter keepModule →
      c'.classEntries = c.classEntries.filter keepClass →
      c'.searchPath host.files = .ok search := by
  refine ⟨fun fs => joinAll_pathEntries_append _, fun fs => joinAll_pathEntries_append _,
    resolve_eq_ok_iff hsearch, ?_, ?_⟩
  · intro name found hfound hentry
    exact resolve_dropLast hsearch hfound hentry
  · intro c' keepModule keepClass hmodule hclass hmodules' hclasses'
    refine searchPath_filter hsearch ?_ ?_ hmodules' hclasses'
    · exact fun entry hentry hkeep => (hmodule entry hentry hkeep).provides
    · exact fun entry hentry hkeep => (hclass entry hentry hkeep).provides

end Config

/-- A module and a directory that have a class `A` of their own, and a directory of two jars
without one. -/
def layeredHost : Host where
  files :=
    { entries :=
        [(["m"], .directory), (["module-info.class", "m"], .file { content := ⟨#[0]⟩ }),
          (["A.class", "m"], .file { content := ⟨#[1]⟩ }), (["lib"], .directory),
          (["b.jar", "lib"], .file emptyArchive), (["a.jar", "lib"], .file emptyArchive),
          (["cp"], .directory), (["A.class", "cp"], .file { content := ⟨#[2]⟩ })]
      workingDirectory := []
      isTree := by decide
      inside := rfl }
  environment := ⟨none, none, none⟩

/-- A configuration whose class path starts with an entry that is missing. -/
def layeredConfig : Config := ⟨[], ⟨.relative, []⟩, "absent:lib/*:cp", some "m"⟩

def layeredPath (parts : List Text) : FilePath := ⟨.relative, parts⟩

theorem children_layeredHost : layeredHost.files.children (.ofText "lib/") =
    .ok [layeredPath ["lib", "a.jar"], layeredPath ["lib", "b.jar"]] := by
  have hlook : layeredHost.files.look (.ofText "lib/") = .ok (some (.directory ["lib"])) := rfl
  have hnames : layeredHost.files.namesIn ["lib"] = (["b.jar", "a.jar"] : List Text) := by decide
  have hsorted : Text.sort ["b.jar", "a.jar"] = (["a.jar", "b.jar"] : List Text) := by
    have hperm : (Text.sort ["b.jar", "a.jar"]).Perm ["a.jar", "b.jar"] :=
      (Text.perm_sort _).trans (.swap _ _ _)
    exact hperm.eq_of_pairwise (fun _ _ _ _ => Text.eq_of_not_lt) (Text.pairwise_sort _) (by decide)
  have hlisting : layeredHost.files.limits.listing ["lib"] = none := rfl
  rw [FileSystem.children, hlook]
  simp only [hlisting, FileSystem.childNames_eq_sort, hnames, hsorted]
  rfl

theorem searchPath_layeredConfig : layeredConfig.searchPath layeredHost.files =
    .ok [.directory (layeredPath ["m"]), .archive ⟨layeredPath ["lib", "a.jar"], []⟩,
      .archive ⟨layeredPath ["lib", "b.jar"], []⟩, .directory (layeredPath ["cp"]),
      .runtime none] := by
  have hmodule : ModulePath.ofEntry layeredHost.files "m" =
      .ok [.directory (layeredPath ["m"])] := by decide +kernel
  have habsent : ClassPath.ofEntry layeredHost.files "absent" = .ok [] := by decide +kernel
  have hclasses : ClassPath.ofEntry layeredHost.files "cp" =
      .ok [.directory (layeredPath ["cp"])] := by decide +kernel
  have hjars : ClassPath.ofEntry layeredHost.files "lib/*" =
      .ok [.archive ⟨layeredPath ["lib", "a.jar"], []⟩,
        .archive ⟨layeredPath ["lib", "b.jar"], []⟩] := by
    have hwildcard : ClassPath.wildcardDirectory? "lib/*" = some (.ofText "lib/") := by decide
    simp only [ClassPath.ofEntry, hwildcard, ClassPath.jarsIn, children_layeredHost]
    decide +kernel
  rw [Config.searchPath_eq_ok_iff]
  refine ⟨_, _, joinAll_ok_iff.2 ⟨_, .cons hmodule .nil, rfl⟩,
    joinAll_ok_iff.2 ⟨_, .cons habsent (.cons hjars (.cons hclasses .nil)), rfl⟩, rfl⟩

/-- The class is taken from the module, whatever stands in place of the runtime, and the missing
entry may be left out. -/
theorem searches_entries_in_order_layered :
    let search : SearchPath :=
      [.directory (layeredPath ["m"]), .archive ⟨layeredPath ["lib", "a.jar"], []⟩,
        .archive ⟨layeredPath ["lib", "b.jar"], []⟩, .directory (layeredPath ["cp"]),
        .runtime none]
    layeredConfig.searchPath layeredHost.files = .ok search ∧
      search.resolve layeredHost ⟨"A", none⟩ = .ok (some [1]) ∧
      ModulePath.Has layeredHost ⟨"A", none⟩ "m" (some [1]) ∧
      ClassPath.Has layeredHost ⟨"A", none⟩ "cp" (some [2]) ∧
      (∀ rest, SearchPath.resolve layeredHost (search.dropLast ++ rest) ⟨"A", none⟩ =
        .ok (some [1])) ∧
      ClassPath.Unsupported layeredHost.files "absent" ∧
      { layeredConfig with classPath := "lib/*:cp" }.searchPath layeredHost.files = .ok search := by
  intro search
  have hm : (Provider.directory (layeredPath ["m"])).resolve layeredHost ⟨"A", none⟩ =
      .ok (some [1]) := by decide +kernel
  have hcp : (Provider.directory (layeredPath ["cp"])).resolve layeredHost ⟨"A", none⟩ =
      .ok (some [2]) := by decide +kernel
  have hfirst : search.resolve layeredHost ⟨"A", none⟩ = .ok (some [1]) := by decide +kernel
  have hmodule : ModulePath.Has layeredHost ⟨"A", none⟩ "m" (some [1]) := by
    have hprovides : ModulePath.Provides layeredHost.files "m" [.directory (layeredPath ["m"])] :=
      ModulePath.provides_of_ofEntry (by decide +kernel)
    exact ⟨_, hprovides, searched_singleton.2 hm⟩
  have hclass : ClassPath.Has layeredHost ⟨"A", none⟩ "cp" (some [2]) := by
    have hprovides : ClassPath.Provides layeredHost.files "cp" [.directory (layeredPath ["cp"])] :=
      ClassPath.provides_of_ofEntry (by decide +kernel)
    exact ⟨_, hprovides, searched_singleton.2 hcp⟩
  have hmissing : ClassPath.Unsupported layeredHost.files "absent" := by
    have hdirectory : layeredHost.files.isDirectory (.ofText "absent") = .ok false := by
      decide +kernel
    have hfile : layeredHost.files.isFile (.ofText "absent") = .ok false := by decide +kernel
    refine .inr ⟨fun directory hwildcard => ?_, ?_, fun hat => ?_⟩
    · cases ClassPath.wildcardDirectory?_eq_some_iff.2 hwildcard
    · exact mt (FileSystem.isDirectory_ok hdirectory).2 Bool.false_ne_true
    · cases (FileSystem.isFile_ok hfile).2 hat
  obtain ⟨-, -, -, hruntime, hfilter⟩ :=
    Config.searches_entries_in_order searchPath_layeredConfig
  have hmem : ("m" : Text) ∈ layeredConfig.moduleEntries := by decide
  have hentry := hruntime _ _ hfirst (.inl ⟨"m", hmem, [1], hmodule⟩)
  refine ⟨searchPath_layeredConfig, hfirst, hmodule, hclass, hentry.2, hmissing, ?_⟩
  refine hfilter _ (fun _ => true) (fun entry => entry != "absent") ?_ ?_ (by decide) (by decide)
  · intro entry _ hkeep
    cases hkeep
  · intro entry _ hkeep
    obtain rfl : entry = "absent" := by simpa using hkeep
    exact hmissing

end JniHeader
