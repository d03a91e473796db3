import JniHeader.Proofs.Search.ModuleOrder
import JniHeader.Search.PathText

/-!
# Entries of a path

What an entry of a class path or of a module path stands for is a matter of the files that
are there. A place is a class tree, an archive or neither; a directory stands for those of
its files that are one or the other, in the order of their names. If the questions that are
asked about an entry have answers, it gives exactly the providers that it stands for, and
a path gives those of its entries, one after the other. A colon joins two paths.
-/
namespace JniHeader

namespace FileSystem

/-- There is a directory at the path, links followed. -/
def IsDirectoryAt (fs : FileSystem) (p : FilePath) : Prop :=
  ∃ location, fs.look p = .ok (some (.directory location))

/-- There is a regular file at the path, links followed. -/
def IsFileAt (fs : FileSystem) (p : FilePath) : Prop :=
  ∃ location f, fs.look p = .ok (some (.file location f))

/-- The second path is that of an entry of the directory at the first. -/
def IsChildOf (fs : FileSystem) (directory p : FilePath) : Prop :=
  ∃ location name, fs.look directory = .ok (some (.directory location)) ∧
    fs.entryAt (name :: location) ≠ none ∧ p = inDirectory directory name

variable {fs : FileSystem} {p : FilePath}

theorem isDirectory_ok {found : Bool} (h : fs.isDirectory p = .ok found) :
    found = true ↔ fs.IsDirectoryAt p := by
  unfold isDirectory at h
  unfold IsDirectoryAt
  cases hlook : fs.look p with
  | error e =>
      rw [hlook] at h
      cases h
  | ok place =>
      rw [hlook] at h
      obtain rfl := Except.ok.inj h
      cases place with
      | none => simp
      | some place => cases place <;> simp

theorem isFile_ok {found : Bool} (h : fs.isFile p = .ok found) :
    found = true ↔ fs.IsFileAt p := by
  unfold isFile regularFile? at h
  unfold IsFileAt
  cases hlook : fs.look p with
  | error e =>
      rw [hlook] at h
      cases h
  | ok place =>
      rw [hlook] at h
      obtain rfl := Except.ok.inj h
      cases place with
      | none => simp
      | some place => cases place <;> simp

end FileSystem

theorem bind_ok_iff {α β : Type} {r : Except SystemError α} {f : α → Except SystemError β} {y : β} :
    r >>= f = .ok y ↔ ∃ x, r = .ok x ∧ f x = .ok y := by
  cases r with
  | error e => simp [bind, Except.bind]
  | ok x => simp [bind, Except.bind]

section Joins
variable {α β : Type} {step : α → Except SystemError (List β)} {xs : List α}

theorem joinAll_cons_ok_iff {x : α} {ys : List β} : joinAll step (x :: xs) = .ok ys ↔
    ∃ part rest, step x = .ok part ∧ joinAll step xs = .ok rest ∧ ys = part ++ rest := by
  simp only [joinAll, bind_ok_iff]
  constructor
  · rintro ⟨part, hpart, rest, hrest, hys⟩
    exact ⟨part, rest, hpart, hrest, (Except.ok.inj hys).symm⟩
  · rintro ⟨part, rest, hpart, hrest, rfl⟩
    exact ⟨part, hpart, rest, hrest, rfl⟩

/-- The result of a list is that of its members, one after the other. -/
theorem joinAll_ok_iff {ys : List β} : joinAll step xs = .ok ys ↔
    ∃ parts, List.Forall₂ (fun x part => step x = .ok part) xs parts ∧ ys = parts.flatten := by
  induction xs generalizing ys with
  | nil =>
      simp only [List.forall₂_nil_left_iff, exists_eq_left, List.flatten_nil]
      exact ⟨fun h => (Except.ok.inj h).symm, fun h => congrArg Except.ok h.symm⟩
  | cons x xs ih =>
      simp only [joinAll_cons_ok_iff, ih, List.forall₂_cons_left_iff]
      constructor
      · rintro ⟨part, _, hpart, ⟨parts, hparts, rfl⟩, rfl⟩
        exact ⟨part :: parts, ⟨part, parts, hpart, hparts, rfl⟩, rfl⟩
      · rintro ⟨_, ⟨part, parts, hpart, hparts, rfl⟩, rfl⟩
        exact ⟨part, parts.flatten, hpart, ⟨parts, hparts, rfl⟩, rfl⟩

/-- A failure of the first list comes first, and so does its result. -/
theorem joinAll_append (xs' : List α) : joinAll step (xs ++ xs') =
    (do let ys ← joinAll step xs; let ys' ← joinAll step xs'; pure (ys ++ ys')) := by
  induction xs with
  | nil => cases h : joinAll step xs' <;> simp [joinAll, h, bind, Except.bind, pure, Except.pure]
  | cons x xs ih =>
      rw [List.cons_append, joinAll, joinAll, ih]
      cases step x with
      | error e => rfl
      | ok part =>
          cases joinAll step xs with
          | error e => rfl
          | ok ys =>
              cases joinAll step xs' with
              | error e => rfl
              | ok ys' => exact congrArg Except.ok (List.append_assoc part ys ys').symm

end Joins

theorem pathEntries_append (a b : Text) :
    pathEntries (a ++ ":" ++ b) = pathEntries a ++ pathEntries b := by
  have hcolon : a ++ ":" ++ b = a ++ CodePoint.ofChar ':' :: b := by
    rw [List.append_assoc]
    rfl
  rw [hcolon, pathEntries, Text.splitAt_append_sep, List.filter_append]
  rfl

/-- A colon joins paths, whatever their entries stand for. -/
theorem joinAll_pathEntries_append (ofEntry : Text → Except SystemError SearchPath) (a b : Text) :
    joinAll ofEntry (pathEntries (a ++ ":" ++ b)) =
      (do let before ← joinAll ofEntry (pathEntries a)
          let after ← joinAll ofEntry (pathEntries b)
          pure (before ++ after)) := by
  rw [pathEntries_append, joinAll_append]

/-- What a place has to be in order to be searched: a class tree, or a file with one of the
suffixes. -/
structure PlaceKinds where
  IsTree : FilePath → Prop
  suffixes : List Text

/-- The provider that a place is: a class tree, or else an archive. -/
inductive Provider.IsAt (fs : FileSystem) (kinds : PlaceKinds) (p : FilePath) : Provider → Prop
  | tree : kinds.IsTree p → IsAt fs kinds p (.directory p)
  | archive : ¬ kinds.IsTree p → fs.IsFileAt p → p.suffix ∈ kinds.suffixes →
      IsAt fs kinds p (.archive (.ofPath p))

/-- A place gives the provider that it is, if it is one. -/
def Gives (fs : FileSystem) (kinds : PlaceKinds) (p : FilePath) (providers : SearchPath) : Prop :=
  (∃ provider : Provider, provider.IsAt fs kinds p ∧ providers = [provider]) ∨
    (∀ provider : Provider, ¬ provider.IsAt fs kinds p) ∧ providers = []

/-- A directory gives the providers that its files are, in ascending order of their names. -/
def GivesAll (fs : FileSystem) (kinds : PlaceKinds) (directory : FilePath)
    (providers : SearchPath) : Prop :=
  ∃ files : List FilePath, files.Pairwise (fun p q => p.fileName < q.fileName) ∧
    (∀ p, p ∈ files ↔ fs.IsChildOf directory p ∧ ∃ provider : Provider, provider.IsAt fs kinds p) ∧
    List.Forall₂ (Provider.IsAt fs kinds) files providers

section Places
variable {fs : FileSystem} {kinds : PlaceKinds} {directory p : FilePath}
  {providers providers' : SearchPath}

theorem Provider.IsAt.unique {a b : Provider} (ha : a.IsAt fs kinds p) (hb : b.IsAt fs kinds p) :
    a = b := by
  cases ha with
  | tree ha =>
      cases hb with
      | tree => rfl
      | archive hb => exact absurd ha hb
  | archive ha =>
      cases hb with
      | tree hb => exact absurd hb ha
      | archive => rfl

theorem Gives.unique (h : Gives fs kinds p providers) (h' : Gives fs kinds p providers') :
    providers = providers' := by
  rcases h with ⟨a, ha, rfl⟩ | ⟨hnone, rfl⟩
  · rcases h' with ⟨b, hb, rfl⟩ | ⟨hnone', rfl⟩
    · rw [ha.unique hb]
    · exact absurd ha (hnone' a)
  · rcases h' with ⟨b, hb, rfl⟩ | ⟨-, rfl⟩
    · exact absurd hb (hnone b)
    · rfl

theorem GivesAll.unique (h : GivesAll fs kinds directory providers)
    (h' : GivesAll fs kinds directory providers') : providers = providers' := by
  obtain ⟨files, hascending, hmem, hall⟩ := h
  obtain ⟨files', hascending', hmem', hall'⟩ := h'
  have hperm : files.Perm files' := by
    rw [List.perm_ext_iff_of_nodup (nodup_of_ascending hascending)
      (nodup_of_ascending hascending')]
    exact fun p => (hmem p).trans (hmem' p).symm
  have hfiles : files = files' := by
    refine hperm.eq_of_pairwise ?_ hascending hascending'
    intro p q _ _ hlt hlt'
    exact (Text.not_lt_or_not_lt p.fileName q.fileName).elim (absurd hlt') (absurd hlt)
  subst hfiles
  have hunique : Relator.RightUnique (Provider.IsAt fs kinds) := fun _ _ _ => Provider.IsAt.unique
  exact List.right_unique_forall₂' hunique hall hall'

/-- The files that are providers can be taken out of a list, and their providers are the result
of the list. -/
theorem exists_taken_of_joinAll {step : FilePath → Except SystemError SearchPath}
    (hstep : ∀ p providers, step p = .ok providers → Gives fs kinds p providers)
    {files : List FilePath} (h : joinAll step files = .ok providers) :
    ∃ taken : List FilePath, taken.Sublist files ∧
      (∀ p, p ∈ taken ↔ p ∈ files ∧ ∃ provider : Provider, provider.IsAt fs kinds p) ∧
      List.Forall₂ (Provider.IsAt fs kinds) taken providers := by
  induction files generalizing providers with
  | nil =>
      obtain rfl := Except.ok.inj h
      exact ⟨[], .slnil, by simp, .nil⟩
  | cons p files ih =>
      obtain ⟨part, rest, hpart, hrest, rfl⟩ := joinAll_cons_ok_iff.1 h
      obtain ⟨taken, hsublist, hmem, hall⟩ := ih hrest
      rcases hstep p part hpart with ⟨provider, hprovider, rfl⟩ | ⟨hnone, rfl⟩
      · refine ⟨p :: taken, hsublist.cons_cons p, ?_, .cons hprovider hall⟩
        intro q
        rw [List.mem_cons, List.mem_cons, hmem]
        constructor
        · rintro (rfl | ⟨hq, hprovider'⟩)
          · exact ⟨.inl rfl, provider, hprovider⟩
          · exact ⟨.inr hq, hprovider'⟩
        · rintro ⟨rfl | hq, hprovider'⟩
          · exact .inl rfl
          · exact .inr ⟨hq, hprovider'⟩
      · refine ⟨taken, hsublist.cons p, ?_, hall⟩
        intro q
        rw [List.mem_cons, hmem]
        constructor
        · rintro ⟨hq, hprovider'⟩
          exact ⟨.inr hq, hprovider'⟩
        · rintro ⟨rfl | hq, provider, hprovider⟩
          · exact absurd hprovider (hnone provider)
          · exact ⟨hq, provider, hprovider⟩

/-- If each file of a directory gives what it is, the directory gives them all. -/
theorem givesAll_of_joinAll {step : FilePath → Except SystemError SearchPath}
    (hstep : ∀ p providers, step p = .ok providers → Gives fs kinds p providers)
    {files : List FilePath} (hfiles : fs.children directory = .ok files)
    (h : joinAll step files = .ok providers) : GivesAll fs kinds directory providers := by
  obtain ⟨taken, hsublist, hmem, hall⟩ := exists_taken_of_joinAll hstep h
  refine ⟨taken, (FileSystem.children_ascending hfiles).sublist hsublist, ?_, hall⟩
  intro p
  rw [hmem, FileSystem.mem_children_iff hfiles]
  rfl

/-- A place that is no class tree and no archive of a known kind gives nothing. -/
theorem gives_nil_of_unsupported (htree : ¬ kinds.IsTree p)
    (hfile : fs.IsFileAt p → p.suffix ∉ kinds.suffixes) : Gives fs kinds p [] := by
  refine .inr ⟨?_, rfl⟩
  rintro _ (htree' | ⟨-, hat, hsuffix⟩)
  · exact htree htree'
  · exact hfile hat hsuffix

/-- What has been found to be no class tree is looked at as an archive. -/
theorem gives_of_archiveAt (htree : ¬ kinds.IsTree p)
    (h : archiveAt fs kinds.suffixes p = .ok providers) : Gives fs kinds p providers := by
  rw [archiveAt, bind_ok_iff] at h
  obtain ⟨found, hfile, h⟩ := h
  have hiff := FileSystem.isFile_ok hfile
  split_ifs at h with hfound
  · obtain rfl := Except.ok.inj h
    rw [Bool.and_eq_true, hiff, List.contains_iff_mem] at hfound
    exact .inl ⟨_, .archive htree hfound.1 hfound.2, rfl⟩
  · obtain rfl := Except.ok.inj h
    rw [Bool.and_eq_true, hiff, List.contains_iff_mem] at hfound
    exact gives_nil_of_unsupported htree fun hat hsuffix => hfound ⟨hat, hsuffix⟩

theorem givesAll_nil_of_missing (h : ¬ fs.IsDirectoryAt directory) :
    GivesAll fs kinds directory [] := by
  refine ⟨[], .nil, fun p => ?_, .nil⟩
  refine iff_of_false List.not_mem_nil ?_
  rintro ⟨⟨location, name, hlook, -⟩, -⟩
  exact h ⟨location, hlook⟩

end Places

namespace ClassPath

/-- A star in an entry stands for the files of the directory before it. -/
def IsWildcard (entry : Text) (directory : FilePath) : Prop :=
  ∃ front : Text, entry = front ++ "*" ∧ (front = [] ∨ Text.ofString "/" <:+ front) ∧
    directory = .ofText front

/-- The directories and archives that an entry may name. -/
def places (fs : FileSystem) : PlaceKinds := ⟨fs.IsDirectoryAt, [".jar", ".zip", ".jmod"]⟩

/-- The files that a star stands for. -/
def jars : PlaceKinds := ⟨fun _ => False, [".jar"]⟩

/-- What an entry stands for: all jars of a directory, or the place that it names. Where there is
no class tree and no archive of a known kind, that is nothing. -/
inductive Provides (fs : FileSystem) (entry : Text) : SearchPath → Prop
  | jars {directory : FilePath} {providers : SearchPath} : IsWildcard entry directory →
      GivesAll fs jars directory providers → Provides fs entry providers
  | place {providers : SearchPath} : (∀ directory, ¬ IsWildcard entry directory) →
      Gives fs (places fs) (.ofText entry) providers → Provides fs entry providers

theorem wildcardDirectory?_eq_some_iff {entry : Text} {directory : FilePath} :
    wildcardDirectory? entry = some directory ↔ IsWildcard entry directory := by
  have hlast : ∀ front : Text, (front ++ "*").dropLast = front := fun front =>
    List.dropLast_concat
  rw [wildcardDirectory?]
  constructor
  · intro h
    split_ifs at h with hentry
    obtain rfl := Option.some.inj h
    rw [List.isSuffixOf_iff_suffix] at hentry
    rcases hentry with rfl | ⟨front, rfl⟩
    · exact ⟨[], rfl, .inl rfl, rfl⟩
    · have hstar : front ++ Text.ofString "/*" = (front ++ "/") ++ "*" :=
        (List.append_assoc front "/" "*").symm
      rw [hstar, hlast]
      exact ⟨front ++ "/", rfl, .inr (List.suffix_append front "/"), rfl⟩
  · rintro ⟨front, rfl, hfront, rfl⟩
    rw [if_pos, hlast]
    rcases hfront with rfl | ⟨front, rfl⟩
    · exact .inl rfl
    · right
      rw [List.isSuffixOf_iff_suffix]
      exact ⟨front, (List.append_assoc front "/" "*").symm⟩

theorem provides_of_ofEntry {fs : FileSystem} {entry : Text} {providers : SearchPath}
    (h : ofEntry fs entry = .ok providers) : Provides fs entry providers := by
  unfold ofEntry at h
  split at h
  · next directory hdirectory =>
      rw [jarsIn, bind_ok_iff] at h
      obtain ⟨files, hfiles, h⟩ := h
      refine .jars (wildcardDirectory?_eq_some_iff.1 hdirectory) (givesAll_of_joinAll ?_ hfiles h)
      exact fun p providers hp => gives_of_archiveAt not_false hp
  · next hnone =>
      have hwildcard : ∀ directory, ¬ IsWildcard entry directory := by
        intro directory hdirectory
        rw [wildcardDirectory?_eq_some_iff.2 hdirectory] at hnone
        cases hnone
      obtain ⟨found, hfound, h⟩ := bind_ok_iff.1 h
      have hiff := FileSystem.isDirectory_ok hfound
      split_ifs at h with hdirectory
      · obtain rfl := Except.ok.inj h
        exact .place hwildcard (.inl ⟨_, .tree (hiff.1 hdirectory), rfl⟩)
      · exact .place hwildcard (gives_of_archiveAt (mt hiff.2 hdirectory) h)

theorem provides_unique {fs : FileSystem} : Relator.RightUnique (Provides fs) := by
  intro entry providers providers' h h'
  cases h with
  | jars hwildcard hall =>
      cases h' with
      | jars hwildcard' hall' =>
          have hdirectory := (wildcardDirectory?_eq_some_iff.2 hwildcard).symm.trans
            (wildcardDirectory?_eq_some_iff.2 hwildcard')
          obtain rfl := Option.some.inj hdirectory
          exact hall.unique hall'
      | place hnone => exact absurd hwildcard (hnone _)
  | place hnone hplace =>
      cases h' with
      | jars hwildcard => exact absurd hwildcard (hnone _)
      | place _ hplace' => exact hplace.unique hplace'

/-- Nothing that could be searched is there: no directory, and no archive of a known kind. -/
def Unsupported (fs : FileSystem) (entry : Text) : Prop :=
  (∃ directory, IsWildcard entry directory ∧ ¬ fs.IsDirectoryAt directory) ∨
    (∀ directory, ¬ IsWildcard entry directory) ∧ ¬ fs.IsDirectoryAt (.ofText entry) ∧
      (fs.IsFileAt (.ofText entry) →
        (FilePath.ofText entry).suffix ∉ ([".jar", ".zip", ".jmod"] : List Text))

theorem Unsupported.provides {fs : FileSystem} {entry : Text} (h : Unsupported fs entry) :
    Provides fs entry [] := by
  rcases h with ⟨directory, hwildcard, hmissing⟩ | ⟨hnone, hmissing, hfile⟩
  · exact .jars hwildcard (givesAll_nil_of_missing hmissing)
  · exact .place hnone (gives_nil_of_unsupported hmissing hfile)

end ClassPath

namespace ModulePath

/-- A directory that is a class tree by itself. -/
def IsExplodedAt (fs : FileSystem) (p : FilePath) : Prop :=
  fs.IsDirectoryAt p ∧ fs.IsFileAt (p.append "module-info.class")

/-- The class trees and archives that are modules. -/
def modules (fs : FileSystem) : PlaceKinds := ⟨IsExplodedAt fs, [".jar", ".jmod"]⟩

/-- What an entry stands for: the module that it names, or all modules of a directory that is none
itself. -/
inductive Provides (fs : FileSystem) (entry : Text) : SearchPath → Prop
  | directory {providers : SearchPath} : ¬ IsExplodedAt fs (.ofText entry) →
      fs.IsDirectoryAt (.ofText entry) → GivesAll fs (modules fs) (.ofText entry) providers →
      Provides fs entry providers
  | module {providers : SearchPath} :
      (fs.IsDirectoryAt (.ofText entry) → IsExplodedAt fs (.ofText entry)) →
      Gives fs (modules fs) (.ofText entry) providers → Provides fs entry providers

theorem isExploded_ok {fs : FileSystem} {p : FilePath} {found : Bool}
    (h : isExploded fs p = .ok found) : found = true ↔ IsExplodedAt fs p := by
  rw [isExploded, bind_ok_iff] at h
  obtain ⟨found', hfound', h⟩ := h
  have hdirectory := FileSystem.isDirectory_ok hfound'
  split_ifs at h with htrue
  · have hfile := FileSystem.isFile_ok h
    rw [hfile, IsExplodedAt]
    exact (and_iff_right (hdirectory.1 htrue)).symm
  · obtain rfl := Except.ok.inj h
    exact iff_of_false Bool.false_ne_true fun hexploded => htrue (hdirectory.2 hexploded.1)

theorem gives_of_ofModule {fs : FileSystem} {p : FilePath} {providers : SearchPath}
    (h : ofModule fs p = .ok providers) : Gives fs (modules fs) p providers := by
  rw [ofModule, bind_ok_iff] at h
  obtain ⟨found, hfound, h⟩ := h
  have hiff := isExploded_ok hfound
  split_ifs at h with hexploded
  · obtain rfl := Except.ok.inj h
    exact .inl ⟨_, .tree (hiff.1 hexploded), rfl⟩
  · exact gives_of_archiveAt (mt hiff.2 hexploded) h

theorem provides_of_ofEntry {fs : FileSystem} {entry : Text} {providers : SearchPath}
    (h : ofEntry fs entry = .ok providers) : Provides fs entry providers := by
  obtain ⟨found, hfound, h⟩ := bind_ok_iff.1 h
  have hiff := isExploded_ok hfound
  split_ifs at h with hexploded
  · obtain rfl := Except.ok.inj h
    exact .module (fun _ => hiff.1 hexploded) (.inl ⟨_, .tree (hiff.1 hexploded), rfl⟩)
  · obtain ⟨found', hfound', h⟩ := bind_ok_iff.1 h
    have hiff' := FileSystem.isDirectory_ok hfound'
    split_ifs at h with hdirectory
    · obtain ⟨files, hfiles, h⟩ := bind_ok_iff.1 h
      refine .directory (mt hiff.2 hexploded) (hiff'.1 hdirectory) ?_
      exact givesAll_of_joinAll (fun p providers => gives_of_ofModule) hfiles h
    · refine .module (fun h => absurd (hiff'.2 h) hdirectory) ?_
      exact gives_of_archiveAt (mt hiff.2 hexploded) h

theorem provides_unique {fs : FileSystem} : Relator.RightUnique (Provides fs) := by
  intro entry providers providers' h h'
  cases h with
  | directory hexploded hdirectory hall =>
      cases h' with
      | directory _ _ hall' => exact hall.unique hall'
      | module himp => exact absurd (himp hdirectory) hexploded
  | module himp hmodule =>
      cases h' with
      | directory hexploded hdirectory => exact absurd (himp hdirectory) hexploded
      | module _ hmodule' => exact hmodule.unique hmodule'

/-- Nothing that could be searched is there: no directory, and no archive of a known kind. -/
def Unsupported (fs : FileSystem) (entry : Text) : Prop :=
  ¬ fs.IsDirectoryAt (.ofText entry) ∧ (fs.IsFileAt (.ofText entry) →
    (FilePath.ofText entry).suffix ∉ ([".jar", ".jmod"] : List Text))

theorem Unsupported.provides {fs : FileSystem} {entry : Text} (h : Unsupported fs entry) :
    Provides fs entry [] := by
  obtain ⟨hmissing, hfile⟩ := h
  refine .module (fun hdirectory => absurd hdirectory hmissing) ?_
  exact gives_nil_of_unsupported (fun hexploded => hmissing hexploded.1) hfile

end ModulePath

end JniHeader
