import JniHeader.Proofs.Files.PlainWalk
import JniHeader.Proofs.Files.UsableNames

/-!
# Trees of files

A directory without links below it, in which all names can be looked up, is a tree: what
a path into it leads to is decided by the entry at its end, and a path that leads nowhere
is an absence. How the directory itself was come to, through links or not, has no part in
this.
-/
namespace JniHeader

/-- The file can be read. -/
def RegularFile.isSound (f : RegularFile) : Bool := f.isReadable && !f.isDamaged

def FileEntry.isSound : FileEntry → Bool
  | .file f => f.isSound
  | _ => true

theorem RegularFile.read_of_isSound {f : RegularFile} (h : f.isSound = true) (p : FilePath) :
    f.read p = .ok f.content := by
  obtain ⟨hreadable, hdamaged⟩ := Bool.and_eq_true_iff.1 h
  rw [Bool.not_eq_true'] at hdamaged
  rw [read, hreadable, hdamaged]
  rfl

namespace FileSystem

variable {fs : FileSystem} {here d location : Location} {name : Text} {parts rest : List Text}
  {place : Place} {f : RegularFile}

/-- The regular file at a location. -/
def fileAt (fs : FileSystem) (location : Location) : Option RegularFile :=
  match fs.entryAt location with
  | some (.file f) => some f
  | _ => none

theorem fileAt_eq_some_iff :
    fs.fileAt location = some f ↔ fs.entryAt location = some (.file f) := by
  unfold fileAt
  split
  · next g hg => rw [hg, Option.some.injEq, Option.some.injEq, FileEntry.file.injEq]
  · next hother =>
      constructor
      · intro h
        cases h
      · intro h
        exact absurd h (hother f)

/-- A directory below which there are no links and no files that cannot be read, and in which names
can be looked up everywhere. -/
structure TreeAt (fs : FileSystem) (here : Location) : Prop where
  root : fs.entryAt here = some .directory
  noLink : ∀ location target, here <:+ location → fs.entryAt location ≠ some (.link target)
  sound : ∀ location f, here <:+ location → fs.entryAt location = some (.file f) →
    f.isSound = true
  searched : ∀ location, here <:+ location → fs.limits.lookup location = none

/-- A directory in a tree is a tree. -/
theorem TreeAt.below (h : fs.TreeAt here) (hsuffix : here <:+ d)
    (hdirectory : fs.entryAt d = some .directory) : fs.TreeAt d where
  root := hdirectory
  noLink location target hlocation := h.noLink location target (hsuffix.trans hlocation)
  sound location f hlocation := h.sound location f (hsuffix.trans hlocation)
  searched location hlocation := h.searched location (hsuffix.trans hlocation)

/-- A file system without links and without files that cannot be read is a tree, if names can be
looked up everywhere. -/
theorem treeAt_root (hlinks : fs.LinkFree)
    (hsound : ∀ x ∈ fs.entries, x.2.isSound = true)
    (hsearched : ∀ location, fs.limits.lookup location = none) : fs.TreeAt [] where
  root := rfl
  noLink location target _ := hlinks.entryAt_ne_link location target
  sound location f _ h := by
    cases location with
    | nil => cases h
    | cons name parent => exact hsound _ (mem_entries (List.cons_ne_nil name parent) h)
  searched location _ := hsearched location

section Links

variable {onLink : Location → FilePath → List Text → Except SystemProblem Place}

/-- Without links below its start, a walk that never leads upwards is a plain one. -/
theorem walkWith_of_noLink
    (hlink : ∀ location target, here <:+ location → fs.entryAt location ≠ some (.link target))
    (hdots : (".." : Text) ∉ parts) (followLast : Bool) :
    fs.walkWith followLast onLink here parts = fs.plainWalk here parts := by
  induction parts generalizing here with
  | nil => rfl
  | cons name rest ih =>
      obtain ⟨hname, hrest⟩ := not_or.1 (mt List.mem_cons.2 hdots)
      rw [plainWalk, walkWith, walkWith, if_neg (Ne.symm hname), if_neg (Ne.symm hname)]
      split
      · rfl
      · split
        · rfl
        · apply ih _ hrest
          intro location target hlocation
          exact hlink location target ((List.suffix_cons name here).trans hlocation)
        · rfl
        · next target htarget => exact absurd htarget (hlink _ target (List.suffix_cons name here))

theorem walk_of_noLink
    (hlink : ∀ location target, here <:+ location → fs.entryAt location ≠ some (.link target))
    (hdots : (".." : Text) ∉ parts) (followLast : Bool) (links : ℕ) :
    fs.walk followLast links here parts = fs.plainWalk here parts := by
  cases links with
  | zero => exact walkWith_of_noLink hlink hdots followLast
  | succ links => exact walkWith_of_noLink hlink hdots followLast

/-- A walk that comes to a directory goes on from there, if one that goes on from a link does. -/
theorem walkWith_append
    (hself : ∃ links, fs.walk true links = fs.walkWith true onLink)
    (hlink : ∀ here target parts, onLink here target parts = .ok (.directory d) →
      ∃ links, onLink here target (parts ++ rest) = fs.walk true links d rest)
    (h : fs.walkWith true onLink here parts = .ok (.directory d)) :
    ∃ links, fs.walkWith true onLink here (parts ++ rest) = fs.walk true links d rest := by
  induction parts generalizing here with
  | nil =>
      obtain rfl : here = d := Place.directory.inj (Except.ok.inj h)
      obtain ⟨links, hlinks⟩ := hself
      exact ⟨links, by rw [hlinks, List.nil_append]⟩
  | cons name parts ih =>
      rw [walkWith] at h
      rw [List.cons_append]
      simp only [walkWith]
      split at h
      · cases h
      · split at h
        · next hdots =>
            rw [if_pos hdots]
            exact ih h
        · next hdots =>
            rw [if_neg hdots]
            split at h
            · split at h <;> cases h
            · exact ih h
            · split at h <;> cases h
            · simp only [Bool.not_true, Bool.and_false, Bool.false_eq_true, if_false] at h ⊢
              exact hlink _ _ _ h

theorem walk_append {links : ℕ} (h : fs.walk true links here parts = .ok (.directory d)) :
    ∃ links', fs.walk true links here (parts ++ rest) = fs.walk true links' d rest := by
  induction links generalizing here parts with
  | zero =>
      refine walkWith_append ⟨0, rfl⟩ ?_ h
      intro here target parts hlink
      cases hlink
  | succ links ih =>
      refine walkWith_append ⟨links + 1, rfl⟩ ?_ h
      intro here target parts hlink
      rw [← List.append_assoc]
      exact ih hlink

end Links

/-- The walk leads to no file: to a directory, to a vacant place or to nothing. -/
inductive Fileless : Except SystemProblem Place → Prop
  | directory (d : Location) : Fileless (.ok (.directory d))
  | vacant (parent : Location) (name : Text) : Fileless (.ok (.vacant parent name))
  | absent {problem : SystemProblem} : problem.isAbsence = true → Fileless (.error problem)

/-- Components that a walk into a tree takes as they are. -/
def Enterable (parts : List Text) : Prop :=
  ∀ name ∈ parts, ¬ maxNameSize < name.nameSize ∧ name ≠ ".."

theorem TreeAt.plainWalk (h : fs.TreeAt here) (hparts : Enterable parts) :
    (∃ f, fs.fileAt (parts.reverse ++ here) = some f ∧
        fs.plainWalk here parts = .ok (.file (parts.reverse ++ here) f)) ∨
      fs.fileAt (parts.reverse ++ here) = none ∧ Fileless (fs.plainWalk here parts) := by
  induction parts generalizing here with
  | nil =>
      refine .inr ⟨?_, .directory here⟩
      rw [List.reverse_nil, List.nil_append, fileAt, h.root]
  | cons name rest ih =>
      obtain ⟨⟨hsize, hdots⟩, hrest⟩ := List.forall_mem_cons.1 hparts
      have hsuffix : here <:+ name :: here := List.suffix_cons name here
      have hopen : fs.barrier? here name = none :=
        barrier?_eq_none_iff.2 ⟨h.searched here (List.suffix_refl here), hsize⟩
      have hlocation : (name :: rest).reverse ++ here = rest.reverse ++ (name :: here) := by
        rw [List.reverse_cons, List.append_assoc, List.singleton_append]
      -- Where there is no directory, there is nothing below.
      have hnone : rest ≠ [] → fs.entryAt (name :: here) ≠ some .directory →
          fs.fileAt (rest.reverse ++ (name :: here)) = none := by
        intro hne hnot
        rw [Option.eq_none_iff_forall_ne_some]
        intro f hf
        exact hnot (directory_of_append (List.reverse_ne_nil_iff.2 hne) (fileAt_eq_some_iff.1 hf))
      rw [hlocation, FileSystem.plainWalk, walkWith, hopen, if_neg hdots]
      cases hentry : fs.entryAt (name :: here) with
      | none =>
          by_cases hnil : rest = []
          · subst hnil
            refine .inr ⟨?_, .vacant here name⟩
            rw [List.reverse_nil, List.nil_append, fileAt, hentry]
          · refine .inr ⟨hnone hnil (by simp [hentry]), ?_⟩
            simp only [List.isEmpty_eq_false_iff.2 hnil]
            exact .absent rfl
      | some e =>
          cases e with
          | directory => exact ih (h.below hsuffix hentry) hrest
          | file f =>
              by_cases hnil : rest = []
              · subst hnil
                exact .inl ⟨f, fileAt_eq_some_iff.2 hentry, rfl⟩
              · refine .inr ⟨hnone hnil (by simp [hentry]), ?_⟩
                simp only [List.isEmpty_eq_false_iff.2 hnil]
                exact .absent rfl
          | link target => exact absurd hentry (h.noLink _ target hsuffix)

theorem directory_of_look {p : FilePath} (h : fs.look p = .ok (some (.directory d))) :
    unusableName? p.text = none ∧
      fs.walk true maxLinks (startOf p fs.workingDirectory) p.parts = .ok (.directory d) := by
  have hfind : fs.find true p = .ok (.directory d) := by
    unfold look at h
    split at h
    · cases h
    · next place hplace =>
        obtain rfl := Option.some.inj (Except.ok.inj h)
        exact hplace
    · cases h
    · split_ifs at h
      cases h
  unfold find at hfind
  split at hfind
  · cases hfind
  · next husable =>
      split at hfind
      · cases hfind
      · split at hfind
        · next place hwalk =>
            obtain rfl := Except.ok.inj hfind
            exact ⟨husable, hwalk⟩
        · cases hfind

/-- The file that a path leads to, from what its walk leads to. -/
theorem regularFile?_of_walk {p : FilePath} {r : Except SystemProblem Place}
    (husable : unusableName? p.text = none) (hsize : p.text.nameSize ≤ maxPathSize)
    (hwalk : fs.walk true maxLinks (startOf p fs.workingDirectory) p.parts = r) :
    (∀ location f, r = .ok (.file location f) → fs.regularFile? p = .ok (some f)) ∧
      (Fileless r → fs.regularFile? p = .ok none) := by
  have hfind : fs.find true p =
      r.mapError fun problem => .system ⟨problem, some p⟩ := by
    rw [← hwalk, find, husable]
    refine (if_neg (Nat.not_lt.2 hsize)).trans ?_
    split
    · next hplace => rw [hplace]; rfl
    · next hproblem => rw [hproblem]; rfl
  constructor
  · rintro location f rfl
    rw [regularFile?, look, hfind]
    rfl
  · intro h
    rw [regularFile?, look, hfind]
    cases h with
    | directory d => rfl
    | vacant parent name => rfl
    | absent habsence =>
        simp only [Except.mapError, habsence]
        rfl

/-- A path into a tree leads to the file at its end. -/
theorem TreeAt.regularFile? {root : FilePath} (h : fs.TreeAt here)
    (hroot : fs.look root = .ok (some (.directory here))) (hparts : Enterable parts)
    (hnameable : ∀ t ∈ parts, ∀ c ∈ t, c.IsNameable)
    (hsize : (FilePath.text ⟨root.root, root.parts ++ parts⟩).nameSize ≤ maxPathSize) :
    fs.regularFile? ⟨root.root, root.parts ++ parts⟩ =
      .ok (fs.fileAt (parts.reverse ++ here)) := by
  obtain ⟨husable, hwalk⟩ := directory_of_look hroot
  have husable' : unusableName? (FilePath.text ⟨root.root, root.parts ++ parts⟩) = none :=
    FilePath.usable_iff.2 (List.forall_mem_append.2 ⟨FilePath.usable_iff.1 husable, hnameable⟩)
  have hdots : (".." : Text) ∉ parts := fun hmem => (hparts _ hmem).2 rfl
  have hplain : fs.walk true maxLinks (startOf ⟨root.root, root.parts ++ parts⟩ fs.workingDirectory)
      (root.parts ++ parts) = fs.plainWalk here parts := by
    obtain ⟨links, hlinks⟩ := walk_append hwalk
    exact hlinks.trans (walk_of_noLink h.noLink hdots true links)
  obtain ⟨hfile, hnone⟩ := regularFile?_of_walk husable' hsize hplain
  rcases h.plainWalk hparts with ⟨f, hf, hwalk⟩ | ⟨hnot, hwalk⟩
  · rw [hfile _ f hwalk, hf]
  · rw [hnone hwalk, hnot]

end FileSystem

end JniHeader
