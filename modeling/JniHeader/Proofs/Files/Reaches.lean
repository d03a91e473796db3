import JniHeader.Proofs.Files.PlainWalk

/-!
# Walks that follow links

What a walk does at one component is said once, as a relation, and a walk comes to a
place exactly if the relation leads there. A place that is reached is as the table has
it. While directories and links stay, a place that is reached stays reached, and so does
what is put into it: a directory where it was vacant, or a file.
-/
namespace JniHeader

namespace FileSystem

variable {fs fs' fs'' : FileSystem} {followLast : Bool} {links : ℕ} {here : Location} {name : Text}
  {parts rest : List Text} {place : Place}

/-- A walk along components leads to a place, through at most `links` links. -/
inductive Reaches (fs : FileSystem) (followLast : Bool) : ℕ → Location → List Text → Place → Prop
  | here {links : ℕ} {here : Location} : Reaches fs followLast links here [] (.directory here)
  | up {links : ℕ} {here : Location} {rest : List Text} {place : Place} :
      fs.barrier? here ".." = none →
      Reaches fs followLast links here.tail rest place →
      Reaches fs followLast links here (".." :: rest) place
  | down {links : ℕ} {here : Location} {name : Text} {rest : List Text} {place : Place} :
      fs.barrier? here name = none → name ≠ ".." →
      fs.entryAt (name :: here) = some .directory →
      Reaches fs followLast links (name :: here) rest place →
      Reaches fs followLast links here (name :: rest) place
  | file {links : ℕ} {here : Location} {name : Text} {f : RegularFile} :
      fs.barrier? here name = none → name ≠ ".." →
      fs.entryAt (name :: here) = some (.file f) →
      Reaches fs followLast links here [name] (.file (name :: here) f)
  | vacant {links : ℕ} {here : Location} {name : Text} :
      fs.barrier? here name = none → name ≠ ".." → fs.entryAt (name :: here) = none →
      Reaches fs followLast links here [name] (.vacant here name)
  | link {links : ℕ} {here : Location} {name : Text} {target : FilePath} :
      fs.barrier? here name = none → name ≠ ".." →
      fs.entryAt (name :: here) = some (.link target) → followLast = false →
      Reaches fs followLast links here [name] (.link (name :: here) target)
  | follow {links : ℕ} {here : Location} {name : Text} {target : FilePath} {rest : List Text}
      {place : Place} :
      fs.barrier? here name = none → name ≠ ".." →
      fs.entryAt (name :: here) = some (.link target) → (rest.isEmpty && !followLast) = false →
      Reaches fs followLast links (startOf target here) (target.parts ++ rest) place →
      Reaches fs followLast (links + 1) here (name :: rest) place

/-- A step-by-step walk is one of the relation, if what goes on from a link is. -/
theorem reaches_of_walkWith
    {onLink : Location → FilePath → List Text → Except SystemProblem Place}
    (hlink : ∀ (here : Location) (name : Text) target rest place,
      fs.barrier? here name = none → name ≠ ".." →
      fs.entryAt (name :: here) = some (.link target) → (rest.isEmpty && !followLast) = false →
      onLink here target rest = .ok place → Reaches fs followLast links here (name :: rest) place)
    (h : fs.walkWith followLast onLink here parts = .ok place) :
    Reaches fs followLast links here parts place := by
  induction parts generalizing here with
  | nil =>
      obtain rfl := Except.ok.inj h
      exact .here
  | cons name rest ih =>
      rw [walkWith] at h
      split at h
      · cases h
      · next hopen =>
          split at h
          · next hdots =>
              rw [hdots] at hopen ⊢
              exact .up hopen (ih h)
          · next hdots =>
              split at h
              · next hnone =>
                  split at h
                  · next hrest =>
                      obtain rfl := Except.ok.inj h
                      rw [List.isEmpty_iff.1 hrest]
                      exact .vacant hopen hdots hnone
                  · cases h
              · next hdirectory => exact .down hopen hdots hdirectory (ih h)
              · next f hfile =>
                  split at h
                  · next hrest =>
                      obtain rfl := Except.ok.inj h
                      rw [List.isEmpty_iff.1 hrest]
                      exact .file hopen hdots hfile
                  · cases h
              · next target htarget =>
                  split at h
                  · next hlast =>
                      obtain rfl := Except.ok.inj h
                      obtain ⟨hrest, hfollow⟩ := Bool.and_eq_true_iff.1 hlast
                      rw [List.isEmpty_iff.1 hrest]
                      exact .link hopen hdots htarget (by simpa using hfollow)
                  · next hlast =>
                      exact hlink _ _ _ _ _ hopen hdots htarget (by simpa using hlast) h

theorem reaches_of_walk (h : fs.walk followLast links here parts = .ok place) :
    Reaches fs followLast links here parts place := by
  induction links generalizing here parts place with
  | zero =>
      refine reaches_of_walkWith ?_ h
      intro here name target rest place _ _ _ _ hwalk
      cases hwalk
  | succ links ih =>
      refine reaches_of_walkWith ?_ h
      intro here name target rest place hopen hdots htarget hlast hwalk
      exact .follow hopen hdots htarget hlast (ih hwalk)

/-- How a walk goes on from a link. -/
def fromLink (fs : FileSystem) (followLast : Bool) :
    ℕ → Location → FilePath → List Text → Except SystemProblem Place
  | 0, _, _, _ => .error .tooManyLinks
  | links + 1, here, target, rest =>
    fs.walk followLast links (startOf target here) (target.parts ++ rest)

theorem walk_eq_walkWith (fs : FileSystem) (followLast : Bool) (links : ℕ) :
    fs.walk followLast links = fs.walkWith followLast (fs.fromLink followLast links) := by
  cases links with
  | zero => rfl
  | succ links => rfl

theorem Reaches.walk (h : Reaches fs followLast links here parts place) :
    fs.walk followLast links here parts = .ok place := by
  induction h with
  | here => rw [walk_eq_walkWith, walkWith]
  | up hopen _ ih =>
      rw [walk_eq_walkWith] at ih ⊢
      rw [walkWith, hopen]
      exact ih
  | down hopen hdots hentry _ ih =>
      rw [walk_eq_walkWith] at ih ⊢
      rw [walkWith, hopen, if_neg hdots, hentry]
      exact ih
  | file hopen hdots hentry =>
      rw [walk_eq_walkWith, walkWith, hopen, if_neg hdots, hentry]
      rfl
  | vacant hopen hdots hentry =>
      rw [walk_eq_walkWith, walkWith, hopen, if_neg hdots, hentry]
      rfl
  | link hopen hdots hentry hfollow =>
      rw [walk_eq_walkWith, walkWith, hopen, if_neg hdots, hentry, hfollow]
      rfl
  | follow hopen hdots hentry hlast _ ih =>
      rw [walk_eq_walkWith, walkWith, hopen, if_neg hdots, hentry]
      simp only [hlast]
      exact ih

theorem walk_eq_ok_iff :
    fs.walk followLast links here parts = .ok place ↔
      Reaches fs followLast links here parts place :=
  ⟨reaches_of_walk, Reaches.walk⟩

/-- The place is as the table has it. -/
inductive Place.Stands (fs : FileSystem) : Place → Prop
  | directory {location : Location} :
      fs.entryAt location = some .directory → Stands fs (.directory location)
  | file {location : Location} {f : RegularFile} :
      fs.entryAt location = some (.file f) → Stands fs (.file location f)
  | link {location : Location} {target : FilePath} :
      fs.entryAt location = some (.link target) → Stands fs (.link location target)
  | vacant {parent : Location} {name : Text} : fs.entryAt parent = some .directory → name ≠ ".." →
      fs.entryAt (name :: parent) = none → Stands fs (.vacant parent name)

theorem directory_startOf (p : FilePath) (h : fs.entryAt here = some .directory) :
    fs.entryAt (startOf p here) = some .directory := by
  rw [startOf]
  split
  · exact h
  · rfl

theorem Reaches.stands (h : Reaches fs followLast links here parts place)
    (hhere : fs.entryAt here = some .directory) : Place.Stands fs place := by
  induction h with
  | here => exact .directory hhere
  | up _ _ ih => exact ih (directory_tail hhere)
  | down _ _ hentry _ ih => exact ih hentry
  | file _ _ hentry => exact .file hentry
  | vacant _ hdots hentry => exact .vacant hhere hdots hentry
  | link _ _ hentry _ => exact .link hentry
  | follow _ _ _ _ _ ih => exact ih (directory_startOf _ hhere)

/-- What can be filled: a vacant place, and what is no directory. -/
theorem Place.Stands.admits (h : Place.Stands fs place)
    (hplace : ∀ location, place ≠ .directory location) : fs.Admits place.location := by
  cases h with
  | directory _ => exact absurd rfl (hplace _)
  | file hentry => exact admits_of_entryAt hentry FileEntry.noConfusion
  | link hentry => exact admits_of_entryAt hentry FileEntry.noConfusion
  | vacant hparent hdots hnone => exact admits_of_none hparent hdots hnone

/-- A walk that does not end at a link is the same when links at the end are followed. -/
theorem Reaches.followEnd (h : Reaches fs false links here parts place)
    (hplace : ∀ location target, place ≠ .link location target) :
    Reaches fs true links here parts place := by
  induction h with
  | here => exact .here
  | up hopen _ ih => exact .up hopen (ih hplace)
  | down hopen hdots hentry _ ih => exact .down hopen hdots hentry (ih hplace)
  | file hopen hdots hentry => exact .file hopen hdots hentry
  | vacant hopen hdots hentry => exact .vacant hopen hdots hentry
  | link _ _ _ _ => exact absurd rfl (hplace _ _)
  | follow hopen hdots hentry _ _ ih =>
      exact .follow hopen hdots hentry (by simp) (ih hplace)

/-- A walk that follows links at its end comes to its place by itself, or by way of a link. -/
theorem Reaches.ownEnd (h : Reaches fs true links here parts place) :
    Reaches fs false links here parts place ∨
      ∃ location target, Reaches fs false links here parts (.link location target) := by
  induction h with
  | here => exact .inl .here
  | up hopen _ ih => exact ih.imp (.up hopen) fun ⟨l, t, h⟩ => ⟨l, t, .up hopen h⟩
  | down hopen hdots hentry _ ih =>
      exact ih.imp (.down hopen hdots hentry) fun ⟨l, t, h⟩ => ⟨l, t, .down hopen hdots hentry h⟩
  | file hopen hdots hentry => exact .inl (.file hopen hdots hentry)
  | vacant hopen hdots hentry => exact .inl (.vacant hopen hdots hentry)
  | link _ _ _ hfollow => cases hfollow
  | @follow _ _ _ _ rest _ hopen hdots hentry _ _ ih =>
      cases rest with
      | nil => exact .inr ⟨_, _, .link hopen hdots hentry rfl⟩
      | cons next rest =>
          exact ih.imp (.follow hopen hdots hentry rfl) fun ⟨l, t, h⟩ =>
            ⟨l, t, .follow hopen hdots hentry rfl h⟩

/-- Directories and links stay as they are, and names can be looked up as before. -/
structure KeepsWays (fs fs' : FileSystem) : Prop where
  limits : fs'.limits = fs.limits
  entry : ∀ location e, fs.entryAt location = some e → (∀ f, e ≠ .file f) →
    fs'.entryAt location = some e

theorem KeepsWays.keepsDirectories (h : KeepsWays fs fs') : KeepsDirectories fs fs' where
  limits := h.limits
  directory location hdirectory := h.entry location _ hdirectory fun _ => FileEntry.noConfusion

/-- Every entry stays as it is, and names can be looked up as before. -/
structure KeepsEntries (fs fs' : FileSystem) : Prop where
  limits : fs'.limits = fs.limits
  entry : ∀ location e, fs.entryAt location = some e → fs'.entryAt location = some e

namespace KeepsEntries

theorem keepsWays (h : KeepsEntries fs fs') : KeepsWays fs fs' :=
  ⟨h.limits, fun location e he _ => h.entry location e he⟩

theorem keepsDirectories (h : KeepsEntries fs fs') : KeepsDirectories fs fs' :=
  h.keepsWays.keepsDirectories

theorem trans (h : KeepsEntries fs fs') (h' : KeepsEntries fs' fs'') : KeepsEntries fs fs'' where
  limits := h'.limits.trans h.limits
  entry location e he := h'.entry location e (h.entry location e he)

end KeepsEntries

/-- What a place is when files have changed and vacant places have been filled. -/
inductive Place.Becomes (fs : FileSystem) : Place → Place → Prop
  | directory {location : Location} : Becomes fs (.directory location) (.directory location)
  | link {location : Location} {target : FilePath} :
      Becomes fs (.link location target) (.link location target)
  | file {location : Location} {f g : RegularFile} : fs.entryAt location = some (.file g) →
      Becomes fs (.file location f) (.file location g)
  | filled {parent : Location} {name : Text} {f : RegularFile} :
      fs.entryAt (name :: parent) = some (.file f) →
      Becomes fs (.vacant parent name) (.file (name :: parent) f)
  | made {parent : Location} {name : Text} : fs.entryAt (name :: parent) = some .directory →
      Becomes fs (.vacant parent name) (.directory (name :: parent))

/-- A walk comes to what its place has become. -/
theorem Reaches.becomes {place' : Place} (hkeep : KeepsWays fs fs')
    (h : Reaches fs followLast links here parts place) (hplace : Place.Becomes fs' place place') :
    Reaches fs' followLast links here parts place' := by
  have hopens : ∀ {here name}, fs.barrier? here name = none → fs'.barrier? here name = none :=
    hkeep.keepsDirectories.barrier?
  have hlink : ∀ {location target}, fs.entryAt location = some (.link target) →
      fs'.entryAt location = some (.link target) := by
    intro location target htarget
    exact hkeep.entry _ _ htarget fun _ => FileEntry.noConfusion
  induction h with
  | here =>
      cases hplace
      exact .here
  | up hopen _ ih => exact .up (hopens hopen) (ih hplace)
  | down hopen hdots hentry _ ih =>
      exact .down (hopens hopen) hdots (hkeep.keepsDirectories.directory _ hentry) (ih hplace)
  | file hopen hdots _ =>
      cases hplace with
      | file hentry => exact .file (hopens hopen) hdots hentry
  | vacant hopen hdots _ =>
      cases hplace with
      | filled hentry => exact .file (hopens hopen) hdots hentry
      | made hentry => exact .down (hopens hopen) hdots hentry .here
  | link hopen hdots hentry hfollow =>
      cases hplace
      exact .link (hopens hopen) hdots (hlink hentry) hfollow
  | follow hopen hdots hentry hlast _ ih =>
      exact .follow (hopens hopen) hdots (hlink hentry) hlast (ih hplace)

theorem find_eq_ok_iff {p : FilePath} :
    fs.find followLast p = .ok place ↔
      unusableName? p.text = none ∧ ¬ maxPathSize < p.text.nameSize ∧
        Reaches fs followLast maxLinks (startOf p fs.workingDirectory) p.parts place := by
  rw [← walk_eq_ok_iff, find]
  cases husable : unusableName? p.text with
  | some e => simp
  | none =>
      simp only [true_and]
      split_ifs with hsize
      · simp [hsize]
      · cases fs.walk followLast maxLinks (startOf p fs.workingDirectory) p.parts with
        | ok found => simp [hsize]
        | error problem => simp

/-- What a path leads to is as the table has it. -/
theorem find_stands {p : FilePath} (h : fs.find followLast p = .ok place) : Place.Stands fs place :=
  (find_eq_ok_iff.1 h).2.2.stands (directory_startOf p fs.inside)

end FileSystem

end JniHeader
