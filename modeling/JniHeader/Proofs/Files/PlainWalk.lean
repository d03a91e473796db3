import JniHeader.Proofs.Files.Entries

/-!
# Walks that pass no link

Where there are no symbolic links, every walk is one that only passes directories,
whether or not it would follow a link at its end. Such a walk can be divided at each
directory that it passes; below a directory it depends on the entries there and on what
can be looked up there; and a walk to a directory stays the same as long as directories
are kept.
-/
namespace JniHeader

/-- Where a place is. -/
def Place.location : Place → Location
  | .directory location => location
  | .file location _ => location
  | .link location _ => location
  | .vacant parent name => name :: parent

/-- The problem arises whatever stands at a path: a name is too long, or the system refuses. -/
def SystemProblem.isBarrier : SystemProblem → Bool
  | .nameTooLong | .refused _ => true
  | _ => false

namespace FileSystem

variable {fs fs' fs'' : FileSystem} {here next d : Location} {name : Text} {parts rest : List Text}
  {place : Place}

theorem barrier?_congr (h : fs'.limits.lookup here = fs.limits.lookup here) (name : Text) :
    fs'.barrier? here name = fs.barrier? here name := by
  rw [barrier?, barrier?, h]

theorem isBarrier_of_barrier? {problem : SystemProblem} (h : fs.barrier? here name = some problem) :
    problem.isBarrier = true := by
  rw [barrier?] at h
  split at h
  · obtain rfl := Option.some.inj h
    rfl
  · split_ifs at h
    obtain rfl := Option.some.inj h
    rfl

theorem barrier?_eq_none_iff :
    fs.barrier? here name = none ↔
      fs.limits.lookup here = none ∧ ¬ maxNameSize < name.nameSize := by
  rw [barrier?]
  cases fs.limits.lookup here with
  | some refusal => simp
  | none => simp

/-- Follow components until they come to a link. -/
def plainWalk (fs : FileSystem) : Location → List Text → Except SystemProblem Place :=
  fs.walkWith true fun _ _ _ => .error .tooManyLinks

theorem walkWith_of_linkFree (h : fs.LinkFree) (followLast : Bool)
    (onLink : Location → FilePath → List Text → Except SystemProblem Place) (here : Location)
    (parts : List Text) : fs.walkWith followLast onLink here parts = fs.plainWalk here parts := by
  induction parts generalizing here with
  | nil => rfl
  | cons name rest ih =>
      rw [plainWalk, walkWith, walkWith]
      split
      · rfl
      · split
        · exact ih here.tail
        · split
          · rfl
          · exact ih (name :: here)
          · rfl
          · next target hlink => exact absurd hlink (h.entryAt_ne_link _ target)

theorem walk_of_linkFree (h : fs.LinkFree) (followLast : Bool) (links : Nat) (here : Location)
    (parts : List Text) : fs.walk followLast links here parts = fs.plainWalk here parts := by
  cases links with
  | zero => exact walkWith_of_linkFree h followLast _ here parts
  | succ links => exact walkWith_of_linkFree h followLast _ here parts

/-- What a path leads to depends on the walk along its components. -/
theorem find_congr {followLast followLast' : Bool} {p : FilePath}
    (h : fs'.walk followLast' maxLinks (startOf p fs'.workingDirectory) p.parts =
      fs.walk followLast maxLinks (startOf p fs.workingDirectory) p.parts) :
    fs'.find followLast' p = fs.find followLast p := by
  unfold find
  rw [h]

/-- Where two file systems are without links, what a path leads to is as related as the walks along
its components, unless it is the same. -/
theorem find_related {R : Except SystemProblem Place → Except SystemProblem Place → Prop}
    (hlinks : fs.LinkFree) (hlinks' : fs'.LinkFree)
    (hhere : fs'.workingDirectory = fs.workingDirectory) {p : FilePath}
    (h : R (fs.plainWalk (startOf p fs.workingDirectory) p.parts)
      (fs'.plainWalk (startOf p fs.workingDirectory) p.parts)) :
    fs'.find true p = fs.find true p ∨
      ∃ r r', R r r' ∧ fs.find true p = r.mapError (fun problem => .system ⟨problem, some p⟩) ∧
        fs'.find true p = r'.mapError fun problem => .system ⟨problem, some p⟩ := by
  unfold find
  rw [walk_of_linkFree hlinks, walk_of_linkFree hlinks', hhere]
  split
  · exact .inl rfl
  · split
    · exact .inl rfl
    · refine .inr ⟨_, _, h, ?_, ?_⟩
      · cases fs.plainWalk (startOf p fs.workingDirectory) p.parts <;> rfl
      · cases fs'.plainWalk (startOf p fs.workingDirectory) p.parts <;> rfl

/-- A component leads from one directory to another. -/
inductive Enters (fs : FileSystem) (here : Location) : Text → Location → Prop
  | up : fs.barrier? here ".." = none → Enters fs here ".." here.tail
  | down {name : Text} : fs.barrier? here name = none → name ≠ ".." →
      fs.entryAt (name :: here) = some .directory → Enters fs here name (name :: here)

/-- What the last component of a walk leads to, if it is no directory. -/
inductive Ends (fs : FileSystem) (here : Location) (name : Text) : Place → Prop
  | vacant : fs.barrier? here name = none → name ≠ ".." →
      fs.entryAt (name :: here) = none → Ends fs here name (.vacant here name)
  | file {f : RegularFile} : fs.barrier? here name = none → name ≠ ".." →
      fs.entryAt (name :: here) = some (.file f) → Ends fs here name (.file (name :: here) f)

theorem Ends.location_eq (h : Ends fs here name place) : place.location = name :: here := by
  cases h with
  | vacant _ _ _ => rfl
  | file _ _ _ => rfl

theorem Ends.not_directory (h : Ends fs here name place) :
    fs.entryAt (name :: here) ≠ some .directory := by
  intro hdirectory
  cases h with
  | vacant _ _ hvacant =>
      rw [hdirectory] at hvacant
      cases hvacant
  | file _ _ hfile =>
      rw [hdirectory] at hfile
      cases hfile

theorem Ends.name_usable (h : Ends fs here name place) :
    fs.barrier? here name = none ∧ name ≠ ".." := by
  cases h with
  | vacant hopen hdots _ => exact ⟨hopen, hdots⟩
  | file hopen hdots _ => exact ⟨hopen, hdots⟩

theorem Enters.plainWalk_cons (h : Enters fs here name next) (rest : List Text) :
    fs.plainWalk here (name :: rest) = fs.plainWalk next rest := by
  rw [plainWalk, walkWith]
  cases h with
  | up hopen =>
      rw [hopen]
      rfl
  | down hopen hdots hdirectory =>
      rw [hopen, if_neg hdots, hdirectory]

theorem plainWalk_cons_ok (h : fs.plainWalk here (name :: rest) = .ok place) :
    (∃ next, Enters fs here name next ∧ fs.plainWalk next rest = .ok place) ∨
      (rest = [] ∧ Ends fs here name place) := by
  rw [plainWalk, walkWith] at h
  split at h
  · cases h
  · next hopen =>
      split at h
      · next hdots =>
          rw [hdots] at hopen ⊢
          exact .inl ⟨_, .up hopen, h⟩
      · next hdots =>
          split at h
          · next hnone =>
              split at h
              · next hrest =>
                  obtain rfl := Except.ok.inj h
                  exact .inr ⟨List.isEmpty_iff.1 hrest, .vacant hopen hdots hnone⟩
              · cases h
          · next hdirectory => exact .inl ⟨_, .down hopen hdots hdirectory, h⟩
          · next f hfile =>
              split at h
              · next hrest =>
                  obtain rfl := Except.ok.inj h
                  exact .inr ⟨List.isEmpty_iff.1 hrest, .file hopen hdots hfile⟩
              · cases h
          · simp at h

theorem plainWalk_file (hopen : fs.barrier? here name = none) (hdots : name ≠ "..")
    {f : RegularFile} (hfile : fs.entryAt (name :: here) = some (.file f)) :
    fs.plainWalk here [name] = .ok (.file (name :: here) f) := by
  rw [plainWalk, walkWith, hopen, if_neg hdots, hfile]
  rfl

/-- A walk leads to a directory, or its last component ends it. -/
theorem directory_or_ends_of_plainWalk (h : fs.plainWalk here parts = .ok place) :
    (∃ d, place = .directory d) ∨ ∃ d name, fs.Ends d name place := by
  induction parts generalizing here with
  | nil => exact .inl ⟨here, (Except.ok.inj h).symm⟩
  | cons name parts ih =>
      rcases plainWalk_cons_ok h with ⟨next, -, hnext⟩ | ⟨-, hend⟩
      · exact ih hnext
      · exact .inr ⟨here, name, hend⟩

theorem plainWalk_cons_directory (h : fs.plainWalk here (name :: rest) = .ok (.directory d)) :
    ∃ next, Enters fs here name next ∧ fs.plainWalk next rest = .ok (.directory d) := by
  rcases plainWalk_cons_ok h with hnext | ⟨-, hend⟩
  · exact hnext
  · cases hend

theorem plainWalk_append (h : fs.plainWalk here parts = .ok (.directory d)) (rest : List Text) :
    fs.plainWalk here (parts ++ rest) = fs.plainWalk d rest := by
  induction parts generalizing here with
  | nil =>
      obtain rfl : here = d := Place.directory.inj (Except.ok.inj h)
      rfl
  | cons name parts ih =>
      obtain ⟨next, henters, hnext⟩ := plainWalk_cons_directory h
      rw [List.cons_append, henters.plainWalk_cons]
      exact ih hnext

/-- What comes before the last components of a walk leads to a directory. -/
theorem exists_directory_of_plainWalk_append (hrest : rest ≠ [])
    (h : fs.plainWalk here (parts ++ rest) = .ok place) :
    ∃ d, fs.plainWalk here parts = .ok (.directory d) ∧ fs.plainWalk d rest = .ok place := by
  induction parts generalizing here with
  | nil => exact ⟨here, rfl, h⟩
  | cons name parts ih =>
      rcases plainWalk_cons_ok h with ⟨next, henters, hnext⟩ | ⟨hnil, -⟩
      · obtain ⟨d, hd, hplace⟩ := ih hnext
        exact ⟨d, (henters.plainWalk_cons parts).trans hd, hplace⟩
      · exact absurd (List.append_eq_nil_iff.1 hnil).2 hrest

/-- Two file systems are the same at a location and below it. -/
structure SameBelow (fs fs' : FileSystem) (here : Location) : Prop where
  entry : ∀ location, here <:+ location → fs'.entryAt location = fs.entryAt location
  lookup : ∀ location, here <:+ location → fs'.limits.lookup location = fs.limits.lookup location

theorem SameBelow.below (h : SameBelow fs fs' here) (name : Text) :
    SameBelow fs fs' (name :: here) where
  entry location hlocation := h.entry location ((List.suffix_cons name here).trans hlocation)
  lookup location hlocation := h.lookup location ((List.suffix_cons name here).trans hlocation)

/-- A walk that never leads upwards depends on what is below its start. -/
theorem SameBelow.plainWalk (h : SameBelow fs fs' here) (hdots : (".." : Text) ∉ parts) :
    fs'.plainWalk here parts = fs.plainWalk here parts := by
  induction parts generalizing here with
  | nil => rfl
  | cons name rest ih =>
      obtain ⟨hname, hrest⟩ := not_or.1 (mt List.mem_cons.2 hdots)
      rw [FileSystem.plainWalk, FileSystem.plainWalk, walkWith, walkWith, if_neg (Ne.symm hname),
        if_neg (Ne.symm hname), h.entry (name :: here) (List.suffix_cons name here),
        barrier?_congr (h.lookup here (List.suffix_refl here))]
      split
      · rfl
      · split
        · rfl
        · exact ih (h.below name) hrest
        · rfl
        · rfl

/-- Every directory stays one, and names can be looked up in it as before. -/
structure KeepsDirectories (fs fs' : FileSystem) : Prop where
  limits : fs'.limits = fs.limits
  directory : ∀ location, fs.entryAt location = some .directory →
    fs'.entryAt location = some .directory

theorem KeepsDirectories.trans (h : KeepsDirectories fs fs') (h' : KeepsDirectories fs' fs'') :
    KeepsDirectories fs fs'' where
  limits := h'.limits.trans h.limits
  directory location hdirectory := h'.directory location (h.directory location hdirectory)

theorem KeepsDirectories.barrier? (hkeep : KeepsDirectories fs fs')
    (hopen : fs.barrier? here name = none) : fs'.barrier? here name = none := by
  have hlookup : fs'.limits.lookup here = fs.limits.lookup here := by rw [hkeep.limits]
  rw [barrier?_congr hlookup, hopen]

theorem Enters.keep (hkeep : KeepsDirectories fs fs') (h : Enters fs here name next) :
    Enters fs' here name next := by
  cases h with
  | up hopen => exact .up (hkeep.barrier? hopen)
  | down hopen hdots hdirectory =>
      exact .down (hkeep.barrier? hopen) hdots (hkeep.directory _ hdirectory)

theorem KeepsDirectories.plainWalk (hkeep : KeepsDirectories fs fs')
    (h : fs.plainWalk here parts = .ok (.directory d)) :
    fs'.plainWalk here parts = .ok (.directory d) := by
  induction parts generalizing here with
  | nil => exact h
  | cons name parts ih =>
      obtain ⟨next, henters, hnext⟩ := plainWalk_cons_directory h
      rw [(henters.keep hkeep).plainWalk_cons]
      exact ih hnext

end FileSystem

end JniHeader
