import JniHeader.Files.Table

/-!
# File systems

A file system is a value: a table of what stands in it, which is a tree, a working
directory in this tree, and what the system refuses at its places. Every operation is a
total function on it that either succeeds or names the problem the system reports.
-/
namespace JniHeader

/-- What the system refuses, place by place, whatever stands there. By default it refuses
nothing. -/
structure Limits where
  /-- Looking up names in a directory. -/
  lookup : Location → Option Refusal := fun _ => none
  /-- Listing a directory. -/
  listing : Location → Option Refusal := fun _ => none
  /-- Making an entry. -/
  making : Location → Option Refusal := fun _ => none
  /-- Taking an entry away. -/
  removing : Location → Option Refusal := fun _ => none
  /-- Writing a content of some size: how many bytes are written before the refusal. -/
  cut : Location → (size : Nat) → Option (Nat × Refusal) := fun _ _ => none
  /-- How many missing levels above a directory can be made in one go. -/
  levels : Option Nat := none

structure FileSystem where
  entries : FileTable
  workingDirectory : Location
  limits : Limits := {}
  isTree : entries.IsTree
  inside : entries.entryAt workingDirectory = some .directory

/-- What a path leads to. A vacant place has a directory around it and can be filled. -/
inductive Place where
  | directory (location : Location)
  | file (location : Location) (f : RegularFile)
  | link (location : Location) (target : FilePath)
  | vacant (parent : Location) (name : Text)

namespace FileSystem

/-- The file system that holds the root and nothing else. -/
def empty : FileSystem := ⟨[], [], {}, by decide, rfl⟩

def entryAt (fs : FileSystem) (location : Location) : Option FileEntry :=
  fs.entries.entryAt location

/-- Work in a directory, if it is one. -/
def enter (fs : FileSystem) (location : Location) : FileSystem :=
  if h : fs.entries.entryAt location = some .directory then
    { fs with workingDirectory := location, inside := h }
  else fs

/-- Take away what stands at a location, unless it is a directory. -/
def erase (fs : FileSystem) (location : Location) : FileSystem :=
  if h : fs.entryAt location = some .directory then fs
  else
    { fs with
      entries := fs.entries.without location
      isTree := fs.isTree.without h
      inside := by
        rw [FileTable.entryAt_without, fs.inside]
        rintro rfl
        exact h fs.inside }

/-- An entry can stand at a location: in a directory, under a name, and not over a directory. -/
def Admits (fs : FileSystem) (location : Location) : Prop :=
  fs.entryAt location.tail = some .directory ∧ fs.entryAt location ≠ some .directory ∧
    location.head? ≠ some ".."

instance (fs : FileSystem) (location : Location) : Decidable (fs.Admits location) :=
  inferInstanceAs (Decidable (_ ∧ _ ∧ _))

/-- Let an entry stand at a location, in place of what was there, if one can stand there. -/
def put (fs : FileSystem) (location : Location) (e : FileEntry) : FileSystem :=
  if h : fs.Admits location then
    { fs with
      entries := (location, e) :: fs.entries.without location
      isTree := fs.isTree.insert e h.1 h.2.1 h.2.2
      inside := by
        rw [FileTable.entryAt_insert_of_ne, fs.inside]
        rintro rfl
        exact h.2.1 fs.inside }
  else fs

/-- The names in a directory, ascending. -/
def childNames (fs : FileSystem) (location : Location) : List Text :=
  Text.sort <| fs.entries.filterMap fun
    | (name :: parent, _) => if parent = location then some name else none
    | ([], _) => none

/-- The longest name of a file, in bytes. -/
def maxNameSize : Nat := 255

/-- The longest path, in bytes. -/
def maxPathSize : Nat := 4095

/-- How many links one path may lead through. -/
def maxLinks : Nat := 40

/-- Why a name cannot be looked up in a directory, whatever is there. -/
def barrier? (fs : FileSystem) (here : Location) (name : Text) : Option SystemProblem :=
  match fs.limits.lookup here with
  | some r => some (.refused r)
  | none => if maxNameSize < name.nameSize then some .nameTooLong else none

/-- Follow the components of a path from a directory. `onLink` goes on from a link, given the
directory it is in, its target and the components after it; the last component is followed through
a link only if `followLast`. -/
def walkWith (fs : FileSystem) (followLast : Bool)
    (onLink : Location → FilePath → List Text → Except SystemProblem Place) :
    Location → List Text → Except SystemProblem Place
  | here, [] => .ok (.directory here)
  | here, name :: rest =>
    match fs.barrier? here name with
    | some problem => .error problem
    | none =>
      if name = ".." then fs.walkWith followLast onLink here.tail rest
      else
        match fs.entryAt (name :: here) with
        | none => if rest.isEmpty then .ok (.vacant here name) else .error .notFound
        | some .directory => fs.walkWith followLast onLink (name :: here) rest
        | some (.file f) =>
          if rest.isEmpty then .ok (.file (name :: here) f) else .error .notDirectory
        | some (.link target) =>
          if rest.isEmpty && !followLast then .ok (.link (name :: here) target)
          else onLink here target rest

/-- Where a path starts: at the root, or at the directory it is seen from. -/
def startOf (p : FilePath) (here : Location) : Location :=
  match p.root with
  | .relative => here
  | _ => []

/-- Follow components through at most `links` links. -/
def walk (fs : FileSystem) (followLast : Bool) :
    (links : Nat) → Location → List Text → Except SystemProblem Place
  | 0 => fs.walkWith followLast fun _ _ _ => .error .tooManyLinks
  | links + 1 => fs.walkWith followLast fun here target rest =>
      fs.walk followLast links (startOf target here) (target.parts ++ rest)

/-- The place that a path leads to. -/
def find (fs : FileSystem) (followLast : Bool) (p : FilePath) : Except FileError Place :=
  match unusableName? p.text with
  | some e => .error (.name e)
  | none =>
    if maxPathSize < p.text.nameSize then .error (.system ⟨.nameTooLong, some p⟩)
    else
      match fs.walk followLast maxLinks (startOf p fs.workingDirectory) p.parts with
      | .ok place => .ok place
      | .error problem => .error (.system ⟨problem, some p⟩)

/-- Ask for the place that a path leads to, links followed. Problems that mean absence, and texts
that name no file, are answers and not errors. -/
def look (fs : FileSystem) (p : FilePath) : Except SystemError (Option Place) :=
  match fs.find true p with
  | .ok (.vacant _ _) => .ok none
  | .ok place => .ok (some place)
  | .error (.name _) => .ok none
  | .error (.system e) => if e.problem.isAbsence then .ok none else .error e

def isDirectory (fs : FileSystem) (p : FilePath) : Except SystemError Bool :=
  (fs.look p).map fun
    | some (.directory _) => true
    | _ => false

/-- The regular file at a path, if there is one. -/
def regularFile? (fs : FileSystem) (p : FilePath) : Except SystemError (Option RegularFile) :=
  (fs.look p).map fun
    | some (.file _ f) => some f
    | _ => none

def isFile (fs : FileSystem) (p : FilePath) : Except SystemError Bool :=
  (fs.regularFile? p).map Option.isSome

def isPresent (fs : FileSystem) (p : FilePath) : Except SystemError Bool :=
  (fs.look p).map Option.isSome

/-- A path below another one, of one more component. -/
def inDirectory (directory : FilePath) (name : Text) : FilePath :=
  ⟨directory.root, directory.parts ++ [name]⟩

/-- The paths of a directory's children in ascending order of their names. -/
def children (fs : FileSystem) (p : FilePath) : Except SystemError (List FilePath) :=
  match fs.look p with
  | .error e => .error e
  | .ok (some (.directory location)) =>
    match fs.limits.listing location with
    | some r => .error ⟨.refused r, some p⟩
    | none => .ok ((fs.childNames location).map (inDirectory p))
  | .ok _ => .ok []

/-- The children of a directory, none if it may not be listed. -/
def permittedChildren (fs : FileSystem) (p : FilePath) : Except SystemError (List FilePath) :=
  match fs.isDirectory p, fs.children p with
  | .error e, _ => .error e
  | .ok _, .error e => if e.problem.isPermission then .ok [] else .error e
  | .ok _, .ok files => .ok files

/-- Make one directory, in a directory that is there. -/
def makeDirectory (fs : FileSystem) (p : FilePath) : Except FileError FileSystem :=
  match fs.find false p with
  | .ok (.vacant parent name) =>
    match fs.limits.making (name :: parent) with
    | some r => .error (.system ⟨.refused r, some p⟩)
    | none => .ok (fs.put (name :: parent) .directory)
  | .ok _ => .error (.system ⟨.exists, some p⟩)
  | .error e => .error e

/-- Make one directory unless it is there already. -/
def ensureDirectory (fs : FileSystem) (p : FilePath) : FileSystem × Except DirectoryError Unit :=
  match fs.makeDirectory p with
  | .ok fs' => (fs', .ok ())
  | .error (.system e) =>
    if e.problem = .notFound then (fs, .error (.file (.system e)))
    else
      match fs.isDirectory p with
      | .ok true => (fs, .ok ())
      | .ok false => (fs, .error (.file (.system e)))
      | .error e => (fs, .error (.file (.system e)))
  | .error e => (fs, .error (.file e))

/-- Make a directory and those missing on the way to it, at most `levels` of them. Directories made
before a problem stay. -/
def ensurePath (fs : FileSystem) (levels : Nat) (p : FilePath) :
    FileSystem × Except DirectoryError Unit :=
  match fs.ensureDirectory p with
  | (fs, .error (.file (.system e))) =>
    if e.problem = .notFound ∧ p.parent ≠ p then
      match levels with
      | 0 => (fs, .error .tooDeep)
      | levels + 1 =>
        match fs.ensurePath levels p.parent with
        | (fs, .ok ()) => fs.ensureDirectory p
        | failed => failed
    else (fs, .error (.file (.system e)))
  | done => done

/-- Make a directory and those missing on the way to it. -/
def makeDirectories (fs : FileSystem) (p : FilePath) : FileSystem × Except DirectoryError Unit :=
  fs.ensurePath (fs.limits.levels.getD p.parts.length) p

/-- Let a file stand at a location, with its content as far as the system takes it. -/
def store (fs : FileSystem) (location : Location) (f : RegularFile) :
    FileSystem × Except FileError Unit :=
  match fs.limits.cut location f.content.size with
  | none => (fs.put location (.file f), .ok ())
  | some (size, r) =>
    (fs.put location (.file { f with content := f.content.extract 0 size }),
      .error (.system ⟨.refused r, none⟩))

/-- Replace the content of a file, or make a new file. A file that could be opened may be left with
the first part of the content. -/
def writeFile (fs : FileSystem) (p : FilePath) (content : ByteArray) :
    FileSystem × Except FileError Unit :=
  match fs.find true p with
  | .ok (.vacant parent name) =>
    match fs.limits.making (name :: parent) with
    | some r => (fs, .error (.system ⟨.refused r, some p⟩))
    | none => fs.store (name :: parent) { content }
  | .ok (.file location f) =>
    if !f.isWritable then (fs, .error (.system ⟨.refused .accessDenied, some p⟩))
    else if f.isDamaged then (fs, .error (.system ⟨.refused .inputOutput, none⟩))
    else fs.store location { f with content }
  | .ok (.directory _) => (fs, .error (.system ⟨.isDirectory, some p⟩))
  | .ok (.link _ _) => (fs, .error (.system ⟨.tooManyLinks, some p⟩))
  | .error e => (fs, .error e)

/-- Take away a file or a link. -/
def removeFile (fs : FileSystem) (p : FilePath) : Except FileError FileSystem :=
  match fs.find false p with
  | .ok (.file location _) | .ok (.link location _) =>
    match fs.limits.removing location with
    | some r => .error (.system ⟨.refused r, some p⟩)
    | none => .ok (fs.erase location)
  | .ok (.directory _) => .error (.system ⟨.isDirectory, some p⟩)
  | .ok (.vacant _ _) => .error (.system ⟨.notFound, some p⟩)
  | .error e => .error e

end FileSystem

end JniHeader
