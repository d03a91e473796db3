import JniHeader.Search.Failure

/-!
# Class providers

Places where the bytes of a class are looked for: directories of class files,
archives, and the runtime's own archives. A search path is a list of providers,
of which the first that has a class counts.
-/
namespace JniHeader

/-- An archive, and the folder of it under which classes stand. -/
structure ArchivePath where
  path : FilePath
  folder : Text
deriving DecidableEq, Repr

/-- A runtime without a home is located when a class is looked up. A provider of unknown kind has a
label; to look in it is an error. -/
inductive Provider where
  | directory (root : FilePath)
  | archive (a : ArchivePath)
  | runtime (home : Option FilePath)
  | unknown (label : Text)
deriving DecidableEq, Repr

abbrev SearchPath := List Provider

/-- The variables that a lookup depends on, as far as they are set. -/
structure Environment where
  javaHome : Option Text
  path : Option Text
  classPath : Option Text

/-- The machine that a program runs on. Its output takes every line but those that it refuses; its
diagnostics take every line. -/
structure Host where
  files : FileSystem
  environment : Environment
  refusal? : Text → Option PrintError := fun _ => none

namespace ArchivePath

/-- Module files keep their classes in a folder of their own. -/
def ofPath (p : FilePath) : ArchivePath := ⟨p, if p.suffix = ".jmod" then "classes/" else []⟩

end ArchivePath

def classSuffix : Text := ".class"

/-- The bytes of a class, its name in binary form, from a tree of class files. -/
def readDirectoryClass (fs : FileSystem) (root : FilePath) (binary : Text) :
    Except Failure (Option (List UInt8)) :=
  let path := root.append (binary ++ classSuffix)
  match fs.regularFile? path with
  | .error e => .error (.file (.system e))
  | .ok none => .ok none
  | .ok (some f) =>
    match f.read path with
    | .error e => .error (.classFile (.unreadableFile path e))
    | .ok content => .ok (some content.data.toList)

/-- The bytes of an archive's entry, once the archive has been opened. -/
def readArchiveFile (f : RegularFile) (entry : Text) :
    Except Archive.Error (Option (List UInt8)) :=
  if f.isDamaged then .error .notArchive else Archive.read f.content entry

/-- The bytes of a class, its name in binary form, from an archive. -/
def readArchiveClass (fs : FileSystem) (a : ArchivePath) (binary : Text) :
    Except Failure (Option (List UInt8)) :=
  let entry := a.folder ++ binary ++ classSuffix
  match fs.regularFile? a.path with
  | .error e => .error (.file (.system e))
  | .ok none => .ok none
  | .ok (some f) =>
    if !f.isReadable then
      .error (.classFile (.unopenedArchive entry a.path ⟨.refused .accessDenied, some a.path⟩))
    else
      match readArchiveFile f entry with
      | .ok found => .ok found
      | .error e =>
        .error (if e.isExpected then .classFile (.unreadableEntry entry a.path e) else .archive e)

/-- The first answer that is not an absence. -/
def firstFound {α β : Type} (look : α → Except Failure (Option β)) :
    List α → Except Failure (Option β)
  | [] => .ok none
  | x :: xs =>
    match look x with
    | .ok none => firstFound look xs
    | found => found

end JniHeader
