import JniHeader.Search.Provider

/-!
# Class paths and module paths

Texts that list places between colons. Empty entries and entries of no known
kind are skipped; a class path may name all jars of a directory by a star, and
a module path may name a directory of modules.
-/
namespace JniHeader

/-- The results for all members of a list, joined in order. -/
def joinAll {α β : Type} (step : α → Except SystemError (List β)) :
    List α → Except SystemError (List β)
  | [] => .ok []
  | x :: xs => do
    let ys ← step x
    let rest ← joinAll step xs
    pure (ys ++ rest)

/-- The entries of a path text that are not empty. -/
def pathEntries (t : Text) : List Text := (Text.splitAt ':' t).filter fun e => !e.isEmpty

/-- A regular file with one of the suffixes, as an archive. -/
def archiveAt (fs : FileSystem) (suffixes : List Text) (p : FilePath) :
    Except SystemError SearchPath := do
  if (← fs.isFile p) && suffixes.contains p.suffix then pure [.archive (.ofPath p)]
  else pure []

namespace ClassPath

/-- The directory of an entry that stands for all jars in it. -/
def wildcardDirectory? (entry : Text) : Option FilePath :=
  if entry = "*" ∨ List.isSuffixOf (Text.ofString "/*") entry then
    some (.ofText entry.dropLast)
  else none

/-- The jars of a directory in ascending order. -/
def jarsIn (fs : FileSystem) (directory : FilePath) : Except SystemError SearchPath := do
  joinAll (archiveAt fs [".jar"]) (← fs.children directory)

/-- The providers of one entry. -/
def ofEntry (fs : FileSystem) (entry : Text) : Except SystemError SearchPath :=
  match wildcardDirectory? entry with
  | some directory => jarsIn fs directory
  | none => do
    let p := FilePath.ofText entry
    if ← fs.isDirectory p then pure [.directory p]
    else archiveAt fs [".jar", ".zip", ".jmod"] p

def parse (fs : FileSystem) (t : Text) : Except SystemError SearchPath :=
  joinAll (ofEntry fs) (pathEntries t)

end ClassPath

namespace ModulePath

def moduleSuffixes : List Text := [".jar", ".jmod"]

/-- A directory that holds a module's description is the module's class tree. -/
def isExploded (fs : FileSystem) (p : FilePath) : Except SystemError Bool := do
  if ← fs.isDirectory p then fs.isFile (p.append "module-info.class") else pure false

/-- One module: a class tree or an archive. -/
def ofModule (fs : FileSystem) (p : FilePath) : Except SystemError SearchPath := do
  if ← isExploded fs p then pure [.directory p] else archiveAt fs moduleSuffixes p

/-- The providers of one entry: those of the module, or of all modules in the directory in
ascending order. -/
def ofEntry (fs : FileSystem) (entry : Text) : Except SystemError SearchPath := do
  let p := FilePath.ofText entry
  if ← isExploded fs p then pure [.directory p]
  else if ← fs.isDirectory p then joinAll (ofModule fs) (← fs.children p)
  else archiveAt fs moduleSuffixes p

def parse (fs : FileSystem) (t : Text) : Except SystemError SearchPath :=
  joinAll (ofEntry fs) (pathEntries t)

end ModulePath

end JniHeader
