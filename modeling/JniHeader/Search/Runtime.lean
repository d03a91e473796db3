import JniHeader.Search.Provider

/-!
# Java runtimes

Where a runtime is installed and which of its archives hold its classes. Older
runtimes have one archive; later ones have a file for each module, of which the
module asked for comes first, then `java.base`, then the others by name.
-/
namespace JniHeader

/-- Where programs are looked for when no variable says so. -/
def defaultProgramPath : Text := "/bin:/usr/bin"

/-- The place of the first executable `java` in a list of directories, links resolved; an empty
entry stands for the working directory. -/
def findJava? (fs : FileSystem) (path : Text) : Option Location :=
  if path.isEmpty then none
  else
    (Text.splitAt ':' path).findSome? fun directory =>
      match fs.find true ((FilePath.ofText directory).append "java") with
      | .ok (.file location f) => if f.isExecutable then some location else none
      | _ => none

/-- The home of the runtime: the one that is set, or else the directory two levels above the
`java` program. -/
def locateJavaHome (fs : FileSystem) (javaHome path : Option Text) : Option FilePath :=
  match javaHome with
  | some (c :: home) => some (.ofText (c :: home))
  | _ =>
    (findJava? fs (path.getD defaultProgramPath)).map fun location =>
      ⟨.absolute, (location.drop 2).reverse⟩

def baseModule : Text := "java.base"

/-- The modules to look in first. -/
def preferredModules (module : Option Text) : List Text :=
  [module.getD [], baseModule].filter fun m => !m.isEmpty

/-- Preferred modules in their order, then all others by file name. -/
def moduleBefore (preferred : List Text) (a b : FilePath) : Bool :=
  let rank (p : FilePath) := preferred.idxOf p.stem
  rank a < rank b || (rank a == rank b && !decide (b.fileName < a.fileName))

def isModuleFile (p : FilePath) : Bool := List.isSuffixOf (Text.ofString ".jmod") p.fileName

/-- The archives of a runtime in the order in which they are searched. -/
def runtimeArchives (fs : FileSystem) (home : FilePath) (module : Option Text) :
    Except SystemError (List ArchivePath) := do
  let old := home.append "jre/lib/rt.jar"
  if ← fs.isFile old then return [⟨old, []⟩]
  let flat := home.append "lib/rt.jar"
  if ← fs.isFile flat then return [⟨flat, []⟩]
  let files ← fs.permittedChildren (home.append "jmods")
  let modules := (files.filter isModuleFile).mergeSort (moduleBefore (preferredModules module))
  return modules.map ArchivePath.ofPath

/-- The bytes of a class from the first archive of the runtime that has it. -/
def readRuntimeClass (host : Host) (home : Option FilePath) (name : QualifiedName) :
    Except Failure (Option (List UInt8)) :=
  let home := home.or (locateJavaHome host.files host.environment.javaHome host.environment.path)
  match home with
  | none => .ok none
  | some home =>
    match runtimeArchives host.files home name.module with
    | .error e => .error (.file (.system e))
    | .ok archives =>
      firstFound (fun a => readArchiveClass host.files a name.binaryName) archives

/-- The bytes of a class from one provider, none when it has no such class. -/
def Provider.resolve (host : Host) (name : QualifiedName) :
    Provider → Except Failure (Option (List UInt8))
  | .directory root => readDirectoryClass host.files root name.binaryName
  | .archive a => readArchiveClass host.files a name.binaryName
  | .runtime home => readRuntimeClass host home name
  | .unknown label => .error (.unknownProvider label)

/-- The bytes of a class from the first provider that has it. -/
def SearchPath.resolve (host : Host) (path : SearchPath) (name : QualifiedName) :
    Except Failure (Option (List UInt8)) :=
  firstFound (Provider.resolve host name) path

end JniHeader
