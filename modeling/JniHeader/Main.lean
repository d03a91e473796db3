import JniHeader.CommandLine.Program

/-!
# Running on the machine

The files that a run can look at are read into a file system value, the run is
made on this value, and what it has changed is written back. Rights are not read:
every file counts as executable, and the system refuses nothing but the reading of
a file that cannot be read. Output is in strict UTF-8.
-/
namespace JniHeader.Machine

/-- A text as the machine is given it. -/
def given (t : Text) : String := String.ofList (t.map fun c => Char.ofNat c.val)

/-- The path of a location. -/
def pathOf (location : Location) : String := given (FilePath.text ⟨.absolute, location.reverse⟩)

/-- Files whose content a run may ask for. -/
def isSource (name : Text) : Bool :=
  let suffixes : List Text := [".class", ".jar", ".zip", ".jmod"]
  suffixes.contains (FilePath.splitSuffix name).2.toAsciiLower

def readFile (e : IO.FS.DirEntry) : IO RegularFile := do
  let f : RegularFile := { content := .empty, isExecutable := true }
  if isSource (Text.ofString e.fileName) then
    try return { f with content := ← IO.FS.readBinFile e.path }
    catch
    | .permissionDenied .. => return { f with isReadable := false }
    | _ => return { f with isDamaged := true }
  else return f

/-- What stands under a name in a directory. The target of a link is given with all links resolved;
a link that leads nowhere leads to itself. -/
def readEntry (parent : Location) (name : Text) : IO (Option FileEntry) := do
  let e : IO.FS.DirEntry := ⟨pathOf parent, given name⟩
  try
    match (← e.path.symlinkMetadata).type with
    | .dir => return some .directory
    | .symlink =>
      let target ← try IO.FS.realPath e.path catch _ => pure e.path
      return some (.link (.ofText (Text.ofString target.toString)))
    | _ => return some (.file (← readFile e))
  catch _ => return none

/-- The files read so far, and the directories read with all below them. -/
structure Snapshot where
  files : FileSystem
  complete : List Location

mutual

/-- Read what the components of a path lead through, and all below the directory they lead to. -/
partial def readParts (s : Snapshot) (here : Location) : List Text → IO Snapshot
  | [] => readTree s here
  | name :: rest => do
    if name = ".." then readParts s here.tail rest
    else
      match ← readEntry here name with
      | none => return s
      | some e =>
        let s := { s with files := s.files.put (name :: here) e }
        match e with
        | .directory => readParts s (name :: here) rest
        | .file _ => return s
        | .link target =>
          if target.parts.reverse = name :: here then return s
          else readParts s [] (target.parts ++ rest)

/-- Read a directory and all below it. -/
partial def readTree (s : Snapshot) (here : Location) : IO Snapshot := do
  if s.complete.contains here then return s
  let directory : IO.FS.DirEntry := ⟨pathOf here, "."⟩
  let children ← try directory.path.readDir catch _ => pure #[]
  children.foldlM (fun s child => readParts s here [Text.ofString child.fileName])
    { s with complete := here :: s.complete }

end

def readPath (s : Snapshot) (p : FilePath) : IO Snapshot :=
  readParts s (FileSystem.startOf p s.files.workingDirectory) p.parts

/-- The paths that the arguments name. -/
def namedPaths (environment : Environment) (argv : List Text) : List FilePath :=
  match CommandLine.parse argv with
  | .error _ => []
  | .ok a =>
    let classes := pathEntries (Config.classPathOf environment a.classPath)
    let modules := pathEntries (a.modulePath.getD [])
    FilePath.ofText a.outputDir ::
      classes.map (fun t => (ClassPath.wildcardDirectory? t).getD (.ofText t)) ++
      modules.map FilePath.ofText

/-- The paths at which the `java` program can stand. -/
def programPaths (environment : Environment) : List FilePath :=
  (Text.splitAt ':' (environment.path.getD defaultProgramPath)).map fun directory =>
    (FilePath.ofText directory).append "java"

/-- The paths of a runtime's archives. -/
def runtimePaths (home : FilePath) : List FilePath :=
  ["jre/lib/rt.jar", "lib/rt.jar", "jmods"].map fun t => home.append (Text.ofString t)

/-- The directories on the way to a location. -/
def directoriesTo : Location → FileSystem
  | [] => .empty
  | name :: parent => (directoriesTo parent).put (name :: parent) .directory

/-- The files that a run with some arguments can look at. -/
def snapshot (environment : Environment) (argv : List Text) : IO FileSystem := do
  let here := (FilePath.ofText (Text.ofString (← IO.currentDir).toString)).parts.reverse
  let start : Snapshot := ⟨(directoriesTo here).enter here, []⟩
  let named ← (namedPaths environment argv ++ programPaths environment).foldlM readPath start
  match locateJavaHome named.files environment.javaHome environment.path with
  | none => return named.files
  | some home => return (← (runtimePaths home).foldlM readPath named).files

/-- Make the machine's files those of a run. Directories come before what is in them. -/
def writeBack (before after : FileSystem) : IO Unit := do
  for (location, _) in before.entries do
    if (after.entryAt location).isNone then IO.FS.removeFile (pathOf location)
  for (location, entry) in after.entries.reverse do
    if before.entryAt location ≠ some entry then
      match entry with
      | .directory => IO.FS.createDirAll (pathOf location)
      | .file f => IO.FS.writeBinFile (pathOf location) f.content
      | .link _ => pure ()

/-- A text as the diagnostics show it: surrogates are written as escapes. -/
def escaped (t : Text) : Text :=
  t.flatMap fun c => if c.isSurrogate then "\\u" ++ Text.lowerHex 4 c.val else [c]

/-- The value of an environment variable, if it is set. -/
def valueOf? (name : String) : IO (Option Text) := do
  return (← IO.getEnv name).map Text.ofString

/-- Run the program and give its exit code. -/
def run (argv : List Text) : IO UInt32 := do
  let environment : Environment :=
    ⟨← valueOf? "JAVA_HOME", ← valueOf? "PATH", ← valueOf? "CLASSPATH"⟩
  let files ← snapshot environment argv
  let execution := Program.run ⟨files, environment, strictUtf8?⟩ argv
  writeBack files execution.files
  IO.print (given execution.output)
  IO.eprint (given (escaped execution.diagnostics))
  match execution.ending with
  | .done => return 0
  | .exit code => return code.toUInt32
  | .invalid e => IO.eprintln (given (escaped e.message)); return 1
  | .crash f => IO.eprintln (given (escaped f.message)); return 1

end JniHeader.Machine

/-- Run on command-line arguments. -/
def main (args : List String) : IO UInt32 :=
  JniHeader.Machine.run (args.map JniHeader.Text.ofString)
