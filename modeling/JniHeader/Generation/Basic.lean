import JniHeader.Header.Basic

/-!
# Generating one header

The header of a class is written to a file named after its mangled name. A class
that is not found and a header that cannot be written are outcomes; class-file
errors and unsupported descriptors end the generation of the class.
-/
namespace JniHeader

/-- What became of a class. The line count of a header is an integer like the totals of a report. -/
inductive Status where
  | written (path : FilePath) (lines : Int)
  | notFound
  | parseError
  | writeError
  | unsupportedDescriptor
deriving DecidableEq, Repr

structure Outcome where
  name : QualifiedName
  status : Status
deriving DecidableEq, Repr

namespace Status

def text : Status → Text
  | .written _ _ => "written"
  | .notFound => "not-found"
  | .parseError => "parse-error"
  | .writeError => "write-error"
  | .unsupportedDescriptor => "unsupported-descriptor"

def isWritten : Status → Bool
  | .written _ _ => true
  | _ => false

def path? : Status → Option FilePath
  | .written path _ => some path
  | _ => none

def lineCount : Status → Int
  | .written _ lines => lines
  | _ => 0

end Status

/-- A class-file error, reported as the reason why a class cannot be opened. -/
def cannotOpen {α : Type} (name : QualifiedName) (e : ClassFileError) : Reported α :=
  ⟨["error: cannot open class file of " ++ name.text, e.detail], .error (.classFile e)⟩

/-- The header of a class that a source has, none when it has no such class. -/
def headerOf (source : ClassSource) (name : QualifiedName) : Reported (Option Text) :=
  match source.lookup name with
  | .error (.classFile e) => cannotOpen name e
  | .error f => .fail f
  | .ok none => ⟨["Not found class " ++ name.text], .ok none⟩
  | .ok (some bytes) =>
    match ClassMeta.parse bytes with
    | .error e => cannotOpen name (.malformed e)
    | .ok m => (Header.text name m source.isThrowable).bind fun t => .pure (some t)

/-- The file system after some work, and what the work came to. -/
structure Worked (α : Type) where
  files : FileSystem
  outcome : Reported α

/-- A header in a directory that is there. What stands at the path of a header that cannot be
written is taken away, if it can be. -/
def writeHeader (fs : FileSystem) (directory : FilePath) (name : QualifiedName) (header : Text) :
    Worked Outcome :=
  let path := directory.append name.headerFile
  match fs.writeFile path ⟨header.utf8.toArray⟩ with
  | (fs, .ok ()) => ⟨fs, .pure ⟨name, .written path (header.count (CodePoint.ofChar '\n'))⟩⟩
  | (fs, .error (.name e)) => ⟨fs, .fail (.file (.name e))⟩
  | (fs, .error (.system e)) =>
    ⟨(fs.removeFile path).toOption.getD fs,
      ⟨["error: cannot write to " ++ path.text, e.detail], .ok ⟨name, .writeError⟩⟩⟩

/-- The header of a class from a search path, in a directory that is there. -/
def generateInto (host : Host) (search : SearchPath) (directory : FilePath)
    (name : QualifiedName) : Worked Outcome :=
  let found := headerOf (search.source host) name
  match found.result with
  | .error f => ⟨host.files, ⟨found.lines, .error f⟩⟩
  | .ok none => ⟨host.files, ⟨found.lines, .ok ⟨name, .notFound⟩⟩⟩
  | .ok (some header) =>
    let written := writeHeader host.files directory name header
    ⟨written.files, written.outcome.after found.lines⟩

/-- Write the header of a class into a directory, which is made if it is missing. -/
def generate (host : Host) (search : SearchPath) (directory : FilePath) (name : QualifiedName) :
    Worked Outcome :=
  match host.files.isPresent directory, host.files.isDirectory directory with
  | .error e, _ | _, .error e => ⟨host.files, .fail (.file (.system e))⟩
  | .ok true, .ok false =>
    ⟨host.files, ⟨["error: " ++ directory.text ++ " is not a directory"],
      .ok ⟨name, .writeError⟩⟩⟩
  | .ok _, .ok _ =>
    match host.files.makeDirectories directory with
    | (fs, .ok ()) => generateInto { host with files := fs } search directory name
    | (fs, .error (.file (.system e))) =>
      ⟨fs, ⟨["error: cannot create directory " ++ directory.text, e.detail],
        .ok ⟨name, .writeError⟩⟩⟩
    | (fs, .error e) => ⟨fs, .fail (.ofDirectory e)⟩

end JniHeader
