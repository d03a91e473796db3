import JniHeader.Archive.Basic
import JniHeader.Files.System
import JniHeader.Meta.Basic

/-!
# Failures

What ends the work on a class. Class-file errors and unsupported descriptors are
faults of the class at hand; the other failures come from the places where
classes are looked for and headers are written.
-/
namespace JniHeader

/-- The bytes of a class are malformed or cannot be read. -/
inductive ClassFileError where
  | malformed (e : ClassFile.ParseError)
  | unreadableFile (path : FilePath) (e : SystemError)
  | unopenedArchive (entry : Text) (archive : FilePath) (e : SystemError)
  | unreadableEntry (entry : Text) (archive : FilePath) (e : Archive.Error)
deriving DecidableEq

def ClassFileError.message : ClassFileError → Text
  | .malformed e => e.message
  | .unreadableFile path e => "Cannot read " ++ path.text ++ ": " ++ e.message
  | .unopenedArchive entry archive e =>
    "Cannot read " ++ entry ++ " from " ++ archive.text ++ ": " ++ e.message
  | .unreadableEntry entry archive e =>
    "Cannot read " ++ entry ++ " from " ++ archive.text ++ ": " ++ e.message

/-- Why a line cannot be printed. -/
inductive PrintError where
  | system (e : SystemError)
  | text (e : Unencodable)
deriving DecidableEq, Repr

def PrintError.message : PrintError → Text
  | .system e => e.message
  | .text e => e.message

/-- What an output in strict UTF-8 refuses: every text that holds a surrogate. -/
def strictUtf8? (t : Text) : Option PrintError :=
  let rest := t.dropWhile fun c => !c.isSurrogate
  match rest.takeWhile CodePoint.isSurrogate with
  | [] => none
  | first :: more => some (.text ⟨t.length - rest.length, more.length + 1, first⟩)

inductive Failure where
  | classFile (e : ClassFileError)
  | descriptor (e : Descriptor.Error)
  | constant (e : Constant.Error)
  | file (e : FileError)
  | tooDeep
  | archive (e : Archive.Error)
  | unknownProvider (label : Text)
  | output (e : PrintError)
deriving DecidableEq

def Failure.message : Failure → Text
  | .classFile e => e.message
  | .descriptor e => e.message
  | .constant e => e.message
  | .file e => e.message
  | .tooDeep => "maximum recursion depth exceeded"
  | .archive e => e.message
  | .unknownProvider label => "Unknown search path provider: " ++ label.quoted
  | .output e => e.message

def Failure.ofDirectory : DirectoryError → Failure
  | .file e => .file e
  | .tooDeep => .tooDeep

/-- The line that reports an error under its kind, below the line that says what it prevented. -/
def detailLine (kind message : Text) : Text := "  " ++ kind ++ ": " ++ message

def ClassFileError.detail (e : ClassFileError) : Text := detailLine "ClassFileError" e.message

def Descriptor.Error.detail (e : Descriptor.Error) : Text :=
  detailLine "UnsupportedDescriptorError" e.message

def SystemError.detail (e : SystemError) : Text := detailLine e.problem.kindName e.message

end JniHeader
