import JniHeader.Files.Path
import JniHeader.Text.Quoted
import JniHeader.Text.Utf8

/-!
# File errors

Why an operation on files fails: the system refuses it, or its path is no text
that a file can be named with.
-/
namespace JniHeader

/-- Why the system refuses what the tree of files would allow. -/
inductive Refusal where
  | notPermitted
  | inputOutput
  | accessDenied
  | tooLarge
  | noSpace
  | readOnly
  | stale
  | quota
deriving DecidableEq, Repr

namespace Refusal

def number : Refusal → Nat
  | .notPermitted => 1
  | .inputOutput => 5
  | .accessDenied => 13
  | .tooLarge => 27
  | .noSpace => 28
  | .readOnly => 30
  | .stale => 116
  | .quota => 122

def description : Refusal → Text
  | .notPermitted => "Operation not permitted"
  | .inputOutput => "Input/output error"
  | .accessDenied => "Permission denied"
  | .tooLarge => "File too large"
  | .noSpace => "No space left on device"
  | .readOnly => "Read-only file system"
  | .stale => "Stale file handle"
  | .quota => "Disk quota exceeded"

/-- The refusal is one of rights, not of a device. -/
def isPermission : Refusal → Bool
  | .notPermitted | .accessDenied => true
  | _ => false

end Refusal

/-- What the system reports. -/
inductive SystemProblem where
  | notFound
  | exists
  | notDirectory
  | isDirectory
  | nameTooLong
  | tooManyLinks
  | refused (r : Refusal)
deriving DecidableEq, Repr

namespace SystemProblem

def number : SystemProblem → Nat
  | .notFound => 2
  | .exists => 17
  | .notDirectory => 20
  | .isDirectory => 21
  | .nameTooLong => 36
  | .tooManyLinks => 40
  | .refused r => r.number

def description : SystemProblem → Text
  | .notFound => "No such file or directory"
  | .exists => "File exists"
  | .notDirectory => "Not a directory"
  | .isDirectory => "Is a directory"
  | .nameTooLong => "File name too long"
  | .tooManyLinks => "Too many levels of symbolic links"
  | .refused r => r.description

def isPermission : SystemProblem → Bool
  | .refused r => r.isPermission
  | _ => false

/-- The name of the class of such problems. -/
def kindName (p : SystemProblem) : Text :=
  match p with
  | .notFound => "FileNotFoundError"
  | .exists => "FileExistsError"
  | .notDirectory => "NotADirectoryError"
  | .isDirectory => "IsADirectoryError"
  | _ => if p.isPermission then "PermissionError" else "OSError"

/-- The problem means that nothing is there; a name too long for the system and a refusal are no
such answers. -/
def isAbsence : SystemProblem → Bool
  | .notFound | .notDirectory | .tooManyLinks => true
  | _ => false

end SystemProblem

/-- A problem, and the path it was met at unless it arose on an open file. -/
structure SystemError where
  problem : SystemProblem
  path : Option FilePath
deriving DecidableEq, Repr

def SystemError.message (e : SystemError) : Text :=
  "[Errno " ++ Text.ofNat e.problem.number ++ "] " ++ e.problem.description ++
    match e.path with
    | none => []
    | some p => ": " ++ p.text.quoted

/-- A run of surrogates that cannot be encoded: where it starts, its length and its first one. -/
structure Unencodable where
  position : Nat
  length : Nat
  first : CodePoint
deriving DecidableEq, Repr

def Unencodable.message (e : Unencodable) : Text :=
  if e.length ≤ 1 then
    "'utf-8' codec can't encode character '\\u" ++ Text.lowerHex 4 e.first.val ++ "' in position "
      ++ Text.ofNat e.position ++ ": surrogates not allowed"
  else
    "'utf-8' codec can't encode characters in position " ++ Text.ofNat e.position ++ "-"
      ++ Text.ofNat (e.position + e.length - 1) ++ ": surrogates not allowed"

/-- Why a text names no file: it has no bytes as a file name, or holds a NUL. -/
inductive UnusableName where
  | surrogates (e : Unencodable)
  | nul
deriving DecidableEq, Repr

def UnusableName.message : UnusableName → Text
  | .nul => "embedded null byte"
  | .surrogates e => e.message

inductive FileError where
  | system (e : SystemError)
  | name (e : UnusableName)
deriving DecidableEq, Repr

def FileError.message : FileError → Text
  | .system e => e.message
  | .name e => e.message

/-- Why a directory cannot be made: a problem with files, or more missing levels above it than can
be made in one go. -/
inductive DirectoryError where
  | file (e : FileError)
  | tooDeep
deriving DecidableEq, Repr

/-- The low surrogates that stand for single bytes of a file name. -/
def CodePoint.isEscapedByte (c : CodePoint) : Bool := c.within 0xDC80 0xDCFF

/-- The first run of surrogates that are not all escaped bytes, from its first such surrogate on. -/
def unencodable? (position : Nat) : (fuel : Nat) → Text → Option Unencodable
  | 0, _ => none
  | _ + 1, [] => none
  | fuel + 1, c :: rest =>
    if c.isSurrogate then
      let run := (c :: rest).takeWhile CodePoint.isSurrogate
      let escaped := run.takeWhile CodePoint.isEscapedByte
      match run.drop escaped.length with
      | first :: more => some ⟨position + escaped.length, more.length + 1, first⟩
      | [] => unencodable? (position + run.length) fuel ((c :: rest).drop run.length)
    else unencodable? (position + 1) fuel rest

/-- Why a text names no file, if it names none. -/
def unusableName? (t : Text) : Option UnusableName :=
  match unencodable? 0 t.length t with
  | some e => some (.surrogates e)
  | none => if t.any (·.val = 0) then some .nul else none

/-- The bytes of a code point in a file name. -/
def CodePoint.nameSize (c : CodePoint) : Nat := if c.isEscapedByte then 1 else c.utf8.length

/-- The bytes of a text in a file name. -/
def Text.nameSize (t : Text) : Nat := t.foldr (fun c n => c.nameSize + n) 0

end JniHeader
