import JniHeader.Text.CodePoint

/-!
# Paths

A path is a root and the components after it. Reading a path drops empty
components and single dots; two dots are kept, because what they mean depends
on links.
-/
namespace JniHeader

inductive PathRoot where
  | relative
  | absolute
  | doubleSlash
deriving DecidableEq, Repr

structure FilePath where
  root : PathRoot
  parts : List Text
deriving DecidableEq, Repr

namespace FilePath

def rootOf (t : Text) : PathRoot :=
  let slashes := (t.takeWhile (· = CodePoint.ofChar '/')).length
  if slashes = 0 then .relative else if slashes = 2 then .doubleSlash else .absolute

def partsOf (t : Text) : List Text :=
  (Text.splitAt '/' t).filter fun p => !(p.isEmpty || p == ".")

def ofText (t : Text) : FilePath := ⟨rootOf t, partsOf t⟩

def rootText : PathRoot → Text
  | .relative => []
  | .absolute => "/"
  | .doubleSlash => "//"

/-- A path without root and components is written as a dot. -/
def text (p : FilePath) : Text :=
  match rootText p.root ++ Text.joinWith "/" p.parts with
  | [] => "."
  | t => t

/-- The second path as seen from the first; a rooted one stands for itself. -/
def join (p q : FilePath) : FilePath :=
  match q.root with
  | .relative => ⟨p.root, p.parts ++ q.parts⟩
  | _ => q

/-- A path below `p`, given as text. -/
def append (p : FilePath) (t : Text) : FilePath := p.join (.ofText t)

/-- The path without its last component. -/
def parent (p : FilePath) : FilePath := ⟨p.root, p.parts.dropLast⟩

/-- The last component, empty for a root. -/
def fileName (p : FilePath) : Text := p.parts.getLast?.getD []

/-- The last dot of a name with what follows it, and what precedes it. A dot in front of a name or
at its end starts no suffix. -/
def splitSuffix (name : Text) : Text × Text :=
  let suffix := Text.afterLast '.' name
  let stem := name.take (name.length - suffix.length - 1)
  if suffix.isEmpty || stem.isEmpty then (name, []) else (stem, CodePoint.ofChar '.' :: suffix)

def stem (p : FilePath) : Text := (splitSuffix p.fileName).1

/-- The suffix in lower case, with its dot. -/
def suffix (p : FilePath) : Text := (splitSuffix p.fileName).2.toAsciiLower

end FilePath

end JniHeader
