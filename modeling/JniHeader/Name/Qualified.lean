import JniHeader.Text.Blank
import JniHeader.Text.Quoted

/-!
# Qualified class names

A class name is a dotted list of segments, optionally qualified by a module in
front of a slash, as in `java.base/java.lang.Object`. The module is a hint for
lookups: two names denote the same class when their dotted parts agree.
-/
namespace JniHeader

structure QualifiedName where
  className : Text
  module : Option Text
deriving DecidableEq, Repr

namespace QualifiedName

/-- Which part of the text is not a dotted list of segments. -/
inductive Error where
  | module (text : Text)
  | className (text : Text)
deriving DecidableEq, Repr

def Error.message : Error → Text
  | .module text => "Invalid module name in " ++ text.quoted
  | .className text => "Invalid class name " ++ text.quoted

/-- Segments are free of `;`, `[`, `/` and blanks. -/
def isSegmentCharacter (c : CodePoint) : Bool :=
  !(c == (';' : CodePoint) || c == ('[' : CodePoint) || c == ('/' : CodePoint) || c.isBlank)

def isSegment (t : Text) : Bool := !t.isEmpty && t.all isSegmentCharacter

/-- One or more segments separated by dots. -/
def isDotted (t : Text) : Bool := (Text.splitAt '.' t).all isSegment

/-- Read a name as a user writes it; the first slash ends the module. -/
def parse (text : Text) : Except Error QualifiedName :=
  match Text.cutFirst '/' text with
  | (_, none) => if isDotted text then .ok ⟨text, none⟩ else .error (.className text)
  | (module, some className) =>
    if !isDotted module then .error (.module text)
    else if !isDotted className then .error (.className text)
    else .ok ⟨className, some module⟩

/-- The name that a class file writes with slashes. Nothing is checked. -/
def ofBinary (binary : Text) : QualifiedName := ⟨Text.replace '/' '.' binary, none⟩

/-- The class name with slashes for dots. -/
def binaryName (n : QualifiedName) : Text := Text.replace '.' '/' n.className

/-- The segment after the last dot. -/
def simpleName (n : QualifiedName) : Text := Text.afterLast '.' n.className

/-- The name as a user writes it. -/
def text (n : QualifiedName) : Text :=
  match n.module with
  | none | some [] => n.className
  | some m => m ++ "/" ++ n.className

/-- Both names denote one class, whatever their modules. -/
def sameClass (a b : QualifiedName) : Bool := a.className == b.className

/-- The hash of a name as the key of a table, given one for texts; the module has no part in it. -/
def hashBy (hashText : Text → UInt64) (n : QualifiedName) : UInt64 := hashText n.className

end QualifiedName

end JniHeader
