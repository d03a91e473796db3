import JniHeader.Search.Reported
import JniHeader.Search.Source

/-!
# Throwable classes

A class is throwable if its chain of superclasses leads to `Throwable`, `Error`
or `Exception`. The walk along the chain also ends at `Object`, at a class
without superclass, at a class that cannot be found or read, and at a class that
it has come to before. The last two are reported.
-/
namespace JniHeader

def throwableRoots : List Text :=
  ["java.lang.Throwable", "java.lang.Error", "java.lang.Exception"]

def objectRoot : Text := "java.lang.Object"

/-- Where a walk along superclasses ends. -/
inductive WalkEnd where
  | throwable
  | object
  | noSuperClass
  | missing (name : QualifiedName)
  | unreadable (name : QualifiedName) (e : ClassFileError)
  | cyclic (name : QualifiedName)
  | failed (f : Failure)
  | unfinished
deriving DecidableEq

/-- The superclass of a class that a source has, or the end of the walk at this class. -/
def superClassStep (lookup : QualifiedName → Except Failure (Option (List UInt8)))
    (name : QualifiedName) : WalkEnd ⊕ QualifiedName :=
  match lookup name with
  | .error (.classFile e) => .inl (.unreadable name e)
  | .error f => .inl (.failed f)
  | .ok none => .inl (.missing name)
  | .ok (some bytes) =>
    match ClassFile.superClassOf bytes with
    | .error e => .inl (.unreadable name (.malformed e))
    | .ok none => .inl .noSuperClass
    | .ok (some next) => .inr next

/-- Walk on from a class after those in `visited`, through at most `fuel` classes. -/
def superClassWalk (lookup : QualifiedName → Except Failure (Option (List UInt8))) :
    (fuel : Nat) → (visited : List Text) → QualifiedName → WalkEnd
  | 0, _, _ => .unfinished
  | fuel + 1, visited, name =>
    if name.className ∈ throwableRoots then .throwable
    else if name.className = objectRoot then .object
    else if name.className ∈ visited then .cyclic name
    else
      match superClassStep lookup name with
      | .inl stop => stop
      | .inr next => superClassWalk lookup fuel (name.className :: visited) next

namespace WalkEnd

/-- The lines that an end reports. -/
def lines : WalkEnd → List Text
  | .missing name => ["warning: class " ++ name.text ++ " not found"]
  | .unreadable name e => ["warning: class " ++ name.text ++ " not found", e.detail]
  | .cyclic name => ["warning: cyclic superclass chain at class " ++ name.text]
  | _ => []

def report (e : WalkEnd) : Reported Bool :=
  ⟨e.lines,
    match e with
    | .throwable => .ok true
    | .failed f => .error f
    | _ => .ok false⟩

end WalkEnd

namespace ClassSource

/-- The end of the walk from a class. A walk through more classes than a source has different
answers would come to one of them again. -/
def walk (s : ClassSource) (name : QualifiedName) : WalkEnd :=
  superClassWalk s.lookup (s.extent + 2) [] name

def isThrowable (s : ClassSource) (name : QualifiedName) : Reported Bool := (s.walk name).report

end ClassSource

end JniHeader
