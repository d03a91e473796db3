import JniHeader.ClassFile.Parser
import JniHeader.Descriptor.Parser

/-!
# Class metadata

What a header says about a class: its exported constants and its native methods,
in the order of the class file.
-/
namespace JniHeader

/-- A method that native code implements. -/
structure NativeMethod where
  name : Text
  descriptor : Text
  isStatic : Bool
deriving DecidableEq, Repr

structure ClassMeta where
  superClass : Option QualifiedName
  constants : List Constant
  methods : List NativeMethod
deriving DecidableEq, Repr

namespace AccessFlag

def static (flags : Nat) : Bool := flags.testBit 3
def final (flags : Nat) : Bool := flags.testBit 4
def native (flags : Nat) : Bool := flags.testBit 8
def synthetic (flags : Nat) : Bool := flags.testBit 12

end AccessFlag

/-- Constants of these types appear in headers. -/
def isConstantDescriptor (descriptor : Text) : Bool :=
  BaseType.all.any (fun b => descriptor == [CodePoint.ofChar b.code])
    || descriptor == stringDescriptor

/-- The constant that a header defines for a field, if it defines one: the field is static, final
and of a constant type, and has a value. -/
def ClassFile.Field.exported? (f : ClassFile.Field) : Option Constant :=
  match f.constantValue with
  | some value =>
    if AccessFlag.static f.accessFlags && AccessFlag.final f.accessFlags
        && isConstantDescriptor f.descriptor then
      some ⟨f.name, f.descriptor, value⟩
    else none
  | none => none

/-- The native method that a header declares, if it declares one: bridges made by the compiler
have no implementation of their own. -/
def ClassFile.Method.native? (m : ClassFile.Method) : Option NativeMethod :=
  if AccessFlag.native m.accessFlags && !AccessFlag.synthetic m.accessFlags then
    some ⟨m.name, m.descriptor, AccessFlag.static m.accessFlags⟩
  else none

/-- An empty name counts as no superclass. -/
def superClassName? : Option Text → Option QualifiedName
  | none | some [] => none
  | some name => some (.ofBinary name)

namespace ClassMeta

def ofClassFile (c : ClassFile) : ClassMeta :=
  { superClass := superClassName? c.superClass
    constants := c.fields.filterMap ClassFile.Field.exported?
    methods := c.methods.filterMap ClassFile.Method.native? }

def parse (bytes : List UInt8) : Except ClassFile.ParseError ClassMeta :=
  (ClassFile.parse bytes).map ofClassFile

end ClassMeta

/-- Another method in the list has the same name. -/
def isOverloaded (methods : List NativeMethod) (name : Text) : Bool :=
  1 < (methods.filter fun m => m.name == name).length

/-- The names that more than one method has, each once, in order of their first use. -/
def overloadedNames (methods : List NativeMethod) : List Text :=
  ((methods.map (·.name)).filter (isOverloaded methods)).eraseDups

namespace NativeMethod

/-- The mangled name followed by the mangled argument descriptors. -/
def longName (m : NativeMethod) : Except Descriptor.Error Text :=
  (Descriptor.parseMethod m.descriptor).map fun t =>
    mangle m.name ++ "__" ++ mangle t.argumentsText

/-- The symbol that native code has to export for a method of a class. -/
def symbol (className : Text) (overloaded : Bool) (m : NativeMethod) :
    Except Descriptor.Error Text :=
  if overloaded then
    (Descriptor.parseMethod m.descriptor).map fun t => longSymbol className m.name t.argumentsText
  else .ok (shortSymbol className m.name)

end NativeMethod

end JniHeader
