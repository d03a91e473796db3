import JniHeader.NativeType.Throwable

/-!
# Native types

The C types that stand for the types of fields, arguments and results. A class
has a type of its own only if it is `Class`, `String` or throwable.
-/
namespace JniHeader

inductive NativeType where
  | void
  | primitive (b : BaseType)
  | primitiveArray (b : BaseType)
  | objectArray
  | classReference
  | string
  | throwable
  | object
deriving DecidableEq, Repr

def BaseType.word : BaseType → Text
  | .boolean => "boolean"
  | .byte => "byte"
  | .char => "char"
  | .short => "short"
  | .int => "int"
  | .long => "long"
  | .float => "float"
  | .double => "double"

namespace NativeType

def text : NativeType → Text
  | .void => "void"
  | .primitive b => "j" ++ b.word
  | .primitiveArray b => "j" ++ b.word ++ "Array"
  | .objectArray => "jobjectArray"
  | .classReference => "jclass"
  | .string => "jstring"
  | .throwable => "jthrowable"
  | .object => "jobject"

/-- The native type of a field type. `isThrowable` is asked about classes without a type of their
own. -/
def ofField (isThrowable : QualifiedName → Reported Bool) : FieldType → Reported NativeType
  | .base b => .pure (.primitive b)
  | .array (.base b) => .pure (.primitiveArray b)
  | .array _ => .pure .objectArray
  | .object name =>
    if name = "java/lang/Class" then .pure .classReference
    else if name = "java/lang/String" then .pure .string
    else if name = "java/lang/Throwable" then .pure .throwable
    else (isThrowable (.ofBinary name)).bind fun t => .pure (if t then .throwable else .object)

def ofResult (isThrowable : QualifiedName → Reported Bool) :
    Option FieldType → Reported NativeType
  | none => .pure .void
  | some t => ofField isThrowable t

/-- The native types of a method's arguments and of its result, in this order. -/
def ofMethod (isThrowable : QualifiedName → Reported Bool) (m : MethodType) :
    Reported (List NativeType × NativeType) :=
  (Reported.forEach (ofField isThrowable) m.arguments).bind fun arguments =>
    (ofResult isThrowable m.result).bind fun result => .pure (arguments, result)

def unsupported {α : Type} (e : Descriptor.Error) : Reported α := .fail (.descriptor e)

/-- The native type that a descriptor of a field, or `V`, stands for. -/
def ofDescriptor (isThrowable : QualifiedName → Reported Bool) (descriptor : Text) :
    Reported NativeType :=
  match Descriptor.parse descriptor with
  | .error e => unsupported e
  | .ok (.method _) => unsupported (.methodForField descriptor)
  | .ok (.field t) => ofField isThrowable t
  | .ok .void => .pure .void

/-- The native types that a method descriptor stands for. -/
def ofMethodDescriptor (isThrowable : QualifiedName → Reported Bool) (descriptor : Text) :
    Reported (List NativeType × NativeType) :=
  match Descriptor.parse descriptor with
  | .error e => unsupported e
  | .ok (.method m) => ofMethod isThrowable m
  | .ok _ => unsupported (.fieldForMethod descriptor)

end NativeType

end JniHeader
