import JniHeader.Text.CodePoint

/-!
# Type descriptors

Field types, method types and their written form: a base type is one letter, an
array is `[` before its element type, a class is its binary name between `L` and
`;`, and a method type is its argument types in parentheses before its result.
-/
namespace JniHeader

inductive BaseType where
  | boolean
  | byte
  | char
  | short
  | int
  | long
  | float
  | double
deriving DecidableEq, Repr

def BaseType.code : BaseType → Char
  | .boolean => 'Z'
  | .byte => 'B'
  | .char => 'C'
  | .short => 'S'
  | .int => 'I'
  | .long => 'J'
  | .float => 'F'
  | .double => 'D'

def BaseType.all : List BaseType := [.boolean, .byte, .char, .short, .int, .long, .float, .double]

def BaseType.ofCode? (c : CodePoint) : Option BaseType :=
  BaseType.all.find? fun b => c == CodePoint.ofChar b.code

/-- The type of a field or of a method's argument. -/
inductive FieldType where
  | base (b : BaseType)
  | object (binaryName : Text)
  | array (element : FieldType)
deriving DecidableEq, Repr

def FieldType.text : FieldType → Text
  | .base b => [CodePoint.ofChar b.code]
  | .object name => CodePoint.ofChar 'L' :: name ++ ";"
  | .array element => CodePoint.ofChar '[' :: element.text

/-- The result of a method is absent when it returns nothing. -/
structure MethodType where
  arguments : List FieldType
  result : Option FieldType
deriving DecidableEq, Repr

def resultText : Option FieldType → Text
  | none => "V"
  | some t => t.text

/-- The argument descriptors one after the other. -/
def MethodType.argumentsText (m : MethodType) : Text := m.arguments.flatMap FieldType.text

def MethodType.text (m : MethodType) : Text :=
  "(" ++ m.argumentsText ++ ")" ++ resultText m.result

inductive Descriptor where
  | void
  | field (t : FieldType)
  | method (m : MethodType)
deriving DecidableEq, Repr

def Descriptor.text : Descriptor → Text
  | .void => "V"
  | .field t => t.text
  | .method m => m.text

end JniHeader
