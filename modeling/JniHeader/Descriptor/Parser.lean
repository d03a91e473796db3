import JniHeader.Descriptor.Basic
import JniHeader.Name.Qualified

/-!
# Reading descriptors

`Descriptor.parse` accepts exactly the written forms of descriptors. A refusal
names its cause and quotes the text in which the cause was found: the whole
descriptor, or the result alone when the result is at fault.
-/
namespace JniHeader

namespace Descriptor

/-- What is wrong at one place in a descriptor. -/
inductive Fault where
  | truncated
  | reference
  | unknownCode (code : CodePoint)
  | unterminatedArguments
deriving DecidableEq, Repr

inductive Error where
  | fault (f : Fault) (text : Text)
  | trailing (text : Text)
  | malformedReturn (text : Text)
  | notArray (text : Text)
  | notReference (text : Text)
  | notMethod (text : Text)
  | methodForField (text : Text)
  | fieldForMethod (text : Text)
deriving DecidableEq, Repr

def Error.message : Error → Text
  | .fault .truncated text => "Truncated descriptor: " ++ text.quoted
  | .fault .reference text => "Malformed reference type in " ++ text.quoted
  | .fault (.unknownCode c) text => "Unknown type code " ++ Text.quoted [c] ++ " in " ++ text.quoted
  | .fault .unterminatedArguments text => "Unterminated argument list in " ++ text.quoted
  | .trailing text => "Trailing characters in " ++ text.quoted
  | .malformedReturn text => "Malformed return type in " ++ text.quoted
  | .notArray text => text ++ " is not an array type"
  | .notReference text => text ++ " is not a reference type"
  | .notMethod text => text ++ " is not a method descriptor"
  | .methodForField text => text ++ " is a method descriptor, expected a field type"
  | .fieldForMethod text => text ++ " is not a method type"

/-- Every code point but a semicolon may stand in a class name. -/
def isNameCharacter (c : CodePoint) : Bool := c != ';'

/-- Read one field type from the front of a text. -/
def scanField : Text → Except Fault (FieldType × Text)
  | [] => .error .truncated
  | c :: rest =>
    if c = '[' then
      match scanField rest with
      | .ok (t, rest') => .ok (.array t, rest')
      | .error f => .error f
    else if c = 'L' then
      match rest.takeWhile isNameCharacter, rest.dropWhile isNameCharacter with
      | n :: name, _ :: rest' => .ok (.object (n :: name), rest')
      | _, _ => .error .reference
    else
      match BaseType.ofCode? c with
      | some b => .ok (.base b, rest)
      | none => .error (.unknownCode c)

/-- Read field types up to the closing parenthesis. `fuel` bounds their number. -/
def scanArguments : (fuel : Nat) → Text → Except Fault (List FieldType × Text)
  | 0, _ => .error .unterminatedArguments
  | _ + 1, [] => .error .unterminatedArguments
  | fuel + 1, c :: rest =>
    if c = ')' then .ok ([], rest)
    else
      match scanField (c :: rest) with
      | .error f => .error f
      | .ok (t, rest') =>
        match scanArguments fuel rest' with
        | .error f => .error f
        | .ok (ts, rest'') => .ok (t :: ts, rest'')

/-- Read the result of the method descriptor `whole`. -/
def parseResult (whole ret : Text) : Except Error (Option FieldType) :=
  if ret = "V" then .ok none
  else if ret = [] then .error (.malformedReturn whole)
  else
    match scanField ret with
    | .error f => .error (.fault f ret)
    | .ok (t, []) => .ok (some t)
    | .ok _ => .error (.malformedReturn whole)

/-- Read a method type. -/
def parseMethod (text : Text) : Except Error MethodType :=
  match text with
  | [] => .error (.notMethod text)
  | c :: body =>
    if c = '(' then
      match scanArguments body.length body with
      | .error f => .error (.fault f text)
      | .ok (arguments, ret) => (parseResult text ret).map fun result => ⟨arguments, result⟩
    else .error (.notMethod text)

def parse (text : Text) : Except Error Descriptor :=
  if text = "V" then .ok .void
  else if text.head? = some (CodePoint.ofChar '(') then (parseMethod text).map .method
  else
    match scanField text with
    | .error f => .error (.fault f text)
    | .ok (t, []) => .ok (.field t)
    | .ok _ => .error (.trailing text)

/-- The shapes that a descriptor can have. -/
inductive Kind where
  | primitive
  | array
  | reference
  | method
deriving DecidableEq, Repr

def kind : Descriptor → Kind
  | .void | .field (.base _) => .primitive
  | .field (.array _) => .array
  | .field (.object _) => .reference
  | .method _ => .method

def elementType (text : Text) : Except Error FieldType :=
  match parse text with
  | .ok (.field (.array t)) => .ok t
  | .ok _ => .error (.notArray text)
  | .error e => .error e

/-- The class that a reference descriptor names. -/
def className (text : Text) : Except Error QualifiedName :=
  match parse text with
  | .ok (.field (.object name)) => .ok (.ofBinary name)
  | .ok _ => .error (.notReference text)
  | .error e => .error e

end Descriptor

end JniHeader
