import JniHeader.Constant.StringLiteral
import JniHeader.Name.Mangling
import JniHeader.Number.Reading

/-!
# Constants

Compile-time constants of a class and the C literals that stand for them. The
descriptor decides the form of the literal; a value of another type is first
converted, which can fail.
-/
namespace JniHeader

inductive ConstantValue where
  | integer (i : Int)
  | float (x : FloatDatum)
  | string (t : Text)
deriving DecidableEq, Repr

structure Constant where
  name : Text
  descriptor : Text
  value : ConstantValue
deriving DecidableEq, Repr

def stringDescriptor : Text := "Ljava/lang/String;"

namespace Constant

/-- Why a value has no literal of the form that its descriptor asks for. -/
inductive Error where
  | integerTooLarge
  | notANumber
  | infinite
  | unreadableInteger (t : Text)
  | tooManyDigits (count : Nat)
  | unreadableFloat (t : Text)
deriving DecidableEq, Repr

/-- Messages show so much of a text that spells no whole number. -/
def shownSize : Nat := 200

def Error.message : Error → Text
  | .integerTooLarge => "int too large to convert to float"
  | .notANumber => "cannot convert float NaN to integer"
  | .infinite => "cannot convert float infinity to integer"
  | .unreadableInteger t =>
    "invalid literal for int() with base 10: " ++ t.quoted.take shownSize
  | .tooManyDigits count =>
    "Exceeds the limit (" ++ Text.ofNat Numeral.maxDigits
      ++ " digits) for integer string conversion: value has " ++ Text.ofNat count
      ++ " digits; use sys.set_int_max_str_digits() to increase the limit"
  | .unreadableFloat t => "could not convert string to float: " ++ t.quoted

end Constant

namespace ConstantValue

/-- The value as it is, without regard to a descriptor. -/
def text : ConstantValue → Text
  | .integer i => Text.ofInt i
  | .float x => x.text
  | .string t => t

def toFloat : ConstantValue → Except Constant.Error FloatDatum
  | .integer i =>
    match FloatDatum.ofInt? i with
    | some x => .ok x
    | none => .error .integerTooLarge
  | .float x => .ok x
  | .string t =>
    match Numeral.float? t with
    | some x => .ok x
    | none => .error (.unreadableFloat t)

/-- The whole number, with a fraction cut off. -/
def toInteger : ConstantValue → Except Constant.Error Int
  | .integer i => .ok i
  | .float x =>
    match x, x.truncate? with
    | _, some i => .ok i
    | .nan, none => .error .notANumber
    | _, none => .error .infinite
  | .string t =>
    match Numeral.integer t with
    | .ok i => .ok i
    | .error .malformed => .error (.unreadableInteger t)
    | .error (.tooManyDigits count) => .error (.tooManyDigits count)

end ConstantValue

/-- A floating constant whose digits are chosen by `digits` and whose type is marked by `suffix`. A
datum without digits is written as a quotient. -/
def floatLiteral (digits : Bool → Nat → Int → Text) (suffix : Text) : FloatDatum → Text
  | .nan => "(0.0" ++ suffix ++ "/0.0" ++ suffix ++ ")"
  | .infinite negative =>
    "(" ++ FloatDatum.signText negative ++ "1.0" ++ suffix ++ "/0.0" ++ suffix ++ ")"
  | .finite negative m e => FloatDatum.withPoint (digits negative m e) ++ suffix

def singleLiteral : FloatDatum → Text := floatLiteral FloatDatum.shortestSingleText "f"

def doubleLiteral : FloatDatum → Text := floatLiteral FloatDatum.shortestText []

namespace Constant

/-- The C literal of a constant. -/
def literal (c : Constant) : Except Error Text :=
  if c.descriptor = "J" then .ok (c.value.text ++ "LL")
  else if c.descriptor = "F" then c.value.toFloat.map singleLiteral
  else if c.descriptor = "D" then c.value.toFloat.map doubleLiteral
  else if c.descriptor = stringDescriptor then .ok (StringLiteral.write c.value.text)
  else c.value.toInteger.map Text.ofInt

/-- The macro that stands for the constant in the header of a class. -/
def macroName (classMangled : Text) (c : Constant) : Text := classMangled ++ "_" ++ mangle c.name

/-- The lines that define a constant, whatever was defined under its name before. -/
def lines (classMangled : Text) (c : Constant) : Except Error (List Text) :=
  c.literal.map fun value =>
    ["#undef " ++ c.macroName classMangled,
      "#define " ++ c.macroName classMangled ++ " " ++ value]

end Constant

end JniHeader
