import JniHeader.Name.Qualified
import JniHeader.Text.Utf16

/-!
# Mangled names

Names in the alphabet of C identifiers. ASCII letters and digits stay; `_`, `;`
and `[` become `_1`, `_2` and `_3`; the separators `.` and `/` become `_`; every
other 16-bit unit becomes `_0` and four hexadecimal digits. Signatures in
comments keep printable ASCII and escape every other unit.
-/
namespace JniHeader

def CodePoint.mangled (c : CodePoint) : Text :=
  if c = '_' then "_1"
  else if c = ';' then "_2"
  else if c = '[' then "_3"
  else if c = '.' ∨ c = '/' then "_"
  else if c.isAsciiLetter || c.isAsciiDigit then [c]
  else c.units.flatMap fun u => "_0" ++ Text.upperHex 4 u.toNat

def mangle (t : Text) : Text := t.flatMap CodePoint.mangled

def CodePoint.signatureForm (c : CodePoint) : Text :=
  if c.isPlain then [c] else c.units.flatMap fun u => "\\u" ++ Text.upperHex 4 u.toNat

/-- A descriptor as printable ASCII, for a comment. -/
def escapeSignature (t : Text) : Text := t.flatMap CodePoint.signatureForm

def QualifiedName.mangled (n : QualifiedName) : Text := mangle n.className

/-- The name of the header file of a class. -/
def QualifiedName.headerFile (n : QualifiedName) : Text := n.mangled ++ ".h"

/-- The exported symbol of a method whose name no other native method shares. -/
def shortSymbol (className method : Text) : Text :=
  "Java_" ++ mangle className ++ "_" ++ mangle method

/-- The exported symbol of an overloaded method, which carries its argument descriptors. -/
def longSymbol (className method arguments : Text) : Text :=
  shortSymbol className method ++ "__" ++ mangle arguments

end JniHeader
