import JniHeader.Constant.Basic

/-!
# Class files

The names, flags and members of a class file, and the causes for which bytes are
refused as one.
-/
namespace JniHeader

namespace ClassFile

structure Field where
  name : Text
  descriptor : Text
  accessFlags : Nat
  constantValue : Option ConstantValue
deriving DecidableEq, Repr

structure Method where
  name : Text
  descriptor : Text
  accessFlags : Nat
deriving DecidableEq, Repr

inductive ParseError where
  | truncated (size offset : Nat)
  | badMagic (magic : Nat)
  | unknownTag (tag index : Nat)
  | malformedUtf8 (fault : Utf8.Fault)
  | indexOutOfRange (index : Nat)
  | wrongTag (index expected : Nat)
  | badConstantIndex (index : Nat)
  | constantTag (index tag expected : Nat) (descriptor : Text)
  | notAConstant (index tag : Nat)
deriving DecidableEq, Repr

def ParseError.message : ParseError → Text
  | .truncated size offset =>
    "Truncated class file: needed " ++ Text.ofNat size ++ " bytes at offset " ++ Text.ofNat offset
  | .badMagic magic => "Bad magic number 0x" ++ Text.upperHex 8 magic
  | .unknownTag tag index =>
    "Unknown constant pool tag " ++ Text.ofNat tag ++ " at entry " ++ Text.ofNat index
  | .malformedUtf8 fault => "Malformed Utf8 constant: " ++ fault.message
  | .indexOutOfRange index => "Constant pool index " ++ Text.ofNat index ++ " out of range"
  | .wrongTag index expected =>
    "Constant pool entry " ++ Text.ofNat index ++ " is not of tag " ++ Text.ofNat expected
  | .badConstantIndex index => "Bad ConstantValue index " ++ Text.ofNat index
  | .constantTag index tag expected descriptor =>
    "ConstantValue entry " ++ Text.ofNat index ++ " has tag " ++ Text.ofNat tag ++ ", expected "
      ++ Text.ofNat expected ++ " for a " ++ descriptor ++ " field"
  | .notAConstant index tag =>
    "ConstantValue entry " ++ Text.ofNat index ++ " has tag " ++ Text.ofNat tag

end ClassFile

/-- What a header needs of a class file. Class names are in their binary form. -/
structure ClassFile where
  thisClass : Text
  superClass : Option Text
  accessFlags : Nat
  interfaces : List Text
  fields : List ClassFile.Field
  methods : List ClassFile.Method
  majorVersion : Nat
  minorVersion : Nat
deriving DecidableEq, Repr

end JniHeader
