import JniHeader.NativeType.Basic

/-!
# Headers

The text of a header: nine opening lines, two for each constant, eight for each
native method, and four closing lines. The include guard and the comments are
named after the mangled class name.
-/
namespace JniHeader

namespace Header

def opening (mangled : Text) : List Text :=
  ["/* DO NOT EDIT THIS FILE - it is machine generated */",
    "#include <jni.h>",
    "/* Header for class " ++ mangled ++ " */",
    [],
    "#ifndef _Included_" ++ mangled,
    "#define _Included_" ++ mangled,
    "#ifdef __cplusplus",
    "extern \"C\" \x7b",
    "#endif"]

def closing : List Text := ["#ifdef __cplusplus", "\x7d", "#endif", "#endif"]

/-- The first two parameters of a native method: the environment, and the class or the object that
it is called on. -/
def receiver (isStatic : Bool) : List Text := ["JNIEnv *", if isStatic then "jclass" else "jobject"]

/-- The comment and the prototype of a method. -/
def methodBlock (mangled : Text) (m : NativeMethod) (symbol : Text)
    (types : List NativeType × NativeType) : List Text :=
  ["/*",
    " * Class:      " ++ mangled,
    " * Method:     " ++ mangle m.name,
    " * Signature:  " ++ escapeSignature m.descriptor,
    " */",
    "JNIEXPORT " ++ types.2.text ++ " JNICALL " ++ symbol,
    "  (" ++ Text.joinWith ", " (receiver m.isStatic ++ types.1.map NativeType.text) ++ ");",
    []]

/-- The lines of a method; an unsupported descriptor has none. -/
def methodLines (name : QualifiedName) (isThrowable : QualifiedName → Reported Bool)
    (overloaded : Bool) (m : NativeMethod) : Reported (List Text) :=
  (NativeType.ofMethodDescriptor isThrowable m.descriptor).bind fun types =>
    match m.symbol name.className overloaded with
    | .ok symbol => .pure (methodBlock name.mangled m symbol types)
    | .error e => .fail (.descriptor e)

def constantLines (name : QualifiedName) (c : Constant) : Reported (List Text) :=
  match c.lines name.mangled with
  | .ok lines => .pure lines
  | .error e => .fail (.constant e)

/-- The lines of a header. -/
def lines (name : QualifiedName) (m : ClassMeta) (isThrowable : QualifiedName → Reported Bool) :
    Reported (List Text) :=
  (Reported.forEach (constantLines name) m.constants).bind fun constants =>
    (Reported.forEach
      (fun x => methodLines name isThrowable (isOverloaded m.methods x.name) x) m.methods).bind
      fun methods =>
        .pure (opening name.mangled ++ constants.flatten ++ methods.flatten ++ closing)

/-- The header of a class: its lines, each with its line feed. -/
def text (name : QualifiedName) (m : ClassMeta) (isThrowable : QualifiedName → Reported Bool) :
    Reported Text :=
  (lines name m isThrowable).bind fun ls => .pure (Text.unlines ls ++ "\n")

end Header

end JniHeader
