import JniHeader.Proofs.ClassFile.PoolReference

/-!
# Class files are read back

A laid out class file consists of a pool, references into it and members whose
attributes have arbitrary names and payloads. Its bytes, with any bytes behind
them, are read back to the names, flags, versions, members and constant values
that were laid out.
-/
namespace JniHeader.ClassFile

variable {p : PoolLayout}

/-- An attribute with as many bytes of payload as a four-byte length can count. -/
structure Attribute (p : PoolLayout) where
  name : p.TextRef
  payload : List UInt8
  fits : payload.length < 256 ^ 4

namespace Attribute

def bytes (a : Attribute p) : List UInt8 :=
  a.name.bytes ++ (bigEndianBytes 4 a.payload.length ++ a.payload)

theorem reads_skip (a : Attribute p) : Reads (skipAttribute p.pool) a.bytes () := by
  refine a.name.reads.bind ?_
  refine (Reads.unsigned 4 a.fits).bind ?_
  exact (Reads.take a.payload).bind_pure fun _ => ()

end Attribute

/-- An attribute of a field: a constant value of two bytes, or any other attribute. -/
inductive FieldAttribute (p : PoolLayout) (descriptor : Text) where
  | constant (name : p.TextRef) (value : p.LiteralRef) (isConstant : name.text = "ConstantValue")
      (suits : value.literal.Suits descriptor)
  | other (a : Attribute p) (isOther : ¬ (a.name.text = "ConstantValue" ∧ a.payload.length = 2))

namespace FieldAttribute

variable {descriptor : Text}

def bytes : FieldAttribute p descriptor → List UInt8
  | .constant name value _ _ => name.bytes ++ (bigEndianBytes 4 2 ++ value.bytes)
  | .other a _ => a.bytes

def value? : FieldAttribute p descriptor → Option ConstantValue
  | .constant _ value _ _ => some value.literal.value
  | .other _ _ => none

/-- A constant value replaces the value found so far. -/
theorem reads (a : FieldAttribute p descriptor) (found : Option ConstantValue) :
    Reads (readFieldAttribute p.pool descriptor found) a.bytes (a.value?.or found) := by
  cases a with
  | constant name value isConstant suits =>
      refine name.reads.bind ?_
      refine (Reads.unsigned 4 (n := 2) (by decide)).bind ?_
      rw [if_pos ⟨isConstant, rfl⟩]
      exact (value.reads suits).bind_pure some
  | other a isOther =>
      refine a.name.reads.bind ?_
      refine (Reads.unsigned 4 a.fits).bind ?_
      rw [if_neg isOther]
      exact (Reads.take a.payload).bind_pure fun _ => found

/-- The value of the last constant among attributes. -/
def lastValue (as : List (FieldAttribute p descriptor)) : Option ConstantValue :=
  (as.filterMap value?).getLast?

theorem lastValue_cons (a : FieldAttribute p descriptor) (as : List (FieldAttribute p descriptor)) :
    lastValue (a :: as) = (lastValue as).or a.value? := by
  unfold lastValue
  cases hvalue : a.value? with
  | none => rw [List.filterMap_cons_none hvalue, Option.or_none]
  | some value =>
      rw [List.filterMap_cons_some hvalue, List.getLast?_cons]
      cases (as.filterMap value?).getLast? <;> rfl

theorem reads_all (as : List (FieldAttribute p descriptor)) (found : Option ConstantValue) :
    Reads (readFieldAttributes p.pool descriptor as.length found) (as.flatMap bytes)
      ((lastValue as).or found) := by
  induction as generalizing found with
  | nil => exact Reads.pure found
  | cons a as ih =>
      rw [lastValue_cons, Option.or_assoc]
      exact (a.reads found).bind (ih (a.value?.or found))

end FieldAttribute

structure FieldLayout (p : PoolLayout) where
  accessFlags : UInt16
  name : p.TextRef
  descriptor : p.TextRef
  attributes : List (FieldAttribute p descriptor.text)
  fits : attributes.length < 65536

namespace FieldLayout

def bytes (f : FieldLayout p) : List UInt8 :=
  bigEndianBytes 2 f.accessFlags.toNat ++ (f.name.bytes ++ (f.descriptor.bytes ++
    (bigEndianBytes 2 f.attributes.length ++ f.attributes.flatMap FieldAttribute.bytes)))

def field (f : FieldLayout p) : Field :=
  ⟨f.name.text, f.descriptor.text, f.accessFlags.toNat, FieldAttribute.lastValue f.attributes⟩

theorem reads (f : FieldLayout p) : Reads (readField p.pool) f.bytes f.field := by
  have hattributes := FieldAttribute.reads_all f.attributes none
  rw [Option.or_none] at hattributes
  refine (Reads.uint16 f.accessFlags).bind ?_
  refine f.name.reads.bind ?_
  refine f.descriptor.reads.bind ?_
  refine (Reads.unsigned 2 f.fits).bind ?_
  exact hattributes.bind_pure _

end FieldLayout

structure MethodLayout (p : PoolLayout) where
  accessFlags : UInt16
  name : p.TextRef
  descriptor : p.TextRef
  attributes : List (Attribute p)
  fits : attributes.length < 65536

namespace MethodLayout

def bytes (m : MethodLayout p) : List UInt8 :=
  bigEndianBytes 2 m.accessFlags.toNat ++ (m.name.bytes ++ (m.descriptor.bytes ++
    (bigEndianBytes 2 m.attributes.length ++ m.attributes.flatMap Attribute.bytes)))

def method (m : MethodLayout p) : Method :=
  ⟨m.name.text, m.descriptor.text, m.accessFlags.toNat⟩

theorem reads (m : MethodLayout p) : Reads (readMethod p.pool) m.bytes m.method := by
  have hattributes : Reads (counted (skipAttribute p.pool))
      (bigEndianBytes 2 m.attributes.length ++ m.attributes.flatMap Attribute.bytes)
      (m.attributes.map fun _ => ()) := Reads.counted m.fits fun a _ => a.reads_skip
  refine (Reads.uint16 m.accessFlags).bind ?_
  refine m.name.reads.bind ?_
  refine m.descriptor.reads.bind ?_
  exact hattributes.bind_pure _

end MethodLayout

/-- The index of a superclass, zero for a class without one. -/
def superIndex : Option p.ClassRef → UInt16
  | none => 0
  | some r => r.index

theorem reads_superClass (r : Option p.ClassRef) :
    Reads (indexed (superClassAt p.pool)) (bigEndianBytes 2 (superIndex r).toNat)
      (r.map fun r => r.name.text) := by
  apply Reads.indexed
  cases r with
  | none => rfl
  | some r =>
      have hpos : ¬ r.index.toNat = 0 := by
        have := r.index_pos
        omega
      change superClassAt p.pool r.index.toNat = _
      rw [superClassAt, if_neg hpos, r.className]
      rfl

/-- What a class file is made of. -/
structure ClassLayout where
  minorVersion : UInt16
  majorVersion : UInt16
  pool : PoolLayout
  accessFlags : UInt16
  thisClass : pool.ClassRef
  superClass : Option pool.ClassRef
  interfaces : List pool.ClassRef
  fields : List (FieldLayout pool)
  methods : List (MethodLayout pool)
  interfaces_fit : interfaces.length < 65536
  fields_fit : fields.length < 65536
  methods_fit : methods.length < 65536

namespace ClassLayout

/-- The members of a class, each list behind its count. -/
def memberBytes (c : ClassLayout) : List UInt8 :=
  (bigEndianBytes 2 c.interfaces.length ++ c.interfaces.flatMap PoolLayout.ClassRef.bytes) ++
    ((bigEndianBytes 2 c.fields.length ++ c.fields.flatMap FieldLayout.bytes) ++
      (bigEndianBytes 2 c.methods.length ++ c.methods.flatMap MethodLayout.bytes))

/-- The class file up to its last method. -/
def bytes (c : ClassLayout) : List UInt8 :=
  bigEndianBytes 4 0xCAFEBABE ++ (bigEndianBytes 2 c.minorVersion.toNat ++
    (bigEndianBytes 2 c.majorVersion.toNat ++ (c.pool.bytes ++
      (bigEndianBytes 2 c.accessFlags.toNat ++ (c.thisClass.bytes ++
        (bigEndianBytes 2 (superIndex c.superClass).toNat ++ c.memberBytes))))))

def classFile (c : ClassLayout) : ClassFile where
  thisClass := c.thisClass.name.text
  superClass := c.superClass.map fun r => r.name.text
  accessFlags := c.accessFlags.toNat
  interfaces := c.interfaces.map fun r => r.name.text
  fields := c.fields.map FieldLayout.field
  methods := c.methods.map MethodLayout.method
  majorVersion := c.majorVersion.toNat
  minorVersion := c.minorVersion.toNat

theorem reads (c : ClassLayout) : Reads readClassFile c.bytes c.classFile := by
  refine (Reads.unsigned 4 (n := 0xCAFEBABE) (by decide)).bind ?_
  rw [if_neg (by simp)]
  refine (Reads.uint16 c.minorVersion).bind ?_
  refine (Reads.uint16 c.majorVersion).bind ?_
  refine c.pool.reads.bind ?_
  refine (Reads.uint16 c.accessFlags).bind ?_
  refine c.thisClass.reads.bind ?_
  refine (reads_superClass c.superClass).bind ?_
  refine (Reads.counted c.interfaces_fit fun r _ => r.reads).bind ?_
  refine (Reads.counted c.fields_fit fun f _ => f.reads).bind ?_
  exact (Reads.counted c.methods_fit fun m _ => m.reads).bind_pure _

end ClassLayout

/-- A laid out class file is read back, whatever bytes follow its last method. -/
theorem parse_bytes_append (c : ClassLayout) (extra : List UInt8) :
    parse (c.bytes ++ extra) = .ok c.classFile := by
  rw [parse, c.reads extra 0]
  rfl

namespace Sample

def className : TextConstant := ⟨"p/A", by decide, by decide⟩

def fieldName : TextConstant := ⟨"\u00e9", by decide, by decide⟩

def longDescriptor : TextConstant := ⟨"J", by decide, by decide⟩

def attributeName : TextConstant := ⟨"ConstantValue", by decide, by decide⟩

/-- A pool with a wide constant in front of texts and with a constant that is skipped. -/
def pool : PoolLayout where
  constants := [.utf8 className, .classRef 1, .long (-2), .utf8 fieldName, .utf8 longDescriptor,
    .utf8 attributeName, .skipped .methodHandle [1, 0, 9] rfl]
  fits := by decide

def attributeRef : pool.TextRef := ⟨7, attributeName, rfl⟩

/-- A field with an attribute of one byte and a constant value. -/
def field : FieldLayout pool where
  accessFlags := 0x19
  name := ⟨5, fieldName, rfl⟩
  descriptor := ⟨6, longDescriptor, rfl⟩
  attributes := [.other ⟨attributeRef, [0], by decide⟩ (by decide),
    .constant attributeRef ⟨3, .long (-2), rfl⟩ rfl (by decide)]
  fits := by decide

def layout : ClassLayout where
  minorVersion := 0
  majorVersion := 52
  pool := pool
  accessFlags := 0x21
  thisClass := ⟨2, ⟨1, className, rfl⟩, rfl⟩
  superClass := none
  interfaces := []
  fields := [field]
  methods := []
  interfaces_fit := by decide
  fields_fit := by decide
  methods_fit := by decide

end Sample

theorem parse_sampleLayout :
    parse (Sample.layout.bytes ++ [0, 0]) =
      .ok ⟨"p/A", none, 0x21, [], [⟨"\u00e9", "J", 0x19, some (.integer (-2))⟩], [], 52, 0⟩ :=
  parse_bytes_append Sample.layout [0, 0]

end JniHeader.ClassFile
