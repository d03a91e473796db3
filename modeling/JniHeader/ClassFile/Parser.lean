import JniHeader.ClassFile.Pool

/-!
# Reading class files

The structure of a class file from its bytes. Attributes other than constant
values are skipped unread, and bytes after the last method are ignored.
-/
namespace JniHeader.ClassFile

/-- A two-byte index and what the pool holds there. -/
def indexed {α : Type} (find : Nat → Except ParseError α) : Reader α := do
  let index ← unsigned 2
  find index

/-- One attribute of a field; a two-byte `ConstantValue` replaces the value found so far. -/
def readFieldAttribute (pool : ConstantPool) (descriptor : Text) (value : Option ConstantValue) :
    Reader (Option ConstantValue) := do
  let name ← indexed pool.utf8
  let length ← unsigned 4
  if name = "ConstantValue" ∧ length = 2 then
    let value ← indexed fun index => pool.constantValue index descriptor
    pure (some value)
  else
    let _ ← take length
    pure value

/-- The attributes of a field, of which the last constant value counts. -/
def readFieldAttributes (pool : ConstantPool) (descriptor : Text) :
    (count : Nat) → Option ConstantValue → Reader (Option ConstantValue)
  | 0, value => pure value
  | count + 1, value => do
    let value ← readFieldAttribute pool descriptor value
    readFieldAttributes pool descriptor count value

def readField (pool : ConstantPool) : Reader Field := do
  let accessFlags ← unsigned 2
  let name ← indexed pool.utf8
  let descriptor ← indexed pool.utf8
  let count ← unsigned 2
  let constantValue ← readFieldAttributes pool descriptor count none
  pure ⟨name, descriptor, accessFlags, constantValue⟩

/-- An attribute of a method is skipped once its name is known to be a text. -/
def skipAttribute (pool : ConstantPool) : Reader Unit := do
  let _ ← indexed pool.utf8
  let length ← unsigned 4
  let _ ← take length
  pure ()

def readMethod (pool : ConstantPool) : Reader Method := do
  let accessFlags ← unsigned 2
  let name ← indexed pool.utf8
  let descriptor ← indexed pool.utf8
  let _ ← counted (skipAttribute pool)
  pure ⟨name, descriptor, accessFlags⟩

/-- Index zero stands for the absence of a superclass. -/
def superClassAt (pool : ConstantPool) (index : Nat) : Except ParseError (Option Text) :=
  if index = 0 then .ok none else some <$> pool.className index

def readClassFile : Reader ClassFile := do
  let magic ← unsigned 4
  if magic ≠ 0xCAFEBABE then throw (.badMagic magic)
  let minorVersion ← unsigned 2
  let majorVersion ← unsigned 2
  let pool ← readPool
  let accessFlags ← unsigned 2
  let thisClass ← indexed pool.className
  let superClass ← indexed (superClassAt pool)
  let interfaces ← counted (indexed pool.className)
  let fields ← counted (readField pool)
  let methods ← counted (readMethod pool)
  pure ⟨thisClass, superClass, accessFlags, interfaces, fields, methods, majorVersion,
    minorVersion⟩

/-- Read a class file. -/
def parse (bytes : List UInt8) : Except ParseError ClassFile :=
  (readClassFile ⟨bytes, 0⟩).map (·.1)

/-- The superclass of a class file, none for a class without one. -/
def superClassOf (bytes : List UInt8) : Except ParseError (Option QualifiedName) :=
  (parse bytes).map fun c => c.superClass.map QualifiedName.ofBinary

end JniHeader.ClassFile
