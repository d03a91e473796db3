import JniHeader.ClassFile.Reader

/-!
# Constant pools

A pool is a table of slots numbered from zero; slot zero is empty, and so is the
slot after a long or a double. Entries whose contents no header needs keep their
tag alone.
-/
namespace JniHeader.ClassFile

inductive PoolEntry where
  | utf8 (text : Text)
  | integer (i : Int)
  | float (x : FloatDatum)
  | long (i : Int)
  | double (x : FloatDatum)
  | classRef (name : Nat)
  | string (text : Nat)
  | skipped (tag : Nat)
deriving DecidableEq, Repr

namespace PoolEntry

def tag : PoolEntry → Nat
  | .utf8 _ => 1
  | .integer _ => 3
  | .float _ => 4
  | .long _ => 5
  | .double _ => 6
  | .classRef _ => 7
  | .string _ => 8
  | .skipped tag => tag

/-- Longs and doubles take two slots. -/
def isWide : PoolEntry → Bool
  | .long _ | .double _ => true
  | _ => false

end PoolEntry

/-- The payload size of an entry that is skipped: references to members, method handles and
types, dynamic constants, modules and packages. -/
def skippedSize? : Nat → Option Nat
  | 9 | 10 | 11 | 12 | 17 | 18 => some 4
  | 15 => some 3
  | 16 | 19 | 20 => some 2
  | _ => none

def readUtf8 : Reader Text := do
  let size ← unsigned 2
  let bytes ← take size
  match ModifiedUtf8.decode bytes with
  | .ok text => pure text
  | .error fault => throw (.malformedUtf8 fault)

/-- Read the entry at slot `index`. -/
def readEntry (index : Nat) : Reader PoolEntry := do
  let tag ← unsigned 1
  match tag with
  | 1 => .utf8 <$> readUtf8
  | 3 => .integer <$> signed 4
  | 4 => (fun bits => .float (binary32.decode bits)) <$> unsigned 4
  | 5 => .long <$> signed 8
  | 6 => (fun bits => .double (binary64.decode bits)) <$> unsigned 8
  | 7 => .classRef <$> unsigned 2
  | 8 => .string <$> unsigned 2
  | _ =>
    match skippedSize? tag with
    | some size => do
      let _ ← take size
      pure (.skipped tag)
    | none => throw (.unknownTag tag index)

abbrev Slots := List (Option PoolEntry)

/-- Read entries into `count` slots, the first of which is `index`. A wide entry may end in the
slot after the last. -/
def readSlots : (count index : Nat) → Reader Slots
  | 0, _ => pure []
  | count + 1, index => do
    let entry ← readEntry index
    if entry.isWide then
      match count with
      | 0 => pure [some entry]
      | count' + 1 => do
        let slots ← readSlots count' (index + 2)
        pure (some entry :: none :: slots)
    else
      let slots ← readSlots count (index + 1)
      pure (some entry :: slots)

structure ConstantPool where
  slots : Slots

/-- The count in front of a pool includes the empty slot zero. -/
def readPool : Reader ConstantPool := do
  let count ← unsigned 2
  let slots ← readSlots (count - 1) 1
  pure ⟨none :: slots⟩

namespace ConstantPool

/-- The entry at an index, none for an empty slot. -/
def slot? (p : ConstantPool) (index : Nat) : Except ParseError (Option PoolEntry) :=
  if 0 < index ∧ index < p.slots.length then .ok (p.slots[index]?.join)
  else .error (.indexOutOfRange index)

def utf8 (p : ConstantPool) (index : Nat) : Except ParseError Text :=
  match p.slot? index with
  | .ok (some (.utf8 text)) => .ok text
  | .ok _ => .error (.wrongTag index 1)
  | .error e => .error e

/-- The name of the class at an index. -/
def className (p : ConstantPool) (index : Nat) : Except ParseError Text :=
  match p.slot? index with
  | .ok (some (.classRef name)) => p.utf8 name
  | .ok _ => .error (.wrongTag index 7)
  | .error e => .error e

/-- The tag of the entry that gives a field of this descriptor its constant value. -/
def expectedTag? (descriptor : Text) : Option Nat :=
  if descriptor = "J" then some 5
  else if descriptor = "F" then some 4
  else if descriptor = "D" then some 6
  else if descriptor = stringDescriptor then some 8
  else if descriptor = "Z" ∨ descriptor = "B" ∨ descriptor = "C" ∨ descriptor = "S"
      ∨ descriptor = "I" then some 3
  else none

/-- The value of an entry that holds a constant. -/
def value (p : ConstantPool) (index : Nat) : PoolEntry → Except ParseError ConstantValue
  | .string text => .string <$> p.utf8 text
  | .integer i | .long i => .ok (.integer i)
  | .float x | .double x => .ok (.float x)
  | e => .error (.notAConstant index e.tag)

/-- The constant at an index, for a field of the given descriptor. -/
def constantValue (p : ConstantPool) (index : Nat) (descriptor : Text) :
    Except ParseError ConstantValue :=
  match p.slot? index with
  | .ok (some e) =>
    match expectedTag? descriptor with
    | some expected =>
      if e.tag = expected then p.value index e
      else .error (.constantTag index e.tag expected descriptor)
    | none => p.value index e
  | _ => .error (.badConstantIndex index)

end ConstantPool

end JniHeader.ClassFile
