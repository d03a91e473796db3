import JniHeader.Proofs.ClassFile.PoolLayout

/-!
# References into a constant pool

A reference is an index together with the constant that is laid out there. What
it stands for is read back from the index alone: the text, the name of the class,
or the value of a constant, which must have the tag that the descriptor of its
field asks for.
-/
namespace JniHeader.ClassFile

namespace PoolLayout

variable {p : PoolLayout}

/-- An index at which a text is laid out. -/
structure TextRef (p : PoolLayout) where
  index : UInt16
  constant : TextConstant
  holds : constantAt p.constants index.toNat = some (.utf8 constant)

namespace TextRef

def text (r : p.TextRef) : Text := r.constant.text

def bytes (r : p.TextRef) : List UInt8 := bigEndianBytes 2 r.index.toNat

theorem utf8 (r : p.TextRef) : p.pool.utf8 r.index.toNat = .ok r.text := by
  rw [ConstantPool.utf8, slot?_of_constantAt r.holds]
  rfl

theorem reads (r : p.TextRef) : Reads (indexed p.pool.utf8) r.bytes r.text := Reads.indexed r.utf8

end TextRef

/-- An index at which the class of a name is laid out. -/
structure ClassRef (p : PoolLayout) where
  index : UInt16
  name : p.TextRef
  holds : constantAt p.constants index.toNat = some (.classRef name.index)

namespace ClassRef

def bytes (r : p.ClassRef) : List UInt8 := bigEndianBytes 2 r.index.toNat

theorem className (r : p.ClassRef) : p.pool.className r.index.toNat = .ok r.name.text := by
  rw [ConstantPool.className, slot?_of_constantAt r.holds]
  exact r.name.utf8

theorem reads (r : p.ClassRef) : Reads (indexed p.pool.className) r.bytes r.name.text :=
  Reads.indexed r.className

theorem index_pos (r : p.ClassRef) : 0 < r.index.toNat := (getElem?_slotsOf r.holds).1

end ClassRef

/-- A value that a constant of the pool can give to a field. -/
inductive Literal (p : PoolLayout) where
  | integer (i : Int32)
  | float (x : binary32.Pattern)
  | long (i : Int64)
  | double (x : binary64.Pattern)
  | string (text : p.TextRef)

namespace Literal

def constant : p.Literal → PoolConstant
  | .integer i => .integer i
  | .float x => .float x
  | .long i => .long i
  | .double x => .double x
  | .string text => .string text.index

def value : p.Literal → ConstantValue
  | .integer i => .integer i.toInt
  | .float x => .float x.datum
  | .long i => .integer i.toInt
  | .double x => .float x.datum
  | .string text => .string text.text

theorem value_entry (l : p.Literal) (index : ℕ) :
    p.pool.value index l.constant.entry = .ok l.value := by
  cases l with
  | string text =>
      change ConstantValue.string <$> p.pool.utf8 text.index.toNat = _
      rw [text.utf8]
      rfl
  | _ => rfl

/-- The tags that the types of constants ask for. -/
def tagTable : List (Text × ℕ) :=
  [("Z", 3), ("B", 3), ("C", 3), ("S", 3), ("I", 3), ("J", 5), ("F", 4), ("D", 6),
    ("Ljava/lang/String;", 8)]

/-- The literal has the tag that the descriptor asks for, if it asks for one. -/
def Suits (l : p.Literal) (descriptor : Text) : Prop :=
  ∀ row ∈ tagTable, row.1 = descriptor → l.constant.tag = row.2

instance (l : p.Literal) (descriptor : Text) : Decidable (l.Suits descriptor) :=
  inferInstanceAs (Decidable (∀ row ∈ tagTable, row.1 = descriptor → l.constant.tag = row.2))

end Literal

theorem expectedTag?_mem {descriptor : Text} {tag : ℕ}
    (h : ConstantPool.expectedTag? descriptor = some tag) :
    (descriptor, tag) ∈ Literal.tagTable := by
  unfold ConstantPool.expectedTag? at h
  split_ifs at h with hlong hfloat hdouble hstring hinteger
  · rw [hlong, ← Option.some.inj h]
    decide
  · rw [hfloat, ← Option.some.inj h]
    decide
  · rw [hdouble, ← Option.some.inj h]
    decide
  · rw [hstring, ← Option.some.inj h]
    decide
  · rw [← Option.some.inj h]
    rcases hinteger with rfl | rfl | rfl | rfl | rfl <;> decide

/-- An index at which a literal is laid out. -/
structure LiteralRef (p : PoolLayout) where
  index : UInt16
  literal : p.Literal
  holds : constantAt p.constants index.toNat = some literal.constant

namespace LiteralRef

def bytes (r : p.LiteralRef) : List UInt8 := bigEndianBytes 2 r.index.toNat

theorem constantValue (r : p.LiteralRef) {descriptor : Text} (h : r.literal.Suits descriptor) :
    p.pool.constantValue r.index.toNat descriptor = .ok r.literal.value := by
  have hvalue := r.literal.value_entry r.index.toNat
  simp only [ConstantPool.constantValue, slot?_of_constantAt r.holds]
  split
  · next tag htag =>
      have htagged : r.literal.constant.tag = tag := h _ (expectedTag?_mem htag) rfl
      rw [if_pos (r.literal.constant.tag_entry.trans htagged)]
      exact hvalue
  · exact hvalue

theorem reads (r : p.LiteralRef) {descriptor : Text} (h : r.literal.Suits descriptor) :
    Reads (indexed fun index => p.pool.constantValue index descriptor) r.bytes r.literal.value :=
  Reads.indexed (r.constantValue h)

end LiteralRef

end PoolLayout

end JniHeader.ClassFile
