import JniHeader.Proofs.ClassFile.Reads
import JniHeader.Proofs.Number.Pattern
import JniHeader.Proofs.Text.Utf8

/-!
# The layout of a constant pool

The constants of a pool are written one after the other. An index counts the
widths of the constants in front of it, where a long or a double is two wide, so
the constant at an index is found along the list. The slots that are read from
the bytes hold at each index the entry of the constant that is laid out there.
-/
namespace JniHeader.ClassFile

/-- A joined text with as many bytes as a two-byte length can count. -/
structure TextConstant where
  text : Text
  joined : text.Joined
  fits : (ModifiedUtf8.encode text.units).length < 65536

/-- The constants whose payload is skipped. -/
inductive SkippedKind where
  | fieldRef
  | methodRef
  | interfaceMethodRef
  | nameAndType
  | methodHandle
  | methodType
  | dynamic
  | invokeDynamic
  | module
  | package

namespace SkippedKind

def tag : SkippedKind → ℕ
  | .fieldRef => 9
  | .methodRef => 10
  | .interfaceMethodRef => 11
  | .nameAndType => 12
  | .methodHandle => 15
  | .methodType => 16
  | .dynamic => 17
  | .invokeDynamic => 18
  | .module => 19
  | .package => 20

def payloadSize : SkippedKind → ℕ
  | .fieldRef | .methodRef | .interfaceMethodRef | .nameAndType | .dynamic | .invokeDynamic => 4
  | .methodHandle => 3
  | .methodType | .module | .package => 2

end SkippedKind

inductive PoolConstant where
  | utf8 (c : TextConstant)
  | integer (i : Int32)
  | float (x : binary32.Pattern)
  | long (i : Int64)
  | double (x : binary64.Pattern)
  | classRef (name : UInt16)
  | string (text : UInt16)
  | skipped (kind : SkippedKind) (payload : List UInt8) (fits : payload.length = kind.payloadSize)

namespace PoolConstant

/-- What the pool keeps of a constant. -/
def entry : PoolConstant → PoolEntry
  | .utf8 c => .utf8 c.text
  | .integer i => .integer i.toInt
  | .float x => .float x.datum
  | .long i => .long i.toInt
  | .double x => .double x.datum
  | .classRef name => .classRef name.toNat
  | .string text => .string text.toNat
  | .skipped kind _ _ => .skipped kind.tag

def payload : PoolConstant → List UInt8
  | .utf8 c =>
    bigEndianBytes 2 (ModifiedUtf8.encode c.text.units).length ++ ModifiedUtf8.encode c.text.units
  | .integer i => bigEndianBytes 4 i.toUInt32.toNat
  | .float x => bigEndianBytes 4 x.bits
  | .long i => bigEndianBytes 8 i.toUInt64.toNat
  | .double x => bigEndianBytes 8 x.bits
  | .classRef name => bigEndianBytes 2 name.toNat
  | .string text => bigEndianBytes 2 text.toNat
  | .skipped _ payload _ => payload

def tag : PoolConstant → ℕ
  | .utf8 _ => 1
  | .integer _ => 3
  | .float _ => 4
  | .long _ => 5
  | .double _ => 6
  | .classRef _ => 7
  | .string _ => 8
  | .skipped kind _ _ => kind.tag

def bytes (c : PoolConstant) : List UInt8 := bigEndianBytes 1 c.tag ++ c.payload

/-- How many indices a constant takes. -/
def width : PoolConstant → ℕ
  | .long _ | .double _ => 2
  | _ => 1

theorem tag_lt (c : PoolConstant) : c.tag < 256 ^ 1 := by
  cases c with
  | skipped kind payload fits => cases kind <;> simp [tag, SkippedKind.tag]
  | _ => simp [tag]

theorem tag_entry (c : PoolConstant) : c.entry.tag = c.tag := by
  cases c <;> rfl

theorem isWide_entry (c : PoolConstant) : c.entry.isWide = decide (c.width = 2) := by
  cases c <;> rfl

theorem width_eq (c : PoolConstant) : c.width = 1 ∨ c.width = 2 := by
  cases c <;> simp [width]

end PoolConstant

/-- The constants are written one after the other. -/
def totalWidth (cs : List PoolConstant) : ℕ := (cs.map PoolConstant.width).sum

/-- The slots that constants take, an empty one behind each wide constant. -/
def slotsOf (cs : List PoolConstant) : Slots :=
  cs.flatMap fun c => some c.entry :: List.replicate (c.width - 1) none

namespace Reads

theorem utf8 (c : TextConstant) :
    Reads readUtf8 (bigEndianBytes 2 (ModifiedUtf8.encode c.text.units).length ++
      ModifiedUtf8.encode c.text.units) c.text := by
  refine (Reads.unsigned 2 c.fits).bind ?_
  refine (Reads.take _).bind_nil ?_
  rw [ModifiedUtf8.decode_encode_units c.joined]
  exact Reads.pure c.text

theorem float (x : binary32.Pattern) :
    Reads ((fun bits => PoolEntry.float (binary32.decode bits)) <$> ClassFile.unsigned 4)
      (bigEndianBytes 4 x.bits) (.float x.datum) := by
  have hlt : x.bits < 256 ^ 4 := x.bits_lt (by decide)
  have hread := (Reads.unsigned 4 hlt).map fun bits => PoolEntry.float (binary32.decode bits)
  rw [x.decode_bits (by decide)] at hread
  exact hread

theorem double (x : binary64.Pattern) :
    Reads ((fun bits => PoolEntry.double (binary64.decode bits)) <$> ClassFile.unsigned 8)
      (bigEndianBytes 8 x.bits) (.double x.datum) := by
  have hlt : x.bits < 256 ^ 8 := x.bits_lt (by decide)
  have hread := (Reads.unsigned 8 hlt).map fun bits => PoolEntry.double (binary64.decode bits)
  rw [x.decode_bits (by decide)] at hread
  exact hread

theorem skipped (kind : SkippedKind) {payload : List UInt8}
    (fits : payload.length = kind.payloadSize) (index : ℕ) :
    Reads (readEntry index) (bigEndianBytes 1 kind.tag ++ payload) (.skipped kind.tag) := by
  have htake := (Reads.take payload).bind_pure fun _ => PoolEntry.skipped kind.tag
  rw [fits] at htake
  cases kind <;> exact (Reads.unsigned 1 (by decide)).bind htake

/-- A constant is read back at any index. -/
theorem entry (c : PoolConstant) (index : ℕ) : Reads (readEntry index) c.bytes c.entry := by
  have htag := Reads.unsigned 1 c.tag_lt
  cases c with
  | utf8 c => exact htag.bind ((Reads.utf8 c).map _)
  | integer i => exact htag.bind ((Reads.int32 i).map _)
  | float x => exact htag.bind (Reads.float x)
  | long i => exact htag.bind ((Reads.int64 i).map _)
  | double x => exact htag.bind (Reads.double x)
  | classRef name => exact htag.bind ((Reads.uint16 name).map _)
  | string text => exact htag.bind ((Reads.uint16 text).map _)
  | skipped kind payload fits => exact Reads.skipped kind fits index

/-- Constants are read back into as many slots as they are wide. -/
theorem slots (cs : List PoolConstant) (index : ℕ) :
    Reads (readSlots (totalWidth cs) index) (cs.flatMap PoolConstant.bytes) (slotsOf cs) := by
  induction cs generalizing index with
  | nil => exact Reads.pure []
  | cons c cs ih =>
      have hread := Reads.entry c index
      have hwide := c.isWide_entry
      rcases c.width_eq with hwidth | hwidth
      · have htotal : totalWidth (c :: cs) = totalWidth cs + 1 := by
          rw [totalWidth, List.map_cons, List.sum_cons, hwidth, Nat.add_comm, totalWidth]
        have hslots : slotsOf (c :: cs) = some c.entry :: slotsOf cs := by
          simp [slotsOf, hwidth]
        rw [htotal, hslots, List.flatMap_cons, readSlots]
        refine hread.bind ?_
        rw [if_neg (by simp [hwide, hwidth])]
        exact (ih (index + 1)).bind_pure _
      -- The slot behind a wide constant is empty, and the rest starts two indices on.
      · have htotal : totalWidth (c :: cs) = totalWidth cs + 2 := by
          rw [totalWidth, List.map_cons, List.sum_cons, hwidth, Nat.add_comm, totalWidth]
        have hslots : slotsOf (c :: cs) = some c.entry :: none :: slotsOf cs := by
          simp [slotsOf, hwidth]
        rw [htotal, hslots, List.flatMap_cons, readSlots]
        refine hread.bind ?_
        rw [if_pos (by simp [hwide, hwidth])]
        exact (ih (index + 2)).bind_pure _

end Reads

/-- The constant that is laid out at an index. -/
def constantAt : List PoolConstant → ℕ → Option PoolConstant
  | [], _ => none
  | c :: cs, index => if index = 1 then some c else constantAt cs (index - c.width)

theorem slotsOf_cons (c : PoolConstant) (cs : List PoolConstant) :
    slotsOf (c :: cs) = (some c.entry :: List.replicate (c.width - 1) none) ++ slotsOf cs := rfl

/-- The slot of a constant holds its entry. -/
theorem getElem?_slotsOf {cs : List PoolConstant} {index : ℕ} {c : PoolConstant}
    (h : constantAt cs index = some c) :
    0 < index ∧ (slotsOf cs)[index - 1]? = some (some c.entry) := by
  induction cs generalizing index with
  | nil => cases h
  | cons d cs ih =>
      rw [constantAt] at h
      split_ifs at h with hindex
      · obtain rfl : d = c := Option.some.inj h
        rw [hindex]
        exact ⟨Nat.one_pos, rfl⟩
      · obtain ⟨hpos, hslot⟩ := ih h
        have hlength : (some d.entry :: List.replicate (d.width - 1) none).length = d.width := by
          rcases d.width_eq with hwidth | hwidth <;> simp [hwidth]
        refine ⟨by omega, ?_⟩
        rw [slotsOf_cons, List.getElem?_append_right (by rw [hlength]; omega), hlength, ← hslot]
        congr 1
        omega

/-- Constants that leave room for the empty slot zero in a two-byte count. -/
structure PoolLayout where
  constants : List PoolConstant
  fits : totalWidth constants + 1 < 65536

namespace PoolLayout

def bytes (p : PoolLayout) : List UInt8 :=
  bigEndianBytes 2 (totalWidth p.constants + 1) ++ p.constants.flatMap PoolConstant.bytes

def pool (p : PoolLayout) : ConstantPool := ⟨none :: slotsOf p.constants⟩

theorem reads (p : PoolLayout) : Reads readPool p.bytes p.pool := by
  refine (Reads.unsigned 2 p.fits).bind ?_
  exact (Reads.slots p.constants 1).bind_pure fun slots => ConstantPool.mk (none :: slots)

variable {p : PoolLayout}

theorem slot?_of_constantAt {index : ℕ} {c : PoolConstant}
    (h : constantAt p.constants index = some c) : p.pool.slot? index = .ok (some c.entry) := by
  obtain ⟨hpos, hslot⟩ := getElem?_slotsOf h
  obtain ⟨hlt, -⟩ := List.getElem?_eq_some_iff.1 hslot
  obtain ⟨k, rfl⟩ : ∃ k, index = k + 1 := ⟨index - 1, by omega⟩
  have hrange : 0 < k + 1 ∧ k + 1 < p.pool.slots.length := by
    change 0 < k + 1 ∧ k + 1 < (slotsOf p.constants).length + 1
    omega
  have hentry : p.pool.slots[k + 1]? = some (some c.entry) := hslot
  rw [ConstantPool.slot?, if_pos hrange, hentry]
  rfl

end PoolLayout

end JniHeader.ClassFile
