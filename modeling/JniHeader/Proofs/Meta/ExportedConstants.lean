import JniHeader.Meta.Basic
import JniHeader.Proofs.ClassFile.Yields

/-!
# Exported constants

A field gets its constant value from an entry of the pool, and the descriptor of the
field decides which tag the entry must have. So the value is of the type that the
literal of the descriptor is made from, and an integer is as wide as the descriptor
says. Every constant that a class file exports therefore has a literal: none of the
ways in which a conversion can fail is open to it.
-/
namespace JniHeader

/-- The types whose constants are integers of 32 bits. -/
def integerDescriptors : List Text := ["Z", "B", "C", "S", "I"]

/-- The value is of the type and the width that a constant of the descriptor has. -/
inductive ConstantValue.Fits : Text → ConstantValue → Prop
  | integer {descriptor : Text} {i : ℤ} : descriptor ∈ integerDescriptors → -2 ^ 31 ≤ i →
      i < 2 ^ 31 → Fits descriptor (.integer i)
  | long {i : ℤ} : -2 ^ 63 ≤ i → i < 2 ^ 63 → Fits "J" (.integer i)
  | single (x : FloatDatum) : Fits "F" (.float x)
  | double (x : FloatDatum) : Fits "D" (.float x)
  | string (t : Text) : Fits stringDescriptor (.string t)

namespace ClassFile

/-- What an entry that holds a constant gives. -/
inductive PoolEntry.Gives : PoolEntry → ConstantValue → Prop
  | integer (i : ℤ) : Gives (.integer i) (.integer i)
  | long (i : ℤ) : Gives (.long i) (.integer i)
  | float (x : FloatDatum) : Gives (.float x) (.float x)
  | double (x : FloatDatum) : Gives (.double x) (.float x)
  | string (index : ℕ) (t : Text) : Gives (.string index) (.string t)

namespace ConstantPool

variable {p : ConstantPool} {index : ℕ} {e : PoolEntry} {descriptor : Text} {v : ConstantValue}

theorem gives_of_value (h : p.value index e = .ok v) : e.Gives v := by
  cases e with
  | integer i =>
      obtain rfl := Except.ok.inj h
      exact .integer i
  | long i =>
      obtain rfl := Except.ok.inj h
      exact .long i
  | float x =>
      obtain rfl := Except.ok.inj h
      exact .float x
  | double x =>
      obtain rfl := Except.ok.inj h
      exact .double x
  | string text =>
      change ConstantValue.string <$> p.utf8 text = _ at h
      cases ht : p.utf8 text with
      | error cause =>
          rw [ht] at h
          cases h
      | ok t =>
          rw [ht] at h
          obtain rfl := Except.ok.inj h
          exact .string text t
  | utf8 _ => cases h
  | classRef _ => cases h
  | skipped _ => cases h

/-- The value of a field comes from an entry, which has the tag that the descriptor asks for. -/
theorem exists_entry (h : p.constantValue index descriptor = .ok v) :
    ∃ e, p.slot? index = .ok (some e) ∧ e.Gives v ∧
      ∀ tag ∈ expectedTag? descriptor, e.tag = tag := by
  rw [constantValue] at h
  split at h
  · next e hslot =>
      refine ⟨e, hslot, ?_⟩
      split at h
      · next expected hexpected =>
          split_ifs at h with htag
          refine ⟨gives_of_value h, ?_⟩
          intro tag hmem
          rw [htag]
          exact Option.some.inj (hexpected.symm.trans hmem)
      · next hnone =>
          refine ⟨gives_of_value h, ?_⟩
          intro tag hmem
          rw [hnone] at hmem
          cases hmem
  · cases h

/-- Which tag a constant descriptor asks for. -/
theorem expectedTag?_of_isConstantDescriptor (h : isConstantDescriptor descriptor = true) :
    (descriptor ∈ integerDescriptors ∧ expectedTag? descriptor = some 3) ∨
      (descriptor = "J" ∧ expectedTag? descriptor = some 5) ∨
      (descriptor = "F" ∧ expectedTag? descriptor = some 4) ∨
      (descriptor = "D" ∧ expectedTag? descriptor = some 6) ∨
      (descriptor = stringDescriptor ∧ expectedTag? descriptor = some 8) := by
  rw [isConstantDescriptor, Bool.or_eq_true, List.any_eq_true] at h
  rcases h with ⟨b, -, hb⟩ | hstring
  · obtain rfl := eq_of_beq hb
    cases b <;> decide
  · obtain rfl := eq_of_beq hstring
    decide

/-- The value of a field with a constant type fits the type. -/
theorem fits_of_constantValue (hrange : p.InRange)
    (hdescriptor : isConstantDescriptor descriptor = true)
    (h : p.constantValue index descriptor = .ok v) : v.Fits descriptor := by
  obtain ⟨e, hslot, hgives, htag⟩ := exists_entry h
  have he := hrange.slot hslot
  rcases expectedTag?_of_isConstantDescriptor hdescriptor with
    ⟨hinteger, hexpected⟩ | ⟨rfl, hexpected⟩ | ⟨rfl, hexpected⟩ | ⟨rfl, hexpected⟩ |
      ⟨rfl, hexpected⟩
  all_goals replace htag := htag _ hexpected
  · cases hgives with
    | integer i => exact .integer hinteger he.1 he.2
    | _ => cases htag
  · cases hgives with
    | long i => exact .long he.1 he.2
    | _ => cases htag
  · cases hgives with
    | float x => exact .single x
    | _ => cases htag
  · cases hgives with
    | double x => exact .double x
    | _ => cases htag
  · cases hgives with
    | string _ t => exact .string t
    | _ => cases htag

end ConstantPool

/-- The field's constant value fits its type, if that is a constant type. -/
def Field.Fits (f : Field) : Prop :=
  isConstantDescriptor f.descriptor = true → ∀ v ∈ f.constantValue, v.Fits f.descriptor

theorem readFieldAttributes_yields {pool : ConstantPool} {descriptor : Text}
    {value : Option ConstantValue} {P : ConstantValue → Prop}
    (hpool : ∀ index v, pool.constantValue index descriptor = .ok v → P v)
    (h : ∀ v ∈ value, P v) (count : ℕ) :
    Yields (readFieldAttributes pool descriptor count value) fun value => ∀ v ∈ value, P v := by
  induction count generalizing value with
  | zero => exact .pure h
  | succ count ih =>
      have hattribute : Yields (readFieldAttribute pool descriptor value)
          fun value => ∀ v ∈ value, P v := by
        refine .bind_any fun name => .bind_any fun length => ?_
        split_ifs
        · refine (Yields.indexed hpool).bind fun v hv => .pure ?_
          intro w hw
          obtain rfl := Option.some.inj hw
          exact hv
        · exact .bind_any fun _ => .pure h
      exact hattribute.bind fun value hvalue => ih hvalue

theorem readField_yields {pool : ConstantPool} (hpool : pool.InRange) :
    Yields (readField pool) Field.Fits := by
  refine .bind_any fun flags => .bind_any fun name => .bind_any fun descriptor => ?_
  refine .bind_any fun count => ?_
  have hfits : ∀ index v, pool.constantValue index descriptor = .ok v →
      isConstantDescriptor descriptor = true → v.Fits descriptor :=
    fun index v hv hdescriptor => ConstantPool.fits_of_constantValue hpool hdescriptor hv
  refine (readFieldAttributes_yields hfits (by simp) count).bind fun value hvalue => .pure ?_
  exact fun hdescriptor v hv => hvalue v hv hdescriptor

theorem readClassFile_yields :
    Yields readClassFile fun c => ∀ f ∈ c.fields, f.Fits := by
  refine .bind_any fun magic => ?_
  split_ifs
  · exact .throw _
  · refine .bind_any fun minor => .bind_any fun major => ?_
    refine readPool_yields.bind fun pool hpool => ?_
    refine .bind_any fun flags => .bind_any fun thisClass => .bind_any fun superClass => ?_
    refine .bind_any fun interfaces => ?_
    refine (readField_yields hpool).counted.bind fun fields hfields => ?_
    exact .bind_any fun methods => .pure hfields

theorem fits_of_parse {bytes : List UInt8} {c : ClassFile} (h : parse bytes = .ok c) {f : Field}
    (hf : f ∈ c.fields) : f.Fits := by
  obtain ⟨c', hrun⟩ := exists_run h
  exact readClassFile_yields _ _ _ hrun f hf

end ClassFile

namespace Constant

variable {name descriptor : Text}

theorem literal_integer (h : descriptor ∈ integerDescriptors) (i : ℤ) :
    literal ⟨name, descriptor, .integer i⟩ = .ok (Text.ofInt i) := by
  simp only [integerDescriptors, List.mem_cons, List.not_mem_nil, or_false] at h
  rcases h with rfl | rfl | rfl | rfl | rfl <;> rfl

theorem literal_long (i : ℤ) : literal ⟨name, "J", .integer i⟩ = .ok (Text.ofInt i ++ "LL") := rfl

theorem literal_single (x : FloatDatum) :
    literal ⟨name, "F", .float x⟩ = .ok (singleLiteral x) := rfl

theorem literal_double (x : FloatDatum) :
    literal ⟨name, "D", .float x⟩ = .ok (doubleLiteral x) := rfl

theorem literal_string (t : Text) :
    literal ⟨name, stringDescriptor, .string t⟩ = .ok (StringLiteral.write t) := rfl

theorem exists_literal {c : Constant} (h : c.value.Fits c.descriptor) :
    ∃ t, c.literal = .ok t := by
  obtain ⟨name, descriptor, value⟩ := c
  cases h with
  | integer hdescriptor _ _ => exact ⟨_, literal_integer hdescriptor _⟩
  | long _ _ => exact ⟨_, literal_long _⟩
  | single x => exact ⟨_, literal_single x⟩
  | double x => exact ⟨_, literal_double x⟩
  | string t => exact ⟨_, literal_string t⟩

end Constant

/-- The field of an exported constant has its name, its descriptor, which is that of a constant
type, and its value. -/
theorem ClassFile.Field.of_exported? {f : ClassFile.Field} {x : Constant}
    (h : f.exported? = some x) : f.name = x.name ∧ f.descriptor = x.descriptor ∧
      x.value ∈ f.constantValue ∧ isConstantDescriptor f.descriptor = true := by
  unfold exported? at h
  split at h
  · next value hvalue =>
      split_ifs at h with hflags
      obtain rfl := Option.some.inj h
      exact ⟨rfl, rfl, hvalue, (Bool.and_eq_true_iff.1 hflags).2⟩
  · cases h

namespace ClassMeta

variable {bytes : List UInt8} {m : ClassMeta} {x : Constant}

theorem exists_classFile (h : ClassMeta.parse bytes = .ok m) :
    ∃ c, ClassFile.parse bytes = .ok c ∧ m = ofClassFile c := by
  rw [ClassMeta.parse] at h
  cases hclass : ClassFile.parse bytes with
  | error e =>
      rw [hclass] at h
      cases h
  | ok c =>
      rw [hclass] at h
      exact ⟨c, rfl, (Except.ok.inj h).symm⟩

/-- An exported constant is a field with a value and a constant type. -/
theorem exists_field (h : ClassMeta.parse bytes = .ok m) (hx : x ∈ m.constants) :
    ∃ c, ClassFile.parse bytes = .ok c ∧ ∃ f ∈ c.fields, f.descriptor = x.descriptor ∧
      x.value ∈ f.constantValue ∧ isConstantDescriptor f.descriptor = true := by
  obtain ⟨c, hc, rfl⟩ := exists_classFile h
  obtain ⟨f, hf, hexported⟩ := List.mem_filterMap.1 hx
  exact ⟨c, hc, f, hf, (ClassFile.Field.of_exported? hexported).2⟩

/-- Every constant that a class file exports has a value that fits its type. -/
theorem fits_of_parse (h : ClassMeta.parse bytes = .ok m) (hx : x ∈ m.constants) :
    x.value.Fits x.descriptor := by
  obtain ⟨c, hc, f, hf, hdescriptor, hvalue, hconstant⟩ := exists_field h hx
  rw [← hdescriptor]
  exact ClassFile.fits_of_parse hc hf hconstant x.value hvalue

/-- Every constant that a class file exports has its lines. -/
theorem exists_lines (h : ClassMeta.parse bytes = .ok m) (hx : x ∈ m.constants)
    (mangled : Text) : ∃ ls, x.lines mangled = .ok ls := by
  obtain ⟨t, ht⟩ := Constant.exists_literal (fits_of_parse h hx)
  rw [Constant.lines, ht]
  exact ⟨_, rfl⟩

end ClassMeta

end JniHeader
