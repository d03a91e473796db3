import JniHeader.Proofs.ClassFile.StoredValues
import JniHeader.Proofs.Text.CNumerals
import Mathlib.Algebra.Order.Group.Unbundled.Int
import Mathlib.Data.List.Forall2

/-!
# Literals of integers

C has no negative constants, so a negative integer is written as the negation of its
magnitude, and this is what has to fit a type. The magnitudes of all integers of 32 bits
do. Among those of 64 bits the least has one that no signed type holds: two to the 63rd.
Hence the literal of every other integer in a class file is read as the value that is
stored there, and the one of the least long is not a constant expression.
-/
namespace JniHeader

namespace CNumeral

/-- An integer is read back from its text if a constant of C can have its magnitude. -/
theorem expression?_ofInt (i : ℤ) (long : Bool) :
    expression? (Text.ofInt i ++ integerSuffix long) =
      if i.natAbs ≤ maxInteger then some (i, long) else none := by
  cases i with
  | ofNat n =>
      obtain ⟨c, t, hdigits⟩ := List.exists_cons_of_ne_nil (Text.ofNat_ne_nil n)
      have hdigit : c.isAsciiDigit = true := by
        have honly := Text.only_ofNat n
        rw [hdigits] at honly
        exact (Text.only_cons.1 honly).1
      have hminus : c ≠ '-' := by
        rintro rfl
        exact absurd hdigit (by decide)
      have hread := integer?_ofNat (n := n) long
      rw [hdigits] at hread
      change expression? (Text.ofNat n ++ integerSuffix long) = _
      rw [hdigits, List.cons_append, expression?, if_neg hminus, ← List.cons_append, hread]
      change _ = if n ≤ maxInteger then some ((n : ℤ), long) else none
      split_ifs <;> rfl
  | negSucc n =>
      change expression? (CodePoint.ofChar '-' :: (Text.ofNat (n + 1) ++ integerSuffix long)) = _
      rw [expression?, if_pos rfl, integer?_ofNat]
      change _ = if n + 1 ≤ maxInteger then some (Int.negSucc n, long) else none
      split_ifs <;> rfl

end CNumeral

open CNumeral

theorem ne_long_of_integer {descriptor : Text} (h : descriptor ∈ integerDescriptors) :
    descriptor ≠ "J" := by
  rintro rfl
  exact absurd h (by decide)

/-- Of all integers that fit their types, only the least long has a magnitude that is too large. -/
theorem ConstantValue.Fits.exists_integer {descriptor : Text} {v : ConstantValue}
    (h : v.Fits descriptor) (hdescriptor : descriptor ∈ integerDescriptors ∨ descriptor = "J") :
    ∃ i, v = .integer i ∧
      (i.natAbs ≤ maxInteger ↔ ¬ (descriptor = "J" ∧ i = -2 ^ 63)) := by
  have hmax : maxInteger = 2 ^ 63 - 1 := rfl
  cases h with
  | @integer _ i hinteger hlow hhigh =>
      have hsmall : i.natAbs ≤ maxInteger := by omega
      refine ⟨i, rfl, iff_of_true hsmall ?_⟩
      exact fun hleast => ne_long_of_integer hinteger hleast.1
  | @long i hlow hhigh =>
      refine ⟨i, rfl, ?_⟩
      rw [eq_self_iff_true, true_and, hmax]
      omega
  | single x => exact absurd hdescriptor (by decide)
  | double x => exact absurd hdescriptor (by decide)
  | string t => exact absurd hdescriptor (by decide)

/-- The tag of an integer constant. -/
theorem expectedTag?_of_integer {descriptor : Text}
    (h : descriptor ∈ integerDescriptors ∨ descriptor = "J") :
    ClassFile.ConstantPool.expectedTag? descriptor =
      some (if descriptor = "J" then 5 else 3) := by
  rcases h with h | rfl
  · simp only [integerDescriptors, List.mem_cons, List.not_mem_nil, or_false] at h
    rcases h with rfl | rfl | rfl | rfl | rfl <;> rfl
  · rfl

/-- The text of an integer with the suffix of its type. -/
theorem Constant.literal_ofInt {x : Constant} {i : ℤ} (hvalue : x.value = .integer i)
    (hdescriptor : x.descriptor ∈ integerDescriptors ∨ x.descriptor = "J") :
    x.literal = .ok (Text.ofInt i ++ integerSuffix (x.descriptor = "J")) := by
  obtain ⟨name, descriptor, value⟩ := x
  obtain rfl : value = .integer i := hvalue
  rcases hdescriptor with hinteger | hlong
  · have hshort : ¬ descriptor = "J" := ne_long_of_integer hinteger
    rw [literal_integer hinteger, decide_eq_false hshort]
    exact congrArg Except.ok (List.append_nil _).symm
  · obtain rfl : descriptor = "J" := hlong
    rfl

namespace ClassMeta

open ClassFile (StoredClass StoredMember HoldsText twosComplement)

/-- The constants of a class stand for some of its fields, in the same order. -/
theorem forall₂_exported {R : StoredMember → ClassFile.Field → Prop} {stored : List StoredMember}
    {fields : List ClassFile.Field} (h : List.Forall₂ R stored fields) :
    ∃ fs : List StoredMember, fs.Sublist stored ∧
      List.Forall₂ (fun (x : Constant) f => ∃ g ∈ fields, g.exported? = some x ∧ R f g)
        (fields.filterMap ClassFile.Field.exported?) fs := by
  induction h with
  | nil => exact ⟨[], .slnil, .nil⟩
  | @cons f g stored fields hfirst _ ih =>
      obtain ⟨fs, hsublist, hrest⟩ := ih
      have hlater : List.Forall₂ (fun (x : Constant) f =>
          ∃ g' ∈ g :: fields, g'.exported? = some x ∧ R f g')
          (fields.filterMap ClassFile.Field.exported?) fs :=
        hrest.imp fun x f ⟨g', hmem, hg'⟩ => ⟨g', List.mem_cons_of_mem g hmem, hg'⟩
      cases hg : g.exported? with
      | none =>
          rw [List.filterMap_cons_none hg]
          exact ⟨fs, hsublist.cons f, hlater⟩
      | some x =>
          rw [List.filterMap_cons_some hg]
          exact ⟨f :: fs, hsublist.cons_cons f, .cons ⟨g, List.mem_cons_self, hg, hfirst⟩ hlater⟩

/-- The literal of an integer constant is a constant expression for the value that stands in the
class file, in the constant that the last `ConstantValue` attribute of the field names. Only for
the least long it is none. -/
theorem integer_literal_denotes {bytes : List UInt8} {m : ClassMeta}
    (h : ClassMeta.parse bytes = .ok m) :
    ∃ (s : StoredClass) (extra : List UInt8) (fields : List StoredMember),
      bytes = s.bytes ++ extra ∧ fields.Sublist s.fields ∧
      List.Forall₂ (fun (x : Constant) f =>
        HoldsText s.constants f.name x.name ∧ HoldsText s.constants f.descriptor x.descriptor ∧
        (x.descriptor ∈ integerDescriptors ∨ x.descriptor = "J" →
          ∃ c t, f.HasConstant s.constants c ∧
            c.tag.toNat = (if x.descriptor = "J" then 5 else 3) ∧
            x.value = .integer (twosComplement c.payload) ∧ x.literal = .ok t ∧
            (∀ className, x.lines className = .ok ["#undef " ++ x.macroName className,
              "#define " ++ x.macroName className ++ " " ++ t]) ∧
            expression? t =
              if x.descriptor = "J" ∧ twosComplement c.payload = -2 ^ 63 then none
              else some (twosComplement c.payload, decide (x.descriptor = "J"))))
        m.constants fields := by
  obtain ⟨file, hfile, rfl⟩ := exists_classFile h
  obtain ⟨s, extra, hbytes, hfields⟩ := ClassFile.exists_stored hfile
  obtain ⟨fields, hsublist, hconstants⟩ := forall₂_exported hfields
  refine ⟨s, extra, fields, hbytes, hsublist, hconstants.imp ?_⟩
  rintro x f ⟨g, hg, hexported, hname, hdescriptor, hvalue⟩
  obtain ⟨hx, htype, hgiven, hconstant⟩ := ClassFile.Field.of_exported? hexported
  obtain ⟨c, hc, htag, hpayload⟩ := hvalue x.value hgiven
  have hfits := ClassFile.fits_of_parse hfile hg hconstant x.value hgiven
  rw [hx] at hname
  rw [htype] at hdescriptor htag hfits
  refine ⟨hname, hdescriptor, fun hinteger => ?_⟩
  obtain ⟨i, hi, hmagnitude⟩ := hfits.exists_integer hinteger
  obtain rfl := hpayload i hi
  have hliteral := Constant.literal_ofInt hi hinteger
  have hexpected := htag _ (expectedTag?_of_integer hinteger)
  refine ⟨c, _, hc, hexpected, hi, hliteral, fun className => ?_, ?_⟩
  · rw [Constant.lines, hliteral]
    rfl
  · rw [expression?_ofInt]
    by_cases hleast : x.descriptor = "J" ∧ twosComplement c.payload = -2 ^ 63
    · rw [if_pos hleast, if_neg fun hfit => hmagnitude.1 hfit hleast]
    · rw [if_neg hleast, if_pos (hmagnitude.2 hleast)]

/-- A class file with a constant `J` of the same descriptor. -/
def longConstantBytes (payload : List UInt8) : List UInt8 :=
  [0xCA, 0xFE, 0xBA, 0xBE, 0, 0, 0, 52, 0, 7, 1, 0, 1, 0x41, 7, 0, 1, 5] ++ payload ++
    [1, 0, 1, 0x4A, 1, 0, 13, 0x43, 0x6F, 0x6E, 0x73, 0x74, 0x61, 0x6E, 0x74, 0x56, 0x61, 0x6C,
      0x75, 0x65, 0, 0x21, 0, 2, 0, 0, 0, 0, 0, 1, 0, 0x18, 0, 5, 0, 5, 0, 1, 0, 6, 0, 0, 0, 2,
      0, 3, 0, 0, 0, 0]

theorem integer_literal_negative :
    let bytes := longConstantBytes [0x80, 0, 0, 0, 0, 0, 0, 1]
    ClassMeta.parse bytes = .ok ⟨none, [⟨"J", "J", .integer (-2 ^ 63 + 1)⟩], []⟩ ∧
      (∃ (s : StoredClass) (extra : List UInt8), bytes = s.bytes ++ extra ∧
        ∃ f ∈ s.fields, ∃ c, f.HasConstant s.constants c ∧ c.tag.toNat = 5 ∧
          twosComplement c.payload = -2 ^ 63 + 1) ∧
      Constant.literal ⟨"J", "J", .integer (-2 ^ 63 + 1)⟩ = .ok "-9223372036854775807LL" ∧
      expression? "-9223372036854775807LL" = some (-2 ^ 63 + 1, true) := by
  intro bytes
  have hparse : ClassMeta.parse bytes = .ok ⟨none, [⟨"J", "J", .integer (-2 ^ 63 + 1)⟩], []⟩ := by
    decide +kernel
  have hliteral : Constant.literal ⟨"J", "J", .integer (-2 ^ 63 + 1)⟩ =
      .ok "-9223372036854775807LL" := by decide +kernel
  obtain ⟨s, extra, fields, hbytes, hsublist, hconstants⟩ := integer_literal_denotes hparse
  obtain ⟨f, rest, ⟨-, -, hf⟩, -, rfl⟩ := List.forall₂_cons_left_iff.1 hconstants
  obtain ⟨c, t, hc, htag, hvalue, ht, -, hread⟩ := hf (.inr rfl)
  have hpayload : -2 ^ 63 + 1 = twosComplement c.payload := ConstantValue.integer.inj hvalue
  obtain rfl := Except.ok.inj (hliteral.symm.trans ht)
  rw [← hpayload] at hread
  have hmem : f ∈ s.fields := hsublist.subset List.mem_cons_self
  exact ⟨hparse, ⟨s, extra, hbytes, f, hmem, c, hc, htag, hpayload.symm⟩, hliteral, hread⟩

/-- The least long is written with a magnitude that is too large for any type. -/
theorem integer_literal_least :
    let bytes := longConstantBytes [0x80, 0, 0, 0, 0, 0, 0, 0]
    ClassMeta.parse bytes = .ok ⟨none, [⟨"J", "J", .integer (-2 ^ 63)⟩], []⟩ ∧
      Constant.literal ⟨"J", "J", .integer (-2 ^ 63)⟩ = .ok "-9223372036854775808LL" ∧
      expression? "-9223372036854775808LL" = none := by decide +kernel

end ClassMeta

end JniHeader
