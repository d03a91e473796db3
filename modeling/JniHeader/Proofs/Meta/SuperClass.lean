import JniHeader.Meta.Basic
import Mathlib.Tactic.Common

/-!
# The two readers of a superclass

The superclass of a class file is read twice: by the walk from class to class, which
tells whether there is an entry for it, and by the metadata, which tells whether it has
a name. Nothing keeps a class file from naming the empty text, and so the readers differ
there and nowhere else.
-/
namespace JniHeader

namespace QualifiedName

/-- The name of no class. -/
def nameless : QualifiedName := ⟨[], none⟩

/-- Only the empty text is read as the name of no class. -/
theorem ofBinary_eq_nameless_iff {binary : Text} : ofBinary binary = nameless ↔ binary = [] := by
  constructor
  · intro h
    exact List.map_eq_nil_iff.1 (congrArg className h)
  · rintro rfl
    rfl

end QualifiedName

variable {superClass : Option Text}

theorem map_ofBinary_eq_nameless_iff :
    superClass.map QualifiedName.ofBinary = some .nameless ↔ superClass = some [] := by
  cases superClass with
  | none => simp
  | some binary =>
      rw [Option.map_some, Option.some_inj, QualifiedName.ofBinary_eq_nameless_iff, Option.some_inj]

theorem map_ofBinary_eq_iff :
    superClass.map QualifiedName.ofBinary = superClassName? superClass ↔ superClass ≠ some [] := by
  match superClass with
  | none => simp [superClassName?]
  | some [] => simp [superClassName?]
  | some (c :: binary) => simp [superClassName?]

/-- The readers fail alike, and where they succeed they agree except about a superclass whose name
is empty. The walk has a name for it, and the metadata takes it for none. -/
theorem ClassMeta.superClass_eq_iff (bytes : List UInt8) :
    (∃ e, ClassFile.superClassOf bytes = .error e ∧ parse bytes = .error e) ∨
      ∃ c next m, ClassFile.parse bytes = .ok c ∧ ClassFile.superClassOf bytes = .ok next ∧
        parse bytes = .ok m ∧ (next = m.superClass ↔ c.superClass ≠ some []) ∧
        (next = some .nameless ↔ c.superClass = some []) ∧
        (c.superClass = some [] → m.superClass = none) := by
  unfold ClassFile.superClassOf parse
  cases ClassFile.parse bytes with
  | error e => exact .inl ⟨e, rfl, rfl⟩
  | ok c =>
      refine .inr ⟨c, _, ofClassFile c, rfl, rfl, rfl, map_ofBinary_eq_iff,
        map_ofBinary_eq_nameless_iff, ?_⟩
      intro hempty
      rw [ofClassFile, hempty]
      rfl

/-- A class `A` whose superclass is the class without a name. -/
def namelessSuperBytes : List UInt8 :=
  [0xCA, 0xFE, 0xBA, 0xBE, 0, 0, 0, 52, 0, 5, 1, 0, 1, 65, 7, 0, 1, 1, 0, 0, 7, 0, 3,
    0, 33, 0, 2, 0, 4, 0, 0, 0, 0, 0, 0, 0, 0]

/-- The walk goes on to it, and the metadata has no superclass. -/
theorem ClassMeta.superClass_ne_nameless :
    ClassFile.superClassOf namelessSuperBytes = .ok (some .nameless) ∧
      parse namelessSuperBytes = .ok ⟨none, [], []⟩ ∧
      ¬ ∃ m, parse namelessSuperBytes = .ok m ∧
        ClassFile.superClassOf namelessSuperBytes = .ok m.superClass := by
  have hwalk : ClassFile.superClassOf namelessSuperBytes = .ok (some .nameless) := by
    decide +kernel
  have hmeta : parse namelessSuperBytes = .ok ⟨none, [], []⟩ := by decide +kernel
  refine ⟨hwalk, hmeta, ?_⟩
  rintro ⟨m, hm, hsuper⟩
  obtain rfl := Except.ok.inj (hmeta.symm.trans hm)
  cases hwalk.symm.trans hsuper

end JniHeader
