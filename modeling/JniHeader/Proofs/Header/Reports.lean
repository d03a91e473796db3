import JniHeader.Header.Basic
import Mathlib.Tactic.Common

/-!
# What a header reports

A sequence of steps reports the lines of its steps and fails as one of them does. A
header reports nothing of its own: its lines are those of the question which classes are
throwable, and it fails as this question does, for a descriptor, or for a constant.
-/
namespace JniHeader

/-- All lines that are reported are of one kind, and a failure is of another. -/
structure Reported.Reports {α : Type} (L : Text → Prop) (F : Failure → Prop) (r : Reported α) :
    Prop where
  lines : ∀ l ∈ r.lines, L l
  failure : ∀ f, r.result = .error f → F f

variable {L : Text → Prop} {F : Failure → Prop}

namespace Reported.Reports

variable {α β : Type}

theorem pure (x : α) : Reports L F (Reported.pure x) where
  lines _ hl := by cases hl
  failure _ hf := by cases hf

theorem fail {f : Failure} (h : F f) : Reports L F (Reported.fail f : Reported α) where
  lines _ hl := by cases hl
  failure g hg := by
    obtain rfl := Except.error.inj hg
    exact h

theorem bind {r : Reported α} {next : α → Reported β} (hr : Reports L F r)
    (hnext : ∀ x, Reports L F (next x)) : Reports L F (r.bind next) := by
  cases hresult : r.result with
  | error f =>
      have hbind : r.bind next = ⟨r.lines, .error f⟩ := by simp only [Reported.bind, hresult]
      rw [hbind]
      refine ⟨hr.lines, fun g hg => ?_⟩
      obtain rfl := Except.error.inj hg
      exact hr.failure f hresult
  | ok x =>
      have hbind : r.bind next = ⟨r.lines ++ (next x).lines, (next x).result⟩ := by
        simp only [Reported.bind, hresult]
      rw [hbind]
      exact ⟨List.forall_mem_append.2 ⟨hr.lines, (hnext x).lines⟩, (hnext x).failure⟩

theorem forEach {step : α → Reported β} (h : ∀ x, Reports L F (step x)) (xs : List α) :
    Reports L F (Reported.forEach step xs) := by
  induction xs with
  | nil => exact pure []
  | cons x xs ih => exact (h x).bind fun y => ih.bind fun ys => pure (y :: ys)

end Reported.Reports

open Reported (Reports)

section Questions
variable {isThrowable : QualifiedName → Reported Bool} (hasked : ∀ n, Reports L F (isThrowable n))
include hasked

namespace NativeType

theorem reports_ofField (t : FieldType) : Reports L F (ofField isThrowable t) := by
  cases t with
  | base b => exact .pure _
  | array t => cases t <;> exact .pure _
  | object name =>
      rw [ofField]
      split_ifs
      · exact .pure _
      · exact .pure _
      · exact .pure _
      · exact (hasked _).bind fun _ => .pure _

theorem reports_ofResult (t : Option FieldType) : Reports L F (ofResult isThrowable t) := by
  cases t with
  | none => exact .pure _
  | some t => exact reports_ofField hasked t

theorem reports_ofMethod (m : MethodType) : Reports L F (ofMethod isThrowable m) :=
  (Reports.forEach (reports_ofField hasked) m.arguments).bind fun _ =>
    (reports_ofResult hasked m.result).bind fun _ => .pure _

theorem reports_ofMethodDescriptor (hdescriptor : ∀ e, F (.descriptor e)) (descriptor : Text) :
    Reports L F (ofMethodDescriptor isThrowable descriptor) := by
  unfold ofMethodDescriptor
  split
  · exact .fail (hdescriptor _)
  · exact reports_ofMethod hasked _
  · exact .fail (hdescriptor _)

end NativeType

namespace Header

theorem reports_methodLines (hdescriptor : ∀ e, F (.descriptor e)) (name : QualifiedName)
    (overloaded : Bool) (m : NativeMethod) :
    Reports L F (methodLines name isThrowable overloaded m) := by
  refine (NativeType.reports_ofMethodDescriptor hasked hdescriptor m.descriptor).bind fun types => ?_
  split
  · exact .pure _
  · exact .fail (hdescriptor _)

theorem reports_text (hdescriptor : ∀ e, F (.descriptor e)) (hconstant : ∀ e, F (.constant e))
    (name : QualifiedName) (m : ClassMeta) : Reports L F (text name m isThrowable) := by
  have hconstants : ∀ c : Constant, Reports L F (constantLines name c) := by
    intro c
    unfold constantLines
    split
    · exact .pure _
    · exact .fail (hconstant _)
  have hlines : Reports L F (lines name m isThrowable) :=
    (Reports.forEach hconstants m.constants).bind fun _ =>
      (Reports.forEach (fun x => reports_methodLines hasked hdescriptor name _ x) m.methods).bind
        fun _ => .pure _
  exact hlines.bind fun _ => .pure _

end Header

end Questions

end JniHeader
