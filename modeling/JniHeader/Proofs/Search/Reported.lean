import JniHeader.Search.Reported
import Mathlib.Tactic.Common

/-!
# Comparing results with diagnostics

Two computations that report are compared step by step. A comparison says how the
lines and the failures of both have to be related; results agree under it if both
are values in a given relation or both are failures. Sequences of agreeing steps
agree, and so does a step for each member of a list.
-/
namespace JniHeader

/-- How the lines and the failures of two computations are related. -/
structure Comparison where
  lines : List Text → List Text → Prop
  failure : Failure → Failure → Prop
  refl : ∀ l, lines l l
  append : ∀ {l l' m m'}, lines l l' → lines m m' → lines (l ++ m) (l' ++ m')

namespace Comparison

/-- Lines and failures are the same. -/
def same : Comparison where
  lines := Eq
  failure := Eq
  refl _ := rfl
  append h h' := by rw [h, h']

/-- Failures are related as given, and lines are left out of account. -/
def ofFailures (failure : Failure → Failure → Prop) : Comparison where
  lines _ _ := True
  failure := failure
  refl _ := trivial
  append _ _ := trivial

end Comparison

namespace Reported

variable {α β γ δ ι : Type} {c : Comparison}

/-- Both computations come to related values, or to related failures. -/
inductive Agree (c : Comparison) (R : α → β → Prop) (r : Reported α) (r' : Reported β) : Prop
  | value {x : α} {y : β} : c.lines r.lines r'.lines → r.result = .ok x → r'.result = .ok y →
      R x y → Agree c R r r'
  | failure {f g : Failure} : c.lines r.lines r'.lines → r.result = .error f →
      r'.result = .error g → c.failure f g → Agree c R r r'

namespace Agree

theorem lines {R : α → β → Prop} {r : Reported α} {r' : Reported β} (h : Agree c R r r') :
    c.lines r.lines r'.lines := by
  cases h with
  | value hlines _ _ _ => exact hlines
  | failure hlines _ _ _ => exact hlines

theorem imp {R S : α → β → Prop} {r : Reported α} {r' : Reported β} (h : Agree c R r r')
    (himp : ∀ x y, R x y → S x y) : Agree c S r r' := by
  cases h with
  | value hlines hx hy hR => exact .value hlines hx hy (himp _ _ hR)
  | failure hlines hf hg hfailure => exact .failure hlines hf hg hfailure

theorem pure {R : α → β → Prop} {x : α} {y : β} (h : R x y) :
    Agree c R (Reported.pure x) (Reported.pure y) :=
  .value (c.refl []) rfl rfl h

theorem fail {R : α → β → Prop} {f g : Failure} (h : c.failure f g) :
    Agree c R (Reported.fail f) (Reported.fail g) :=
  .failure (c.refl []) rfl rfl h

theorem bind {R : α → β → Prop} {S : γ → δ → Prop} {r : Reported α} {r' : Reported β}
    {next : α → Reported γ} {next' : β → Reported δ} (h : Agree c R r r')
    (hnext : ∀ x y, R x y → Agree c S (next x) (next' y)) :
    Agree c S (r.bind next) (r'.bind next') := by
  cases h with
  | @value x y hlines hx hy hR =>
      have hn := hnext x y hR
      have hbind : r.bind next = ⟨r.lines ++ (next x).lines, (next x).result⟩ := by
        simp only [Reported.bind, hx]
      have hbind' : r'.bind next' = ⟨r'.lines ++ (next' y).lines, (next' y).result⟩ := by
        simp only [Reported.bind, hy]
      rw [hbind, hbind']
      have happend := c.append hlines hn.lines
      cases hn with
      | value _ hu hv hS => exact .value happend hu hv hS
      | failure _ hf hg hfailure => exact .failure happend hf hg hfailure
  | @failure f g hlines hf hg hfailure =>
      have hbind : r.bind next = ⟨r.lines, .error f⟩ := by simp only [Reported.bind, hf]
      have hbind' : r'.bind next' = ⟨r'.lines, .error g⟩ := by simp only [Reported.bind, hg]
      rw [hbind, hbind']
      exact .failure hlines rfl rfl hfailure

theorem forEach {R : α → β → Prop} {step : ι → Reported α} {step' : ι → Reported β}
    {xs : List ι} (h : ∀ x ∈ xs, Agree c R (step x) (step' x)) :
    Agree c (List.Forall₂ R) (Reported.forEach step xs) (Reported.forEach step' xs) := by
  induction xs with
  | nil => exact .pure .nil
  | cons x xs ih =>
      rw [List.forall_mem_cons] at h
      refine h.1.bind fun u v huv => ?_
      refine (ih h.2).bind fun us vs husvs => ?_
      exact .pure (.cons huv husvs)

/-- Under the strictest comparison equal values are what equal computations have. -/
theorem eq {r r' : Reported α} (h : Agree .same Eq r r') : r = r' := by
  obtain ⟨lines, result⟩ := r
  obtain ⟨lines', result'⟩ := r'
  cases h with
  | value hlines hx hy hxy =>
      obtain rfl : lines = lines' := hlines
      obtain rfl : result = _ := hx
      obtain rfl : result' = _ := hy
      rw [hxy]
  | failure hlines hf hg hfg =>
      obtain rfl : lines = lines' := hlines
      obtain rfl : result = _ := hf
      obtain rfl : result' = _ := hg
      obtain rfl := show _ = _ from hfg
      rfl

end Agree

end Reported

end JniHeader
