import JniHeader.Text.CodePoint
import Mathlib.Tactic.Common

/-!
# Texts over an alphabet

An alphabet is a decidable property of code points. Texts over an alphabet are closed
under everything that puts texts together, so that the alphabet of a text is found from
those of its parts.
-/
namespace JniHeader

/-- The code point starts neither a comment nor a string literal in C. -/
def CodePoint.isQuiet (c : CodePoint) : Bool := c != '/' && c != '"'

namespace Text

variable {P Q : CodePoint → Bool} {s t : Text}

/-- All code points of the text have the property. -/
def Only (P : CodePoint → Bool) (t : Text) : Prop := ∀ c ∈ t, P c = true

instance (P : CodePoint → Bool) (t : Text) : Decidable (t.Only P) :=
  inferInstanceAs (Decidable (∀ c ∈ t, P c = true))

theorem only_append : (s ++ t).Only P ↔ s.Only P ∧ t.Only P := List.forall_mem_append

theorem only_cons {c : CodePoint} : Only P (c :: t) ↔ P c = true ∧ t.Only P := List.forall_mem_cons

theorem only_singleton {c : CodePoint} : Only P [c] ↔ P c = true := List.forall_mem_singleton

theorem Only.append (hs : s.Only P) (ht : t.Only P) : (s ++ t).Only P := only_append.2 ⟨hs, ht⟩

theorem Only.mono (ht : t.Only P) (h : ∀ c, P c = true → Q c = true) : t.Only Q :=
  fun c hc => h c (ht c hc)

theorem Only.of_subset (ht : t.Only P) (h : s ⊆ t) : s.Only P := fun c hc => ht c (h hc)

theorem only_flatMap {α : Type} {xs : List α} {f : α → Text} (h : ∀ x ∈ xs, (f x).Only P) :
    Only P (xs.flatMap f) := by
  intro c hc
  obtain ⟨x, hx, hcx⟩ := List.mem_flatMap.1 hc
  exact h x hx c hcx

theorem only_joinWith {sep : Text} {ts : List Text} (hsep : sep.Only P)
    (hts : ∀ t ∈ ts, t.Only P) : (joinWith sep ts).Only P := by
  match ts with
  | [] => exact fun c hc => absurd hc List.not_mem_nil
  | [t] => exact hts t List.mem_cons_self
  | t :: t' :: rest =>
      obtain ⟨ht, hrest⟩ := List.forall_mem_cons.1 hts
      exact (ht.append hsep).append (only_joinWith hsep hrest)

end Text

end JniHeader
