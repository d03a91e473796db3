import JniHeader.Text.CodePoint
import Mathlib.Data.List.Perm.Basic

/-!
# The order of texts

Texts are compared code point by code point, which is a linear order. So what is kept of
two lists of texts, each sorted, is one list if the same texts are kept.
-/
namespace JniHeader

section Order

local instance : LE CodePoint := ⟨fun a b => a.val ≤ b.val⟩

local instance : Std.IsLinearOrder CodePoint where
  le_refl a := Nat.le_refl a.val
  le_trans _ _ _ := Nat.le_trans
  le_antisymm _ _ h h' := CodePoint.ext (Nat.le_antisymm h h')
  le_total a b := Nat.le_total a.val b.val

local instance : Std.LawfulOrderLT CodePoint where
  lt_iff _ _ := Nat.lt_iff_le_and_not_ge

namespace Text

theorem not_lt_trans {s t u : Text} (h : ¬ t < s) (h' : ¬ u < t) : ¬ u < s := by
  rw [List.not_lt] at *
  exact List.le_trans h h'

theorem not_lt_or_not_lt (s t : Text) : ¬ t < s ∨ ¬ s < t := by
  rw [List.not_lt, List.not_lt]
  exact List.le_total s t

theorem eq_of_not_lt {s t : Text} (h : ¬ t < s) (h' : ¬ s < t) : s = t := by
  rw [List.not_lt] at *
  exact List.le_antisymm h h'

end Text

end Order

namespace Text

variable {ts us : List Text}

theorem perm_sort (ts : List Text) : (sort ts).Perm ts := List.mergeSort_perm ts _

theorem pairwise_sort (ts : List Text) : (sort ts).Pairwise fun s t => ¬ t < s := by
  refine (List.pairwise_mergeSort ?_ ?_ ts).imp fun h => of_decide_eq_true h
  · intro s t u h h'
    exact decide_eq_true (not_lt_trans (of_decide_eq_true h) (of_decide_eq_true h'))
  · intro s t
    rw [Bool.or_eq_true]
    exact (not_lt_or_not_lt s t).imp decide_eq_true decide_eq_true

/-- What is kept of sorted lists does not depend on what is left out. -/
theorem filter_sort_congr {p : Text → Bool} (hts : ts.Nodup) (hus : us.Nodup)
    (h : ∀ t, p t = true → (t ∈ ts ↔ t ∈ us)) : (sort ts).filter p = (sort us).filter p := by
  have hsorted : ∀ ts : List Text, ((sort ts).filter p).Pairwise fun s t => ¬ t < s :=
    fun ts => (pairwise_sort ts).sublist List.filter_sublist
  have hnodup : ∀ ts : List Text, ts.Nodup → ((sort ts).filter p).Nodup :=
    fun ts hts => ((perm_sort ts).nodup_iff.2 hts).sublist List.filter_sublist
  have hperm : ((sort ts).filter p).Perm ((sort us).filter p) := by
    rw [List.perm_ext_iff_of_nodup (hnodup ts hts) (hnodup us hus)]
    intro t
    rw [List.mem_filter, List.mem_filter, (perm_sort ts).mem_iff, (perm_sort us).mem_iff]
    constructor
    · rintro ⟨ht, hp⟩
      exact ⟨(h t hp).1 ht, hp⟩
    · rintro ⟨ht, hp⟩
      exact ⟨(h t hp).2 ht, hp⟩
  exact hperm.eq_of_pairwise (fun s t _ _ => eq_of_not_lt) (hsorted ts) (hsorted us)

end Text

end JniHeader
