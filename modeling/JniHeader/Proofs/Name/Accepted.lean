import JniHeader.Name.Mangling
import JniHeader.Proofs.Name.Parts

/-!
# Accepted names

A name that a user may write is a dotted list of segments: none is empty, and none
holds a slash. So its binary form never starts with a slash, which nothing ensures
for the names in class files.
-/
namespace JniHeader

namespace QualifiedName

variable {text : Text} {name : QualifiedName}

theorem isDotted_of_parse (h : parse text = .ok name) : isDotted name.className = true := by
  unfold parse at h
  split at h
  · split at h
    · next hdotted =>
        obtain rfl := Except.ok.inj h
        exact hdotted
    · cases h
  · split at h
    · cases h
    · split at h
      · cases h
      · next hdotted =>
          obtain rfl := Except.ok.inj h
          simpa using hdotted

/-- The segments of an accepted name. -/
theorem isSegment_of_parse (h : parse text = .ok name) {part : Text}
    (hpart : part ∈ Text.splitAt '.' name.className) : isSegment part = true :=
  List.all_eq_true.1 (isDotted_of_parse h) part hpart

theorem ne_nil_of_isSegment {part : Text} (h : isSegment part = true) : part ≠ [] := by
  intro hnil
  rw [hnil] at h
  cases h

theorem slash_not_mem_of_isSegment {part : Text} (h : isSegment part = true) :
    CodePoint.ofChar '/' ∉ part := by
  intro hslash
  have hall := List.all_eq_true.1 (Bool.and_eq_true_iff.1 h).2
  exact absurd (hall _ hslash) (by decide)

theorem slash_not_mem_of_isDotted {t : Text} (h : isDotted t = true) :
    CodePoint.ofChar '/' ∉ t := by
  intro hslash
  have hne : CodePoint.ofChar '/' ≠ CodePoint.ofChar '.' := by decide
  obtain ⟨part, hpart, hmem⟩ := Text.exists_mem_splitAt hslash hne
  exact slash_not_mem_of_isSegment (List.all_eq_true.1 h part hpart) hmem

theorem slash_not_mem_of_parse (h : parse text = .ok name) :
    CodePoint.ofChar '/' ∉ name.className :=
  slash_not_mem_of_isDotted (isDotted_of_parse h)

/-- The binary form starts with a slash. -/
def Rooted (n : QualifiedName) : Prop := n.binaryName.head? = some (CodePoint.ofChar '/')

instance (n : QualifiedName) : Decidable n.Rooted :=
  inferInstanceAs (Decidable (n.binaryName.head? = some (CodePoint.ofChar '/')))

theorem not_rooted_of_parse (h : parse text = .ok name) : ¬ name.Rooted := by
  intro hrooted
  cases hname : name.className with
  | nil =>
      rw [Rooted, binaryName, hname] at hrooted
      cases hrooted
  | cons c rest =>
      by_cases hc : c = CodePoint.ofChar '.'
      · -- The dot in front of all would end an empty segment.
        have hfirst : isSegment [] = true := by
          apply isSegment_of_parse h
          rw [hname, hc, Text.splitAt_sep]
          exact List.mem_cons_self
        exact ne_nil_of_isSegment hfirst rfl
      · have hslash : c = CodePoint.ofChar '/' := by
          rw [Rooted, binaryName, hname, Text.replace_cons, if_neg hc] at hrooted
          exact Option.some.inj hrooted
        apply slash_not_mem_of_parse h
        rw [hname, hslash]
        exact List.mem_cons_self

end QualifiedName

end JniHeader
