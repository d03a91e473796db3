import JniHeader.Files.Path
import JniHeader.Proofs.Text.Split

/-!
# Components of paths

A relative text adds its components to a path. A file name is one component; a
component of two dots takes two dots; and what a text has after its last slash is the
last component of its path.
-/
namespace JniHeader

namespace FilePath

variable {t : Text}

theorem append_of_head_ne (h : t.head? ≠ some (CodePoint.ofChar '/')) (p : FilePath) :
    p.append t = ⟨p.root, p.parts ++ partsOf t⟩ := by
  have htake : t.takeWhile (· = CodePoint.ofChar '/') = [] := by
    cases t with
    | nil => rfl
    | cons c rest =>
        have hc : c ≠ CodePoint.ofChar '/' := fun hc => h (congrArg some hc)
        rw [List.takeWhile_cons, if_neg (by simpa using hc)]
  have hrelative : rootOf t = .relative := by
    rw [rootOf, htake]
    rfl
  rw [append, join, ofText, hrelative]

theorem partsOf_of_slash_not_mem (hslash : CodePoint.ofChar '/' ∉ t) (hne : t ≠ [])
    (hdot : t ≠ ".") : partsOf t = [t] := by
  rw [partsOf, Text.splitAt_of_not_mem hslash, List.filter_cons, if_pos (by simp [hne, hdot])]
  rfl

theorem two_dots_not_mem_partsOf (h : t.count (CodePoint.ofChar '.') ≤ 1) :
    (".." : Text) ∉ partsOf t := by
  intro hmem
  have hpart : (".." : Text) ∈ Text.splitAt '/' t := (List.mem_filter.1 hmem).1
  have hcount := (Text.sublist_of_mem_splitAt hpart).count_le (CodePoint.ofChar '.')
  have htwo : List.count (CodePoint.ofChar '.') (".." : Text) = 2 := by decide
  omega

end FilePath

end JniHeader
