import JniHeader.Proofs.Files.Components
import JniHeader.Proofs.Files.UsableNames
import JniHeader.Proofs.Name.Accepted

/-!
# Names of header files

A header file is named after the mangled class name, so its name is one component of
a path. Two accepted names have one header file only if they name one class, unless a
segment starts with a digit that an underscore makes an escape of: then the dot in
front of it is mangled as if it were an underscore and a digit of the name before.
-/
namespace JniHeader

theorem mem_fixedDigits {digit : ℕ → CodePoint} {radix width n : ℕ} {d : CodePoint}
    (h : d ∈ Text.fixedDigits digit radix width n) : ∃ k, d = digit (k % radix) := by
  induction width generalizing n with
  | zero => cases h
  | succ width ih =>
      rw [Text.fixedDigits, List.mem_append, List.mem_singleton] at h
      rcases h with h | h
      · exact ih h
      · exact ⟨n, h⟩

theorem val_upperDigit_mem {d : ℕ} (h : d < 16) :
    0x30 ≤ (upperDigit d).val ∧ (upperDigit d).val ≤ 0x7A := by
  unfold upperDigit
  split_ifs
  · rw [CodePoint.val_ofNat (by omega)]
    omega
  · rw [CodePoint.val_ofNat (by omega)]
    omega

/-- Mangled texts are made of letters, digits and underscores, which all come after the slash. -/
theorem CodePoint.val_of_mem_mangled {c d : CodePoint} (h : d ∈ c.mangled) :
    0x30 ≤ d.val ∧ d.val ≤ 0x7A := by
  have hall : ∀ t : Text, (∀ x ∈ t, 0x30 ≤ x.val ∧ x.val ≤ 0x7A) → d ∈ t →
      0x30 ≤ d.val ∧ d.val ≤ 0x7A := fun t ht hd => ht d hd
  unfold mangled at h
  split_ifs at h with h₁ h₂ h₃ h₄ hplain
  · exact hall _ (by decide) h
  · exact hall _ (by decide) h
  · exact hall _ (by decide) h
  · exact hall _ (by decide) h
  · obtain rfl := List.mem_singleton.1 h
    simp only [isAsciiLetter, isAsciiDigit, within, Bool.or_eq_true, Bool.and_eq_true,
      decide_eq_true_eq] at hplain
    omega
  · obtain ⟨u, -, hu⟩ := List.mem_flatMap.1 h
    rcases List.mem_append.1 hu with hu | hu
    · exact hall _ (by decide) hu
    · obtain ⟨k, rfl⟩ := mem_fixedDigits hu
      exact val_upperDigit_mem (Nat.mod_lt k (by decide))

theorem val_of_mem_mangle {t : Text} {d : CodePoint} (h : d ∈ mangle t) :
    0x30 ≤ d.val ∧ d.val ≤ 0x7A := by
  obtain ⟨c, -, hc⟩ := List.mem_flatMap.1 h
  exact CodePoint.val_of_mem_mangled hc

namespace QualifiedName

theorem slash_not_mem_headerFile (n : QualifiedName) : CodePoint.ofChar '/' ∉ n.headerFile := by
  rw [headerFile, List.mem_append, not_or]
  exact ⟨fun h => absurd (val_of_mem_mangle h).1 (by decide), by decide⟩

/-- A header file is directly in the directory that it is written to. -/
theorem append_headerFile (n : QualifiedName) (directory : FilePath) :
    directory.append n.headerFile = ⟨directory.root, directory.parts ++ [n.headerFile]⟩ := by
  have hhead : n.headerFile.head? ≠ some (CodePoint.ofChar '/') := fun h =>
    n.slash_not_mem_headerFile (List.mem_of_mem_head? h)
  have hlength : 2 ≤ n.headerFile.length := by
    rw [headerFile, List.length_append]
    exact Nat.le_add_left _ _
  have hne : n.headerFile ≠ [] := by
    intro h
    rw [h] at hlength
    exact absurd hlength (by decide)
  have hdot : n.headerFile ≠ "." := by
    intro h
    rw [h] at hlength
    exact absurd hlength (by decide)
  rw [FilePath.append_of_head_ne hhead,
    FilePath.partsOf_of_slash_not_mem n.slash_not_mem_headerFile hne hdot]

theorem isNameable_of_mem_headerFile {n : QualifiedName} {c : CodePoint} (h : c ∈ n.headerFile) :
    c.IsNameable := by
  have hval : 0x2E ≤ c.val ∧ c.val ≤ 0x7A := by
    rcases List.mem_append.1 h with h | h
    · have := val_of_mem_mangle h
      omega
    · have hall : ∀ x ∈ (".h" : Text), 0x2E ≤ x.val ∧ x.val ≤ 0x7A := by decide
      exact hall c h
  constructor
  · intro hsurrogate
    simp only [CodePoint.isSurrogate, CodePoint.within, Bool.and_eq_true, decide_eq_true_eq]
      at hsurrogate
    omega
  · omega

/-- Where a directory can be named, its header files can. -/
theorem usable_append_headerFile {directory : FilePath}
    (h : unusableName? directory.text = none) (n : QualifiedName) :
    unusableName? (directory.append n.headerFile).text = none := by
  rw [FilePath.usable_iff] at h
  rw [append_headerFile, FilePath.usable_iff, List.forall_mem_append]
  refine ⟨h, List.forall_mem_singleton.2 ?_⟩
  exact fun c hc => isNameable_of_mem_headerFile hc

/-- No segment after the first starts with an escape digit, and no two surrogates stand for one
character. -/
structure Plain (n : QualifiedName) : Prop where
  joined : n.className.Joined
  startsPlain : ∀ part ∈ (Text.splitAt '.' n.className).tail, Text.StartsPlain part

instance (n : QualifiedName) : Decidable n.Plain :=
  decidable_of_iff (n.className.Joined ∧
      ∀ part ∈ (Text.splitAt '.' n.className).tail, Text.StartsPlain part)
    ⟨fun h => ⟨h.1, h.2⟩, fun h => ⟨h.joined, h.startsPlain⟩⟩

theorem Plain.guarded {text : Text} {name : QualifiedName} (h : name.Plain)
    (hname : parse text = .ok name) : name.className.Guarded := by
  refine Text.guarded_of_splitAt (by decide) ?_ h.startsPlain
  intro c hc hsep
  rcases hsep with rfl | rfl
  · rfl
  · exact absurd hc (slash_not_mem_of_parse hname)

/-- Accepted names of different classes have different header files if they are plain. -/
theorem className_eq_of_headerFile_eq {text text' : Text} {name name' : QualifiedName}
    (hname : parse text = .ok name) (hname' : parse text' = .ok name') (hplain : name.Plain)
    (hplain' : name'.Plain) (h : name.headerFile = name'.headerFile) :
    name.className = name'.className := by
  have hmangle : mangle name.className = mangle name'.className := List.append_cancel_right h
  have hreplace := replace_dot_of_mangle_eq hplain.joined hplain'.joined (hplain.guarded hname)
    (hplain'.guarded hname') hmangle
  have hparts := congrArg (Text.splitAt '/') hreplace
  rw [Text.splitAt_replace (slash_not_mem_of_parse hname),
    Text.splitAt_replace (slash_not_mem_of_parse hname')] at hparts
  exact Text.splitAt_injective '.' hparts

end QualifiedName

end JniHeader
