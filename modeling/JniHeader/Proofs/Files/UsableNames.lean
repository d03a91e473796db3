import JniHeader.Proofs.Files.EnsuredPaths
import Mathlib.Data.List.TakeWhile
import Mathlib.Tactic.Common

/-!
# Usable names

A text names a file if all its code points can stand in a file name: no NUL, and no
surrogate but those that stand for single bytes. So a path is usable if its components
are, and with a path all directories on the way to it are usable.
-/
namespace JniHeader

/-- The code point can stand in a file name. -/
def CodePoint.IsNameable (c : CodePoint) : Prop :=
  (c.isSurrogate = true → c.isEscapedByte = true) ∧ c.val ≠ 0

theorem drop_length_takeWhile {α : Type} (p : α → Bool) (l : List α) :
    l.drop (l.takeWhile p).length = l.dropWhile p := by
  have hsplit : l.takeWhile p ++ l.dropWhile p = l := List.takeWhile_append_dropWhile
  calc l.drop (l.takeWhile p).length
      = (l.takeWhile p ++ l.dropWhile p).drop (l.takeWhile p).length := by rw [hsplit]
    _ = l.dropWhile p := List.drop_left

theorem unencodable?_eq_none_iff {position fuel : ℕ} {t : Text} (hfuel : t.length ≤ fuel) :
    unencodable? position fuel t = none ↔
      ∀ c ∈ t, c.isSurrogate = true → c.isEscapedByte = true := by
  induction fuel generalizing position t with
  | zero =>
      obtain rfl := List.length_eq_zero_iff.1 (Nat.le_zero.1 hfuel)
      simp [unencodable?]
  | succ fuel ih =>
      cases t with
      | nil => simp [unencodable?]
      | cons c rest =>
          have hrest : rest.length ≤ fuel := Nat.le_of_succ_le_succ hfuel
          rw [unencodable?]
          split_ifs with hc
          · -- The text is a run of surrogates and what comes behind it.
            have hsplit : (c :: rest).takeWhile CodePoint.isSurrogate ++
                (c :: rest).dropWhile CodePoint.isSurrogate = c :: rest :=
              List.takeWhile_append_dropWhile
            have htail : ((c :: rest).dropWhile CodePoint.isSurrogate).length ≤ fuel := by
              rw [List.dropWhile_cons_of_pos hc]
              exact (List.length_dropWhile_le _ _).trans hrest
            dsimp only
            rw [drop_length_takeWhile, drop_length_takeWhile]
            cases hbad : ((c :: rest).takeWhile CodePoint.isSurrogate).dropWhile
                CodePoint.isEscapedByte with
            | nil =>
                rw [List.dropWhile_eq_nil_iff] at hbad
                rw [ih htail]
                constructor
                · intro h d hd hsurrogate
                  rw [← hsplit, List.mem_append] at hd
                  rcases hd with hd | hd
                  · exact hbad d hd
                  · exact h d hd hsurrogate
                · intro h d hd
                  exact h d ((List.dropWhile_sublist _).subset hd)
            | cons first more =>
                have hfirst : first ∈ (c :: rest).takeWhile CodePoint.isSurrogate := by
                  apply (List.dropWhile_sublist CodePoint.isEscapedByte).subset
                  rw [hbad]
                  exact List.mem_cons_self
                have hnot : first.isEscapedByte = false := by
                  have hhead := List.head_dropWhile_not CodePoint.isEscapedByte
                    (l := (c :: rest).takeWhile CodePoint.isSurrogate) (by simp [hbad])
                  simpa only [hbad, List.head_cons] using hhead
                constructor
                · intro h
                  cases h
                · intro h
                  have hescaped := h first ((List.takeWhile_sublist _).subset hfirst)
                    (List.mem_takeWhile_imp hfirst)
                  rw [hnot] at hescaped
                  cases hescaped
          · rw [ih hrest, List.forall_mem_cons]
            exact ⟨fun h => ⟨fun hc' => absurd hc' hc, h⟩, fun h => h.2⟩

theorem unusableName?_eq_none_iff {t : Text} :
    unusableName? t = none ↔ ∀ c ∈ t, c.IsNameable := by
  have hencodable : unencodable? 0 t.length t = none ↔
      ∀ c ∈ t, c.isSurrogate = true → c.isEscapedByte = true :=
    unencodable?_eq_none_iff (Nat.le_refl t.length)
  unfold unusableName?
  cases hbad : unencodable? 0 t.length t with
  | some e =>
      rw [hbad] at hencodable
      constructor
      · intro h
        cases h
      · intro h
        cases hencodable.2 fun c hc => (h c hc).1
  | none =>
      have hescaped := hencodable.1 hbad
      dsimp only
      split_ifs with hnul
      · obtain ⟨c, hc, hzero⟩ := List.any_eq_true.1 hnul
        constructor
        · intro h
          cases h
        · intro h
          exact absurd (of_decide_eq_true hzero) (h c hc).2
      · constructor
        · intro _ c hc
          refine ⟨hescaped c hc, fun hzero => hnul ?_⟩
          exact List.any_eq_true.2 ⟨c, hc, decide_eq_true hzero⟩
        · intro _
          rfl

theorem Text.forall_mem_joinWith {P : CodePoint → Prop} {sep : Text} (hsep : ∀ c ∈ sep, P c)
    (ts : List Text) : (∀ c ∈ joinWith sep ts, P c) ↔ ∀ t ∈ ts, ∀ c ∈ t, P c := by
  induction ts with
  | nil => simp [joinWith]
  | cons t rest ih =>
      rw [List.forall_mem_cons, ← ih]
      cases rest with
      | nil => simp [joinWith]
      | cons u rest =>
          rw [joinWith, List.forall_mem_append, List.forall_mem_append]
          · exact ⟨fun h => ⟨h.1.1, h.2⟩, fun h => ⟨⟨h.1, hsep⟩, h.2⟩⟩
          · exact List.cons_ne_nil u rest

namespace FilePath

variable {p : FilePath}

/-- The text of a path is made of its components, of slashes, and of a dot if it has nothing else. -/
theorem forall_mem_text_iff {P : CodePoint → Prop} (hslash : P (CodePoint.ofChar '/'))
    (hdot : P (CodePoint.ofChar '.')) : (∀ c ∈ p.text, P c) ↔ ∀ t ∈ p.parts, ∀ c ∈ t, P c := by
  have hslashes : ∀ c ∈ ("/" : Text), P c := by
    intro c hc
    obtain rfl := List.mem_singleton.1 hc
    exact hslash
  have hroot : ∀ c ∈ rootText p.root, P c := by
    intro c hc
    apply hslashes
    cases hp : p.root with
    | relative =>
        rw [hp] at hc
        cases hc
    | absolute => rwa [hp] at hc
    | doubleSlash =>
        rw [hp] at hc
        rcases List.mem_cons.1 hc with rfl | hc
        · exact List.mem_cons_self
        · exact hc
  rw [← Text.forall_mem_joinWith hslashes, text]
  split
  · next hnil =>
      rw [(List.append_eq_nil_iff.1 hnil).2]
      constructor
      · intro _ c hc
        cases hc
      · intro _ c hc
        obtain rfl := List.mem_singleton.1 hc
        exact hdot
  · rw [List.forall_mem_append]
    exact ⟨fun h => h.2, fun h => ⟨hroot, h⟩⟩

theorem usable_iff : unusableName? p.text = none ↔ ∀ t ∈ p.parts, ∀ c ∈ t, c.IsNameable := by
  rw [unusableName?_eq_none_iff]
  exact forall_mem_text_iff ⟨by decide, by decide⟩ ⟨by decide, by decide⟩

theorem usable_parent (h : unusableName? p.text = none) : unusableName? p.parent.text = none := by
  rw [usable_iff] at h ⊢
  intro t ht
  exact h t ((List.dropLast_sublist _).subset ht)

end FilePath

namespace FileSystem

variable {fs fs' : FileSystem} {p : FilePath} {e : UnusableName}

theorem find_of_unusable (h : unusableName? p.text = some e) (followLast : Bool) :
    fs.find followLast p = .error (.name e) := by
  rw [find, h]

theorem unusable_of_find {followLast : Bool} (h : fs.find followLast p = .error (.name e)) :
    unusableName? p.text = some e := by
  unfold find at h
  split at h
  · next e' husable =>
      obtain rfl := FileError.name.inj (Except.error.inj h)
      exact husable
  · split at h
    · cases h
    · split at h
      · cases h
      · cases h

theorem unusable_of_makeDirectory (h : fs.makeDirectory p = .error (.name e)) :
    unusableName? p.text = some e := by
  unfold makeDirectory at h
  split at h
  · split at h <;> cases h
  · cases h
  · next hfind =>
      rw [Except.error.inj h] at hfind
      exact unusable_of_find hfind

theorem unusable_of_ensureDirectory (h : (fs.ensureDirectory p).2 = .error (.file (.name e))) :
    unusableName? p.text = some e := by
  unfold ensureDirectory at h
  split at h
  · cases h
  · split_ifs at h
    · cases h
    · split at h <;> cases h
  · next hmake =>
      rw [DirectoryError.file.inj (Except.error.inj h)] at hmake
      exact unusable_of_makeDirectory hmake

theorem ensureDirectory_of_unusable (h : unusableName? p.text = some e) :
    fs.ensureDirectory p = (fs, .error (.file (.name e))) := by
  simp only [ensureDirectory, makeDirectory, find_of_unusable h]

theorem makeDirectories_of_unusable (h : unusableName? p.text = some e) :
    fs.makeDirectories p = (fs, .error (.file (.name e))) := by
  rw [(ensured_makeDirectories fs p).eq_ensureDirectory, ensureDirectory_of_unusable h]
  rintro ⟨e', he', -⟩
  rw [ensureDirectory_of_unusable h] at he'
  cases he'

/-- Only a path that is itself unusable keeps a directory from being named. -/
theorem Ensured.unusable {levels : ℕ} {r : FileSystem × Except DirectoryError Unit}
    (h : Ensured fs levels p r) (hname : r.2 = .error (.file (.name e))) :
    unusableName? p.text = some e := by
  induction h with
  | once _ => exact unusable_of_ensureDirectory hname
  | deep _ _ => cases hname
  | @blocked _ _ p _ hmissing _ _ ih =>
      obtain ⟨e', he', -⟩ := hmissing
      cases husable : unusableName? p.text with
      | some fault =>
          rw [ensureDirectory_of_unusable husable] at he'
          cases he'
      | none =>
          have hparent := ih hname
          rw [FilePath.usable_parent husable] at hparent
          cases hparent
  | again _ _ _ => exact unusable_of_ensureDirectory hname

theorem unusable_of_makeDirectories (h : (fs.makeDirectories p).2 = .error (.file (.name e))) :
    unusableName? p.text = some e :=
  (ensured_makeDirectories fs p).unusable h

theorem unusable_of_writeFile {content : ByteArray}
    (h : (fs.writeFile p content).2 = .error (.name e)) : unusableName? p.text = some e := by
  have hstore : ∀ location f, (fs.store location f).2 ≠ .error (.name e) := by
    intro location f h
    rw [store] at h
    split at h <;> cases h
  unfold writeFile at h
  split at h
  · split at h
    · cases h
    · exact absurd h (hstore _ _)
  · split_ifs at h
    · cases h
    · cases h
    · exact absurd h (hstore _ _)
  · cases h
  · cases h
  · next hfind =>
      rw [Except.error.inj h] at hfind
      exact unusable_of_find hfind

end FileSystem

end JniHeader
