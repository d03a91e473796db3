import JniHeader.Proofs.NativeType.SuperClassWalk

/-!
# What the walk says about a class

Over lookups that answer with bytes, with nothing or with a class-file error, a
class is throwable exactly when a passage leads from it to a throwable root. Every
walk gives an answer, reports nothing when it stops where the chain itself does,
and otherwise reports the class at which it had to give up.
-/
namespace JniHeader

/-- The class cannot be read: the lookup fails, or what it finds is no class file. -/
def Unreadable (lookup : QualifiedName → Except Failure (Option (List UInt8)))
    (n : QualifiedName) (e : ClassFileError) : Prop :=
  lookup n = .error (.classFile e) ∨
    ∃ bytes cause, lookup n = .ok (some bytes) ∧ ClassFile.superClassOf bytes = .error cause ∧
      e = .malformed cause

/-- What is said of a class whose walk has come to `stop` after the classes in `seen`. -/
inductive Verdict (lookup : QualifiedName → Except Failure (Option (List UInt8)))
    (seen : List Text) (stop : QualifiedName) : Reported Bool → Prop
  | throwable : stop.className ∈ throwableRoots → Verdict lookup seen stop ⟨[], .ok true⟩
  | object : stop.className = objectRoot → Verdict lookup seen stop ⟨[], .ok false⟩
  | noSuperClass {bytes : List UInt8} : Ordinary stop → stop.className ∉ seen →
      lookup stop = .ok (some bytes) → ClassFile.superClassOf bytes = .ok none →
      Verdict lookup seen stop ⟨[], .ok false⟩
  | missing : Ordinary stop → stop.className ∉ seen → lookup stop = .ok none →
      Verdict lookup seen stop ⟨["warning: class " ++ stop.text ++ " not found"], .ok false⟩
  | unreadable {e : ClassFileError} : Ordinary stop → stop.className ∉ seen →
      Unreadable lookup stop e →
      Verdict lookup seen stop ⟨["warning: class " ++ stop.text ++ " not found",
        "  ClassFileError: " ++ e.message], .ok false⟩
  | cyclic : Ordinary stop → stop.className ∈ seen →
      Verdict lookup seen stop
        ⟨["warning: cyclic superclass chain at class " ++ stop.text], .ok false⟩

section
variable {lookup : QualifiedName → Except Failure (Option (List UInt8))}

theorem Passage.stop_new {name root : QualifiedName} {passed : List QualifiedName}
    (h : Passage lookup name passed root) (hroot : root.className ∈ throwableRoots) :
    ((passed ++ [root]).map QualifiedName.className).Nodup := by
  rw [List.map_append, List.nodup_append]
  refine ⟨h.distinct, by simp, ?_⟩
  intro t ht u hu htu
  obtain ⟨n, hn, rfl⟩ := List.mem_map.1 ht
  have hname : n.className = root.className := by simpa [htu] using hu
  exact (h.ordinary n hn).1 (hname ▸ hroot)

theorem Stops.verdict {seen : List Text} {stop : QualifiedName} {e : WalkEnd}
    (hanswers : ∀ n f, lookup n = .error f → ∃ cause, f = .classFile cause)
    (h : Stops lookup seen stop e) : Verdict lookup seen stop e.report := by
  cases h with
  | throwable hroot => exact .throwable hroot
  | object hobject => exact .object hobject
  | cyclic hordinary hmem => exact .cyclic hordinary hmem
  | ended hordinary hnew he =>
      unfold superClassStep at he
      split at he
      · next cause hcause =>
          obtain rfl := Sum.inl.inj he
          exact .unreadable hordinary hnew (.inl hcause)
      · next f hother hf =>
          obtain ⟨cause, rfl⟩ := hanswers stop f hf
          exact absurd rfl (hother cause)
      · next hnone =>
          obtain rfl := Sum.inl.inj he
          exact .missing hordinary hnew hnone
      · next bytes hbytes =>
          split at he
          · next cause hcause =>
              obtain rfl := Sum.inl.inj he
              exact .unreadable hordinary hnew (.inr ⟨bytes, cause, hbytes, hcause, rfl⟩)
          · next hnone =>
              obtain rfl := Sum.inl.inj he
              exact .noSuperClass hordinary hnew hbytes hnone
          · cases he

/-- A verdict is an answer. -/
theorem Verdict.exists_result {seen : List Text} {stop : QualifiedName} {r : Reported Bool}
    (h : Verdict lookup seen stop r) : ∃ b, r.result = .ok b := by
  cases h with
  | throwable _ => exact ⟨true, rfl⟩
  | object _ => exact ⟨false, rfl⟩
  | noSuperClass _ _ _ _ => exact ⟨false, rfl⟩
  | missing _ _ _ => exact ⟨false, rfl⟩
  | unreadable _ _ _ => exact ⟨false, rfl⟩
  | cyclic _ _ => exact ⟨false, rfl⟩

theorem Verdict.root_of_true {seen : List Text} {stop : QualifiedName} {r : Reported Bool}
    (h : Verdict lookup seen stop r) (htrue : r.result = .ok true) :
    stop.className ∈ throwableRoots := by
  cases h with
  | throwable hroot => exact hroot
  | object _ => cases htrue
  | noSuperClass _ _ _ _ => cases htrue
  | missing _ _ _ => cases htrue
  | unreadable _ _ _ => cases htrue
  | cyclic _ _ => cases htrue

/-- Lookups that find classes of finitely many names are at most one more than these names. -/
theorem length_recordedWalk_le {names : Finset Text}
    (hnames : ∀ n bytes, lookup n = .ok (some bytes) → n.className ∈ names)
    (fuel : ℕ) (visited : List Text) (name : QualifiedName) :
    (recordedWalk lookup fuel visited name).1.length ≤ names.card + 1 := by
  obtain ⟨hdistinct, -, hfound⟩ := recordedWalk_lookups lookup fuel visited name
  have hsub : (((recordedWalk lookup fuel visited name).1.dropLast.map
      QualifiedName.className).toFinset) ⊆ names := by
    intro t ht
    obtain ⟨n, hn, rfl⟩ := List.mem_map.1 (List.mem_toFinset.1 ht)
    obtain ⟨next, bytes, hbytes, -⟩ := hfound n hn
    exact hnames n bytes hbytes
  have hnodup : ((recordedWalk lookup fuel visited name).1.dropLast.map
      QualifiedName.className).Nodup :=
    hdistinct.sublist ((List.dropLast_sublist _).map _)
  have hcard := Finset.card_le_card hsub
  rw [List.toFinset_card_of_nodup hnodup, List.length_map, List.length_dropLast] at hcard
  omega

end

namespace ClassSource

theorem walk_ne_unfinished (s : ClassSource) (name : QualifiedName) :
    s.walk name ≠ .unfinished := by
  obtain ⟨pool, hextent, hpool⟩ := s.finite
  have hused : UsedAnswers pool [] [name.className] := ⟨by simp, by simp, by simp⟩
  exact superClassWalk_ne_unfinished hpool hused (by simpa using hextent)

/-- The walk decides whether superclasses lead to a throwable root, ends after as many lookups as
there are classes to find and one more, and reports where and why it gave up. -/
theorem isThrowable_decides_superclasses (s : ClassSource) (names : Finset Text)
    (hanswers : ∀ n f, s.lookup n = .error f → ∃ cause, f = .classFile cause)
    (hnames : ∀ n bytes, s.lookup n = .ok (some bytes) → n.className ∈ names)
    (name : QualifiedName) :
    (∃ asked, recordedWalk s.lookup (s.extent + 2) [] name = (asked, s.walk name) ∧
      (asked.map QualifiedName.className).Nodup ∧ asked.length ≤ names.card + 1 ∧
      ∀ other, (∀ n ∈ asked, other n = s.lookup n) →
        superClassWalk other (s.extent + 2) [] name = s.walk name) ∧
    ((s.isThrowable name).result = .ok true ↔
      ∃ passed root, Passage s.lookup name passed root ∧
        ((passed ++ [root]).map QualifiedName.className).Nodup ∧
        root.className ∈ throwableRoots) ∧
    (∃ b, (s.isThrowable name).result = .ok b) ∧
    ∃ passed stop, Passage s.lookup name passed stop ∧
      Verdict s.lookup (passed.map QualifiedName.className) stop (s.isThrowable name) := by
  have hend := s.walk_ne_unfinished name
  obtain ⟨passed, stop, hpassage, -, hstop⟩ := superClassWalk_passage hend
  rw [List.append_nil] at hstop
  have hverdict := hstop.verdict hanswers
  refine ⟨⟨_, Prod.ext rfl (recordedWalk_snd _ _ _), ?_, ?_, ?_⟩, ⟨?_, ?_⟩,
    hverdict.exists_result, passed, stop, hpassage, hverdict⟩
  · exact (recordedWalk_lookups _ _ _ _).1
  · exact length_recordedWalk_le hnames _ _ _
  · exact fun other hagree => superClassWalk_congr hagree
  · intro htrue
    have hroot := hverdict.root_of_true htrue
    exact ⟨passed, stop, hpassage, hpassage.stop_new hroot, hroot⟩
  · intro h
    obtain ⟨passed, root, hpassage, -, hroot⟩ := h
    have hwalk := superClassWalk_of_passage hpassage (by simp) hroot hend
    rw [isThrowable, walk, hwalk]
    rfl

/-- A class `E` whose superclass is `java.lang.Error`. -/
def errorSubclassBytes : List UInt8 :=
  [0xCA, 0xFE, 0xBA, 0xBE, 0, 0, 0, 52, 0, 5, 1, 0, 1, 69, 7, 0, 1,
    1, 0, 15, 106, 97, 118, 97, 47, 108, 97, 110, 103, 47, 69, 114, 114, 111, 114, 7, 0, 3,
    0, 32, 0, 2, 0, 4, 0, 0, 0, 0, 0, 0]

/-- Only the class `E` is found. -/
def errorSubclass : ClassSource where
  lookup n := if n.className = "E" then .ok (some errorSubclassBytes) else .ok none
  extent := 1
  finite := by
    refine ⟨[errorSubclassBytes], le_rfl, ?_⟩
    intro n bytes h
    split at h
    · simpa using h.symm
    · cases h

theorem isThrowable_errorSubclass :
    (∀ n f, errorSubclass.lookup n = .error f → ∃ cause, f = .classFile cause) ∧
    (∀ n bytes, errorSubclass.lookup n = .ok (some bytes) →
      n.className ∈ ({("E" : Text)} : Finset Text)) ∧
    (errorSubclass.isThrowable ⟨"E", none⟩).result = .ok true := by
  have hanswers : ∀ n f, errorSubclass.lookup n = .error f → ∃ cause, f = .classFile cause := by
    intro n f h
    simp only [errorSubclass] at h
    split at h
    · cases h
    · cases h
  have hnames : ∀ n bytes, errorSubclass.lookup n = .ok (some bytes) →
      n.className ∈ ({("E" : Text)} : Finset Text) := by
    intro n bytes h
    simp only [errorSubclass] at h
    split at h
    · next hname => exact Finset.mem_singleton.2 hname
    · cases h
  have hup : SuperClass errorSubclass.lookup ⟨"E", none⟩ ⟨"java.lang.Error", none⟩ :=
    ⟨errorSubclassBytes, rfl, by decide +kernel⟩
  have hpassage : Passage errorSubclass.lookup ⟨"E", none⟩ [⟨"E", none⟩]
      ⟨"java.lang.Error", none⟩ := by
    refine ⟨.up hup (.stay _), by simp, ?_⟩
    intro n hn
    obtain rfl := List.mem_singleton.1 hn
    exact ⟨by decide, by decide⟩
  have hroot : (⟨"java.lang.Error", none⟩ : QualifiedName).className ∈ throwableRoots := by decide
  have h := isThrowable_decides_superclasses errorSubclass {("E" : Text)} hanswers hnames
    ⟨"E", none⟩
  exact ⟨hanswers, hnames, h.2.1.2 ⟨_, _, hpassage, hpassage.stop_new hroot, hroot⟩⟩

end ClassSource

end JniHeader
