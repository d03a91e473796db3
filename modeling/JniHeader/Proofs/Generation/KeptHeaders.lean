import JniHeader.Proofs.Generation.Lookups
import JniHeader.Proofs.Header.Refusals
import JniHeader.Proofs.Search.SettledLookups

/-!
# Headers from kept lookups

Where every lookup is kept or refused, a walk along superclasses ends as before or fails
with a refusal, for what is refused is no fault of a class file. So a header that comes
out although lookups may be refused is the one that came out before: it has asked the
same questions and was given the same answers.
-/
namespace JniHeader

variable {lookup lookup' : QualifiedName → Except Failure (Option (List UInt8))}

theorem superClassWalk_kept (h : ∀ n, Kept (lookup n) (lookup' n)) (fuel : ℕ)
    (visited : List Text) (name : QualifiedName) :
    superClassWalk lookup' fuel visited name = superClassWalk lookup fuel visited name ∨
      ∃ e, superClassWalk lookup' fuel visited name = .failed (.file e) := by
  induction fuel generalizing visited name with
  | zero => exact .inl rfl
  | succ fuel ih =>
      rw [superClassWalk, superClassWalk]
      split_ifs
      · exact .inl rfl
      · exact .inl rfl
      · exact .inl rfl
      · rcases h name with hsame | ⟨e, he⟩
        · have hstep : superClassStep lookup' name = superClassStep lookup name := by
            rw [superClassStep, superClassStep, hsame]
          rw [hstep]
          split
          · exact .inl rfl
          · exact ih _ _
        · have hstep : superClassStep lookup' name = .inl (.failed (.file e)) := by
            simp only [superClassStep, he]
          rw [hstep]
          exact .inr ⟨e, rfl⟩

namespace ClassSource

variable {s s' : ClassSource}

theorem walk_kept (h : ∀ n, Kept (s.lookup n) (s'.lookup n)) (name : QualifiedName) :
    s'.walk name = s.walk name ∨ ∃ e, s'.walk name = .failed (.file e) := by
  obtain ⟨fuel, hwalk, hwalk'⟩ := exists_fuel s s' name
  rw [← hwalk, ← hwalk']
  exact superClassWalk_kept h fuel [] name

/-- An answer that is given is the one that was given before. -/
theorem isThrowable_kept (h : ∀ n, Kept (s.lookup n) (s'.lookup n)) {name : QualifiedName}
    {b : Bool} (hanswer : (s'.isThrowable name).result = .ok b) :
    (s.isThrowable name).result = .ok b := by
  rw [isThrowable] at hanswer ⊢
  rcases walk_kept h name with hsame | ⟨e, he⟩
  · rwa [hsame] at hanswer
  · rw [he] at hanswer
    cases hanswer

end ClassSource

section Answers
variable {ask ask' : QualifiedName → Reported Bool}
  (h : ∀ n b, (ask' n).result = .ok b → (ask n).result = .ok b)
include h

namespace NativeType

theorem ofField_kept {t : FieldType} {native : NativeType}
    (hnative : (ofField ask' t).result = .ok native) : (ofField ask t).result = .ok native := by
  match t with
  | .base b => exact hnative
  | .array (.base b) => exact hnative
  | .array (.array t) => exact hnative
  | .array (.object name) => exact hnative
  | .object name =>
      rw [ofField] at hnative ⊢
      split_ifs at hnative ⊢
      · exact hnative
      · exact hnative
      · exact hnative
      · obtain ⟨b, hb, hpure⟩ := Reported.bind_eq_ok_iff.1 hnative
        exact Reported.bind_eq_ok_iff.2 ⟨b, h _ b hb, hpure⟩

theorem ofResult_kept {t : Option FieldType} {native : NativeType}
    (hnative : (ofResult ask' t).result = .ok native) : (ofResult ask t).result = .ok native := by
  cases t with
  | none => exact hnative
  | some t => exact ofField_kept h hnative

theorem ofMethod_kept {m : MethodType} {types : List NativeType × NativeType}
    (htypes : (ofMethod ask' m).result = .ok types) : (ofMethod ask m).result = .ok types := by
  simp only [ofMethod, Reported.bind_eq_ok_iff, Reported.forEach_eq_ok_iff] at htypes ⊢
  obtain ⟨arguments, harguments, result, hresult, hpure⟩ := htypes
  exact ⟨arguments, harguments.imp fun _ _ => ofField_kept h, result, ofResult_kept h hresult,
    hpure⟩

end NativeType

theorem Prototype.Declared.kept {name : QualifiedName} {methods : List NativeMethod}
    {p : Prototype} (hp : p.Declared name ask' methods) : p.Declared name ask methods where
  types := by
    obtain ⟨t, ht, htypes⟩ := NativeType.ofMethodDescriptor_eq_ok_iff.1 hp.types
    exact NativeType.ofMethodDescriptor_eq_ok_iff.2 ⟨t, ht, NativeType.ofMethod_kept h htypes⟩
  symbol := hp.symbol

/-- A header is the same if the questions that it asks have the same answers. -/
theorem Header.text_kept {name : QualifiedName} {m : ClassMeta} {header : Text}
    (hheader : (Header.text name m ask').result = .ok header) :
    (Header.text name m ask).result = .ok header := by
  obtain ⟨constants, ps, hconstants, hmethods, hps, rfl⟩ := text_eq_ok_iff.1 hheader
  exact text_eq_ok_iff.2
    ⟨constants, ps, hconstants, hmethods, fun p hp => (hps p hp).kept h, rfl⟩

end Answers

/-- Only the bytes of a class have a header. -/
theorem headerOf_eq_some_iff {s : ClassSource} {name : QualifiedName} {header : Text} :
    (headerOf s name).result = .ok (some header) ↔
      ∃ bytes m, s.lookup name = .ok (some bytes) ∧ ClassMeta.parse bytes = .ok m ∧
        (Header.text name m s.isThrowable).result = .ok header := by
  constructor
  · intro hheader
    unfold headerOf at hheader
    split at hheader
    · cases hheader
    · cases hheader
    · cases hheader
    · next bytes hbytes =>
        split at hheader
        · cases hheader
        · next m hm =>
            obtain ⟨t, ht, hpure⟩ := Reported.bind_eq_ok_iff.1 hheader
            obtain rfl := Option.some.inj (Except.ok.inj hpure)
            exact ⟨bytes, m, hbytes, hm, ht⟩
  · rintro ⟨bytes, m, hbytes, hm, hheader⟩
    simp only [headerOf, hbytes, hm]
    exact Reported.bind_eq_ok_iff.2 ⟨header, hheader, rfl⟩

/-- A header that comes out where lookups are kept or refused came out before. -/
theorem headerOf_kept {s s' : ClassSource} (h : ∀ n, Kept (s.lookup n) (s'.lookup n))
    {name : QualifiedName} {header : Text}
    (hheader : (headerOf s' name).result = .ok (some header)) :
    (headerOf s name).result = .ok (some header) := by
  obtain ⟨bytes, m, hbytes, hm, ht⟩ := headerOf_eq_some_iff.1 hheader
  have hfound : s.lookup name = .ok (some bytes) := by
    rcases h name with hsame | ⟨e, he⟩
    · rw [← hsame, hbytes]
    · cases he.symm.trans hbytes
  exact headerOf_eq_some_iff.2 ⟨bytes, m, hfound, hm,
    Header.text_kept (fun n b => ClassSource.isThrowable_kept h) ht⟩

end JniHeader
