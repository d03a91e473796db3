import JniHeader.Generation.Basic
import JniHeader.Proofs.Header.Comparison
import JniHeader.Proofs.NativeType.Throwable
import JniHeader.Proofs.NativeType.WalkLookups

/-!
# The lookups behind a header

The header of a class depends on its source through the lookups of the class
itself, of the classes that its native methods name, and of the classes above
those. Sources that agree on these give one header, with one report.
-/
namespace JniHeader

/-- The classes whose lookups the header of a class depends on. -/
inductive Consults (lookup : QualifiedName → Except Failure (Option (List UInt8)))
    (name : QualifiedName) : QualifiedName → Prop
  | requested : Consults lookup name name
  | ancestor {bytes : List UInt8} {m : ClassMeta} {n a : QualifiedName} :
      lookup name = .ok (some bytes) → ClassMeta.parse bytes = .ok m → n ∈ m.classes →
      Ancestor lookup n a → Consults lookup name a

/-- What the header of a class that is found depends on. -/
theorem Consults.eq_or_ancestor
    {lookup : QualifiedName → Except Failure (Option (List UInt8))} {name a : QualifiedName}
    {bytes : List UInt8} {m : ClassMeta} (hfound : lookup name = .ok (some bytes))
    (hparse : ClassMeta.parse bytes = .ok m) (h : Consults lookup name a) :
    a = name ∨ ∃ n ∈ m.classes, Ancestor lookup n a := by
  cases h with
  | requested => exact .inl rfl
  | ancestor hfound' hparse' hn ha =>
      obtain rfl := Option.some.inj (Except.ok.inj (hfound.symm.trans hfound'))
      obtain rfl := Except.ok.inj (hparse.symm.trans hparse')
      exact .inr ⟨_, hn, ha⟩

namespace ClassSource

variable {s s' : ClassSource}

/-- Two sources may have different extents, but there is fuel for the walks of both. -/
theorem exists_fuel (s s' : ClassSource) (name : QualifiedName) :
    ∃ fuel, superClassWalk s.lookup fuel [] name = s.walk name ∧
      superClassWalk s'.lookup fuel [] name = s'.walk name := by
  have hmore := superClassWalk_add (s.walk_ne_unfinished name) s'.extent
  have hmore' := superClassWalk_add (s'.walk_ne_unfinished name) s.extent
  have hfuel : s'.extent + 2 + s.extent = s.extent + 2 + s'.extent := by omega
  rw [hfuel] at hmore'
  exact ⟨_, hmore, hmore'⟩

theorem walk_congr {name : QualifiedName}
    (hagree : ∀ a, Ancestor s.lookup name a → s'.lookup a = s.lookup a) :
    s'.walk name = s.walk name := by
  obtain ⟨fuel, hwalk, hwalk'⟩ := exists_fuel s s' name
  rw [← hwalk, ← hwalk']
  exact superClassWalk_congr_ancestors hagree

theorem isThrowable_congr {name : QualifiedName}
    (hagree : ∀ a, Ancestor s.lookup name a → s'.lookup a = s.lookup a) :
    s'.isThrowable name = s.isThrowable name := by
  rw [isThrowable, isThrowable, walk_congr hagree]

/-- A question fails only for a lookup of an ancestor that fails, and for no fault of a class
file. -/
theorem exists_ancestor_of_error {name : QualifiedName} {f : Failure}
    (h : (s.isThrowable name).result = .error f) :
    ∃ a, Ancestor s.lookup name a ∧ s.lookup a = .error f ∧ ∀ e, f ≠ .classFile e := by
  have hwalk : s.walk name = .failed f := by
    unfold isThrowable WalkEnd.report at h
    generalize s.walk name = e at h ⊢
    cases e with
    | failed g =>
        obtain rfl := Except.error.inj h
        rfl
    | throwable => cases h
    | object => cases h
    | noSuperClass => cases h
    | missing n => cases h
    | unreadable n e => cases h
    | cyclic n => cases h
    | unfinished => cases h
  exact exists_ancestor_of_failed hwalk

end ClassSource

/-- Two headers with related prototypes, or none on either side. -/
inductive HeaderLike (T : NativeType → NativeType → Prop) (name : QualifiedName) :
    Option Text → Option Text → Prop
  | absent : HeaderLike T name none none
  | present {constants : List (List Text)} {ps qs : List Prototype} :
      List.Forall₂ (Prototype.Like T) ps qs →
      HeaderLike T name (some (Header.ofPrototypes name constants ps))
        (some (Header.ofPrototypes name constants qs))

theorem HeaderLike.eq {name : QualifiedName} {t t' : Option Text} (h : HeaderLike Eq name t t') :
    t = t' := by
  cases h with
  | absent => rfl
  | present hall =>
      have heq := hall.imp fun _ _ hpq => hpq.eq
      rw [List.forall₂_eq_eq_eq] at heq
      rw [heq]

/-- Only a class that is not found has no header and no failure. -/
theorem lookup_eq_none_of_headerOf {s : ClassSource} {name : QualifiedName}
    (h : (headerOf s name).result = .ok none) : s.lookup name = .ok none := by
  unfold headerOf at h
  split at h
  · cases h
  · cases h
  · next hnone => exact hnone
  · split at h
    · cases h
    · unfold Reported.bind at h
      split at h
      · cases h
      · cases h

open Reported (Agree)

/-- Headers of one class from two sources that find the same bytes for it. -/
theorem agree_headerOf {c : Comparison} {B : Bool → Bool → Prop}
    {T : NativeType → NativeType → Prop} {s s' : ClassSource} {name : QualifiedName}
    (hrefl : ∀ t, T t t)
    (hanswer : ∀ b b', B b b' → T (if b then .throwable else .object)
      (if b' then .throwable else .object))
    (hdescriptor : ∀ e, c.failure (.descriptor e) (.descriptor e))
    (hclassFile : ∀ e, c.failure (.classFile e) (.classFile e))
    (hlookup : s'.lookup name = s.lookup name)
    (hfailure : ∀ f, s.lookup name = .error f → c.failure f f)
    (hparsed : ∀ bytes m, s.lookup name = .ok (some bytes) → ClassMeta.parse bytes = .ok m →
      (∀ x ∈ m.constants, ∀ e, x.lines name.mangled = .error e →
        c.failure (.constant e) (.constant e)) ∧
      ∀ n ∈ m.classes, Agree c B (s.isThrowable n) (s'.isThrowable n)) :
    Agree c (HeaderLike T name) (headerOf s name) (headerOf s' name) := by
  unfold headerOf
  rw [hlookup]
  split
  · next e _ => exact .failure (c.refl _) rfl rfl (hclassFile e)
  · next f _ hf => exact .fail (hfailure f hf)
  · exact .value (c.refl _) rfl rfl .absent
  · next bytes hbytes =>
      split
      · next e _ => exact .failure (c.refl _) rfl rfl (hclassFile _)
      · next m hm =>
          obtain ⟨hconstant, hclasses⟩ := hparsed bytes m hbytes hm
          have htext := Header.agree_text hrefl hanswer hdescriptor hconstant hclasses
          refine htext.bind fun t t' ht => ?_
          obtain ⟨constants, ps, qs, hall, rfl, rfl⟩ := ht
          exact .pure (.present hall)

/-- A header and its report depend on the lookups of the classes that it consults alone. -/
theorem headerOf_congr {s s' : ClassSource} {name : QualifiedName}
    (hagree : ∀ a, Consults s.lookup name a → s'.lookup a = s.lookup a) :
    headerOf s' name = headerOf s name := by
  have hall : Agree .same (HeaderLike Eq name) (headerOf s name) (headerOf s' name) := by
    apply agree_headerOf (B := Eq) (fun _ => rfl)
    · intro b b' hb
      rw [hb]
    · exact fun _ => rfl
    · exact fun _ => rfl
    · exact hagree name .requested
    · exact fun _ _ => rfl
    · intro bytes m hbytes hm
      refine ⟨fun _ _ _ _ => rfl, ?_⟩
      intro n hn
      have hsame : s'.isThrowable n = s.isThrowable n :=
        ClassSource.isThrowable_congr fun a ha => hagree a (.ancestor hbytes hm hn ha)
      rw [hsame]
      cases hresult : (s.isThrowable n).result with
      | ok b => exact .value rfl hresult hresult rfl
      | error f => exact .failure rfl hresult hresult rfl
  exact (hall.imp fun _ _ h => h.eq).eq.symm

/-- A class `A` with a native method that takes an object of a class, whose name is given by its
bytes. -/
def userBytes (name : List UInt8) : List UInt8 :=
  [0xCA, 0xFE, 0xBA, 0xBE, 0, 0, 0, 52, 0, 5, 1, 0, 1, 65, 7, 0, 1, 1, 0, 1, 102,
    1, 0, .ofNat (name.length + 5), 40, 76] ++ name ++ [59, 41, 86, 0, 33, 0, 2, 0, 0, 0, 0, 0, 0,
    0, 1, 1, 1, 0, 3, 0, 4, 0, 0, 0, 0]

/-- The class `A` in one directory, and the class `E`, which is throwable, in another. -/
def userAndErrorHost (name : List UInt8) : Host where
  files :=
    { entries :=
        [(["a"], .directory), (["A.class", "a"], .file { content := ⟨(userBytes name).toArray⟩ }),
          (["e"], .directory),
          (["E.class", "e"], .file { content := ⟨ClassSource.errorSubclassBytes.toArray⟩ })]
      workingDirectory := []
      isTree :=
        { nodup := by
            change ([["a"], ["A.class", "a"], ["e"], ["E.class", "e"]] : List Location).Nodup
            decide
          named := by
            change ∀ location ∈ ([["a"], ["A.class", "a"], ["e"], ["E.class", "e"]] :
              List Location), location.head? ≠ some ".."
            decide
          parent := by
            simp only [List.forall_mem_cons]
            exact ⟨rfl, rfl, rfl, rfl, List.forall_mem_nil _⟩ }
      inside := rfl }
  environment := ⟨none, none, none⟩

def userRoot : FilePath := ⟨.relative, ["a"]⟩

def errorRoot : FilePath := ⟨.relative, ["e"]⟩

theorem consults_userAndErrorHost {a : QualifiedName}
    (ha : Consults (SearchPath.resolve (userAndErrorHost [69])
      [.directory userRoot, .directory errorRoot]) ⟨"A", none⟩ a) :
    a = ⟨"A", none⟩ ∨ a = ⟨"E", none⟩ ∨ a = ⟨"java.lang.Error", none⟩ := by
  let path : SearchPath := [.directory userRoot, .directory errorRoot]
  have hfound : path.resolve (userAndErrorHost [69]) ⟨"A", none⟩ =
      .ok (some (userBytes [69])) := by decide +kernel
  have hparse : ClassMeta.parse (userBytes [69]) =
      .ok ⟨none, [], [⟨"f", "(LE;)V", false⟩]⟩ := by decide +kernel
  have hstep : superClassStep (path.resolve (userAndErrorHost [69])) ⟨"E", none⟩ =
      .inr ⟨"java.lang.Error", none⟩ := by decide +kernel
  have hstop : superClassStep (path.resolve (userAndErrorHost [69])) ⟨"java.lang.Error", none⟩ =
      .inl (.missing ⟨"java.lang.Error", none⟩) := by decide +kernel
  rcases ha.eq_or_ancestor hfound hparse with rfl | ⟨n, hn, ha⟩
  · exact .inl rfl
  · obtain rfl : n = ⟨"E", none⟩ := List.mem_singleton.1 hn
    rcases ha.eq_or_of_step hstep with rfl | ha
    · exact .inr (.inl rfl)
    · exact .inr (.inr (ha.eq_of_stop hstop))

end JniHeader
