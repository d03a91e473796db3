import JniHeader.Proofs.Descriptor.Grammar
import JniHeader.Proofs.Generation.Lookups
import JniHeader.Proofs.Header.Parts
import JniHeader.Proofs.Meta.ExportedConstants

/-!
# Refused headers

What a class file exports can be written, with one exception: the descriptor of a native
method need not be one. The other stages rely on what comes before them. A constant has
passed the check of its tag, the types of a method are those that the scanner has read,
and a question about superclasses has an answer as long as its lookups fail for faults
of class files alone.
-/
namespace JniHeader

/-- A question is answered if its lookups fail for faults of class files alone. -/
theorem ClassSource.exists_answer {s : ClassSource} {n : QualifiedName}
    (h : ∀ a, Ancestor s.lookup n a → ∀ f, s.lookup a = .error f → ∃ e, f = .classFile e) :
    ∃ b, (s.isThrowable n).result = .ok b := by
  cases hresult : (s.isThrowable n).result with
  | ok b => exact ⟨b, rfl⟩
  | error f =>
      obtain ⟨a, ha, hf, hother⟩ := exists_ancestor_of_error hresult
      obtain ⟨e, rfl⟩ := h a ha f hf
      exact absurd rfl (hother e)

/-- The descriptor of some native method that is no bridge is not the descriptor of a method. -/
def ClassFile.Misdescribed (c : ClassFile) : Prop :=
  ∃ x ∈ c.methods, AccessFlag.native x.accessFlags = true ∧
    AccessFlag.synthetic x.accessFlags = false ∧
    ¬ ∃ arguments result, Descriptor.IsMethodForm arguments result x.descriptor

/-- A header declares all native methods of a class but its bridges. -/
theorem ClassMeta.misdescribed_iff {c : ClassFile} :
    c.Misdescribed ↔
      ∃ x ∈ (ofClassFile c).methods, ¬ ∃ t, Descriptor.parseMethod x.descriptor = .ok t := by
  have hform : ∀ s : Text, (∃ t, Descriptor.parseMethod s = .ok t) ↔
      ∃ arguments result, Descriptor.IsMethodForm arguments result s := by
    intro s
    simp only [Descriptor.isMethodForm_iff_parseMethod]
    constructor
    · rintro ⟨t, ht⟩
      exact ⟨_, _, t, ht, rfl, rfl⟩
    · rintro ⟨_, _, t, ht, -⟩
      exact ⟨t, ht⟩
  simp only [hform]
  constructor
  · rintro ⟨y, hy, hnative, hsynthetic, hdescriptor⟩
    refine ⟨⟨y.name, y.descriptor, AccessFlag.static y.accessFlags⟩,
      List.mem_filterMap.2 ⟨y, hy, ?_⟩, hdescriptor⟩
    rw [ClassFile.Method.native?, hnative, hsynthetic]
    rfl
  · rintro ⟨x, hx, hdescriptor⟩
    obtain ⟨y, hy, hx⟩ := List.mem_filterMap.1 hx
    rw [ClassFile.Method.native?] at hx
    split_ifs at hx with hflags
    obtain rfl := Option.some.inj hx
    rw [Bool.and_eq_true, Bool.not_eq_true'] at hflags
    exact ⟨y, hy, hflags.1, hflags.2, hdescriptor⟩

variable {isThrowable : QualifiedName → Reported Bool}

namespace NativeType

theorem exists_ofField {t : FieldType}
    (h : ∀ n ∈ t.class?, ∃ b, (isThrowable n).result = .ok b) :
    ∃ native, (ofField isThrowable t).result = .ok native := by
  match t with
  | .base b => exact ⟨_, rfl⟩
  | .array (.base b) => exact ⟨_, rfl⟩
  | .array (.object _) => exact ⟨_, rfl⟩
  | .array (.array _) => exact ⟨_, rfl⟩
  | .object name =>
      obtain ⟨b, hb⟩ := h (.ofBinary name) rfl
      rw [ofField]
      split_ifs
      · exact ⟨_, rfl⟩
      · exact ⟨_, rfl⟩
      · exact ⟨_, rfl⟩
      · exact Reported.exists_bind hb ⟨_, rfl⟩

theorem exists_ofResult {result : Option FieldType}
    (h : ∀ t ∈ result, ∀ n ∈ t.class?, ∃ b, (isThrowable n).result = .ok b) :
    ∃ native, (ofResult isThrowable result).result = .ok native := by
  cases result with
  | none => exact ⟨_, rfl⟩
  | some t => exact exists_ofField (h t rfl)

theorem exists_ofMethod {t : MethodType}
    (h : ∀ n ∈ t.classes, ∃ b, (isThrowable n).result = .ok b) :
    ∃ types, (ofMethod isThrowable t).result = .ok types := by
  have harguments : ∀ u ∈ t.arguments, ∃ native, (ofField isThrowable u).result = .ok native :=
    fun u hu => exists_ofField fun n hn =>
      h n (MethodType.mem_classes (List.mem_append_left _ hu) hn)
  have hresult : ∀ u ∈ t.result, ∀ n ∈ u.class?, ∃ b, (isThrowable n).result = .ok b :=
    fun u hu n hn =>
      h n (MethodType.mem_classes (List.mem_append_right _ (Option.mem_toList.2 hu)) hn)
  obtain ⟨arguments, harguments⟩ := Reported.exists_forEach harguments
  obtain ⟨result, hresult⟩ := exists_ofResult hresult
  exact Reported.exists_bind harguments (Reported.exists_bind hresult ⟨_, rfl⟩)

/-- Only a descriptor of a method has the types of a method. -/
theorem ofMethodDescriptor_eq_ok_iff {descriptor : Text} {types : List NativeType × NativeType} :
    (ofMethodDescriptor isThrowable descriptor).result = .ok types ↔
      ∃ t, Descriptor.parseMethod descriptor = .ok t ∧
        (ofMethod isThrowable t).result = .ok types := by
  simp only [← Descriptor.parse_eq_method_iff]
  unfold ofMethodDescriptor
  split
  · next e he => simp [he, unsupported, Reported.fail]
  · next t ht => simp [ht]
  · next d hother hd =>
      simp only [unsupported, Reported.fail, reduceCtorEq, false_iff, not_exists, not_and]
      intro t ht
      exact absurd (Except.ok.inj (hd.symm.trans ht)) (hother t)

theorem ofMethodDescriptor_eq_error {descriptor : Text} {f : Failure}
    (hanswer : ∀ t, Descriptor.parseMethod descriptor = .ok t →
      ∀ n ∈ t.classes, ∃ b, (isThrowable n).result = .ok b)
    (h : (ofMethodDescriptor isThrowable descriptor).result = .error f) :
    ∃ e, f = .descriptor e := by
  unfold ofMethodDescriptor at h
  split at h
  · exact ⟨_, (Except.error.inj h).symm⟩
  · next t ht =>
      obtain ⟨types, htypes⟩ := exists_ofMethod (hanswer t (Descriptor.parse_eq_method_iff.1 ht))
      rw [htypes] at h
      cases h
  · exact ⟨_, (Except.error.inj h).symm⟩

/-- The text of each type in a method descriptor stands for a native type, and so does the
result's. -/
theorem exists_ofDescriptor {t : MethodType} (ht : t.WellFormed)
    (h : ∀ n ∈ t.classes, ∃ b, (isThrowable n).result = .ok b) {a : Text}
    (ha : a ∈ t.arguments.map FieldType.text ++ [resultText t.result]) :
    ∃ native, (ofDescriptor isThrowable a).result = .ok native := by
  have hfield : ∀ u ∈ t.arguments ++ t.result.toList, u.WellFormed →
      ∃ native, (ofDescriptor isThrowable u.text).result = .ok native := by
    intro u hu hwell
    rw [ofDescriptor, Descriptor.parse_fieldText hwell]
    exact exists_ofField fun n hn => h n (MethodType.mem_classes hu hn)
  rcases List.mem_append.1 ha with ha | ha
  · obtain ⟨u, hu, rfl⟩ := List.mem_map.1 ha
    exact hfield u (List.mem_append_left _ hu) (ht.arguments u hu)
  · obtain rfl := List.mem_singleton.1 ha
    cases hresult : t.result with
    | none => exact ⟨.void, rfl⟩
    | some u =>
        refine hfield u (List.mem_append_right _ ?_) (ht.result u hresult)
        rw [hresult]
        exact List.mem_singleton_self u

end NativeType

namespace Header

variable {name : QualifiedName} {m : ClassMeta}

/-- A method whose questions are answered fails only for its descriptor. -/
theorem methodLines_eq_error {x : NativeMethod} {overloaded : Bool} {f : Failure}
    (hanswer : ∀ t, Descriptor.parseMethod x.descriptor = .ok t →
      ∀ n ∈ t.classes, ∃ b, (isThrowable n).result = .ok b)
    (h : (methodLines name isThrowable overloaded x).result = .error f) :
    ∃ e, f = .descriptor e := by
  rcases Reported.bind_eq_error_iff.1 h with h | ⟨types, -, h⟩
  · exact NativeType.ofMethodDescriptor_eq_error hanswer h
  · split at h
    · cases h
    · exact ⟨_, (Except.error.inj h).symm⟩

theorem exists_methodLines {x : NativeMethod} {overloaded : Bool} {t : MethodType}
    (ht : Descriptor.parseMethod x.descriptor = .ok t)
    (hanswer : ∀ n ∈ t.classes, ∃ b, (isThrowable n).result = .ok b) :
    ∃ ls, (methodLines name isThrowable overloaded x).result = .ok ls := by
  obtain ⟨types, htypes⟩ := NativeType.exists_ofMethod hanswer
  have hdescriptor := NativeType.ofMethodDescriptor_eq_ok_iff.2 ⟨t, ht, htypes⟩
  have hsymbol : ∃ symbol, x.symbol name.className overloaded = .ok symbol := by
    unfold NativeMethod.symbol
    rw [ht]
    split_ifs
    · exact ⟨_, rfl⟩
    · exact ⟨_, rfl⟩
  obtain ⟨symbol, hsymbol⟩ := hsymbol
  refine Reported.exists_bind hdescriptor ?_
  rw [hsymbol]
  exact ⟨_, rfl⟩

variable (hconstants : ∀ x ∈ m.constants, ∃ ls, x.lines name.mangled = .ok ls)
  (hanswer : ∀ n ∈ m.classes, ∃ b, (isThrowable n).result = .ok b)
include hconstants hanswer

theorem text_eq_error {f : Failure} (h : (text name m isThrowable).result = .error f) :
    ∃ e, f = .descriptor e := by
  simp only [text, lines, Reported.bind_eq_error_iff] at h
  rcases h with (h | ⟨constants, -, h | ⟨blocks, -, h⟩⟩) | ⟨ls, -, h⟩
  · obtain ⟨x, hx, hf⟩ := Reported.exists_mem_of_forEach_eq_error h
    obtain ⟨ls, hls⟩ := hconstants x hx
    rw [constantLines, hls] at hf
    cases hf
  · obtain ⟨x, hx, hf⟩ := Reported.exists_mem_of_forEach_eq_error h
    refine methodLines_eq_error ?_ hf
    exact fun t ht n hn => hanswer n (ClassMeta.mem_classes hx ht hn)
  · cases h
  · cases h

theorem exists_text_iff :
    (∃ header, (text name m isThrowable).result = .ok header) ↔
      ∀ x ∈ m.methods, ∃ t, Descriptor.parseMethod x.descriptor = .ok t := by
  constructor
  · rintro ⟨header, h⟩ x hx
    obtain ⟨constants, ps, -, hmethods, hps, -⟩ := text_eq_ok_iff.1 h
    rw [← hmethods] at hx
    obtain ⟨p, hp, rfl⟩ := List.mem_map.1 hx
    obtain ⟨t, ht, -⟩ := NativeType.ofMethodDescriptor_eq_ok_iff.1 (hps p hp).types
    exact ⟨t, ht⟩
  · intro h
    obtain ⟨constants, hc⟩ : ∃ constants,
        (Reported.forEach (constantLines name) m.constants).result = .ok constants :=
      Reported.exists_forEach fun x hx =>
        (hconstants x hx).imp fun ls hls => constantLines_eq_ok_iff.2 hls
    obtain ⟨blocks, hb⟩ : ∃ blocks, (Reported.forEach (fun x =>
        methodLines name isThrowable (isOverloaded m.methods x.name) x) m.methods).result =
          .ok blocks := by
      apply Reported.exists_forEach
      intro x hx
      obtain ⟨t, ht⟩ := h x hx
      exact exists_methodLines ht fun n hn => hanswer n (ClassMeta.mem_classes hx ht hn)
    have hlines : ∃ ls, (lines name m isThrowable).result = .ok ls :=
      Reported.exists_bind hc (Reported.exists_bind hb ⟨_, rfl⟩)
    obtain ⟨ls, hls⟩ := hlines
    exact Reported.exists_bind hls ⟨_, rfl⟩

end Header

/-- Whether a class that was read has a header is decided by the descriptors of its native
methods, and every refusal is one of a descriptor. All constants have literals, and all types of
a method have native types, also when each is read once more on its own. -/
theorem ClassMeta.refused_iff_misdescribed (source : ClassSource) (name : QualifiedName)
    {bytes : List UInt8} {m : ClassMeta} (hparse : ClassMeta.parse bytes = .ok m)
    (hlookups : ∀ n ∈ m.classes, ∀ a, Ancestor source.lookup n a →
      ∀ f, source.lookup a = .error f → ∃ e, f = .classFile e) :
    ∃ c, ClassFile.parse bytes = .ok c ∧
      ((∃ f, (Header.text name m source.isThrowable).result = .error f) ↔ c.Misdescribed) ∧
      (∀ f, (Header.text name m source.isThrowable).result = .error f → ∃ e, f = .descriptor e) ∧
      (∀ x ∈ m.constants, x.value.Fits x.descriptor ∧ ∃ t, x.literal = .ok t) ∧
      ∀ x ∈ m.methods, ∀ arguments result,
        Descriptor.IsMethodForm arguments result x.descriptor → ∀ a ∈ arguments ++ [result],
          ∃ native, (NativeType.ofDescriptor source.isThrowable a).result = .ok native := by
  obtain ⟨c, hc, rfl⟩ := exists_classFile hparse
  have hconstants : ∀ x ∈ (ofClassFile c).constants, ∃ ls, x.lines name.mangled = .ok ls :=
    fun x hx => exists_lines hparse hx name.mangled
  have hanswer : ∀ n ∈ (ofClassFile c).classes, ∃ b, (source.isThrowable n).result = .ok b :=
    fun n hn => ClassSource.exists_answer (hlookups n hn)
  refine ⟨c, hc, ?_, ?_, ?_, ?_⟩
  · have htext := Header.exists_text_iff hconstants hanswer
    rw [misdescribed_iff]
    cases hresult : (Header.text name (ofClassFile c) source.isThrowable).result with
    | ok header =>
        have hall := htext.1 ⟨header, hresult⟩
        simp only [reduceCtorEq, exists_false, false_iff]
        rintro ⟨x, hx, hdescriptor⟩
        exact hdescriptor (hall x hx)
    | error f =>
        have hnot : ¬ ∀ x ∈ (ofClassFile c).methods,
            ∃ t, Descriptor.parseMethod x.descriptor = .ok t := by
          intro hall
          obtain ⟨header, hheader⟩ := htext.2 hall
          rw [hresult] at hheader
          cases hheader
        simpa only [Except.error.injEq, exists_eq', true_iff, not_forall, exists_prop] using hnot
  · exact fun f hf => Header.text_eq_error hconstants hanswer hf
  · intro x hx
    have hfits := ClassMeta.fits_of_parse hparse hx
    exact ⟨hfits, Constant.exists_literal hfits⟩
  · intro x hx arguments result hform a ha
    obtain ⟨t, ht, rfl, rfl⟩ := Descriptor.isMethodForm_iff_parseMethod.1 hform
    refine NativeType.exists_ofDescriptor (Descriptor.parseMethod_eq_ok_iff.1 ht).1 ?_ ha
    exact fun n hn => hanswer n (mem_classes hx ht hn)

/-- The native method of `A` takes an object of the class `E`, or of a class without a name. -/
theorem ClassMeta.refused_iff_misdescribed_user :
    (∃ c, ClassFile.parse (userBytes [69]) = .ok c ∧ ¬ c.Misdescribed) ∧
      ∃ c, ClassFile.parse (userBytes []) = .ok c ∧ c.Misdescribed := by
  let source : ClassSource := SearchPath.source (userAndErrorHost [69])
    [.directory userRoot, .directory errorRoot]
  have hfound : source.lookup ⟨"A", none⟩ = .ok (some (userBytes [69])) := by decide +kernel
  have hnamed : ClassMeta.parse (userBytes [69]) = .ok ⟨none, [], [⟨"f", "(LE;)V", false⟩]⟩ := by
    decide +kernel
  have hnameless : ClassMeta.parse (userBytes []) = .ok ⟨none, [], [⟨"f", "(L;)V", false⟩]⟩ := by
    decide +kernel
  constructor
  · obtain ⟨c, hc, hiff, -⟩ := refused_iff_misdescribed source ⟨"A", none⟩ hnamed (by
      intro n hn a ha f hf
      rcases consults_userAndErrorHost (.ancestor hfound hnamed hn ha) with rfl | rfl | rfl
      · rw [hfound] at hf
        cases hf
      · have he : source.lookup ⟨"E", none⟩ =
            .ok (some ClassSource.errorSubclassBytes) := by decide +kernel
        rw [he] at hf
        cases hf
      · have hnone : source.lookup ⟨"java.lang.Error", none⟩ = .ok none := by decide +kernel
        rw [hnone] at hf
        cases hf)
    refine ⟨c, hc, fun h => ?_⟩
    obtain ⟨f, hf⟩ := hiff.2 h
    have hok : (Header.text ⟨"A", none⟩ ⟨none, [], [⟨"f", "(LE;)V", false⟩]⟩
        source.isThrowable).result.isOk = true := by decide +kernel
    rw [hf] at hok
    cases hok
  · obtain ⟨c, hc, hiff, -⟩ := refused_iff_misdescribed source ⟨"A", none⟩ hnameless (by
      intro n hn
      cases hn)
    refine ⟨c, hc, hiff.1 ⟨.descriptor (.fault .reference "(L;)V"), ?_⟩⟩
    decide +kernel

end JniHeader
