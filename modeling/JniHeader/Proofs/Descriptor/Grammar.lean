import JniHeader.Proofs.Descriptor.Scanner

/-!
# The grammar of descriptors

The grammar is stated on texts alone: brackets before a base letter or a class
name, and such forms in parentheses before one more. Parsing decides it. The kind
of a text is the kind of its form, a text without form is refused, a method has
one decomposition, and descending from an array to its elements ends after as
many steps as there are brackets.
-/
namespace JniHeader

/-- How many brackets stand before the innermost element. -/
def FieldType.depth : FieldType → ℕ
  | .base _ => 0
  | .object _ => 0
  | .array element => element.depth + 1

namespace Descriptor

/-- The letters of the base types. -/
def baseForms : List Text := ["Z", "B", "C", "S", "I", "J", "F", "D"]

/-- A class name between `L` and the first semicolon. -/
def IsReferenceForm (s : Text) : Prop :=
  ∃ name : Text, name ≠ [] ∧ CodePoint.ofChar ';' ∉ name ∧ s = "L" ++ name ++ ";"

/-- So many brackets before a base letter or a reference. -/
def IsFieldForm (depth : ℕ) (s : Text) : Prop :=
  ∃ innermost : Text, (innermost ∈ baseForms ∨ IsReferenceForm innermost) ∧
    s = List.replicate depth (CodePoint.ofChar '[') ++ innermost

structure IsMethodForm (arguments : List Text) (result s : Text) : Prop where
  argumentForms : ∀ a ∈ arguments, ∃ depth, IsFieldForm depth a
  resultForm : result = "V" ∨ ∃ depth, IsFieldForm depth result
  text : s = "(" ++ arguments.flatten ++ ")" ++ result

/-- What is left after so many descents from an array to its elements. -/
def descend : ℕ → Text → Except Error Text
  | 0, s => .ok s
  | steps + 1, s => (elementType s).bind fun element => descend steps element.text

theorem mem_baseForms_iff {s : Text} :
    s ∈ baseForms ↔ ∃ b : BaseType, (FieldType.base b).text = s := by
  constructor
  · intro h
    simp only [baseForms, List.mem_cons, List.not_mem_nil, or_false] at h
    rcases h with rfl | rfl | rfl | rfl | rfl | rfl | rfl | rfl
    · exact ⟨.boolean, rfl⟩
    · exact ⟨.byte, rfl⟩
    · exact ⟨.char, rfl⟩
    · exact ⟨.short, rfl⟩
    · exact ⟨.int, rfl⟩
    · exact ⟨.long, rfl⟩
    · exact ⟨.float, rfl⟩
    · exact ⟨.double, rfl⟩
  · intro h
    obtain ⟨b, rfl⟩ := h
    cases b <;> decide

theorem isReferenceForm_iff {s : Text} :
    IsReferenceForm s ↔ ∃ name, (FieldType.object name).WellFormed ∧
      (FieldType.object name).text = s := by
  constructor
  · intro h
    obtain ⟨name, hne, hname, rfl⟩ := h
    exact ⟨name, ⟨hne, hname⟩, rfl⟩
  · intro h
    obtain ⟨name, ⟨hne, hname⟩, rfl⟩ := h
    exact ⟨name, hne, hname, rfl⟩

theorem isFieldForm_succ {depth : ℕ} {s : Text} :
    IsFieldForm (depth + 1) s ↔ ∃ r, IsFieldForm depth r ∧ s = CodePoint.ofChar '[' :: r := by
  constructor
  · intro h
    obtain ⟨innermost, hinner, rfl⟩ := h
    exact ⟨_, ⟨innermost, hinner, rfl⟩, by rw [List.replicate_succ, List.cons_append]⟩
  · intro h
    obtain ⟨r, ⟨innermost, hinner, rfl⟩, rfl⟩ := h
    exact ⟨innermost, hinner, by rw [List.replicate_succ, List.cons_append]⟩

/-- The forms of field types are the written forms of well-formed ones. -/
theorem isFieldForm_iff {depth : ℕ} {s : Text} :
    IsFieldForm depth s ↔ ∃ t : FieldType, t.WellFormed ∧ t.depth = depth ∧ t.text = s := by
  constructor
  · intro h
    induction depth generalizing s with
    | zero =>
        obtain ⟨innermost, hinner, rfl⟩ := h
        rcases hinner with hbase | hreference
        · obtain ⟨b, hb⟩ := mem_baseForms_iff.1 hbase
          exact ⟨.base b, trivial, rfl, hb⟩
        · obtain ⟨name, hwell, hname⟩ := isReferenceForm_iff.1 hreference
          exact ⟨.object name, hwell, rfl, hname⟩
    | succ depth ih =>
        obtain ⟨r, hr, rfl⟩ := isFieldForm_succ.1 h
        obtain ⟨t, hwell, hdepth, rfl⟩ := ih hr
        exact ⟨.array t, hwell, congrArg (· + 1) hdepth, rfl⟩
  · intro h
    obtain ⟨t, hwell, rfl, rfl⟩ := h
    induction t with
    | base b => exact ⟨_, .inl (mem_baseForms_iff.2 ⟨b, rfl⟩), rfl⟩
    | object name => exact ⟨_, .inr (isReferenceForm_iff.2 ⟨name, hwell, rfl⟩), rfl⟩
    | array element ih => exact isFieldForm_succ.2 ⟨_, ih hwell, rfl⟩

theorem exists_depth_iff {s : Text} :
    (∃ depth, IsFieldForm depth s) ↔ ∃ t : FieldType, t.WellFormed ∧ t.text = s := by
  constructor
  · intro h
    obtain ⟨depth, h⟩ := h
    obtain ⟨t, hwell, -, ht⟩ := isFieldForm_iff.1 h
    exact ⟨t, hwell, ht⟩
  · intro h
    obtain ⟨t, hwell, ht⟩ := h
    exact ⟨t.depth, isFieldForm_iff.2 ⟨t, hwell, rfl, ht⟩⟩

/-- A list of forms is the list of written forms of well-formed field types. -/
theorem exists_fieldTypes {forms : List Text} (h : ∀ a ∈ forms, ∃ depth, IsFieldForm depth a) :
    ∃ ts : List FieldType, (∀ t ∈ ts, t.WellFormed) ∧ ts.map FieldType.text = forms := by
  induction forms with
  | nil => exact ⟨[], by simp, rfl⟩
  | cons a forms ih =>
      obtain ⟨t, hwell, rfl⟩ := exists_depth_iff.1 (h a (by simp))
      obtain ⟨ts, hwells, rfl⟩ := ih fun b hb => h b (by simp [hb])
      exact ⟨t :: ts, List.forall_mem_cons.2 ⟨hwell, hwells⟩, rfl⟩

theorem isMethodForm_iff {arguments : List Text} {result s : Text} :
    IsMethodForm arguments result s ↔ ∃ m : MethodType, m.WellFormed ∧
      m.arguments.map FieldType.text = arguments ∧ resultText m.result = result ∧ m.text = s := by
  constructor
  · intro h
    obtain ⟨harguments, hresult, rfl⟩ := h
    obtain ⟨ts, hwell, rfl⟩ := exists_fieldTypes harguments
    rcases hresult with rfl | hresult
    · exact ⟨⟨ts, none⟩, ⟨hwell, by simp⟩, rfl, rfl, rfl⟩
    · obtain ⟨r, hr, rfl⟩ := exists_depth_iff.1 hresult
      exact ⟨⟨ts, some r⟩, ⟨hwell, by simpa using hr⟩, rfl, rfl, rfl⟩
  · intro h
    obtain ⟨m, hwell, rfl, rfl, rfl⟩ := h
    refine ⟨?_, ?_, rfl⟩
    · intro a ha
      obtain ⟨t, ht, rfl⟩ := List.mem_map.1 ha
      exact exists_depth_iff.2 ⟨t, hwell.arguments t ht, rfl⟩
    · cases hresult : m.result with
      | none => exact .inl rfl
      | some r => exact .inr (exists_depth_iff.2 ⟨r, hwell.result r hresult, rfl⟩)

theorem map_kind_eq_iff {s : Text} {k : Kind} :
    (parse s).map kind = .ok k ↔ ∃ d : Descriptor, d.WellFormed ∧ d.text = s ∧ d.kind = k := by
  constructor
  · intro h
    cases hd : parse s with
    | error e => simp [hd, Except.map] at h
    | ok d =>
        obtain ⟨hwell, hs⟩ := parse_eq_ok_iff.1 hd
        exact ⟨d, hwell, hs.symm, by simpa [hd, Except.map] using h⟩
  · intro h
    obtain ⟨d, hwell, rfl, rfl⟩ := h
    rw [parse_text hwell]
    rfl

theorem kind_method_iff {s : Text} :
    (parse s).map kind = .ok .method ↔ ∃ arguments result, IsMethodForm arguments result s := by
  rw [map_kind_eq_iff]
  constructor
  · intro h
    obtain ⟨d, hwell, rfl, hkind⟩ := h
    match d with
    | .method m => exact ⟨_, _, isMethodForm_iff.2 ⟨m, hwell, rfl, rfl, rfl⟩⟩
    | .void | .field (.base _) | .field (.object _) | .field (.array _) => cases hkind
  · intro h
    obtain ⟨arguments, result, h⟩ := h
    obtain ⟨m, hwell, -, -, rfl⟩ := isMethodForm_iff.1 h
    exact ⟨.method m, hwell, rfl, rfl⟩

theorem kind_array_iff {s : Text} :
    (parse s).map kind = .ok .array ↔ ∃ depth, IsFieldForm (depth + 1) s := by
  rw [map_kind_eq_iff]
  constructor
  · intro h
    obtain ⟨d, hwell, rfl, hkind⟩ := h
    match d with
    | .field (.array t) => exact ⟨t.depth, isFieldForm_iff.2 ⟨.array t, hwell, rfl, rfl⟩⟩
    | .void | .field (.base _) | .field (.object _) | .method _ => cases hkind
  · intro h
    obtain ⟨depth, h⟩ := h
    obtain ⟨t, hwell, hdepth, rfl⟩ := isFieldForm_iff.1 h
    match t with
    | .array element => exact ⟨.field (.array element), hwell, rfl, rfl⟩
    | .base _ | .object _ => simp [FieldType.depth] at hdepth

theorem kind_reference_iff {s : Text} :
    (parse s).map kind = .ok .reference ↔ IsReferenceForm s := by
  rw [map_kind_eq_iff, isReferenceForm_iff]
  constructor
  · intro h
    obtain ⟨d, hwell, rfl, hkind⟩ := h
    match d with
    | .field (.object name) => exact ⟨name, hwell, rfl⟩
    | .void | .field (.base _) | .field (.array _) | .method _ => cases hkind
  · intro h
    obtain ⟨name, hwell, rfl⟩ := h
    exact ⟨.field (.object name), hwell, rfl, rfl⟩

theorem kind_primitive_iff {s : Text} :
    (parse s).map kind = .ok .primitive ↔ s ∈ baseForms ∨ s = "V" := by
  rw [map_kind_eq_iff, mem_baseForms_iff]
  constructor
  · intro h
    obtain ⟨d, hwell, rfl, hkind⟩ := h
    match d with
    | .void => exact .inr rfl
    | .field (.base b) => exact .inl ⟨b, rfl⟩
    | .field (.object _) | .field (.array _) | .method _ => cases hkind
  · intro h
    rcases h with ⟨b, rfl⟩ | rfl
    · exact ⟨.field (.base b), trivial, rfl, rfl⟩
    · exact ⟨.void, trivial, rfl, rfl⟩

/-- A text is refused exactly when it has none of the forms. -/
theorem parse_eq_error_iff {s : Text} :
    (∃ e, parse s = .error e) ↔ ¬ ((∃ arguments result, IsMethodForm arguments result s) ∨
      (∃ depth, IsFieldForm depth s) ∨ s = "V") := by
  rw [exists_depth_iff]
  constructor
  · intro h hform
    obtain ⟨e, he⟩ := h
    have hok : ∃ d, parse s = .ok d := by
      rcases hform with ⟨arguments, result, h⟩ | ⟨t, hwell, rfl⟩ | rfl
      · obtain ⟨m, hwell, -, -, rfl⟩ := isMethodForm_iff.1 h
        exact ⟨.method m, parse_text (d := .method m) hwell⟩
      · exact ⟨.field t, parse_fieldText hwell⟩
      · exact ⟨.void, rfl⟩
    obtain ⟨d, hd⟩ := hok
    rw [he] at hd
    cases hd
  · intro hform
    cases hd : parse s with
    | error e => exact ⟨e, rfl⟩
    | ok d =>
        obtain ⟨hwell, rfl⟩ := parse_eq_ok_iff.1 hd
        refine absurd ?_ hform
        match d with
        | .void => exact .inr (.inr rfl)
        | .field t => exact .inr (.inl ⟨t, hwell, rfl⟩)
        | .method m => exact .inl ⟨_, _, isMethodForm_iff.2 ⟨m, hwell, rfl, rfl, rfl⟩⟩

/-- A text has a decomposition exactly when it is read as the method with these parts. -/
theorem isMethodForm_iff_parseMethod {arguments : List Text} {result s : Text} :
    IsMethodForm arguments result s ↔ ∃ m, parseMethod s = .ok m ∧
      m.arguments.map FieldType.text = arguments ∧ resultText m.result = result := by
  rw [isMethodForm_iff]
  constructor
  · intro h
    obtain ⟨m, hwell, harguments, hresult, rfl⟩ := h
    exact ⟨m, parseMethod_eq_ok_iff.2 ⟨hwell, rfl⟩, harguments, hresult⟩
  · intro h
    obtain ⟨m, hm, harguments, hresult⟩ := h
    obtain ⟨hwell, hs⟩ := parseMethod_eq_ok_iff.1 hm
    exact ⟨m, hwell, harguments, hresult, hs.symm⟩

theorem IsMethodForm.unique {arguments arguments' : List Text} {result result' s : Text}
    (h : IsMethodForm arguments result s) (h' : IsMethodForm arguments' result' s) :
    arguments' = arguments ∧ result' = result := by
  obtain ⟨m, hm, rfl, rfl⟩ := isMethodForm_iff_parseMethod.1 h
  obtain ⟨m', hm', rfl, rfl⟩ := isMethodForm_iff_parseMethod.1 h'
  obtain rfl : m = m' := by simpa [hm] using hm'
  exact ⟨rfl, rfl⟩

theorem elementType_array {t : FieldType} (ht : t.WellFormed) :
    elementType (FieldType.array t).text = .ok t := by
  rw [elementType, parse_fieldText (t := .array t) ht]

/-- Each descent takes one bracket away. -/
theorem descend_text {t : FieldType} (ht : t.WellFormed) {steps : ℕ} (hsteps : steps ≤ t.depth) :
    ∃ u : FieldType, u.WellFormed ∧ u.depth = t.depth - steps ∧
      descend steps t.text = .ok u.text := by
  induction steps generalizing t with
  | zero => exact ⟨t, ht, rfl, rfl⟩
  | succ steps ih =>
      match t with
      | .base _ | .object _ => simp [FieldType.depth] at hsteps
      | .array element =>
          simp only [FieldType.depth] at hsteps ⊢
          obtain ⟨u, hwell, hdepth, hu⟩ := ih (t := element) ht (by omega)
          refine ⟨u, hwell, by omega, ?_⟩
          rw [descend, elementType_array (t := element) ht]
          exact hu

/-- An array's element is a field type again, and after one descent for each bracket a base type
or a reference is left, before that an array. -/
theorem descend_array {depth : ℕ} {s : Text} (h : IsFieldForm (depth + 1) s) :
    (∃ t, elementType s = .ok t ∧ t.text ≠ "V" ∧ parse t.text = .ok (.field t)) ∧
      (∀ steps ≤ depth, ∃ u, descend steps s = .ok u ∧ (parse u).map kind = .ok .array) ∧
      ∃ u, descend (depth + 1) s = .ok u ∧ u ≠ "V" ∧
        ((parse u).map kind = .ok .primitive ∨ (parse u).map kind = .ok .reference) := by
  obtain ⟨t, hwell, hdepth, rfl⟩ := isFieldForm_iff.1 h
  refine ⟨?_, ?_, ?_⟩
  · match t with
    | .array element =>
        exact ⟨element, elementType_array (t := element) hwell, element.text_ne_void,
          parse_fieldText (t := element) hwell⟩
    | .base _ | .object _ => simp [FieldType.depth] at hdepth
  · intro steps hsteps
    have hle : steps ≤ t.depth := by omega
    obtain ⟨u, hu, hudepth, hdescend⟩ := descend_text hwell hle
    refine ⟨u.text, hdescend, kind_array_iff.2 ⟨depth - steps, ?_⟩⟩
    exact isFieldForm_iff.2 ⟨u, hu, by omega, rfl⟩
  · obtain ⟨u, hu, hudepth, hdescend⟩ := descend_text hwell hdepth.ge
    refine ⟨u.text, hdescend, u.text_ne_void, ?_⟩
    rw [parse_fieldText hu]
    match u with
    | .base _ => exact .inl rfl
    | .object _ => exact .inr rfl
    | .array _ => simp only [FieldType.depth] at hudepth; omega

/-- Parsing decides the grammar, and takes a text of the grammar apart in the only way. -/
theorem parse_decides_grammar (s : Text) :
    ((parse s).map kind = .ok .method ↔
      ∃ arguments result, IsMethodForm arguments result s) ∧
    ((parse s).map kind = .ok .array ↔ ∃ depth, IsFieldForm (depth + 1) s) ∧
    ((parse s).map kind = .ok .reference ↔ IsReferenceForm s) ∧
    ((parse s).map kind = .ok .primitive ↔ s ∈ baseForms ∨ s = "V") ∧
    ((∃ e, parse s = .error e) ↔ ¬ ((∃ arguments result, IsMethodForm arguments result s) ∨
      (∃ depth, IsFieldForm depth s) ∨ s = "V")) ∧
    (∀ arguments result, IsMethodForm arguments result s →
      (∀ arguments' result', IsMethodForm arguments' result' s →
        arguments' = arguments ∧ result' = result) ∧
      (∃ m, parseMethod s = .ok m ∧ m.arguments.map FieldType.text = arguments ∧
        resultText m.result = result ∧
        "(" ++ m.argumentsText ++ ")" ++ resultText m.result = s) ∧
      ∀ a ∈ arguments, a ≠ "V" ∧ ∃ t, parse a = .ok (.field t)) ∧
    (∀ depth, IsFieldForm (depth + 1) s →
      (∃ t, elementType s = .ok t ∧ t.text ≠ "V" ∧ parse t.text = .ok (.field t)) ∧
      (∀ steps ≤ depth, ∃ u, descend steps s = .ok u ∧ (parse u).map kind = .ok .array) ∧
      ∃ u, descend (depth + 1) s = .ok u ∧ u ≠ "V" ∧
        ((parse u).map kind = .ok .primitive ∨ (parse u).map kind = .ok .reference)) := by
  refine ⟨kind_method_iff, kind_array_iff, kind_reference_iff, kind_primitive_iff,
    parse_eq_error_iff, ?_, fun depth h => descend_array h⟩
  intro arguments result h
  refine ⟨fun arguments' result' h' => h.unique h', ?_, ?_⟩
  · obtain ⟨m, hm, harguments, hresult⟩ := isMethodForm_iff_parseMethod.1 h
    exact ⟨m, hm, harguments, hresult, (parseMethod_eq_ok_iff.1 hm).2.symm⟩
  · intro a ha
    obtain ⟨t, ht, rfl⟩ := exists_depth_iff.1 (h.argumentForms a ha)
    exact ⟨t.text_ne_void, t, parse_fieldText ht⟩

/-- Hypotheses and conclusions of the grammar for a method that takes an array and a class. -/
theorem parse_arrayMethod :
    IsMethodForm ["[[J", "La;"] "V" "([[JLa;)V" ∧ IsFieldForm 2 "[[J" ∧
    (∃ m, parseMethod "([[JLa;)V" = .ok m ∧
      m.arguments.map FieldType.text = (["[[J", "La;"] : List Text)) ∧
    ∃ u, descend 2 "[[J" = .ok u ∧ u ≠ "V" := by
  have hlong : IsFieldForm 2 "[[J" := ⟨"J", Or.inl (by decide), rfl⟩
  have hclass : IsFieldForm 0 "La;" := ⟨"La;", Or.inr ⟨"a", by decide, by decide, rfl⟩, rfl⟩
  have hmethod : IsMethodForm ["[[J", "La;"] "V" "([[JLa;)V" := by
    refine ⟨?_, Or.inl rfl, rfl⟩
    intro a ha
    simp only [List.mem_cons, List.not_mem_nil, or_false] at ha
    rcases ha with rfl | rfl
    · exact ⟨2, hlong⟩
    · exact ⟨0, hclass⟩
  obtain ⟨-, -, -, -, -, hparts, -⟩ := parse_decides_grammar "([[JLa;)V"
  obtain ⟨-, -, -, -, -, -, hdescent⟩ := parse_decides_grammar "[[J"
  obtain ⟨-, ⟨m, hm, harguments, -⟩, -⟩ := hparts _ _ hmethod
  obtain ⟨-, -, u, hu, hne, -⟩ := hdescent 1 hlong
  exact ⟨hmethod, hlong, ⟨m, hm, harguments⟩, u, hu, hne⟩

end Descriptor

end JniHeader
