import JniHeader.Proofs.Name.Accepted

/-!
# Spelling of names

A name is spelled as a list of segments between dots, after a module spelled in the same
way and a slash if it has one. Names are read from exactly these spellings, each from one,
and printed as they have been read. The module has no part in what a name denotes: the
binary form gives back the name without it, and names are the same as keys if their class
names are.
-/
namespace JniHeader.QualifiedName

/-- A segment of a name. -/
structure IsNamePart (t : Text) : Prop where
  ne_nil : t ≠ []
  undotted : CodePoint.ofChar '.' ∉ t
  unreserved : ∀ c ∈ t, c ∉ ([';', '[', '/'] : List CodePoint)
  unspaced : ∀ c ∈ t, c.isBlank = false

/-- One or more segments with dots between them. -/
def IsDottedList (t : Text) : Prop :=
  ∃ parts : List Text, parts ≠ [] ∧ (∀ part ∈ parts, IsNamePart part) ∧ t = Text.joinWith "." parts

/-- A text spells a name: a dotted class name, or a dotted module, a slash and a dotted class
name. -/
inductive Spells : Text → QualifiedName → Prop
  | plain {className : Text} : IsDottedList className → Spells className ⟨className, none⟩
  | qualified {module className : Text} : IsDottedList module → IsDottedList className →
      Spells (module ++ "/" ++ className) ⟨className, some module⟩

theorem isSegmentCharacter_iff (c : CodePoint) :
    isSegmentCharacter c = true ↔ c ∉ ([';', '[', '/'] : List CodePoint) ∧ c.isBlank = false := by
  simp [isSegmentCharacter, and_assoc]

theorem isNamePart_iff {t : Text} :
    IsNamePart t ↔ isSegment t = true ∧ CodePoint.ofChar '.' ∉ t := by
  rw [isSegment, Bool.and_eq_true, List.all_eq_true, Bool.not_eq_true', List.isEmpty_eq_false_iff]
  simp only [isSegmentCharacter_iff]
  constructor
  · intro h
    exact ⟨⟨h.ne_nil, fun c hc => ⟨h.unreserved c hc, h.unspaced c hc⟩⟩, h.undotted⟩
  · rintro ⟨⟨hne, hall⟩, hdot⟩
    exact ⟨hne, hdot, fun c hc => (hall c hc).1, fun c hc => (hall c hc).2⟩

theorem isDotted_iff {t : Text} : isDotted t = true ↔ IsDottedList t := by
  constructor
  · intro h
    refine ⟨Text.splitAt '.' t, Text.splitAt_ne_nil '.' t, ?_, (Text.joinWith_splitAt '.' t).symm⟩
    intro part hpart
    exact isNamePart_iff.2 ⟨List.all_eq_true.1 h part hpart, Text.not_mem_of_mem_splitAt hpart⟩
  · rintro ⟨parts, hne, hparts, rfl⟩
    have hsplit : Text.splitAt '.' (Text.joinWith "." parts) = parts :=
      Text.splitAt_joinWith hne fun part hpart => (hparts part hpart).undotted
    rw [isDotted, hsplit, List.all_eq_true]
    exact fun part hpart => (isNamePart_iff.1 (hparts part hpart)).1

/-- Text without a slash is read as a class name. -/
theorem parse_of_slash_not_mem {t : Text} (h : CodePoint.ofChar '/' ∉ t) :
    parse t = if isDotted t then .ok ⟨t, none⟩ else .error (.className t) := by
  rw [parse, Text.cutFirst_of_not_mem h]

/-- What precedes the first slash is read as a module. -/
theorem parse_append {module : Text} (h : CodePoint.ofChar '/' ∉ module) (rest : Text) :
    parse (module ++ "/" ++ rest) =
      if !isDotted module then .error (.module (module ++ "/" ++ rest))
      else if !isDotted rest then .error (.className (module ++ "/" ++ rest))
      else .ok ⟨rest, some module⟩ := by
  have hform : module ++ "/" ++ rest = module ++ CodePoint.ofChar '/' :: rest := by
    rw [List.append_assoc]
    rfl
  rw [hform, parse, Text.cutFirst_append h]

/-- A text has no slash, or it is cut at the first one. -/
theorem slash_cases (t : Text) : CodePoint.ofChar '/' ∉ t ∨
    ∃ module rest, CodePoint.ofChar '/' ∉ module ∧ t = module ++ "/" ++ rest := by
  by_cases hslash : CodePoint.ofChar '/' ∈ t
  · obtain ⟨module, rest, ht, hmodule⟩ := List.eq_append_cons_of_mem hslash
    refine .inr ⟨module, rest, hmodule, ?_⟩
    rw [ht, List.append_assoc]
    rfl
  · exact .inl hslash

/-- Names are read from their spellings. -/
theorem parse_eq_ok_iff {t : Text} {n : QualifiedName} : parse t = .ok n ↔ Spells t n := by
  constructor
  · intro h
    rcases slash_cases t with hslash | ⟨module, rest, hslash, rfl⟩
    · rw [parse_of_slash_not_mem hslash] at h
      split_ifs at h with hdotted
      obtain rfl := Except.ok.inj h
      exact .plain (isDotted_iff.1 hdotted)
    · rw [parse_append hslash] at h
      split_ifs at h with hmodule hclass
      obtain rfl := Except.ok.inj h
      exact .qualified (isDotted_iff.1 (by simpa using hmodule))
        (isDotted_iff.1 (by simpa using hclass))
  · intro h
    cases h with
    | plain hclass =>
        have hdotted := isDotted_iff.2 hclass
        rw [parse_of_slash_not_mem (slash_not_mem_of_isDotted hdotted), if_pos hdotted]
    | qualified hmodule hclass =>
        have hmodule := isDotted_iff.2 hmodule
        have hclass := isDotted_iff.2 hclass
        rw [parse_append (slash_not_mem_of_isDotted hmodule), hmodule, hclass]
        rfl

/-- A text that spells no name is refused, for its module or for its class name. -/
theorem parse_eq_error {t : Text} (h : ¬ ∃ n, Spells t n) :
    parse t = .error (.module t) ∨ parse t = .error (.className t) := by
  have hnot : ∀ n, parse t ≠ .ok n := fun n hn => h ⟨n, parse_eq_ok_iff.1 hn⟩
  rcases slash_cases t with hslash | ⟨module, rest, hslash, rfl⟩
  · rw [parse_of_slash_not_mem hslash] at hnot ⊢
    split_ifs at hnot ⊢
    · exact absurd rfl (hnot _)
    · exact .inr rfl
  · rw [parse_append hslash] at hnot ⊢
    split_ifs at hnot ⊢
    · exact .inl rfl
    · exact .inr rfl
    · exact absurd rfl (hnot _)

theorem IsDottedList.ne_nil {t : Text} (h : IsDottedList t) : t ≠ [] := by
  rintro rfl
  exact absurd (isDotted_iff.2 h) (by decide)

/-- A name is printed as it is spelled. -/
theorem Spells.text_eq {t : Text} {n : QualifiedName} (h : Spells t n) : n.text = t := by
  cases h with
  | plain hclass => rfl
  | qualified hmodule hclass =>
      obtain ⟨c, module, rfl⟩ := List.exists_cons_of_ne_nil hmodule.ne_nil
      rfl

/-- A class name without slashes is read back from its binary form. -/
theorem ofBinary_binaryName {n : QualifiedName} (h : CodePoint.ofChar '/' ∉ n.className) :
    ofBinary n.binaryName = ⟨n.className, none⟩ := by
  rw [ofBinary, binaryName, Text.replace_replace h]

theorem sameClass_iff {n n' : QualifiedName} :
    n.sameClass n' = true ↔ n.className = n'.className := beq_iff_eq

/-- Names are read from their spellings and from no other text, and printed as they are spelled.
Their binary form gives back the class name without the module. Two names are the same, and have
the same hash, if their class names are, whatever their modules. -/
theorem parse_inverts_spelling (hashText : Text → UInt64) :
    (∀ t n, parse t = .ok n ↔ Spells t n) ∧
    (∀ t, (¬ ∃ n, Spells t n) → parse t = .error (.module t) ∨ parse t = .error (.className t)) ∧
    (∀ t n, parse t = .ok n → n.text = t ∧ ofBinary n.binaryName = ⟨n.className, none⟩ ∧
      (ofBinary n.binaryName).sameClass n = true) ∧
    ∀ t n t' n', parse t = .ok n → parse t' = .ok n' →
      (n.sameClass n' = true ↔ n.className = n'.className) ∧
      (n.sameClass n' = true → n.hashBy hashText = n'.hashBy hashText) := by
  refine ⟨fun t n => parse_eq_ok_iff, fun t => parse_eq_error, ?_, ?_⟩
  · intro t n h
    have hbinary := ofBinary_binaryName (slash_not_mem_of_parse h)
    refine ⟨(parse_eq_ok_iff.1 h).text_eq, hbinary, ?_⟩
    rw [hbinary, sameClass_iff]
  · intro t n t' n' _ _
    refine ⟨sameClass_iff, fun hsame => ?_⟩
    rw [hashBy, hashBy, sameClass_iff.1 hsame]

/-- Two modules for one class, and a text with two slashes. -/
theorem parse_inverts_spelling_modules :
    let name (module : Text) : QualifiedName := ⟨"a.B", some module⟩
    parse "m/a.B" = .ok (name "m") ∧ parse "n.o/a.B" = .ok (name "n.o") ∧
      (name "m").text = "m/a.B" ∧ (name "m").sameClass (name "n.o") = true ∧
      (name "m").hashBy (fun t => t.length.toUInt64) =
        (name "n.o").hashBy (fun t => t.length.toUInt64) ∧
      ¬ ∃ n, Spells "m/a/B" n := by
  intro name
  have hm : parse "m/a.B" = .ok (name "m") := by decide
  have hn : parse "n.o/a.B" = .ok (name "n.o") := by decide
  obtain ⟨hspells, -, hread, hsame⟩ := parse_inverts_spelling fun t => t.length.toUInt64
  obtain ⟨hclass, hhash⟩ := hsame _ _ _ _ hm hn
  refine ⟨hm, hn, (hread _ _ hm).1, hclass.2 rfl, hhash (hclass.2 rfl), ?_⟩
  rintro ⟨n, hn⟩
  have hparse := (hspells _ _).2 hn
  have hrefused : parse "m/a/B" = .error (.className "m/a/B") := by decide
  rw [hrefused] at hparse
  cases hparse

end JniHeader.QualifiedName
