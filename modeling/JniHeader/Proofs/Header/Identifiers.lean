import JniHeader.Proofs.Header.Layout
import JniHeader.Proofs.Header.Refusals
import JniHeader.Proofs.Name.OpenUnderscores
import JniHeader.Proofs.Name.Symbol

/-!
# Identifiers

A header introduces identifiers with its macros and its prototypes: the include guard, one
macro for each constant and one symbol for each native method. Symbols are told apart by
the texts that they are mangled from, and macros by the names of their constants. Between
a macro and a symbol, open underscores decide: both mangle the separators of the class
name, the macro one more and the symbol at least two. The guard starts with an open
underscore, which neither a macro nor a symbol does.
-/
namespace JniHeader

theorem blank_not_mem_mangle (t : Text) : CodePoint.ofChar ' ' ∉ mangle t :=
  fun h => absurd (val_of_mem_mangle h).1 (by decide)

/-- Exactly the methods that share no name are not overloaded. -/
theorem isOverloaded_append_cons {before after : List NativeMethod} {x : NativeMethod} :
    isOverloaded (before ++ x :: after) x.name = false ↔
      ∀ y ∈ before ++ after, y.name ≠ x.name := by
  have hlength : ((before ++ x :: after).filter fun y => y.name == x.name).length =
      ((before ++ after).filter fun y => y.name == x.name).length + 1 := by
    simp only [List.filter_append, List.filter_cons_of_pos, BEq.rfl, List.length_append,
      List.length_cons]
    omega
  rw [isOverloaded, hlength, decide_eq_false_iff_not, Nat.lt_add_left_iff_pos, Nat.pos_iff_ne_zero,
    not_not, List.length_eq_zero_iff, List.filter_eq_nil_iff]
  simp only [beq_iff_eq]

namespace NativeMethod

/-- The argument types, if the descriptor is one of a method. -/
def argumentTypes? (x : NativeMethod) : Option (List FieldType) :=
  (Descriptor.parseMethod x.descriptor).toOption.map MethodType.arguments

/-- By this the methods of a class differ. -/
def signature (x : NativeMethod) : Text × Option (List FieldType) := (x.name, x.argumentTypes?)

/-- The method has names that a symbol can tell apart. -/
structure Mangleable (x : NativeMethod) : Prop where
  nameJoined : x.name.Joined
  descriptorJoined : x.descriptor.Joined
  name_ne_nil : x.name ≠ []
  nameStartsPlain : x.name.StartsPlain
  nameFree : ∀ c ∈ (['.', ';', '[', '/'] : List CodePoint), c ∉ x.name
  argumentsDivided : ∀ ts ∈ x.argumentTypes?, ∀ t ∈ ts, t.Divided

instance (x : NativeMethod) : Decidable x.Mangleable :=
  decidable_of_iff (x.name.Joined ∧ x.descriptor.Joined ∧ x.name ≠ [] ∧ x.name.StartsPlain ∧
      (∀ c ∈ (['.', ';', '[', '/'] : List CodePoint), c ∉ x.name) ∧
      ∀ ts ∈ x.argumentTypes?, ∀ t ∈ ts, t.Divided)
    ⟨fun h => ⟨h.1, h.2.1, h.2.2.1, h.2.2.2.1, h.2.2.2.2.1, h.2.2.2.2.2⟩, fun h =>
      ⟨h.nameJoined, h.descriptorJoined, h.name_ne_nil, h.nameStartsPlain, h.nameFree,
        h.argumentsDivided⟩⟩

variable {x : NativeMethod} {className symbol : Text} {overloaded : Bool}

theorem argumentTypes?_of_parse {type : MethodType}
    (h : Descriptor.parseMethod x.descriptor = .ok type) :
    x.argumentTypes? = some type.arguments := by
  rw [argumentTypes?, h]
  rfl

theorem blank_not_mem_symbol (h : x.symbol className overloaded = .ok symbol) :
    CodePoint.ofChar ' ' ∉ symbol := by
  have hshort : CodePoint.ofChar ' ' ∉ shortSymbol className x.name := by
    simp only [shortSymbol, List.mem_append, not_or]
    exact ⟨⟨⟨by decide, blank_not_mem_mangle _⟩, by decide⟩, blank_not_mem_mangle _⟩
  rw [NativeMethod.symbol] at h
  split_ifs at h
  · cases htype : Descriptor.parseMethod x.descriptor with
    | error e =>
        rw [htype] at h
        cases h
    | ok type =>
        rw [htype] at h
        obtain rfl := Except.ok.inj h
        simp only [longSymbol, List.mem_append, not_or]
        exact ⟨⟨hshort, by decide⟩, blank_not_mem_mangle _⟩
  · obtain rfl := Except.ok.inj h
    exact hshort

/-- The symbol of an overloaded method is longer than the short one. -/
theorem eq_shortSymbol_iff (h : x.symbol className overloaded = .ok symbol) :
    symbol = shortSymbol className x.name ↔ overloaded = false := by
  cases overloaded with
  | false =>
      obtain rfl := Except.ok.inj h
      simp
  | true =>
      rw [NativeMethod.symbol, if_pos rfl] at h
      cases htype : Descriptor.parseMethod x.descriptor with
      | error e =>
          rw [htype] at h
          cases h
      | ok type =>
          rw [htype] at h
          obtain rfl := Except.ok.inj h
          have hne : longSymbol className x.name type.argumentsText ≠
              shortSymbol className x.name := by
            intro heq
            have hlength := congrArg List.length heq
            rw [longSymbol, List.length_append, List.length_append] at hlength
            have htwo : ("__" : Text).length = 2 := rfl
            omega
          simp [hne]

end NativeMethod

theorem QualifiedName.divided_of_parse {text : Text} {name : QualifiedName}
    (hname : parse text = .ok name)
    (hplain : ∀ part ∈ Text.splitAt '.' name.className, Text.StartsPlain part) :
    Text.Divided '.' [';', '[', '/'] name.className where
  ne_nil := fun _ hpart => ne_nil_of_isSegment (isSegment_of_parse hname hpart)
  startsPlain := hplain
  free := by
    have hexcluded : ∀ c ∈ ([';', '[', '/'] : List CodePoint),
        c ≠ CodePoint.ofChar '.' ∧ isSegmentCharacter c = false := by decide
    intro c hc hmem
    obtain ⟨hdot, hcharacter⟩ := hexcluded c hc
    obtain ⟨part, hpart, hmem⟩ := Text.exists_mem_splitAt hmem hdot
    have hsegment := (Bool.and_eq_true_iff.1 (isSegment_of_parse hname hpart)).2
    rw [List.all_eq_true.1 hsegment c hmem] at hcharacter
    cases hcharacter

/-- A divided name starts with none of the characters that it excludes or is divided by. -/
theorem Text.Divided.exists_cons {sep : CodePoint} {excluded : List CodePoint} {t : Text}
    (h : Text.Divided sep excluded t) : ∃ c rest, t = c :: rest ∧ c ≠ sep ∧ c ∉ excluded := by
  cases t with
  | nil => exact absurd rfl (h.ne_nil [] List.mem_cons_self)
  | cons c rest =>
      refine ⟨c, rest, rfl, ?_, ?_⟩
      · rintro rfl
        exact h.ne_nil [] (by rw [Text.splitAt_sep]; exact List.mem_cons_self) rfl
      · exact fun hc => h.free c hc List.mem_cons_self

namespace ExportedMethod

variable (e : ExportedMethod)

theorem className_startsPlain : Text.StartsPlain e.className := by
  intro c hc
  rcases Text.eq_sep_or_mem_head_splitAt '.' hc with rfl | ⟨part, hpart, hhead⟩
  · decide
  · exact e.classDivided.startsPlain part hpart c hhead

theorem className_ne_nil : e.className ≠ [] := by
  obtain ⟨c, rest, hclass, -⟩ := e.classDivided.exists_cons
  rw [hclass]
  exact List.cons_ne_nil c rest

/-- A symbol mangles the separators of the class name, one in front of it and one behind it. -/
theorem openUnderscores_symbol :
    (e.className.countP fun c => decide c.IsSeparator) + 2 ≤
      Text.openUnderscores ("Java_" ++ mangle e.source) := by
  have hmangle : "Java_" ++ mangle e.source = mangle ("Java/" ++ e.source) := by
    rw [mangle_append]
    rfl
  have hstart : Text.StartsPlain e.source := by
    have hstem : Text.StartsPlain e.stem := e.className_startsPlain.append e.className_ne_nil
    unfold source
    split_ifs
    · exact hstem.append (List.append_ne_nil_of_left_ne_nil e.className_ne_nil _)
    · exact hstem
  have hguarded : Text.Guarded ("Java/" ++ e.source) := by
    have hslash : Text.Guarded (CodePoint.ofChar '/' :: e.source) :=
      e.sourceGuarded.cons_of_startsPlain hstart
    exact (((hslash.cons (by decide)).cons (by decide)).cons (by decide)).cons (by decide)
  have hprefix : (("Java/" : Text).countP fun c => decide c.IsSeparator) = 1 := by decide
  have hslash : decide (CodePoint.ofChar '/').IsSeparator = true := by decide
  have hstem : (e.stem.countP fun c => decide c.IsSeparator) ≥
      (e.className.countP fun c => decide c.IsSeparator) + 1 := by
    rw [stem, List.countP_append, List.countP_cons_of_pos (by exact hslash)]
    omega
  have hsource : (e.source.countP fun c => decide c.IsSeparator) ≥
      (e.stem.countP fun c => decide c.IsSeparator) := by
    unfold source
    split_ifs
    · rw [List.countP_append]
      omega
    · exact Nat.le_refl _
  rw [hmangle, openUnderscores_mangle hguarded, List.countP_append, hprefix]
  omega

/-- Methods of one class with one mangled source have one name and, if they are overloaded, the
same argument types. -/
theorem signature_of_mangle_eq {e e' : ExportedMethod} (h : mangle e.source = mangle e'.source) :
    e.method.name = e'.method.name ∧
      (e.overloaded = true → e.type.arguments = e'.type.arguments) := by
  have hsource := replace_dot_of_mangle_eq e.sourceJoined e'.sourceJoined e.sourceGuarded
    e'.sourceGuarded h
  obtain ⟨-, hname, -, harguments⟩ := parts_injective (congrArg (Text.splitAt '/') hsource)
  refine ⟨hname, fun hoverloaded => ?_⟩
  exact flatMap_text_injective e.typeWellFormed.1.arguments e'.typeWellFormed.1.arguments
    (harguments hoverloaded)

end ExportedMethod

namespace Constant

variable {x : Constant} {className : Text}

theorem macroName_eq_mangle (className : Text) (x : Constant) :
    x.macroName (mangle className) = mangle (className ++ CodePoint.ofChar '/' :: x.name) := by
  rw [mangle_append, mangle_cons, macroName, List.append_assoc]
  rfl

/-- A macro mangles the separators of the class name and the one behind it. -/
theorem openUnderscores_macroName (h : ∀ c ∈ x.name, ¬ c.IsSeparator) :
    Text.openUnderscores (x.macroName (mangle className)) ≤
      (className.countP fun c => decide c.IsSeparator) + 1 := by
  have hname : (x.name.countP fun c => decide c.IsSeparator) = 0 :=
    List.countP_eq_zero.2 fun c hc => by simpa using h c hc
  have hslash : decide (CodePoint.ofChar '/').IsSeparator = true := by decide
  rw [macroName_eq_mangle]
  refine (openUnderscores_mangle_le _).trans ?_
  rw [List.countP_append, List.countP_cons_of_pos (by exact hslash), hname]

/-- Macros of one class are told apart by the names of the constants. -/
theorem name_eq_of_macroName_eq {x y : Constant} {mangled : Text} (hx : x.name.Joined)
    (hy : y.name.Joined) (hx' : ∀ c ∈ x.name, ¬ c.IsSeparator)
    (hy' : ∀ c ∈ y.name, ¬ c.IsSeparator) (h : x.macroName mangled = y.macroName mangled) :
    x.name = y.name := by
  have hguarded : ∀ t : Text, (∀ c ∈ t, ¬ c.IsSeparator) → t.Guarded := by
    intro t ht
    induction t with
    | nil => exact List.isChain_nil
    | cons c t ih =>
        obtain ⟨hc, ht⟩ := List.forall_mem_cons.1 ht
        exact (ih ht).cons hc
  have hdot : ∀ t : Text, (∀ c ∈ t, ¬ c.IsSeparator) → Text.replace '.' '/' t = t :=
    fun t ht => Text.replace_of_not_mem fun hmem => ht _ hmem (.inl rfl)
  have hmangle : mangle x.name = mangle y.name := List.append_cancel_left h
  have hreplace := replace_dot_of_mangle_eq hx hy (hguarded _ hx') (hguarded _ hy') hmangle
  rwa [hdot _ hx', hdot _ hy'] at hreplace

end Constant

theorem Prototype.Declared.exists_exported {name : QualifiedName} {methods : List NativeMethod}
    {isThrowable : QualifiedName → Reported Bool} {p : Prototype}
    (hp : p.Declared name isThrowable methods) (hmethod : p.method.Mangleable)
    (hjoined : name.className.Joined) (hdivided : Text.Divided '.' [';', '[', '/'] name.className) :
    ∃ e : ExportedMethod, e.className = name.className ∧ e.method = p.method ∧
      e.overloaded = isOverloaded methods p.method.name ∧
      p.symbol = "Java_" ++ mangle e.source := by
  obtain ⟨type, htype, -⟩ := NativeType.ofMethodDescriptor_eq_ok_iff.1 hp.types
  have harguments : ∀ t ∈ type.arguments, t.Divided :=
    hmethod.argumentsDivided _ (NativeMethod.argumentTypes?_of_parse htype)
  let e : ExportedMethod :=
    { className := name.className
      method := p.method
      overloaded := isOverloaded methods p.method.name
      type := type
      classJoined := hjoined
      nameJoined := hmethod.nameJoined
      descriptorJoined := hmethod.descriptorJoined
      classDivided := hdivided
      name_ne_nil := hmethod.name_ne_nil
      nameStartsPlain := hmethod.nameStartsPlain
      nameFree := hmethod.nameFree
      hasType := htype
      argumentsDivided := harguments }
  exact ⟨e, rfl, rfl, rfl, Except.ok.inj (hp.symbol.symm.trans e.symbol_eq)⟩

namespace Header

/-- The identifier that a line introduces: the name of a macro, or that of a function. -/
def introduced? (line : Text) : Option Text :=
  let words := Text.splitAt ' ' line
  if words.head? = some ("#define" : Text) then words[1]?
  else if words.head? = some ("JNIEXPORT" : Text) then words[3]?
  else none

theorem splitAt_word {word : Text} (hword : CodePoint.ofChar ' ' ∉ word) (rest : Text) :
    Text.splitAt ' ' (word ++ CodePoint.ofChar ' ' :: rest) = word :: Text.splitAt ' ' rest := by
  rw [Text.splitAt_append_sep, Text.splitAt_of_not_mem hword, List.singleton_append]

theorem introduced?_of_word {word : Text} (hword : CodePoint.ofChar ' ' ∉ word)
    (hother : word ≠ "#define" ∧ word ≠ "JNIEXPORT") (rest : Text) :
    introduced? (word ++ CodePoint.ofChar ' ' :: rest) = none := by
  have hhead : ∀ t : Text, word ≠ t → ¬ some word = some t := fun t ht h => ht (Option.some.inj h)
  rw [introduced?, splitAt_word hword, List.head?_cons, if_neg (hhead _ hother.1),
    if_neg (hhead _ hother.2)]

theorem introduced?_define {defined rest : Text} {more : List Text}
    (hrest : Text.splitAt ' ' rest = defined :: more) :
    introduced? ("#define" ++ CodePoint.ofChar ' ' :: rest) = some defined := by
  rw [introduced?, splitAt_word (by decide), hrest]
  rfl

theorem introduced?_export {type symbol : Text} (htype : CodePoint.ofChar ' ' ∉ type)
    (hsymbol : CodePoint.ofChar ' ' ∉ symbol) :
    introduced? ("JNIEXPORT " ++ type ++ " JNICALL " ++ symbol) = some symbol := by
  have hwords : ("JNIEXPORT " : Text) ++ type ++ " JNICALL " ++ symbol =
      "JNIEXPORT" ++ CodePoint.ofChar ' ' :: (type ++ CodePoint.ofChar ' ' ::
        ("JNICALL" ++ CodePoint.ofChar ' ' :: symbol)) := by
    simp only [List.append_assoc]
    rfl
  rw [hwords, introduced?, splitAt_word (by decide), splitAt_word htype, splitAt_word (by decide),
    Text.splitAt_of_not_mem hsymbol]
  rfl

variable {name : QualifiedName}

theorem introduced_opening (mangled : Text) (hmangled : CodePoint.ofChar ' ' ∉ mangled) :
    (opening mangled).filterMap introduced? = ["_Included_" ++ mangled] := by
  have hguard : CodePoint.ofChar ' ' ∉ ("_Included_" : Text) ++ mangled := by
    rw [List.mem_append, not_or]
    exact ⟨by decide, hmangled⟩
  have hcomment : introduced? ("/* Header for class " ++ mangled ++ " */") = none :=
    introduced?_of_word (by decide : CodePoint.ofChar ' ' ∉ ("/*" : Text)) (by decide) _
  have hifndef : introduced? ("#ifndef _Included_" ++ mangled) = none :=
    introduced?_of_word (by decide : CodePoint.ofChar ' ' ∉ ("#ifndef" : Text)) (by decide) _
  have hdefine : introduced? ("#define _Included_" ++ mangled) = some ("_Included_" ++ mangled) :=
    introduced?_define (Text.splitAt_of_not_mem hguard)
  have hfixed : ∀ l ∈ (["/* DO NOT EDIT THIS FILE - it is machine generated */",
      "#include <jni.h>", [], "#ifdef __cplusplus", "extern \"C\" \x7b", "#endif"] : List Text),
      introduced? l = none := by decide
  simp only [List.forall_mem_cons] at hfixed
  obtain ⟨h₁, h₂, h₄, h₇, h₈, h₉, -⟩ := hfixed
  simp only [opening, List.filterMap_cons, List.filterMap_nil, hcomment, hifndef, hdefine, h₁, h₂,
    h₄, h₇, h₈, h₉]

theorem introduced_constant {x : Constant} {ls : List Text}
    (h : x.lines name.mangled = .ok ls) :
    ls.filterMap introduced? = [x.macroName name.mangled] := by
  obtain ⟨t, -, rfl⟩ := Constant.lines_eq_ok_iff.1 h
  have hmacro : CodePoint.ofChar ' ' ∉ x.macroName name.mangled := by
    rw [QualifiedName.mangled, Constant.macroName_eq_mangle]
    exact blank_not_mem_mangle _
  have hundef : introduced? ("#undef " ++ x.macroName name.mangled) = none :=
    introduced?_of_word (by decide : CodePoint.ofChar ' ' ∉ ("#undef" : Text)) (by decide) _
  have hdefine : introduced? ("#define " ++ x.macroName name.mangled ++ " " ++ t) =
      some (x.macroName name.mangled) := by
    have hwords : ("#define " : Text) ++ x.macroName name.mangled ++ " " ++ t =
        "#define" ++ CodePoint.ofChar ' ' :: (x.macroName name.mangled ++
          CodePoint.ofChar ' ' :: t) := by
      simp only [List.append_assoc]
      rfl
    rw [hwords]
    exact introduced?_define (splitAt_word hmacro t)
  simp only [List.filterMap_cons, List.filterMap_nil, hundef, hdefine]

theorem introduced_prototype {p : Prototype} (hsymbol : CodePoint.ofChar ' ' ∉ p.symbol) :
    (p.lines name.mangled).filterMap introduced? = [p.symbol] := by
  have hcomment : ∀ rest : Text, introduced? (CodePoint.ofChar ' ' :: rest) = none :=
    introduced?_of_word (by decide : CodePoint.ofChar ' ' ∉ ([] : Text)) (by decide)
  have htype : CodePoint.ofChar ' ' ∉ p.result.text := by
    cases p.result with
    | primitive b => cases b <;> decide
    | primitiveArray b => cases b <;> decide
    | _ => decide
  have hline : introduced?
      ("JNIEXPORT " ++ p.result.text ++ " JNICALL " ++ p.symbol) = some p.symbol :=
    introduced?_export htype hsymbol
  have hfirst : introduced? "/*" = none := by decide
  have hempty : introduced? [] = none := by decide
  have hclass : introduced? (" * Class:      " ++ name.mangled) = none := hcomment _
  have hmethod : introduced? (" * Method:     " ++ mangle p.method.name) = none := hcomment _
  have hsignature : introduced? (" * Signature:  " ++ escapeSignature p.method.descriptor) =
      none := hcomment _
  have hlast : introduced? " */" = none := hcomment _
  have hparameters : ∀ t : Text, introduced? ("  (" ++ t ++ ");") = none := fun t => hcomment _
  simp only [Prototype.lines, methodBlock, List.filterMap_cons, List.filterMap_nil, hfirst, hclass,
    hmethod, hsignature, hlast, hline, hparameters, hempty]

/-- Blocks that introduce one identifier each. -/
theorem introduced_flatten {α : Type} {f : α → Text} {xs : List α} {blocks : List (List Text)}
    (h : List.Forall₂ (fun x ls => ls.filterMap introduced? = [f x]) xs blocks) :
    blocks.flatten.filterMap introduced? = xs.map f := by
  induction h with
  | nil => rfl
  | cons hblock _ ih =>
      rw [List.flatten_cons, List.filterMap_append, hblock, ih, List.map_cons,
        List.singleton_append]

/-- What a header introduces: the guard, the macros and the symbols. -/
def identifiers (name : QualifiedName) (constants : List Constant) (ps : List Prototype) :
    List Text :=
  ("_Included_" ++ name.mangled) ::
    (constants.map (Constant.macroName name.mangled) ++ ps.map Prototype.symbol)

variable {isThrowable : QualifiedName → Reported Bool}

theorem introduced_partLines {constants : List Constant} {blocks : List (List Text)}
    {ps : List Prototype} {methods : List NativeMethod}
    (hconstants : List.Forall₂ (fun x ls => x.lines name.mangled = .ok ls) constants blocks)
    (hps : ∀ p ∈ ps, p.Declared name isThrowable methods) :
    (partLines name blocks ps).filterMap introduced? = identifiers name constants ps := by
  have hmacros : blocks.flatten.filterMap introduced? =
      constants.map (Constant.macroName name.mangled) :=
    introduced_flatten (hconstants.imp fun _ _ h => introduced_constant h)
  have hsymbols : (ps.map (Prototype.lines name.mangled)).flatten.filterMap introduced? =
      ps.map Prototype.symbol := by
    apply introduced_flatten
    rw [List.forall₂_map_right_iff, List.forall₂_same]
    intro p hp
    exact introduced_prototype (NativeMethod.blank_not_mem_symbol (hps p hp).symbol)
  have hopening := introduced_opening name.mangled (blank_not_mem_mangle name.className)
  have hclosing : closing.filterMap introduced? = [] := by decide
  simp only [partLines, List.filterMap_append, hopening, hmacros, hsymbols, hclosing, identifiers,
    List.append_nil, List.append_assoc, List.singleton_append]

end Header

/-- The names in a class are such that mangling keeps its members apart. -/
structure ClassMeta.Mangleable (m : ClassMeta) : Prop where
  constantJoined : ∀ x ∈ m.constants, x.name.Joined
  constantFree : ∀ x ∈ m.constants, ∀ c ∈ x.name, ¬ c.IsSeparator
  method : ∀ x ∈ m.methods, x.Mangleable

section
variable {name : QualifiedName} {m : ClassMeta} {isThrowable : QualifiedName → Reported Bool}
  {ps : List Prototype}

theorem ClassMeta.Mangleable.macros_nodup (hm : m.Mangleable)
    (hnames : (m.constants.map Constant.name).Nodup) (mangled : Text) :
    (m.constants.map (Constant.macroName mangled)).Nodup := by
  have hinjective : ∀ x ∈ m.constants, ∀ y ∈ m.constants,
      x.macroName mangled = y.macroName mangled → x = y := by
    intro x hx y hy hmacro
    have hname := Constant.name_eq_of_macroName_eq (hm.constantJoined x hx)
      (hm.constantJoined y hy) (hm.constantFree x hx) (hm.constantFree y hy) hmacro
    exact List.inj_on_of_nodup_map hnames hx hy hname
  exact List.Nodup.map_on hinjective (List.Nodup.of_map _ hnames)

variable (hexported : ∀ p ∈ ps, ∃ e : ExportedMethod, e.className = name.className ∧
  e.method = p.method ∧ e.overloaded = isOverloaded m.methods p.method.name ∧
  p.symbol = "Java_" ++ mangle e.source)
include hexported

/-- Methods with one symbol have one name; if there are two of them they are overloaded, and the
symbol has their argument types. -/
theorem Header.symbols_nodup (hmethods : ps.map Prototype.method = m.methods)
    (hsignatures : (m.methods.map NativeMethod.signature).Nodup) :
    (ps.map Prototype.symbol).Nodup := by
  rw [← hmethods, List.map_map] at hsignatures
  have hinjective : ∀ p ∈ ps, ∀ q ∈ ps, p.symbol = q.symbol → p = q := by
    intro p hp q hq hsymbol
    obtain ⟨e, -, hmethod, hflag, hp'⟩ := hexported p hp
    obtain ⟨e', -, hmethod', -, hq'⟩ := hexported q hq
    rw [hp', hq'] at hsymbol
    obtain ⟨hname, harguments⟩ :=
      ExportedMethod.signature_of_mangle_eq (List.append_cancel_left hsymbol)
    rw [hmethod, hmethod'] at hname
    apply List.inj_on_of_nodup_map hsignatures hp hq
    cases hoverloaded : e.overloaded with
    | true =>
        have htypes : p.method.argumentTypes? = q.method.argumentTypes? := by
          rw [← hmethod, ← hmethod', NativeMethod.argumentTypes?_of_parse e.hasType,
            NativeMethod.argumentTypes?_of_parse e'.hasType, harguments hoverloaded]
        exact Prod.ext hname htypes
    | false =>
        have hsame : ∀ r ∈ ps, r.method.name = p.method.name →
            r.method ∈ m.methods.filter fun y => y.name == p.method.name := by
          intro r hr hrname
          rw [List.mem_filter, ← hmethods]
          exact ⟨List.mem_map_of_mem hr, by simpa using hrname⟩
        have hlength : (m.methods.filter fun y => y.name == p.method.name).length ≤ 1 := by
          rw [hoverloaded] at hflag
          simpa [isOverloaded] using hflag.symm
        have hmem := hsame p hp rfl
        obtain ⟨x, hx⟩ := List.length_eq_one_iff.1
          (Nat.le_antisymm hlength (List.length_pos_of_mem hmem))
        rw [hx, List.mem_singleton] at hmem
        have hmem' := hsame q hq hname.symm
        rw [hx, List.mem_singleton] at hmem'
        exact congrArg NativeMethod.signature (hmem.trans hmem'.symm)
  exact List.Nodup.map_on hinjective (List.Nodup.of_map _ hsignatures)

omit hexported in
/-- A macro starts like the class name, and not with the underscore of a guard. -/
theorem Header.not_startsOpen_macro {c : CodePoint} {rest : Text} {x : Constant}
    (hclass : name.className = c :: rest) (hc : ¬ c.IsSeparator) :
    ¬ Text.StartsOpen (x.macroName name.mangled) := by
  rw [QualifiedName.mangled, Constant.macroName_eq_mangle, hclass, List.cons_append]
  exact not_startsOpen_mangle hc _

/-- A symbol has more open underscores than a macro. -/
theorem Header.macro_ne_symbol (hm : m.Mangleable) {x : Constant} (hx : x ∈ m.constants)
    {p : Prototype} (hp : p ∈ ps) : x.macroName name.mangled ≠ p.symbol := by
  intro heq
  obtain ⟨e, hclass, -, -, hsymbol⟩ := hexported p hp
  have hfewer : Text.openUnderscores (x.macroName name.mangled) ≤
      (name.className.countP fun c => decide c.IsSeparator) + 1 :=
    Constant.openUnderscores_macroName (hm.constantFree x hx)
  have hmore := e.openUnderscores_symbol
  rw [hclass, ← hsymbol, ← heq] at hmore
  omega

end

namespace Header

variable {input : Text} {name : QualifiedName} {m : ClassMeta}
  {isThrowable : QualifiedName → Reported Bool} {header : Text}

/-- The guard starts with an open underscore, as the macro of the other language does. -/
theorem nodup_identifiers {constants : List Constant} {ps : List Prototype}
    (hmacros : (constants.map (Constant.macroName name.mangled)).Nodup)
    (hsymbols : (ps.map Prototype.symbol).Nodup)
    (hdisjoint : ∀ x ∈ constants, ∀ p ∈ ps, x.macroName name.mangled ≠ p.symbol)
    (hclosed : ∀ t ∈ constants.map (Constant.macroName name.mangled) ++ ps.map Prototype.symbol,
      ¬ Text.StartsOpen t) :
    (("__cplusplus" : Text) :: identifiers name constants ps).Nodup := by
  have hguard : Text.StartsOpen ("_Included_" ++ name.mangled) := by
    refine ⟨rfl, fun c hc => ?_⟩
    obtain rfl := Option.some.inj hc
    decide
  have hlanguage : Text.StartsOpen "__cplusplus" := by decide
  have hne : ("__cplusplus" : Text) ≠ "_Included_" ++ name.mangled := by
    intro h
    have hsecond : some (CodePoint.ofChar '_') = some (CodePoint.ofChar 'I') :=
      congrArg (fun t : Text => t[1]?) h
    exact absurd hsecond (by decide)
  rw [identifiers, List.nodup_cons, List.nodup_cons, List.mem_cons, not_or, List.nodup_append]
  refine ⟨⟨hne, fun h => hclosed _ h hlanguage⟩, fun h => hclosed _ h hguard, hmacros, hsymbols, ?_⟩
  intro s hs t ht
  obtain ⟨x, hx, rfl⟩ := List.mem_map.1 hs
  obtain ⟨p, hp, rfl⟩ := List.mem_map.1 ht
  exact hdisjoint x hx p hp

/-- A header introduces its guard, its macros and its symbols, each of them once, and none is the
macro that tells the languages apart. The symbol of a method is short exactly if the name of the
method is its own. -/
theorem identifiers_introduced_once (hname : QualifiedName.parse input = .ok name)
    (hjoined : name.className.Joined)
    (hplain : ∀ part ∈ Text.splitAt '.' name.className, Text.StartsPlain part)
    (hm : m.Mangleable) (hconstants : (m.constants.map Constant.name).Nodup)
    (hmethods : (m.methods.map NativeMethod.signature).Nodup)
    (h : (text name m isThrowable).result = .ok header) :
    ∃ (blocks : List (List Text)) (ps : List Prototype),
      List.Forall₂ (fun x ls => x.lines name.mangled = .ok ls) m.constants blocks ∧
      ps.map Prototype.method = m.methods ∧
      header = Text.ofLines (partLines name blocks ps) ∧
      (partLines name blocks ps).filterMap introduced? = identifiers name m.constants ps ∧
      (("__cplusplus" : Text) :: identifiers name m.constants ps).Nodup ∧
      ∀ before p after, ps = before ++ p :: after →
        (p.symbol = shortSymbol name.className p.method.name ↔
          ∀ q ∈ before ++ after, q.method.name ≠ p.method.name) := by
  obtain ⟨blocks, ps, hblocks, hps_methods, hps, rfl⟩ := text_eq_ok_iff.1 h
  have hdivided := QualifiedName.divided_of_parse hname hplain
  have hexported : ∀ p ∈ ps, ∃ e : ExportedMethod, e.className = name.className ∧
      e.method = p.method ∧ e.overloaded = isOverloaded m.methods p.method.name ∧
      p.symbol = "Java_" ++ mangle e.source := by
    intro p hp
    refine (hps p hp).exists_exported (hm.method _ ?_) hjoined hdivided
    rw [← hps_methods]
    exact List.mem_map_of_mem hp
  refine ⟨blocks, ps, hblocks, hps_methods, ofPrototypes_eq blocks ps,
    introduced_partLines hblocks hps, ?_, ?_⟩
  · refine nodup_identifiers (hm.macros_nodup hconstants _)
      (symbols_nodup hexported hps_methods hmethods) ?_ ?_
    · intro x hx p hp
      exact macro_ne_symbol hexported hm hx hp
    · intro t ht
      obtain ⟨c, rest, hclass, hdot, hfree⟩ := hdivided.exists_cons
      have hc : ¬ c.IsSeparator := by
        rintro (rfl | rfl)
        · exact hdot rfl
        · exact hfree (by decide)
      rcases List.mem_append.1 ht with ht | ht
      · obtain ⟨x, -, rfl⟩ := List.mem_map.1 ht
        exact not_startsOpen_macro hclass hc
      · obtain ⟨p, hp, rfl⟩ := List.mem_map.1 ht
        obtain ⟨e, -, -, -, hsymbol⟩ := hexported p hp
        rw [hsymbol]
        exact Text.not_startsOpen_of_ne (by decide) _
  · rintro before p after rfl
    have hmem : p ∈ before ++ p :: after := List.mem_append_right _ List.mem_cons_self
    rw [NativeMethod.eq_shortSymbol_iff (hps p hmem).symbol, ← hps_methods, List.map_append,
      List.map_cons, isOverloaded_append_cons, ← List.map_append, List.forall_mem_map]

/-- A class that is called like the start of symbols, with two methods of one name, a third whose
name spells out the symbol of the first, and constants that are called like a method and like the
guard. -/
def collidingMeta : ClassMeta :=
  ⟨none,
    [⟨"Java_f", "I", .integer 1⟩, ⟨"0f", "I", .integer 2⟩, ⟨"_Included_Java", "I", .integer 3⟩],
    [⟨"f", "(I)V", false⟩, ⟨"f", "(LA_1;)V", false⟩, ⟨"f__I", "()V", true⟩]⟩

/-- All of its identifiers differ. -/
theorem identifiers_introduced_once_colliding :
    ∃ header, (text ⟨"Java", none⟩ collidingMeta fun _ => .pure false).result = .ok header ∧
      ∃ (blocks : List (List Text)) (ps : List Prototype),
        header = Text.ofLines (partLines ⟨"Java", none⟩ blocks ps) ∧
        (("__cplusplus" : Text) ::
          (partLines ⟨"Java", none⟩ blocks ps).filterMap introduced?).Nodup := by
  have hname : QualifiedName.parse "Java" = .ok ⟨"Java", none⟩ := by decide
  have hm : collidingMeta.Mangleable := ⟨by decide, by decide, by decide⟩
  obtain ⟨header, hheader⟩ : ∃ header,
      (text ⟨"Java", none⟩ collidingMeta fun _ => .pure false).result = .ok header := ⟨_, rfl⟩
  obtain ⟨blocks, ps, -, -, hlines, hintroduced, hnodup, -⟩ :=
    identifiers_introduced_once hname (by decide) (by decide) hm (by decide) (by decide) hheader
  rw [← hintroduced] at hnodup
  exact ⟨header, hheader, blocks, ps, hlines, hnodup⟩

end Header

end JniHeader
