import JniHeader.Meta.Basic
import JniHeader.Proofs.Name.Parts

/-!
# What an exported symbol identifies

An exported symbol is the mangled form of one text: the class name, the method
name and, for an overloaded method, an empty part and the argument descriptors,
all with slashes between them. No part of it starts with an escape digit, so the
parts are read back from the symbol, and with them the class, the method, the
flag and the argument types.
-/
namespace JniHeader

/-- A native method of a class, with names and argument types that a symbol can tell apart. -/
structure ExportedMethod where
  className : Text
  method : NativeMethod
  overloaded : Bool
  type : MethodType
  classJoined : Text.Joined className
  nameJoined : Text.Joined method.name
  descriptorJoined : Text.Joined method.descriptor
  classDivided : Text.Divided '.' [';', '[', '/'] className
  name_ne_nil : method.name ≠ []
  nameStartsPlain : Text.StartsPlain method.name
  nameFree : ∀ c ∈ (['.', ';', '[', '/'] : List CodePoint), c ∉ method.name
  hasType : Descriptor.parseMethod method.descriptor = .ok type
  argumentsDivided : ∀ t ∈ type.arguments, t.Divided

namespace ExportedMethod

variable (e : ExportedMethod)

def symbol : Except Descriptor.Error Text := e.method.symbol e.className e.overloaded

def stem : Text := e.className ++ CodePoint.ofChar '/' :: e.method.name

/-- The text that the symbol is the mangled form of. -/
def source : Text :=
  if e.overloaded then
    e.stem ++ CodePoint.ofChar '/' :: CodePoint.ofChar '/' :: e.type.argumentsText
  else e.stem

theorem symbol_eq : e.symbol = .ok ("Java_" ++ mangle e.source) := by
  have hstem : mangle e.stem = mangle e.className ++ "_" ++ mangle e.method.name := by
    have hslash : mangle (CodePoint.ofChar '/' :: e.method.name) =
        "_" ++ mangle e.method.name := rfl
    rw [stem, mangle_append, hslash, List.append_assoc]
  rw [symbol, NativeMethod.symbol, source]
  cases e.overloaded with
  | false => simp [shortSymbol, hstem]
  | true =>
      have hslashes : mangle (CodePoint.ofChar '/' :: CodePoint.ofChar '/' ::
          e.type.argumentsText) = "__" ++ mangle e.type.argumentsText := rfl
      rw [if_pos rfl, if_pos rfl, e.hasType, mangle_append, hslashes, hstem]
      simp [longSymbol, shortSymbol, Except.map]

theorem typeWellFormed : e.type.WellFormed ∧ e.method.descriptor = e.type.text :=
  Descriptor.parseMethod_eq_ok_iff.1 e.hasType

theorem argumentsJoined : Text.Joined e.type.argumentsText := by
  apply e.descriptorJoined.infix
  rw [e.typeWellFormed.2]
  exact ⟨"(", ")" ++ resultText e.type.result, by simp [MethodType.text]⟩

theorem sourceJoined : Text.Joined e.source := by
  have hstem : Text.Joined e.stem := e.classJoined.append_cons e.nameJoined (by decide)
  have harguments : Text.Joined ([] ++ CodePoint.ofChar '/' :: e.type.argumentsText) :=
    Text.Joined.append_cons List.isChain_nil e.argumentsJoined (by decide)
  unfold source
  split_ifs
  · exact hstem.append_cons harguments (by decide)
  · exact hstem

theorem slash_not_mem_name : CodePoint.ofChar '/' ∉ e.method.name := e.nameFree _ (by decide)

/-- A method name is a single part. -/
theorem splitAt_name : Text.splitAt '/' e.method.name = [e.method.name] :=
  Text.splitAt_of_not_mem e.slash_not_mem_name

theorem nameDivided : Text.Divided '/' ['.'] e.method.name where
  ne_nil := by
    intro part hpart
    rw [e.splitAt_name, List.mem_singleton] at hpart
    rw [hpart]
    exact e.name_ne_nil
  startsPlain := by
    intro part hpart
    rw [e.splitAt_name, List.mem_singleton] at hpart
    rw [hpart]
    exact e.nameStartsPlain
  free := by
    intro c hc
    rw [List.mem_singleton.1 hc]
    exact e.nameFree _ (by decide)

theorem sourceGuarded : Text.Guarded e.source := by
  have hslash : ∀ t : Text, Text.StartsPlain (CodePoint.ofChar '/' :: t) := by
    intro t
    exact Text.StartsPlain.append (s := [CodePoint.ofChar '/']) (by decide) (by decide)
  have hclass : Text.Guarded e.className := e.classDivided.guarded (by decide) (by decide)
  have hname : Text.Guarded e.method.name := e.nameDivided.guarded (by decide) (by decide)
  have hstem : Text.Guarded e.stem :=
    hclass.append (hname.cons_of_startsPlain e.nameStartsPlain) (hslash _)
  have harguments : Text.Guarded (CodePoint.ofChar '/' :: e.type.argumentsText) :=
    (guarded_flatMap_text e.argumentsDivided).cons_of_startsPlain
      (startsPlain_flatMap_text e.type.arguments)
  unfold source
  split_ifs
  · exact hstem.append (harguments.cons_of_startsPlain (hslash _)) (hslash _)
  · exact hstem

/-- The parts in front of the empty one: those of the class name and the method name. -/
def stemParts : List Text := Text.splitAt '.' e.className ++ [e.method.name]

theorem splitAt_stem : Text.splitAt '/' (Text.replace '.' '/' e.stem) = e.stemParts := by
  have hclass : CodePoint.ofChar '/' ∉ e.className := e.classDivided.free _ (by decide)
  have hname : CodePoint.ofChar '.' ∉ e.method.name := e.nameFree _ (by decide)
  rw [stem, Text.replace_append, Text.replace_cons, if_neg (by decide), Text.splitAt_append_sep,
    Text.splitAt_replace hclass, Text.replace_of_not_mem hname, e.splitAt_name, stemParts]

theorem dot_not_mem_argumentsText : CodePoint.ofChar '.' ∉ e.type.argumentsText := by
  intro hdot
  obtain ⟨t, ht, hmem⟩ := List.mem_flatMap.1 hdot
  exact FieldType.dot_not_mem_text (e.argumentsDivided t ht) hmem

theorem splitAt_source :
    Text.splitAt '/' (Text.replace '.' '/' e.source) = e.stemParts ++
      if e.overloaded then [] :: Text.splitAt '/' e.type.argumentsText else [] := by
  rw [source]
  split_ifs
  · rw [Text.replace_append, Text.replace_cons, Text.replace_cons, if_neg (by decide),
      Text.splitAt_append_sep, Text.splitAt_sep, e.splitAt_stem,
      Text.replace_of_not_mem e.dot_not_mem_argumentsText]
  · rw [e.splitAt_stem, List.append_nil]

theorem ne_nil_of_mem_stemParts {part : Text} (h : part ∈ e.stemParts) : part ≠ [] := by
  rw [stemParts, List.mem_append, List.mem_singleton] at h
  rcases h with h | rfl
  · exact e.classDivided.ne_nil part h
  · exact e.name_ne_nil

/-- The parts of the stem are those in front of the first empty one. -/
theorem takeWhile_parts :
    (Text.splitAt '/' (Text.replace '.' '/' e.source)).takeWhile (· ≠ []) = e.stemParts := by
  rw [e.splitAt_source, List.takeWhile_append_of_pos]
  · split_ifs <;> simp
  · intro part hpart
    simpa using e.ne_nil_of_mem_stemParts hpart

/-- The parts of the source give back the names, the flag and the argument descriptors. -/
theorem parts_injective {e e' : ExportedMethod}
    (h : Text.splitAt '/' (Text.replace '.' '/' e.source) =
      Text.splitAt '/' (Text.replace '.' '/' e'.source)) :
    e.className = e'.className ∧ e.method.name = e'.method.name ∧ e.overloaded = e'.overloaded ∧
      (e.overloaded = true → e.type.argumentsText = e'.type.argumentsText) := by
  have hstem : e.stemParts = e'.stemParts := by
    rw [← e.takeWhile_parts, h, e'.takeWhile_parts]
  rw [e.splitAt_source, e'.splitAt_source, hstem] at h
  have htail := List.append_cancel_left h
  obtain ⟨hclass, hname⟩ := List.append_inj' hstem rfl
  -- An empty part is left exactly if the method is overloaded.
  refine ⟨Text.splitAt_injective _ hclass, List.singleton_inj.1 hname, ?_⟩
  cases hflag : e.overloaded with
  | false =>
      cases hflag' : e'.overloaded with
      | false => simp
      | true => simp [hflag, hflag'] at htail
  | true =>
      cases hflag' : e'.overloaded with
      | false => simp [hflag, hflag'] at htail
      | true =>
          rw [hflag, hflag', if_pos rfl, if_pos rfl] at htail
          exact ⟨rfl, fun _ => Text.splitAt_injective _ (List.cons.inj htail).2⟩

/-- Every exported method has a symbol, and two methods have the same one exactly when their
class names, names and flags agree and, if they are overloaded, their argument types. -/
theorem symbol_identifies_method (e e' : ExportedMethod) :
    (∃ symbol, e.symbol = .ok symbol) ∧
      (e.symbol = e'.symbol ↔
        e.className = e'.className ∧ e.method.name = e'.method.name ∧
          e.overloaded = e'.overloaded ∧
          (e.overloaded = true → e.type.arguments = e'.type.arguments)) := by
  refine ⟨⟨_, e.symbol_eq⟩, ?_⟩
  constructor
  · intro h
    rw [e.symbol_eq, e'.symbol_eq] at h
    have hmangled := List.append_cancel_left (Except.ok.inj h)
    have hsource := replace_dot_of_mangle_eq e.sourceJoined e'.sourceJoined e.sourceGuarded
      e'.sourceGuarded hmangled
    obtain ⟨hclass, hname, hflag, harguments⟩ := parts_injective (congrArg _ hsource)
    refine ⟨hclass, hname, hflag, ?_⟩
    intro hoverloaded
    exact flatMap_text_injective e.typeWellFormed.1.arguments e'.typeWellFormed.1.arguments
      (harguments hoverloaded)
  · intro h
    obtain ⟨hclass, hname, hflag, harguments⟩ := h
    rw [e.symbol_eq, e'.symbol_eq, source, source, stem, stem, hclass, hname, ← hflag]
    cases hoverloaded : e.overloaded with
    | false => rfl
    | true => rw [MethodType.argumentsText, harguments hoverloaded, MethodType.argumentsText]

/-- An overloaded method `_f` of the class `p.A_` with the given argument types and result. -/
def overloadedSample (type : MethodType) (hjoined : Text.Joined type.text)
    (htype : Descriptor.parseMethod type.text = .ok type)
    (harguments : ∀ t ∈ type.arguments, t.Divided) : ExportedMethod where
  className := "p.A_"
  method := ⟨"_f", type.text, false⟩
  overloaded := true
  type := type
  classJoined := by decide
  nameJoined := (by decide : Text.Joined "_f")
  descriptorJoined := hjoined
  classDivided := by decide
  name_ne_nil := (by decide : ("_f" : Text) ≠ [])
  nameStartsPlain := (by decide : Text.StartsPlain "_f")
  nameFree := (by decide : ∀ c ∈ (['.', ';', '[', '/'] : List CodePoint), c ∉ ("_f" : Text))
  hasType := htype
  argumentsDivided := harguments

/-- The result of an overloaded method does not change its symbol, an array of its argument does. -/
theorem symbol_overloadedSample :
    let array : FieldType := .array (.object "q/B")
    let first := overloadedSample ⟨[array], none⟩ (by decide) rfl (by decide)
    let second := overloadedSample ⟨[array], some array⟩ (by decide) rfl (by decide)
    let third := overloadedSample ⟨[.object "q/B"], none⟩ (by decide) rfl (by decide)
    first.symbol = second.symbol ∧ first.symbol ≠ third.symbol := by
  intro array first second third
  constructor
  · exact (symbol_identifies_method first second).2.2 ⟨rfl, rfl, rfl, fun _ => rfl⟩
  · intro h
    obtain ⟨-, -, -, harguments⟩ := (symbol_identifies_method first third).2.1 h
    exact absurd (harguments rfl) (by decide)

end ExportedMethod

end JniHeader
