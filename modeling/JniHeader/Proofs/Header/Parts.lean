import JniHeader.Proofs.Header.Comparison
import JniHeader.Proofs.Search.Results

/-!
# The parts of a header

A header is assembled from the lines of its constants and from one prototype for each
native method, in the order of the class. It can be written exactly if all of these
parts can: each constant has a literal, and each method a symbol and native types.
-/
namespace JniHeader

theorem Constant.lines_eq_ok_iff {mangled : Text} {x : Constant} {ls : List Text} :
    x.lines mangled = .ok ls ↔ ∃ t, x.literal = .ok t ∧
      ls = ["#undef " ++ x.macroName mangled, "#define " ++ x.macroName mangled ++ " " ++ t] := by
  unfold lines
  cases x.literal with
  | error e => simp [Except.map]
  | ok t => simp [Except.map, eq_comm]

variable {name : QualifiedName} {isThrowable : QualifiedName → Reported Bool}
  {methods : List NativeMethod} {m : ClassMeta}

/-- The prototype has the symbol and the types of its method in a class with these native
methods. -/
structure Prototype.Declared (name : QualifiedName) (isThrowable : QualifiedName → Reported Bool)
    (methods : List NativeMethod) (p : Prototype) : Prop where
  types : (NativeType.ofMethodDescriptor isThrowable p.method.descriptor).result =
    .ok (p.arguments, p.result)
  symbol : p.method.symbol name.className (isOverloaded methods p.method.name) = .ok p.symbol

namespace Header

theorem constantLines_eq_ok_iff {x : Constant} {ls : List Text} :
    (constantLines name x).result = .ok ls ↔ x.lines name.mangled = .ok ls := by
  unfold constantLines
  cases x.lines name.mangled with
  | error e => simp [Reported.fail]
  | ok ls' => simp [Reported.pure]

theorem methodLines_eq_ok_iff {x : NativeMethod} {ls : List Text} :
    (methodLines name isThrowable (isOverloaded methods x.name) x).result = .ok ls ↔
      ∃ p : Prototype, p.method = x ∧ p.Declared name isThrowable methods ∧
        ls = p.lines name.mangled := by
  rw [methodLines, Reported.bind_eq_ok_iff]
  constructor
  · rintro ⟨types, htypes, h⟩
    cases hsymbol : x.symbol name.className (isOverloaded methods x.name) with
    | error e =>
        rw [hsymbol] at h
        cases h
    | ok symbol =>
        rw [hsymbol] at h
        exact ⟨⟨x, symbol, types.1, types.2⟩, rfl, ⟨htypes, hsymbol⟩, (Except.ok.inj h).symm⟩
  · rintro ⟨p, rfl, hp, rfl⟩
    refine ⟨(p.arguments, p.result), hp.types, ?_⟩
    rw [hp.symbol]
    rfl

/-- The blocks of the methods are those of their prototypes. -/
theorem forall₂_methodLines_iff {xs : List NativeMethod} {blocks : List (List Text)} :
    List.Forall₂ (fun x ls =>
        (methodLines name isThrowable (isOverloaded methods x.name) x).result = .ok ls) xs blocks ↔
      ∃ ps : List Prototype, ps.map Prototype.method = xs ∧
        (∀ p ∈ ps, p.Declared name isThrowable methods) ∧
        blocks = ps.map (Prototype.lines name.mangled) := by
  constructor
  · intro h
    induction h with
    | nil => exact ⟨[], rfl, by simp, rfl⟩
    | cons hblock _ ih =>
        obtain ⟨p, rfl, hp, rfl⟩ := methodLines_eq_ok_iff.1 hblock
        obtain ⟨ps, rfl, hps, rfl⟩ := ih
        exact ⟨p :: ps, rfl, List.forall_mem_cons.2 ⟨hp, hps⟩, rfl⟩
  · rintro ⟨ps, rfl, hps, rfl⟩
    rw [List.forall₂_map_left_iff, List.forall₂_map_right_iff, List.forall₂_same]
    intro p hp
    exact methodLines_eq_ok_iff.2 ⟨p, rfl, hps p hp, rfl⟩

/-- A header is put together from the lines of its constants and from its prototypes. -/
theorem text_eq_ok_iff {header : Text} :
    (text name m isThrowable).result = .ok header ↔
      ∃ (constants : List (List Text)) (ps : List Prototype),
        List.Forall₂ (fun x ls => x.lines name.mangled = .ok ls) m.constants constants ∧
        ps.map Prototype.method = m.methods ∧
        (∀ p ∈ ps, p.Declared name isThrowable m.methods) ∧
        header = ofPrototypes name constants ps := by
  simp only [text, lines, Reported.bind_eq_ok_iff, Reported.forEach_eq_ok_iff,
    constantLines_eq_ok_iff, forall₂_methodLines_iff]
  constructor
  · rintro ⟨ls, ⟨constants, hconstants, blocks, ⟨ps, hmethods, hps, rfl⟩, hls⟩, h⟩
    obtain rfl := Except.ok.inj hls
    exact ⟨constants, ps, hconstants, hmethods, hps, (Except.ok.inj h).symm⟩
  · rintro ⟨constants, ps, hconstants, hmethods, hps, rfl⟩
    exact ⟨_, ⟨constants, hconstants, _, ⟨ps, hmethods, hps, rfl⟩, rfl⟩, rfl⟩

end Header

end JniHeader
