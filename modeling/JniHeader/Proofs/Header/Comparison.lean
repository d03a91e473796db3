import JniHeader.Header.Basic
import JniHeader.Proofs.Descriptor.Scanner
import JniHeader.Proofs.Search.Reported
import Mathlib.Data.List.Forall2

/-!
# Comparing headers

A header depends on its source only through the question which classes of its
native methods are throwable. Two headers of one class are compared through the
answers to it: where the answers agree, both are assembled from the same constants
and from prototypes that differ at most in the native types that answers decide.
-/
namespace JniHeader

/-- The class whose superclasses decide the native form of a type. -/
def FieldType.class? : FieldType → Option QualifiedName
  | .object name => some (.ofBinary name)
  | _ => none

def MethodType.classes (m : MethodType) : List QualifiedName :=
  (m.arguments ++ m.result.toList).filterMap FieldType.class?

/-- The classes that the descriptors of native methods name. -/
def ClassMeta.classes (m : ClassMeta) : List QualifiedName :=
  m.methods.flatMap fun x =>
    match Descriptor.parseMethod x.descriptor with
    | .ok t => t.classes
    | .error _ => []

/-- What the lines of a native method are written from. -/
structure Prototype where
  method : NativeMethod
  symbol : Text
  arguments : List NativeType
  result : NativeType

namespace Prototype

def lines (mangled : Text) (p : Prototype) : List Text :=
  Header.methodBlock mangled p.method p.symbol (p.arguments, p.result)

/-- Two prototypes of one method, whose native types are related one by one. -/
structure Like (T : NativeType → NativeType → Prop) (p q : Prototype) : Prop where
  method : p.method = q.method
  symbol : p.symbol = q.symbol
  arguments : List.Forall₂ T p.arguments q.arguments
  result : T p.result q.result

theorem Like.eq {p q : Prototype} (h : Like Eq p q) : p = q := by
  obtain ⟨method, symbol, arguments, result⟩ := p
  obtain ⟨hmethod, hsymbol, harguments, hresult⟩ := h
  rw [List.forall₂_eq_eq_eq] at harguments
  simp only at hmethod hsymbol harguments hresult
  rw [hmethod, hsymbol, harguments, hresult]

end Prototype

/-- A header that is put together from its parts. -/
def Header.ofPrototypes (name : QualifiedName) (constants : List (List Text))
    (prototypes : List Prototype) : Text :=
  Text.unlines (opening name.mangled ++ constants.flatten ++
    (prototypes.map (Prototype.lines name.mangled)).flatten ++ closing) ++ "\n"

theorem Descriptor.parse_eq_method_iff {s : Text} {m : MethodType} :
    parse s = .ok (.method m) ↔ parseMethod s = .ok m := by
  rw [parse_eq_ok_iff, parseMethod_eq_ok_iff]
  rfl

theorem MethodType.mem_classes {m : MethodType} {t : FieldType} {n : QualifiedName}
    (ht : t ∈ m.arguments ++ m.result.toList) (hn : n ∈ t.class?) : n ∈ m.classes :=
  List.mem_filterMap.2 ⟨t, ht, hn⟩

theorem ClassMeta.mem_classes {m : ClassMeta} {x : NativeMethod} {t : MethodType}
    {n : QualifiedName} (hx : x ∈ m.methods) (ht : Descriptor.parseMethod x.descriptor = .ok t)
    (hn : n ∈ t.classes) : n ∈ m.classes := by
  refine List.mem_flatMap.2 ⟨x, hx, ?_⟩
  simpa only [ht] using hn

open Reported (Agree)

variable {c : Comparison} {B : Bool → Bool → Prop} {T : NativeType → NativeType → Prop}
  {isThrowable isThrowable' : QualifiedName → Reported Bool}

section Types
variable (hrefl : ∀ t, T t t)
  (hanswer : ∀ b b', B b b' → T (if b then .throwable else .object)
    (if b' then .throwable else .object))
include hrefl hanswer

namespace NativeType

theorem agree_ofField {t : FieldType}
    (h : ∀ n ∈ t.class?, Agree c B (isThrowable n) (isThrowable' n)) :
    Agree c T (ofField isThrowable t) (ofField isThrowable' t) := by
  cases t with
  | base b => exact .pure (hrefl _)
  | array t =>
      cases t with
      | base b => exact .pure (hrefl _)
      | object name => exact .pure (hrefl _)
      | array t => exact .pure (hrefl _)
  | object name =>
      rw [ofField, ofField]
      split_ifs
      · exact .pure (hrefl _)
      · exact .pure (hrefl _)
      · exact .pure (hrefl _)
      · exact (h (.ofBinary name) rfl).bind fun b b' hb => .pure (hanswer b b' hb)

theorem agree_ofResult {t : Option FieldType}
    (h : ∀ s ∈ t, ∀ n ∈ s.class?, Agree c B (isThrowable n) (isThrowable' n)) :
    Agree c T (ofResult isThrowable t) (ofResult isThrowable' t) := by
  cases t with
  | none => exact .pure (hrefl _)
  | some t => exact agree_ofField hrefl hanswer (h t rfl)

theorem agree_ofMethod {m : MethodType}
    (h : ∀ n ∈ m.classes, Agree c B (isThrowable n) (isThrowable' n)) :
    Agree c (fun τ τ' => List.Forall₂ T τ.1 τ'.1 ∧ T τ.2 τ'.2) (ofMethod isThrowable m)
      (ofMethod isThrowable' m) := by
  have harguments : ∀ t ∈ m.arguments, Agree c T (ofField isThrowable t)
      (ofField isThrowable' t) := by
    intro t ht
    apply agree_ofField hrefl hanswer
    intro n hn
    exact h n (MethodType.mem_classes (List.mem_append_left _ ht) hn)
  have hresult : Agree c T (ofResult isThrowable m.result) (ofResult isThrowable' m.result) := by
    apply agree_ofResult hrefl hanswer
    intro t ht n hn
    exact h n (MethodType.mem_classes (List.mem_append_right _ (Option.mem_toList.2 ht)) hn)
  refine (Agree.forEach harguments).bind fun ts ts' hts => ?_
  exact hresult.bind fun t t' ht => .pure ⟨hts, ht⟩

variable (hdescriptor : ∀ e, c.failure (.descriptor e) (.descriptor e))
include hdescriptor

theorem agree_ofMethodDescriptor {descriptor : Text}
    (h : ∀ m, Descriptor.parseMethod descriptor = .ok m → ∀ n ∈ m.classes,
      Agree c B (isThrowable n) (isThrowable' n)) :
    Agree c (fun τ τ' => List.Forall₂ T τ.1 τ'.1 ∧ T τ.2 τ'.2)
      (ofMethodDescriptor isThrowable descriptor)
      (ofMethodDescriptor isThrowable' descriptor) := by
  unfold ofMethodDescriptor
  split
  · next e _ => exact .fail (hdescriptor e)
  · next m hm => exact agree_ofMethod hrefl hanswer (h m (Descriptor.parse_eq_method_iff.1 hm))
  · exact .fail (hdescriptor _)

end NativeType

namespace Header

variable {name : QualifiedName}
variable (hdescriptor : ∀ e, c.failure (.descriptor e) (.descriptor e))
include hdescriptor

theorem agree_methodLines {overloaded : Bool} {x : NativeMethod}
    (h : ∀ m, Descriptor.parseMethod x.descriptor = .ok m → ∀ n ∈ m.classes,
      Agree c B (isThrowable n) (isThrowable' n)) :
    Agree c (fun ls ls' => ∃ p q, Prototype.Like T p q ∧ ls = p.lines name.mangled ∧
        ls' = q.lines name.mangled)
      (methodLines name isThrowable overloaded x)
      (methodLines name isThrowable' overloaded x) := by
  refine (NativeType.agree_ofMethodDescriptor hrefl hanswer hdescriptor h).bind fun τ τ' hτ => ?_
  cases x.symbol name.className overloaded with
  | error e => exact .fail (hdescriptor e)
  | ok symbol =>
      exact .pure ⟨⟨x, symbol, τ.1, τ.2⟩, ⟨x, symbol, τ'.1, τ'.2⟩, ⟨rfl, rfl, hτ.1, hτ.2⟩, rfl, rfl⟩

omit hrefl hanswer hdescriptor in
theorem agree_constantLines {x : Constant}
    (h : ∀ e, x.lines name.mangled = .error e → c.failure (.constant e) (.constant e)) :
    Agree c Eq (constantLines name x) (constantLines name x) := by
  unfold constantLines
  split
  · exact .pure rfl
  · next e he => exact .fail (h e he)

omit hrefl hanswer hdescriptor in
theorem exists_prototypes {blocks blocks' : List (List Text)} {mangled : Text}
    (h : List.Forall₂ (fun ls ls' => ∃ p q, Prototype.Like T p q ∧ ls = p.lines mangled ∧
      ls' = q.lines mangled) blocks blocks') :
    ∃ ps qs, List.Forall₂ (Prototype.Like T) ps qs ∧ blocks = ps.map (Prototype.lines mangled) ∧
      blocks' = qs.map (Prototype.lines mangled) := by
  induction h with
  | nil => exact ⟨[], [], .nil, rfl, rfl⟩
  | cons hblock _ ih =>
      obtain ⟨p, q, hpq, rfl, rfl⟩ := hblock
      obtain ⟨ps, qs, hall, rfl, rfl⟩ := ih
      exact ⟨p :: ps, q :: qs, .cons hpq hall, rfl, rfl⟩

/-- Headers of one class agree as the answers about the classes of its native methods do. -/
theorem agree_text {m : ClassMeta}
    (hconstant : ∀ x ∈ m.constants, ∀ e, x.lines name.mangled = .error e →
      c.failure (.constant e) (.constant e))
    (h : ∀ n ∈ m.classes, Agree c B (isThrowable n) (isThrowable' n)) :
    Agree c (fun t t' => ∃ constants ps qs, List.Forall₂ (Prototype.Like T) ps qs ∧
        t = ofPrototypes name constants ps ∧ t' = ofPrototypes name constants qs)
      (text name m isThrowable) (text name m isThrowable') := by
  have hconstants := Agree.forEach fun x hx => agree_constantLines (hconstant x hx)
  have hmethods : Agree c (List.Forall₂ fun ls ls' => ∃ p q, Prototype.Like T p q ∧
        ls = p.lines name.mangled ∧ ls' = q.lines name.mangled)
      (Reported.forEach
        (fun x => methodLines name isThrowable (isOverloaded m.methods x.name) x) m.methods)
      (Reported.forEach
        (fun x => methodLines name isThrowable' (isOverloaded m.methods x.name) x) m.methods) := by
    apply Agree.forEach
    intro x hx
    apply agree_methodLines hrefl hanswer hdescriptor
    intro t ht n hn
    exact h n (ClassMeta.mem_classes hx ht hn)
  have hlines : Agree c (fun ls ls' => ∃ (constants : List (List Text)) (ps qs : List Prototype),
      List.Forall₂ (Prototype.Like T) ps qs ∧
      ls = opening name.mangled ++ constants.flatten ++
        (ps.map (Prototype.lines name.mangled)).flatten ++ closing ∧
      ls' = opening name.mangled ++ constants.flatten ++
        (qs.map (Prototype.lines name.mangled)).flatten ++ closing)
      (lines name m isThrowable) (lines name m isThrowable') := by
    refine hconstants.bind fun constants constants' hc => ?_
    obtain rfl : constants = constants' := by rwa [List.forall₂_eq_eq_eq] at hc
    refine hmethods.bind fun blocks blocks' hblocks => ?_
    obtain ⟨ps, qs, hall, rfl, rfl⟩ := exists_prototypes hblocks
    exact .pure ⟨constants, ps, qs, hall, rfl, rfl⟩
  refine hlines.bind fun ls ls' hls => ?_
  obtain ⟨constants, ps, qs, hall, rfl, rfl⟩ := hls
  exact .pure ⟨constants, ps, qs, hall, rfl, rfl⟩

end Header

end Types

end JniHeader
