import JniHeader.Proofs.Generation.Lookups

/-!
# Longer search paths

Providers added behind a search path are asked only for classes that the path does
not find, so every answer of the path stays. A class that it finds keeps its header,
but for arguments and results of object types whose superclasses are found only
now: these can turn out to be throwable. A walk that missed no class ends as before,
so nothing that was throwable is an object again.
-/
namespace JniHeader

/-- The same type, or a throwable class where an object was known. -/
inductive NativeType.Refines : NativeType → NativeType → Prop
  | same (t : NativeType) : Refines t t
  | throwable : Refines .object .throwable

/-- An answer that is no absence does not depend on what would be asked afterwards. -/
theorem firstFound_append {α β : Type} {look : α → Except Failure (Option β)} {xs : List α}
    (h : firstFound look xs ≠ .ok none) (ys : List α) :
    firstFound look (xs ++ ys) = firstFound look xs := by
  induction xs with
  | nil => exact absurd rfl h
  | cons x xs ih =>
      rw [List.cons_append, firstFound, firstFound]
      rw [firstFound] at h
      split at h
      · exact ih h
      · rfl

namespace SearchPath

variable {host : Host} {P Q : SearchPath} {name : QualifiedName}

theorem resolve_extends (host : Host) (P Q : SearchPath) :
    Extends (P.resolve host) ((P ++ Q).resolve host) :=
  fun _ hfound => firstFound_append hfound Q

/-- A walk that missed no class ends as before. -/
theorem walk_append (hfound : ∀ n, (P.source host).walk name ≠ .missing n) (Q : SearchPath) :
    ((P ++ Q).source host).walk name = (P.source host).walk name := by
  apply superClassWalk_extends (resolve_extends host P Q)
  exact hfound

/-- A throwable class stays throwable. -/
theorem isThrowable_append (Q : SearchPath)
    (h : ((P.source host).isThrowable name).result = .ok true) :
    (((P ++ Q).source host).isThrowable name).result = .ok true := by
  have hfound : ∀ n, (P.source host).walk name ≠ .missing n := by
    intro n hmissing
    rw [ClassSource.isThrowable, hmissing] at h
    cases h
  rw [ClassSource.isThrowable, walk_append hfound Q]
  exact h

open Reported (Agree)

/-- Among lookups that fail only with class-file errors, an answer changes at most from an object
to a throwable class. -/
theorem agree_isThrowable_append
    (hanswers : ∀ a, Ancestor ((P ++ Q).resolve host) name a → ∀ f,
      (P ++ Q).resolve host a = .error f → ∃ e, f = .classFile e) :
    Agree (.ofFailures Eq) (fun b b' => b = true → b' = true)
      ((P.source host).isThrowable name) (((P ++ Q).source host).isThrowable name) := by
  by_cases hmissing : ∃ n, (P.source host).walk name = .missing n
  · obtain ⟨n, hn⟩ := hmissing
    have hfalse : ((P.source host).isThrowable name).result = .ok false := by
      rw [ClassSource.isThrowable, hn]
      rfl
    cases hresult : (((P ++ Q).source host).isThrowable name).result with
    | ok b => exact .value trivial hfalse hresult (fun h => absurd h (by decide))
    | error f =>
        obtain ⟨a, ha, hf, hother⟩ := ClassSource.exists_ancestor_of_error hresult
        obtain ⟨e, he⟩ := hanswers a ha f hf
        exact absurd he (hother e)
  · have hsame : ((P ++ Q).source host).isThrowable name = (P.source host).isThrowable name := by
      rw [ClassSource.isThrowable, ClassSource.isThrowable, walk_append (not_exists.1 hmissing) Q]
    rw [hsame]
    cases hresult : ((P.source host).isThrowable name).result with
    | ok b => exact .value trivial hresult hresult id
    | error f => exact .failure trivial hresult hresult rfl

/-- With providers added behind a path, the header of a class that the path finds fails as before,
or it differs only in arguments and results that have become throwable. Only the lookups that the
header depends on need to answer. -/
theorem headerOf_append_refines (host : Host) (P Q : SearchPath) (name : QualifiedName)
    (bytes : List UInt8) (hfound : P.resolve host name = .ok (some bytes))
    (hanswers : ∀ a, Consults ((P ++ Q).resolve host) name a → ∀ f,
      (P ++ Q).resolve host a = .error f → ∃ e, f = .classFile e) :
    ((∃ f, (headerOf (P.source host) name).result = .error f ∧
        (headerOf ((P ++ Q).source host) name).result = .error f) ∨
      ∃ constants ps qs, List.Forall₂ (Prototype.Like NativeType.Refines) ps qs ∧
        (headerOf (P.source host) name).result =
          .ok (some (Header.ofPrototypes name constants ps)) ∧
        (headerOf ((P ++ Q).source host) name).result =
          .ok (some (Header.ofPrototypes name constants qs))) ∧
    ∀ n, ((P.source host).isThrowable n).result = .ok true →
      (((P ++ Q).source host).isThrowable n).result = .ok true := by
  have hlookup : (P ++ Q).resolve host name = P.resolve host name := by
    apply resolve_extends host P Q
    rw [hfound]
    simp
  have hagree : Agree (.ofFailures Eq) (HeaderLike NativeType.Refines name)
      (headerOf (P.source host) name) (headerOf ((P ++ Q).source host) name) := by
    apply agree_headerOf (B := fun b b' => b = true → b' = true) NativeType.Refines.same
    · intro b b' hb
      cases b with
      | true =>
          rw [hb rfl]
          exact .same _
      | false =>
          cases b' with
          | true => exact .throwable
          | false => exact .same _
    · exact fun _ => rfl
    · exact fun _ => rfl
    · exact hlookup
    · exact fun _ _ => rfl
    · intro bytes' m' hbytes' hm'
      refine ⟨fun _ _ _ _ => rfl, ?_⟩
      intro n hn
      apply agree_isThrowable_append
      intro a ha
      exact hanswers a (.ancestor (hlookup.trans hbytes') hm' hn ha)
  refine ⟨?_, fun n => isThrowable_append Q⟩
  cases hagree with
  | failure _ hf hg hfg =>
      obtain rfl := show _ = _ from hfg
      exact .inl ⟨_, hf, hg⟩
  | value _ hx hy hlike =>
      cases hlike with
      | present hall => exact .inr ⟨_, _, _, hall, hx, hy⟩
      | absent =>
          have hnone : P.resolve host name = .ok none := lookup_eq_none_of_headerOf hx
          rw [hfound] at hnone
          cases hnone

/-- With the second directory the argument of the method is throwable. -/
theorem headerOf_append_refines_userAndError :
    let host := userAndErrorHost [69]
    let P : SearchPath := [.directory userRoot]
    let Q : SearchPath := [.directory errorRoot]
    P.resolve host ⟨"A", none⟩ = .ok (some (userBytes [69])) ∧
    (∀ a, Consults ((P ++ Q).resolve host) ⟨"A", none⟩ a → ∀ f,
      (P ++ Q).resolve host a = .error f → ∃ e, f = .classFile e) ∧
    ∃ constants ps qs, List.Forall₂ (Prototype.Like NativeType.Refines) ps qs ∧
      (headerOf (P.source host) ⟨"A", none⟩).result =
        .ok (some (Header.ofPrototypes ⟨"A", none⟩ constants ps)) ∧
      (headerOf ((P ++ Q).source host) ⟨"A", none⟩).result =
        .ok (some (Header.ofPrototypes ⟨"A", none⟩ constants qs)) ∧ ps ≠ qs := by
  intro host P Q
  have hfound : P.resolve host ⟨"A", none⟩ = .ok (some (userBytes [69])) := by decide +kernel
  have hanswers : ∀ a, Consults ((P ++ Q).resolve host) ⟨"A", none⟩ a → ∀ f,
      (P ++ Q).resolve host a = .error f → ∃ e, f = .classFile e := by
    intro a ha f hf
    have hvalue : ((P ++ Q).resolve host a).toBool = true := by
      rcases consults_userAndErrorHost ha with rfl | rfl | rfl <;> decide +kernel
    rw [hf] at hvalue
    cases hvalue
  have hvalue : (headerOf (P.source host) ⟨"A", none⟩).result.toBool = true := by
    decide +kernel
  have hdiffer : (headerOf (P.source host) ⟨"A", none⟩).result ≠
      (headerOf ((P ++ Q).source host) ⟨"A", none⟩).result := by
    decide +kernel
  refine ⟨hfound, hanswers, ?_⟩
  have h := headerOf_append_refines host P Q ⟨"A", none⟩ (userBytes [69]) hfound hanswers
  rcases h.1 with ⟨f, hf, -⟩ | ⟨constants, ps, qs, hall, hps, hqs⟩
  · rw [hf] at hvalue
    cases hvalue
  · refine ⟨constants, ps, qs, hall, hps, hqs, ?_⟩
    intro heq
    rw [hps, hqs, heq] at hdiffer
    exact hdiffer rfl

end SearchPath

end JniHeader
