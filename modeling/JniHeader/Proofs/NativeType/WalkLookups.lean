import JniHeader.Proofs.NativeType.SuperClassWalk

/-!
# The lookups behind a walk

A walk looks up a class and classes above it, so its end depends on nothing else:
lookups that agree on these classes lead to the same end, whatever they answer for
others. If lookups only find more than others do, a walk can end differently only
where it missed a class before.
-/
namespace JniHeader

/-- The class itself, or one that superclasses lead up to from it. -/
def Ancestor (lookup : QualifiedName → Except Failure (Option (List UInt8)))
    (n a : QualifiedName) : Prop :=
  ∃ passed, Ascent lookup n passed a

/-- Every answer but an absence stays. -/
def Extends (lookup other : QualifiedName → Except Failure (Option (List UInt8))) : Prop :=
  ∀ n, lookup n ≠ .ok none → other n = lookup n

variable {lookup other : QualifiedName → Except Failure (Option (List UInt8))}

theorem Ancestor.refl (n : QualifiedName) : Ancestor lookup n n := ⟨[], .stay n⟩

theorem Ancestor.step {n next a : QualifiedName} (hup : SuperClass lookup n next)
    (h : Ancestor lookup next a) : Ancestor lookup n a := by
  obtain ⟨passed, hpassed⟩ := h
  exact ⟨n :: passed, .up hup hpassed⟩

/-- A class at which a walk stops has no ancestor but itself. -/
theorem Ancestor.eq_of_stop {n a : QualifiedName} {stop : WalkEnd}
    (hstop : superClassStep lookup n = .inl stop) (h : Ancestor lookup n a) : a = n := by
  obtain ⟨passed, hpassed⟩ := h
  cases hpassed with
  | stay _ => rfl
  | up hup _ =>
      rw [superClassStep_eq_inr_iff.2 hup] at hstop
      cases hstop

theorem Ancestor.eq_or_of_step {n next a : QualifiedName}
    (hstep : superClassStep lookup n = .inr next) (h : Ancestor lookup n a) :
    a = n ∨ Ancestor lookup next a := by
  obtain ⟨passed, hpassed⟩ := h
  cases hpassed with
  | stay _ => exact .inl rfl
  | up hup hrest =>
      rw [superClassStep_eq_inr_iff.2 hup] at hstep
      obtain rfl := Sum.inr.inj hstep
      exact .inr ⟨_, hrest⟩

/-- A walk looks up nothing but ancestors. -/
theorem ancestor_of_mem_recordedWalk {fuel : ℕ} {visited : List Text} {name a : QualifiedName}
    (ha : a ∈ (recordedWalk lookup fuel visited name).1) : Ancestor lookup name a := by
  induction fuel generalizing visited name with
  | zero => simp [recordedWalk] at ha
  | succ fuel ih =>
      rw [recordedWalk] at ha
      split_ifs at ha
      · simp at ha
      · simp at ha
      · simp at ha
      · cases hstep : superClassStep lookup name with
        | inl stop =>
            rw [hstep, Sum.elim_inl, List.mem_singleton] at ha
            rw [ha]
            exact .refl name
        | inr next =>
            rw [hstep, Sum.elim_inr, Prod.map_fst, List.mem_cons] at ha
            rcases ha with rfl | ha
            · exact .refl a
            · exact .step (superClassStep_eq_inr_iff.1 hstep) (ih ha)

theorem superClassWalk_congr_ancestors {fuel : ℕ} {visited : List Text} {name : QualifiedName}
    (hagree : ∀ a, Ancestor lookup name a → other a = lookup a) :
    superClassWalk other fuel visited name = superClassWalk lookup fuel visited name :=
  superClassWalk_congr fun a ha => hagree a (ancestor_of_mem_recordedWalk ha)

/-- A walk that ends ends there with more fuel, too. -/
theorem superClassWalk_add {fuel : ℕ} {visited : List Text} {name : QualifiedName}
    (hend : superClassWalk lookup fuel visited name ≠ .unfinished) (more : ℕ) :
    superClassWalk lookup (fuel + more) visited name =
      superClassWalk lookup fuel visited name := by
  induction fuel generalizing visited name with
  | zero => exact absurd rfl hend
  | succ fuel ih =>
      rw [Nat.add_right_comm, superClassWalk, superClassWalk]
      rw [superClassWalk] at hend
      split_ifs at hend ⊢
      · rfl
      · rfl
      · rfl
      · cases hstep : superClassStep lookup name with
        | inl stop => rfl
        | inr next =>
            rw [hstep] at hend
            exact ih hend

/-- A failed walk has met its failure in looking up an ancestor, and the failure is no fault of a
class file. -/
theorem exists_ancestor_of_failed {fuel : ℕ} {visited : List Text} {name : QualifiedName}
    {f : Failure} (h : superClassWalk lookup fuel visited name = .failed f) :
    ∃ a, Ancestor lookup name a ∧ lookup a = .error f ∧ ∀ e, f ≠ .classFile e := by
  have hend : superClassWalk lookup fuel visited name ≠ .unfinished := by
    rw [h]
    exact WalkEnd.noConfusion
  obtain ⟨passed, stop, hpassage, -, hstop⟩ := superClassWalk_passage hend
  rw [h] at hstop
  refine ⟨stop, ⟨passed, hpassage.ascent⟩, ?_⟩
  cases hstop with
  | ended _ _ hstep =>
      unfold superClassStep at hstep
      split at hstep
      · cases hstep
      · next g hother hg =>
          obtain rfl := WalkEnd.failed.inj (Sum.inl.inj hstep)
          exact ⟨hg, hother⟩
      · cases hstep
      · split at hstep <;> cases hstep

/-- With lookups that find more, a step that missed nothing is the same. -/
theorem superClassStep_extends (hext : Extends lookup other) {n : QualifiedName}
    (hfound : superClassStep lookup n ≠ .inl (.missing n)) :
    superClassStep other n = superClassStep lookup n := by
  have hsome : lookup n ≠ .ok none := by
    intro hnone
    apply hfound
    simp only [superClassStep, hnone]
  rw [superClassStep, superClassStep, hext n hsome]

/-- With lookups that find more, a walk that missed no class ends as before. -/
theorem superClassWalk_extends (hext : Extends lookup other) {fuel : ℕ} {visited : List Text}
    {name : QualifiedName}
    (hfound : ∀ n, superClassWalk lookup fuel visited name ≠ .missing n) :
    superClassWalk other fuel visited name = superClassWalk lookup fuel visited name := by
  induction fuel generalizing visited name with
  | zero => rfl
  | succ fuel ih =>
      rw [superClassWalk] at hfound
      rw [superClassWalk, superClassWalk]
      split_ifs at hfound ⊢
      · rfl
      · rfl
      · rfl
      · have hstep : superClassStep other name = superClassStep lookup name := by
          apply superClassStep_extends hext
          intro hmissing
          rw [hmissing] at hfound
          exact hfound name rfl
        rw [hstep]
        cases hnext : superClassStep lookup name with
        | inl stop => rfl
        | inr next =>
            rw [hnext] at hfound
            exact ih hfound

end JniHeader
