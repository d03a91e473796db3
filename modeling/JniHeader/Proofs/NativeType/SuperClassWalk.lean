import JniHeader.NativeType.Throwable
import Mathlib.Data.Finset.Card
import Mathlib.Data.List.Nodup
import Mathlib.Tactic.Common

/-!
# Walks along superclasses

A walk is compared with the superclass relation of its lookups. It passes through
pairwise different classes, each the superclass of the one before, and stops at a
class for one of the reasons that its report names. It always stops: a source has
finitely many answers, and two answers that name one superclass bring the walk to
a class that it has come to before. So a walk looks up no class twice, and none
but the last in vain.
-/
namespace JniHeader

variable {lookup : QualifiedName → Except Failure (Option (List UInt8))}

/-- The class is found and readable, and the next one is its superclass. -/
def SuperClass (lookup : QualifiedName → Except Failure (Option (List UInt8)))
    (n next : QualifiedName) : Prop :=
  ∃ bytes, lookup n = .ok (some bytes) ∧ ClassFile.superClassOf bytes = .ok (some next)

/-- Neither `Object` nor a throwable root. -/
def Ordinary (n : QualifiedName) : Prop :=
  n.className ∉ throwableRoots ∧ n.className ≠ objectRoot

/-- From superclass to superclass the classes `passed` lead up to `stop`. -/
inductive Ascent (lookup : QualifiedName → Except Failure (Option (List UInt8))) :
    QualifiedName → List QualifiedName → QualifiedName → Prop
  | stay (n : QualifiedName) : Ascent lookup n [] n
  | up {n next stop : QualifiedName} {passed : List QualifiedName} :
      SuperClass lookup n next → Ascent lookup next passed stop →
      Ascent lookup n (n :: passed) stop

/-- An ascent through pairwise different classes, of which only the last may be a root. -/
structure Passage (lookup : QualifiedName → Except Failure (Option (List UInt8)))
    (name : QualifiedName) (passed : List QualifiedName) (stop : QualifiedName) : Prop where
  ascent : Ascent lookup name passed stop
  distinct : (passed.map QualifiedName.className).Nodup
  ordinary : ∀ n ∈ passed, Ordinary n

/-- Why a walk ends at a class after those in `seen`. -/
inductive Stops (lookup : QualifiedName → Except Failure (Option (List UInt8)))
    (seen : List Text) (stop : QualifiedName) : WalkEnd → Prop
  | throwable : stop.className ∈ throwableRoots → Stops lookup seen stop .throwable
  | object : stop.className = objectRoot → Stops lookup seen stop .object
  | cyclic : Ordinary stop → stop.className ∈ seen → Stops lookup seen stop (.cyclic stop)
  | ended {e : WalkEnd} : Ordinary stop → stop.className ∉ seen →
      superClassStep lookup stop = .inl e → Stops lookup seen stop e

theorem superClassStep_eq_inr_iff {n next : QualifiedName} :
    superClassStep lookup n = .inr next ↔ SuperClass lookup n next := by
  unfold superClassStep SuperClass
  constructor
  · intro h
    split at h
    · cases h
    · cases h
    · cases h
    · next bytes hbytes =>
        refine ⟨bytes, hbytes, ?_⟩
        split at h
        · cases h
        · cases h
        · next hnext =>
            obtain rfl := Sum.inr.inj h
            exact hnext
  · intro h
    obtain ⟨bytes, hbytes, hnext⟩ := h
    simp only [hbytes, hnext]

/-- Only the membership of `seen` counts. -/
theorem Stops.congr {seen seen' : List Text} {stop : QualifiedName} {e : WalkEnd}
    (hseen : ∀ t, t ∈ seen ↔ t ∈ seen') (h : Stops lookup seen stop e) :
    Stops lookup seen' stop e := by
  cases h with
  | throwable hroot => exact .throwable hroot
  | object hobject => exact .object hobject
  | cyclic hordinary hmem => exact .cyclic hordinary ((hseen _).1 hmem)
  | ended hordinary hmem he => exact .ended hordinary (fun hm => hmem ((hseen _).2 hm)) he

section Turn
variable {n : QualifiedName} {visited : List Text}

theorem superClassWalk_ended (hn : Ordinary n) (hnew : n.className ∉ visited) {e : WalkEnd}
    (he : superClassStep lookup n = .inl e) (fuel : ℕ) :
    superClassWalk lookup (fuel + 1) visited n = e := by
  rw [superClassWalk, if_neg hn.1, if_neg hn.2, if_neg hnew, he]

theorem superClassWalk_up (hn : Ordinary n) (hnew : n.className ∉ visited) {next : QualifiedName}
    (hup : SuperClass lookup n next) (fuel : ℕ) :
    superClassWalk lookup (fuel + 1) visited n =
      superClassWalk lookup fuel (n.className :: visited) next := by
  rw [superClassWalk, if_neg hn.1, if_neg hn.2, if_neg hnew, superClassStep_eq_inr_iff.2 hup]

end Turn

/-- A walk that ends has passed along a passage and stops for one of the reasons. -/
theorem superClassWalk_passage {fuel : ℕ} {visited : List Text} {name : QualifiedName}
    (hend : superClassWalk lookup fuel visited name ≠ .unfinished) :
    ∃ passed stop, Passage lookup name passed stop ∧
      (∀ n ∈ passed, n.className ∉ visited) ∧
      Stops lookup (passed.map QualifiedName.className ++ visited) stop
        (superClassWalk lookup fuel visited name) := by
  induction fuel generalizing visited name with
  | zero => exact absurd rfl hend
  | succ fuel ih =>
      have hhere : Passage lookup name [] name := ⟨.stay name, by simp, by simp⟩
      by_cases hroot : name.className ∈ throwableRoots
      · refine ⟨[], name, hhere, by simp, ?_⟩
        rw [superClassWalk, if_pos hroot]
        exact .throwable hroot
      by_cases hobject : name.className = objectRoot
      · refine ⟨[], name, hhere, by simp, ?_⟩
        rw [superClassWalk, if_neg hroot, if_pos hobject]
        exact .object hobject
      have hordinary : Ordinary name := ⟨hroot, hobject⟩
      by_cases hvisited : name.className ∈ visited
      · refine ⟨[], name, hhere, by simp, ?_⟩
        rw [superClassWalk, if_neg hroot, if_neg hobject, if_pos hvisited]
        exact .cyclic hordinary hvisited
      cases hstep : superClassStep lookup name with
      | inl e =>
          refine ⟨[], name, hhere, by simp, ?_⟩
          rw [superClassWalk_ended hordinary hvisited hstep]
          exact .ended hordinary hvisited hstep
      | inr next =>
          have hup := superClassStep_eq_inr_iff.1 hstep
          rw [superClassWalk_up hordinary hvisited hup] at hend ⊢
          obtain ⟨passed, stop, hpassage, hfresh, hstop⟩ := ih hend
          refine ⟨name :: passed, stop, ⟨.up hup hpassage.ascent, ?_, ?_⟩, ?_, ?_⟩
          · rw [List.map_cons, List.nodup_cons]
            refine ⟨?_, hpassage.distinct⟩
            intro hmem
            obtain ⟨n, hn, hname⟩ := List.mem_map.1 hmem
            exact hfresh n hn (by simp [hname])
          · exact List.forall_mem_cons.2 ⟨hordinary, hpassage.ordinary⟩
          · refine List.forall_mem_cons.2 ⟨hvisited, ?_⟩
            intro n hn hmem
            exact hfresh n hn (List.mem_cons_of_mem _ hmem)
          · apply hstop.congr
            intro t
            simp only [List.map_cons, List.mem_append, List.mem_cons]
            tauto

/-- Along a passage to a throwable root the walk ends there, if it ends. -/
theorem superClassWalk_of_passage {fuel : ℕ} {visited : List Text} {name root : QualifiedName}
    {passed : List QualifiedName} (h : Passage lookup name passed root)
    (hfresh : ∀ n ∈ passed, n.className ∉ visited) (hroot : root.className ∈ throwableRoots)
    (hend : superClassWalk lookup fuel visited name ≠ .unfinished) :
    superClassWalk lookup fuel visited name = .throwable := by
  obtain ⟨hascent, hdistinct, hordinary⟩ := h
  induction hascent generalizing fuel visited with
  | stay n =>
      cases fuel with
      | zero => exact absurd rfl hend
      | succ fuel => rw [superClassWalk, if_pos hroot]
  | @up n next stop passed hup _ ih =>
      cases fuel with
      | zero => exact absurd rfl hend
      | succ fuel =>
          rw [List.forall_mem_cons] at hordinary hfresh
          rw [List.map_cons, List.nodup_cons] at hdistinct
          rw [superClassWalk_up hordinary.1 hfresh.1 hup] at hend ⊢
          refine ih ?_ hroot hend hdistinct.2 hordinary.2
          intro m hm hmem
          rcases List.mem_cons.1 hmem with hname | hmem
          · exact hdistinct.1 (hname ▸ List.mem_map_of_mem hm)
          · exact hfresh.2 m hm hmem

theorem superClassStep_ne_unfinished (n : QualifiedName) :
    superClassStep lookup n ≠ .inl .unfinished := by
  unfold superClassStep
  intro h
  split at h
  · cases h
  · cases h
  · cases h
  · split at h
    · cases h
    · cases h
    · cases h

/-- The answers used so far are different ones of the pool, and the walk has come to the
superclasses that they name. -/
structure UsedAnswers (pool used : List (List UInt8)) (reached : List Text) : Prop where
  distinct : used.Nodup
  known : used ⊆ pool
  reached : ∀ bytes ∈ used, ∀ next, ClassFile.superClassOf bytes = .ok (some next) →
    next.className ∈ reached

theorem UsedAnswers.length_le {pool used : List (List UInt8)} {reached : List Text}
    (h : UsedAnswers pool used reached) : used.length ≤ pool.length :=
  h.distinct.length_le_of_subset h.known

theorem UsedAnswers.cons {pool used : List (List UInt8)} {reached : List Text}
    {bytes : List UInt8} {next : QualifiedName} (h : UsedAnswers pool used reached)
    (hpool : bytes ∈ pool) (hnew : bytes ∉ used)
    (hnext : ClassFile.superClassOf bytes = .ok (some next)) :
    UsedAnswers pool (bytes :: used) (next.className :: reached) := by
  refine ⟨List.nodup_cons.2 ⟨hnew, h.distinct⟩, List.cons_subset.2 ⟨hpool, h.known⟩, ?_⟩
  intro b hb m hm
  rcases List.mem_cons.1 hb with rfl | hb
  · obtain rfl : next = m := by simpa [hnext] using hm
    exact List.mem_cons_self
  · exact List.mem_cons_of_mem _ (h.reached b hb m hm)

/-- A class that the walk has come to before ends it at the next turn. -/
theorem superClassWalk_visited {fuel : ℕ} {visited : List Text} {n : QualifiedName}
    (hn : n.className ∈ visited) :
    superClassWalk lookup (fuel + 1) visited n ≠ .unfinished := by
  rw [superClassWalk, if_pos hn]
  split
  · exact WalkEnd.noConfusion
  · split
    · exact WalkEnd.noConfusion
    · exact WalkEnd.noConfusion

/-- Two turns more than a pool has answers suffice: a turn either uses a new answer or leads to a
class that the walk has come to before. -/
theorem superClassWalk_ne_unfinished {pool : List (List UInt8)}
    (hpool : ∀ n bytes, lookup n = .ok (some bytes) → bytes ∈ pool) {fuel : ℕ}
    {visited : List Text} {used : List (List UInt8)} {name : QualifiedName}
    (hused : UsedAnswers pool used (name.className :: visited))
    (hfuel : pool.length + 2 ≤ fuel + used.length) :
    superClassWalk lookup fuel visited name ≠ .unfinished := by
  have hlength := hused.length_le
  induction fuel generalizing visited used name with
  | zero => omega
  | succ fuel ih =>
      by_cases hroot : name.className ∈ throwableRoots
      · rw [superClassWalk, if_pos hroot]
        exact WalkEnd.noConfusion
      by_cases hobject : name.className = objectRoot
      · rw [superClassWalk, if_neg hroot, if_pos hobject]
        exact WalkEnd.noConfusion
      have hordinary : Ordinary name := ⟨hroot, hobject⟩
      by_cases hvisited : name.className ∈ visited
      · exact superClassWalk_visited hvisited
      cases hstep : superClassStep lookup name with
      | inl e =>
          rw [superClassWalk_ended hordinary hvisited hstep]
          intro he
          exact superClassStep_ne_unfinished name (hstep.trans (congrArg Sum.inl he))
      | inr next =>
          have hup := superClassStep_eq_inr_iff.1 hstep
          rw [superClassWalk_up hordinary hvisited hup]
          obtain ⟨bytes, hbytes, hnext⟩ := hup
          by_cases hmem : bytes ∈ used
          · obtain ⟨fuel, rfl⟩ : ∃ k, fuel = k + 1 := ⟨fuel - 1, by omega⟩
            exact superClassWalk_visited (hused.reached bytes hmem next hnext)
          · have hcons := hused.cons (hpool name bytes hbytes) hmem hnext
            refine ih hcons ?_ hcons.length_le
            rw [List.length_cons]
            omega

-- With an instance of its own name, the equations of the walk hold no auxiliary proof.
instance : LawfulBEq Text := inferInstance

/-- The walk together with the classes that it looks up, in order. -/
def recordedWalk (lookup : QualifiedName → Except Failure (Option (List UInt8))) :
    ℕ → List Text → QualifiedName → List QualifiedName × WalkEnd
  | 0, _, _ => ([], .unfinished)
  | fuel + 1, visited, name =>
    if name.className ∈ throwableRoots then ([], .throwable)
    else if name.className = objectRoot then ([], .object)
    else if name.className ∈ visited then ([], .cyclic name)
    else
      (superClassStep lookup name).elim (fun stop => ([name], stop)) fun next =>
        Prod.map (List.cons name) id (recordedWalk lookup fuel (name.className :: visited) next)

theorem recordedWalk_snd (fuel : ℕ) (visited : List Text) (name : QualifiedName) :
    (recordedWalk lookup fuel visited name).2 = superClassWalk lookup fuel visited name := by
  induction fuel generalizing visited name with
  | zero => rfl
  | succ fuel ih =>
      rw [recordedWalk, superClassWalk]
      split_ifs
      · rfl
      · rfl
      · rfl
      · cases superClassStep lookup name with
        | inl stop => rfl
        | inr next => exact ih _ _

/-- No class is looked up twice, and every lookup but the last finds a readable class. -/
theorem recordedWalk_lookups (lookup : QualifiedName → Except Failure (Option (List UInt8)))
    (fuel : ℕ) (visited : List Text) (name : QualifiedName) :
    ((recordedWalk lookup fuel visited name).1.map QualifiedName.className).Nodup ∧
      (∀ n ∈ (recordedWalk lookup fuel visited name).1, n.className ∉ visited) ∧
      ∀ n ∈ (recordedWalk lookup fuel visited name).1.dropLast, ∃ next,
        SuperClass lookup n next := by
  induction fuel generalizing visited name with
  | zero => simp [recordedWalk]
  | succ fuel ih =>
      rw [recordedWalk]
      split_ifs with hroot hobject hvisited
      · simp
      · simp
      · simp
      · cases hstep : superClassStep lookup name with
        | inl stop => simpa using hvisited
        | inr next =>
            obtain ⟨hdistinct, hfresh, hfound⟩ := ih (name.className :: visited) next
            simp only [Sum.elim_inr, Prod.map_fst, List.map_cons, List.nodup_cons,
              List.forall_mem_cons]
            refine ⟨⟨?_, hdistinct⟩, ⟨hvisited, ?_⟩, ?_⟩
            · intro hmem
              obtain ⟨n, hn, hname⟩ := List.mem_map.1 hmem
              exact hfresh n hn (by simp [hname])
            · intro n hn hmem
              exact hfresh n hn (List.mem_cons_of_mem _ hmem)
            · intro n hn
              cases hrest : (recordedWalk lookup fuel (name.className :: visited) next).1 with
              | nil => simp [hrest] at hn
              | cons m rest =>
                  rw [hrest, List.dropLast_cons_cons] at hn
                  rcases List.mem_cons.1 hn with rfl | hn
                  · exact ⟨next, superClassStep_eq_inr_iff.1 hstep⟩
                  · exact hfound n (by rwa [hrest])

/-- The end of a walk depends on these lookups alone. -/
theorem superClassWalk_congr {other : QualifiedName → Except Failure (Option (List UInt8))}
    {fuel : ℕ} {visited : List Text} {name : QualifiedName}
    (hagree : ∀ n ∈ (recordedWalk lookup fuel visited name).1, other n = lookup n) :
    superClassWalk other fuel visited name = superClassWalk lookup fuel visited name := by
  induction fuel generalizing visited name with
  | zero => rfl
  | succ fuel ih =>
      rw [recordedWalk] at hagree
      rw [superClassWalk, superClassWalk]
      split_ifs at hagree ⊢
      · rfl
      · rfl
      · rfl
      · have hstep : superClassStep other name = superClassStep lookup name := by
          have hname : other name = lookup name := by
            apply hagree
            cases superClassStep lookup name with
            | inl stop => exact List.mem_cons_self
            | inr next => exact List.mem_cons_self
          rw [superClassStep, superClassStep, hname]
        rw [hstep]
        cases hnext : superClassStep lookup name with
        | inl stop => rfl
        | inr next =>
            simp only [hnext, Sum.elim_inr, Prod.map_fst, List.forall_mem_cons] at hagree
            exact ih hagree.2

end JniHeader
