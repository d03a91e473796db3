import JniHeader.Search.Reported
import Mathlib.Data.List.Forall2
import Mathlib.Tactic.Common

/-!
# Results of sequences

A sequence of steps comes to a value if each step does, and it fails where its first
failing step does. The lines reported on the way have no part in this.
-/
namespace JniHeader.Reported

variable {α β ι : Type} {r : Reported α} {next : α → Reported β} {f : Failure}

theorem bind_eq_ok_iff {y : β} :
    (r.bind next).result = .ok y ↔ ∃ x, r.result = .ok x ∧ (next x).result = .ok y := by
  cases h : r.result with
  | ok x => simp [bind, h]
  | error f => simp [bind, h]

theorem bind_eq_error_iff :
    (r.bind next).result = .error f ↔
      r.result = .error f ∨ ∃ x, r.result = .ok x ∧ (next x).result = .error f := by
  cases h : r.result with
  | ok x => simp [bind, h]
  | error g => simp [bind, h]

theorem exists_bind {x : α} (hx : r.result = .ok x) (h : ∃ y, (next x).result = .ok y) :
    ∃ y, (r.bind next).result = .ok y := by
  obtain ⟨y, hy⟩ := h
  exact ⟨y, bind_eq_ok_iff.2 ⟨x, hx, hy⟩⟩

theorem exists_mem_of_forall₂ {R : ι → α → Prop} {xs : List ι} {ys : List α}
    (h : List.Forall₂ R xs ys) {y : α} (hy : y ∈ ys) : ∃ x ∈ xs, R x y := by
  induction h with
  | nil => cases hy
  | cons hxy _ ih =>
      rcases List.mem_cons.1 hy with rfl | hy
      · exact ⟨_, List.mem_cons_self, hxy⟩
      · obtain ⟨x, hx, hxy⟩ := ih hy
        exact ⟨x, List.mem_cons_of_mem _ hx, hxy⟩

/-- All members have values exactly if the list has theirs. -/
theorem forEach_eq_ok_iff {step : ι → Reported α} {xs : List ι} {ys : List α} :
    (forEach step xs).result = .ok ys ↔
      List.Forall₂ (fun x y => (step x).result = .ok y) xs ys := by
  induction xs generalizing ys with
  | nil =>
      rw [List.forall₂_nil_left_iff]
      exact ⟨fun h => (Except.ok.inj h).symm, fun h => congrArg Except.ok h.symm⟩
  | cons x xs ih =>
      simp only [forEach, bind_eq_ok_iff, ih, List.forall₂_cons_left_iff]
      constructor
      · rintro ⟨y, hy, zs, hzs, h⟩
        exact ⟨y, zs, hy, hzs, (Except.ok.inj h).symm⟩
      · rintro ⟨y, zs, hy, hzs, rfl⟩
        exact ⟨y, hy, zs, hzs, rfl⟩

theorem exists_mem_of_forEach_eq_error {step : ι → Reported α} {xs : List ι}
    (h : (forEach step xs).result = .error f) : ∃ x ∈ xs, (step x).result = .error f := by
  induction xs with
  | nil => cases h
  | cons x xs ih =>
      rw [forEach, bind_eq_error_iff] at h
      rcases h with h | ⟨y, -, h⟩
      · exact ⟨x, List.mem_cons_self, h⟩
      · rcases bind_eq_error_iff.1 h with h | ⟨ys, -, h⟩
        · obtain ⟨z, hz, hf⟩ := ih h
          exact ⟨z, List.mem_cons_of_mem x hz, hf⟩
        · cases h

theorem exists_forEach {step : ι → Reported α} {xs : List ι}
    (h : ∀ x ∈ xs, ∃ y, (step x).result = .ok y) : ∃ ys, (forEach step xs).result = .ok ys := by
  cases hresult : (forEach step xs).result with
  | ok ys => exact ⟨ys, rfl⟩
  | error f =>
      obtain ⟨x, hx, hf⟩ := exists_mem_of_forEach_eq_error hresult
      obtain ⟨y, hy⟩ := h x hx
      rw [hf] at hy
      cases hy

end JniHeader.Reported
