import JniHeader.Proofs.Number.NineDigits

/-!
# The digits of a number of single precision

The search for digits tries one count after the other. An attempt succeeds if the
decimal gives the number back; one that is read beyond the largest number of a format
on the way, as can happen next to the largest number of single precision, does not.
Nine digits always succeed, hence the search ends with the least count that does.
-/
namespace JniHeader

/-- A number from its sign and its distance to zero. -/
def signed (negative : Bool) (x : ℚ) : ℚ := if negative then -x else x

theorem givesBack_signed {count : ℕ} {negative : Bool} {x : ℚ} :
    GivesBack count (signed negative x) ↔ GivesBack count x := by
  cases negative with
  | false => exact Iff.rfl
  | true =>
      refine ⟨fun h => ?_, GivesBack.neg⟩
      have hneg := h.neg
      rwa [signed, if_pos rfl, neg_neg] at hneg

theorem BinaryFormat.Finite.signed {f : BinaryFormat} {x : ℚ} (h : f.Finite x) (negative : Bool) :
    f.Finite (signed negative x) := by
  cases negative with
  | false => exact h
  | true => exact h.neg

namespace FloatDatum

variable {count : ℕ} {negative : Bool} {m : ℕ} {e : ℤ}

/-- The distance of a finite datum to zero. -/
def magnitude (m : ℕ) (e : ℤ) : ℚ := m * (2 : ℚ) ^ e

/-- The number that a finite datum is. -/
def number (negative : Bool) (m : ℕ) (e : ℤ) : ℚ := signed negative (magnitude m e)

/-- The finite data that bit patterns of single precision stand for. -/
theorem finite_of_decode {bits : ℕ} (h : binary32.decode bits = .finite negative m e) :
    binary32.Finite (number negative m e) := by
  have hleast : binary32.leastFull = 2 ^ 23 := rfl
  have hcodes : binary32.exponentCodes = 256 := rfl
  have hunit : binary32.minExponent = -149 := rfl
  have hfraction : bits % 2 ^ 23 < 2 ^ 23 := Nat.mod_lt _ (by positivity)
  have hexponent : bits / 2 ^ 23 % 256 < 256 := Nat.mod_lt _ (by decide)
  have hbounds : binary32.Full m e ∧ e ≤ binary32.maxExponent := by
    simp only [BinaryFormat.decode, hleast, hcodes, hunit] at h
    generalize bits % 2 ^ 23 = fraction at hfraction h
    generalize bits / 2 ^ 23 % 256 = exponent at hexponent h
    change (m < 2 ^ 24 ∧ (-149 : ℤ) ≤ e ∧ (2 ^ 23 ≤ m ∨ e = -149)) ∧ e ≤ 104
    split_ifs at h with hlast hzero hsubnormal
    · obtain ⟨-, rfl, rfl⟩ := FloatDatum.finite.inj h
      omega
    · obtain ⟨-, rfl, rfl⟩ := FloatDatum.finite.inj h
      omega
  exact (hbounds.1.finite (by decide) (by decide) hbounds.2).signed negative

theorem scaleRatio_magnitude {n d : ℕ} (h : scaleRatio 2 m 1 e = (n, d)) :
    0 < d ∧ (n / d : ℚ) = magnitude m e := by
  have hpos := scaleRatio_pos two_pos m one_pos e
  have hdiv := scaleRatio_div two_pos m 1 e
  rw [h, Nat.cast_one, div_one] at hdiv
  rw [h] at hpos
  exact ⟨hpos, hdiv⟩

theorem scaleRatio_num_pos (hm : 0 < m) {n d : ℕ} (h : scaleRatio 2 m 1 e = (n, d)) : 0 < n := by
  obtain ⟨-, hratio⟩ := scaleRatio_magnitude h
  have hpos : 0 < magnitude m e := mul_pos (by exact_mod_cast hm) (zpow_pos two_pos _)
  refine Nat.pos_of_ne_zero fun hzero => ?_
  rw [← hratio, hzero, Nat.cast_zero, zero_div] at hpos
  exact lt_irrefl _ hpos

/-- Data of one sign are the same number if their distances to zero are. -/
theorem sameNumber_iff {m n : ℕ} {e g : ℤ} :
    sameNumber (.finite negative m e) (.finite negative n g) = true ↔
      magnitude m e = magnitude n g := by
  have hscaled (k : ℕ) {i low : ℤ} (hlow : low ≤ i) :
      ((k * Nat.pow 2 (i - low).toNat : ℕ) : ℚ) * 2 ^ low = magnitude k i := by
    obtain ⟨j, rfl⟩ := Int.le.dest hlow
    rw [add_sub_cancel_left, Int.toNat_natCast, Nat.pow_eq, magnitude, zpow_add₀ two_ne_zero,
      zpow_natCast]
    push_cast
    ring
  have hunit : (2 : ℚ) ^ min e g ≠ 0 := zpow_ne_zero _ two_ne_zero
  rw [← hscaled m (min_le_left e g), ← hscaled n (min_le_right e g), mul_left_inj' hunit]
  simp only [sameNumber, beq_self_eq_true, Bool.true_or, Bool.and_true, beq_iff_eq]
  exact Nat.cast_inj.symm

/-- What has been read is the number. -/
def Restores (read : Option FloatDatum) (negative : Bool) (m : ℕ) (e : ℤ) : Prop :=
  ∃ x, read = some x ∧ x.sameNumber (.finite negative m e) = true

/-- The second of the two readings, from the result of the first. -/
def readSingle? (negative : Bool) : Option (ℕ × ℤ) → Option FloatDatum
  | none => some (.infinite negative)
  | some (m, e) => binary32.round? (.finite negative m e)

theorem round?_restores_iff {m₁ : ℕ} {e₁ : ℤ} :
    Restores (binary32.round? (.finite negative m₁ e₁)) negative m e ↔
      binary32.ReadsAs (magnitude m₁ e₁) (magnitude m e) := by
  rcases hscale : scaleRatio 2 m₁ 1 e₁ with ⟨n, d⟩
  obtain ⟨hd, hratio⟩ := scaleRatio_magnitude hscale
  have hround : binary32.round? (.finite negative m₁ e₁) =
      (binary32.roundRatio n d).map fun p => .finite negative p.1 p.2 := by
    simp only [BinaryFormat.round?, hscale]
  have hreads := BinaryFormat.roundRatio_reads (f := binary32) (by decide) (by decide) n hd
  rw [hratio] at hreads
  rw [hround]
  rcases hreads with ⟨m₂, e₂, heq, hread⟩ | ⟨heq, hnone⟩
  · rw [heq]
    constructor
    · rintro ⟨x, hx, hsame⟩
      obtain rfl := Option.some.inj hx
      rw [← sameNumber_iff.1 hsame]
      exact hread
    · intro hv
      exact ⟨_, rfl, sameNumber_iff.2 (hread.1.unique hv.1)⟩
  · rw [heq]
    refine iff_of_false ?_ (hnone _)
    rintro ⟨x, hx, -⟩
    cases hx

theorem readSingle?_restores_iff {n d : ℕ} (hd : 0 < d) :
    Restores (readSingle? negative (binary64.roundRatio n d)) negative m e ↔
      ∃ x, binary64.ReadsAs (n / d) x ∧ binary32.ReadsAs x (magnitude m e) := by
  rcases BinaryFormat.roundRatio_reads (f := binary64) (by decide) (by decide) n hd with
    ⟨m₁, e₁, heq, hread⟩ | ⟨heq, hnone⟩
  · rw [heq, readSingle?, round?_restores_iff]
    refine ⟨fun hv => ⟨_, hread, hv⟩, ?_⟩
    rintro ⟨x, hx, hv⟩
    obtain rfl := hx.1.unique hread.1
    exact hv
  · rw [heq]
    constructor
    · rintro ⟨x, hx, hsame⟩
      obtain rfl := Option.some.inj hx
      cases hsame
    · rintro ⟨x, hx, -⟩
      exact absurd hx (hnone x)

theorem magnitude_zero (e : ℤ) : magnitude 0 e = 0 := by rw [magnitude, Nat.cast_zero, zero_mul]

theorem rereadSingle?_eq {n d : ℕ} (hm : m ≠ 0) (h : scaleRatio 2 m 1 e = (n, d)) :
    rereadSingle? count negative m e =
      readSingle? negative (binary64.roundRatio (Decimal.significant count n d).ratio.1
        (Decimal.significant count n d).ratio.2) := by
  simp only [rereadSingle?, if_neg hm, h]
  rfl

theorem rereadSingle?_restores_iff (hcount : 0 < count) :
    Restores (rereadSingle? count negative m e) negative m e ↔ GivesBack count (magnitude m e) := by
  rcases Nat.eq_zero_or_pos m with rfl | hm
  · have hsame : sameNumber (.finite negative 0 0) (.finite negative 0 e) = true := by
      rw [sameNumber_iff, magnitude_zero, magnitude_zero]
    rw [magnitude_zero]
    exact iff_of_true ⟨_, rfl, hsame⟩ (givesBack_zero count)
  · rcases hscale : scaleRatio 2 m 1 e with ⟨n, d⟩
    obtain ⟨hd, hratio⟩ := scaleRatio_magnitude hscale
    have hn := scaleRatio_num_pos hm hscale
    obtain ⟨-, hdecimal, -⟩ := Decimal.significant_spec hcount hn hd
    rw [hratio] at hdecimal
    rw [rereadSingle?_eq hm.ne' hscale, readSingle?_restores_iff (Decimal.ratio_pos _),
      Decimal.ratio_div, givesBack_iff hdecimal]

/-- The attempt with so many digits succeeds. -/
def fitsSingle (count : ℕ) (negative : Bool) (m : ℕ) (e : ℤ) : Bool :=
  match rereadSingle? count negative m e with
  | none => false
  | some x => x.sameNumber (.finite negative m e)

theorem fitsSingle_iff (hcount : 0 < count) :
    fitsSingle count negative m e = true ↔ GivesBack count (magnitude m e) := by
  have hrestores : Restores (rereadSingle? count negative m e) negative m e ↔ _ :=
    rereadSingle?_restores_iff hcount
  rw [← hrestores, fitsSingle]
  cases rereadSingle? count negative m e with
  | none => exact iff_of_false nofun fun h => Option.some_ne_none _ h.choose_spec.1.symm
  | some x =>
      refine ⟨fun hsame => ⟨x, rfl, hsame⟩, ?_⟩
      rintro ⟨y, hy, hsame⟩
      rw [Option.some.inj hy]
      exact hsame

/-- The text that the result of the search stands for. -/
def foundText (negative : Bool) (m : ℕ) (e : ℤ) : Option ℕ → Text
  | some k => generalText (k + 1) negative m e
  | none => shortestText negative m e

/-- The search finds the least count of digits that gives the number back. -/
theorem exists_shortestSingleText (negative : Bool) (hv : binary32.Finite (magnitude m e)) :
    ∃ count, 1 ≤ count ∧ count ≤ 9 ∧ GivesBack count (magnitude m e) ∧
      (∀ fewer, 1 ≤ fewer → fewer < count → ¬ GivesBack fewer (magnitude m e)) ∧
      shortestSingleText negative m e = generalText count negative m e := by
  have hsearch : shortestSingleText negative m e =
      foundText negative m e ((List.range 9).find? fun k => fitsSingle (k + 1) negative m e) := rfl
  cases hfind : (List.range 9).find? fun k => fitsSingle (k + 1) negative m e with
  | none =>
      rw [List.find?_eq_none] at hfind
      have hnine : fitsSingle 9 negative m e = true :=
        (fitsSingle_iff (by decide)).2 (givesBack_nine hv)
      exact absurd hnine (hfind 8 (by decide))
  | some k =>
      rw [hfind] at hsearch
      obtain ⟨hfits, hrange, hleast⟩ := List.find?_range_eq_some.1 hfind
      have hk := List.mem_range.1 hrange
      refine ⟨k + 1, by omega, by omega, (fitsSingle_iff k.succ_pos).1 hfits, ?_, hsearch⟩
      intro fewer hone hfewer hback
      have hnot := hleast (fewer - 1) (by omega)
      rw [Nat.sub_add_cancel hone, (fitsSingle_iff hone).2 hback] at hnot
      cases hnot

end FloatDatum

end JniHeader
