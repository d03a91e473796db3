import JniHeader.Proofs.Number.Rounding
import Mathlib.Algebra.Order.Field.Power

/-!
# Reading digits back

A decimal is read to the nearest number of a format, or to none if that is beyond the
largest. A single-precision number is read in two steps, through double precision, and
each of them rounds.

With nine significant digits this gives every number of single precision back. The
decimal is off by less than an eighth of a unit, and double precision holds the number
itself, so that rounding to it at most doubles the error; but any other number of
single precision is at least half a unit away. This is the distance downwards from a
power of two, where the numbers get closer; among subnormal numbers it is a whole unit.
-/
namespace JniHeader

theorem exists_ratio {x : ℚ} (h : 0 ≤ x) : ∃ num den : ℕ, 0 < den ∧ (num / den : ℚ) = x := by
  obtain ⟨num, hnum⟩ := Int.eq_ofNat_of_zero_le (Rat.num_nonneg.2 h)
  refine ⟨num, x.den, x.den_pos, ?_⟩
  have hdivision := Rat.num_div_den x
  rwa [hnum, Int.cast_natCast] at hdivision

namespace BinaryFormat

variable {f g : BinaryFormat} {x y v d : ℚ}

/-- The first power of two that is too large for the format. -/
def bound (f : BinaryFormat) : ℚ := 2 ^ (f.precision + f.maxExponent)

def Finite (f : BinaryFormat) (x : ℚ) : Prop := f.grid.Holds x ∧ |x| < f.bound

/-- Read to the nearest number of the format, which is finite. -/
def ReadsAs (f : BinaryFormat) (x y : ℚ) : Prop := f.grid.RoundsTo x y ∧ |y| < f.bound

theorem Finite.neg (h : f.Finite x) : f.Finite (-x) := ⟨h.1.neg, by rw [abs_neg]; exact h.2⟩

theorem readsAs_zero (f : BinaryFormat) : f.ReadsAs 0 0 := by
  refine ⟨(Grid.holds_zero two_pos).roundsTo, ?_⟩
  rw [abs_zero]
  exact zpow_pos two_pos _

theorem ReadsAs.neg (h : f.ReadsAs x y) : f.ReadsAs (-x) (-y) :=
  ⟨h.1.neg, by rw [abs_neg]; exact h.2⟩

section

variable {m : ℕ} {e : ℤ}

theorem Full.bound_le_iff (hprecision : 0 < f.precision) (hrange : f.minExponent ≤ f.maxExponent)
    (h : f.Full m e) : f.bound ≤ m * (2 : ℚ) ^ e ↔ f.maxExponent < e := by
  obtain ⟨hlt, -, hfull⟩ := h
  constructor
  · intro hbound
    by_contra hle
    have hm : (m : ℚ) < 2 ^ f.precision := by exact_mod_cast hlt
    have hsmall : m * (2 : ℚ) ^ e < f.bound :=
      calc m * (2 : ℚ) ^ e < 2 ^ f.precision * (2 : ℚ) ^ e :=
            mul_lt_mul_of_pos_right hm (zpow_pos two_pos _)
        _ ≤ 2 ^ f.precision * (2 : ℚ) ^ f.maxExponent :=
            mul_le_mul_of_nonneg_left (zpow_le_zpow_right₀ one_le_two (not_lt.1 hle)) (by positivity)
        _ = f.bound := by rw [bound, zpow_add₀ two_ne_zero, zpow_natCast]
    exact absurd hbound (not_le.2 hsmall)
  · intro hlarge
    have hm : (f.leastFull : ℚ) ≤ m := by
      exact_mod_cast hfull.resolve_right (by omega)
    have hpow : (2 : ℚ) * f.leastFull = 2 ^ f.precision := by
      exact_mod_cast two_mul_leastFull hprecision
    calc f.bound = f.leastFull * (2 : ℚ) ^ (f.maxExponent + 1) := by
          rw [bound, zpow_add₀ two_ne_zero, zpow_natCast, ← hpow, zpow_add_one₀ two_ne_zero]
          ring
      _ ≤ f.leastFull * (2 : ℚ) ^ e :=
          mul_le_mul_of_nonneg_left (zpow_le_zpow_right₀ one_le_two hlarge) (by positivity)
      _ ≤ m * (2 : ℚ) ^ e := mul_le_mul_of_nonneg_right hm (zpow_pos two_pos _).le

theorem Full.finite (hprecision : 0 < f.precision) (hrange : f.minExponent ≤ f.maxExponent)
    (h : f.Full m e) (he : e ≤ f.maxExponent) : f.Finite (m * (2 : ℚ) ^ e) := by
  have hnonneg : (0 : ℚ) ≤ m * (2 : ℚ) ^ e := by positivity
  constructor
  · refine ⟨m, e, ?_, WithBot.coe_le_coe.2 h.2.1, by push_cast; rfl⟩
    rw [Nat.abs_cast]
    exact_mod_cast h.1
  · rw [abs_of_nonneg hnonneg, ← not_le, h.bound_le_iff hprecision hrange]
    exact not_lt.2 he

/-- What a ratio is rounded to is what it is read as; without a result it is read as nothing. -/
theorem roundRatio_reads (hprecision : 0 < f.precision) (hrange : f.minExponent ≤ f.maxExponent)
    (num : ℕ) {den : ℕ} (hden : 0 < den) :
    (∃ m e, f.roundRatio num den = some (m, e) ∧ f.ReadsAs (num / den) (m * (2 : ℚ) ^ e)) ∨
      (f.roundRatio num den = none ∧ ∀ y, ¬ f.ReadsAs (num / den) y) := by
  obtain ⟨m, e, hfull, hround, heq⟩ := roundRatio_spec hprecision hrange num hden
  have hnonneg : (0 : ℚ) ≤ m * (2 : ℚ) ^ e := by positivity
  have hbound := hfull.bound_le_iff hprecision hrange
  split_ifs at heq with hlarge
  · refine .inr ⟨heq, fun y hy => ?_⟩
    have hfinite := hy.2
    rw [hy.1.unique hround, abs_of_nonneg hnonneg] at hfinite
    exact absurd (hbound.2 hlarge) (not_le.2 hfinite)
  · refine .inl ⟨m, e, heq, hround, ?_⟩
    rw [abs_of_nonneg hnonneg, ← not_le, hbound]
    exact hlarge

/-- A number of the format has a significand with all bits or with the least unit. -/
theorem exists_full (hprecision : 0 < f.precision) (hrange : f.minExponent ≤ f.maxExponent)
    (hx : f.grid.Holds x) (hnonneg : 0 ≤ x) : ∃ m e, f.Full m e ∧ x = m * (2 : ℚ) ^ e := by
  obtain ⟨num, den, hden, rfl⟩ := exists_ratio hnonneg
  obtain ⟨m, e, hfull, hround, -⟩ := roundRatio_spec hprecision hrange num hden
  exact ⟨m, e, hfull, hx.roundsTo.unique hround⟩

theorem exists_roundsTo (hprecision : 0 < f.precision) (hrange : f.minExponent ≤ f.maxExponent)
    (hnonneg : 0 ≤ x) : ∃ y, f.grid.RoundsTo x y := by
  obtain ⟨num, den, hden, rfl⟩ := exists_ratio hnonneg
  obtain ⟨m, e, -, hround, -⟩ := roundRatio_spec hprecision hrange num hden
  exact ⟨_, hround⟩

/-- Half a unit around a number there is no other. -/
theorem Full.half_unit_le (hprecision : 0 < f.precision) (h : f.Full m e) {z : ℚ}
    (hz : f.grid.Holds z) (hne : z ≠ m * (2 : ℚ) ^ e) :
    (2 : ℚ) ^ e / 2 ≤ |m * (2 : ℚ) ^ e - z| := by
  have hunit : (0 : ℚ) < 2 ^ e := zpow_pos two_pos _
  have hhalf : (2 : ℚ) ^ (e - 1) = 2 ^ e / 2 := by rw [zpow_sub_one₀ two_ne_zero, div_eq_mul_inv]
  -- multiples of half a unit, which this number is too
  have hmultiple {k : ℤ} (hk : z = k * (2 : ℚ) ^ (e - 1)) :
      (2 : ℚ) ^ e / 2 ≤ |m * (2 : ℚ) ^ e - z| := by
    have hsub : m * (2 : ℚ) ^ e - z = ((2 * m - k : ℤ) : ℚ) * (2 ^ e / 2) := by
      rw [hk, hhalf]
      push_cast
      ring
    have hother : 2 * (m : ℤ) - k ≠ 0 := by
      intro hzero
      rw [hzero, Int.cast_zero, zero_mul, sub_eq_zero] at hsub
      exact hne hsub.symm
    have hone : (1 : ℚ) ≤ |((2 * m - k : ℤ) : ℚ)| := by exact_mod_cast Int.one_le_abs hother
    rw [hsub, abs_mul, abs_of_pos (half_pos hunit)]
    exact le_mul_of_one_le_left (half_pos hunit).le hone
  rcases eq_or_ne e f.minExponent with rfl | hleast
  · rcases hz.multiple_or_lt one_lt_two hprecision f.minExponent with ⟨k, hk⟩ | ⟨hbelow, -⟩
    · have hk' : z = k * (2 : ℚ) ^ f.minExponent := by exact_mod_cast hk
      have htwice : z = (k * 2 : ℤ) * (2 : ℚ) ^ (f.minExponent - 1) := by
        rw [hk', hhalf]
        push_cast
        ring
      exact hmultiple htwice
    · exact absurd rfl hbelow
  · rcases hz.multiple_or_lt one_lt_two hprecision (e - 1) with ⟨k, hk⟩ | ⟨-, hbelow⟩
    · exact hmultiple hk
    · have hm : (f.leastFull : ℚ) ≤ m := by exact_mod_cast h.2.2.resolve_right hleast
      have hone : (1 : ℚ) ≤ f.leastFull := by exact_mod_cast Nat.two_pow_pos (f.precision - 1)
      have hbelow' : z < f.leastFull * ((2 : ℚ) ^ e / 2) := by
        rw [← hhalf, leastFull, Nat.pow_eq]
        exact_mod_cast hbelow
      have hscaled := mul_le_mul_of_nonneg_right hm hunit.le
      have hscaledOne := mul_le_mul_of_nonneg_right hone hunit.le
      refine le_trans ?_ (le_abs_self _)
      linarith

end

/-- Digits so many that the decimal is off by less than an eighth of a unit give a number back, also
through a format that holds all numbers of the first. -/
theorem roundsTo_of_digits {count : ℕ} (hprecision : 0 < f.precision)
    (hrange : f.minExponent ≤ f.maxExponent) (hcount : 2 ^ (f.precision + 2) ≤ 10 ^ (count - 1))
    (hwide : ∀ z, f.grid.Holds z → g.grid.Holds z) (hv : f.grid.Holds v) (hpos : 0 < v)
    (herror : |v - d| * 10 ^ (count - 1) ≤ v / 2) (hx : g.grid.RoundsTo d x) :
    f.grid.RoundsTo x v := by
  obtain ⟨m, e, hfull, hvalue⟩ := exists_full hprecision hrange hv hpos.le
  have hunit : (0 : ℚ) < 2 ^ e := zpow_pos two_pos _
  have hbelow : v < 2 ^ f.precision * (2 : ℚ) ^ e := by
    rw [hvalue]
    exact mul_lt_mul_of_pos_right (by exact_mod_cast hfull.1) hunit
  have hcount' : (2 : ℚ) ^ f.precision * 4 ≤ 10 ^ (count - 1) := by
    rw [pow_add] at hcount
    exact_mod_cast hcount
  have hdecimal : |v - d| < (2 : ℚ) ^ e / 8 := by
    have hdigits := mul_le_mul_of_nonneg_left hcount' (abs_nonneg (v - d))
    have hpow : (0 : ℚ) < 2 ^ f.precision := by positivity
    have hscaled : |v - d| * 8 * 2 ^ f.precision < (2 : ℚ) ^ e * 2 ^ f.precision := by linarith
    have hcancel := lt_of_mul_lt_mul_right hscaled hpow.le
    linarith
  have hnear : |d - x| ≤ |v - d| := by
    rw [abs_sub_comm v d]
    exact hx.nearest v (hwide v hv)
  have hclose : |x - v| < (2 : ℚ) ^ e / 4 := by
    have htriangle := abs_sub_le x d v
    rw [abs_sub_comm x d, abs_sub_comm d v] at htriangle
    linarith
  refine .of_lt hv fun z hz hne => ?_
  have hfar := hfull.half_unit_le hprecision hz (by rwa [← hvalue])
  rw [← hvalue] at hfar
  have htriangle := abs_sub_le v x z
  rw [abs_sub_comm v x] at htriangle
  linarith

end BinaryFormat

theorem binary32_grid_subset {z : ℚ} (h : binary32.grid.Holds z) : binary64.grid.Holds z := by
  obtain ⟨m, e, hm, he, rfl⟩ := h
  have hpow : (2 : ℤ) ^ 24 ≤ 2 ^ 53 := by norm_num
  have hleast : (-1074 : ℤ) ≤ -149 := by norm_num
  exact ⟨m, e, lt_of_lt_of_le hm hpow, (WithBot.coe_le_coe.2 hleast).trans he, rfl⟩

/-- The decimal of so many significant digits next to a number gives it back when it is read to the
nearest number of double precision and this to the nearest one of single precision. -/
def GivesBack (count : ℕ) (v : ℚ) : Prop :=
  ∃ d x, (decimalGrid count).RoundsTo v d ∧ binary64.ReadsAs d x ∧ binary32.ReadsAs x v

variable {count : ℕ} {v : ℚ}

/-- There is one decimal to look at. -/
theorem givesBack_iff {d : ℚ} (hd : (decimalGrid count).RoundsTo v d) :
    GivesBack count v ↔ ∃ x, binary64.ReadsAs d x ∧ binary32.ReadsAs x v := by
  constructor
  · rintro ⟨d', x, hd', hx, hv⟩
    obtain rfl := hd'.unique hd
    exact ⟨x, hx, hv⟩
  · rintro ⟨x, hx, hv⟩
    exact ⟨d, x, hd, hx, hv⟩

theorem GivesBack.neg (h : GivesBack count v) : GivesBack count (-v) := by
  obtain ⟨d, x, hdecimal, hdouble, hsingle⟩ := h
  exact ⟨-d, -x, hdecimal.neg, hdouble.neg, hsingle.neg⟩

theorem givesBack_zero (count : ℕ) : GivesBack count 0 :=
  ⟨0, 0, (Grid.holds_zero (by decide : 0 < 10)).roundsTo, binary64.readsAs_zero,
    binary32.readsAs_zero⟩

/-- What is read from a decimal near a finite number of single precision is far below the bound of
double precision. -/
theorem lt_bound_of_digits {d x : ℚ} (hv : binary32.Finite v)
    (hd : (decimalGrid count).RoundsTo v d) (hx : binary64.grid.RoundsTo d x) :
    |x| < binary64.bound := by
  have hdouble := hx.abs_le_two_mul two_pos
  have hdecimal := hd.abs_le_two_mul (by decide : 0 < 10)
  have hfinite := hv.2
  have hbounds : 4 * binary32.bound ≤ binary64.bound := by
    have hsplit : (4 : ℚ) * binary32.bound = 2 ^ (130 : ℤ) := by
      change (4 : ℚ) * 2 ^ (128 : ℤ) = _
      norm_num
    rw [hsplit]
    change (2 : ℚ) ^ (130 : ℤ) ≤ 2 ^ (1024 : ℤ)
    exact zpow_le_zpow_right₀ one_le_two (by decide)
  linarith

theorem givesBack_nine_of_pos (hv : binary32.Finite v) (hpos : 0 < v) : GivesBack 9 v := by
  obtain ⟨num, den, hden, hratio⟩ := exists_ratio hpos.le
  have hnum : 0 < num := by
    refine Nat.pos_of_ne_zero fun hzero => ?_
    rw [hzero, Nat.cast_zero, zero_div] at hratio
    exact hpos.ne hratio
  have hnine : 0 < 9 := by decide
  obtain ⟨-, hdecimal, herror⟩ := Decimal.significant_spec hnine hnum hden
  rw [hratio] at hdecimal herror
  generalize hd : (Decimal.significant 9 num den).value = d at hdecimal herror
  have hdpos : 0 ≤ d := by
    rw [← hd, Decimal.value]
    positivity
  obtain ⟨x, hx⟩ := BinaryFormat.exists_roundsTo (f := binary64) (by decide) (by decide) hdpos
  refine ⟨d, x, hdecimal, ⟨hx, lt_bound_of_digits hv hdecimal hx⟩, ?_, hv.2⟩
  exact BinaryFormat.roundsTo_of_digits (by decide) (by decide) (by decide)
    (fun z => binary32_grid_subset) hv.1 hpos herror hx

/-- Nine significant digits give every number of single precision back. -/
theorem givesBack_nine (hv : binary32.Finite v) : GivesBack 9 v := by
  rcases lt_trichotomy v 0 with hneg | rfl | hpos
  · have h := (givesBack_nine_of_pos hv.neg (neg_pos.2 hneg)).neg
    rwa [neg_neg] at h
  · exact givesBack_zero 9
  · exact givesBack_nine_of_pos hv hpos

end JniHeader
