import JniHeader.Number.Decimal
import JniHeader.Proofs.Number.Nearest
import Mathlib.Data.Nat.Cast.Order.Field

/-!
# Computed roundings

The nearest number of a binary format, and the decimal of so many significant digits,
are found by scaling a ratio so that its quotient has the digits of the grid and then
rounding the quotient. The scale comes from the lengths of numerator and denominator,
in bits or in decimal digits, and is put right by one where these leave two choices.
-/
namespace JniHeader

theorem scaleRatio_div {base : ℕ} (hbase : 0 < base) (num den : ℕ) (e : ℤ) :
    ((scaleRatio base num den e).1 : ℚ) / (scaleRatio base num den e).2 =
      num / den * (base : ℚ) ^ e := by
  have hne : (base : ℚ) ≠ 0 := by exact_mod_cast hbase.ne'
  cases e with
  | ofNat e =>
      simp only [scaleRatio, Nat.pow_eq, Int.ofNat_eq_natCast, zpow_natCast]
      push_cast
      ring
  | negSucc e =>
      simp only [scaleRatio, Nat.pow_eq, zpow_negSucc]
      push_cast
      rw [← div_eq_mul_inv, div_div]

theorem scaleRatio_pos {base : ℕ} (hbase : 0 < base) (num : ℕ) {den : ℕ} (hden : 0 < den) (e : ℤ) :
    0 < (scaleRatio base num den e).2 := by
  cases e with
  | ofNat e => exact hden
  | negSucc e => exact Nat.mul_pos hden (Nat.pow_pos hbase)

/-- The ratio of two numbers is known up to a factor of two on either side from their bits. -/
theorem log2_ratio {num den : ℕ} (hnum : num ≠ 0) (hden : den ≠ 0) :
    (2 : ℚ) ^ ((num.log2 : ℤ) - den.log2 - 1) ≤ num / den ∧
      (num / den : ℚ) < (2 : ℚ) ^ ((num.log2 : ℤ) - den.log2 + 1) := by
  have hden' : (0 : ℚ) < den := by exact_mod_cast Nat.pos_of_ne_zero hden
  have hnumLow : (2 : ℚ) ^ (num.log2 : ℤ) ≤ num := by
    rw [zpow_natCast]
    exact_mod_cast Nat.log2_self_le hnum
  have hnumHigh : (num : ℚ) < (2 : ℚ) ^ ((num.log2 : ℤ) + 1) := by
    have h : (num : ℚ) < (2 : ℚ) ^ (num.log2 + 1) := by exact_mod_cast Nat.lt_log2_self
    exact_mod_cast h
  have hdenLow : (2 : ℚ) ^ (den.log2 : ℤ) ≤ den := by
    rw [zpow_natCast]
    exact_mod_cast Nat.log2_self_le hden
  have hdenHigh : (den : ℚ) < (2 : ℚ) ^ ((den.log2 : ℤ) + 1) := by
    have h : (den : ℚ) < (2 : ℚ) ^ (den.log2 + 1) := by exact_mod_cast Nat.lt_log2_self
    exact_mod_cast h
  constructor
  · rw [le_div_iff₀ hden']
    calc (2 : ℚ) ^ ((num.log2 : ℤ) - den.log2 - 1) * den
        ≤ (2 : ℚ) ^ ((num.log2 : ℤ) - den.log2 - 1) * (2 : ℚ) ^ ((den.log2 : ℤ) + 1) :=
          mul_le_mul_of_nonneg_left hdenHigh.le (zpow_pos two_pos _).le
      _ = (2 : ℚ) ^ (num.log2 : ℤ) := by
          rw [← zpow_add₀ two_ne_zero]
          congr 1
          ring
      _ ≤ num := hnumLow
  · rw [div_lt_iff₀ hden']
    calc (num : ℚ) < (2 : ℚ) ^ ((num.log2 : ℤ) + 1) := hnumHigh
      _ = (2 : ℚ) ^ ((num.log2 : ℤ) - den.log2 + 1) * (2 : ℚ) ^ (den.log2 : ℤ) := by
          rw [← zpow_add₀ two_ne_zero]
          congr 1
          ring
      _ ≤ (2 : ℚ) ^ ((num.log2 : ℤ) - den.log2 + 1) * den :=
          mul_le_mul_of_nonneg_left hdenLow (zpow_pos two_pos _).le

namespace BinaryFormat

/-- The numbers of a format, its largest exponent aside. -/
def grid (f : BinaryFormat) : Grid := ⟨2, f.precision, f.minExponent⟩

/-- A significand with all its bits, or with the least unit. -/
def Full (f : BinaryFormat) (m : ℕ) (e : ℤ) : Prop :=
  m < 2 ^ f.precision ∧ f.minExponent ≤ e ∧ (f.leastFull ≤ m ∨ e = f.minExponent)

variable {f : BinaryFormat}

theorem two_mul_leastFull (hprecision : 0 < f.precision) : 2 * f.leastFull = 2 ^ f.precision := by
  rw [leastFull, Nat.pow_eq, ← pow_succ', Nat.sub_add_cancel hprecision]

section

variable {num den n d : ℕ} {e : ℤ}

/-- With a unit that the bits of numerator and denominator suggest, the quotient has at most one bit
too many; and not too few, unless the unit is greater. -/
theorem quotient_bounds (hprecision : 0 < f.precision) (hnum : num ≠ 0) (hden : den ≠ 0)
    (hquotient : (n / d : ℚ) = num / den * (2 : ℚ) ^ (-e))
    (he : (num.log2 : ℤ) - den.log2 - f.precision ≤ e) :
    (n / d : ℚ) < (2 : ℚ) ^ (f.precision + 1) ∧
      (e = (num.log2 : ℤ) - den.log2 - f.precision → (2 : ℚ) ^ (f.precision - 1) ≤ n / d) := by
  obtain ⟨hlow, hhigh⟩ := log2_ratio hnum hden
  have hunit : (0 : ℚ) < (2 : ℚ) ^ (-e) := zpow_pos two_pos _
  rw [hquotient]
  constructor
  · calc (num / den : ℚ) * (2 : ℚ) ^ (-e)
        < (2 : ℚ) ^ ((num.log2 : ℤ) - den.log2 + 1) * (2 : ℚ) ^ (-e) :=
          mul_lt_mul_of_pos_right hhigh hunit
      _ = (2 : ℚ) ^ ((num.log2 : ℤ) - den.log2 + 1 - e) := by
          rw [← zpow_add₀ two_ne_zero, ← sub_eq_add_neg]
      _ ≤ (2 : ℚ) ^ ((f.precision + 1 : ℕ) : ℤ) :=
          zpow_le_zpow_right₀ one_le_two (by push_cast; omega)
      _ = (2 : ℚ) ^ (f.precision + 1) := zpow_natCast _ _
  · intro hexact
    calc (2 : ℚ) ^ (f.precision - 1)
        = (2 : ℚ) ^ ((f.precision - 1 : ℕ) : ℤ) := (zpow_natCast _ _).symm
      _ = (2 : ℚ) ^ ((num.log2 : ℤ) - den.log2 - 1) * (2 : ℚ) ^ (-e) := by
          rw [← zpow_add₀ two_ne_zero]
          congr 1
          omega
      _ ≤ num / den * (2 : ℚ) ^ (-e) := mul_le_mul_of_nonneg_right hlow hunit.le

/-- The suggested unit is the one of the grid, or half of it if the quotient has a bit too many. -/
theorem scaled_of_log2 (hprecision : 0 < f.precision) (hnum : num ≠ 0) (hden : den ≠ 0)
    (hd : 0 < d) (hquotient : (n / d : ℚ) = num / den * (2 : ℚ) ^ (-e))
    (he : e = max f.minExponent ((num.log2 : ℤ) - den.log2 - f.precision)) :
    (2 * f.leastFull ≤ n / d → f.grid.Scaled n (2 * d) (e + 1)) ∧
      (¬ 2 * f.leastFull ≤ n / d → f.grid.Scaled n d e) := by
  have hd' : (0 : ℚ) < d := by exact_mod_cast hd
  have hleast : f.grid.least ≤ e := WithBot.coe_le_coe.2 (by omega)
  have hpow := two_mul_leastFull hprecision
  obtain ⟨hlt, hge⟩ := quotient_bounds hprecision hnum hden hquotient (by omega)
  constructor
  · intro hfull
    refine ⟨by omega, hleast.trans (WithBot.coe_le_coe.2 (by omega)), ?_, .inl ?_⟩
    · rw [div_lt_iff₀ hd'] at hlt
      have hlt' : n < 2 ^ (f.precision + 1) * d := by exact_mod_cast hlt
      rw [pow_succ, mul_assoc] at hlt'
      exact hlt'
    · change f.leastFull * (2 * d) ≤ n
      rw [Nat.le_div_iff_mul_le hd] at hfull
      linarith
  · intro hfew
    rw [hpow, Nat.le_div_iff_mul_le hd, not_le] at hfew
    refine ⟨hd, hleast, hfew, ?_⟩
    rcases le_total f.minExponent ((num.log2 : ℤ) - den.log2 - f.precision) with hle | hle
    · have hge' := hge (he.trans (max_eq_right hle))
      rw [le_div_iff₀ hd'] at hge'
      exact .inl (by exact_mod_cast hge')
    · exact .inr (congrArg _ (he.trans (max_eq_left hle)).symm)

end

/-- The significand and the unit after a carry. -/
def carried (f : BinaryFormat) (m : ℕ) (e : ℤ) : ℕ × ℤ :=
  if m = 2 * f.leastFull then (f.leastFull, e + 1) else (m, e)

theorem carried_value (m : ℕ) (e : ℤ) :
    ((f.carried m e).1 : ℚ) * (2 : ℚ) ^ (f.carried m e).2 = m * (2 : ℚ) ^ e := by
  unfold carried
  split_ifs with hcarry
  · rw [hcarry, zpow_add_one₀ two_ne_zero]
    push_cast
    ring
  · rfl

theorem carried_full (hprecision : 0 < f.precision) {n d : ℕ} {e : ℤ}
    (h : f.grid.Scaled n d e) :
    f.Full (f.carried (roundHalfEven n d) e).1 (f.carried (roundHalfEven n d) e).2 := by
  have hpow := two_mul_leastFull hprecision
  have hpos : 0 < f.leastFull := Nat.two_pow_pos _
  have hleast : f.minExponent ≤ e := WithBot.coe_le_coe.1 h.least_le
  have hdigits : roundHalfEven n d ≤ 2 ^ f.precision := h.digits_le
  unfold carried
  split_ifs with hcarry
  · exact ⟨by omega, by omega, .inl le_rfl⟩
  · refine ⟨by omega, hleast, h.full.imp (fun hfull => ?_) fun heq => ?_⟩
    · have hquotient : f.leastFull ≤ n / d := (Nat.le_div_iff_mul_le h.pos).2 hfull
      exact hquotient.trans (le_roundHalfEven n d)
    · exact (WithBot.coe_inj.1 heq).symm

/-- A number beyond the largest exponent is none of the format. -/
def inRange? (f : BinaryFormat) (p : ℕ × ℤ) : Option (ℕ × ℤ) :=
  if f.maxExponent < p.2 then none else some p

theorem roundRatio_of_scaleRatio {num den n d : ℕ} {e : ℤ} (hnum : num ≠ 0)
    (he : e = max f.minExponent ((num.log2 : ℤ) - den.log2 - f.precision))
    (hscale : scaleRatio 2 num den (-e) = (n, d)) :
    f.roundRatio num den =
      if 2 * f.leastFull ≤ n / d then f.inRange? (f.carried (roundHalfEven n (2 * d)) (e + 1))
      else f.inRange? (f.carried (roundHalfEven n d) e) := by
  rw [roundRatio, if_neg hnum, ← he]
  by_cases hfull : 2 * f.leastFull ≤ n / d
  · simp only [hscale, if_pos hfull]
    rfl
  · simp only [hscale, if_neg hfull]
    rfl

theorem Scaled.roundsTo_carried (hprecision : 0 < f.precision) {x : ℚ} {n d : ℕ} {e : ℤ}
    (h : f.grid.Scaled n d e) (hvalue : (n / d : ℚ) * (2 : ℚ) ^ e = x) :
    ∃ m e', f.Full m e' ∧ f.grid.RoundsTo x (m * (2 : ℚ) ^ e') ∧
      f.inRange? (f.carried (roundHalfEven n d) e) =
        if f.maxExponent < e' then none else some (m, e') := by
  refine ⟨_, _, carried_full hprecision h, ?_, rfl⟩
  rw [carried_value, ← hvalue]
  exact_mod_cast h.roundsTo one_lt_two hprecision

/-- A ratio is rounded to the nearest number of the format, unless this is beyond the largest
exponent. -/
theorem roundRatio_spec (hprecision : 0 < f.precision) (hrange : f.minExponent ≤ f.maxExponent)
    (num : ℕ) {den : ℕ} (hden : 0 < den) :
    ∃ m e, f.Full m e ∧ f.grid.RoundsTo (num / den) (m * (2 : ℚ) ^ e) ∧
      f.roundRatio num den = if f.maxExponent < e then none else some (m, e) := by
  rcases eq_or_ne num 0 with rfl | hnum
  · refine ⟨0, f.minExponent, ⟨by positivity, le_rfl, .inr rfl⟩, ?_, ?_⟩
    · simp only [Nat.cast_zero, zero_div, zero_mul]
      exact (Grid.holds_zero two_pos).roundsTo
    · rw [roundRatio, if_pos rfl, if_neg (not_lt.2 hrange)]
  · obtain ⟨e, he⟩ : ∃ e, e = max f.minExponent ((num.log2 : ℤ) - den.log2 - f.precision) :=
      ⟨_, rfl⟩
    rcases hscale : scaleRatio 2 num den (-e) with ⟨n, d⟩
    have hd := scaleRatio_pos two_pos num hden (-e)
    have hquotient := scaleRatio_div two_pos num den (-e)
    simp only [hscale, Nat.cast_ofNat] at hd hquotient
    have hvalue : (n / d : ℚ) * (2 : ℚ) ^ e = num / den := by
      rw [hquotient, mul_assoc, ← zpow_add₀ two_ne_zero, neg_add_cancel, zpow_zero, mul_one]
    obtain ⟨hdouble, hsingle⟩ := scaled_of_log2 hprecision hnum hden.ne' hd hquotient he
    rw [roundRatio_of_scaleRatio hnum he hscale]
    split_ifs with hfull
    · refine Scaled.roundsTo_carried hprecision (hdouble hfull) ?_
      rw [← hvalue, zpow_add_one₀ two_ne_zero]
      push_cast
      have hd' : (d : ℚ) ≠ 0 := by exact_mod_cast hd.ne'
      field_simp
    · exact Scaled.roundsTo_carried hprecision (hsingle hfull) hvalue

end BinaryFormat

/-! ### Decimals -/

/-- The numbers of so many significant decimal digits. -/
def decimalGrid (count : ℕ) : Grid := ⟨10, count, ⊥⟩

theorem lt_pow_digitCount (n : ℕ) : n < 10 ^ digitCount n :=
  (Nat.length_toDigits_le_iff (by decide) Nat.length_toDigits_pos).1 le_rfl

theorem pow_digitCount_le {n : ℕ} (hn : 0 < n) : 10 ^ (digitCount n - 1) ≤ n := by
  rcases Nat.eq_zero_or_pos (digitCount n - 1) with hone | hmore
  · rw [hone]
    exact hn
  · rw [← not_lt, ← Nat.length_toDigits_le_iff (by decide) hmore]
    change ¬ digitCount n ≤ digitCount n - 1
    omega

theorem digitCount_pos (n : ℕ) : 0 < digitCount n := Nat.length_toDigits_pos

/-- The first significant digit of a ratio stands for this power of ten. -/
theorem leadingPower_spec {num den : ℕ} (hnum : 0 < num) (hden : 0 < den) :
    (10 : ℚ) ^ leadingPower num den ≤ num / den ∧
      (num / den : ℚ) < (10 : ℚ) ^ (leadingPower num den + 1) := by
  have hnum' : (0 : ℚ) < num := by exact_mod_cast hnum
  have hden' : (0 : ℚ) < den := by exact_mod_cast hden
  unfold leadingPower
  split_ifs with hle
  · have hpos : 0 < num / den := Nat.div_pos hle hden
    have hcount := digitCount_pos (num / den)
    have hlow := (Nat.le_div_iff_mul_le hden).1 (pow_digitCount_le hpos)
    have hhigh := (Nat.div_lt_iff_lt_mul hden).1 (lt_pow_digitCount (num / den))
    have hpower : ((digitCount (num / den) : ℤ) - 1) = ((digitCount (num / den) - 1 : ℕ) : ℤ) := by
      omega
    rw [sub_add_cancel, hpower, zpow_natCast, zpow_natCast, le_div_iff₀ hden', div_lt_iff₀ hden']
    exact ⟨by exact_mod_cast hlow, by exact_mod_cast hhigh⟩
  · -- the quotient the other way round, rounded up, less one
    obtain ⟨c, hc⟩ : ∃ c, c = (den + num - 1) / num - 1 := ⟨_, rfl⟩
    have hdivision := Nat.div_add_mod (den + num - 1) num
    have hmod := Nat.mod_lt (den + num - 1) hnum
    have hup : 2 ≤ (den + num - 1) / num := (Nat.le_div_iff_mul_le hnum).2 (by omega)
    have hproduct : num * ((den + num - 1) / num) = num * c + num := by
      rw [← Nat.mul_succ, hc, Nat.succ_eq_add_one, Nat.sub_add_cancel (by omega)]
    have hcount := digitCount_pos c
    have hlow : num * 10 ^ (digitCount c - 1) < den :=
      (Nat.mul_le_mul_left num (pow_digitCount_le (by omega))).trans_lt (by omega)
    have hhigh : den ≤ num * 10 ^ digitCount c := by
      have h := Nat.mul_le_mul_left num (lt_pow_digitCount c)
      rw [Nat.mul_succ] at h
      omega
    have hpower : -(digitCount c : ℤ) + 1 = -((digitCount c - 1 : ℕ) : ℤ) := by omega
    rw [← hc, hpower, zpow_neg, zpow_neg, zpow_natCast, zpow_natCast, le_div_iff₀ hden',
      div_lt_iff₀ hden', inv_mul_le_iff₀ (by positivity), lt_inv_mul_iff₀ (by positivity),
      mul_comm _ (num : ℚ), mul_comm _ (num : ℚ)]
    exact ⟨by exact_mod_cast hhigh, by exact_mod_cast hlow⟩

namespace Decimal

def value (d : Decimal) : ℚ := d.digits * (10 : ℚ) ^ d.exponent

theorem ratio_pos (d : Decimal) : 0 < d.ratio.2 := scaleRatio_pos (by decide) _ one_pos _

theorem ratio_div (d : Decimal) : (d.ratio.1 : ℚ) / d.ratio.2 = d.value := by
  have h := scaleRatio_div (by decide : 0 < 10) d.digits 1 d.exponent
  rw [Nat.cast_one, div_one] at h
  exact_mod_cast h

/-- All the digits are there, and no more. -/
def Full (count : ℕ) (d : Decimal) : Prop := 10 ^ (count - 1) ≤ d.digits ∧ d.digits < 10 ^ count

theorem carry_spec {count r : ℕ} (hcount : 0 < count) (e : ℤ) (hlow : 10 ^ (count - 1) ≤ r)
    (hhigh : r ≤ 10 ^ count) :
    (carry count ⟨r, e⟩).Full count ∧ (carry count ⟨r, e⟩).value = r * (10 : ℚ) ^ e := by
  have hpow : 10 ^ count = 10 ^ (count - 1) * 10 := by
    rw [← pow_succ, Nat.sub_add_cancel hcount]
  have hpos : 0 < 10 ^ (count - 1) := by positivity
  simp only [carry, Nat.pow_eq]
  split_ifs with hcarry
  · have hdigits : r / 10 = 10 ^ (count - 1) := by omega
    rw [hdigits]
    refine ⟨⟨le_rfl, Nat.pow_lt_pow_right (by decide) (by omega)⟩, ?_⟩
    simp only [value]
    rw [hcarry, hpow, zpow_add_one₀ (by norm_num)]
    push_cast
    ring
  · exact ⟨⟨hlow, lt_of_le_of_ne hhigh hcarry⟩, rfl⟩

/-- With the unit that its first digit asks for, a quotient has all digits. -/
theorem scaled_of_leadingPower {count num den n d : ℕ} {e : ℤ} (hcount : 0 < count)
    (hnum : 0 < num) (hden : 0 < den) (hd : 0 < d)
    (hvalue : (num / den : ℚ) = n / d * (10 : ℚ) ^ e)
    (he : leadingPower num den = e + (count - 1 : ℕ)) : (decimalGrid count).Scaled n d e := by
  obtain ⟨hlow, hhigh⟩ := leadingPower_spec hnum hden
  have hd' : (0 : ℚ) < d := by exact_mod_cast hd
  have hunit : (0 : ℚ) < (10 : ℚ) ^ e := zpow_pos (by norm_num) _
  have hpower (k : ℕ) : (10 : ℚ) ^ (e + k) = 10 ^ k * (10 : ℚ) ^ e := by
    rw [zpow_add₀ (by norm_num), zpow_natCast, mul_comm]
  have hnext : leadingPower num den + 1 = e + count := by omega
  rw [he, hpower, hvalue, mul_le_mul_iff_left₀ hunit, le_div_iff₀ hd'] at hlow
  rw [hnext, hpower, hvalue, mul_lt_mul_iff_left₀ hunit, div_lt_iff₀ hd'] at hhigh
  exact ⟨hd, bot_le, by exact_mod_cast hhigh, .inl (by exact_mod_cast hlow)⟩

/-- A ratio is rounded to so many digits, and off by at most half of the last of them. -/
theorem significant_spec {count num den : ℕ} (hcount : 0 < count) (hnum : 0 < num)
    (hden : 0 < den) :
    (significant count num den).Full count ∧
      (decimalGrid count).RoundsTo (num / den) (significant count num den).value ∧
      |(num / den : ℚ) - (significant count num den).value| * 10 ^ (count - 1) ≤
        num / den / 2 := by
  obtain ⟨e, he⟩ : ∃ e, e = leadingPower num den - (count - 1 : ℕ) := ⟨_, rfl⟩
  rcases hscale : scaleRatio 10 num den (-e) with ⟨n, d⟩
  have hd := scaleRatio_pos (by decide : 0 < 10) num hden (-e)
  have hquotient := scaleRatio_div (by decide : 0 < 10) num den (-e)
  simp only [hscale, Nat.cast_ofNat] at hd hquotient
  have hvalue : (num / den : ℚ) = n / d * (10 : ℚ) ^ e := by
    rw [hquotient, mul_assoc, ← zpow_add₀ (by norm_num), neg_add_cancel, zpow_zero, mul_one]
  have hscaled := scaled_of_leadingPower hcount hnum hden hd hvalue (by omega)
  have hbase : 1 < (decimalGrid count).base := by
    change 1 < 10
    decide
  have hmany : 10 ^ (count - 1) ≤ n / d :=
    (Nat.le_div_iff_mul_le hd).2 (hscaled.full.resolve_right (WithBot.bot_ne_coe))
  obtain ⟨hfull, hcarried⟩ :=
    carry_spec hcount e (hmany.trans (le_roundHalfEven n d)) hscaled.digits_le
  have hsignificant : significant count num den = carry count ⟨roundHalfEven n d, e⟩ := by
    simp only [significant, ← he, hscale]
  rw [hsignificant, hcarried, hvalue]
  refine ⟨hfull, ?_, ?_⟩
  · exact_mod_cast hscaled.roundsTo hbase hcount
  · have herror : |n / d * (10 : ℚ) ^ e - roundHalfEven n d * (10 : ℚ) ^ e| ≤ (10 : ℚ) ^ e / 2 := by
      exact_mod_cast hscaled.error_le hbase
    have hge : (10 : ℚ) ^ (count - 1) * (10 : ℚ) ^ e ≤ n / d * (10 : ℚ) ^ e := by
      have hcast : ((10 ^ (count - 1) : ℕ) : ℚ) ≤ n / d :=
        (Nat.cast_le.2 hmany).trans Nat.cast_div_le
      push_cast at hcast
      exact mul_le_mul_of_nonneg_right hcast (zpow_pos (by norm_num) _).le
    have hscaledError :=
      mul_le_mul_of_nonneg_right herror (by positivity : (0 : ℚ) ≤ 10 ^ (count - 1))
    linarith

end Decimal

end JniHeader
