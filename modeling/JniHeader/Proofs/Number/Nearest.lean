import Mathlib.Algebra.Order.Field.Basic
import Mathlib.Algebra.Order.Group.Unbundled.Abs
import Mathlib.Algebra.Order.WithTop.Untop0
import Mathlib.Data.Int.ConditionallyCompleteOrder
import Mathlib.Data.Rat.Cast.Order
import Mathlib.Tactic.FieldSimp
import Mathlib.Tactic.Linarith
import Mathlib.Tactic.LinearCombination
import Mathlib.Tactic.NormNum
import Mathlib.Tactic.Positivity
import Mathlib.Tactic.Ring
import JniHeader.Number.Binary

/-!
# Rounding to the nearest number of a grid

A grid holds the numbers that a given count of digits can write, in a base and with a
unit that may be bounded below: the decimals of so many significant digits, or the
numbers of a binary format before its largest exponent is looked at. Rounding to a
grid is described here by what its result is, in exact rational arithmetic: no number
of the grid is nearer, and of two equally near it is the one whose last digit is even.
There is at most one such number.

The digits that the quotient of a scaled ratio is rounded to are the ones that are
described: with the unit chosen so that the quotient has all digits of the grid, or
with the least unit, a half going to the even neighbour.
-/
namespace JniHeader

/-- The numbers with at most `precision` digits in base `base`, the last of which counts at least
`base ^ least`. -/
structure Grid where
  base : ℕ
  precision : ℕ
  least : WithBot ℤ

namespace Grid

/-- The number is one of the grid. -/
def Holds (g : Grid) (x : ℚ) : Prop :=
  ∃ m e : ℤ, |m| < (g.base : ℤ) ^ g.precision ∧ g.least ≤ e ∧ x = m * (g.base : ℚ) ^ e

/-- No number of the grid is nearer to `x` than `y`. If another one is as near, then `y` is an even
multiple of the distance between the two, which is the unit of the last digit there. -/
structure RoundsTo (g : Grid) (x y : ℚ) : Prop where
  holds : g.Holds y
  nearest : ∀ z, g.Holds z → |x - y| ≤ |x - z|
  even : ∀ z, g.Holds z → z ≠ y → |x - z| = |x - y| → ∃ k : ℤ, y = 2 * k * (z - y)

variable {g : Grid} {x y z : ℚ}

theorem exists_least_le (g : Grid) : ∃ e : ℤ, g.least ≤ e := by
  cases hleast : g.least with
  | bot => exact ⟨0, bot_le⟩
  | coe e => exact ⟨e, le_rfl⟩

theorem holds_zero (hbase : 0 < g.base) : g.Holds 0 := by
  obtain ⟨e, he⟩ := g.exists_least_le
  refine ⟨0, e, ?_, he, by simp⟩
  rw [abs_zero]
  positivity

theorem Holds.neg (h : g.Holds x) : g.Holds (-x) := by
  obtain ⟨m, e, hm, he, rfl⟩ := h
  refine ⟨-m, e, ?_, he, ?_⟩
  · rwa [abs_neg]
  · push_cast
    ring

/-- A number of the grid rounds to itself. -/
theorem Holds.roundsTo (h : g.Holds x) : g.RoundsTo x x := by
  refine ⟨h, fun z _ => ?_, fun z _ hne hdist => ?_⟩
  · rw [sub_self, abs_zero]
    exact abs_nonneg _
  · rw [sub_self, abs_zero, abs_eq_zero, sub_eq_zero] at hdist
    exact absurd hdist.symm hne

namespace RoundsTo

/-- A half between two numbers cannot be an even multiple of their distance on both sides. -/
theorem unique (hy : g.RoundsTo x y) (hz : g.RoundsTo x z) : y = z := by
  by_contra hne
  have hdist : |x - y| = |x - z| := le_antisymm (hy.nearest z hz.holds) (hz.nearest y hy.holds)
  obtain ⟨k, hk⟩ := hy.even z hz.holds (Ne.symm hne) hdist.symm
  obtain ⟨l, hl⟩ := hz.even y hy.holds hne hdist
  have hsum : (2 * (k + l) + 1 : ℚ) * (z - y) = 0 := by linear_combination hl - hk
  have hodd : (2 * (k + l) + 1 : ℚ) ≠ 0 := by
    have : (2 * (k + l) + 1 : ℤ) ≠ 0 := by omega
    exact_mod_cast this
  have hzero := (mul_eq_zero.1 hsum).resolve_left hodd
  exact hne (sub_eq_zero.1 hzero).symm

theorem neg (h : g.RoundsTo x y) : g.RoundsTo (-x) (-y) := by
  have hflip (a b : ℚ) : |-a - b| = |a - -b| := by
    rw [← abs_neg]
    ring_nf
  refine ⟨h.holds.neg, fun z hz => ?_, fun z hz hne hdist => ?_⟩
  · rw [hflip, hflip, neg_neg]
    exact h.nearest (-z) hz.neg
  · rw [hflip, hflip, neg_neg] at hdist
    have hne' : -z ≠ y := fun h => hne (by rw [← h, neg_neg])
    obtain ⟨k, hk⟩ := h.even (-z) hz.neg hne' hdist
    exact ⟨k, by linear_combination -hk⟩

/-- A number to which only one number of the grid comes so near rounds to this one. -/
theorem of_lt (hy : g.Holds y) (h : ∀ z, g.Holds z → z ≠ y → |x - y| < |x - z|) :
    g.RoundsTo x y := by
  refine ⟨hy, fun z hz => ?_, fun z hz hne hdist => absurd hdist (h z hz hne).ne'⟩
  rcases eq_or_ne z y with rfl | hne
  · exact le_rfl
  · exact (h z hz hne).le

/-- Rounding at most doubles a number. -/
theorem abs_le_two_mul (hbase : 0 < g.base) (h : g.RoundsTo x y) : |y| ≤ 2 * |x| := by
  have hnear := h.nearest 0 (holds_zero hbase)
  rw [sub_zero, abs_sub_comm] at hnear
  have htriangle := abs_add_le (y - x) x
  rw [sub_add_cancel] at htriangle
  linarith

end RoundsTo

end Grid

/-! ### Quotients -/

section

variable {n d : ℕ}

theorem roundHalfEven_le (n d : ℕ) : roundHalfEven n d ≤ n / d + 1 := by
  unfold roundHalfEven
  dsimp only
  split_ifs <;> omega

theorem le_roundHalfEven (n d : ℕ) : n / d ≤ roundHalfEven n d := by
  unfold roundHalfEven
  dsimp only
  split_ifs <;> omega

/-- What a quotient leaves over is at most a half of the divisor, and a half only beside an even
number. -/
theorem exists_remainder (n : ℕ) (hd : 0 < d) :
    ∃ rest : ℤ, (n : ℤ) = roundHalfEven n d * d + rest ∧ 2 * |rest| ≤ d ∧
      (2 * |rest| = d → Even (roundHalfEven n d)) := by
  have hdivision := Nat.div_add_mod n d
  have hmod := Nat.mod_lt n hd
  unfold roundHalfEven
  dsimp only
  generalize n / d = q at hdivision ⊢
  generalize n % d = rest at hdivision hmod ⊢
  rw [← hdivision]
  split_ifs with hup
  · have habs : |(rest : ℤ) - d| = d - rest := by
      rw [abs_of_neg (by omega)]
      ring
    refine ⟨rest - d, by push_cast; ring, by omega, fun htie => ?_⟩
    rw [Nat.even_iff]
    omega
  · have habs : |(rest : ℤ)| = rest := abs_of_nonneg (by omega)
    refine ⟨rest, by push_cast; ring, by omega, fun htie => ?_⟩
    rw [Nat.even_iff]
    omega

/-- The quotient is off by at most a half, and by a half only from an even number. -/
theorem roundHalfEven_near (n : ℕ) (hd : 0 < d) :
    |(n / d : ℚ) - roundHalfEven n d| ≤ 1 / 2 ∧
      (|(n / d : ℚ) - roundHalfEven n d| = 1 / 2 → Even (roundHalfEven n d)) := by
  obtain ⟨rest, hn, hle, heven⟩ := exists_remainder n hd
  have hd' : (0 : ℚ) < d := by exact_mod_cast hd
  have hoff : |(n / d : ℚ) - roundHalfEven n d| = |(rest : ℚ)| / d := by
    have hcast : (n : ℚ) = roundHalfEven n d * d + rest := by exact_mod_cast hn
    have hquotient : (n / d : ℚ) - roundHalfEven n d = rest / d := by
      rw [hcast]
      field_simp
      ring
    rw [hquotient, abs_div, abs_of_pos hd']
  rw [hoff, div_le_div_iff₀ hd' two_pos, div_eq_div_iff hd'.ne' two_ne_zero]
  constructor
  · have hle' : 2 * |(rest : ℚ)| ≤ d := by exact_mod_cast hle
    linarith
  · intro htie
    have htie' : 2 * |(rest : ℚ)| = d := by linarith
    exact heven (by exact_mod_cast htie')

/-- No whole number is nearer to the quotient. Another one that is as near is a neighbour of an even
one. -/
theorem roundHalfEven_nearest (n : ℕ) (hd : 0 < d) (k : ℤ) :
    |(n / d : ℚ) - roundHalfEven n d| ≤ |(n / d : ℚ) - k| ∧
      (k ≠ roundHalfEven n d → |(n / d : ℚ) - k| = |(n / d : ℚ) - roundHalfEven n d| →
        Even (roundHalfEven n d) ∧ |k - (roundHalfEven n d : ℤ)| = 1) := by
  obtain ⟨hhalf, heven⟩ := roundHalfEven_near n hd
  generalize hq : (n / d : ℚ) = q at hhalf heven ⊢
  generalize roundHalfEven n d = r at hhalf heven ⊢
  have htriangle : |(k : ℚ) - r| ≤ |q - k| + |q - r| := by
    have h := abs_sub_le (k : ℚ) q r
    rwa [abs_sub_comm (k : ℚ) q] at h
  have hcast : ((|k - (r : ℤ)| : ℤ) : ℚ) = |(k : ℚ) - r| := by push_cast; rfl
  have hapart : k ≠ r → (1 : ℚ) ≤ |(k : ℚ) - r| := by
    intro hne
    rw [← hcast]
    exact_mod_cast Int.one_le_abs (sub_ne_zero.2 hne)
  constructor
  · rcases eq_or_ne k r with rfl | hne
    · exact le_of_eq (by push_cast; rfl)
    · have := hapart hne
      linarith
  · intro hne htie
    have hone := hapart hne
    refine ⟨heven (by linarith), ?_⟩
    have hle : |(k : ℚ) - r| ≤ 1 := by linarith
    rw [← hcast] at hle hone
    exact le_antisymm (by exact_mod_cast hle) (by exact_mod_cast hone)

end

/-! ### Digits -/

namespace Grid

variable {g : Grid}

theorem base_zpow_pos (hbase : 1 < g.base) (e : ℤ) : (0 : ℚ) < (g.base : ℚ) ^ e := by
  have hpos : (0 : ℚ) < g.base := by exact_mod_cast Nat.zero_lt_of_lt hbase
  exact zpow_pos hpos e

/-- A higher power of the base is a multiple of a lower one. -/
theorem exists_zpow_eq_mul (hbase : 1 < g.base) {e f : ℤ} (h : e ≤ f) :
    ∃ k : ℕ, (g.base : ℚ) ^ f = (g.base : ℚ) ^ k * (g.base : ℚ) ^ e := by
  have hne : (g.base : ℚ) ≠ 0 := by exact_mod_cast (Nat.zero_lt_of_lt hbase).ne'
  refine ⟨(f - e).toNat, ?_⟩
  rw [← zpow_natCast, ← zpow_add₀ hne, Int.toNat_of_nonneg (by omega), sub_add_cancel]

/-- The digits of a full significand, as a power of the base. -/
theorem pow_precision (hprecision : 0 < g.precision) (e : ℤ) (hbase : 1 < g.base) :
    (g.base : ℚ) ^ g.precision * (g.base : ℚ) ^ e =
      (g.base : ℚ) ^ (g.precision - 1) * (g.base : ℚ) ^ (e + 1) := by
  have hne : (g.base : ℚ) ≠ 0 := by exact_mod_cast (Nat.zero_lt_of_lt hbase).ne'
  have hsplit : (g.base : ℚ) ^ g.precision = (g.base : ℚ) ^ (g.precision - 1) * g.base := by
    rw [← pow_succ, Nat.sub_add_cancel hprecision]
  rw [hsplit, zpow_add_one₀ hne]
  ring

/-- A number of the grid is a multiple of a unit, or its own unit is smaller. In the second case it
is less than the least number that has all digits with the unit. -/
theorem Holds.multiple_or_lt (hbase : 1 < g.base) (hprecision : 0 < g.precision) (e : ℤ) {z : ℚ}
    (h : g.Holds z) :
    (∃ k : ℤ, z = k * (g.base : ℚ) ^ e) ∨
      (g.least ≠ e ∧ z < (g.base : ℚ) ^ (g.precision - 1) * (g.base : ℚ) ^ e) := by
  obtain ⟨m, f, hm, hf, rfl⟩ := h
  rcases le_or_gt e f with hle | hlt
  · obtain ⟨k, hk⟩ := exists_zpow_eq_mul hbase hle
    refine .inl ⟨m * g.base ^ k, ?_⟩
    rw [hk]
    push_cast
    ring
  · refine .inr ⟨fun hleast => ?_, ?_⟩
    · rw [hleast] at hf
      exact absurd (WithBot.coe_le_coe.1 hf) (not_le.2 hlt)
    · have hsmall : (m : ℚ) < (g.base : ℚ) ^ g.precision := by
        exact_mod_cast lt_of_le_of_lt (le_abs_self m) hm
      have hpow : (g.base : ℚ) ^ (f + 1) ≤ (g.base : ℚ) ^ e :=
        zpow_le_zpow_right₀ (by exact_mod_cast hbase.le) hlt
      calc (m : ℚ) * (g.base : ℚ) ^ f
          < (g.base : ℚ) ^ g.precision * (g.base : ℚ) ^ f :=
            mul_lt_mul_of_pos_right hsmall (base_zpow_pos hbase f)
        _ = (g.base : ℚ) ^ (g.precision - 1) * (g.base : ℚ) ^ (f + 1) :=
            pow_precision hprecision f hbase
        _ ≤ (g.base : ℚ) ^ (g.precision - 1) * (g.base : ℚ) ^ e :=
            mul_le_mul_of_nonneg_left hpow (by positivity)

/-- The quotient has no more digits than the grid. It has all of them, or its unit is the least. -/
structure Scaled (g : Grid) (n d : ℕ) (e : ℤ) : Prop where
  pos : 0 < d
  least_le : g.least ≤ e
  lt : n < g.base ^ g.precision * d
  full : g.base ^ (g.precision - 1) * d ≤ n ∨ g.least = e

namespace Scaled

variable {n d : ℕ} {e : ℤ}

theorem digits_le (h : g.Scaled n d e) : roundHalfEven n d ≤ g.base ^ g.precision := by
  have hquotient : n / d < g.base ^ g.precision := (Nat.div_lt_iff_lt_mul h.pos).2 h.lt
  have hround := roundHalfEven_le n d
  omega

theorem holds (hbase : 1 < g.base) (hprecision : 0 < g.precision) (h : g.Scaled n d e) :
    g.Holds (roundHalfEven n d * (g.base : ℚ) ^ e) := by
  rcases h.digits_le.lt_or_eq with hlt | heq
  · refine ⟨roundHalfEven n d, e, ?_, h.least_le, by push_cast; rfl⟩
    rw [abs_of_nonneg (by positivity)]
    exact_mod_cast hlt
  · -- the digits are carried over to one more, the last of which can go
    refine ⟨(g.base : ℤ) ^ (g.precision - 1), e + 1, ?_, ?_, ?_⟩
    · rw [abs_of_nonneg (by positivity)]
      exact_mod_cast Nat.pow_lt_pow_right hbase (by omega)
    · exact h.least_le.trans (WithBot.coe_le_coe.2 (by omega))
    · rw [heq]
      push_cast
      exact pow_precision hprecision e hbase

theorem roundsTo (hbase : 1 < g.base) (hprecision : 0 < g.precision) (h : g.Scaled n d e) :
    g.RoundsTo (n / d * (g.base : ℚ) ^ e) (roundHalfEven n d * (g.base : ℚ) ^ e) := by
  have hunit := base_zpow_pos hbase e
  have hdist (k : ℤ) : |(n / d * (g.base : ℚ) ^ e) - k * (g.base : ℚ) ^ e| =
      |(n / d : ℚ) - k| * (g.base : ℚ) ^ e := by
    rw [← sub_mul, abs_mul, abs_of_pos hunit]
  have hround : |(n / d * (g.base : ℚ) ^ e) - roundHalfEven n d * (g.base : ℚ) ^ e| =
      |(n / d : ℚ) - roundHalfEven n d| * (g.base : ℚ) ^ e := hdist (roundHalfEven n d)
  have hmultiple (k : ℤ) : |(n / d * (g.base : ℚ) ^ e) - roundHalfEven n d * (g.base : ℚ) ^ e| ≤
      |(n / d * (g.base : ℚ) ^ e) - k * (g.base : ℚ) ^ e| := by
    rw [hround, hdist]
    exact mul_le_mul_of_nonneg_right (roundHalfEven_nearest n h.pos k).1 hunit.le
  -- a number with a smaller unit lies beyond the least one with all digits, which is no nearer
  have hsmall {z : ℚ} (hleast : g.least ≠ e)
      (hz : z < (g.base : ℚ) ^ (g.precision - 1) * (g.base : ℚ) ^ e) :
      |(n / d * (g.base : ℚ) ^ e) - roundHalfEven n d * (g.base : ℚ) ^ e| <
        |(n / d * (g.base : ℚ) ^ e) - z| := by
    have hfull : (g.base : ℚ) ^ (g.precision - 1) ≤ n / d := by
      rw [le_div_iff₀ (by exact_mod_cast h.pos)]
      exact_mod_cast h.full.resolve_right hleast
    have hbound := hmultiple ((g.base : ℤ) ^ (g.precision - 1))
    push_cast at hbound
    have hscaled := mul_le_mul_of_nonneg_right hfull hunit.le
    rw [abs_of_nonneg (sub_nonneg.2 hscaled)] at hbound
    exact hbound.trans_lt ((sub_lt_sub_left hz _).trans_le (le_abs_self _))
  refine ⟨h.holds hbase hprecision, fun z hz => ?_, fun z hz hne htie => ?_⟩
  · rcases hz.multiple_or_lt hbase hprecision e with ⟨k, rfl⟩ | ⟨hleast, hlt⟩
    · exact hmultiple k
    · exact (hsmall hleast hlt).le
  · rcases hz.multiple_or_lt hbase hprecision e with ⟨k, rfl⟩ | ⟨hleast, hlt⟩
    · have hk : k ≠ roundHalfEven n d := fun hk => hne (by rw [hk]; push_cast; rfl)
      rw [hdist, hround, mul_left_inj' hunit.ne'] at htie
      obtain ⟨⟨half, hhalf⟩, hone⟩ := (roundHalfEven_nearest n h.pos k).2 hk htie
      have hdigits : (roundHalfEven n d : ℚ) = half + half := by exact_mod_cast hhalf
      rcases (abs_eq zero_le_one).1 hone with hup | hdown
      · have hk' : (k : ℚ) - roundHalfEven n d = 1 := by exact_mod_cast hup
        refine ⟨half, ?_⟩
        rw [← sub_mul, hk', hdigits]
        push_cast
        ring
      · have hk' : (k : ℚ) - roundHalfEven n d = -1 := by exact_mod_cast hdown
        refine ⟨-half, ?_⟩
        rw [← sub_mul, hk', hdigits]
        push_cast
        ring
    · exact absurd htie (hsmall hleast hlt).ne'

/-- Rounding to the grid moves a number by at most half a unit. -/
theorem error_le (hbase : 1 < g.base) (h : g.Scaled n d e) :
    |n / d * (g.base : ℚ) ^ e - roundHalfEven n d * (g.base : ℚ) ^ e| ≤ (g.base : ℚ) ^ e / 2 := by
  have hunit := base_zpow_pos hbase e
  rw [← sub_mul, abs_mul, abs_of_pos hunit]
  have hhalf := mul_le_mul_of_nonneg_right (roundHalfEven_near n h.pos).1 hunit.le
  linarith

end Scaled

end Grid

end JniHeader
