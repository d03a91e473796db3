import JniHeader.Number.Binary
import Mathlib.Tactic.Common

/-!
# Bit patterns of floating-point data

A bit pattern is a fraction, an exponent field and a sign bit, from the lowest
bits to the highest. The largest exponent field marks infinities and what is not
a number, the field zero marks subnormal numbers. Each pattern is decoded to the
datum that it is meant to be.
-/
namespace JniHeader.BinaryFormat

/-- A datum with the fields that its bit pattern is made of. -/
inductive Pattern (f : BinaryFormat) where
  | nan (negative : Bool) (fraction : ℕ) (pos : 0 < fraction) (lt : fraction < f.leastFull)
  | infinite (negative : Bool)
  | subnormal (negative : Bool) (fraction : ℕ) (lt : fraction < f.leastFull)
  | normal (negative : Bool) (exponent fraction : ℕ) (pos : 0 < exponent)
      (exponent_lt : exponent < f.exponentCodes - 1) (lt : fraction < f.leastFull)

theorem leastFull_pos (f : BinaryFormat) : 0 < f.leastFull := Nat.two_pow_pos _

theorem two_le_exponentCodes {f : BinaryFormat} (hf : 0 < f.exponentBits) :
    2 ≤ f.exponentCodes := by
  unfold exponentCodes
  exact Nat.pow_le_pow_right (by decide : 2 > 0) hf

/-- A sign bit in front of an exponent field in front of a fraction. -/
def joinFields (f : BinaryFormat) (negative : Bool) (exponent fraction : ℕ) : ℕ :=
  fraction + f.leastFull * (exponent + f.exponentCodes * negative.toNat)

section

variable {f : BinaryFormat} {negative : Bool} {exponent fraction : ℕ}

theorem joinFields_mod (hfraction : fraction < f.leastFull) :
    f.joinFields negative exponent fraction % f.leastFull = fraction := by
  rw [joinFields, Nat.add_mul_mod_self_left, Nat.mod_eq_of_lt hfraction]

theorem joinFields_div (hfraction : fraction < f.leastFull) :
    f.joinFields negative exponent fraction / f.leastFull =
      exponent + f.exponentCodes * negative.toNat := by
  rw [joinFields, Nat.add_mul_div_left _ _ f.leastFull_pos, Nat.div_eq_of_lt hfraction,
    Nat.zero_add]

theorem joinFields_exponent (hexponent : exponent < f.exponentCodes)
    (hfraction : fraction < f.leastFull) :
    f.joinFields negative exponent fraction / f.leastFull % f.exponentCodes = exponent := by
  rw [joinFields_div hfraction, Nat.add_mul_mod_self_left, Nat.mod_eq_of_lt hexponent]

theorem joinFields_sign (hexponent : exponent < f.exponentCodes)
    (hfraction : fraction < f.leastFull) :
    f.joinFields negative exponent fraction / (f.leastFull * f.exponentCodes) % 2 =
      negative.toNat := by
  have hcodes : 0 < f.exponentCodes := by omega
  rw [← Nat.div_div_eq_div_mul, joinFields_div hfraction, Nat.add_mul_div_left _ _ hcodes,
    Nat.div_eq_of_lt hexponent, Nat.zero_add]
  cases negative <;> rfl

theorem decode_joinFields (hexponent : exponent < f.exponentCodes)
    (hfraction : fraction < f.leastFull) :
    f.decode (f.joinFields negative exponent fraction) =
      if exponent = f.exponentCodes - 1 then
        if fraction = 0 then .infinite negative else .nan
      else if exponent = 0 then .finite negative fraction f.minExponent
      else .finite negative (f.leastFull + fraction) (f.minExponent + (exponent - 1 : ℕ)) := by
  have hnegative : decide (negative.toNat = 1) = negative := by cases negative <;> rfl
  rw [decode, joinFields_mod hfraction, joinFields_exponent hexponent hfraction,
    joinFields_sign hexponent hfraction, hnegative]

theorem joinFields_lt (hexponent : exponent < f.exponentCodes)
    (hfraction : fraction < f.leastFull) :
    f.joinFields negative exponent fraction < f.leastFull * (2 * f.exponentCodes) := by
  have hsign : negative.toNat ≤ 1 := Bool.toNat_le negative
  have hcodes : f.exponentCodes * negative.toNat ≤ f.exponentCodes * 1 :=
    Nat.mul_le_mul_left _ hsign
  have hfields : exponent + f.exponentCodes * negative.toNat + 1 ≤ 2 * f.exponentCodes := by omega
  have hscaled := Nat.mul_le_mul_left f.leastFull hfields
  rw [Nat.mul_add, Nat.mul_one] at hscaled
  unfold joinFields
  omega

end

namespace Pattern

variable {f : BinaryFormat}

def datum : f.Pattern → FloatDatum
  | .nan .. => .nan
  | .infinite negative => .infinite negative
  | .subnormal negative fraction _ => .finite negative fraction f.minExponent
  | .normal negative exponent fraction _ _ _ =>
    .finite negative (f.leastFull + fraction) (f.minExponent + (exponent - 1 : ℕ))

def bits : f.Pattern → ℕ
  | .nan negative fraction _ _ => f.joinFields negative (f.exponentCodes - 1) fraction
  | .infinite negative => f.joinFields negative (f.exponentCodes - 1) 0
  | .subnormal negative fraction _ => f.joinFields negative 0 fraction
  | .normal negative exponent fraction _ _ _ => f.joinFields negative exponent fraction

theorem bits_lt (hf : 0 < f.exponentBits) (p : f.Pattern) :
    p.bits < f.leastFull * (2 * f.exponentCodes) := by
  have hcodes := two_le_exponentCodes hf
  cases p with
  | nan negative fraction pos lt => exact joinFields_lt (by omega) lt
  | infinite negative => exact joinFields_lt (by omega) f.leastFull_pos
  | subnormal negative fraction lt => exact joinFields_lt (by omega) lt
  | normal negative exponent fraction pos exponent_lt lt => exact joinFields_lt (by omega) lt

/-- A pattern is decoded to its datum. -/
theorem decode_bits (hf : 0 < f.exponentBits) (p : f.Pattern) : f.decode p.bits = p.datum := by
  have hcodes := two_le_exponentCodes hf
  cases p with
  | nan negative fraction pos lt =>
      rw [bits, decode_joinFields (by omega) lt, if_pos rfl, if_neg (by omega), datum]
  | infinite negative =>
      rw [bits, decode_joinFields (by omega) f.leastFull_pos, if_pos rfl, if_pos rfl, datum]
  | subnormal negative fraction lt =>
      rw [bits, decode_joinFields (by omega) lt, if_neg (by omega), if_pos rfl, datum]
  | normal negative exponent fraction pos exponent_lt lt =>
      rw [bits, decode_joinFields (by omega) lt, if_neg (by omega), if_neg (by omega), datum]

end Pattern

end JniHeader.BinaryFormat
