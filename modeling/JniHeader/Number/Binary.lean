/-!
# Binary floating-point data

A datum is a number `± significand · 2 ^ exponent`, an infinity, or not a
number. A format fixes how many bits a significand may have and how small and
how large its unit may be; rounding to a format goes to the nearest number it
holds, and to the even one of two equally near.
-/
namespace JniHeader

inductive FloatDatum where
  | nan
  | infinite (negative : Bool)
  | finite (negative : Bool) (significand : Nat) (exponent : Int)
deriving DecidableEq, Repr

/-- The quotient rounded to a whole number, a half going to the even neighbour. -/
def roundHalfEven (num den : Nat) : Nat :=
  let q := num / den
  let r := num % den
  if den < 2 * r ∨ (den = 2 * r ∧ q % 2 = 1) then q + 1 else q

/-- Numerator and denominator of `num / den · base ^ exponent`. -/
def scaleRatio (base num den : Nat) : Int → Nat × Nat
  | .ofNat e => (num * Nat.pow base e, den)
  | .negSucc e => (num, den * Nat.pow base (e + 1))

/-- Bits of a significand, bits of an exponent field, and the range of unit exponents. -/
structure BinaryFormat where
  precision : Nat
  exponentBits : Nat
  minExponent : Int
  maxExponent : Int

def binary32 : BinaryFormat := ⟨24, 8, -149, 104⟩

def binary64 : BinaryFormat := ⟨53, 11, -1074, 971⟩

namespace BinaryFormat

/-- The least significand that uses all bits. -/
def leastFull (f : BinaryFormat) : Nat := Nat.pow 2 (f.precision - 1)

/-- How many values an exponent field has. -/
def exponentCodes (f : BinaryFormat) : Nat := Nat.pow 2 f.exponentBits

/-- The number of the format nearest to `num / den`, as significand and unit exponent; none when
it lies beyond the largest. -/
def roundRatio (f : BinaryFormat) (num den : Nat) : Option (Nat × Int) :=
  if num = 0 then some (0, f.minExponent)
  else
    let e := max f.minExponent ((num.log2 : Int) - den.log2 - f.precision)
    let (n, d) := scaleRatio 2 num den (-e)
    let (d, e) := if 2 * f.leastFull ≤ n / d then (2 * d, e + 1) else (d, e)
    let m := roundHalfEven n d
    let (m, e) := if m = 2 * f.leastFull then (f.leastFull, e + 1) else (m, e)
    if f.maxExponent < e then none else some (m, e)

/-- The nearest datum of the format; a number beyond the largest has none. -/
def round? (f : BinaryFormat) : FloatDatum → Option FloatDatum
  | .nan => some .nan
  | .infinite negative => some (.infinite negative)
  | .finite negative m e =>
    let (n, d) := scaleRatio 2 m 1 e
    (f.roundRatio n d).map fun (m, e) => .finite negative m e

/-- The datum that a bit pattern stands for. -/
def decode (f : BinaryFormat) (bits : Nat) : FloatDatum :=
  let fraction := bits % f.leastFull
  let exponent := bits / f.leastFull % f.exponentCodes
  let negative := bits / (f.leastFull * f.exponentCodes) % 2 = 1
  if exponent = f.exponentCodes - 1 then
    if fraction = 0 then .infinite negative else .nan
  else if exponent = 0 then .finite negative fraction f.minExponent
  else .finite negative (f.leastFull + fraction) (f.minExponent + (exponent - 1 : Nat))

end BinaryFormat

namespace FloatDatum

/-- Both are the same number; the sign of a zero does not count, and what is not a number equals
nothing. -/
def sameNumber : FloatDatum → FloatDatum → Bool
  | .infinite a, .infinite b => a == b
  | .finite a m e, .finite b n g =>
    let low := min e g
    let x := m * Nat.pow 2 (e - low).toNat
    let y := n * Nat.pow 2 (g - low).toNat
    x == y && (a == b || x == 0)
  | _, _ => false

/-- The whole number in direct reach of zero; none without a finite number. -/
def truncate? : FloatDatum → Option Int
  | .finite negative m e =>
    let (n, d) := scaleRatio 2 m 1 e
    some (if negative then -((n / d : Nat) : Int) else ((n / d : Nat) : Int))
  | _ => none

/-- The nearest binary64 number to an integer; none when it lies beyond the largest. -/
def ofInt? (i : Int) : Option FloatDatum :=
  (binary64.roundRatio i.natAbs 1).map fun (m, e) => .finite (i < 0) m e

end FloatDatum

end JniHeader
