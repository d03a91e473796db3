import JniHeader.Number.Reading
import JniHeader.Proofs.Text.Digits
import Mathlib.Algebra.Field.Rat

/-!
# Numeric constants in C

C has two kinds of numeric constants. An integer constant has a type that must hold its
value, and no constant is negative: a minus in front of one is an operator. A floating
constant has a point, an exponent or both, which is what tells it from an integer, and
the letter behind it is its type. Its value is exact here; how a compiler rounds it is
not looked at.

Both readers take the whole text for one constant. Integer constants of other bases
and with other suffixes are not read; but whatever the base, they consist of letters
and digits.
-/
namespace JniHeader

/-- Integer constants consist of these. -/
def CodePoint.isAlphanumeric (c : CodePoint) : Bool := c.isAsciiDigit || c.isAsciiLetter

namespace CNumeral

/-! ### Integer constants -/

/-- A decimal integer constant. Without a suffix its type is the first signed one that holds the
value. -/
structure IntegerConstant where
  value : ℕ
  isLongLong : Bool
deriving DecidableEq

def integerSuffix (long : Bool) : Text := if long then "LL" else []

/-- The largest value of `long long`, which is also the largest of any signed type. -/
def maxInteger : ℕ := 2 ^ 63 - 1

/-- A decimal integer constant whose value fits its type. A zero in front of more digits would make
it an octal one. -/
def integer? (t : Text) : Option IntegerConstant :=
  let (digits, suffix) := t.spanDigits
  if digits = [] ∨ maxInteger < digits.decimal then none
  else if digits.head? = some (CodePoint.ofChar '0') ∧ 1 < digits.length then none
  else if suffix = integerSuffix false then some ⟨digits.decimal, false⟩
  else if suffix = integerSuffix true then some ⟨digits.decimal, true⟩
  else none

/-- An integer constant or the negation of one: its value, and whether it is a `long long`. -/
def expression? : Text → Option (ℤ × Bool)
  | [] => none
  | c :: t =>
    if c = '-' then (integer? t).map fun k => (-(k.value : ℤ), k.isLongLong)
    else (integer? (c :: t)).map fun k => ((k.value : ℤ), k.isLongLong)

theorem integer?_ofNat {n : ℕ} (long : Bool) :
    integer? (Text.ofNat n ++ integerSuffix long) =
      if n ≤ maxInteger then some ⟨n, long⟩ else none := by
  have hsuffix : ∀ c ∈ (integerSuffix long).head?, c.isAsciiDigit = false := by
    cases long with
    | false => nofun
    | true =>
        intro c hc
        obtain rfl := Option.some.inj hc
        decide
  have hnonempty := Text.ofNat_ne_nil n
  have hzero : ¬ ((Text.ofNat n).head? = some (CodePoint.ofChar '0') ∧
      1 < (Text.ofNat n).length) := by
    rintro ⟨hhead, hlength⟩
    obtain ⟨rest, hrest⟩ := List.head?_eq_some_iff.1 hhead
    rw [hrest, Text.ofNat_eq_zero_cons hrest] at hlength
    exact absurd hlength (by decide)
  rw [integer?, Text.spanDigits_append (Text.only_ofNat n) hsuffix]
  simp only [Text.decimal_ofNat, hnonempty, false_or]
  rw [if_neg hzero]
  by_cases hfits : n ≤ maxInteger
  · rw [if_neg (by omega), if_pos hfits]
    cases long <;> rfl
  · rw [if_pos (by omega), if_neg hfits]

/-! ### Floating constants -/

inductive FloatingType where
  | single
  | double
  | extended
deriving DecidableEq

def FloatingType.suffix : FloatingType → Text
  | .single => "f"
  | .double => []
  | .extended => "L"

def floatingType? : Text → Option FloatingType
  | [] => some .double
  | [c] =>
    if c = 'f' ∨ c = 'F' then some .single
    else if c = 'l' ∨ c = 'L' then some .extended
    else none
  | _ => none

/-- The digits behind a point, if there is one, and the text behind them. -/
def fraction (t : Text) : Option Text × Text :=
  match t with
  | [] => (none, [])
  | c :: rest =>
    if c = '.' then
      let (digits, rest) := Text.spanDigits rest
      (some digits, rest)
    else (none, t)

/-- The exponent, if there is one, and the text behind it. An exponent without digits is refused. -/
def exponent? (t : Text) : Option (Option ℤ × Text) :=
  match t with
  | [] => some (none, [])
  | c :: rest =>
    if c = 'e' ∨ c = 'E' then
      let (negative, rest) := Numeral.sign rest
      let (digits, rest) := Text.spanDigits rest
      if digits = [] then none
      else some (some (if negative then -(digits.decimal : ℤ) else digits.decimal), rest)
    else some (none, t)

/-- A floating constant: its type, and the number that its digits and its exponent spell. -/
def floating? (t : Text) : Option (FloatingType × ℚ) := do
  let (whole, rest) := t.spanDigits
  let (fraction, rest) := fraction rest
  let (exponent, rest) ← exponent? rest
  let type ← floatingType? rest
  let places := fraction.getD []
  if whole ++ places = [] ∨ (fraction = none ∧ exponent = none) then none
  else some (type, (whole ++ places).decimal * (10 : ℚ) ^ (exponent.getD 0 - places.length))

end CNumeral

end JniHeader
