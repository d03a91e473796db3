import JniHeader.Number.Decimal
import JniHeader.Text.Blank
import JniHeader.Text.DecimalDigit

/-!
# Reading numerals

Whole numbers and decimal fractions as a user writes them: blanks around, a
sign, digits of any script, single underscores between digits, and for
fractions an exponent, an infinity or `nan`.
-/
namespace JniHeader

namespace Numeral

/-- White space that may stand around a numeral; information separators may not. -/
def isMargin (c : CodePoint) : Bool := c.isBlank && !c.within 0x1C 0x1F

def trim (t : Text) : Text := ((t.dropWhile isMargin).reverse.dropWhile isMargin).reverse

/-- A sign and the text after it; no sign means plus. -/
def sign (t : Text) : Bool × Text :=
  match t with
  | [] => (false, [])
  | c :: rest => if c = '-' then (true, rest) else if c = '+' then (false, rest) else (false, t)

/-- Digits with single underscores between them: their number, their count, and the rest. -/
def digits : (value count : Nat) → Text → Nat × Nat × Text
  | value, count, [] => (value, count, [])
  | value, count, c :: rest =>
    match c.digitValue? with
    | some d => digits (value * 10 + d) (count + 1) rest
    | none =>
      if c = '_' ∧ 0 < count then
        match rest with
        | d :: rest' =>
          match d.digitValue? with
          | some n => digits (value * 10 + n) (count + 1) rest'
          | none => (value, count, c :: d :: rest')
        | [] => (value, count, [c])
      else (value, count, c :: rest)

/-- The most digits that a whole number may be spelled with. -/
def maxDigits : Nat := 4300

/-- Why a text spells no whole number. -/
inductive Fault where
  | malformed
  | tooManyDigits (count : Nat)
deriving DecidableEq, Repr

/-- The whole number that the text spells. Digits are counted before what follows them is looked at,
unless it is an underscore. -/
def integer (t : Text) : Except Fault Int :=
  let (negative, t) := sign (trim t)
  let (n, count, rest) := digits 0 0 t
  if count = 0 ∨ rest.head? = some (CodePoint.ofChar '_') then .error .malformed
  else if maxDigits < count then .error (.tooManyDigits count)
  else if rest.isEmpty then .ok (if negative then -(n : Int) else (n : Int))
  else .error .malformed

/-- The exponent at the end of a numeral; none when something else stands there. -/
def exponent? : Text → Option Int
  | [] => some 0
  | c :: rest =>
    if c = 'e' ∨ c = 'E' then
      let (negative, rest) := sign rest
      match digits 0 0 rest with
      | (n, _ + 1, []) => some (if negative then -(n : Int) else (n : Int))
      | _ => none
    else none

/-- The number `value · 10 ^ exponent`. Exponents beyond any number's reach are not raised to. -/
def scaled (negative : Bool) (value : Nat) (exponent : Int) : FloatDatum :=
  let leading := exponent + digitCount value
  if value = 0 ∨ leading < -400 then .finite negative 0 0
  else if 400 < leading then .infinite negative
  else
    let (n, d) := scaleRatio 10 value 1 exponent
    match binary64.roundRatio n d with
    | some (m, e) => .finite negative m e
    | none => .infinite negative

/-- The digits after a decimal point, appended to those before it. -/
def fraction (value count : Nat) : Text → Nat × Nat × Nat × Text
  | [] => (value, count, 0, [])
  | c :: rest =>
    if c = '.' then
      let (n, k, rest') := digits 0 0 rest
      (value * Nat.pow 10 k + n, count + k, k, rest')
    else (value, count, 0, c :: rest)

/-- The nearest binary64 datum to the number that the text spells. -/
def float? (t : Text) : Option FloatDatum :=
  let (negative, t) := sign (trim t)
  let word := t.toAsciiLower
  if word = "inf" ∨ word = "infinity" then some (.infinite negative)
  else if word = "nan" then some .nan
  else
    let (whole, count, rest) := digits 0 0 t
    match fraction whole count rest with
    | (value, _ + 1, places, rest) =>
      (exponent? rest).map fun e => scaled negative value (e - places)
    | _ => none

end Numeral

end JniHeader
