import JniHeader.Proofs.Number.Rounding
import JniHeader.Proofs.Text.CNumerals

/-!
# The text of a decimal

A decimal is laid out as digits, perhaps with a point among them and perhaps with an
exponent behind them. Either way the text spells the decimal: zeros that were taken from
the end of the digits, or that fill up to the point, count for the powers of ten that
they stand for. With the mark that a numeral without point and exponent is given, it is
a floating constant of that value.
-/
namespace JniHeader

namespace Decimal

/-- The digits of an exponent, of which there are at least two. -/
def exponentDigits (e : ℤ) : Text :=
  let n := Text.ofNat e.natAbs
  if n.length < 2 then CodePoint.ofChar '0' :: n else n

def exponentSign (e : ℤ) : CodePoint := CodePoint.ofChar (if e < 0 then '-' else '+')

theorem exponentText_eq (e : ℤ) :
    exponentText e = CodePoint.ofChar 'e' :: exponentSign e :: exponentDigits e := by
  by_cases hnegative : e < 0
  · rw [exponentSign, exponentText, if_pos hnegative, if_pos hnegative]
    rfl
  · rw [exponentSign, exponentText, if_neg hnegative, if_neg hnegative]
    rfl

theorem exponentDigits_only (e : ℤ) : (exponentDigits e).Only CodePoint.isAsciiDigit := by
  unfold exponentDigits
  dsimp only
  split_ifs
  · exact Text.only_cons.2 ⟨by decide, Text.only_ofNat _⟩
  · exact Text.only_ofNat _

theorem exponentDigits_ne_nil (e : ℤ) : exponentDigits e ≠ [] := by
  unfold exponentDigits
  dsimp only
  split_ifs
  · exact List.cons_ne_nil _ _
  · exact Text.ofNat_ne_nil _

theorem decimal_exponentDigits (e : ℤ) : (exponentDigits e).decimal = e.natAbs := by
  unfold exponentDigits
  dsimp only
  split_ifs
  · exact Text.decimal_ofNat _
  · exact Text.decimal_ofNat _

theorem sign_exponentSign (e : ℤ) (t : Text) :
    Numeral.sign (exponentSign e :: t) = (decide (e < 0), t) := by
  by_cases hnegative : e < 0
  · rw [exponentSign, if_pos hnegative, decide_eq_true hnegative]
    rfl
  · rw [exponentSign, if_neg hnegative, decide_eq_false hnegative]
    rfl

end Decimal

/-- Digits in front of a point and behind it, and an exponent. The point or the exponent can be
missing. -/
structure DigitParts where
  whole : Text
  fraction : Option Text
  exponent : Option ℤ
  whole_ne_nil : whole ≠ []
  whole_only : whole.Only CodePoint.isAsciiDigit
  fraction_only : ∀ t ∈ fraction, t.Only CodePoint.isAsciiDigit

namespace DigitParts

def pointText : Option Text → Text
  | none => []
  | some places => CodePoint.ofChar '.' :: places

def exponentText : Option ℤ → Text
  | none => []
  | some e => Decimal.exponentText e

variable (p : DigitParts)

def text : Text := p.whole ++ (pointText p.fraction ++ exponentText p.exponent)

def places : Text := p.fraction.getD []

/-- The number that the digits and the exponent spell. -/
def value : ℚ := (p.whole ++ p.places).decimal * (10 : ℚ) ^ (p.exponent.getD 0 - p.places.length)

end DigitParts

namespace CNumeral

theorem exponent?_exponentText (e : ℤ) {rest : Text}
    (hrest : ∀ c ∈ rest.head?, c.isAsciiDigit = false) :
    exponent? (Decimal.exponentText e ++ rest) = some (some e, rest) := by
  have hspan := Text.spanDigits_append (Decimal.exponentDigits_only e) hrest
  have hnonempty := Decimal.exponentDigits_ne_nil e
  rw [Decimal.exponentText_eq, List.cons_append, List.cons_append, exponent?, if_pos (.inl rfl),
    Decimal.sign_exponentSign]
  simp only [hspan, hnonempty, if_false, Decimal.decimal_exponentDigits]
  by_cases hnegative : e < 0
  · rw [decide_eq_true hnegative, if_pos rfl]
    congr 3
    omega
  · rw [decide_eq_false hnegative, if_neg Bool.false_ne_true]
    congr 3
    omega

/-- A suffix is neither mistaken for a digit nor for what can follow one. -/
theorem suffix_head (type : FloatingType) :
    ∀ c ∈ type.suffix.head?, c.isAsciiDigit = false ∧ c ≠ '.' ∧ c ≠ 'e' ∧ c ≠ 'E' := by
  cases type <;> decide

theorem exponent?_append (e : Option ℤ) (type : FloatingType) :
    exponent? (DigitParts.exponentText e ++ type.suffix) = some (e, type.suffix) := by
  have hhead := suffix_head type
  cases e with
  | some e => exact exponent?_exponentText e fun c hc => (hhead c hc).1
  | none =>
      rw [DigitParts.exponentText, List.nil_append]
      cases type <;> rfl

theorem exponent_head (e : Option ℤ) (type : FloatingType) :
    ∀ c ∈ (DigitParts.exponentText e ++ type.suffix).head?, c.isAsciiDigit = false ∧ c ≠ '.' := by
  cases e with
  | some e =>
      intro c hc
      obtain rfl := Option.some.inj hc
      decide
  | none =>
      intro c hc
      have hhead := suffix_head type c hc
      exact ⟨hhead.1, hhead.2.1⟩

theorem fraction_append {places : Option Text} (h : ∀ t ∈ places, t.Only CodePoint.isAsciiDigit)
    {rest : Text} (hrest : ∀ c ∈ rest.head?, c.isAsciiDigit = false ∧ c ≠ '.') :
    fraction (DigitParts.pointText places ++ rest) = (places, rest) := by
  cases places with
  | some places =>
      change fraction (CodePoint.ofChar '.' :: (places ++ rest)) = _
      rw [fraction, if_pos rfl, Text.spanDigits_append (h places rfl) fun c hc => (hrest c hc).1]
  | none =>
      rw [DigitParts.pointText, List.nil_append]
      cases rest with
      | nil => rfl
      | cons c rest => rw [fraction, if_neg (hrest c rfl).2]

theorem floatingType?_suffix (type : FloatingType) : floatingType? type.suffix = some type := by
  cases type <;> rfl

/-- Digits with a point or an exponent are a floating constant. -/
theorem floating?_text (p : DigitParts) (type : FloatingType)
    (h : ¬ (p.fraction = none ∧ p.exponent = none)) :
    floating? (p.text ++ type.suffix) = some (type, p.value) := by
  have hrest := exponent_head p.exponent type
  have hdigits : ∀ c ∈ (DigitParts.pointText p.fraction ++
      (DigitParts.exponentText p.exponent ++ type.suffix)).head?, c.isAsciiDigit = false := by
    intro c hc
    cases hfraction : p.fraction with
    | some places =>
        rw [hfraction] at hc
        obtain rfl := Option.some.inj hc
        decide
    | none =>
        rw [hfraction] at hc
        exact (hrest c hc).1
  have hnonempty : p.whole ++ p.fraction.getD [] ≠ [] :=
    fun hnil => p.whole_ne_nil (List.append_eq_nil_iff.1 hnil).1
  have hspan := Text.spanDigits_append p.whole_only hdigits
  rw [floating?, DigitParts.text, List.append_assoc, List.append_assoc, hspan]
  simp only [fraction_append p.fraction_only hrest, exponent?_append, floatingType?_suffix,
    Option.bind_eq_bind, Option.bind_some]
  rw [if_neg (not_or.2 ⟨hnonempty, h⟩)]
  rfl

end CNumeral

namespace DigitParts

variable (p : DigitParts)

/-- With a point, if there was neither a point nor an exponent. -/
def pointed : DigitParts :=
  if p.fraction = none ∧ p.exponent = none then
    { p with
      fraction := some "0"
      fraction_only := by
        intro t ht
        obtain rfl := Option.some.inj ht
        decide }
  else p

theorem pointed_marked : ¬ (p.pointed.fraction = none ∧ p.pointed.exponent = none) := by
  rw [pointed]
  split_ifs with h
  · rintro ⟨hnone, -⟩
    cases hnone
  · exact h

theorem pointed_value : p.pointed.value = p.value := by
  rw [pointed]
  split_ifs with h
  · have hzero : Text.decimal "0" = 0 := rfl
    have hlength : ("0" : Text).length = 1 := rfl
    simp only [value, places, h.1, h.2, Option.getD_some, Option.getD_none, Text.decimal_append,
      hzero, hlength, List.append_nil, List.length_nil]
    push_cast
    norm_num
    ring
  · rfl

/-- Digits hold no point and no exponent. -/
theorem not_mem_of_only {t : Text} (h : t.Only CodePoint.isAsciiDigit) :
    CodePoint.ofChar '.' ∉ t ∧ CodePoint.ofChar 'e' ∉ t :=
  ⟨fun hmem => absurd (h _ hmem) (by decide), fun hmem => absurd (h _ hmem) (by decide)⟩

theorem withPoint_text : FloatDatum.withPoint p.text = p.pointed.text := by
  by_cases h : p.fraction = none ∧ p.exponent = none
  · have htext : p.text = p.whole := by
      rw [text, h.1, h.2]
      exact List.append_nil _
    obtain ⟨hpoint, hexponent⟩ := not_mem_of_only p.whole_only
    rw [htext, FloatDatum.withPoint, if_neg, pointed, if_pos h, text, h.2]
    · rfl
    · simp only [Bool.or_eq_true, List.contains_iff_mem, not_or]
      exact ⟨hpoint, hexponent⟩
  · have hmarked : CodePoint.ofChar '.' ∈ p.text ∨ CodePoint.ofChar 'e' ∈ p.text := by
      rw [text]
      cases hfraction : p.fraction with
      | some places => exact .inl (by simp [pointText])
      | none =>
          cases hexponent : p.exponent with
          | some e => exact .inr (by simp [exponentText, Decimal.exponentText_eq])
          | none => exact absurd ⟨hfraction, hexponent⟩ h
    rw [pointed, if_neg h, FloatDatum.withPoint, if_pos]
    simp only [Bool.or_eq_true, List.contains_iff_mem]
    exact hmarked

/-- A point or the sign of an exponent is in no integer constant. -/
theorem not_only_alphanumeric {p : DigitParts} (h : ¬ (p.fraction = none ∧ p.exponent = none)) :
    ¬ p.text.Only CodePoint.isAlphanumeric := by
  intro honly
  rw [text] at honly
  cases hfraction : p.fraction with
  | some places =>
      have hmem : CodePoint.ofChar '.' ∈ p.whole ++ (pointText (some places) ++
          exponentText p.exponent) := by simp [pointText]
      rw [hfraction] at honly
      exact absurd (honly _ hmem) (by decide)
  | none =>
      cases hexponent : p.exponent with
      | some e =>
          have hmem : Decimal.exponentSign e ∈ p.whole ++
              (pointText none ++ exponentText (some e)) := by
            simp [exponentText, Decimal.exponentText_eq]
          rw [hfraction, hexponent] at honly
          have hsign := honly _ hmem
          rw [Decimal.exponentSign] at hsign
          split_ifs at hsign <;> exact absurd hsign (by decide)
      | none => exact h ⟨hfraction, hexponent⟩

end DigitParts

namespace Decimal

variable {d : Decimal}

/-- The digits without the zeros at the end, which count for the power of the first one. -/
theorem plain_spec (hd : 0 < d.digits) :
    d.plain.1 ≠ [] ∧ d.plain.1.Only CodePoint.isAsciiDigit ∧
      d.value = d.plain.1.decimal * (10 : ℚ) ^ (d.plain.2 + 1 - d.plain.1.length) := by
  obtain ⟨all, hall⟩ : ∃ all, all = Text.ofNat d.digits := ⟨_, rfl⟩
  obtain ⟨digits, hdigits⟩ : ∃ digits : Text,
      digits = (all.reverse.dropWhile (· == CodePoint.ofChar '0')).reverse := ⟨_, rfl⟩
  obtain ⟨k, hk⟩ : ∃ k, all = digits ++ List.replicate k (CodePoint.ofChar '0') := by
    refine ⟨(all.reverse.takeWhile (· == CodePoint.ofChar '0')).length, ?_⟩
    have hzeros : all.reverse.takeWhile (· == CodePoint.ofChar '0') =
        List.replicate _ (CodePoint.ofChar '0') :=
      List.eq_replicate_of_mem fun c hc =>
        eq_of_beq (List.all_eq_true.1 List.all_takeWhile c hc)
    have hsplit := List.takeWhile_append_dropWhile
      (p := (· == CodePoint.ofChar '0')) (l := all.reverse)
    have hreverse := congrArg List.reverse hsplit
    rw [List.reverse_append, List.reverse_reverse] at hreverse
    rw [← List.reverse_replicate, ← hzeros, hdigits]
    exact hreverse.symm
  have hplain : d.plain = (digits, d.exponent + all.length - 1) := by
    rw [hdigits, hall]
    rfl
  have hnumber : (d.digits : ℚ) = Text.decimal digits * (10 : ℚ) ^ (k : ℤ) := by
    have h := Text.decimal_ofNat d.digits
    rw [← hall, hk, Text.decimal_append, Text.decimal_zeros, List.length_replicate,
      Nat.add_zero] at h
    rw [← h, zpow_natCast]
    push_cast
    rfl
  have hlength : all.length = digits.length + k := by
    rw [hk, List.length_append, List.length_replicate]
  rw [hplain]
  refine ⟨?_, ?_, ?_⟩
  · rintro rfl
    have hzero : Text.decimal [] = 0 := rfl
    rw [hzero, Nat.cast_zero, zero_mul, Nat.cast_eq_zero] at hnumber
    omega
  · have honly := Text.only_ofNat d.digits
    rw [← hall, hk] at honly
    exact (Text.only_append.1 honly).1
  · rw [value, hnumber, mul_assoc, ← zpow_add₀ (by norm_num), hlength]
    congr 2
    push_cast
    ring

/-- Digits that end with zeros spell the number that the digits before them spell with a greater
unit. -/
theorem parts_value {p : DigitParts} {n k : ℕ} {e : ℤ}
    (hdigits : (p.whole ++ p.places).decimal = n * 10 ^ k)
    (he : p.exponent.getD 0 - p.places.length + k = e) : p.value = n * (10 : ℚ) ^ e := by
  rw [DigitParts.value, hdigits, ← he, zpow_add₀ (by norm_num), zpow_natCast]
  push_cast
  ring

/-- A decimal is laid out as digits that spell it. -/
theorem layout_parts (limit : ℤ) (hd : 0 < d.digits) :
    ∃ p : DigitParts, d.layout limit = p.text ∧ p.value = d.value := by
  obtain ⟨hnonempty, honly, hvalue⟩ := plain_spec hd
  rw [hvalue, layout]
  generalize d.plain = plain at hnonempty honly ⊢
  obtain ⟨digits, power⟩ := plain
  dsimp only at hnonempty honly ⊢
  have hzeros (n : ℕ) : Text.Only CodePoint.isAsciiDigit
      (List.replicate n (CodePoint.ofChar '0')) := by
    intro c hc
    obtain rfl := List.eq_of_mem_replicate hc
    decide
  split_ifs with houter hsmall hshort
  · match digits, hnonempty, honly with
    | [digit], hnonempty, honly =>
        refine ⟨⟨[digit], none, some power, hnonempty, honly, nofun⟩, rfl, ?_⟩
        refine parts_value (k := 0) ?_ ?_
        · rw [pow_zero, mul_one]
          rfl
        · simp [DigitParts.places]
    | first :: second :: more, _, honly =>
        obtain ⟨hfirst, hmore⟩ := Text.only_cons.1 honly
        refine ⟨⟨[first], some (second :: more), some power, List.cons_ne_nil _ _,
          Text.only_singleton.2 hfirst, ?_⟩, ?_, ?_⟩
        · intro t ht
          obtain rfl := Option.some.inj ht
          exact hmore
        · simp only [DigitParts.text, DigitParts.pointText, DigitParts.exponentText,
            List.append_assoc]
          rfl
        · refine parts_value (k := 0) ?_ ?_
          · rw [pow_zero, mul_one]
            rfl
          · simp only [DigitParts.places, Option.getD_some, List.length_cons]
            push_cast
            ring
  · -- the zeros between the point and the digits
    refine ⟨⟨"0", some (List.replicate (-power - 1).toNat (CodePoint.ofChar '0') ++ digits), none,
      List.cons_ne_nil _ _, by decide, ?_⟩, ?_, ?_⟩
    · intro t ht
      obtain rfl := Option.some.inj ht
      exact (hzeros _).append honly
    · simp only [DigitParts.text, DigitParts.pointText, DigitParts.exponentText,
        List.append_nil, List.append_assoc]
      rfl
    · refine parts_value (k := 0) ?_ ?_
      · have hzero : Text.decimal "0" = 0 := rfl
        simp only [DigitParts.places, Option.getD_some, Text.decimal_append, Text.decimal_zeros,
          hzero, pow_zero, mul_one, Nat.zero_mul, Nat.zero_add]
      · simp only [DigitParts.places, Option.getD_some, Option.getD_none, List.length_append,
          List.length_replicate]
        omega
  · -- the zeros between the digits and the point
    refine ⟨⟨digits ++ List.replicate (power.toNat + 1 - digits.length) (CodePoint.ofChar '0'),
      none, none, ?_, honly.append (hzeros _), nofun⟩, ?_, ?_⟩
    · exact fun hnil => hnonempty (List.append_eq_nil_iff.1 hnil).1
    · exact (List.append_nil _).symm
    · refine parts_value (k := power.toNat + 1 - digits.length) ?_ ?_
      · simp only [DigitParts.places, Option.getD_none, List.append_nil, Text.decimal_append,
          Text.decimal_zeros, List.length_replicate, Nat.add_zero]
      · simp only [DigitParts.places, Option.getD_none, List.length_nil]
        omega
  · refine ⟨⟨digits.take (power.toNat + 1), some (digits.drop (power.toNat + 1)), none, ?_,
      honly.of_subset (List.take_subset _ _), ?_⟩, ?_, ?_⟩
    · rw [Ne, List.take_eq_nil_iff, not_or]
      exact ⟨Nat.succ_ne_zero _, hnonempty⟩
    · intro t ht
      obtain rfl := Option.some.inj ht
      exact honly.of_subset (List.drop_subset _ _)
    · simp only [DigitParts.text, DigitParts.pointText, DigitParts.exponentText,
        List.append_nil, List.append_assoc]
      rfl
    · refine parts_value (k := 0) ?_ ?_
      · simp only [DigitParts.places, Option.getD_some, List.take_append_drop, pow_zero, mul_one]
      · simp only [DigitParts.places, Option.getD_some, Option.getD_none, List.length_drop]
        omega

end Decimal

end JniHeader
