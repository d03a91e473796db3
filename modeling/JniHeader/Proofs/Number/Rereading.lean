import JniHeader.Proofs.Number.DecimalText
import JniHeader.Proofs.Number.SingleText

/-!
# Reading the text of a number

The text of so many digits spells the number rounded to so many digits. When it is read
as a numeral, what comes out is the number of double precision next to this decimal:
numerals far beyond all numbers are cut off without being looked at, but a decimal next
to a number of single precision is not among them. So an attempt restores a number if
and only if the text does that would be written for it.
-/
namespace JniHeader

namespace CodePoint

variable {c : CodePoint}

theorem val_of_isAsciiDigit (h : c.isAsciiDigit = true) : 0x30 ≤ c.val ∧ c.val ≤ 0x39 := by
  rw [isAsciiDigit, within, Bool.and_eq_true, decide_eq_true_eq, decide_eq_true_eq] at h
  exact h

theorem digitValue?_of_isAsciiDigit (h : c.isAsciiDigit = true) :
    c.digitValue? = some (c.val - 0x30) := by
  have hfirst : digitZeros.find? (fun z => c.within z (z + 9)) = some 0x30 :=
    List.find?_cons_of_pos h
  rw [digitValue?, hfirst, Option.map_some]

theorem toAsciiLower_of_isAsciiDigit (h : c.isAsciiDigit = true) : c.toAsciiLower = c := by
  have hval := val_of_isAsciiDigit h
  rw [toAsciiLower, if_neg]
  rw [within, Bool.and_eq_true, decide_eq_true_eq, decide_eq_true_eq]
  omega

/-- No visible ASCII character stands around a numeral. -/
theorem not_isMargin_of_val (h : 0x21 ≤ c.val ∧ c.val ≤ 0x7E) : Numeral.isMargin c = false := by
  have hblank : c.isBlank = false := by
    rw [isBlank, List.any_eq_false]
    simp only [blankRanges, List.forall_mem_cons, List.not_mem_nil, within, Bool.and_eq_true,
      decide_eq_true_eq, false_implies, implies_true, and_true]
    omega
  rw [Numeral.isMargin, hblank, Bool.false_and]

end CodePoint

namespace Numeral

theorem trim_eq {t : Text} (h : ∀ c ∈ t, isMargin c = false) : trim t = t := by
  have hkeep {s : Text} (hs : ∀ c ∈ s, isMargin c = false) : s.dropWhile isMargin = s := by
    cases s with
    | nil => rfl
    | cons c s => exact List.dropWhile_cons_of_neg (by rw [hs c List.mem_cons_self]; exact nofun)
  have hreverse : ∀ c ∈ t.reverse, isMargin c = false := fun c hc => h c (List.mem_reverse.1 hc)
  rw [trim, hkeep h, hkeep hreverse, List.reverse_reverse]

section

variable {c : CodePoint} {d value count : ℕ} {rest : Text}

theorem digits_of_digit (h : c.digitValue? = some d) :
    digits value count (c :: rest) = digits (value * 10 + d) (count + 1) rest := by
  rw [digits.eq_def]
  simp only [h]

theorem digits_of_none (h : c.digitValue? = none) (hunderscore : c ≠ '_') :
    digits value count (c :: rest) = (value, count, c :: rest) := by
  rw [digits.eq_def]
  simp only [h, hunderscore, false_and, if_false]

end

/-- Digits are counted and added up to the first code point that is none. -/
theorem digits_append {s t : Text} (hs : s.Only CodePoint.isAsciiDigit)
    (ht : ∀ c ∈ t.head?, c.digitValue? = none ∧ c ≠ '_') (value count : ℕ) :
    digits value count (s ++ t) = (value * 10 ^ s.length + s.decimal, count + s.length, t) := by
  induction s generalizing value count with
  | nil =>
      have hzero : Text.decimal [] = 0 := rfl
      rw [List.nil_append, List.length_nil, pow_zero, mul_one, hzero]
      cases t with
      | nil => rfl
      | cons c t =>
          obtain ⟨hdigit, hunderscore⟩ := ht c rfl
          exact digits_of_none hdigit hunderscore
  | cons c s ih =>
      obtain ⟨hc, hs⟩ := Text.only_cons.1 hs
      have hsplit : Text.decimal (c :: s) = (c.val - 0x30) * 10 ^ s.length + Text.decimal s := by
        have hone : Text.decimal [c] = c.val - 0x30 := Nat.zero_add _
        rw [← List.singleton_append, Text.decimal_append, hone]
      rw [List.cons_append, digits_of_digit (CodePoint.digitValue?_of_isAsciiDigit hc), ih hs,
        hsplit, List.length_cons, pow_succ]
      refine Prod.ext ?_ (Prod.ext ?_ rfl)
      · dsimp only
        ring
      · dsimp only
        ring

end Numeral

namespace DigitParts

variable (p : DigitParts)

theorem exponentText_head (e : Option ℤ) :
    ∀ c ∈ (exponentText e).head?, c.digitValue? = none ∧ c ≠ '_' ∧ c ≠ '.' := by
  cases e with
  | none => nofun
  | some e =>
      intro c hc
      obtain rfl := Option.some.inj hc
      decide

theorem pointText_head :
    ∀ c ∈ (pointText p.fraction ++ exponentText p.exponent).head?,
      c.digitValue? = none ∧ c ≠ '_' := by
  cases p.fraction with
  | none =>
      intro c hc
      have hhead := exponentText_head p.exponent c hc
      exact ⟨hhead.1, hhead.2.1⟩
  | some places =>
      intro c hc
      obtain rfl := Option.some.inj hc
      decide

theorem exponent?_exponentText (e : Option ℤ) :
    Numeral.exponent? (exponentText e) = some (e.getD 0) := by
  cases e with
  | none => rfl
  | some e =>
      have hdigits := Numeral.digits_append (t := []) (Decimal.exponentDigits_only e) nofun 0 0
      obtain ⟨k, hk⟩ := Nat.exists_eq_succ_of_ne_zero
        (List.length_pos_iff.2 (Decimal.exponentDigits_ne_nil e)).ne'
      rw [List.append_nil, hk, Decimal.decimal_exponentDigits, Nat.zero_mul, Nat.zero_add,
        Nat.zero_add] at hdigits
      rw [exponentText, Decimal.exponentText_eq, Numeral.exponent?, if_pos (.inl rfl),
        Decimal.sign_exponentSign]
      simp only [hdigits]
      by_cases hnegative : e < 0
      · rw [decide_eq_true hnegative, if_pos rfl, Option.getD_some]
        congr 1
        omega
      · rw [decide_eq_false hnegative, if_neg Bool.false_ne_true, Option.getD_some]
        congr 1
        omega

theorem fraction_append (value count : ℕ) :
    Numeral.fraction value count (pointText p.fraction ++ exponentText p.exponent) =
      (value * 10 ^ p.places.length + p.places.decimal, count + p.places.length, p.places.length,
        exponentText p.exponent) := by
  have hhead := exponentText_head p.exponent
  rw [places]
  cases hfraction : p.fraction with
  | none =>
      have hzero : Text.decimal [] = 0 := rfl
      rw [pointText, List.nil_append, Option.getD_none, List.length_nil, pow_zero, mul_one, hzero]
      generalize exponentText p.exponent = rest at hhead ⊢
      cases rest with
      | nil => rfl
      | cons c rest =>
          rw [Numeral.fraction, if_neg (hhead c rfl).2.2]
          rfl
  | some places =>
      have hdigits := Numeral.digits_append (p.fraction_only places hfraction)
        (fun c hc => ⟨(hhead c hc).1, (hhead c hc).2.1⟩) 0 0
      rw [Nat.zero_mul, Nat.zero_add, Nat.zero_add] at hdigits
      rw [pointText, List.cons_append, Numeral.fraction, if_pos rfl, hdigits]
      rfl

theorem not_isMargin (negative : Bool) :
    ∀ c ∈ FloatDatum.signText negative ++ p.text, Numeral.isMargin c = false := by
  have hdigit {t : Text} (ht : t.Only CodePoint.isAsciiDigit) :
      ∀ c ∈ t, Numeral.isMargin c = false := by
    intro c hc
    have hval := CodePoint.val_of_isAsciiDigit (ht c hc)
    exact CodePoint.not_isMargin_of_val (by omega)
  have hsign : ∀ c ∈ FloatDatum.signText negative, Numeral.isMargin c = false := by
    cases negative <;> decide
  have hpoint : ∀ c ∈ pointText p.fraction, Numeral.isMargin c = false := by
    cases hfraction : p.fraction with
    | none => nofun
    | some places =>
        exact List.forall_mem_cons.2 ⟨by decide, hdigit (p.fraction_only places hfraction)⟩
  have hexponent : ∀ c ∈ exponentText p.exponent, Numeral.isMargin c = false := by
    cases p.exponent with
    | none => nofun
    | some e =>
        have hmark : Numeral.isMargin (Decimal.exponentSign e) = false := by
          rw [Decimal.exponentSign]
          split_ifs <;> decide
        rw [exponentText, Decimal.exponentText_eq]
        exact List.forall_mem_cons.2 ⟨by decide,
          List.forall_mem_cons.2 ⟨hmark, hdigit (Decimal.exponentDigits_only e)⟩⟩
  exact List.forall_mem_append.2 ⟨hsign, List.forall_mem_append.2 ⟨hdigit p.whole_only,
    List.forall_mem_append.2 ⟨hpoint, hexponent⟩⟩⟩

/-- Digits behind a sign are read as a numeral that spells their number. -/
theorem float?_text (negative : Bool) :
    Numeral.float? (FloatDatum.signText negative ++ p.text) =
      some (Numeral.scaled negative (p.whole ++ p.places).decimal
        (p.exponent.getD 0 - p.places.length)) := by
  obtain ⟨c, whole, hwhole⟩ := List.exists_cons_of_ne_nil p.whole_ne_nil
  have hc : c.isAsciiDigit = true := by
    have honly := p.whole_only
    rw [hwhole] at honly
    exact (Text.only_cons.1 honly).1
  have hne (x : Char) (hx : (CodePoint.ofChar x).isAsciiDigit = false) : c ≠ x := by
    rintro rfl
    rw [hc] at hx
    cases hx
  obtain ⟨rest, htext⟩ : ∃ rest, p.text = c :: rest := ⟨_, by rw [text, hwhole]; rfl⟩
  have hsign : Numeral.sign (FloatDatum.signText negative ++ p.text) = (negative, p.text) := by
    cases negative with
    | true => rfl
    | false =>
        change Numeral.sign p.text = _
        rw [htext, Numeral.sign, if_neg (hne '-' rfl), if_neg (hne '+' rfl)]
  have hword (x : Char) (t : Text) (hx : (CodePoint.ofChar x).isAsciiDigit = false) :
      ¬ Text.toAsciiLower p.text = CodePoint.ofChar x :: t := by
    intro heq
    rw [htext, Text.toAsciiLower, List.map_cons, CodePoint.toAsciiLower_of_isAsciiDigit hc] at heq
    exact hne x hx (List.cons.inj heq).1
  have hdigits := Numeral.digits_append p.whole_only p.pointText_head 0 0
  obtain ⟨k, hk⟩ : ∃ k, p.whole.length + p.places.length = k + 1 :=
    ⟨whole.length + p.places.length, by rw [hwhole, List.length_cons]; omega⟩
  have hfraction := p.fraction_append p.whole.decimal p.whole.length
  rw [hk, ← Text.decimal_append] at hfraction
  rw [Nat.zero_mul, Nat.zero_add, Nat.zero_add] at hdigits
  rw [Numeral.float?, Numeral.trim_eq (p.not_isMargin negative), hsign]
  dsimp only
  have hinfinity : ¬ (Text.toAsciiLower p.text = "inf" ∨ Text.toAsciiLower p.text = "infinity") :=
    not_or.2 ⟨hword 'i' _ rfl, hword 'i' _ rfl⟩
  have hnan : ¬ Text.toAsciiLower p.text = "nan" := hword 'n' _ rfl
  rw [if_neg hinfinity, if_neg hnan]
  have hread : Numeral.digits 0 0 p.text = _ := hdigits
  simp only [hread, hfraction, exponent?_exponentText, Option.map_some]

end DigitParts

namespace Numeral

/-- A number that is neither too large nor too small to be looked at is read to the nearest one of
double precision. -/
theorem scaled_eq (negative : Bool) {value n d : ℕ} {exponent : ℤ} (hvalue : value ≠ 0)
    (hscale : scaleRatio 10 value 1 exponent = (n, d))
    (hlow : -400 ≤ exponent + digitCount value) (hhigh : exponent + digitCount value ≤ 400) :
    binary32.round? (scaled negative value exponent) =
      FloatDatum.readSingle? negative (binary64.roundRatio n d) := by
  have hzero : ¬ (value = 0 ∨ exponent + digitCount value < -400) :=
    not_or.2 ⟨hvalue, not_lt.2 hlow⟩
  simp only [scaled, if_neg hzero, if_neg (not_lt.2 hhigh), hscale]
  cases binary64.roundRatio n d with
  | none => rfl
  | some p => rfl

end Numeral

/-- How far the first digit of a decimal is from the point. -/
theorem leading_bounds {value : ℕ} (hvalue : value ≠ 0) (e : ℤ) :
    (10 : ℚ) ^ (e + digitCount value - 1) ≤ value * (10 : ℚ) ^ e ∧
      value * (10 : ℚ) ^ e < (10 : ℚ) ^ (e + digitCount value) := by
  have hunit : (0 : ℚ) < (10 : ℚ) ^ e := zpow_pos (by norm_num) _
  have hcount := digitCount_pos value
  have hlow : (10 : ℚ) ^ (digitCount value - 1) ≤ value := by
    exact_mod_cast pow_digitCount_le (Nat.pos_of_ne_zero hvalue)
  have hhigh : (value : ℚ) < (10 : ℚ) ^ digitCount value := by
    exact_mod_cast lt_pow_digitCount value
  have hpower : e + digitCount value - 1 = (digitCount value - 1 : ℕ) + e := by omega
  constructor
  · rw [hpower, zpow_add₀ (by norm_num), zpow_natCast]
    exact mul_le_mul_of_nonneg_right hlow hunit.le
  · rw [add_comm e, zpow_add₀ (by norm_num), zpow_natCast]
    exact mul_lt_mul_of_pos_right hhigh hunit

/-- Numbers of single precision are far from both ends of what is looked at. -/
theorem leading_of_finite {value : ℕ} {e : ℤ} {v : ℚ} (hvalue : value ≠ 0)
    (hv : binary32.Finite v) (hpos : 0 < v) (hlow : v ≤ 2 * (value * (10 : ℚ) ^ e))
    (hhigh : value * (10 : ℚ) ^ e ≤ 2 * v) :
    -400 ≤ e + digitCount value ∧ e + digitCount value ≤ 400 := by
  obtain ⟨hfirst, hnext⟩ := leading_bounds hvalue e
  have hleast : (2 : ℚ) ^ (-149 : ℤ) ≤ v := by
    obtain ⟨m, f, hfull, rfl⟩ :=
      BinaryFormat.exists_full (f := binary32) (by decide) (by decide) hv.1 hpos.le
    have hm : (1 : ℚ) ≤ m := by
      have hne : m ≠ 0 := by
        rintro rfl
        rw [Nat.cast_zero, zero_mul] at hpos
        exact lt_irrefl _ hpos
      exact_mod_cast Nat.pos_of_ne_zero hne
    have hunit : (2 : ℚ) ^ (-149 : ℤ) ≤ (2 : ℚ) ^ f := zpow_le_zpow_right₀ one_le_two hfull.2.1
    exact hunit.trans (le_mul_of_one_le_left (zpow_pos two_pos _).le hm)
  have hlargest : v < (2 : ℚ) ^ (128 : ℤ) := (le_abs_self v).trans_lt hv.2
  constructor
  · by_contra hsmall
    have hpow : (10 : ℚ) ^ (e + digitCount value) ≤ (10 : ℚ) ^ (-100 : ℤ) :=
      zpow_le_zpow_right₀ (by norm_num) (by omega)
    have hfar : 2 * (10 : ℚ) ^ (-100 : ℤ) < (2 : ℚ) ^ (-149 : ℤ) := by norm_num
    linarith
  · by_contra hlarge
    have hpow : (10 : ℚ) ^ (100 : ℤ) ≤ (10 : ℚ) ^ (e + digitCount value - 1) :=
      zpow_le_zpow_right₀ (by norm_num) (by omega)
    have hfar : 2 * (2 : ℚ) ^ (128 : ℤ) < (10 : ℚ) ^ (100 : ℤ) := by norm_num
    linarith

namespace FloatDatum

variable {count : ℕ} {negative : Bool} {m : ℕ} {e : ℤ}

/-- The text of so many digits is a sign and digits that spell the rounding of the number, which is
no less than half of it. -/
theorem generalText_parts (hcount : 0 < count) (negative : Bool) (m : ℕ) (e : ℤ) :
    ∃ p : DigitParts, generalText count negative m e = signText negative ++ p.text ∧
      (decimalGrid count).RoundsTo (magnitude m e) p.value ∧ magnitude m e ≤ 2 * p.value := by
  rcases Nat.eq_zero_or_pos m with rfl | hm
  · refine ⟨⟨"0", none, none, List.cons_ne_nil _ _, by decide, nofun⟩, rfl, ?_⟩
    have hzero : Text.decimal "0" = 0 := rfl
    simp only [DigitParts.value, DigitParts.places, Option.getD_none, List.append_nil, hzero,
      magnitude_zero, Nat.cast_zero, zero_mul, mul_zero]
    exact ⟨(Grid.holds_zero (by decide : 0 < 10)).roundsTo, le_rfl⟩
  · rcases hscale : scaleRatio 2 m 1 e with ⟨n, d⟩
    obtain ⟨hd, hratio⟩ := scaleRatio_magnitude hscale
    have hn := scaleRatio_num_pos hm hscale
    obtain ⟨hfull, hdecimal, herror⟩ := Decimal.significant_spec hcount hn hd
    have hdigits : 0 < (Decimal.significant count n d).digits :=
      lt_of_lt_of_le (by positivity) hfull.1
    obtain ⟨p, htext, hvalue⟩ := Decimal.layout_parts count hdigits
    rw [hratio, ← hvalue] at hdecimal herror
    refine ⟨p, ?_, hdecimal, ?_⟩
    · simp only [generalText, if_neg hm.ne', hscale, htext]
    · have hone : (1 : ℚ) ≤ 10 ^ (count - 1) := one_le_pow₀ (by norm_num)
      have hscaled := le_mul_of_one_le_right (abs_nonneg (magnitude m e - p.value)) hone
      have hoff := le_abs_self (magnitude m e - p.value)
      linarith

/-- An attempt succeeds if and only if its text is read as the number again. -/
theorem reading_restores_iff (hcount : 0 < count) (hfinite : binary32.Finite (magnitude m e)) :
    Restores ((Numeral.float? (generalText count negative m e)).bind binary32.round?) negative m e ↔
      GivesBack count (magnitude m e) := by
  obtain ⟨p, htext, hdecimal, hhalf⟩ := generalText_parts hcount negative m e
  have hnonneg : 0 ≤ magnitude m e := by
    rw [magnitude]
    positivity
  rw [htext, p.float?_text, Option.bind_some, givesBack_iff hdecimal]
  generalize hvalue : (p.whole ++ p.places).decimal = value
  generalize hexponent : p.exponent.getD 0 - p.places.length = exponent
  have hspelled : p.value = value * (10 : ℚ) ^ exponent := by
    rw [← hvalue, ← hexponent]
    rfl
  rw [hspelled] at hdecimal hhalf ⊢
  rcases eq_or_ne value 0 with rfl | hne
  · have hzero : magnitude m e = 0 := by
      rw [Nat.cast_zero, zero_mul, mul_zero] at hhalf
      exact le_antisymm hhalf hnonneg
    have hscaled : Numeral.scaled negative 0 exponent = .finite negative 0 0 := by
      rw [Numeral.scaled]
      exact if_pos (.inl rfl)
    rw [← givesBack_iff hdecimal, hscaled, round?_restores_iff, magnitude_zero, hzero]
    exact iff_of_true binary32.readsAs_zero (givesBack_zero count)
  · have hpos : 0 < magnitude m e := by
      refine lt_of_le_of_ne hnonneg fun hzero => ?_
      rw [← hzero] at hdecimal
      have hsame := hdecimal.unique (Grid.holds_zero (by decide : 0 < 10)).roundsTo
      have hunit : (10 : ℚ) ^ exponent ≠ 0 := zpow_ne_zero _ (by norm_num)
      rw [mul_eq_zero, Nat.cast_eq_zero] at hsame
      exact hsame.elim hne hunit
    have hdouble := hdecimal.abs_le_two_mul (by decide : 0 < 10)
    rw [abs_of_pos hpos, abs_of_nonneg (by positivity)] at hdouble
    obtain ⟨hlow, hhigh⟩ := leading_of_finite hne hfinite hpos hhalf hdouble
    rcases hscale : scaleRatio 10 value 1 exponent with ⟨n, d⟩
    have hd := scaleRatio_pos (by decide : 0 < 10) value one_pos exponent
    have hratio := scaleRatio_div (by decide : 0 < 10) value 1 exponent
    rw [hscale, Nat.cast_one, div_one] at hratio
    rw [hscale] at hd
    rw [Numeral.scaled_eq negative hne hscale hlow hhigh, readSingle?_restores_iff hd]
    exact iff_of_eq (by rw [hratio]; norm_cast)

end FloatDatum

end JniHeader
