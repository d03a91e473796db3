import JniHeader.Proofs.Meta.ExportedConstants
import JniHeader.Proofs.Number.Rereading

/-!
# Literals of single precision

A constant of single precision is written with the fewest digits that give it back,
which are never more than nine. The digits are a decimal of that many significant
places next to the number, and what is written spells this decimal: a sign if there is
one, then a floating constant whose suffix is the one of single precision. It has a
point or an exponent, so that it is no integer even if its digits are whole.
-/
namespace JniHeader

namespace FloatDatum

variable {count : ℕ} {negative : Bool} {m : ℕ} {e : ℤ}

theorem signed_roundsTo {g : Grid} {x y : ℚ} (h : g.RoundsTo x y) :
    g.RoundsTo (signed negative x) (signed negative y) := by
  cases negative with
  | false => exact h
  | true => exact h.neg

/-- A sign in front makes no difference to what is missing behind. -/
theorem withPoint_signText (negative : Bool) (t : Text) :
    withPoint (signText negative ++ t) = signText negative ++ withPoint t := by
  have hpoint : (signText negative).contains (CodePoint.ofChar '.') = false := by
    cases negative <;> decide
  have hexponent : (signText negative).contains (CodePoint.ofChar 'e') = false := by
    cases negative <;> decide
  simp only [withPoint, List.contains_append, hpoint, hexponent, Bool.false_or]
  split_ifs
  · rfl
  · rw [List.append_assoc]

end FloatDatum

namespace Constant

open FloatDatum CNumeral

/-- Every finite number of single precision has a count of digits, from one to nine, that gives it
back when all smaller ones do not; and a count gives it back just if the text with so many digits is
read as the number. Its literal is the text with this count of digits, marked as no integer and as
one of single precision, and this is a floating constant behind a sign, whose value is the number
rounded to so many digits. -/
theorem single_literal_shortest (name : Text) {negative : Bool} {m : ℕ} {e : ℤ}
    (hfinite : binary32.Finite (number negative m e)) :
    ∃ count t body d, 1 ≤ count ∧ count ≤ 9 ∧ GivesBack count (number negative m e) ∧
      (∀ fewer, 1 ≤ fewer → fewer < count → ¬ GivesBack fewer (number negative m e)) ∧
      (∀ k, 1 ≤ k → (GivesBack k (number negative m e) ↔
        Restores ((Numeral.float? (generalText k negative m e)).bind binary32.round?)
          negative m e)) ∧
      (decimalGrid count).RoundsTo (number negative m e) (signed negative d) ∧
      shortestSingleText negative m e = t ∧ t = generalText count negative m e ∧
      literal ⟨name, "F", .float (.finite negative m e)⟩ = .ok (signText negative ++ body) ∧
      signText negative ++ body =
        (if CodePoint.ofChar '.' ∈ t ∨ CodePoint.ofChar 'e' ∈ t then t else t ++ ".0") ++ "f" ∧
      floating? body = some (.single, d) ∧ ¬ body.Only CodePoint.isAlphanumeric := by
  have hmagnitude : binary32.Finite (magnitude m e) := by
    cases negative with
    | false => exact hfinite
    | true =>
        have hneg := hfinite.neg
        rwa [number, signed, if_pos rfl, neg_neg] at hneg
  obtain ⟨count, hone, hnine, hback, hfewer, htext⟩ := exists_shortestSingleText negative hmagnitude
  obtain ⟨p, hparts, hvalue, -⟩ := generalText_parts hone negative m e
  have hmarked := p.pointed_marked
  have hliteral : withPoint (generalText count negative m e) ++ "f" =
      signText negative ++ (p.pointed.text ++ "f") := by
    rw [hparts, withPoint_signText, p.withPoint_text, List.append_assoc]
  refine ⟨count, _, p.pointed.text ++ "f", p.pointed.value, hone, hnine, givesBack_signed.2 hback,
    fun fewer hpos hlt h => hfewer fewer hpos hlt (givesBack_signed.1 h), fun k hk => ?_, ?_, htext,
    rfl, ?_, ?_, floating?_text p.pointed .single hmarked, ?_⟩
  · rw [number, givesBack_signed]
    exact (reading_restores_iff hk hmagnitude).symm
  · rw [p.pointed_value]
    exact signed_roundsTo hvalue
  · rw [literal_single, singleLiteral, floatLiteral, htext, hliteral]
  · rw [← hliteral, withPoint]
    simp only [Bool.or_eq_true, List.contains_iff_mem]
  · exact fun honly => DigitParts.not_only_alphanumeric hmarked (Text.only_append.1 honly).1

/-- The largest number. With four digits it would be rounded up beyond all numbers of single
precision, so that this attempt comes to nothing. -/
theorem single_literal_largest :
    binary32.decode 0x7F7FFFFF = .finite false 16777215 104 ∧
      rereadSingle? 4 false 16777215 104 = none ∧
      literal ⟨"MAX", "F", .float (.finite false 16777215 104)⟩ = .ok "3.4028235e+38f" ∧
      ∃ count d, 1 ≤ count ∧ count ≤ 9 ∧ GivesBack count (number false 16777215 104) ∧
        (decimalGrid count).RoundsTo (number false 16777215 104) (signed false d) ∧
        floating? "3.4028235e+38f" = some (.single, d) := by
  have hdecode : binary32.decode 0x7F7FFFFF = .finite false 16777215 104 := by decide
  have hliteral : literal ⟨"MAX", "F", .float (.finite false 16777215 104)⟩ =
      .ok "3.4028235e+38f" := by decide +kernel
  obtain ⟨count, t, body, d, hone, hnine, hback, -, -, hround, -, -, htext, -, hread, -⟩ :=
    single_literal_shortest "MAX" (finite_of_decode hdecode)
  rw [hliteral] at htext
  have hbody : body = "3.4028235e+38f" := (Except.ok.inj htext).symm
  rw [hbody] at hread
  exact ⟨hdecode, by decide +kernel, hliteral, count, d, hone, hnine, hback, hround, hread⟩

example : singleLiteral (.finite true 1 (-149)) = "-1e-45f" := by decide +kernel

end Constant

end JniHeader
