import JniHeader.Header.Basic
import JniHeader.Proofs.Meta.ExportedConstants
import JniHeader.Proofs.Name.HeaderFile
import JniHeader.Proofs.Text.Digits

/-!
# The alphabet of headers

Names, descriptors and constants may hold any code point, and each comes into a header
through an escape of its own: mangling, the escape of signatures, the literals of numbers
and those of strings. All that comes out is printable ASCII. Of what stands outside
comments, a slash or a quote can only come from the quotient that is written for an
infinite or undefined number, or from a string literal.
-/
namespace JniHeader

/-- Printable and quiet. -/
def CodePoint.isInert (c : CodePoint) : Bool := c.isPlain && c.isQuiet

namespace CodePoint

variable {c : CodePoint}

theorem isPlain_of_isInert (h : c.isInert = true) : c.isPlain = true := by
  rw [isInert, Bool.and_eq_true] at h
  exact h.1

theorem isQuiet_of_isInert (h : c.isInert = true) : c.isQuiet = true := by
  rw [isInert, Bool.and_eq_true] at h
  exact h.2

/-- What comes after the slash in ASCII is inert. -/
theorem isInert_of_val (h : 0x30 ≤ c.val ∧ c.val ≤ 0x7A) : c.isInert = true := by
  have hplain : c.isPlain = true := by
    rw [isPlain, within, Bool.and_eq_true, decide_eq_true_eq, decide_eq_true_eq]
    omega
  have hslash : c ≠ ofChar '/' := fun he => absurd ((eq_ofChar_iff c '/').1 he ▸ h.1) (by decide)
  have hquote : c ≠ ofChar '"' := fun he => absurd ((eq_ofChar_iff c '"').1 he ▸ h.1) (by decide)
  simp [isInert, isQuiet, hplain, hslash, hquote]

theorem isInert_of_isAsciiDigit (h : c.isAsciiDigit = true) : c.isInert = true := by
  rw [isAsciiDigit, within, Bool.and_eq_true, decide_eq_true_eq, decide_eq_true_eq] at h
  exact isInert_of_val (by omega)

end CodePoint

namespace Text

theorem only_ofNat_inert (n : ℕ) : (ofNat n).Only CodePoint.isInert :=
  (only_ofNat n).mono fun _ => CodePoint.isInert_of_isAsciiDigit

theorem only_ofInt (i : ℤ) : (ofInt i).Only CodePoint.isInert := by
  cases i with
  | ofNat n => exact only_ofNat_inert n
  | negSucc n => exact only_cons.2 ⟨by decide, only_ofNat_inert (n + 1)⟩

/-- Three octal digits. -/
theorem only_octal (n : ℕ) : (octal n).Only CodePoint.isAsciiDigit := by
  intro c hc
  obtain ⟨k, rfl⟩ := mem_fixedDigits hc
  have hk : k % 8 < 8 := Nat.mod_lt k (by decide)
  have hval : (upperDigit (k % 8)).val = 0x30 + k % 8 := by
    rw [upperDigit, if_pos (by omega), CodePoint.val_ofNat (by omega)]
  rw [CodePoint.isAsciiDigit, CodePoint.within, Bool.and_eq_true, decide_eq_true_eq,
    decide_eq_true_eq, hval]
  omega

theorem only_upperHex (width n : ℕ) : (upperHex width n).Only CodePoint.isInert := by
  intro c hc
  obtain ⟨k, rfl⟩ := mem_fixedDigits hc
  exact CodePoint.isInert_of_val (val_upperDigit_mem (Nat.mod_lt k (by decide)))

end Text

theorem only_mangle (t : Text) : (mangle t).Only CodePoint.isInert :=
  fun _ hc => CodePoint.isInert_of_val (val_of_mem_mangle hc)

theorem only_escapeSignature (t : Text) : (escapeSignature t).Only CodePoint.isPlain := by
  refine Text.only_flatMap fun c _ => ?_
  rw [CodePoint.signatureForm]
  split_ifs with hplain
  · exact Text.only_singleton.2 hplain
  · refine Text.only_flatMap fun u _ => Text.Only.append (by decide) ?_
    exact (Text.only_upperHex 4 u.toNat).mono fun _ => CodePoint.isPlain_of_isInert

theorem StringLiteral.only_write (t : Text) : (write t).Only CodePoint.isPlain := by
  refine Text.Only.append (Text.Only.append (by decide) ?_) (by decide)
  refine Text.only_flatMap fun c _ => ?_
  rw [escape]
  split_ifs with _ _ _ _ _ hplain
  · decide
  · decide
  · decide
  · decide
  · decide
  · exact Text.only_singleton.2 hplain
  · refine Text.only_flatMap fun b _ => Text.only_cons.2 ⟨by decide, ?_⟩
    exact (Text.only_octal b.toNat).mono fun _ hc =>
      CodePoint.isPlain_of_isInert (CodePoint.isInert_of_isAsciiDigit hc)

namespace Decimal

theorem only_plain (d : Decimal) : d.plain.1.Only CodePoint.isInert := by
  refine (Text.only_ofNat_inert d.digits).of_subset fun c hc => ?_
  have hmem := (List.dropWhile_sublist _).subset (List.mem_reverse.1 hc)
  exact List.mem_reverse.1 hmem

theorem only_exponentText (e : ℤ) : (exponentText e).Only CodePoint.isInert := by
  have hdigits := Text.only_ofNat_inert e.natAbs
  unfold exponentText
  refine Text.Only.append (Text.Only.append (by decide) ?_) ?_
  · split_ifs <;> decide
  · split_ifs
    · exact Text.only_cons.2 ⟨by decide, hdigits⟩
    · exact hdigits

theorem only_zeros (n : ℕ) :
    Text.Only CodePoint.isInert (List.replicate n (CodePoint.ofChar '0')) := by
  intro c hc
  obtain rfl := List.eq_of_mem_replicate hc
  decide

theorem only_layout (limit : ℤ) (d : Decimal) : (d.layout limit).Only CodePoint.isInert := by
  have hdigits := d.only_plain
  unfold layout
  generalize d.plain = p at hdigits ⊢
  obtain ⟨digits, power⟩ := p
  have hexponent := only_exponentText power
  have hpoint : Text.Only CodePoint.isInert "." := by decide
  dsimp only at hdigits ⊢
  split_ifs
  · split
    · next first second more =>
        obtain ⟨hfirst, hmore⟩ := Text.only_cons.1 hdigits
        exact (((Text.only_singleton.2 hfirst).append hpoint).append hmore).append hexponent
    · exact hdigits.append hexponent
  · exact (Text.Only.append (by decide) (only_zeros _)).append hdigits
  · exact hdigits.append (only_zeros _)
  · refine (Text.Only.append ?_ hpoint).append ?_
    · exact hdigits.of_subset (List.take_subset _ _)
    · exact hdigits.of_subset (List.drop_subset _ _)

end Decimal

namespace FloatDatum

theorem only_signText (negative : Bool) : (signText negative).Only CodePoint.isInert := by
  cases negative <;> decide

theorem only_withPoint {t : Text} (h : t.Only CodePoint.isInert) :
    (withPoint t).Only CodePoint.isInert := by
  rw [withPoint]
  split_ifs
  · exact h
  · exact h.append (by decide)

theorem only_generalText (count : ℕ) (negative : Bool) (significand : ℕ) (exponent : ℤ) :
    (generalText count negative significand exponent).Only CodePoint.isInert := by
  rw [generalText]
  split_ifs
  · exact (only_signText negative).append (by decide)
  · exact (only_signText negative).append (Decimal.only_layout _ _)

theorem only_shortestText (negative : Bool) (significand : ℕ) (exponent : ℤ) :
    (shortestText negative significand exponent).Only CodePoint.isInert := by
  rw [shortestText]
  split_ifs
  · exact (only_signText negative).append (by decide)
  · exact only_withPoint ((only_signText negative).append (Decimal.only_layout _ _))

theorem only_shortestSingleText (negative : Bool) (significand : ℕ) (exponent : ℤ) :
    (shortestSingleText negative significand exponent).Only CodePoint.isInert := by
  unfold shortestSingleText
  dsimp only
  split
  · exact only_generalText _ _ _ _
  · exact only_shortestText _ _ _

end FloatDatum

/-- The quotients that stand for the numbers without digits. -/
def quotientLiterals : List Text :=
  ["(0.0f/0.0f)", "(1.0f/0.0f)", "(-1.0f/0.0f)", "(0.0/0.0)", "(1.0/0.0)", "(-1.0/0.0)"]

/-- The forms of literals. -/
inductive LiteralForm : Text → Prop
  | number {t : Text} : t.Only CodePoint.isInert → LiteralForm t
  | quotient {t : Text} : t ∈ quotientLiterals → LiteralForm t
  | string (t : Text) : LiteralForm (StringLiteral.write t)

theorem LiteralForm.plain {t : Text} (h : LiteralForm t) : t.Only CodePoint.isPlain := by
  cases h with
  | number ht => exact ht.mono fun _ => CodePoint.isPlain_of_isInert
  | quotient ht =>
      have hall : ∀ q ∈ quotientLiterals, q.Only CodePoint.isPlain := by decide
      exact hall t ht
  | string t => exact StringLiteral.only_write t

theorem literalForm_single (x : FloatDatum) : LiteralForm (singleLiteral x) := by
  cases x with
  | nan => exact .quotient (by decide)
  | infinite negative => cases negative <;> exact .quotient (by decide)
  | finite negative m e =>
      refine .number (Text.Only.append ?_ (by decide))
      exact FloatDatum.only_withPoint (FloatDatum.only_shortestSingleText negative m e)

theorem literalForm_double (x : FloatDatum) : LiteralForm (doubleLiteral x) := by
  cases x with
  | nan => exact .quotient (by decide)
  | infinite negative => cases negative <;> exact .quotient (by decide)
  | finite negative m e =>
      refine .number (Text.Only.append ?_ (by decide))
      exact FloatDatum.only_withPoint (FloatDatum.only_shortestText negative m e)

/-- A constant whose value fits its type has a literal of one of the forms. -/
theorem Constant.literalForm {c : Constant} {t : Text} (hfits : c.value.Fits c.descriptor)
    (h : c.literal = .ok t) : LiteralForm t := by
  obtain ⟨name, descriptor, value⟩ := c
  cases hfits with
  | integer hdescriptor _ _ =>
      obtain rfl := Except.ok.inj ((literal_integer hdescriptor _).symm.trans h)
      exact .number (Text.only_ofInt _)
  | long _ _ =>
      obtain rfl := Except.ok.inj ((literal_long _).symm.trans h)
      exact .number ((Text.only_ofInt _).append (by decide))
  | single x =>
      obtain rfl := Except.ok.inj ((literal_single x).symm.trans h)
      exact literalForm_single x
  | double x =>
      obtain rfl := Except.ok.inj ((literal_double x).symm.trans h)
      exact literalForm_double x
  | string t =>
      obtain rfl := Except.ok.inj ((literal_string t).symm.trans h)
      exact .string t

theorem Constant.only_macroName {mangled : Text} (h : mangled.Only CodePoint.isInert)
    (c : Constant) : (c.macroName mangled).Only CodePoint.isInert :=
  (h.append (by decide)).append (only_mangle c.name)

theorem NativeType.only_text (t : NativeType) : t.text.Only CodePoint.isInert := by
  cases t with
  | primitive b => cases b <;> decide
  | primitiveArray b => cases b <;> decide
  | _ => decide

theorem only_shortSymbol (className method : Text) :
    (shortSymbol className method).Only CodePoint.isInert :=
  ((Text.Only.append (by decide) (only_mangle className)).append (by decide)).append
    (only_mangle method)

theorem NativeMethod.only_symbol {x : NativeMethod} {className symbol : Text} {overloaded : Bool}
    (h : x.symbol className overloaded = .ok symbol) : symbol.Only CodePoint.isInert := by
  rw [NativeMethod.symbol] at h
  split_ifs at h
  · cases ht : Descriptor.parseMethod x.descriptor with
    | error e =>
        rw [ht] at h
        cases h
    | ok t =>
        rw [ht] at h
        obtain rfl := Except.ok.inj h
        exact ((only_shortSymbol className x.name).append (by decide)).append (only_mangle _)
  · obtain rfl := Except.ok.inj h
    exact only_shortSymbol className x.name

end JniHeader
