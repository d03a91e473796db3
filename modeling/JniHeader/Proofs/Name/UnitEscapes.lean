import JniHeader.Proofs.Name.Mangling
import JniHeader.Proofs.Text.Utf8

/-!
# Escapes unit by unit

The alphabets of mangled names and of signatures are defined on 16-bit units: each unit has
an escape of its own, and a text is written by the escapes of its units in their order. So
a supplementary code point is written like the two surrogates that it consists of, and a
name that has been read from a class file like the units that stand there.
-/
namespace JniHeader

/-- The upper-case hexadecimal digit of a value. -/
def hexDigit (d : ℕ) : CodePoint := ("0123456789ABCDEF" : Text).getD d default

/-- The four hexadecimal digits of a unit. -/
def unitDigits (u : UInt16) : Text :=
  [hexDigit (u.toNat / 0x1000), hexDigit (u.toNat / 0x100 % 0x10), hexDigit (u.toNat / 0x10 % 0x10),
    hexDigit (u.toNat % 0x10)]

/-- The unit is that of an ASCII letter or digit. -/
def IsAlphanumericUnit (u : UInt16) : Prop :=
  '0'.toNat ≤ u.toNat ∧ u.toNat ≤ '9'.toNat ∨ 'A'.toNat ≤ u.toNat ∧ u.toNat ≤ 'Z'.toNat ∨
    'a'.toNat ≤ u.toNat ∧ u.toNat ≤ 'z'.toNat

instance (u : UInt16) : Decidable (IsAlphanumericUnit u) :=
  inferInstanceAs (Decidable (_ ∨ _ ∨ _))

/-- How a unit is written in a mangled name. -/
def unitEscape (u : UInt16) : Text :=
  if u.toNat = '_'.toNat then "_1"
  else if u.toNat = ';'.toNat then "_2"
  else if u.toNat = '['.toNat then "_3"
  else if u.toNat = '.'.toNat ∨ u.toNat = '/'.toNat then "_"
  else if IsAlphanumericUnit u then [.ofUnit u]
  else "_0" ++ unitDigits u

/-- How a unit is written in the signature of a comment. -/
def unitSignature (u : UInt16) : Text :=
  if ' '.toNat ≤ u.toNat ∧ u.toNat ≤ '~'.toNat then [.ofUnit u] else "\\u" ++ unitDigits u

theorem upperDigit_eq_hexDigit {d : ℕ} (h : d < 16) : upperDigit d = hexDigit d := by
  have hall : ∀ d : Fin 16, upperDigit d = hexDigit d := by decide
  exact hall ⟨d, h⟩

theorem upperHex_eq_unitDigits (u : UInt16) : Text.upperHex 4 u.toNat = unitDigits u := by
  have hlt : u.toNat < 0x10000 := u.toNat_lt
  have hdigits : Text.upperHex 4 u.toNat = [upperDigit (u.toNat / 16 / 16 / 16 % 16),
      upperDigit (u.toNat / 16 / 16 % 16), upperDigit (u.toNat / 16 % 16),
      upperDigit (u.toNat % 16)] := rfl
  have hfirst : u.toNat / 16 / 16 / 16 % 16 = u.toNat / 0x1000 := by omega
  have hsecond : u.toNat / 16 / 16 % 16 = u.toNat / 0x100 % 0x10 := by omega
  rw [hdigits, hfirst, hsecond, unitDigits, upperDigit_eq_hexDigit (by omega),
    upperDigit_eq_hexDigit (by omega), upperDigit_eq_hexDigit (by omega),
    upperDigit_eq_hexDigit (by omega)]

namespace CodePoint

theorem isAlphanumeric_ofUnit (u : UInt16) :
    ((ofUnit u).isAsciiLetter || (ofUnit u).isAsciiDigit) = true ↔ IsAlphanumericUnit u := by
  change _ ↔ (0x30 ≤ u.toNat ∧ u.toNat ≤ 0x39 ∨ 0x41 ≤ u.toNat ∧ u.toNat ≤ 0x5A ∨
    0x61 ≤ u.toNat ∧ u.toNat ≤ 0x7A)
  have hval : (ofUnit u).val = u.toNat := rfl
  simp only [isAsciiLetter, isAsciiDigit, within, hval, Bool.or_eq_true, Bool.and_eq_true,
    decide_eq_true_eq]
  omega

theorem isPlain_ofUnit (u : UInt16) :
    (ofUnit u).isPlain = true ↔ ' '.toNat ≤ u.toNat ∧ u.toNat ≤ '~'.toNat := by
  rw [isPlain, within, Bool.and_eq_true, decide_eq_true_eq, decide_eq_true_eq]
  rfl

/-- A unit is mangled by its escape. -/
theorem mangled_ofUnit (u : UInt16) : (ofUnit u).mangled = unitEscape u := by
  simp only [mangled, unitEscape, ofUnit_eq_iff, isAlphanumeric_ofUnit, units_ofUnit,
    List.flatMap_singleton, upperHex_eq_unitDigits]

theorem signatureForm_ofUnit (u : UInt16) : (ofUnit u).signatureForm = unitSignature u := by
  simp only [signatureForm, unitSignature, isPlain_ofUnit, units_ofUnit, List.flatMap_singleton,
    upperHex_eq_unitDigits]

/-- A code point is escaped in a signature unit by unit. -/
theorem signatureForm_eq_units (c : CodePoint) :
    c.signatureForm = c.units.flatMap unitSignature := by
  rcases Nat.lt_or_ge c.val 0x10000 with hunit | hsupplementary
  · rw [units_of_lt hunit, List.flatMap_singleton, ← signatureForm_ofUnit, ofUnit_toUInt16 hunit]
  · have hplain : ¬ c.isPlain = true := by
      simp only [isPlain, within, Bool.and_eq_true, decide_eq_true_eq]
      omega
    obtain ⟨high, low, hunits, hhigh, hlow, -⟩ := units_of_ge hsupplementary
    rw [isHighUnit_iff] at hhigh
    rw [isLowUnit_iff] at hlow
    -- Both surrogates lie beyond the plain units, so each has digits for its form.
    have hhigh' : unitSignature high = "\\u" ++ unitDigits high := by
      rw [unitSignature, if_neg]
      change ¬ (0x20 ≤ high.toNat ∧ high.toNat ≤ 0x7E)
      omega
    have hlow' : unitSignature low = "\\u" ++ unitDigits low := by
      rw [unitSignature, if_neg]
      change ¬ (0x20 ≤ low.toNat ∧ low.toNat ≤ 0x7E)
      omega
    rw [signatureForm, if_neg hplain, hunits]
    simp only [List.flatMap_cons, List.flatMap_nil, upperHex_eq_unitDigits, hhigh', hlow']

end CodePoint

theorem mangle_eq_unitEscapes (t : Text) : mangle t = t.units.flatMap unitEscape := by
  rw [mangle_eq_mangledUnits, mangledUnits]
  simp only [CodePoint.mangled_ofUnit]

theorem escapeSignature_eq_unitSignatures (t : Text) :
    escapeSignature t = t.units.flatMap unitSignature := by
  rw [escapeSignature, Text.units, List.flatMap_assoc]
  apply List.flatMap_congr
  intro c _
  exact c.signatureForm_eq_units

/-- A supplementary code point in a text has the units of its two surrogates. -/
theorem units_append_pair {high low : UInt16} (hhigh : isHighUnit high = true)
    (hlow : isLowUnit low = true) (s t : Text) :
    Text.units (s ++ .ofPair high low :: t) =
      Text.units (s ++ .ofUnit high :: .ofUnit low :: t) := by
  rw [Text.units_append, Text.units_append, Text.units_cons, Text.units_cons, Text.units_cons,
    CodePoint.units_ofPair hhigh hlow, CodePoint.units_ofUnit, CodePoint.units_ofUnit]
  rfl

/-- Names and signatures are written unit by unit. A supplementary code point, which is that of two
surrogates, may stand for these and they for it, and a name that has been read from its bytes is
written, in any part of a symbol, as its units are. -/
theorem mangle_unit_by_unit :
    (∀ t, mangle t = t.units.flatMap unitEscape) ∧
    (∀ t, escapeSignature t = t.units.flatMap unitSignature) ∧
    (∀ c : CodePoint, 0x10000 ≤ c.val → ∃ high low,
      isHighUnit high = true ∧ isLowUnit low = true ∧ c = .ofPair high low) ∧
    (∀ high low, isHighUnit high = true → isLowUnit low = true → ∀ s t : Text,
      mangle (s ++ .ofPair high low :: t) = mangle (s ++ .ofUnit high :: .ofUnit low :: t) ∧
      escapeSignature (s ++ .ofPair high low :: t) =
        escapeSignature (s ++ .ofUnit high :: .ofUnit low :: t)) ∧
    ∀ us : List UInt16, ∃ t, ModifiedUtf8.decode (ModifiedUtf8.encode us) = .ok t ∧
      mangle t = us.flatMap unitEscape ∧ escapeSignature t = us.flatMap unitSignature ∧
      ∀ s : Text, s.units = us → ∀ className method arguments,
        shortSymbol t method = shortSymbol s method ∧
        shortSymbol className t = shortSymbol className s ∧
        longSymbol className t arguments = longSymbol className s arguments ∧
        longSymbol className method t = longSymbol className method s := by
  refine ⟨mangle_eq_unitEscapes, escapeSignature_eq_unitSignatures, ?_, ?_, ?_⟩
  · intro c hc
    obtain ⟨high, low, -, hhigh, hlow, hpair⟩ := CodePoint.units_of_ge hc
    exact ⟨high, low, hhigh, hlow, hpair.symm⟩
  · intro high low hhigh hlow s t
    rw [mangle_eq_unitEscapes, mangle_eq_unitEscapes, escapeSignature_eq_unitSignatures,
      escapeSignature_eq_unitSignatures, units_append_pair hhigh hlow]
    exact ⟨rfl, rfl⟩
  · intro us
    have hunits := Text.units_ofUnits us
    refine ⟨Text.ofUnits us, ModifiedUtf8.decode_encode us, ?_, ?_, ?_⟩
    · rw [mangle_eq_unitEscapes, hunits]
    · rw [escapeSignature_eq_unitSignatures, hunits]
    · intro s hs className method arguments
      have hmangle : mangle (Text.ofUnits us) = mangle s := by
        rw [mangle_eq_unitEscapes, mangle_eq_unitEscapes, hunits, hs]
      simp only [longSymbol, shortSymbol, hmangle, and_self]

/-- A supplementary code point after a separator and before an underscore, and its surrogates. -/
theorem mangle_unit_by_unit_pair :
    let whole : Text := [0x2F, 0x1F600, 0x5F].map .ofNat
    let units : List UInt16 := [0x2F, 0xD83D, 0xDE00, 0x5F]
    let split : Text := units.map .ofUnit
    isHighUnit 0xD83D = true ∧ isLowUnit 0xDE00 = true ∧ whole ≠ split ∧
      mangle whole = "__0D83D_0DE00_1" ∧ mangle split = "__0D83D_0DE00_1" ∧
      escapeSignature split = escapeSignature whole ∧
      ∃ t, ModifiedUtf8.decode (ModifiedUtf8.encode units) = .ok t ∧
        shortSymbol "A" t = shortSymbol "A" split := by
  intro whole units split
  have hhigh : isHighUnit 0xD83D = true := by decide
  have hlow : isLowUnit 0xDE00 = true := by decide
  obtain ⟨hmangle, -, -, hpair, hdecode⟩ := mangle_unit_by_unit
  obtain ⟨hname, hsignature⟩ := hpair 0xD83D 0xDE00 hhigh hlow [.ofNat 0x2F] [.ofNat 0x5F]
  have hwhole : mangle whole = "__0D83D_0DE00_1" := by
    rw [hmangle]
    decide
  obtain ⟨t, ht, -, -, hsymbol⟩ := hdecode units
  have hsplit : split.units = units := by decide
  refine ⟨hhigh, hlow, by decide, hwhole, ?_, ?_, t, ht, (hsymbol split hsplit "A" [] []).2.1⟩
  · rw [← hwhole]
    exact hname.symm
  · exact hsignature.symm

end JniHeader
