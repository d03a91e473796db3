import JniHeader.Name.Mangling
import JniHeader.Proofs.Text.Utf16
import Mathlib.Algebra.Group.Nat.Defs

/-!
# Reading mangled names

Mangling writes a text unit by unit. A lone underscore stands for a separator and
an underscore before one of the digits 0 to 3 opens an escape, so units are read
back, up to the choice between the two separators, if no separator stands before
such a digit. Joined texts of that kind with one mangled form are equal up to
their separators.
-/
namespace JniHeader

namespace CodePoint

theorem eq_ofChar_iff (c : CodePoint) (x : Char) : c = ofChar x ↔ c.val = x.toNat := by
  constructor
  · intro h
    rw [h]
    rfl
  · intro h
    exact CodePoint.ext h

/-- The separators of names. -/
def IsSeparator (c : CodePoint) : Prop := c = '.' ∨ c = '/'

/-- The digits that an underscore makes an escape of. -/
def IsEscapeDigit (c : CodePoint) : Prop := 0x30 ≤ c.val ∧ c.val ≤ 0x33

instance (c : CodePoint) : Decidable c.IsSeparator :=
  inferInstanceAs (Decidable (c = CodePoint.ofChar '.' ∨ c = CodePoint.ofChar '/'))

instance (c : CodePoint) : Decidable c.IsEscapeDigit :=
  inferInstanceAs (Decidable (0x30 ≤ c.val ∧ c.val ≤ 0x33))

theorem mangled_of_ge {c : CodePoint} (h : 0x80 ≤ c.val) :
    c.mangled = c.units.flatMap fun u => ("_0" : Text) ++ Text.upperHex 4 u.toNat := by
  have hne : ∀ x : Char, x.toNat < 0x80 → ¬ c = ofChar x := by
    intro x hx hc
    rw [eq_ofChar_iff] at hc
    omega
  have hletter : ¬ (c.isAsciiLetter || c.isAsciiDigit) = true := by
    simp only [isAsciiLetter, isAsciiDigit, within, Bool.or_eq_true, Bool.and_eq_true,
      decide_eq_true_eq]
    omega
  rw [mangled, if_neg (hne '_' (by decide)), if_neg (hne ';' (by decide)),
    if_neg (hne '[' (by decide)), if_neg (not_or.2 ⟨hne '.' (by decide), hne '/' (by decide)⟩),
    if_neg hletter]

/-- A code point is mangled unit by unit. -/
theorem mangled_eq_units (c : CodePoint) :
    c.mangled = c.units.flatMap fun u => (ofUnit u).mangled := by
  by_cases hc : c.val < 0x10000
  · rw [units_of_lt hc, List.flatMap_singleton, ofUnit_toUInt16 hc]
  · obtain ⟨high, low, hunits, hhigh, hlow, -⟩ := units_of_ge (Nat.le_of_not_lt hc)
    rw [isHighUnit_iff] at hhigh
    rw [isLowUnit_iff] at hlow
    have hhigh' : 0x80 ≤ (ofUnit high).val := by change 0x80 ≤ high.toNat; omega
    have hlow' : 0x80 ≤ (ofUnit low).val := by change 0x80 ≤ low.toNat; omega
    rw [mangled_of_ge (by omega), hunits]
    simp only [List.flatMap_cons, List.flatMap_nil, mangled_of_ge hhigh', mangled_of_ge hlow',
      units_ofUnit, List.append_nil]

end CodePoint

theorem mangle_append (s t : Text) : mangle (s ++ t) = mangle s ++ mangle t :=
  List.flatMap_append

def mangledUnits (us : List UInt16) : Text := us.flatMap fun u => (CodePoint.ofUnit u).mangled

theorem mangledUnits_cons (u : UInt16) (us : List UInt16) :
    mangledUnits (u :: us) = (CodePoint.ofUnit u).mangled ++ mangledUnits us := rfl

theorem mangle_eq_mangledUnits (t : Text) : mangle t = mangledUnits t.units := by
  rw [mangle, mangledUnits, Text.units, List.flatMap_assoc]
  apply List.flatMap_congr
  intro c _
  exact c.mangled_eq_units

/-- The value of an upper-case hexadecimal digit. -/
def hexDigitValue (c : CodePoint) : ℕ := if c.val < 0x41 then c.val - 0x30 else c.val - 0x41 + 10

def hexValue (t : Text) : ℕ := t.foldl (fun n c => n * 16 + hexDigitValue c) 0

theorem hexDigitValue_upperDigit {d : ℕ} (h : d < 16) : hexDigitValue (upperDigit d) = d := by
  unfold hexDigitValue upperDigit
  split_ifs with hd hval hval
  · rw [CodePoint.val_ofNat (by omega)]
    omega
  · rw [CodePoint.val_ofNat (by omega)] at hval
    omega
  · rw [CodePoint.val_ofNat (by omega)] at hval
    omega
  · rw [CodePoint.val_ofNat (by omega)]
    omega

theorem hexValue_upperHex (width n : ℕ) : hexValue (Text.upperHex width n) = n % 16 ^ width := by
  unfold Text.upperHex
  induction width generalizing n with
  | zero => simp [Text.fixedDigits, hexValue, Nat.mod_one]
  | succ width ih =>
      have hfold : hexValue (Text.fixedDigits upperDigit 16 (width + 1) n) =
          hexValue (Text.fixedDigits upperDigit 16 width (n / 16)) * 16 + n % 16 := by
        simp only [Text.fixedDigits, hexValue, List.foldl_append, List.foldl_cons, List.foldl_nil,
          hexDigitValue_upperDigit (Nat.mod_lt n (by decide : 16 > 0))]
      rw [hfold, ih, Nat.pow_succ, Nat.mul_comm (16 ^ width) 16, Nat.mod_mul]
      omega

/-- Read one unit from the front of a mangled text; a separator is read as a slash. -/
def readUnit : Text → Option (UInt16 × Text)
  | [] => none
  | c :: rest =>
    if c ≠ '_' then some (c.val.toUInt16, rest)
    else if rest.head? = some (CodePoint.ofChar '1') then some (0x5F, rest.tail)
    else if rest.head? = some (CodePoint.ofChar '2') then some (0x3B, rest.tail)
    else if rest.head? = some (CodePoint.ofChar '3') then some (0x5B, rest.tail)
    else if rest.head? = some (CodePoint.ofChar '0') then
      some ((hexValue (rest.tail.take 4)).toUInt16, rest.tail.drop 4)
    else some (0x2F, rest)

/-- The unit with a slash in place of a dot. -/
def slashUnit (u : UInt16) : UInt16 := if u = 0x2E then 0x2F else u

theorem ofUnit_eq_iff (u : UInt16) (x : Char) :
    CodePoint.ofUnit u = CodePoint.ofChar x ↔ u.toNat = x.toNat :=
  CodePoint.eq_ofChar_iff _ _

theorem slashUnit_of_ne {u : UInt16} (h : ¬ CodePoint.ofUnit u = CodePoint.ofChar '.') :
    slashUnit u = u := by
  rw [slashUnit, if_neg]
  intro hu
  apply h
  rw [hu]
  rfl

theorem readUnit_separator {rest : Text} (hrest : ∀ d ∈ rest.head?, ¬ d.IsEscapeDigit) :
    readUnit (CodePoint.ofChar '_' :: rest) = some (0x2F, rest) := by
  have hdigit : ∀ x : Char, (CodePoint.ofChar x).IsEscapeDigit →
      ¬ rest.head? = some (CodePoint.ofChar x) := by
    intro x hx hhead
    exact hrest _ hhead hx
  rw [readUnit, if_neg (by simp), if_neg (hdigit '1' (by decide)), if_neg (hdigit '2' (by decide)),
    if_neg (hdigit '3' (by decide)), if_neg (hdigit '0' (by decide))]

theorem readUnit_hex (u : UInt16) (rest : Text) :
    readUnit (("_0" : Text) ++ Text.upperHex 4 u.toNat ++ rest) = some (u, rest) := by
  have hlength : (Text.upperHex 4 u.toNat).length = 4 := Text.length_fixedDigits _ _ _ _
  have hlt : u.toNat < 16 ^ 4 := u.toNat_lt
  have hvalue : hexValue (Text.upperHex 4 u.toNat) = u.toNat := by
    rw [hexValue_upperHex, Nat.mod_eq_of_lt hlt]
  have hform : (("_0" : Text) ++ Text.upperHex 4 u.toNat ++ rest) =
      CodePoint.ofChar '_' :: CodePoint.ofChar '0' :: (Text.upperHex 4 u.toNat ++ rest) := rfl
  have hother : ∀ x : Char, x ≠ '0' →
      ¬ some (CodePoint.ofChar '0') = some (CodePoint.ofChar x) := by
    intro x hx h
    have hval := (CodePoint.eq_ofChar_iff _ _).1 (Option.some.inj h)
    exact hx (Char.ext (UInt32.toNat_inj.1 hval.symm))
  rw [hform, readUnit]
  simp only [List.head?_cons, List.tail_cons]
  rw [if_neg (by simp), if_neg (hother '1' (by decide)), if_neg (hother '2' (by decide)),
    if_neg (hother '3' (by decide)), if_pos trivial, List.take_left' hlength,
    List.drop_left' hlength, hvalue]
  change some (UInt16.ofNat u.toNat, rest) = some (u, rest)
  rw [UInt16.ofNat_toNat]

theorem readUnit_plain (u : UInt16) (rest : Text)
    (hu : ¬ CodePoint.ofUnit u = CodePoint.ofChar '_') :
    readUnit (CodePoint.ofUnit u :: rest) = some (u, rest) := by
  rw [readUnit, if_pos hu]
  change some (UInt16.ofNat u.toNat, rest) = some (u, rest)
  rw [UInt16.ofNat_toNat]

theorem toNat_of_ofUnit_eq {u : UInt16} {x : Char} (h : CodePoint.ofUnit u = CodePoint.ofChar x) :
    u = UInt16.ofNat x.toNat := by
  rw [ofUnit_eq_iff] at h
  rw [← h, UInt16.ofNat_toNat]

/-- A mangled unit is read back, separators as slashes, if no separator meets an escape digit. -/
theorem readUnit_mangled (u : UInt16) (rest : Text)
    (hrest : (CodePoint.ofUnit u).IsSeparator → ∀ d ∈ rest.head?, ¬ d.IsEscapeDigit) :
    readUnit ((CodePoint.ofUnit u).mangled ++ rest) = some (slashUnit u, rest) := by
  unfold CodePoint.mangled
  split_ifs with hunderscore hsemicolon hbracket hseparator hplain
  · rw [toNat_of_ofUnit_eq hunderscore]
    rfl
  · rw [toNat_of_ofUnit_eq hsemicolon]
    rfl
  · rw [toNat_of_ofUnit_eq hbracket]
    rfl
  · have hslash : slashUnit u = 0x2F := by
      rcases hseparator with hdot | hslash
      · rw [toNat_of_ofUnit_eq hdot]
        rfl
      · rw [toNat_of_ofUnit_eq hslash]
        rfl
    rw [hslash]
    exact readUnit_separator (hrest hseparator)
  · rw [slashUnit_of_ne (fun hdot => hseparator (Or.inl hdot))]
    exact readUnit_plain u rest hunderscore
  · rw [slashUnit_of_ne (fun hdot => hseparator (Or.inl hdot)), CodePoint.units_ofUnit,
      List.flatMap_singleton]
    exact readUnit_hex u rest

/-- A mangled code point starts with itself or with an underscore. -/
theorem CodePoint.head_mangled (c : CodePoint) {d : CodePoint} (rest : Text)
    (hd : d ∈ (c.mangled ++ rest).head?) : d = c ∨ d = ofChar '_' := by
  have hcases : ∃ tail, c.mangled = c :: tail ∨ c.mangled = ofChar '_' :: tail := by
    unfold CodePoint.mangled
    split_ifs with hunderscore hsemicolon hbracket hseparator hplain
    · exact ⟨_, Or.inr rfl⟩
    · exact ⟨_, Or.inr rfl⟩
    · exact ⟨_, Or.inr rfl⟩
    · exact ⟨_, Or.inr rfl⟩
    · exact ⟨_, Or.inl rfl⟩
    · obtain ⟨u, us, hunits⟩ := List.exists_cons_of_ne_nil c.units_ne_nil
      rw [hunits]
      exact ⟨_, Or.inr rfl⟩
  obtain ⟨tail, htail⟩ := hcases
  rcases htail with htail | htail
  · left
    rw [htail] at hd
    exact (Option.some.inj hd).symm
  · right
    rw [htail] at hd
    exact (Option.some.inj hd).symm

/-- No separator stands before an escape digit. -/
def Text.Guarded (t : Text) : Prop := t.IsChain fun c d => c.IsSeparator → ¬ d.IsEscapeDigit

theorem CodePoint.IsSeparator.val {c : CodePoint} (h : c.IsSeparator) :
    c.val = 0x2E ∨ c.val = 0x2F := by
  rcases h with h | h
  · left
    rw [h]
    rfl
  · right
    rw [h]
    rfl

theorem not_isSeparator_of_ge {u : UInt16} (h : 0x80 ≤ u.toNat) :
    ¬ (CodePoint.ofUnit u).IsSeparator := by
  intro hseparator
  have hval : u.toNat = 0x2E ∨ u.toNat = 0x2F := hseparator.val
  omega

theorem not_isEscapeDigit_of_high {u : UInt16} (h : isHighUnit u = true) :
    ¬ (CodePoint.ofUnit u).IsEscapeDigit := by
  intro hdigit
  rw [isHighUnit_iff] at h
  have hval : (CodePoint.ofUnit u).val ≤ 0x33 := hdigit.2
  change u.toNat ≤ 0x33 at hval
  omega

def GuardedUnits (us : List UInt16) : Prop :=
  us.IsChain fun u v => (CodePoint.ofUnit u).IsSeparator → ¬ (CodePoint.ofUnit v).IsEscapeDigit

theorem Text.Guarded.units {t : Text} (ht : t.Guarded) : GuardedUnits (Text.units t) := by
  induction t with
  | nil => exact List.isChain_nil
  | cons c t ih =>
      obtain ⟨hc, ht⟩ := List.isChain_cons.1 ht
      rw [Text.units_cons]
      by_cases hlt : c.val < 0x10000
      · rw [CodePoint.units_of_lt hlt, List.singleton_append, GuardedUnits, List.isChain_cons]
        refine ⟨?_, ih ht⟩
        intro v hv hseparator
        rw [CodePoint.ofUnit_toUInt16 hlt] at hseparator
        obtain ⟨d, hd, hunit⟩ := Text.head_units hv
        rcases hunit with rfl | hhigh
        · exact hc _ hd hseparator
        · exact not_isEscapeDigit_of_high hhigh
      · obtain ⟨high, low, hunits, hhigh, hlow, -⟩ :=
          CodePoint.units_of_ge (Nat.le_of_not_lt hlt)
        rw [isHighUnit_iff] at hhigh
        rw [isLowUnit_iff] at hlow
        have hhigh' := not_isSeparator_of_ge (show 0x80 ≤ high.toNat by omega)
        have hlow' := not_isSeparator_of_ge (show 0x80 ≤ low.toNat by omega)
        rw [hunits, List.cons_append, List.singleton_append, GuardedUnits, List.isChain_cons,
          List.isChain_cons]
        exact ⟨fun _ _ h => absurd h hhigh', fun _ _ h => absurd h hlow', ih ht⟩

theorem readUnit_mangledUnits {u : UInt16} {us : List UInt16} (h : GuardedUnits (u :: us)) :
    readUnit (mangledUnits (u :: us)) = some (slashUnit u, mangledUnits us) := by
  refine readUnit_mangled u (mangledUnits us) ?_
  intro hseparator d hd
  cases us with
  | nil => cases hd
  | cons v us =>
      rw [mangledUnits_cons] at hd
      rcases CodePoint.head_mangled _ _ hd with rfl | rfl
      · exact (List.isChain_cons.1 h).1 v rfl hseparator
      · intro hdigit
        exact absurd hdigit.2 (by decide)

/-- Guarded units with one mangled form agree up to their separators. -/
theorem map_slashUnit_of_mangledUnits_eq {us vs : List UInt16} (hus : GuardedUnits us)
    (hvs : GuardedUnits vs) (h : mangledUnits us = mangledUnits vs) :
    us.map slashUnit = vs.map slashUnit := by
  induction us generalizing vs with
  | nil =>
      cases vs with
      | nil => rfl
      | cons v vs =>
          have hv := readUnit_mangledUnits hvs
          rw [← h] at hv
          cases hv
  | cons u us ih =>
      have hu := readUnit_mangledUnits hus
      rw [h] at hu
      cases vs with
      | nil => cases hu
      | cons v vs =>
          -- One text starts with both units, and only one unit is read from it.
          rw [readUnit_mangledUnits hvs] at hu
          obtain ⟨hunit, hrest⟩ := Prod.mk.inj (Option.some.inj hu)
          rw [List.map_cons, List.map_cons, hunit,
            ih (List.isChain_cons.1 hus).2 (List.isChain_cons.1 hvs).2 hrest.symm]

theorem map_slashUnit_units {c : CodePoint} (hdot : c ≠ CodePoint.ofChar '.') :
    c.units.map slashUnit = c.units := by
  have hid : c.units.map slashUnit = c.units.map id := by
    apply List.map_congr_left
    intro u hu
    apply slashUnit_of_ne
    intro hunit
    rw [toNat_of_ofUnit_eq hunit] at hu
    by_cases hlt : c.val < 0x10000
    · rw [CodePoint.units_of_lt hlt, List.mem_singleton] at hu
      rw [← CodePoint.ofUnit_toUInt16 hlt, ← hu] at hdot
      exact hdot rfl
    · obtain ⟨high, low, hunits, hhigh, hlow, -⟩ := CodePoint.units_of_ge (Nat.le_of_not_lt hlt)
      rw [hunits] at hu
      simp only [List.mem_cons, List.not_mem_nil, or_false] at hu
      rcases hu with rfl | rfl
      · exact absurd hhigh (by decide)
      · exact absurd hlow (by decide)
  rw [hid, List.map_id]

theorem units_replace_dot (t : Text) :
    Text.units (Text.replace '.' '/' t) = (Text.units t).map slashUnit := by
  induction t with
  | nil => rfl
  | cons c t ih =>
      have hreplace : Text.replace '.' '/' (c :: t) =
          (if c = CodePoint.ofChar '.' then CodePoint.ofChar '/' else c) ::
            Text.replace '.' '/' t := rfl
      rw [hreplace, Text.units_cons, Text.units_cons, List.map_append, ih]
      congr 1
      by_cases hdot : c = CodePoint.ofChar '.'
      · rw [if_pos hdot, hdot]
        rfl
      · rw [if_neg hdot, map_slashUnit_units hdot]

/-- Guarded joined texts with one mangled form agree up to their separators. -/
theorem replace_dot_of_mangle_eq {s t : Text} (hs : s.Joined) (ht : t.Joined) (hs' : s.Guarded)
    (ht' : t.Guarded) (h : mangle s = mangle t) :
    Text.replace '.' '/' s = Text.replace '.' '/' t := by
  rw [mangle_eq_mangledUnits, mangle_eq_mangledUnits] at h
  apply Text.units_injective (hs.replace _ (by decide)) (ht.replace _ (by decide))
  rw [units_replace_dot, units_replace_dot]
  exact map_slashUnit_of_mangledUnits_eq hs'.units ht'.units h

end JniHeader
