import JniHeader.Text.Utf16
import Mathlib.Data.List.Chain
import Mathlib.Tactic.Common

/-!
# Texts and their units

A text is joined when no high surrogate in it stands directly before a low one.
Reading the units of a joined text gives the text back, so joined texts with the
same units are equal; and units are always read as a joined text that has them.
-/
namespace JniHeader

namespace CodePoint

theorem toNat_ofNat_unit {n : ℕ} (h : n < 0x10000) : (n.toUInt16).toNat = n := by
  change (UInt16.ofNat n).toNat = n
  rw [UInt16.toNat_ofNat']
  exact Nat.mod_eq_of_lt h

theorem units_of_lt {c : CodePoint} (h : c.val < 0x10000) : c.units = [c.val.toUInt16] := by
  rw [units, if_pos h]

theorem ofUnit_toUInt16 {c : CodePoint} (h : c.val < 0x10000) : ofUnit c.val.toUInt16 = c :=
  CodePoint.ext (toNat_ofNat_unit h)

theorem units_ne_nil (c : CodePoint) : c.units ≠ [] := by
  unfold units
  split_ifs <;> simp

/-- A unit read as a code point is its own only unit. -/
theorem units_ofUnit (u : UInt16) : (ofUnit u).units = [u] := by
  have hlt : (ofUnit u).val < 0x10000 := u.toNat_lt
  rw [units_of_lt hlt]
  change [UInt16.ofNat u.toNat] = [u]
  rw [UInt16.ofNat_toNat]

end CodePoint

theorem isHighUnit_iff (u : UInt16) :
    isHighUnit u = true ↔ 0xD800 ≤ u.toNat ∧ u.toNat ≤ 0xDBFF := by
  simp [isHighUnit, UInt16.le_iff_toNat_le]

theorem isLowUnit_iff (u : UInt16) :
    isLowUnit u = true ↔ 0xDC00 ≤ u.toNat ∧ u.toNat ≤ 0xDFFF := by
  simp [isLowUnit, UInt16.le_iff_toNat_le]

namespace CodePoint

theorem isHighSurrogate_iff (c : CodePoint) :
    c.isHighSurrogate = true ↔ 0xD800 ≤ c.val ∧ c.val ≤ 0xDBFF := by
  simp [isHighSurrogate, within]

theorem isLowSurrogate_iff (c : CodePoint) :
    c.isLowSurrogate = true ↔ 0xDC00 ≤ c.val ∧ c.val ≤ 0xDFFF := by
  simp [isLowSurrogate, within]

/-- A supplementary code point has a high and a low unit, and these two make it up. -/
theorem units_of_ge {c : CodePoint} (h : 0x10000 ≤ c.val) :
    ∃ high low, c.units = [high, low] ∧ isHighUnit high = true ∧ isLowUnit low = true ∧
      ofPair high low = c := by
  have hc := c.isLt
  have hhigh : ((0xD800 + (c.val - 0x10000) / 0x400).toUInt16).toNat =
      0xD800 + (c.val - 0x10000) / 0x400 := toNat_ofNat_unit (by omega)
  have hlow : ((0xDC00 + (c.val - 0x10000) % 0x400).toUInt16).toNat =
      0xDC00 + (c.val - 0x10000) % 0x400 := toNat_ofNat_unit (by omega)
  refine ⟨_, _, by rw [units, if_neg (by omega)], ?_, ?_, ?_⟩
  · rw [isHighUnit_iff, hhigh]
    omega
  · rw [isLowUnit_iff, hlow]
    omega
  · apply CodePoint.ext
    rw [ofPair, hhigh, hlow, val_ofNat (by omega)]
    omega

theorem val_ofPair {u v : UInt16} (hu : isHighUnit u = true) (hv : isLowUnit v = true) :
    (ofPair u v).val = 0x10000 + (u.toNat - 0xD800) * 0x400 + (v.toNat - 0xDC00) := by
  rw [isHighUnit_iff] at hu
  rw [isLowUnit_iff] at hv
  rw [ofPair, val_ofNat (by omega)]

/-- A surrogate pair is the two units of the code point that it makes up. -/
theorem units_ofPair {u v : UInt16} (hu : isHighUnit u = true) (hv : isLowUnit v = true) :
    (ofPair u v).units = [u, v] := by
  have hval := val_ofPair hu hv
  rw [isHighUnit_iff] at hu
  rw [isLowUnit_iff] at hv
  have hhigh : 0xD800 + ((ofPair u v).val - 0x10000) / 0x400 = u.toNat := by omega
  have hlow : 0xDC00 + ((ofPair u v).val - 0x10000) % 0x400 = v.toNat := by omega
  rw [units, if_neg (by omega)]
  change [UInt16.ofNat _, UInt16.ofNat _] = _
  rw [hhigh, hlow, UInt16.ofNat_toNat, UInt16.ofNat_toNat]

end CodePoint

namespace Text

/-- No high surrogate stands directly before a low one. -/
def Joined (t : Text) : Prop :=
  t.IsChain fun c d => ¬ (c.isHighSurrogate = true ∧ d.isLowSurrogate = true)

instance (t : Text) : Decidable t.Joined :=
  inferInstanceAs (Decidable (t.IsChain fun c d =>
    ¬ (c.isHighSurrogate = true ∧ d.isLowSurrogate = true)))

theorem units_cons (c : CodePoint) (t : Text) : units (c :: t) = c.units ++ units t := rfl

@[simp] theorem units_append (s t : Text) : units (s ++ t) = units s ++ units t :=
  List.flatMap_append

/-- The first unit of a text is its first code point or a high surrogate. -/
theorem head_units {t : Text} {u : UInt16} (h : u ∈ (units t).head?) :
    ∃ c ∈ t.head?, CodePoint.ofUnit u = c ∨ isHighUnit u = true := by
  cases t with
  | nil => simp [units] at h
  | cons c t =>
      refine ⟨c, rfl, ?_⟩
      by_cases hc : c.val < 0x10000
      · left
        rw [units_cons, CodePoint.units_of_lt hc] at h
        obtain rfl : c.val.toUInt16 = u := by simpa using h
        exact CodePoint.ofUnit_toUInt16 hc
      · right
        obtain ⟨high, low, hunits, hhigh, -, -⟩ := CodePoint.units_of_ge (Nat.le_of_not_lt hc)
        rw [units_cons, hunits] at h
        obtain rfl : high = u := by simpa using h
        exact hhigh

theorem ofUnits_cons {u : UInt16} {us : List UInt16}
    (h : ∀ v ∈ us.head?, ¬ (isHighUnit u = true ∧ isLowUnit v = true)) :
    ofUnits (u :: us) = CodePoint.ofUnit u :: ofUnits us := by
  cases us with
  | nil => rfl
  | cons v us =>
      have hv := h v rfl
      rw [ofUnits, if_neg (by simpa using hv)]

theorem ofUnits_pair {u v : UInt16} (hu : isHighUnit u = true) (hv : isLowUnit v = true)
    (us : List UInt16) : ofUnits (u :: v :: us) = .ofPair u v :: ofUnits us := by
  rw [ofUnits, if_pos (by simp [hu, hv])]

/-- A joined text is read back from its units. -/
theorem ofUnits_units {t : Text} (ht : t.Joined) : ofUnits (units t) = t := by
  induction t with
  | nil => rfl
  | cons c t ih =>
      obtain ⟨hc, ht⟩ := List.isChain_cons.1 ht
      rw [units_cons]
      by_cases hlt : c.val < 0x10000
      · have hpair : ∀ v ∈ (units t).head?,
            ¬ (isHighUnit c.val.toUInt16 = true ∧ isLowUnit v = true) := by
          intro v hv hboth
          obtain ⟨hhigh, hlow⟩ := hboth
          rw [isHighUnit_iff, CodePoint.toNat_ofNat_unit hlt] at hhigh
          obtain ⟨d, hd, hunit⟩ := head_units hv
          rcases hunit with rfl | hv'
          · refine hc _ hd ⟨(CodePoint.isHighSurrogate_iff c).2 hhigh, ?_⟩
            exact (CodePoint.isLowSurrogate_iff _).2 ((isLowUnit_iff v).1 hlow)
          · rw [isHighUnit_iff] at hv'
            rw [isLowUnit_iff] at hlow
            omega
        rw [CodePoint.units_of_lt hlt, List.singleton_append, ofUnits_cons hpair,
          CodePoint.ofUnit_toUInt16 hlt, ih ht]
      · obtain ⟨high, low, hunits, hhigh, hlow, hpair⟩ :=
          CodePoint.units_of_ge (Nat.le_of_not_lt hlt)
        rw [hunits, List.cons_append, List.singleton_append, ofUnits_pair hhigh hlow, hpair, ih ht]

/-- No unit is lost or changed when units are read. -/
theorem units_ofUnits (us : List UInt16) : units (ofUnits us) = us := by
  induction us using ofUnits.induct with
  | case1 => rfl
  | case2 u =>
      change (CodePoint.ofUnit u).units ++ [] = [u]
      rw [CodePoint.units_ofUnit, List.append_nil]
  | case3 u v us hpair ih =>
      obtain ⟨hu, hv⟩ := Bool.and_eq_true_iff.1 hpair
      rw [ofUnits_pair hu hv, units_cons, CodePoint.units_ofPair hu hv, ih]
      rfl
  | case4 u v us hpair ih =>
      rw [ofUnits, if_neg hpair, units_cons, CodePoint.units_ofUnit, ih]
      rfl

/-- A text that is read from units starts with the first of them or with a supplementary code
point. -/
theorem head_ofUnits {us : List UInt16} {c : CodePoint} (h : c ∈ (ofUnits us).head?) :
    (∃ u ∈ us.head?, c = .ofUnit u) ∨ 0x10000 ≤ c.val := by
  cases us using ofUnits.induct with
  | case1 => cases h
  | case2 u => exact .inl ⟨u, rfl, (Option.some.inj h).symm⟩
  | case3 u v us hpair =>
      obtain ⟨hu, hv⟩ := Bool.and_eq_true_iff.1 hpair
      rw [ofUnits_pair hu hv] at h
      obtain rfl := Option.some.inj h
      rw [CodePoint.val_ofPair hu hv]
      omega
  | case4 u v us hpair =>
      rw [ofUnits, if_neg hpair] at h
      exact .inl ⟨u, rfl, (Option.some.inj h).symm⟩

/-- Units are read as a joined text: two surrogates that are left do not make up a pair. -/
theorem joined_ofUnits (us : List UInt16) : (ofUnits us).Joined := by
  induction us using ofUnits.induct with
  | case1 => exact .nil
  | case2 u => exact .singleton _
  | case3 u v us hpair ih =>
      obtain ⟨hu, hv⟩ := Bool.and_eq_true_iff.1 hpair
      rw [ofUnits_pair hu hv]
      refine List.isChain_cons.2 ⟨?_, ih⟩
      intro d _ hboth
      have hval := CodePoint.val_ofPair hu hv
      have hhigh := (CodePoint.isHighSurrogate_iff _).1 hboth.1
      omega
  | case4 u v us hpair ih =>
      rw [ofUnits, if_neg hpair]
      refine List.isChain_cons.2 ⟨?_, ih⟩
      rintro d hd ⟨hhigh, hlow⟩
      rw [CodePoint.isHighSurrogate_iff] at hhigh
      rw [CodePoint.isLowSurrogate_iff] at hlow
      rcases head_ofUnits hd with ⟨w, hw, rfl⟩ | hsupplementary
      · obtain rfl : v = w := Option.some.inj hw
        exact hpair (Bool.and_eq_true_iff.2 ⟨(isHighUnit_iff u).2 hhigh, (isLowUnit_iff v).2 hlow⟩)
      · omega

theorem Joined.append_cons {s t : Text} {c : CodePoint} (hs : s.Joined) (ht : t.Joined)
    (hc : c.val < 0xD800) : (s ++ c :: t).Joined := by
  have hhigh : ¬ c.isHighSurrogate = true := by
    rw [CodePoint.isHighSurrogate_iff]
    omega
  have hlow : ¬ c.isLowSurrogate = true := by
    rw [CodePoint.isLowSurrogate_iff]
    omega
  refine List.isChain_append.2 ⟨hs, List.isChain_cons.2 ⟨?_, ht⟩, ?_⟩
  · intro d _ hboth
    exact hhigh hboth.1
  · intro b _ d hd hboth
    obtain rfl : c = d := Option.some.inj hd
    exact hlow hboth.2

theorem Joined.replace {t : Text} (ht : t.Joined) {new : CodePoint} (old : CodePoint)
    (hnew : new.val < 0xD800) : (Text.replace old new t).Joined := by
  have hplain : ¬ new.isHighSurrogate = true ∧ ¬ new.isLowSurrogate = true := by
    rw [CodePoint.isHighSurrogate_iff, CodePoint.isLowSurrogate_iff]
    omega
  unfold Text.replace Joined
  rw [List.isChain_map]
  apply List.IsChain.imp _ ht
  intro c d hcd hboth
  split_ifs at hboth with hc hd
  · exact hplain.1 hboth.1
  · exact hplain.1 hboth.1
  · exact hplain.2 hboth.2
  · exact hcd hboth

theorem units_injective {s t : Text} (hs : s.Joined) (ht : t.Joined)
    (h : units s = units t) : s = t := by
  rw [← ofUnits_units hs, h, ofUnits_units ht]

end Text

end JniHeader
