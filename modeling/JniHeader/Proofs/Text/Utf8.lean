import JniHeader.Text.Utf8
import JniHeader.Proofs.Text.Utf16
import Mathlib.Tactic.IntervalCases

/-!
# Modified UTF-8

Every text is read back from its UTF-8 bytes, code point by code point and with any
bytes behind it: a surrogate has bytes that only the reader for surrogates takes. In
modified UTF-8 this is done unit by unit, where zero is the only unit whose bytes hold
`C0`. Hence a joined text is read back from the bytes of its units; and whatever bytes
are read, their text is joined.
-/
namespace JniHeader

namespace Utf8

theorem toNat_toUInt8 {n : ℕ} (h : n < 256) : n.toUInt8.toNat = n := by
  change (UInt8.ofNat n).toNat = n
  rw [UInt8.toNat_ofNat']
  exact Nat.mod_eq_of_lt h

theorem surrogate?_of_ne {b : UInt8} (h : b ≠ 0xED) (rest : List UInt8) :
    surrogate? b rest = none := by
  unfold surrogate?
  split
  · rw [if_neg (fun hb => h hb.1)]
  · rfl

/-- A continuation byte in range extends the value by six bits. -/
theorem continuation_cons {count value seen k : ℕ} {low high : UInt8} {rest : List UInt8}
    (hlow : low.toNat ≤ 0x80 + k) (hhigh : 0x80 + k ≤ high.toNat) (hk : k < 0x40) :
    continuation (count + 1) low high value seen ((0x80 + k).toUInt8 :: rest) =
      continuation count 0x80 0xBF (value * 0x40 + k) (seen + 1) rest := by
  have hbyte : (0x80 + k).toUInt8.toNat = 0x80 + k := toNat_toUInt8 (by omega)
  have hrange : low ≤ (0x80 + k).toUInt8 ∧ (0x80 + k).toUInt8 ≤ high := by
    rw [UInt8.le_iff_toNat_le, UInt8.le_iff_toNat_le, hbyte]
    exact ⟨hlow, hhigh⟩
  have hbits : (0x80 + k) % 0x40 = k := by omega
  rw [continuation, if_pos hrange, hbyte, hbits]

/-- A sequence that is no surrogate is read by its lead byte. -/
theorem decodeOne_of_lead {b : UInt8} {bytes rest : List UInt8} {l : Lead} {n : ℕ}
    (hascii : ¬ b < 0x80) (hsurrogate : surrogate? b bytes = none) (hlead : lead? b = some l)
    (hrest : continuation l.count l.low l.high l.bits 1 bytes = .ok (n, rest)) :
    decodeOne true b bytes = .ok (.ofNat n, rest) := by
  simp only [decodeOne, if_neg hascii, if_true, hsurrogate, hlead, hrest]

theorem lead?_two {q : ℕ} (hlow : 2 ≤ q) (hhigh : q < 32) :
    lead? (0xC0 + q).toUInt8 = some ⟨q, 1, 0x80, 0xBF⟩ := by
  have hbyte : (0xC0 + q).toUInt8.toNat = 0xC0 + q := toNat_toUInt8 (by omega)
  have hstart : ¬ (0xC0 + q).toUInt8 < 0xC2 := by
    rw [UInt8.lt_iff_toNat_lt, hbyte, Nat.not_lt]
    change 0xC2 ≤ 0xC0 + q
    omega
  have hthree : (0xC0 + q).toUInt8 < 0xE0 := by
    rw [UInt8.lt_iff_toNat_lt, hbyte]
    change 0xC0 + q < 0xE0
    omega
  rw [lead?, if_neg hstart, if_pos hthree, hbyte, Nat.add_sub_cancel_left]

/-- The second of three bytes leaves out overlong forms and surrogates. -/
theorem lead?_three {q : ℕ} (h : q < 16) :
    lead? (0xE0 + q).toUInt8 =
      some ⟨q, 2, if q = 0 then 0xA0 else 0x80, if q = 0xD then 0x9F else 0xBF⟩ := by
  interval_cases q <;> rfl

variable {u : UInt16} {rest : List UInt8}

theorem ofNat_toNat_unit (u : UInt16) : CodePoint.ofNat u.toNat = CodePoint.ofUnit u := by
  have hlt := u.toNat_lt
  exact CodePoint.ext (CodePoint.val_ofNat (by omega))

theorem not_ascii {n : ℕ} (hlow : 0x80 ≤ n) (hhigh : n < 256) : ¬ n.toUInt8 < 0x80 := by
  rw [UInt8.lt_iff_toNat_lt, toNat_toUInt8 hhigh, Nat.not_lt]
  exact hlow

theorem toUInt8_ne_ed {n : ℕ} (hlt : n < 256) (hne : n ≠ 0xED) : n.toUInt8 ≠ 0xED := by
  intro h
  have hval := congrArg UInt8.toNat h
  rw [toNat_toUInt8 hlt] at hval
  exact hne hval

theorem decodeOne_one (h : u.toNat < 0x80) :
    decodeOne true u.toNat.toUInt8 rest = .ok (.ofUnit u, rest) := by
  have hbyte : u.toNat.toUInt8.toNat = u.toNat := toNat_toUInt8 (by omega)
  have hlt : u.toNat.toUInt8 < 0x80 := by
    rw [UInt8.lt_iff_toNat_lt, hbyte]
    exact h
  rw [decodeOne, if_pos hlt, hbyte, ofNat_toNat_unit]

theorem decodeOne_two (hlow : 0x80 ≤ u.toNat) (hhigh : u.toNat < 0x800) :
    decodeOne true (0xC0 + u.toNat / 0x40).toUInt8 ((0x80 + u.toNat % 0x40).toUInt8 :: rest) =
      .ok (.ofUnit u, rest) := by
  have hsurrogate : (0xC0 + u.toNat / 0x40).toUInt8 ≠ 0xED := toUInt8_ne_ed (by omega) (by omega)
  have hvalue : u.toNat / 0x40 * 0x40 + u.toNat % 0x40 = u.toNat := by omega
  rw [← ofNat_toNat_unit]
  apply decodeOne_of_lead (not_ascii (by omega) (by omega)) (surrogate?_of_ne hsurrogate _)
    (lead?_two (show 2 ≤ u.toNat / 0x40 by omega) (show u.toNat / 0x40 < 32 by omega))
  rw [continuation_cons (by change 0x80 ≤ _; omega) (by change _ ≤ 0xBF; omega) (by omega),
    hvalue, continuation]

/-- A surrogate is read from its three bytes. -/
theorem decodeOne_surrogate (hlow : 0xD800 ≤ u.toNat) (hhigh : u.toNat ≤ 0xDFFF) :
    decodeOne true (0xE0 + u.toNat / 0x1000).toUInt8
        ((0x80 + u.toNat / 0x40 % 0x40).toUInt8 :: (0x80 + u.toNat % 0x40).toUInt8 :: rest) =
      .ok (.ofUnit u, rest) := by
  have hsecond : (0x80 + u.toNat / 0x40 % 0x40).toUInt8.toNat = 0x80 + u.toNat / 0x40 % 0x40 :=
    toNat_toUInt8 (by omega)
  have hthird : (0x80 + u.toNat % 0x40).toUInt8.toNat = 0x80 + u.toNat % 0x40 :=
    toNat_toUInt8 (by omega)
  have hlead : 0xE0 + u.toNat / 0x1000 = 0xED := by omega
  have hrange : (0xE0 + u.toNat / 0x1000).toUInt8 = 0xED ∧
      0xA0 ≤ (0x80 + u.toNat / 0x40 % 0x40).toUInt8 ∧
      (0x80 + u.toNat / 0x40 % 0x40).toUInt8 ≤ 0xBF ∧
      0x80 ≤ (0x80 + u.toNat % 0x40).toUInt8 ∧ (0x80 + u.toNat % 0x40).toUInt8 ≤ 0xBF := by
    refine ⟨by rw [hlead]; rfl, ?_⟩
    simp only [UInt8.le_iff_toNat_le, hsecond, hthird, UInt8.reduceToNat]
    omega
  have hvalue : 0xD000 + (0x80 + u.toNat / 0x40 % 0x40) % 0x40 * 0x40 +
      (0x80 + u.toNat % 0x40) % 0x40 = u.toNat := by omega
  simp only [decodeOne, if_neg (not_ascii (n := 0xE0 + u.toNat / 0x1000) (by omega) (by omega)),
    if_true, surrogate?, if_pos hrange, hsecond, hthird, hvalue, ofNat_toNat_unit]

theorem surrogate?_three (h : ¬ (0xD800 ≤ u.toNat ∧ u.toNat ≤ 0xDFFF)) :
    surrogate? (0xE0 + u.toNat / 0x1000).toUInt8
      ((0x80 + u.toNat / 0x40 % 0x40).toUInt8 :: (0x80 + u.toNat % 0x40).toUInt8 :: rest) =
        none := by
  have hlt := u.toNat_lt
  rw [surrogate?, if_neg]
  intro hbytes
  obtain ⟨hed, hlow, -⟩ := hbytes
  rw [UInt8.le_iff_toNat_le, toNat_toUInt8 (by omega)] at hlow
  change 0xA0 ≤ _ at hlow
  exact absurd hed (toUInt8_ne_ed (by omega) (by omega))

theorem decodeOne_three (h : 0x800 ≤ u.toNat) (hplain : ¬ (0xD800 ≤ u.toNat ∧ u.toNat ≤ 0xDFFF)) :
    decodeOne true (0xE0 + u.toNat / 0x1000).toUInt8
        ((0x80 + u.toNat / 0x40 % 0x40).toUInt8 :: (0x80 + u.toNat % 0x40).toUInt8 :: rest) =
      .ok (.ofUnit u, rest) := by
  have hlt := u.toNat_lt
  have hlow : (if u.toNat / 0x1000 = 0 then 0xA0 else 0x80 : UInt8).toNat ≤
      0x80 + u.toNat / 0x40 % 0x40 := by
    split_ifs
    · change 0xA0 ≤ _
      omega
    · change 0x80 ≤ _
      omega
  have hhigh : 0x80 + u.toNat / 0x40 % 0x40 ≤
      (if u.toNat / 0x1000 = 0xD then 0x9F else 0xBF : UInt8).toNat := by
    split_ifs
    · change _ ≤ 0x9F
      omega
    · change _ ≤ 0xBF
      omega
  have hvalue : (u.toNat / 0x1000 * 0x40 + u.toNat / 0x40 % 0x40) * 0x40 + u.toNat % 0x40 =
      u.toNat := by omega
  rw [← ofNat_toNat_unit]
  apply decodeOne_of_lead (not_ascii (by omega) (by omega)) (surrogate?_three hplain)
    (lead?_three (show u.toNat / 0x1000 < 16 by omega))
  rw [continuation_cons hlow hhigh (by omega), continuation_cons (by change 0x80 ≤ _; omega)
    (by change _ ≤ 0xBF; omega) (by omega), hvalue, continuation]

/-- The bytes of a unit are read back, whatever follows them. -/
theorem decodeOne_unit (u : UInt16) (rest : List UInt8) :
    ∃ b bytes, (CodePoint.ofUnit u).utf8 = b :: bytes ∧
      decodeOne true b (bytes ++ rest) = .ok (.ofUnit u, rest) := by
  have hval : (CodePoint.ofUnit u).val = u.toNat := rfl
  have hlt := u.toNat_lt
  unfold CodePoint.utf8
  simp only [hval]
  split_ifs with hone htwo
  · exact ⟨_, _, rfl, decodeOne_one hone⟩
  · exact ⟨_, _, rfl, decodeOne_two (by omega) htwo⟩
  · by_cases hsurrogate : 0xD800 ≤ u.toNat ∧ u.toNat ≤ 0xDFFF
    · exact ⟨_, _, rfl, decodeOne_surrogate hsurrogate.1 hsurrogate.2⟩
    · exact ⟨_, _, rfl, decodeOne_three (by omega) hsurrogate⟩

/-- The second of four bytes leaves out overlong forms and numbers beyond the last code point. -/
theorem lead?_four {q : ℕ} (h : q < 5) :
    lead? (0xF0 + q).toUInt8 =
      some ⟨q, 3, if q = 0 then 0x90 else 0x80, if q = 4 then 0x8F else 0xBF⟩ := by
  interval_cases q <;> rfl

theorem decodeOne_four {c : CodePoint} (h : 0x10000 ≤ c.val) :
    decodeOne true (0xF0 + c.val / 0x40000).toUInt8
        ((0x80 + c.val / 0x1000 % 0x40).toUInt8 :: (0x80 + c.val / 0x40 % 0x40).toUInt8 ::
          (0x80 + c.val % 0x40).toUInt8 :: rest) =
      .ok (c, rest) := by
  have hlt := c.isLt
  have hsurrogate : (0xF0 + c.val / 0x40000).toUInt8 ≠ 0xED :=
    toUInt8_ne_ed (by omega) (by omega)
  have hlow : (if c.val / 0x40000 = 0 then 0x90 else 0x80 : UInt8).toNat ≤
      0x80 + c.val / 0x1000 % 0x40 := by
    split_ifs
    · change 0x90 ≤ _
      omega
    · change 0x80 ≤ _
      omega
  have hhigh : 0x80 + c.val / 0x1000 % 0x40 ≤
      (if c.val / 0x40000 = 4 then 0x8F else 0xBF : UInt8).toNat := by
    split_ifs
    · change _ ≤ 0x8F
      omega
    · change _ ≤ 0xBF
      omega
  have hvalue : ((c.val / 0x40000 * 0x40 + c.val / 0x1000 % 0x40) * 0x40 +
      c.val / 0x40 % 0x40) * 0x40 + c.val % 0x40 = c.val := by omega
  have hself : CodePoint.ofNat c.val = c := CodePoint.ext (CodePoint.val_ofNat hlt)
  rw [decodeOne_of_lead (not_ascii (by omega) (by omega)) (surrogate?_of_ne hsurrogate _)
    (lead?_four (show c.val / 0x40000 < 5 by omega))]
  · rw [hself]
  · rw [continuation_cons hlow hhigh (by omega), continuation_cons (by change 0x80 ≤ _; omega)
      (by change _ ≤ 0xBF; omega) (by omega), continuation_cons (by change 0x80 ≤ _; omega)
      (by change _ ≤ 0xBF; omega) (by omega), hvalue, continuation]

/-- The bytes of a code point are read back, whatever follows them. -/
theorem decodeOne_utf8 (c : CodePoint) (rest : List UInt8) :
    ∃ b bytes, c.utf8 = b :: bytes ∧ decodeOne true b (bytes ++ rest) = .ok (c, rest) := by
  rcases Nat.lt_or_ge c.val 0x10000 with hunit | hsupplementary
  · have hself : CodePoint.ofUnit c.val.toUInt16 = c :=
      CodePoint.ext (Nat.mod_eq_of_lt hunit)
    rw [← hself]
    exact decodeOne_unit c.val.toUInt16 rest
  · refine ⟨(0xF0 + c.val / 0x40000).toUInt8, [(0x80 + c.val / 0x1000 % 0x40).toUInt8,
      (0x80 + c.val / 0x40 % 0x40).toUInt8, (0x80 + c.val % 0x40).toUInt8], ?_,
      decodeOne_four hsupplementary⟩
    simp only [CodePoint.utf8]
    rw [if_neg (by omega), if_neg (by omega), if_neg (by omega)]

/-- A text is read back from its bytes, one code point after the other. -/
theorem decodeFrom_utf8 (t : Text) (fuel position : ℕ) (hfuel : t.utf8.length ≤ fuel) :
    decodeFrom true fuel position t.utf8 = .ok t := by
  induction t generalizing fuel position with
  | nil => cases fuel <;> rfl
  | cons c t ih =>
      obtain ⟨b, bytes, hbytes, hread⟩ := decodeOne_utf8 c (Text.utf8 t)
      have hcons : Text.utf8 (c :: t) = b :: (bytes ++ Text.utf8 t) := by
        rw [Text.utf8, List.flatMap_cons, hbytes]
        rfl
      rw [hcons] at hfuel ⊢
      cases fuel with
      | zero => simp at hfuel
      | succ fuel =>
          have hrest : (Text.utf8 t).length ≤ fuel := by
            simp only [List.length_cons, List.length_append] at hfuel
            omega
          simp only [decodeFrom, hread, ih fuel _ hrest]
          rfl

theorem decode_utf8 (t : Text) : decode true t.utf8 = .ok t :=
  decodeFrom_utf8 t _ 0 (Nat.le_refl _)

end Utf8

namespace ModifiedUtf8

theorem collapseNul_cons {b : UInt8} (h : b ≠ 0xC0) (rest : List UInt8) :
    collapseNul (b :: rest) = b :: collapseNul rest := by
  cases rest with
  | nil => rfl
  | cons c rest => rw [collapseNul, if_neg (fun hb => h hb.1)]

theorem collapseNul_append {bytes : List UInt8} (h : 0xC0 ∉ bytes) (rest : List UInt8) :
    collapseNul (bytes ++ rest) = bytes ++ collapseNul rest := by
  induction bytes with
  | nil => rfl
  | cons b bytes ih =>
      obtain ⟨hb, hbytes⟩ := not_or.1 (mt List.mem_cons.2 h)
      rw [List.cons_append, collapseNul_cons (Ne.symm hb), ih hbytes, List.cons_append]

theorem ne_of_toNat {n : ℕ} (hlt : n < 256) (hne : n ≠ 0xC0) : 0xC0 ≠ n.toUInt8 := by
  intro h
  have hval := congrArg UInt8.toNat h
  rw [Utf8.toNat_toUInt8 hlt] at hval
  exact hne hval.symm

/-- No unit is written with the byte `C0`: two bytes start with `C2` or more. -/
theorem not_mem_utf8_ofUnit (u : UInt16) : 0xC0 ∉ (CodePoint.ofUnit u).utf8 := by
  have hval : (CodePoint.ofUnit u).val = u.toNat := rfl
  have hlt := u.toNat_lt
  unfold CodePoint.utf8
  simp only [hval]
  split_ifs with hone htwo
  · simp only [List.mem_singleton]
    exact ne_of_toNat (by omega) (by omega)
  · simp only [List.mem_cons, List.not_mem_nil, or_false, not_or]
    exact ⟨ne_of_toNat (by omega) (by omega), ne_of_toNat (by omega) (by omega)⟩
  · simp only [List.mem_cons, List.not_mem_nil, or_false, not_or]
    exact ⟨ne_of_toNat (by omega) (by omega), ne_of_toNat (by omega) (by omega),
      ne_of_toNat (by omega) (by omega)⟩

theorem collapseNul_encode (us : List UInt16) :
    collapseNul (encode us) = Text.utf8 (us.map .ofUnit) := by
  induction us with
  | nil => rfl
  | cons u us ih =>
      have hcons : encode (u :: us) = encodeUnit u ++ encode us := rfl
      rw [hcons, encodeUnit, List.map_cons, Text.utf8, List.flatMap_cons, ← Text.utf8, ← ih]
      split_ifs with hzero
      · rw [hzero]
        rfl
      · exact collapseNul_append (not_mem_utf8_ofUnit u) (encode us)

theorem units_map_ofUnit (us : List UInt16) : Text.units (us.map .ofUnit) = us := by
  rw [Text.units, List.flatMap_map]
  simp only [CodePoint.units_ofUnit, List.flatMap_singleton']

/-- Units are read back with split surrogate pairs joined. -/
theorem decode_encode (us : List UInt16) : decode (encode us) = .ok (Text.ofUnits us) := by
  rw [decode, collapseNul_encode, Utf8.decode_utf8]
  change Except.ok (Text.joinSurrogates (us.map .ofUnit)) = _
  rw [Text.joinSurrogates, units_map_ofUnit]

/-- A joined text is read back from its bytes. -/
theorem decode_encode_units {t : Text} (ht : t.Joined) : decode (encode t.units) = .ok t := by
  rw [decode_encode, Text.ofUnits_units ht]

theorem length_encodeUnit (u : UInt16) :
    (encodeUnit u).length =
      if u = 0 then 2 else if u.toNat < 0x80 then 1 else if u.toNat < 0x800 then 2 else 3 := by
  have hval : (CodePoint.ofUnit u).val = u.toNat := rfl
  have hlt := u.toNat_lt
  unfold encodeUnit CodePoint.utf8
  simp only [hval]
  split_ifs <;> rfl

/-- All units are read back from their bytes, as the one joined text that has them. Other bytes too,
if they are read at all, are read as a joined text. -/
theorem decode_joins_surrogates :
    encodeUnit 0 = [0xC0, 0x80] ∧
    (∀ u, (encodeUnit u).length =
      if u = 0 then 2 else if u.toNat < 0x80 then 1 else if u.toNat < 0x800 then 2 else 3) ∧
    (∀ us, ∃ t : Text, decode (encode us) = .ok t ∧ t.Joined ∧ t.units = us ∧
      ∀ t' : Text, t'.Joined → t'.units = us → t' = t) ∧
    ∀ bytes t, decode bytes = .ok t → t.Joined := by
  refine ⟨rfl, length_encodeUnit, ?_, ?_⟩
  · intro us
    refine ⟨Text.ofUnits us, decode_encode us, Text.joined_ofUnits us, Text.units_ofUnits us, ?_⟩
    intro t' hjoined hunits
    rw [← hunits, Text.ofUnits_units hjoined]
  · intro bytes t h
    unfold decode at h
    cases hraw : Utf8.decode true (collapseNul bytes) with
    | error fault =>
        rw [hraw] at h
        cases h
    | ok raw =>
        rw [hraw] at h
        obtain rfl : raw.joinSurrogates = t := Except.ok.inj h
        exact Text.joined_ofUnits raw.units

/-- Two high surrogates before a low one, and a zero between surrogates; and a supplementary code
point in four bytes before a low surrogate. -/
theorem decode_joins_surrogates_runs :
    let us : List UInt16 := [0xD83D, 0xD83D, 0xDE00, 0xD83D, 0, 0xDE00]
    let t : Text := [0xD83D, 0x1F600, 0xD83D, 0, 0xDE00].map .ofNat
    let bytes : List UInt8 := [0xF0, 0x9F, 0x98, 0x80, 0xED, 0xB8, 0x80]
    let t' : Text := [0x1F600, 0xDE00].map .ofNat
    decode (encode us) = .ok t ∧ t.Joined ∧ t.units = us ∧ decode bytes = .ok t' ∧ t'.Joined := by
  intro us t bytes t'
  have hbytes : decode bytes = .ok t' := by decide
  obtain ⟨-, -, hencode, hjoined⟩ := decode_joins_surrogates
  obtain ⟨s, hs, hsjoined, hsunits, hunique⟩ := hencode us
  have ht : t = s := hunique t (by decide) (by decide)
  rw [ht]
  exact ⟨hs, hsjoined, hsunits, hbytes, hjoined bytes t' hbytes⟩

end ModifiedUtf8

end JniHeader
