import JniHeader.Proofs.Name.HeaderFile

/-!
# Open underscores

In a mangled text an underscore opens an escape if one of the digits 0 to 3 follows, and
otherwise it is open: it stands for a separator. So a mangled text has at most as many
open underscores as the text has separators, and exactly as many if the text is guarded.
The first underscore is no open one unless the text starts with a separator.
-/
namespace JniHeader

namespace Text

/-- The text starts with an underscore that opens no escape. -/
def StartsOpen (t : Text) : Prop := t.head? = some (CodePoint.ofChar '_') ∧ StartsPlain t.tail

instance (t : Text) : Decidable t.StartsOpen :=
  inferInstanceAs (Decidable (t.head? = some (CodePoint.ofChar '_') ∧ StartsPlain t.tail))

/-- The number of underscores that open no escape. -/
def openUnderscores : Text → ℕ
  | [] => 0
  | c :: t => (if StartsOpen (c :: t) then 1 else 0) + openUnderscores t

theorem not_startsOpen_of_ne {c : CodePoint} (hc : c ≠ '_') (t : Text) : ¬ StartsOpen (c :: t) :=
  fun h => hc (Option.some.inj h.1)

theorem not_startsOpen_escape {d : CodePoint} (hd : d.IsEscapeDigit) (t : Text) :
    ¬ StartsOpen (CodePoint.ofChar '_' :: d :: t) :=
  fun h => h.2 d rfl hd

theorem openUnderscores_of_not_startsOpen {c : CodePoint} {t : Text} (h : ¬ StartsOpen (c :: t)) :
    openUnderscores (c :: t) = openUnderscores t := by
  rw [openUnderscores, if_neg h, Nat.zero_add]

/-- What holds no underscore holds no open one. -/
theorem openUnderscores_append {s : Text} (hs : CodePoint.ofChar '_' ∉ s) (t : Text) :
    openUnderscores (s ++ t) = openUnderscores t := by
  induction s with
  | nil => rfl
  | cons c s ih =>
      obtain ⟨hc, hs⟩ := not_or.1 (mt List.mem_cons.2 hs)
      rw [List.cons_append, openUnderscores_of_not_startsOpen (not_startsOpen_of_ne (Ne.symm hc) _),
        ih hs]

/-- An escape and what follows it without an underscore. -/
theorem openUnderscores_escape {d : CodePoint} (hd : d.IsEscapeDigit) {s : Text}
    (hs : CodePoint.ofChar '_' ∉ s) (t : Text) :
    openUnderscores (CodePoint.ofChar '_' :: d :: (s ++ t)) = openUnderscores t := by
  have hdigit : d ≠ '_' := by
    rintro rfl
    exact absurd hd (by decide)
  rw [openUnderscores_of_not_startsOpen (not_startsOpen_escape hd _),
    openUnderscores_of_not_startsOpen (not_startsOpen_of_ne hdigit _), openUnderscores_append hs]

end Text

open Text (StartsOpen StartsPlain openUnderscores)

theorem upperDigit_ne_underscore {d : ℕ} (h : d < 16) : upperDigit d ≠ '_' := by
  intro hd
  have hval := congrArg CodePoint.val hd
  unfold upperDigit at hval
  split_ifs at hval
  · rw [CodePoint.val_ofNat (by omega)] at hval
    change 0x30 + d = 0x5F at hval
    omega
  · rw [CodePoint.val_ofNat (by omega)] at hval
    change 0x41 + (d - 10) = 0x5F at hval
    omega

theorem underscore_not_mem_upperHex (width n : ℕ) :
    CodePoint.ofChar '_' ∉ Text.upperHex width n := by
  intro h
  obtain ⟨k, hk⟩ := mem_fixedDigits h
  exact upperDigit_ne_underscore (Nat.mod_lt k (by decide)) hk.symm

namespace CodePoint

variable {c : CodePoint}

/-- A separator is one open underscore, if no escape digit follows. -/
theorem openUnderscores_separator (hc : c.IsSeparator) (t : Text) :
    openUnderscores (c.mangled ++ t) = (if StartsPlain t then 1 else 0) + openUnderscores t := by
  have hmangled : c.mangled = [ofChar '_'] := by
    rcases hc with rfl | rfl
    · rfl
    · rfl
  have hopen : StartsOpen (ofChar '_' :: t) ↔ StartsPlain t := ⟨And.right, fun h => ⟨rfl, h⟩⟩
  rw [hmangled, List.singleton_append, openUnderscores]
  simp only [hopen]

/-- What is no separator starts with no open underscore and holds none. -/
theorem openUnderscores_mangled (hc : ¬ c.IsSeparator) (t : Text) :
    ¬ StartsOpen (c.mangled ++ t) ∧ openUnderscores (c.mangled ++ t) = openUnderscores t := by
  have hdigit : ∀ x : Char, (ofChar x).IsEscapeDigit →
      ¬ StartsOpen (ofChar '_' :: ofChar x :: t) ∧
        openUnderscores (ofChar '_' :: ofChar x :: t) = openUnderscores t := fun x hx =>
    ⟨Text.not_startsOpen_escape hx t, Text.openUnderscores_escape hx List.not_mem_nil t⟩
  unfold mangled
  split_ifs with hunderscore hsemicolon hbracket hseparator hplain
  · exact hdigit '1' (by decide)
  · exact hdigit '2' (by decide)
  · exact hdigit '3' (by decide)
  · exact absurd hseparator hc
  · exact ⟨Text.not_startsOpen_of_ne hunderscore t,
      Text.openUnderscores_append (by simpa using Ne.symm hunderscore) t⟩
  · have hunits : ∀ us : List UInt16,
        openUnderscores ((us.flatMap fun u => ("_0" : Text) ++ Text.upperHex 4 u.toNat) ++ t) =
          openUnderscores t := by
      intro us
      induction us with
      | nil => rfl
      | cons u us ih =>
          rw [List.flatMap_cons, List.append_assoc, List.append_assoc, ← ih]
          exact Text.openUnderscores_escape (by decide) (underscore_not_mem_upperHex 4 u.toNat) _
    refine ⟨?_, hunits c.units⟩
    obtain ⟨u, us, hu⟩ := List.exists_cons_of_ne_nil (units_ne_nil c)
    rw [hu]
    exact Text.not_startsOpen_escape (by decide : (ofChar '0').IsEscapeDigit) _

end CodePoint

theorem mangle_cons (c : CodePoint) (t : Text) : mangle (c :: t) = c.mangled ++ mangle t := rfl

/-- A text that starts with no separator is mangled to one that does not start open. -/
theorem not_startsOpen_mangle {c : CodePoint} (hc : ¬ c.IsSeparator) (t : Text) :
    ¬ StartsOpen (mangle (c :: t)) :=
  (CodePoint.openUnderscores_mangled hc (mangle t)).1

theorem startsPlain_mangle {t : Text} (h : t.StartsPlain) : (mangle t).StartsPlain := by
  cases t with
  | nil => exact h
  | cons c t =>
      intro d hd
      rcases CodePoint.head_mangled c (mangle t) hd with rfl | rfl
      · exact h d rfl
      · decide

/-- Only separators become open underscores. -/
theorem openUnderscores_mangle_le (t : Text) :
    openUnderscores (mangle t) ≤ t.countP fun c => decide c.IsSeparator := by
  induction t with
  | nil => exact Nat.le_refl 0
  | cons c t ih =>
      rw [mangle_cons]
      by_cases hc : c.IsSeparator
      · rw [CodePoint.openUnderscores_separator hc, List.countP_cons_of_pos (by simpa using hc)]
        split_ifs <;> omega
      · rw [(CodePoint.openUnderscores_mangled hc _).2, List.countP_cons_of_neg (by simpa using hc)]
        exact ih

/-- In a guarded text every separator becomes one. -/
theorem openUnderscores_mangle {t : Text} (h : t.Guarded) :
    openUnderscores (mangle t) = t.countP fun c => decide c.IsSeparator := by
  induction t with
  | nil => rfl
  | cons c t ih =>
      obtain ⟨hhead, ht⟩ := List.isChain_cons.1 h
      rw [mangle_cons]
      by_cases hc : c.IsSeparator
      · have hplain : (mangle t).StartsPlain := startsPlain_mangle fun d hd => hhead d hd hc
        rw [CodePoint.openUnderscores_separator hc, List.countP_cons_of_pos (by simpa using hc),
          if_pos hplain, ih ht, Nat.add_comm]
      · rw [(CodePoint.openUnderscores_mangled hc _).2, List.countP_cons_of_neg (by simpa using hc),
          ih ht]

end JniHeader
