import JniHeader.Proofs.Text.Only
import JniHeader.Text.Numeral
import Mathlib.Algebra.Order.Ring.Nat
import Mathlib.Data.List.Induction
import Mathlib.Tactic.Ring

/-!
# Decimal digits

Digits stand for a number, and the digits that are written for a number stand for it.
The zeros in front of digits add nothing to their number, and those behind them scale
it. Only zero itself is written with a zero in front.
-/
namespace JniHeader.Text

variable {s t : Text}

theorem only_ofNat (n : ℕ) : (ofNat n).Only CodePoint.isAsciiDigit := by
  intro c hc
  obtain ⟨d, hd, rfl⟩ := List.mem_map.1 hc
  have hdigit : d.isDigit = true := Nat.isDigit_of_mem_toDigits (by decide) (by decide) hd
  rw [Char.isDigit, Bool.and_eq_true, decide_eq_true_eq, decide_eq_true_eq] at hdigit
  rw [CodePoint.isAsciiDigit, CodePoint.within, Bool.and_eq_true, decide_eq_true_eq,
    decide_eq_true_eq]
  exact ⟨hdigit.1, hdigit.2⟩

theorem ofNat_ne_nil (n : ℕ) : ofNat n ≠ [] := by
  rw [ofNat, Ne, List.map_eq_nil_iff]
  exact Nat.toDigits_ne_nil

/-- The number that decimal digits stand for. -/
def decimal (t : Text) : ℕ := t.foldl (fun n c => 10 * n + (c.val - 0x30)) 0

theorem decimal_ofNat (n : ℕ) : decimal (ofNat n) = n := by
  rw [decimal, ofNat, List.foldl_map]
  exact Nat.ofDigitChars_toDigits (by decide) (by decide)

theorem decimal_concat (t : Text) (c : CodePoint) :
    decimal (t ++ [c]) = 10 * decimal t + (c.val - 0x30) := by
  rw [decimal, List.foldl_append]
  rfl

theorem decimal_append (s t : Text) :
    decimal (s ++ t) = decimal s * 10 ^ t.length + decimal t := by
  induction t using List.reverseRecOn with
  | nil => simp [decimal]
  | append_singleton t c ih =>
      rw [← List.append_assoc, decimal_concat, decimal_concat, ih, List.length_append,
        List.length_singleton, Nat.pow_succ]
      ring

theorem decimal_zeros (n : ℕ) : decimal (List.replicate n (CodePoint.ofChar '0')) = 0 := by
  induction n with
  | zero => rfl
  | succ n ih =>
      rw [List.replicate_succ', decimal_concat, ih]
      rfl

theorem decimal_lt (ht : t.Only CodePoint.isAsciiDigit) : decimal t < 10 ^ t.length := by
  induction t using List.reverseRecOn with
  | nil => exact Nat.one_pos
  | append_singleton t c ih =>
      obtain ⟨hinit, hlast⟩ := only_append.1 ht
      have hc := only_singleton.1 hlast
      rw [CodePoint.isAsciiDigit, CodePoint.within, Bool.and_eq_true, decide_eq_true_eq,
        decide_eq_true_eq] at hc
      have hlt := ih hinit
      rw [decimal_concat, List.length_append, List.length_singleton, Nat.pow_succ]
      omega

/-- The digits of a number have no zero in front, unless it is the number. -/
theorem ofNat_eq_zero_cons {n : ℕ} {rest : Text}
    (h : ofNat n = CodePoint.ofChar '0' :: rest) : rest = [] := by
  have hdigits := only_ofNat n
  rw [h] at hdigits
  have hlt := decimal_lt (only_cons.1 hdigits).2
  have hvalue : decimal rest = n := by
    have happend := decimal_append [CodePoint.ofChar '0'] rest
    rw [List.singleton_append, ← h, decimal_ofNat] at happend
    have hzero : decimal [CodePoint.ofChar '0'] = 0 := rfl
    rw [happend, hzero, Nat.zero_mul, Nat.zero_add]
  rw [hvalue] at hlt
  by_contra hne
  have hpos : 0 < rest.length := List.length_pos_iff.2 hne
  have hcount := (Nat.length_toDigits_le_iff (by decide : 1 < 10) hpos).2 hlt
  have hlength : (Nat.toDigits 10 n).length = rest.length + 1 := by
    rw [← List.length_cons, ← h, ofNat, List.length_map]
  omega

/-- The digits at the front of a text, and the text behind them. -/
def spanDigits (t : Text) : Text × Text :=
  (t.takeWhile CodePoint.isAsciiDigit, t.dropWhile CodePoint.isAsciiDigit)

/-- Digits in front of anything else are told from it. -/
theorem spanDigits_append (hs : s.Only CodePoint.isAsciiDigit)
    (ht : ∀ c ∈ t.head?, c.isAsciiDigit = false) : spanDigits (s ++ t) = (s, t) := by
  have hstop : t.takeWhile CodePoint.isAsciiDigit = [] ∧ t.dropWhile CodePoint.isAsciiDigit = t := by
    cases t with
    | nil => exact ⟨rfl, rfl⟩
    | cons c t =>
        have hc : ¬ c.isAsciiDigit = true := by
          rw [ht c rfl]
          exact Bool.false_ne_true
        exact ⟨List.takeWhile_cons_of_neg hc, List.dropWhile_cons_of_neg hc⟩
  rw [spanDigits, List.takeWhile_append_of_pos hs,
    List.dropWhile_append_of_pos hs, hstop.1, hstop.2, List.append_nil]

end JniHeader.Text
