import JniHeader.ClassFile.Parser
import Mathlib.Algebra.Group.Nat.Defs
import Mathlib.Tactic.Common

/-!
# What a reader consumes

A reader reads a value off some bytes if it takes exactly these bytes from the
front of any input and gives the value, whatever follows them. Readers in
sequence read concatenated bytes, so the layout of a record can be followed field
by field without regard to where the record stands.
-/
namespace JniHeader.ClassFile

/-- A number as `size` bytes, most significant first. -/
def bigEndianBytes : (size n : ℕ) → List UInt8
  | 0, _ => []
  | size + 1, n => bigEndianBytes size (n / 256) ++ [n.toUInt8]

theorem length_bigEndianBytes (size n : ℕ) : (bigEndianBytes size n).length = size := by
  induction size generalizing n with
  | zero => rfl
  | succ size ih => rw [bigEndianBytes, List.length_append, ih, List.length_singleton]

theorem bigEndian_bigEndianBytes {size n : ℕ} (h : n < 256 ^ size) :
    bigEndian (bigEndianBytes size n) = n := by
  induction size generalizing n with
  | zero =>
      obtain rfl : n = 0 := by simpa using h
      rfl
  | succ size ih =>
      have hquotient : n / 256 < 256 ^ size := by
        rw [Nat.pow_succ] at h
        omega
      have hlast : n.toUInt8.toNat = n % 256 := UInt8.toNat_ofNat'
      have hfold : bigEndian (bigEndianBytes (size + 1) n) =
          bigEndian (bigEndianBytes size (n / 256)) * 256 + n.toUInt8.toNat := by
        simp only [bigEndianBytes, bigEndian, List.foldl_append, List.foldl_cons, List.foldl_nil]
      rw [hfold, ih hquotient, hlast]
      omega

variable {α β γ : Type}

/-- The reader takes exactly these bytes and gives the value. -/
def Reads (r : Reader α) (bytes : List UInt8) (x : α) : Prop :=
  ∀ rest offset, r ⟨bytes ++ rest, offset⟩ = .ok (x, ⟨rest, offset + bytes.length⟩)

namespace Reads

theorem pure (x : α) : Reads (Pure.pure x) [] x := fun _ _ => rfl

theorem bind {r : Reader α} {f : α → Reader β} {front back : List UInt8} {x : α} {y : β}
    (hr : Reads r front x) (hf : Reads (f x) back y) : Reads (r >>= f) (front ++ back) y := by
  intro rest offset
  have hrun : (r >>= f) ⟨front ++ back ++ rest, offset⟩ =
      f x ⟨back ++ rest, offset + front.length⟩ := by
    rw [List.append_assoc]
    change (r _ >>= fun p => f p.1 p.2) = _
    rw [hr]
    rfl
  rw [hrun, hf, List.length_append, Nat.add_assoc]

/-- What follows a reader may consume nothing. -/
theorem bind_nil {r : Reader α} {f : α → Reader β} {bytes : List UInt8} {x : α} {y : β}
    (hr : Reads r bytes x) (hf : Reads (f x) [] y) : Reads (r >>= f) bytes y := by
  have h := hr.bind hf
  rw [List.append_nil] at h
  exact h

theorem bind_pure {r : Reader α} {bytes : List UInt8} {x : α} (hr : Reads r bytes x)
    (g : α → β) : Reads (r >>= fun a => Pure.pure (g a)) bytes (g x) :=
  hr.bind_nil (f := fun a => Pure.pure (g a)) (Reads.pure (g x))

theorem map {r : Reader α} {bytes : List UInt8} {x : α} (hr : Reads r bytes x) (g : α → β) :
    Reads (g <$> r) bytes (g x) := by
  intro rest offset
  change (r _ >>= fun p => Pure.pure (g p.1, p.2)) = _
  rw [hr]
  rfl

theorem take (bytes : List UInt8) : Reads (ClassFile.take bytes.length) bytes bytes := by
  intro rest offset
  simp [ClassFile.take]

theorem unsigned (size : ℕ) {n : ℕ} (h : n < 256 ^ size) :
    Reads (ClassFile.unsigned size) (bigEndianBytes size n) n := by
  have htake := take (bigEndianBytes size n)
  rw [length_bigEndianBytes] at htake
  have hmap := htake.map bigEndian
  rw [bigEndian_bigEndianBytes h] at hmap
  exact hmap

theorem uint16 (u : UInt16) : Reads (ClassFile.unsigned 2) (bigEndianBytes 2 u.toNat) u.toNat :=
  unsigned 2 u.toNat_lt

theorem signed {size n : ℕ} (h : n < 256 ^ size) :
    Reads (ClassFile.signed size) (bigEndianBytes size n)
      (if 2 * n < Nat.pow 256 size then (n : Int) else n - Nat.pow 256 size) :=
  (unsigned size h).map _

theorem int32 (i : Int32) :
    Reads (ClassFile.signed 4) (bigEndianBytes 4 i.toUInt32.toNat) i.toInt := by
  have hlt : i.toUInt32.toNat < 256 ^ 4 := i.toUInt32.toNat_lt
  have hread := signed hlt
  have hvalue : i.toInt = if 2 * i.toUInt32.toNat < Nat.pow 256 4 then (i.toUInt32.toNat : Int)
      else i.toUInt32.toNat - Nat.pow 256 4 := BitVec.toInt_eq_toNat_cond i.toBitVec
  rw [hvalue]
  exact hread

theorem int64 (i : Int64) :
    Reads (ClassFile.signed 8) (bigEndianBytes 8 i.toUInt64.toNat) i.toInt := by
  have hlt : i.toUInt64.toNat < 256 ^ 8 := i.toUInt64.toNat_lt
  have hread := signed hlt
  have hvalue : i.toInt = if 2 * i.toUInt64.toNat < Nat.pow 256 8 then (i.toUInt64.toNat : Int)
      else i.toUInt64.toNat - Nat.pow 256 8 := BitVec.toInt_eq_toNat_cond i.toBitVec
  rw [hvalue]
  exact hread

/-- A repeated reader reads items one after the other. -/
theorem repeated {item : Reader α} {encode : γ → List UInt8} {value : γ → α} {xs : List γ}
    (h : ∀ x ∈ xs, Reads item (encode x) (value x)) :
    Reads (ClassFile.repeated xs.length item) (xs.flatMap encode) (xs.map value) := by
  induction xs with
  | nil => exact Reads.pure []
  | cons x xs ih =>
      have hrest := ih fun y hy => h y (List.mem_cons_of_mem x hy)
      exact (h x List.mem_cons_self).bind (hrest.bind_pure _)

theorem counted {item : Reader α} {encode : γ → List UInt8} {value : γ → α} {xs : List γ}
    (hlength : xs.length < 65536) (h : ∀ x ∈ xs, Reads item (encode x) (value x)) :
    Reads (ClassFile.counted item) (bigEndianBytes 2 xs.length ++ xs.flatMap encode)
      (xs.map value) :=
  (unsigned 2 hlength).bind (repeated h)

theorem lift {result : Except ParseError α} {x : α} (h : result = .ok x) :
    Reads (result : Reader α) [] x := by
  intro rest offset
  rw [h]
  rfl

theorem indexed {find : ℕ → Except ParseError α} {index : UInt16} {x : α}
    (h : find index.toNat = .ok x) :
    Reads (ClassFile.indexed find) (bigEndianBytes 2 index.toNat) x :=
  (uint16 index).bind_nil (f := fun index => (find index : Reader α)) (lift h)

end Reads

end JniHeader.ClassFile
