import JniHeader.ClassFile.Parser
import Mathlib.Data.List.Induction
import Mathlib.Tactic.Common
import Mathlib.Tactic.NormNum

/-!
# What a reader can give

A property that holds of every value of a reader, whatever bytes it is run on. A
sequence of readers has it if each step passes on what the next one needs. So a number
is as large as its bytes allow, and the entries of a pool hold numbers of their width.
-/
namespace JniHeader.ClassFile

variable {α β : Type} {P : α → Prop} {Q : β → Prop}

/-- Every value that a reader can give has the property. -/
def Yields (r : Reader α) (P : α → Prop) : Prop := ∀ c x c', r c = .ok (x, c') → P x

theorem bigEndian_append (bytes : List UInt8) (b : UInt8) :
    bigEndian (bytes ++ [b]) = bigEndian bytes * 256 + b.toNat := by
  simp only [bigEndian, List.foldl_append, List.foldl_cons, List.foldl_nil]

theorem bigEndian_lt (bytes : List UInt8) : bigEndian bytes < 256 ^ bytes.length := by
  induction bytes using List.reverseRecOn with
  | nil => exact Nat.one_pos
  | append_singleton bytes b ih =>
      have hb := b.toNat_lt
      rw [bigEndian_append, List.length_append, List.length_singleton, Nat.pow_succ]
      omega

namespace Yields

theorem any (r : Reader α) : Yields r fun _ => True := fun _ _ _ _ => trivial

theorem pure {x : α} (h : P x) : Yields (Pure.pure x) P := by
  intro c y c' hrun
  obtain ⟨rfl, -⟩ := Prod.mk.inj (Except.ok.inj hrun)
  exact h

theorem throw (e : ParseError) : Yields (throw e : Reader α) P := by
  intro c x c' hrun
  cases hrun

theorem bind {r : Reader α} {f : α → Reader β} (hr : Yields r P)
    (hf : ∀ x, P x → Yields (f x) Q) : Yields (r >>= f) Q := by
  intro c y c'' hrun
  change (r c >>= fun p => f p.1 p.2) = _ at hrun
  cases hfirst : r c with
  | error e =>
      rw [hfirst] at hrun
      cases hrun
  | ok p =>
      rw [hfirst] at hrun
      exact hf p.1 (hr c p.1 p.2 hfirst) p.2 y c'' hrun

/-- What a first reader gives may be disregarded. -/
theorem bind_any {r : Reader α} {f : α → Reader β} (hf : ∀ x, Yields (f x) Q) :
    Yields (r >>= f) Q :=
  (any r).bind fun x _ => hf x

theorem map {r : Reader α} {g : α → β} (hr : Yields r P) (h : ∀ x, P x → Q (g x)) :
    Yields (g <$> r) Q := by
  rw [map_eq_pure_bind]
  exact hr.bind fun x hx => pure (h x hx)

theorem repeated {item : Reader α} (h : Yields item P) (count : ℕ) :
    Yields (ClassFile.repeated count item) fun xs => ∀ x ∈ xs, P x := by
  induction count with
  | zero => exact pure (by simp)
  | succ count ih =>
      refine h.bind fun x hx => ih.bind fun xs hxs => pure ?_
      exact List.forall_mem_cons.2 ⟨hx, hxs⟩

theorem counted {item : Reader α} (h : Yields item P) :
    Yields (ClassFile.counted item) fun xs => ∀ x ∈ xs, P x :=
  bind_any fun count => h.repeated count

theorem lift {result : Except ParseError α} (h : ∀ x, result = .ok x → P x) :
    Yields (result : Reader α) P := by
  intro c x c' hrun
  cases hresult : result with
  | error e =>
      rw [hresult] at hrun
      cases hrun
  | ok y =>
      rw [hresult] at hrun
      obtain ⟨rfl, -⟩ := Prod.mk.inj (Except.ok.inj hrun)
      exact h y hresult

theorem indexed {find : ℕ → Except ParseError α} (h : ∀ index x, find index = .ok x → P x) :
    Yields (ClassFile.indexed find) P :=
  bind_any fun index => lift (h index)

theorem take (size : ℕ) : Yields (ClassFile.take size) fun bytes => bytes.length = size := by
  intro c bytes c' hrun
  simp only [ClassFile.take] at hrun
  split at hrun
  · cases hrun
  · next hsize =>
      obtain ⟨rfl, -⟩ := Prod.mk.inj (Except.ok.inj hrun)
      have hle : (c.rest.take size).length ≤ size := List.length_take_le size c.rest
      omega

theorem unsigned (size : ℕ) : Yields (ClassFile.unsigned size) fun n => n < 256 ^ size := by
  refine (take size).map fun bytes hbytes => ?_
  rw [← hbytes]
  exact bigEndian_lt bytes

/-- Half of the numbers of a width are negative. -/
theorem signed (size : ℕ) : Yields (ClassFile.signed size) fun i =>
    -(256 ^ size : ℤ) ≤ 2 * i ∧ 2 * i < 256 ^ size := by
  refine (unsigned size).map fun n hn => ?_
  have hwidth : ((Nat.pow 256 size : ℕ) : ℤ) = 256 ^ size := by
    change ((256 ^ size : ℕ) : ℤ) = _
    push_cast
    rfl
  have hbound : (n : ℤ) < 256 ^ size := by
    rw [← hwidth]
    exact_mod_cast hn
  rw [← hwidth] at hbound ⊢
  split_ifs with hhalf
  · omega
  · omega

end Yields

/-- Integers and longs are as wide as their entries. -/
def PoolEntry.InRange : PoolEntry → Prop
  | .integer i => -2 ^ 31 ≤ i ∧ i < 2 ^ 31
  | .long i => -2 ^ 63 ≤ i ∧ i < 2 ^ 63
  | _ => True

def ConstantPool.InRange (p : ConstantPool) : Prop := ∀ e, some e ∈ p.slots → e.InRange

theorem readEntry_yields (index : ℕ) : Yields (readEntry index) PoolEntry.InRange := by
  refine .bind_any fun tag => ?_
  split
  · exact (Yields.any _).map fun _ _ => trivial
  · refine (Yields.signed 4).map fun i hi => ?_
    norm_num at hi
    constructor <;> omega
  · exact (Yields.any _).map fun _ _ => trivial
  · refine (Yields.signed 8).map fun i hi => ?_
    norm_num at hi
    constructor <;> omega
  · exact (Yields.any _).map fun _ _ => trivial
  · exact (Yields.any _).map fun _ _ => trivial
  · exact (Yields.any _).map fun _ _ => trivial
  · split
    · exact .bind_any fun _ => .pure trivial
    · exact .throw _

theorem PoolEntry.InRange.cons {entry : PoolEntry} (h : entry.InRange)
    {slots : List (Option PoolEntry)} (hslots : ∀ e, some e ∈ slots → e.InRange) :
    ∀ e, some e ∈ some entry :: slots → e.InRange := by
  intro e he
  rcases List.mem_cons.1 he with he | he
  · rw [Option.some.inj he]
    exact h
  · exact hslots e he

theorem readSlots_yields (count index : ℕ) :
    Yields (readSlots count index) fun slots => ∀ e, some e ∈ slots → e.InRange := by
  induction count, index using readSlots.induct with
  | case1 index => exact .pure (by simp)
  | case2 count index hwide ih =>
      rw [readSlots]
      refine (readEntry_yields index).bind fun entry hentry => ?_
      split
      · cases count with
        | zero =>
            exact .pure (hentry.cons fun _ he => absurd he List.not_mem_nil)
        | succ count =>
            refine Yields.bind hwide fun slots hslots => .pure (hentry.cons fun e he => ?_)
            exact hslots e (List.mem_of_ne_of_mem (Option.some_ne_none e) he)
      · exact ih.bind fun slots hslots => .pure (hentry.cons hslots)

theorem readPool_yields : Yields readPool ConstantPool.InRange := by
  refine .bind_any fun count => ?_
  refine (readSlots_yields (count - 1) 1).bind fun slots hslots => .pure fun e he => ?_
  exact hslots e (List.mem_of_ne_of_mem (Option.some_ne_none e) he)

theorem ConstantPool.mem_slots {p : ConstantPool} {index : ℕ} {e : PoolEntry}
    (hslot : p.slot? index = .ok (some e)) : some e ∈ p.slots := by
  rw [ConstantPool.slot?] at hslot
  split_ifs at hslot
  exact List.mem_of_getElem? (Option.join_eq_some_iff.1 (Except.ok.inj hslot))

theorem ConstantPool.InRange.slot {p : ConstantPool} (h : p.InRange) {index : ℕ} {e : PoolEntry}
    (hslot : p.slot? index = .ok (some e)) : e.InRange :=
  h e (mem_slots hslot)

/-- A class file comes from a run of its reader. -/
theorem exists_run {bytes : List UInt8} {c : ClassFile} (h : parse bytes = .ok c) :
    ∃ c', readClassFile ⟨bytes, 0⟩ = .ok (c, c') := by
  rw [parse] at h
  cases hrun : readClassFile ⟨bytes, 0⟩ with
  | error e =>
      rw [hrun] at h
      cases h
  | ok p =>
      rw [hrun] at h
      obtain rfl := Except.ok.inj h
      exact ⟨p.2, rfl⟩

end JniHeader.ClassFile
