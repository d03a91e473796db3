import JniHeader.Proofs.ClassFile.RoundTrip
import JniHeader.Proofs.ClassFile.Yields

/-!
# Where a class file ends

A run of a reader takes certain bytes and no others. The same bytes are read to the
same value whatever follows them, and when they are cut short anywhere the reader asks
for bytes that are missing: nothing that it reads before the cut lets it stop earlier
or find another fault. So a class file has an end of its own inside the bytes that it
is read from, and every cut before this end is noticed.
-/
namespace JniHeader.ClassFile

variable {α β : Type}

/-- Wherever the bytes are cut, the reader is refused more bytes than are left. -/
def RefusesCuts (r : Reader α) (bytes : List UInt8) : Prop :=
  ∀ k < bytes.length, ∀ start, ∃ size offset,
    r ⟨bytes.take k, start⟩ = .error (.truncated size offset) ∧
      offset ≤ start + k ∧ start + k < offset + size

/-- Whatever the reader accepts, it reads off bytes of which it refuses every cut. -/
def Definite (r : Reader α) : Prop :=
  ∀ c x c', r c = .ok (x, c') →
    ∃ bytes, c.rest = bytes ++ c'.rest ∧ Reads r bytes x ∧ RefusesCuts r bytes

namespace RefusesCuts

theorem nil (r : Reader α) : RefusesCuts r [] := fun k hk => absurd hk (Nat.not_lt_zero k)

theorem take (bytes : List UInt8) : RefusesCuts (ClassFile.take bytes.length) bytes := by
  intro k hk start
  have hlength : ((bytes.take k).take bytes.length).length = k := by
    rw [List.take_take, List.length_take]
    omega
  refine ⟨bytes.length, start, if_pos ?_, by omega, by omega⟩
  change ((bytes.take k).take bytes.length).length < bytes.length
  omega

/-- A cut of a sequence falls into the bytes of its first part or into those behind them. -/
theorem bind {r : Reader α} {f : α → Reader β} {front back : List UInt8} {x : α}
    (hreads : Reads r front x) (hr : RefusesCuts r front) (hf : RefusesCuts (f x) back) :
    RefusesCuts (r >>= f) (front ++ back) := by
  intro k hk start
  rw [List.length_append] at hk
  rcases Nat.lt_or_ge k front.length with hfront | hback
  · obtain ⟨size, offset, hrun, hbounds⟩ := hr k hfront start
    refine ⟨size, offset, ?_, hbounds⟩
    rw [List.take_append_of_le_length (Nat.le_of_lt hfront)]
    change (r _ >>= fun p => f p.1 p.2) = _
    rw [hrun]
    rfl
  · obtain ⟨size, offset, hrun, hbounds⟩ :=
      hf (k - front.length) (by omega) (start + front.length)
    refine ⟨size, offset, ?_, by omega, by omega⟩
    rw [List.take_append, List.take_of_length_le hback]
    change (r _ >>= fun p => f p.1 p.2) = _
    rw [hreads]
    exact hrun

end RefusesCuts

namespace Definite

theorem pure (x : α) : Definite (Pure.pure x) := by
  intro c y c' hrun
  obtain ⟨rfl, rfl⟩ := Prod.mk.inj (Except.ok.inj hrun)
  exact ⟨[], rfl, Reads.pure x, RefusesCuts.nil _⟩

theorem throw (e : ParseError) : Definite (throw e : Reader α) := by
  intro c x c' hrun
  cases hrun

theorem bind {r : Reader α} {f : α → Reader β} (hr : Definite r) (hf : ∀ x, Definite (f x)) :
    Definite (r >>= f) := by
  intro c y c'' hrun
  change (r c >>= fun p => f p.1 p.2) = _ at hrun
  cases hfirst : r c with
  | error e =>
      rw [hfirst] at hrun
      cases hrun
  | ok p =>
      rw [hfirst] at hrun
      obtain ⟨front, hfront, hreads, hcuts⟩ := hr c p.1 p.2 hfirst
      obtain ⟨back, hback, hreads', hcuts'⟩ := hf p.1 p.2 y c'' hrun
      refine ⟨front ++ back, ?_, hreads.bind hreads', hcuts.bind hreads hcuts'⟩
      rw [hfront, hback, List.append_assoc]

theorem map {r : Reader α} (hr : Definite r) (g : α → β) : Definite (g <$> r) := by
  rw [map_eq_pure_bind]
  exact hr.bind fun x => pure (g x)

theorem take (size : ℕ) : Definite (ClassFile.take size) := by
  intro c bytes c' hrun
  simp only [ClassFile.take] at hrun
  split at hrun
  · cases hrun
  · next henough =>
      obtain ⟨rfl, rfl⟩ := Prod.mk.inj (Except.ok.inj hrun)
      have hsize : (c.rest.take size).length = size := by
        have hle : (c.rest.take size).length ≤ size := List.length_take_le size c.rest
        omega
      have hreads := Reads.take (c.rest.take size)
      have hcuts := RefusesCuts.take (c.rest.take size)
      rw [hsize] at hreads hcuts
      exact ⟨c.rest.take size, (List.take_append_drop size c.rest).symm, hreads, hcuts⟩

theorem unsigned (size : ℕ) : Definite (ClassFile.unsigned size) := (take size).map bigEndian

theorem signed (size : ℕ) : Definite (ClassFile.signed size) := (unsigned size).map _

theorem repeated {item : Reader α} (h : Definite item) (count : ℕ) :
    Definite (ClassFile.repeated count item) := by
  induction count with
  | zero => exact pure []
  | succ count ih => exact h.bind fun x => ih.bind fun xs => pure (x :: xs)

theorem counted {item : Reader α} (h : Definite item) : Definite (ClassFile.counted item) :=
  (unsigned 2).bind h.repeated

/-- A check of what has been read takes no bytes. -/
theorem lift (result : Except ParseError α) : Definite (result : Reader α) := by
  intro c x c' hrun
  cases hresult : result with
  | error e =>
      rw [hresult] at hrun
      cases hrun
  | ok y =>
      rw [hresult] at hrun
      obtain ⟨rfl, rfl⟩ := Prod.mk.inj (Except.ok.inj hrun)
      exact ⟨[], rfl, Reads.lift rfl, RefusesCuts.nil _⟩

theorem indexed (find : ℕ → Except ParseError α) : Definite (ClassFile.indexed find) :=
  (unsigned 2).bind fun index => lift (find index)

end Definite

theorem readUtf8_definite : Definite readUtf8 := by
  refine (Definite.unsigned 2).bind fun size => (Definite.take size).bind fun bytes => ?_
  split
  · exact .pure _
  · exact .throw _

theorem readEntry_definite (index : ℕ) : Definite (readEntry index) := by
  refine (Definite.unsigned 1).bind fun tag => ?_
  split
  · exact readUtf8_definite.map _
  · exact (Definite.signed 4).map _
  · exact (Definite.unsigned 4).map _
  · exact (Definite.signed 8).map _
  · exact (Definite.unsigned 8).map _
  · exact (Definite.unsigned 2).map _
  · exact (Definite.unsigned 2).map _
  · split
    · next size _ => exact (Definite.take size).bind fun _ => .pure _
    · exact .throw _

theorem readSlots_definite (count index : ℕ) : Definite (readSlots count index) := by
  induction count, index using readSlots.induct with
  | case1 index => exact .pure []
  | case2 count index hwide ih =>
      rw [readSlots]
      refine (readEntry_definite index).bind fun entry => ?_
      split
      · cases count with
        | zero => exact .pure _
        | succ count => exact Definite.bind hwide fun slots => .pure _
      · exact ih.bind fun slots => .pure _

theorem readPool_definite : Definite readPool :=
  (Definite.unsigned 2).bind fun count =>
    (readSlots_definite (count - 1) 1).bind fun _ => .pure _

variable (pool : ConstantPool)

theorem readFieldAttribute_definite (descriptor : Text) (value : Option ConstantValue) :
    Definite (readFieldAttribute pool descriptor value) := by
  refine (Definite.indexed _).bind fun name => (Definite.unsigned 4).bind fun length => ?_
  split_ifs
  · exact (Definite.indexed _).bind fun _ => .pure _
  · exact (Definite.take length).bind fun _ => .pure _

theorem readFieldAttributes_definite (descriptor : Text) (count : ℕ)
    (value : Option ConstantValue) :
    Definite (readFieldAttributes pool descriptor count value) := by
  induction count generalizing value with
  | zero => exact .pure value
  | succ count ih => exact (readFieldAttribute_definite pool descriptor value).bind ih

theorem readField_definite : Definite (readField pool) := by
  refine (Definite.unsigned 2).bind fun flags => (Definite.indexed _).bind fun name => ?_
  refine (Definite.indexed _).bind fun descriptor => (Definite.unsigned 2).bind fun count => ?_
  exact (readFieldAttributes_definite pool descriptor count none).bind fun _ => .pure _

theorem skipAttribute_definite : Definite (skipAttribute pool) := by
  refine (Definite.indexed _).bind fun name => (Definite.unsigned 4).bind fun length => ?_
  exact (Definite.take length).bind fun _ => .pure _

theorem readMethod_definite : Definite (readMethod pool) := by
  refine (Definite.unsigned 2).bind fun flags => (Definite.indexed _).bind fun name => ?_
  refine (Definite.indexed _).bind fun descriptor => ?_
  exact (skipAttribute_definite pool).counted.bind fun _ => .pure _

theorem readClassFile_definite : Definite readClassFile := by
  refine (Definite.unsigned 4).bind fun magic => ?_
  split_ifs
  · exact .throw _
  · refine (Definite.unsigned 2).bind fun minor => (Definite.unsigned 2).bind fun major => ?_
    refine readPool_definite.bind fun pool => (Definite.unsigned 2).bind fun flags => ?_
    refine (Definite.indexed _).bind fun thisClass => (Definite.indexed _).bind fun super => ?_
    refine (Definite.indexed _).counted.bind fun interfaces => ?_
    refine (readField_definite pool).counted.bind fun fields => ?_
    exact (readMethod_definite pool).counted.bind fun methods => .pure _

/-- A class file is read off the front of its bytes and depends on nothing behind this part. Cut
anywhere inside it, the bytes are refused as truncated: so many bytes are needed at an offset as are
not there. -/
theorem parse_refuses_cuts {bytes : List UInt8} {c : ClassFile} (h : parse bytes = .ok c) :
    ∃ n ≤ bytes.length,
      (∀ other : List UInt8, other.take n = bytes.take n → parse other = .ok c) ∧
      ∀ k < n, ∃ size offset, parse (bytes.take k) = .error (.truncated size offset) ∧
        offset ≤ k ∧ k < offset + size ∧
        (ParseError.truncated size offset).message = "Truncated class file: needed " ++
          Text.ofNat size ++ " bytes at offset " ++ Text.ofNat offset := by
  obtain ⟨c', hrun⟩ := exists_run h
  obtain ⟨taken, hbytes, hreads, hcuts⟩ := readClassFile_definite _ _ _ hrun
  change bytes = taken ++ c'.rest at hbytes
  have htaken : bytes.take taken.length = taken := by
    rw [hbytes, List.take_left]
  refine ⟨taken.length, ?_, ?_, ?_⟩
  · rw [hbytes, List.length_append]
    exact Nat.le_add_right _ _
  · intro other hother
    have hsplit : taken ++ other.drop taken.length = other := by
      conv_rhs => rw [← List.take_append_drop taken.length other, hother, htaken]
    rw [parse, ← hsplit, hreads]
    rfl
  · intro k hk
    obtain ⟨size, offset, hcut, hle, hlt⟩ := hcuts k hk 0
    have hprefix : bytes.take k = taken.take k := by
      rw [hbytes, List.take_append_of_le_length (Nat.le_of_lt hk)]
    refine ⟨size, offset, ?_, by omega, by omega, rfl⟩
    rw [parse, hprefix, hcut]
    rfl

/-- A class file with a wide constant, a constant value and two bytes behind its end. -/
theorem parse_refuses_cuts_sample :
    let bytes := Sample.layout.bytes ++ [0, 0]
    parse bytes = .ok Sample.layout.classFile ∧ ∃ n ≤ bytes.length,
      (∀ other : List UInt8, other.take n = bytes.take n →
        parse other = .ok Sample.layout.classFile) ∧
      ∀ k < n, ∃ size offset, parse (bytes.take k) = .error (.truncated size offset) ∧
        offset ≤ k ∧ k < offset + size ∧
        (ParseError.truncated size offset).message = "Truncated class file: needed " ++
          Text.ofNat size ++ " bytes at offset " ++ Text.ofNat offset := by
  intro bytes
  have hparse : parse bytes = .ok Sample.layout.classFile := by
    rw [parse, Sample.layout.reads]
    rfl
  exact ⟨hparse, parse_refuses_cuts hparse⟩

end JniHeader.ClassFile
