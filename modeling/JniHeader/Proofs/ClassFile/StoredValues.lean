import JniHeader.Proofs.ClassFile.Reads
import JniHeader.Proofs.Meta.ExportedConstants

/-!
# Where constant values are stored

A class file as it stands in bytes: constants of which nothing but tag and size is
known, and members that refer to them by index. What a reader gives comes from the
bytes that it takes, so a relation between the two holds for a sequence of readers if
each of them hands it on. In this way every class file that is read is taken apart into
what stands in it, and the value of a field is followed to the constant that the field's
last `ConstantValue` attribute names.
-/
namespace JniHeader.ClassFile

/-- A constant as it stands in a pool: its tag and the bytes behind the tag. -/
structure StoredConstant where
  tag : UInt8
  payload : List UInt8

namespace StoredConstant

def bytes (c : StoredConstant) : List UInt8 := c.tag :: c.payload

/-- Longs and doubles take two indices. -/
def width (c : StoredConstant) : ℕ := if c.tag.toNat = 5 ∨ c.tag.toNat = 6 then 2 else 1

/-- The size of the payload by the tag, for all constants but texts. -/
def payloadSize? : (tag : ℕ) → Option ℕ
  | 3 | 4 | 9 | 10 | 11 | 12 | 17 | 18 => some 4
  | 5 | 6 => some 8
  | 7 | 8 | 16 | 19 | 20 => some 2
  | 15 => some 3
  | _ => none

/-- The payload is as long as the tag says; that of a text begins with its length. -/
def IsWhole (c : StoredConstant) : Prop :=
  if c.tag.toNat = 1 then
    2 ≤ c.payload.length ∧ c.payload.length = 2 + bigEndian (c.payload.take 2)
  else payloadSize? c.tag.toNat = some c.payload.length

/-- The constant is a text, and this one. -/
def IsText (c : StoredConstant) (t : Text) : Prop :=
  c.tag.toNat = 1 ∧ ModifiedUtf8.decode (c.payload.drop 2) = .ok t

end StoredConstant

/-- The constant at an index. Indices begin with one and count the widths of the constants. -/
def storedAt : List StoredConstant → (index : ℕ) → Option StoredConstant
  | [], _ => none
  | c :: cs, index => if index = 1 then some c else storedAt cs (index - c.width)

/-- The constants take so many indices. The second one of a constant at the end may be missing. -/
def Fills : List StoredConstant → (indices : ℕ) → Prop
  | [], n => n = 0
  | c :: cs, n => 0 < n ∧ Fills cs (n - c.width)

/-- A text stands at the index. -/
def HoldsText (cs : List StoredConstant) (index : UInt16) (t : Text) : Prop :=
  ∃ c, storedAt cs index.toNat = some c ∧ c.IsText t

structure StoredAttribute where
  name : UInt16
  payload : List UInt8
  fits : payload.length < 256 ^ 4

namespace StoredAttribute

def bytes (a : StoredAttribute) : List UInt8 :=
  bigEndianBytes 2 a.name.toNat ++ (bigEndianBytes 4 a.payload.length ++ a.payload)

/-- The attribute gives a field its value. -/
def IsValue (cs : List StoredConstant) (a : StoredAttribute) : Prop :=
  HoldsText cs a.name "ConstantValue" ∧ a.payload.length = 2

end StoredAttribute

/-- A field or a method. -/
structure StoredMember where
  accessFlags : UInt16
  name : UInt16
  descriptor : UInt16
  attributes : List StoredAttribute
  fits : attributes.length < 256 ^ 2

namespace StoredMember

def bytes (m : StoredMember) : List UInt8 :=
  bigEndianBytes 2 m.accessFlags.toNat ++ (bigEndianBytes 2 m.name.toNat ++
    (bigEndianBytes 2 m.descriptor.toNat ++ (bigEndianBytes 2 m.attributes.length ++
      m.attributes.flatMap StoredAttribute.bytes)))

/-- The last of the attributes that give the member a value names this constant. -/
def HasConstant (cs : List StoredConstant) (m : StoredMember) (c : StoredConstant) : Prop :=
  ∃ before a after, m.attributes = before ++ a :: after ∧ a.IsValue cs ∧
    (∀ b ∈ after, ¬ b.IsValue cs) ∧ storedAt cs (bigEndian a.payload) = some c

end StoredMember

/-- What stands in a class file. -/
structure StoredClass where
  minorVersion : UInt16
  majorVersion : UInt16
  poolCount : UInt16
  constants : List StoredConstant
  accessFlags : UInt16
  thisClass : UInt16
  superClass : UInt16
  interfaces : List UInt16
  fields : List StoredMember
  methods : List StoredMember
  whole : ∀ c ∈ constants, c.IsWhole
  fills : Fills constants (poolCount.toNat - 1)
  interfaces_fit : interfaces.length < 256 ^ 2
  fields_fit : fields.length < 256 ^ 2
  methods_fit : methods.length < 256 ^ 2

/-- The class file up to its last method. -/
def StoredClass.bytes (s : StoredClass) : List UInt8 :=
  bigEndianBytes 4 0xCAFEBABE ++ (bigEndianBytes 2 s.minorVersion.toNat ++
    (bigEndianBytes 2 s.majorVersion.toNat ++
      ((bigEndianBytes 2 s.poolCount.toNat ++ s.constants.flatMap StoredConstant.bytes) ++
        (bigEndianBytes 2 s.accessFlags.toNat ++ (bigEndianBytes 2 s.thisClass.toNat ++
          (bigEndianBytes 2 s.superClass.toNat ++
            ((bigEndianBytes 2 s.interfaces.length ++
                s.interfaces.flatMap fun i => bigEndianBytes 2 i.toNat) ++
              ((bigEndianBytes 2 s.fields.length ++ s.fields.flatMap StoredMember.bytes) ++
                (bigEndianBytes 2 s.methods.length ++
                  s.methods.flatMap StoredMember.bytes)))))))))

/-- The number that bytes stand for in two's complement, most significant byte first. -/
def twosComplement (bytes : List UInt8) : ℤ :=
  (BitVec.ofNat (8 * bytes.length) (bigEndian bytes)).toInt

/-- Half of the patterns stand for a negative number. -/
theorem twosComplement_eq (bytes : List UInt8) :
    twosComplement bytes =
      if 2 * bigEndian bytes < Nat.pow 256 bytes.length then (bigEndian bytes : ℤ)
      else bigEndian bytes - Nat.pow 256 bytes.length := by
  have hpow : 2 ^ (8 * bytes.length) = Nat.pow 256 bytes.length := Nat.pow_mul 2 8 bytes.length
  have hlt : bigEndian bytes < 2 ^ (8 * bytes.length) := by
    rw [hpow]
    exact bigEndian_lt bytes
  rw [twosComplement, BitVec.toInt_eq_toNat_cond, BitVec.toNat_ofNat, Nat.mod_eq_of_lt hlt, hpow]

theorem bigEndianBytes_bigEndian (bytes : List UInt8) :
    bigEndianBytes bytes.length (bigEndian bytes) = bytes := by
  induction bytes using List.reverseRecOn with
  | nil => rfl
  | append_singleton bytes b ih =>
      have hb := b.toNat_lt
      have hfront : (bigEndian bytes * 256 + b.toNat) / 256 = bigEndian bytes := by omega
      have hlast : (bigEndian bytes * 256 + b.toNat).toUInt8 = b := by
        apply UInt8.toNat_inj.1
        rw [Nat.toUInt8, UInt8.toNat_ofNat']
        omega
      rw [List.length_append, List.length_singleton, bigEndianBytes, bigEndian_append, hfront,
        hlast, ih]

variable {α β σ : Type} {P : List UInt8 → α → Prop} {Q : List UInt8 → β → Prop}

/-- Every value that a reader gives is in the relation to the bytes that are taken for it. -/
def Relates (r : Reader α) (P : List UInt8 → α → Prop) : Prop :=
  ∀ c x c', r c = .ok (x, c') → ∃ bytes, c.rest = bytes ++ c'.rest ∧ P bytes x

namespace Relates

theorem pure {x : α} (h : P [] x) : Relates (Pure.pure x) P := by
  intro c y c' hrun
  obtain ⟨rfl, rfl⟩ := Prod.mk.inj (Except.ok.inj hrun)
  exact ⟨[], rfl, h⟩

theorem throw (e : ParseError) : Relates (throw e : Reader α) P := by
  intro c x c' hrun
  cases hrun

theorem bind {r : Reader α} {f : α → Reader β} (hr : Relates r P)
    (hf : ∀ front x, P front x → Relates (f x) fun back => Q (front ++ back)) :
    Relates (r >>= f) Q := by
  intro c y c'' hrun
  change (r c >>= fun p => f p.1 p.2) = _ at hrun
  cases hfirst : r c with
  | error e =>
      rw [hfirst] at hrun
      cases hrun
  | ok p =>
      rw [hfirst] at hrun
      obtain ⟨front, hfront, hp⟩ := hr c p.1 p.2 hfirst
      obtain ⟨back, hback, hq⟩ := hf front p.1 hp p.2 y c'' hrun
      exact ⟨front ++ back, by rw [hfront, hback, List.append_assoc], hq⟩

theorem map {r : Reader α} {g : α → β} (hr : Relates r P)
    (h : ∀ bytes x, P bytes x → Q bytes (g x)) :
    Relates (g <$> r) Q := by
  rw [map_eq_pure_bind]
  refine hr.bind fun front x hx => pure ?_
  rw [List.append_nil]
  exact h front x hx

theorem mono {P' : List UInt8 → α → Prop} {r : Reader α} (hr : Relates r P)
    (h : ∀ bytes x, P bytes x → P' bytes x) : Relates r P' := by
  intro c x c' hrun
  obtain ⟨bytes, hbytes, hx⟩ := hr c x c' hrun
  exact ⟨bytes, hbytes, h bytes x hx⟩

theorem take (size : ℕ) :
    Relates (ClassFile.take size) fun bytes x => x = bytes ∧ bytes.length = size := by
  intro c bytes c' hrun
  have hlength := Yields.take size c bytes c' hrun
  refine ⟨bytes, ?_, rfl, hlength⟩
  simp only [ClassFile.take] at hrun
  split at hrun
  · cases hrun
  · obtain ⟨rfl, rfl⟩ := Prod.mk.inj (Except.ok.inj hrun)
    exact (List.take_append_drop size c.rest).symm

theorem unsigned (size : ℕ) :
    Relates (ClassFile.unsigned size) fun bytes n =>
      bytes = bigEndianBytes size n ∧ n < 256 ^ size := by
  refine (take size).map ?_
  rintro bytes x ⟨rfl, rfl⟩
  exact ⟨(bigEndianBytes_bigEndian x).symm, bigEndian_lt x⟩

theorem uint16 :
    Relates (ClassFile.unsigned 2) fun bytes n =>
      ∃ u : UInt16, bytes = bigEndianBytes 2 u.toNat ∧ n = u.toNat := by
  refine (unsigned 2).mono ?_
  rintro bytes n ⟨rfl, hlt⟩
  have htoNat : (UInt16.ofNat n).toNat = n := UInt16.toNat_ofNat_of_lt' hlt
  exact ⟨UInt16.ofNat n, by rw [htoNat], htoNat.symm⟩

theorem signed (size : ℕ) :
    Relates (ClassFile.signed size) fun bytes i =>
      bytes.length = size ∧ i = twosComplement bytes := by
  refine (unsigned size).map ?_
  rintro bytes n ⟨rfl, hlt⟩
  have hlength := length_bigEndianBytes size n
  refine ⟨hlength, ?_⟩
  rw [twosComplement_eq, hlength, bigEndian_bigEndianBytes hlt]

theorem lift (result : Except ParseError α) :
    Relates (result : Reader α) fun bytes x => bytes = [] ∧ result = .ok x := by
  intro c x c' hrun
  cases result with
  | error e => cases hrun
  | ok y =>
      obtain ⟨rfl, rfl⟩ := Prod.mk.inj (Except.ok.inj hrun)
      exact ⟨[], rfl, rfl, rfl⟩

theorem indexed (find : ℕ → Except ParseError α) :
    Relates (ClassFile.indexed find) fun bytes x =>
      ∃ u : UInt16, bytes = bigEndianBytes 2 u.toNat ∧ find u.toNat = .ok x := by
  refine uint16.bind ?_
  rintro front n ⟨u, rfl, rfl⟩
  refine (lift (find u.toNat)).mono ?_
  rintro back x ⟨rfl, hx⟩
  exact ⟨u, List.append_nil _, hx⟩

/-- The items of a list are laid out one after the other. -/
theorem repeated {item : Reader α} {encode : σ → List UInt8} {R : σ → α → Prop}
    (h : Relates item fun bytes x => ∃ s, bytes = encode s ∧ R s x) (count : ℕ) :
    Relates (ClassFile.repeated count item) fun bytes xs =>
      ∃ ss : List σ, bytes = ss.flatMap encode ∧ ss.length = count ∧ List.Forall₂ R ss xs := by
  induction count with
  | zero => exact pure ⟨[], rfl, rfl, .nil⟩
  | succ count ih =>
      refine h.bind ?_
      rintro front x ⟨s, rfl, hx⟩
      refine ih.bind ?_
      rintro back xs ⟨ss, rfl, rfl, hxs⟩
      exact pure ⟨s :: ss, by rw [List.append_nil, List.flatMap_cons], rfl, .cons hx hxs⟩

theorem counted {item : Reader α} {encode : σ → List UInt8} {R : σ → α → Prop}
    (h : Relates item fun bytes x => ∃ s, bytes = encode s ∧ R s x) :
    Relates (ClassFile.counted item) fun bytes xs =>
      ∃ ss : List σ, bytes = bigEndianBytes 2 ss.length ++ ss.flatMap encode ∧
        ss.length < 256 ^ 2 ∧ List.Forall₂ R ss xs := by
  refine (unsigned 2).bind ?_
  rintro front n ⟨rfl, hlt⟩
  refine (h.repeated n).mono ?_
  rintro back xs ⟨ss, rfl, rfl, hxs⟩
  exact ⟨ss, rfl, hlt, hxs⟩

end Relates

/-- What a constant says of the entry that is made from it. -/
structure StoredConstant.Gives (c : StoredConstant) (e : PoolEntry) : Prop where
  tag : c.tag.toNat = e.tag
  width : c.width = if e.isWide then 2 else 1
  text : ∀ t, e = .utf8 t → ModifiedUtf8.decode (c.payload.drop 2) = .ok t
  integer : ∀ i, e = .integer i ∨ e = .long i → i = twosComplement c.payload

theorem readUtf8_relates :
    Relates readUtf8 fun bytes t =>
      (2 ≤ bytes.length ∧ bytes.length = 2 + bigEndian (bytes.take 2)) ∧
        ModifiedUtf8.decode (bytes.drop 2) = .ok t := by
  refine (Relates.unsigned 2).bind ?_
  rintro front n ⟨rfl, hlt⟩
  refine (Relates.take n).bind ?_
  rintro text x ⟨rfl, rfl⟩
  have hfront := length_bigEndianBytes 2 x.length
  split
  · next t ht =>
      refine .pure ?_
      rw [List.append_nil, List.take_left' hfront, List.drop_left' hfront, List.length_append,
        bigEndian_bigEndianBytes hlt]
      exact ⟨by omega, ht⟩
  · exact .throw _

theorem tag_relates :
    Relates (unsigned 1) fun bytes n => ∃ tag : UInt8, bytes = [tag] ∧ n = tag.toNat := by
  refine (Relates.take 1).map ?_
  rintro bytes x ⟨rfl, hlength⟩
  obtain ⟨tag, rfl⟩ := List.length_eq_one_iff.1 hlength
  exact ⟨tag, rfl, Nat.zero_add _⟩

section

variable {tag : UInt8} {payload : List UInt8} {e : PoolEntry}

/-- A constant of a known size that is no text. -/
theorem exists_constant (htext : tag.toNat ≠ 1)
    (hsize : StoredConstant.payloadSize? tag.toNat = some payload.length)
    (htag : tag.toNat = e.tag) (hwide : e.isWide = decide (tag.toNat = 5 ∨ tag.toNat = 6))
    (hinteger : ∀ i, e = .integer i ∨ e = .long i → i = twosComplement payload) :
    ∃ c : StoredConstant, [tag] ++ payload = c.bytes ∧ c.IsWhole ∧ c.Gives e := by
  refine ⟨⟨tag, payload⟩, rfl, ?_, htag, ?_, ?_, hinteger⟩
  · rwa [StoredConstant.IsWhole, if_neg htext]
  · simp only [StoredConstant.width, hwide, decide_eq_true_eq]
  · rintro t rfl
    exact absurd htag htext

/-- The numbers that are no integers, and the references. -/
theorem relates_number {size : ℕ} {g : ℕ → PoolEntry} (htext : tag.toNat ≠ 1)
    (hsize : StoredConstant.payloadSize? tag.toNat = some size)
    (htag : ∀ n, tag.toNat = (g n).tag)
    (hwide : ∀ n, (g n).isWide = decide (tag.toNat = 5 ∨ tag.toNat = 6))
    (hinteger : ∀ n i, ¬ (g n = .integer i ∨ g n = .long i)) :
    Relates (g <$> unsigned size) fun back e =>
      ∃ c : StoredConstant, [tag] ++ back = c.bytes ∧ c.IsWhole ∧ c.Gives e := by
  refine (Relates.unsigned size).map ?_
  rintro payload n ⟨rfl, -⟩
  rw [← length_bigEndianBytes size n] at hsize
  exact exists_constant htext hsize (htag n) (hwide n) fun i hi => absurd hi (hinteger n i)

theorem relates_integer {size : ℕ} {g : ℤ → PoolEntry} (htext : tag.toNat ≠ 1)
    (hsize : StoredConstant.payloadSize? tag.toNat = some size)
    (htag : ∀ i, tag.toNat = (g i).tag)
    (hwide : ∀ i, (g i).isWide = decide (tag.toNat = 5 ∨ tag.toNat = 6))
    (hinteger : ∀ i j, g i = .integer j ∨ g i = .long j → j = i) :
    Relates (g <$> signed size) fun back e =>
      ∃ c : StoredConstant, [tag] ++ back = c.bytes ∧ c.IsWhole ∧ c.Gives e := by
  refine (Relates.signed size).map ?_
  rintro payload i ⟨rfl, hi⟩
  refine exists_constant htext hsize (htag i) (hwide i) fun j hj => ?_
  rw [hinteger i j hj, hi]

theorem payloadSize?_of_skippedSize? {tag size : ℕ} (h : skippedSize? tag = some size) :
    StoredConstant.payloadSize? tag = some size ∧ tag ≠ 1 ∧ ¬ (tag = 5 ∨ tag = 6) := by
  unfold skippedSize? at h
  split at h <;> simp_all [StoredConstant.payloadSize?]

end

theorem readEntry_relates (index : ℕ) :
    Relates (readEntry index) fun bytes e =>
      ∃ c : StoredConstant, bytes = c.bytes ∧ c.IsWhole ∧ c.Gives e := by
  refine tag_relates.bind ?_
  rintro front n ⟨tag, rfl, rfl⟩
  split
  case h_1 htag =>
    refine readUtf8_relates.map ?_
    rintro payload t ⟨hlength, ht⟩
    refine ⟨⟨tag, payload⟩, rfl, ?_, htag, ?_, ?_, ?_⟩
    · rwa [StoredConstant.IsWhole, if_pos htag]
    · rw [StoredConstant.width, htag]
      rfl
    · intro t' ht'
      cases ht'
      exact ht
    · rintro i (hi | hi) <;> cases hi
  case h_8 =>
    split
    · next size hsize =>
        obtain ⟨hpayload, htext, hwide⟩ := payloadSize?_of_skippedSize? hsize
        refine (Relates.take size).bind ?_
        rintro payload x ⟨rfl, rfl⟩
        refine .pure ?_
        rw [List.append_nil]
        exact exists_constant htext hpayload rfl (decide_eq_false hwide).symm
          (by rintro i (hi | hi) <;> cases hi)
    · exact .throw _
  case h_2 htag =>
    exact relates_integer (by omega) (by rw [htag]; rfl) (fun _ => htag)
      (by simp [htag, PoolEntry.isWide]) (by simp)
  case h_4 htag =>
    exact relates_integer (by omega) (by rw [htag]; rfl) (fun _ => htag)
      (by simp [htag, PoolEntry.isWide]) (by simp)
  all_goals
    next htag =>
      exact relates_number (by omega) (by rw [htag]; rfl) (fun _ => htag)
        (by simp [htag, PoolEntry.isWide]) (by simp)

/-- The entries in the slots are made from the constants at their indices, the first of which is
one. -/
def SlotsStored (cs : List StoredConstant) (slots : Slots) : Prop :=
  ∀ index e, slots[index]? = some (some e) → ∃ c, storedAt cs (index + 1) = some c ∧ c.Gives e

theorem SlotsStored.nil : SlotsStored [] [] := by
  intro index e he
  cases he

theorem SlotsStored.single {c : StoredConstant} {e : PoolEntry} (he : c.Gives e) :
    SlotsStored [c] [some e] := by
  intro index e' he'
  cases index with
  | zero =>
      cases he'
      exact ⟨c, if_pos rfl, he⟩
  | succ index => cases he'

theorem SlotsStored.cons {c : StoredConstant} {cs : List StoredConstant} {e : PoolEntry}
    {slots : Slots} (he : c.Gives e) (h : SlotsStored cs slots) :
    SlotsStored (c :: cs) (some e :: List.replicate (c.width - 1) none ++ slots) := by
  have hwidth : (some e :: List.replicate (c.width - 1) none).length = c.width := by
    have := he.width
    simp only [List.length_cons, List.length_replicate]
    split at this <;> omega
  intro index e' he'
  rw [storedAt]
  by_cases hindex : index < c.width
  · rw [List.getElem?_append_left (by rwa [hwidth])] at he'
    cases index with
    | zero =>
        obtain rfl : e = e' := Option.some.inj (Option.some.inj he')
        exact ⟨c, if_pos rfl, he⟩
    | succ index =>
        rw [List.getElem?_cons_succ] at he'
        have hnone := List.eq_of_mem_replicate (List.mem_of_getElem? he')
        cases hnone
  · rw [List.getElem?_append_right (by omega), hwidth] at he'
    obtain ⟨c', hc', hgives⟩ := h _ _ he'
    refine ⟨c', ?_, hgives⟩
    have hpos : 0 < c.width := by rw [← hwidth]; exact Nat.succ_pos _
    rw [if_neg (by omega), ← hc']
    congr 1
    omega

theorem readSlots_relates (count index : ℕ) :
    Relates (readSlots count index) fun bytes slots =>
      ∃ cs : List StoredConstant, bytes = cs.flatMap StoredConstant.bytes ∧
        (∀ c ∈ cs, c.IsWhole) ∧ Fills cs count ∧ SlotsStored cs slots := by
  induction count, index using readSlots.induct with
  | case1 index => exact .pure ⟨[], rfl, by simp, rfl, .nil⟩
  | case2 count index hwide ih =>
      rw [readSlots]
      refine (readEntry_relates index).bind ?_
      rintro front entry ⟨c, rfl, hwhole, hgives⟩
      have hwidth := hgives.width
      split
      · next hentry =>
          rw [if_pos hentry] at hwidth
          cases count with
          | zero =>
              refine .pure ⟨[c], ?_, List.forall_mem_singleton.2 hwhole, ⟨Nat.one_pos, ?_⟩, ?_⟩
              · rw [List.flatMap_singleton, List.append_nil]
              · rw [hwidth]
                rfl
              · exact .single hgives
          | succ count =>
              refine Relates.bind hwide ?_
              rintro back slots ⟨cs, rfl, hcs, hfills, hslots⟩
              refine .pure
                ⟨c :: cs, ?_, List.forall_mem_cons.2 ⟨hwhole, hcs⟩, ⟨Nat.succ_pos _, ?_⟩, ?_⟩
              · rw [List.append_nil, List.flatMap_cons]
              · rwa [hwidth]
              · have := SlotsStored.cons hgives hslots
                rwa [hwidth] at this
      · next hentry =>
          rw [if_neg hentry] at hwidth
          refine ih.bind ?_
          rintro back slots ⟨cs, rfl, hcs, hfills, hslots⟩
          refine .pure ⟨c :: cs, ?_, List.forall_mem_cons.2 ⟨hwhole, hcs⟩, ⟨Nat.succ_pos _, ?_⟩, ?_⟩
          · rw [List.append_nil, List.flatMap_cons]
          · rwa [hwidth]
          · have := SlotsStored.cons hgives hslots
            rwa [hwidth] at this

/-- What is found in a pool is made from the constant at the same index. -/
def PoolStored (cs : List StoredConstant) (pool : ConstantPool) : Prop :=
  ∀ index e, pool.slot? index = .ok (some e) → ∃ c, storedAt cs index = some c ∧ c.Gives e

theorem readPool_relates :
    Relates readPool fun bytes pool =>
      ∃ (count : UInt16) (cs : List StoredConstant),
        bytes = bigEndianBytes 2 count.toNat ++ cs.flatMap StoredConstant.bytes ∧
        (∀ c ∈ cs, c.IsWhole) ∧ Fills cs (count.toNat - 1) ∧ PoolStored cs pool := by
  refine Relates.uint16.bind ?_
  rintro front n ⟨count, rfl, rfl⟩
  refine (readSlots_relates (count.toNat - 1) 1).bind ?_
  rintro back slots ⟨cs, rfl, hwhole, hfills, hslots⟩
  refine .pure ⟨count, cs, by rw [List.append_nil], hwhole, hfills, fun index e he => ?_⟩
  rw [ConstantPool.slot?] at he
  split_ifs at he with hrange
  obtain ⟨k, rfl⟩ : ∃ k, index = k + 1 := ⟨index - 1, by omega⟩
  exact hslots k e (Option.join_eq_some_iff.1 (Except.ok.inj he))

section

variable {cs : List StoredConstant} {pool : ConstantPool}

theorem HoldsText.unique {index : UInt16} {t t' : Text} (h : HoldsText cs index t)
    (h' : HoldsText cs index t') : t = t' := by
  obtain ⟨c, hc, -, ht⟩ := h
  obtain ⟨c', hc', -, ht'⟩ := h'
  obtain rfl := Option.some.inj (hc.symm.trans hc')
  exact Except.ok.inj (ht.symm.trans ht')

/-- A text that is found in a pool stands at its index. -/
theorem PoolStored.holdsText (h : PoolStored cs pool) {index : UInt16} {t : Text}
    (ht : pool.utf8 index.toNat = .ok t) : HoldsText cs index t := by
  rw [ConstantPool.utf8] at ht
  split at ht
  · next t' hslot =>
      obtain rfl := Except.ok.inj ht
      obtain ⟨c, hc, hgives⟩ := h _ _ hslot
      exact ⟨c, hc, hgives.tag, hgives.text _ rfl⟩
  · cases ht
  · cases ht

theorem readFieldAttribute_relates (h : PoolStored cs pool) (descriptor : Text)
    (value : Option ConstantValue) :
    Relates (readFieldAttribute pool descriptor value) fun bytes value' =>
      ∃ a : StoredAttribute, bytes = a.bytes ∧
        ((a.IsValue cs ∧ ∃ v, value' = some v ∧
            pool.constantValue (bigEndian a.payload) descriptor = .ok v) ∨
          (¬ a.IsValue cs ∧ value' = value)) := by
  refine (Relates.indexed pool.utf8).bind ?_
  rintro nameBytes name ⟨u, rfl, hname⟩
  replace hname := h.holdsText hname
  refine (Relates.unsigned 4).bind ?_
  rintro lengthBytes n ⟨rfl, hfits⟩
  split_ifs with hvalue
  · obtain ⟨rfl, rfl⟩ := hvalue
    refine (Relates.indexed fun index => pool.constantValue index descriptor).bind ?_
    rintro payload v ⟨index, rfl, hv⟩
    refine .pure ⟨⟨u, bigEndianBytes 2 index.toNat, hfits⟩, ?_,
      .inl ⟨⟨hname, length_bigEndianBytes 2 index.toNat⟩, v, rfl, ?_⟩⟩
    · rw [StoredAttribute.bytes, List.append_nil]
      rfl
    · rwa [bigEndian_bigEndianBytes index.toNat_lt]
  · refine (Relates.take n).bind ?_
    rintro payload x ⟨rfl, rfl⟩
    refine .pure ⟨⟨u, x, hfits⟩, by rw [StoredAttribute.bytes, List.append_nil], .inr ⟨?_, rfl⟩⟩
    rintro ⟨htext, hsize⟩
    exact hvalue ⟨hname.unique htext, hsize⟩

/-- The last value among attributes, or the one found before them. -/
theorem readFieldAttributes_relates (h : PoolStored cs pool) (descriptor : Text) (count : ℕ)
    (value : Option ConstantValue) :
    Relates (readFieldAttributes pool descriptor count value) fun bytes value' =>
      ∃ as : List StoredAttribute, bytes = as.flatMap StoredAttribute.bytes ∧ as.length = count ∧
        ((∃ before a after v, as = before ++ a :: after ∧ a.IsValue cs ∧
            (∀ b ∈ after, ¬ b.IsValue cs) ∧ value' = some v ∧
            pool.constantValue (bigEndian a.payload) descriptor = .ok v) ∨
          ((∀ b ∈ as, ¬ b.IsValue cs) ∧ value' = value)) := by
  induction count generalizing value with
  | zero => exact .pure ⟨[], rfl, rfl, .inr ⟨by simp, rfl⟩⟩
  | succ count ih =>
      refine (readFieldAttribute_relates h descriptor value).bind ?_
      rintro front found ⟨a, rfl, ha⟩
      refine (ih found).mono ?_
      rintro back value' ⟨as, rfl, rfl, has⟩
      refine ⟨a :: as, (List.flatMap_cons ..).symm, rfl, ?_⟩
      rcases has with ⟨before, b, after, v, rfl, hb⟩ | ⟨hnone, rfl⟩
      · exact .inl ⟨a :: before, b, after, v, rfl, hb⟩
      · rcases ha with ⟨hvalue, v, rfl, hv⟩ | ⟨hother, rfl⟩
        · exact .inl ⟨[], a, as, v, rfl, hvalue, hnone, rfl, hv⟩
        · exact .inr ⟨List.forall_mem_cons.2 ⟨hother, hnone⟩, rfl⟩

/-- The constant has the tag that the descriptor asks for, and an integer is its payload. -/
def StoredConstant.HasValue (c : StoredConstant) (descriptor : Text) (v : ConstantValue) : Prop :=
  (∀ tag ∈ ConstantPool.expectedTag? descriptor, c.tag.toNat = tag) ∧
    ∀ i, v = .integer i → i = twosComplement c.payload

theorem PoolStored.hasValue (h : PoolStored cs pool) {index : ℕ} {descriptor : Text}
    {v : ConstantValue} (hv : pool.constantValue index descriptor = .ok v) :
    ∃ c, storedAt cs index = some c ∧ c.HasValue descriptor v := by
  obtain ⟨e, hslot, hgives, htag⟩ := ConstantPool.exists_entry hv
  obtain ⟨c, hc, hstored⟩ := h _ _ hslot
  refine ⟨c, hc, fun tag ht => hstored.tag.trans (htag tag ht), ?_⟩
  rintro i rfl
  cases hgives with
  | integer i => exact hstored.integer i (.inl rfl)
  | long i => exact hstored.integer i (.inr rfl)

/-- A field has the name, the descriptor and the value that stand in the file for it. -/
structure StoredMember.Gives (cs : List StoredConstant) (m : StoredMember) (f : Field) : Prop where
  name : HoldsText cs m.name f.name
  descriptor : HoldsText cs m.descriptor f.descriptor
  value : ∀ v ∈ f.constantValue, ∃ c, m.HasConstant cs c ∧ c.HasValue f.descriptor v

theorem readField_relates (h : PoolStored cs pool) :
    Relates (readField pool) fun bytes f => ∃ m : StoredMember, bytes = m.bytes ∧ m.Gives cs f := by
  refine Relates.uint16.bind ?_
  rintro flagBytes n ⟨flags, rfl, rfl⟩
  refine (Relates.indexed pool.utf8).bind ?_
  rintro nameBytes name ⟨nameIndex, rfl, hname⟩
  refine (Relates.indexed pool.utf8).bind ?_
  rintro descriptorBytes descriptor ⟨descriptorIndex, rfl, hdescriptor⟩
  refine (Relates.unsigned 2).bind ?_
  rintro countBytes count ⟨rfl, hfits⟩
  refine (readFieldAttributes_relates h descriptor count none).bind ?_
  rintro attributeBytes value ⟨as, rfl, rfl, has⟩
  refine .pure ⟨⟨flags, nameIndex, descriptorIndex, as, hfits⟩, ?_, h.holdsText hname,
    h.holdsText hdescriptor, fun v hv => ?_⟩
  · rw [StoredMember.bytes, List.append_nil]
  · rcases has with ⟨before, a, after, w, rfl, ha, hafter, rfl, hw⟩ | ⟨-, rfl⟩
    · obtain rfl := Option.some.inj hv
      obtain ⟨c, hc, hvalue⟩ := h.hasValue hw
      exact ⟨c, ⟨before, a, after, rfl, ha, hafter, hc⟩, hvalue⟩
    · cases hv

theorem skipAttribute_relates :
    Relates (skipAttribute pool) fun bytes _ => ∃ a : StoredAttribute, bytes = a.bytes ∧ True := by
  refine (Relates.indexed pool.utf8).bind ?_
  rintro nameBytes name ⟨u, rfl, -⟩
  refine (Relates.unsigned 4).bind ?_
  rintro lengthBytes n ⟨rfl, hfits⟩
  refine (Relates.take n).bind ?_
  rintro payload x ⟨rfl, rfl⟩
  exact .pure ⟨⟨u, x, hfits⟩, by rw [StoredAttribute.bytes, List.append_nil], trivial⟩

theorem readMethod_relates :
    Relates (readMethod pool) fun bytes _ => ∃ m : StoredMember, bytes = m.bytes ∧ True := by
  refine Relates.uint16.bind ?_
  rintro flagBytes n ⟨flags, rfl, rfl⟩
  refine (Relates.indexed pool.utf8).bind ?_
  rintro nameBytes name ⟨nameIndex, rfl, -⟩
  refine (Relates.indexed pool.utf8).bind ?_
  rintro descriptorBytes descriptor ⟨descriptorIndex, rfl, -⟩
  refine (Relates.counted skipAttribute_relates).bind ?_
  rintro attributeBytes _ ⟨as, rfl, hfits, -⟩
  exact .pure ⟨⟨flags, nameIndex, descriptorIndex, as, hfits⟩,
    by rw [StoredMember.bytes, List.append_nil], trivial⟩

end

/-- Whatever is read as a class file is one as it stands in bytes, and its fields are those that
stand there. -/
theorem readClassFile_relates :
    Relates readClassFile fun bytes c =>
      ∃ s : StoredClass, bytes = s.bytes ∧
        List.Forall₂ (StoredMember.Gives s.constants) s.fields c.fields := by
  refine (Relates.unsigned 4).bind ?_
  rintro magicBytes magic ⟨rfl, -⟩
  split_ifs with hmagic
  · exact .throw _
  · obtain rfl : magic = 0xCAFEBABE := not_not.1 hmagic
    refine Relates.uint16.bind ?_
    rintro minorBytes _ ⟨minor, rfl, rfl⟩
    refine Relates.uint16.bind ?_
    rintro majorBytes _ ⟨major, rfl, rfl⟩
    refine readPool_relates.bind ?_
    rintro poolBytes pool ⟨count, cs, rfl, hwhole, hfills, hpool⟩
    refine Relates.uint16.bind ?_
    rintro flagBytes _ ⟨flags, rfl, rfl⟩
    refine (Relates.indexed _).bind ?_
    rintro thisBytes thisClass ⟨thisIndex, rfl, -⟩
    refine (Relates.indexed _).bind ?_
    rintro superBytes superClass ⟨superIndex, rfl, -⟩
    refine (Relates.indexed pool.className).counted.bind ?_
    rintro interfaceBytes _ ⟨interfaces, rfl, hinterfaces, -⟩
    refine (readField_relates hpool).counted.bind ?_
    rintro fieldBytes fs ⟨fields, rfl, hfields, hgives⟩
    refine readMethod_relates.counted.bind ?_
    rintro methodBytes _ ⟨methods, rfl, hmethods, -⟩
    refine .pure ⟨⟨minor, major, count, cs, flags, thisIndex, superIndex, interfaces, fields,
      methods, hwhole, hfills, hinterfaces, hfields, hmethods⟩, ?_, hgives⟩
    simp only [StoredClass.bytes, List.append_nil]

/-- A class file that is read, taken apart. -/
theorem exists_stored {bytes : List UInt8} {c : ClassFile} (h : parse bytes = .ok c) :
    ∃ (s : StoredClass) (extra : List UInt8), bytes = s.bytes ++ extra ∧
      List.Forall₂ (StoredMember.Gives s.constants) s.fields c.fields := by
  obtain ⟨c', hrun⟩ := exists_run h
  obtain ⟨taken, hbytes, s, rfl, hfields⟩ := readClassFile_relates _ _ _ hrun
  exact ⟨s, c'.rest, hbytes, hfields⟩

end JniHeader.ClassFile
