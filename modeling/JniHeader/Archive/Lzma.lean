import JniHeader.Archive.Decoding
import JniHeader.Archive.LittleEndian
import JniHeader.Text.CodePoint

/-!
# LZMA data

Literals and copies of earlier bytes, each coded bit by bit with a probability that
follows the bits seen so far. The properties of the coder stand in front of the data;
an end marker may close it.
-/
namespace JniHeader.Lzma

inductive Error where
  | options
  | corrupt
deriving DecidableEq, Repr

def Error.message : Error → Text
  | .options => "Invalid or unsupported options"
  | .corrupt => "Corrupt input data"

/-- What the coder is set up with: bits of the byte before that select a literal's probabilities,
bits of the position that do so for literals and for all else, and how far back copies reach. -/
structure Properties where
  context : Nat
  literalPosition : Nat
  position : Nat
  reach : Nat

/-- The properties from their five bytes. -/
def Properties.ofBytes? (bytes : List UInt8) : Option Properties :=
  if bytes.length ≠ 5 then none
  else
    let packed := (bytes.headD 0).toNat
    let context := packed % 9
    let literalPosition := packed / 9 % 5
    let size := littleEndian ⟨bytes.toArray⟩ 1 4
    if 224 < packed ∨ 4 < context + literalPosition then none
    else some ⟨context, literalPosition, packed / 45, (max size 4096 + 15) / 16 * 16⟩

/-- The state of the coder: the next byte of input, the interval that is left and the place in it
that the input denotes, and the probabilities, in parts of 2048, that a bit is zero. -/
structure Coder where
  pos : Nat
  range : UInt32
  code : UInt32
  probabilities : Array Nat

abbrev Decoder (α : Type) := ByteArray → Coder → Except (Stop Error) (α × Coder)

/-- Take in a byte when the interval has become small. -/
def Coder.refill (c : Coder) (input : ByteArray) : Except (Stop Error) Coder :=
  if c.range < 0x1000000 then
    match input.data[c.pos]? with
    | none => .error .exhausted
    | some b =>
      .ok { c with
        pos := c.pos + 1
        range := c.range <<< 8
        code := (c.code <<< 8) ||| b.toUInt32 }
  else .ok c

/-- One bit with the probability at an index, which moves towards the bit. -/
def bit (index : Nat) : Decoder Nat := fun input c => do
  let c ← c.refill input
  let p := c.probabilities.getD index 0
  let bound := (c.range >>> 11) * p.toUInt32
  if c.code < bound then
    pure (0, { c with
      range := bound
      probabilities := c.probabilities.setIfInBounds index (p + (2048 - p) / 32) })
  else
    pure (1, { c with
      range := c.range - bound
      code := c.code - bound
      probabilities := c.probabilities.setIfInBounds index (p - p / 32) })

/-- `n` bits, each with a probability for the bits before it; `m` is a one and these bits. -/
def tree (base : Nat) : (n m : Nat) → Decoder Nat
  | 0, m => fun _ c => .ok (m, c)
  | n + 1, m => fun input c => do
    let (b, c) ← bit (base + m) input c
    tree base n (2 * m + b) input c

/-- A number of `n` bits, most significant first. -/
def number (base n : Nat) : Decoder Nat := fun input c => do
  let (m, c) ← tree base n 1 input c
  pure (m - Nat.pow 2 n, c)

/-- A number of `n` bits, least significant first. -/
def reversedNumber (base : Nat) : (n m : Nat) → Decoder Nat
  | 0, _ => fun _ c => .ok (0, c)
  | n + 1, m => fun input c => do
    let (b, c) ← bit (base + m) input c
    let (rest, c) ← reversedNumber base n (2 * m + b) input c
    pure (b + 2 * rest, c)

/-- `n` bits without probabilities behind those of `high`. -/
def direct : (n high : Nat) → Decoder Nat
  | 0, high => fun _ c => .ok (high, c)
  | n + 1, high => fun input c => do
    let c ← c.refill input
    let range := c.range >>> 1
    let lower := c.code - range
    if lower &&& 0x80000000 = 0 then
      direct n (2 * high + 1) input { c with range := range, code := lower }
    else direct n (2 * high) input { c with range := range }

/-- Where the probabilities of each kind begin. -/
def matchBase : Nat := 0
def repeatBase : Nat := 192
def firstBase : Nat := 204
def secondBase : Nat := 216
def thirdBase : Nat := 228
def longBase : Nat := 240
def slotBase : Nat := 432
def distanceBase : Nat := 688
def alignBase : Nat := 802
def lengthBase : Nat := 818
def repeatLengthBase : Nat := 1332
def literalBase : Nat := 1846

/-- What was decoded last, as one of twelve situations, and the last four distances, less one. -/
structure Past where
  situation : Nat
  first : Nat
  second : Nat
  third : Nat
  fourth : Nat

namespace Past

def afterLiteral (p : Past) : Past :=
  { p with
    situation :=
      if p.situation < 4 then 0 else if p.situation < 10 then p.situation - 3
      else p.situation - 6 }

def afterCopy (p : Past) : Past := { p with situation := if p.situation < 7 then 7 else 10 }

def afterRepeat (p : Past) : Past := { p with situation := if p.situation < 7 then 8 else 11 }

def afterShort (p : Past) : Past := { p with situation := if p.situation < 7 then 9 else 11 }

end Past

/-- Bits of a literal as long as they agree with a byte that they are expected to be like. -/
def likeBits (base : Nat) (expected : Nat) : (n m : Nat) → Decoder Nat
  | 0, m => fun _ c => .ok (m, c)
  | n + 1, m => fun input c => do
    let likely := expected / Nat.pow 2 n % 2
    let (b, c) ← bit (base + 256 * (1 + likely) + m) input c
    if b = likely then likeBits base expected n (2 * m + b) input c
    else tree base n (2 * m + b) input c

/-- A byte. Behind a copy it is compared with the byte that would go on with the copy. -/
def literal (p : Properties) (out : Array UInt8) (past : Past) : Decoder UInt8 :=
  fun input c => do
    let before := (out.back?.getD 0).toNat
    let context := (out.size % Nat.pow 2 p.literalPosition) * Nat.pow 2 p.context +
      before / Nat.pow 2 (8 - p.context)
    let base := literalBase + 768 * context
    let (m, c) ←
      if past.situation < 7 then tree base 8 1 input c
      else likeBits base (out.getD (out.size - past.first - 1) 0).toNat 8 1 input c
    pure (m.toUInt8, c)

/-- The length of a copy, less two. -/
def length (base position : Nat) : Decoder Nat := fun input c => do
  let (long, c) ← bit base input c
  if long = 0 then number (base + 2 + 8 * position) 3 input c
  else
    let (longer, c) ← bit (base + 1) input c
    if longer = 0 then
      let (n, c) ← number (base + 130 + 8 * position) 3 input c
      pure (8 + n, c)
    else
      let (n, c) ← number (base + 258) 8 input c
      pure (16 + n, c)

/-- A distance, less one, for a copy of this length, less two. -/
def distance (length : Nat) : Decoder Nat := fun input c => do
  let (slot, c) ← number (slotBase + 64 * min length 3) 6 input c
  if slot < 4 then pure (slot, c)
  else
    let extra := slot / 2 - 1
    let high := 2 + slot % 2
    if slot < 14 then
      let least := high * Nat.pow 2 extra
      let (low, c) ← reversedNumber (distanceBase + least - slot - 1) extra 1 input c
      pure (least + low, c)
    else
      let (high, c) ← direct (extra - 4) high input c
      let (low, c) ← reversedNumber alignBase 4 1 input c
      pure (16 * high + low, c)

inductive Item where
  | literal (b : UInt8)
  | copy (length distance : Nat)
  | ending

/-- A copy from one of the last four distances, which moves to the front of them. -/
def repeated (position : Nat) (past : Past) : Decoder (Item × Past) := fun input c => do
  let (other, c) ← bit (firstBase + past.situation) input c
  if other = 0 then
    let (long, c) ← bit (longBase + 16 * past.situation + position) input c
    if long = 0 then pure ((.copy 1 (past.first + 1), past.afterShort), c)
    else finish past input c
  else
    let (other, c) ← bit (secondBase + past.situation) input c
    if other = 0 then
      finish { past with first := past.second, second := past.first } input c
    else
      let (other, c) ← bit (thirdBase + past.situation) input c
      if other = 0 then
        finish { past with first := past.third, second := past.first, third := past.second } input c
      else
        finish ⟨past.situation, past.fourth, past.first, past.second, past.third⟩ input c
where
  finish (past : Past) : Decoder (Item × Past) := fun input c => do
    let (n, c) ← length repeatLengthBase position input c
    pure ((.copy (n + 2) (past.first + 1), past.afterRepeat), c)

/-- A copy from a new distance, or the end marker, which is the greatest distance and leaves nothing
to decode. -/
def fresh (reach position : Nat) (past : Past) : Decoder (Item × Past) := fun input c => do
  let (n, c) ← length lengthBase position input c
  let (d, c) ← distance n input c
  if d = 0xFFFFFFFF then
    let c ← c.refill input
    if c.code = 0 then pure ((.ending, past), c) else .error (.corrupt .corrupt)
  else if reach ≤ d then .error (.corrupt .corrupt)
  else
    pure ((.copy (n + 2) (d + 1),
      ⟨past.afterCopy.situation, d, past.first, past.second, past.third⟩), c)

def item (p : Properties) (out : Array UInt8) (past : Past) : Decoder (Item × Past) :=
  fun input c => do
    let position := out.size % Nat.pow 2 p.position
    let (isCopy, c) ← bit (matchBase + 16 * past.situation + position) input c
    if isCopy = 0 then
      let (b, c) ← literal p out past input c
      pure ((.literal b, past.afterLiteral), c)
    else
      let (isRepeated, c) ← bit (repeatBase + past.situation) input c
      if isRepeated = 0 then fresh (min out.size p.reach) position past input c
      else if out.isEmpty then .error (.corrupt .corrupt)
      else repeated position past input c

/-- The items up to the end marker. A bit takes at least one part in 67 of the interval, so that
there are less than 512 bits to a byte of input, and `fuel` is enough. -/
def items (p : Properties) (input : ByteArray) :
    (fuel : Nat) → Past → Coder → Array UInt8 → Progress Error Unit
  | 0, _, _, out => ⟨out, .error .exhausted⟩
  | fuel + 1, past, c, out =>
    match item p out past input c with
    | .error stop => ⟨out, .error stop⟩
    | .ok ((.literal b, past), c) => items p input fuel past c (out.push b)
    | .ok ((.copy length distance, past), c) =>
      items p input fuel past c (copyBack distance length out)
    | .ok ((.ending, _), _) => ⟨out, .ok ()⟩

/-- The coder before the first bit. The first of the five bytes that it starts with is zero. -/
def Coder.start (p : Properties) (input : ByteArray) : Except (Stop Error) Coder :=
  match input.data[0]? with
  | none => .error .exhausted
  | some b =>
    if b ≠ 0 then .error (.corrupt .corrupt)
    else if input.size < 5 then .error .exhausted
    else
      let code := (slice input 1 4).foldl (fun (n : UInt32) b => (n <<< 8) ||| b.toUInt32) 0
      let count := literalBase + 768 * Nat.pow 2 (p.context + p.literalPosition)
      .ok ⟨5, 0xFFFFFFFF, code, Array.replicate count 1024⟩

/-- Decompress data behind its properties, whose size stands in front of them. Nothing is known of
data that ends with them. -/
def decompress (packed : ByteArray) : Except Error Decoded :=
  let size := littleEndian packed 2 2
  if packed.size ≤ 4 + size then .ok ⟨[], false⟩
  else
    match Properties.ofBytes? (slice packed 4 size) with
    | none => .error .options
    | some p =>
      let input := packed.extract (4 + size) packed.size
      match Coder.start p input with
      | .error stop => Progress.decoded (⟨#[], .error stop⟩ : Progress Error Unit)
      | .ok c => (items p input (512 * (input.size + 1)) ⟨0, 0, 0, 0, 0⟩ c #[]).decoded

end JniHeader.Lzma
