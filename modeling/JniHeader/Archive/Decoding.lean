/-!
# Decoding bits

What the compressed formats share: decoders that move forward over fixed input,
prefix codes, and copies of earlier output. Input that ends early is no fault of
a format; what it does determine is kept.
-/
namespace JniHeader

/-- Why decoding stops before the end: there is no more input, or the format is violated. -/
inductive Stop (ε : Type) where
  | exhausted
  | corrupt (fault : ε)

/-- What compressed data stands for; it is complete when the end that its format marks is there. -/
structure Decoded where
  output : List UInt8
  isComplete : Bool

/-- How far decoding came: the bytes produced, and the position after the part or the reason why
there is none. -/
structure Progress (ε σ : Type) where
  output : Array UInt8
  next : Except (Stop ε) σ

/-- A violation of the format spoils all output; input that ends early does not. -/
def Progress.decoded {ε σ : Type} : Progress ε σ → Except ε Decoded
  | ⟨_, .error (.corrupt fault)⟩ => .error fault
  | ⟨out, .error .exhausted⟩ => .ok ⟨out.toList, false⟩
  | ⟨out, .ok _⟩ => .ok ⟨out.toList, true⟩

/-- A decoder moves a bit position forward over fixed input. -/
abbrev BitDecoder (ε α : Type) := ByteArray → Nat → Except (Stop ε) (α × Nat)

/-- Append `length` bytes, each a copy of the one `distance` back. -/
def copyBack (distance : Nat) : (length : Nat) → Array UInt8 → Array UInt8
  | 0, out => out
  | length + 1, out => copyBack distance length (out.push (out[out.size - distance]?.getD 0))

/-- A prefix code: how many codes there are of each length from one on, and the symbols in order
of their codes. -/
structure PrefixCode where
  counts : List Nat
  symbols : Array Nat

namespace PrefixCode

/-- The code in which symbol `i` has the length `lengths[i]`; a symbol of length zero has none. -/
def ofLengths (lengths : List Nat) : PrefixCode :=
  let longest := lengths.foldl max 0
  let symbolsOf (length : Nat) : List Nat :=
    (lengths.zipIdx.filter fun (l, _) => l == length).map (·.2)
  let byLength := (List.range longest).map fun k => symbolsOf (k + 1)
  ⟨byLength.map List.length, byLength.flatten.toArray⟩

/-- The unused share of the code space, in units of the longest code; none when it is overdrawn. -/
def unused? (c : PrefixCode) : Option Nat :=
  c.counts.foldl (fun left count =>
    left.bind fun n => if 2 * n < count then none else some (2 * n - count)) (some 1)

/-- A code is usable if it fills the code space. One without symbols is let through, as is one
with a single code of one bit if `lenient`; their unused codes are faults when they occur. -/
def isUsable (lenient : Bool) (c : PrefixCode) : Bool :=
  c.counts.isEmpty ||
    match c.unused? with
    | none => false
    | some left => left == 0 || (lenient && c.counts.length == 1)

/-- Follow the bits of one code. `code` is the code so far, `first` the first code of the present
length, and `index` the place of its symbol. -/
def follow {ε : Type} (bit : BitDecoder ε Nat) (symbols : Array Nat) :
    (counts : List Nat) → (code first index : Nat) → BitDecoder ε (Option Nat)
  | [], _, _, _ => fun _ pos => .ok (none, pos)
  | count :: counts, code, first, index => fun input pos => do
    let (b, pos) ← bit input pos
    let code := code + b
    if code < first + count then pure (symbols[index + (code - first)]?, pos)
    else follow bit symbols counts (2 * code) (2 * (first + count)) (index + count) input pos

/-- The next symbol, or none for an unused code. -/
def next {ε : Type} (bit : BitDecoder ε Nat) (c : PrefixCode) : BitDecoder ε (Option Nat) :=
  fun input pos =>
    if c.counts.isEmpty then do
      let (_, pos) ← bit input pos
      pure (none, pos)
    else follow bit c.symbols c.counts 0 0 0 input pos

end PrefixCode

end JniHeader
