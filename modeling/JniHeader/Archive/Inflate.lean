import JniHeader.Archive.Decoding
import JniHeader.Text.CodePoint

/-!
# Inflating compressed data

The deflate format: stored blocks, and blocks in fixed or dynamic Huffman codes
with copies from the last 32768 bytes.
-/
namespace JniHeader.Inflate

inductive Error where
  | blockType
  | storedLengths
  | tooManySymbols
  | codeLengths
  | lengthRepeat
  | noEndOfBlock
  | literalSet
  | distanceSet
  | literalCode
  | distanceCode
  | tooFarBack
deriving DecidableEq, Repr

def Error.reason : Error → Text
  | .blockType => "invalid block type"
  | .storedLengths => "invalid stored block lengths"
  | .tooManySymbols => "too many length or distance symbols"
  | .codeLengths => "invalid code lengths set"
  | .lengthRepeat => "invalid bit length repeat"
  | .noEndOfBlock => "invalid code -- missing end-of-block"
  | .literalSet => "invalid literal/lengths set"
  | .distanceSet => "invalid distances set"
  | .literalCode => "invalid literal/length code"
  | .distanceCode => "invalid distance code"
  | .tooFarBack => "invalid distance too far back"

def Error.message (e : Error) : Text := "Error -3 while decompressing data: " ++ e.reason

abbrev Decoder (α : Type) := BitDecoder Error α

/-- One bit, least significant of its byte first. -/
def bit : Decoder Nat := fun input pos =>
  match input.data[pos / 8]? with
  | some b => .ok ((b.toNat >>> (pos % 8)) % 2, pos + 1)
  | none => .error .exhausted

/-- A number of `n` bits, least significant first. -/
def bits : (n : Nat) → Decoder Nat
  | 0 => fun _ pos => .ok (0, pos)
  | n + 1 => fun input pos => do
    let (low, pos) ← bit input pos
    let (high, pos) ← bits n input pos
    pure (low + 2 * high, pos)

def fixedLiterals : PrefixCode :=
  .ofLengths (List.replicate 144 8 ++ List.replicate 112 9 ++ List.replicate 24 7
    ++ List.replicate 8 8)

def fixedDistances : PrefixCode := .ofLengths (List.replicate 32 5)

/-- Least length and count of extra bits of the length symbols from 257 on. -/
def lengthTable : List (Nat × Nat) :=
  [(3, 0), (4, 0), (5, 0), (6, 0), (7, 0), (8, 0), (9, 0), (10, 0), (11, 1), (13, 1), (15, 1),
    (17, 1), (19, 2), (23, 2), (27, 2), (31, 2), (35, 3), (43, 3), (51, 3), (59, 3), (67, 4),
    (83, 4), (99, 4), (115, 4), (131, 5), (163, 5), (195, 5), (227, 5), (258, 0)]

/-- Least distance and count of extra bits of the distance symbols. -/
def distanceTable : List (Nat × Nat) :=
  [(1, 0), (2, 0), (3, 0), (4, 0), (5, 1), (7, 1), (9, 2), (13, 2), (17, 3), (25, 3), (33, 4),
    (49, 4), (65, 5), (97, 5), (129, 6), (193, 6), (257, 7), (385, 7), (513, 8), (769, 8),
    (1025, 9), (1537, 9), (2049, 10), (3073, 10), (4097, 11), (6145, 11), (8193, 12), (12289, 12),
    (16385, 13), (24577, 13)]

/-- A symbol's base value with its extra bits added. -/
def extended (table : List (Nat × Nat)) (fault : Error) (symbol : Nat) : Decoder Nat :=
  fun input pos =>
    match table[symbol]? with
    | none => .error (.corrupt fault)
    | some (base, extra) => do
      let (n, pos) ← bits extra input pos
      pure (base + n, pos)

/-- One step of a compressed block. -/
inductive Item where
  | literal (b : UInt8)
  | copy (length distance : Nat)
  | endOfBlock

def item (literals distances : PrefixCode) : Decoder Item := fun input pos => do
  let (symbol, pos) ← literals.next bit input pos
  match symbol with
  | none => .error (.corrupt .literalCode)
  | some s =>
    if s < 256 then pure (.literal s.toUInt8, pos)
    else if s = 256 then pure (.endOfBlock, pos)
    else
      let (length, pos) ← extended lengthTable .literalCode (s - 257) input pos
      let (symbol, pos) ← distances.next bit input pos
      match symbol with
      | none => .error (.corrupt .distanceCode)
      | some d =>
        let (distance, pos) ← extended distanceTable .distanceCode d input pos
        pure (.copy length distance, pos)

/-- The items of a compressed block up to its end. Every item takes a bit, so that the number of
bits is `fuel` enough. -/
def compressedBlock (literals distances : PrefixCode) (input : ByteArray) :
    (fuel pos : Nat) → Array UInt8 → Progress Error Nat
  | 0, _, out => ⟨out, .error .exhausted⟩
  | fuel + 1, pos, out =>
    match item literals distances input pos with
    | .error stop => ⟨out, .error stop⟩
    | .ok (.literal b, pos) => compressedBlock literals distances input fuel pos (out.push b)
    | .ok (.copy length distance, pos) =>
      if out.size < distance then ⟨out, .error (.corrupt .tooFarBack)⟩
      else compressedBlock literals distances input fuel pos (copyBack distance length out)
    | .ok (.endOfBlock, pos) => ⟨out, .ok pos⟩

/-- A stored block begins at a byte boundary with its length, twice. -/
def storedBlock (input : ByteArray) (pos : Nat) (out : Array UInt8) : Progress Error Nat :=
  let start := (pos + 7) / 8
  match (do
      let (length, pos) ← bits 16 input (8 * start)
      let (complement, _) ← bits 16 input pos
      if length + complement ≠ 0xFFFF then throw (.corrupt .storedLengths)
      pure length : Except (Stop Error) Nat) with
  | .error stop => ⟨out, .error stop⟩
  | .ok length =>
    let chunk := input.extract (start + 4) (start + 4 + length)
    let out := out ++ chunk.data
    if chunk.size < length then ⟨out, .error .exhausted⟩
    else ⟨out, .ok (8 * (start + 4 + length))⟩

/-- The order in which the lengths of the length codes are written. -/
def lengthOrder : List Nat := [16, 17, 18, 0, 8, 7, 9, 6, 10, 5, 11, 4, 12, 3, 13, 2, 14, 1, 15]

/-- A list of numbers of three bits. -/
def lengthCodeLengths : (count : Nat) → Decoder (List Nat)
  | 0 => fun _ pos => .ok ([], pos)
  | count + 1 => fun input pos => do
    let (n, pos) ← bits 3 input pos
    let (ns, pos) ← lengthCodeLengths count input pos
    pure (n :: ns, pos)

/-- Code lengths in run-length form until there are `total`; those found so far are reversed. -/
def codeLengths (code : PrefixCode) (total : Nat) : (fuel : Nat) → List Nat → Decoder (List Nat)
  | 0, found => fun _ pos => .ok (found.reverse, pos)
  | fuel + 1, found => fun input pos => do
    if total ≤ found.length then pure (found.reverse, pos)
    else
      let (symbol, pos) ← code.next bit input pos
      let run (value least extra : Nat) : Except (Stop Error) (List Nat × Nat) := do
        let (n, pos) ← bits extra input pos
        if total < found.length + (least + n) then throw (.corrupt .lengthRepeat)
        codeLengths code total fuel (List.replicate (least + n) value ++ found) input pos
      match symbol.getD 0 with
      | 16 =>
        match found with
        | [] => do
          let _ ← bits 2 input pos
          throw (.corrupt .lengthRepeat)
        | last :: _ => run last 3 2
      | 17 => run 0 3 3
      | 18 => run 0 11 7
      | n => codeLengths code total fuel (n :: found) input pos

/-- The codes in front of a dynamic block. -/
def dynamicCodes : Decoder (PrefixCode × PrefixCode) := fun input pos => do
  let (n, pos) ← bits 5 input pos
  let literalCount := n + 257
  let (n, pos) ← bits 5 input pos
  let distanceCount := n + 1
  let (n, pos) ← bits 4 input pos
  if 286 < literalCount ∨ 30 < distanceCount then throw (.corrupt .tooManySymbols)
  let (written, pos) ← lengthCodeLengths (n + 4) input pos
  let lengthOf (symbol : Nat) : Nat := ((lengthOrder.zip written).lookup symbol).getD 0
  let code := PrefixCode.ofLengths ((List.range 19).map lengthOf)
  if !code.isUsable false then throw (.corrupt .codeLengths)
  let total := literalCount + distanceCount
  let (lengths, pos) ← codeLengths code total total [] input pos
  if lengths.getD 256 0 = 0 then throw (.corrupt .noEndOfBlock)
  let literals := PrefixCode.ofLengths (lengths.take literalCount)
  if !literals.isUsable true then throw (.corrupt .literalSet)
  let distances := PrefixCode.ofLengths (lengths.drop literalCount)
  if !distances.isUsable true then throw (.corrupt .distanceSet)
  pure ((literals, distances), pos)

/-- One block, without the bit that marks the last. -/
def block (input : ByteArray) (pos : Nat) (out : Array UInt8) : Progress Error Nat :=
  let fuel := 8 * input.size
  match bits 2 input pos with
  | .error stop => ⟨out, .error stop⟩
  | .ok (0, pos) => storedBlock input pos out
  | .ok (1, pos) => compressedBlock fixedLiterals fixedDistances input fuel pos out
  | .ok (2, pos) =>
    match dynamicCodes input pos with
    | .error stop => ⟨out, .error stop⟩
    | .ok ((literals, distances), pos) => compressedBlock literals distances input fuel pos out
  | .ok (_, _) => ⟨out, .error (.corrupt .blockType)⟩

/-- Blocks up to the last. Every block takes a bit. -/
def blocks (input : ByteArray) : (fuel pos : Nat) → Array UInt8 → Progress Error Nat
  | 0, _, out => ⟨out, .error .exhausted⟩
  | fuel + 1, pos, out =>
    match bit input pos with
    | .error stop => ⟨out, .error stop⟩
    | .ok (last, pos) =>
      match block input pos out with
      | ⟨out, .error stop⟩ => ⟨out, .error stop⟩
      | ⟨out, .ok pos⟩ => if last = 1 then ⟨out, .ok pos⟩ else blocks input fuel pos out

/-- Inflate; the data is complete when its last block ends. -/
def inflate (input : ByteArray) : Except Error Decoded :=
  (blocks input (8 * input.size) 0 #[]).decoded

end JniHeader.Inflate
