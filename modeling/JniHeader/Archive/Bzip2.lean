import JniHeader.Archive.Decoding
import JniHeader.Text.CodePoint

/-!
# Bzip2 data

A stream of blocks, each the last column of the sorted rotations of its bytes,
written as moves to the front in several prefix codes. The bytes of a block are
known when its end is read; every block and the stream have a checksum.
-/
namespace JniHeader.Bzip2

/-- The stream is malformed, or a checksum differs. -/
inductive Error where
  | invalid
deriving DecidableEq, Repr

def Error.message : Error → Text
  | .invalid => "Invalid data stream"

abbrev Decoder (α : Type) := BitDecoder Error α

def refuse {α : Type} : Except (Stop Error) α := .error (.corrupt .invalid)

/-- One bit, most significant of its byte first. -/
def bit : Decoder Nat := fun input pos =>
  match input.data[pos / 8]? with
  | some b => .ok ((b.toNat >>> (7 - pos % 8)) % 2, pos + 1)
  | none => .error .exhausted

/-- A number of `n` bits behind those of `high`, most significant first. -/
def bitsAfter : (n high : Nat) → Decoder Nat
  | 0, high => fun _ pos => .ok (high, pos)
  | n + 1, high => fun input pos => do
    let (b, pos) ← bit input pos
    bitsAfter n (2 * high + b) input pos

def bits (n : Nat) : Decoder Nat := bitsAfter n 0

/-- Bytes that have to stand next. -/
def expect : List Nat → Decoder Unit
  | [] => fun _ pos => .ok ((), pos)
  | b :: bs => fun input pos => do
    let (found, pos) ← bits 8 input pos
    if found = b then expect bs input pos else refuse

/-- The checksum with the polynomial in its direct form. -/
def checksum (bytes : Array UInt8) : UInt32 :=
  let shift (c : UInt32) : UInt32 :=
    if c &&& 0x80000000 = 0 then c <<< 1 else (c <<< 1) ^^^ 0x04C11DB7
  let update (c : UInt32) (b : UInt8) : UInt32 :=
    shift (shift (shift (shift (shift (shift (shift (shift (c ^^^ (b.toUInt32 <<< 24)))))))))
  bytes.foldl update 0xFFFFFFFF ^^^ 0xFFFFFFFF

/-- Items of one kind, one after the other. -/
def many {α : Type} (item : Decoder α) : (count : Nat) → Decoder (List α)
  | 0 => fun _ pos => .ok ([], pos)
  | count + 1 => fun input pos => do
    let (x, pos) ← item input pos
    let (xs, pos) ← many item count input pos
    pure (x :: xs, pos)

/-- The bytes that a block uses: sixteen marks for the ranges of sixteen, and sixteen for each range
that is marked. -/
def usedBytes : Decoder (List UInt8) := fun input pos => do
  let (ranges, pos) ← bits 16 input pos
  let marked := (List.range 16).filter fun i => ranges.testBit (15 - i)
  let (marks, pos) ← many (bits 16) marked.length input pos
  let used := (marked.zip marks).flatMap fun (i, m) =>
    ((List.range 16).filter fun j => m.testBit (15 - j)).map fun j => (16 * i + j).toUInt8
  pure (used, pos)

/-- Move the member at an index to the front. -/
def toFront {α : Type} (xs : List α) (index : Nat) : List α :=
  match xs[index]? with
  | some x => x :: xs.eraseIdx index
  | none => xs

/-- A count of ones closed by a zero, less than `limit`. -/
def unary (limit : Nat) : (fuel count : Nat) → Decoder Nat
  | 0, _ => fun _ _ => refuse
  | fuel + 1, count => fun input pos => do
    let (b, pos) ← bit input pos
    if b = 0 then pure (count, pos)
    else if limit ≤ count + 1 then refuse
    else unary limit fuel (count + 1) input pos

/-- No block has more selectors; those in excess are read and dropped. -/
def maxSelectors : Nat := 18002

/-- Which code each group of symbols is written in, as indices of a list whose members are moved to
the front when they are used. -/
def selectors (codes : Nat) : Decoder (List Nat) := fun input pos => do
  let (count, pos) ← bits 15 input pos
  if count < 1 then refuse
  else
    let (moves, pos) ← many (unary codes codes 0) count input pos
    let step (state : List Nat × List Nat) (index : Nat) : List Nat × List Nat :=
      let order := toFront state.1 index
      (order, order.headD 0 :: state.2)
    let (_, found) := (moves.take maxSelectors).foldl step (List.range codes, [])
    pure (found.reverse, pos)

def maxLength : Nat := 20

/-- The length of a code, reached from that of the code before in steps of one. Every step takes
bits, so that their number is `fuel` enough. -/
def codeLength : (fuel length : Nat) → Decoder Nat
  | 0, _ => fun _ _ => .error .exhausted
  | fuel + 1, length => fun input pos => do
    if length < 1 ∨ maxLength < length then refuse
    else
      let (more, pos) ← bit input pos
      if more = 0 then pure (length, pos)
      else
        let (down, pos) ← bit input pos
        codeLength fuel (if down = 0 then length + 1 else length - 1) input pos

/-- The lengths of the codes of `count` symbols. -/
def codeLengths : (count length : Nat) → Decoder (List Nat)
  | 0, _ => fun _ pos => .ok ([], pos)
  | count + 1, length => fun input pos => do
    let (length, pos) ← codeLength (8 * input.size) length input pos
    let (lengths, pos) ← codeLengths count length input pos
    pure (length :: lengths, pos)

def code (symbols : Nat) : Decoder PrefixCode := fun input pos => do
  let (first, pos) ← bits 5 input pos
  let (lengths, pos) ← codeLengths symbols first input pos
  pure (.ofLengths lengths, pos)

/-- The next symbol. An unused code is noticed when it is longer than any code may be. -/
def symbol (c : PrefixCode) : Decoder Nat := fun input pos => do
  let start := pos
  let (found, pos) ← c.next bit input pos
  match found with
  | some s => pure (s, pos)
  | none => do
    let _ ← bits (maxLength + 1 - (pos - start)) input pos
    refuse

/-- What a block is read with: its codes, the code of each group of fifty symbols, the number of
different bytes, and how many bytes it may hold. -/
structure Tables where
  codes : Array PrefixCode
  selectors : Array Nat
  used : Nat
  capacity : Nat

def Tables.symbolAt (t : Tables) (index : Nat) : Decoder Nat := fun input pos =>
  match t.selectors[index / 50]? with
  | none => refuse
  | some selector => symbol (t.codes.getD selector ⟨[], #[]⟩) input pos

/-- A run that is being read, as a number in digits one and two, and the weight of the next
digit. -/
structure Run where
  length : Nat
  weight : Nat

/-- Append a byte `count` times, unless there is no room for it. -/
def appendRun (capacity : Nat) (b : UInt8) (count : Nat) (out : Array UInt8) :
    Except (Stop Error) (Array UInt8) :=
  if capacity < out.size + count then refuse else .ok (out ++ Array.replicate count b)

/-- The moves to the front up to the end of a block, with the runs of the byte in front. `index`
counts the symbols; each takes a bit, so that the number of bits is `fuel` enough. -/
def moves (t : Tables) : (fuel index : Nat) → Run → (order : List UInt8) → Array UInt8 →
    Decoder (Array UInt8)
  | 0, _, _, _, _ => fun _ _ => .error .exhausted
  | fuel + 1, index, run, order, out => fun input pos => do
    let (s, pos) ← t.symbolAt index input pos
    if s < 2 then
      if Nat.pow 2 21 ≤ run.weight then refuse
      else
        let run := ⟨run.length + (s + 1) * run.weight, 2 * run.weight⟩
        moves t fuel (index + 1) run order out input pos
    else
      let out ← appendRun t.capacity (order.headD 0) run.length out
      if s = t.used + 1 then pure (out, pos)
      else
        let order := toFront order (s - 1)
        let out ← appendRun t.capacity (order.headD 0) 1 out
        moves t fuel (index + 1) ⟨0, 1⟩ order out input pos

/-- Where each byte of a last column stands among all of them in order, bytes of one value keeping
theirs: the place of every row is the index of the row that begins one byte later. -/
def successors (last : Array UInt8) : Array Nat :=
  let counts := last.foldl (fun counts b => counts.modify b.toNat (· + 1)) (Array.replicate 256 0)
  let starts := counts.foldl (fun (starts, next) n => (starts.push next, next + n)) (#[], 0)
  let place (state : Array Nat × Array Nat × Nat) (b : UInt8) : Array Nat × Array Nat × Nat :=
    let (cursors, next, i) := state
    (cursors.modify b.toNat (· + 1), next.setIfInBounds (cursors.getD b.toNat 0) i, i + 1)
  (last.foldl place (starts.1, Array.replicate last.size 0, 0)).2.1

/-- Read `count` bytes along the successors. -/
def unwind (last : Array UInt8) (next : Array Nat) : (count row : Nat) → Array UInt8 → Array UInt8
  | 0, _, out => out
  | count + 1, row, out =>
    unwind last next count (next.getD row 0) (out.push (last.getD row 0))

/-- The gaps between the bytes that are changed in a randomised block. -/
def randomGaps : Array Nat :=
  #[619, 720, 127, 481, 931, 816, 813, 233, 566, 247, 985, 724, 205, 454, 863, 491, 741, 242, 949,
    214, 733, 859, 335, 708, 621, 574, 73, 654, 730, 472, 419, 436, 278, 496, 867, 210, 399, 680,
    480, 51, 878, 465, 811, 169, 869, 675, 611, 697, 867, 561, 862, 687, 507, 283, 482, 129, 807,
    591, 733, 623, 150, 238, 59, 379, 684, 877, 625, 169, 643, 105, 170, 607, 520, 932, 727, 476,
    693, 425, 174, 647, 73, 122, 335, 530, 442, 853, 695, 249, 445, 515, 909, 545, 703, 919, 874,
    474, 882, 500, 594, 612, 641, 801, 220, 162, 819, 984, 589, 513, 495, 799, 161, 604, 958, 533,
    221, 400, 386, 867, 600, 782, 382, 596, 414, 171, 516, 375, 682, 485, 911, 276, 98, 553, 163,
    354, 666, 933, 424, 341, 533, 870, 227, 730, 475, 186, 263, 647, 537, 686, 600, 224, 469, 68,
    770, 919, 190, 373, 294, 822, 808, 206, 184, 943, 795, 384, 383, 461, 404, 758, 839, 887, 715,
    67, 618, 276, 204, 918, 873, 777, 604, 560, 951, 160, 578, 722, 79, 804, 96, 409, 713, 940,
    652, 934, 970, 447, 318, 353, 859, 672, 112, 785, 645, 863, 803, 350, 139, 93, 354, 99, 820,
    908, 609, 772, 154, 274, 580, 184, 79, 626, 630, 742, 653, 282, 762, 623, 680, 81, 927, 626,
    789, 125, 411, 521, 938, 300, 821, 78, 343, 175, 128, 250, 170, 774, 972, 275, 999, 639, 495,
    78, 352, 126, 857, 956, 358, 619, 580, 124, 737, 594, 701, 612, 669, 112, 134, 694, 363, 992,
    809, 743, 168, 974, 944, 375, 748, 52, 600, 747, 642, 182, 862, 81, 344, 805, 988, 739, 511,
    655, 814, 334, 249, 515, 897, 955, 664, 981, 649, 113, 974, 459, 893, 228, 433, 837, 553, 268,
    926, 240, 102, 654, 459, 51, 686, 754, 806, 760, 493, 403, 415, 394, 687, 700, 946, 670, 656,
    610, 738, 392, 760, 799, 887, 653, 978, 321, 576, 617, 626, 502, 894, 679, 243, 440, 680, 879,
    194, 572, 640, 724, 926, 56, 204, 700, 707, 151, 457, 449, 797, 195, 791, 558, 945, 679, 297,
    59, 87, 824, 713, 663, 412, 693, 342, 606, 134, 108, 571, 364, 631, 212, 174, 643, 304, 329,
    343, 97, 430, 751, 497, 314, 983, 374, 822, 928, 140, 206, 73, 263, 980, 736, 876, 478, 430,
    305, 170, 514, 364, 692, 829, 82, 855, 953, 676, 246, 369, 970, 294, 750, 807, 827, 150, 790,
    288, 923, 804, 378, 215, 828, 592, 281, 565, 555, 710, 82, 896, 831, 547, 261, 524, 462, 293,
    465, 502, 56, 661, 821, 976, 991, 658, 869, 905, 758, 745, 193, 768, 550, 608, 933, 378, 286,
    215, 979, 792, 961, 61, 688, 793, 644, 986, 403, 106, 366, 905, 644, 372, 567, 466, 434, 645,
    210, 389, 550, 919, 135, 780, 773, 635, 389, 707, 100, 626, 958, 165, 504, 920, 176, 193, 713,
    857, 265, 203, 50, 668, 108, 645, 990, 626, 197, 510, 357, 358, 850, 858, 364, 936, 638]

/-- Flip the last bit of every byte but one in front of the end of a gap. -/
def derandomise (bytes : Array UInt8) : Array UInt8 :=
  let step (state : Nat × Nat × Array UInt8) (b : UInt8) : Nat × Nat × Array UInt8 :=
    let (gap, left, out) := state
    let (gap, left) :=
      if left = 0 then ((gap + 1) % randomGaps.size, randomGaps.getD gap 0) else (gap, left)
    (gap, left - 1, out.push (if left = 2 then b ^^^ 1 else b))
  (bytes.foldl step (0, 0, #[])).2.2

/-- Undo the count of repetitions behind four equal bytes. -/
def expand (bytes : Array UInt8) : Except (Stop Error) (Array UInt8) :=
  let step (state : Nat × UInt8 × Array UInt8) (b : UInt8) : Nat × UInt8 × Array UInt8 :=
    let (run, last, out) := state
    if run = 4 then (0, last, out ++ Array.replicate b.toNat last)
    else if run ≠ 0 ∧ b = last then (run + 1, last, out.push b)
    else (1, b, out.push b)
  let (run, _, out) := bytes.foldl step (0, 0, #[])
  if run = 4 then refuse else .ok out

/-- A block of at most `capacity` bytes and its checksum, behind the mark of its start. -/
def block (capacity : Nat) : Decoder (Array UInt8 × Nat) := fun input pos => do
  let (stored, pos) ← bits 32 input pos
  let (randomised, pos) ← bit input pos
  let (origin, pos) ← bits 24 input pos
  if 10 + capacity < origin then refuse
  let (used, pos) ← usedBytes input pos
  if used.isEmpty then refuse
  let (codeCount, pos) ← bits 3 input pos
  if codeCount < 2 ∨ 6 < codeCount then refuse
  let (selectors, pos) ← selectors codeCount input pos
  let (codes, pos) ← many (code (used.length + 2)) codeCount input pos
  let tables : Tables := ⟨codes.toArray, selectors.toArray, used.length, capacity⟩
  let (last, pos) ← moves tables (8 * input.size) 0 ⟨0, 1⟩ used #[] input pos
  if last.size ≤ origin then refuse
  let next := successors last
  let bytes := unwind last next last.size (next.getD origin 0) #[]
  let out ← expand (if randomised = 1 then derandomise bytes else bytes)
  if (checksum out).toNat ≠ stored then refuse
  pure ((out, stored), pos)

/-- The blocks up to the end of the stream, which closes with a checksum of theirs. Every block
takes bytes, so that their number is `fuel` enough. -/
def blocks (capacity : Nat) (input : ByteArray) : (fuel pos : Nat) → (combined : UInt32) →
    Array UInt8 → Progress Error Unit
  | 0, _, _, out => ⟨out, .error .exhausted⟩
  | fuel + 1, pos, combined, out =>
    match bits 8 input pos with
    | .error stop => ⟨out, .error stop⟩
    | .ok (0x17, pos) =>
      let ending := do
        let (_, pos) ← expect [0x72, 0x45, 0x38, 0x50, 0x90] input pos
        let (stored, _) ← bits 32 input pos
        if combined.toNat ≠ stored then refuse else .ok ()
      ⟨out, ending⟩
    | .ok (0x31, pos) =>
      match (do
          let (_, pos) ← expect [0x41, 0x59, 0x26, 0x53, 0x59] input pos
          block capacity input pos) with
      | .error stop => ⟨out, .error stop⟩
      | .ok ((bytes, stored), pos) =>
        let rotated := (combined <<< 1) ||| (combined >>> 31)
        blocks capacity input fuel pos (rotated ^^^ stored.toUInt32) (out ++ bytes)
    | .ok _ => ⟨out, refuse⟩

/-- Decompress; the data is complete when the stream ends. -/
def decompress (input : ByteArray) : Except Error Decoded :=
  let start := do
    let (_, pos) ← expect [0x42, 0x5A, 0x68] input 0
    let (level, pos) ← bits 8 input pos
    if level < 0x31 ∨ 0x39 < level then refuse else .ok (100000 * (level - 0x30), pos)
  match start with
  | .error stop => Progress.decoded (⟨#[], .error stop⟩ : Progress Error Unit)
  | .ok (capacity, pos) => (blocks capacity input input.size pos 0 #[]).decoded

end JniHeader.Bzip2
