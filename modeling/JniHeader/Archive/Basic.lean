import JniHeader.Archive.Bzip2
import JniHeader.Archive.CodePage437
import JniHeader.Archive.Crc32
import JniHeader.Archive.Inflate
import JniHeader.Archive.LittleEndian
import JniHeader.Archive.Lzma
import JniHeader.Text.Quoted
import JniHeader.Text.Utf8

/-!
# Archives

Zip archives as they are found in jar, zip and jmod files. The end record is
looked for from the end of the bytes, so that other bytes may stand in front of
an archive; it locates the directory, which lists the entries. Sizes and
checksums are those of the directory.
-/
namespace JniHeader

namespace Archive

/-- Why bytes are refused as an archive, or an entry of one cannot be read. -/
inductive Error where
  | notArchive
  | directoryOffset
  | truncatedDirectory
  | directoryMagic
  | version (version : Nat)
  | extraField (id size : Nat)
  | wideField (field : Text)
  | severalDisks
  | negativeOffset
  | wideOffset
  | truncatedHeader
  | headerMagic
  | patchedData
  | strongEncryption
  | nameMismatch (inDirectory : Text) (inHeader : List UInt8)
  | overlapping (name : Text)
  | encrypted (name : Text)
  | unsupportedMethod
  | endOfFile
  | checksum (name : Text)
  | inflating (e : Inflate.Error)
  | bzip2 (e : Bzip2.Error)
  | lzma (e : Lzma.Error)
  | undecodableName (fault : Utf8.Fault)
deriving DecidableEq

def Error.message : Error → Text
  | .notArchive => "File is not a zip file"
  | .directoryOffset => "Bad offset for central directory"
  | .truncatedDirectory => "Truncated central directory"
  | .directoryMagic => "Bad magic number for central directory"
  | .version v => "zip file version " ++ Text.ofNat (v / 10) ++ "." ++ Text.ofNat (v % 10)
  | .extraField id size =>
    "Corrupt extra field " ++ Text.lowerHex 4 id ++ " (size=" ++ Text.ofNat size ++ ")"
  | .wideField field => "Corrupt zip64 extra field. " ++ field ++ " not found."
  | .severalDisks => "zipfiles that span multiple disks are not supported"
  | .negativeOffset => "[Errno 22] Invalid argument"
  | .wideOffset => "cannot fit 'int' into an offset-sized integer"
  | .truncatedHeader => "Truncated file header"
  | .headerMagic => "Bad magic number for file header"
  | .patchedData => "compressed patched data (flag bit 5)"
  | .strongEncryption => "strong encryption (flag bit 6)"
  | .nameMismatch inDirectory inHeader =>
    "File name in directory " ++ inDirectory.quoted ++ " and header " ++ quotedBytes inHeader
      ++ " differ."
  | .overlapping name => "Overlapped entries: " ++ name.quoted ++ " (possible zip bomb)"
  | .encrypted name =>
    "File " ++ name.quoted ++ " is encrypted, password required for extraction"
  | .unsupportedMethod => "That compression method is not supported"
  | .endOfFile => []
  | .checksum name => "Bad CRC-32 for file " ++ name.quoted
  | .inflating e => e.message
  | .bzip2 e => e.message
  | .lzma e => e.message
  | .undecodableName fault => fault.message

/-- The readers of classes expect the error. They do not expect values that fit nowhere, and errors
of a codec that has errors of its own. -/
def Error.isExpected : Error → Bool
  | .undecodableName _ | .wideOffset | .lzma _ => false
  | _ => true

/-- What the directory says of an entry. Its name ends at the first NUL of the name as written. -/
structure Entry where
  writtenName : Text
  flags : Nat
  method : Nat
  checksum : Nat
  compressedSize : Nat
  size : Nat
  headerOffset : Int
deriving DecidableEq

def Entry.name (e : Entry) : Text := e.writtenName.takeWhile (·.val ≠ 0)

def isUtf8 (flags : Nat) : Bool := flags.testBit 11

/-- A name in the character set that the flags announce. -/
def decodeName (flags : Nat) (bytes : List UInt8) : Except Error Text :=
  if isUtf8 flags then
    match Utf8.decode false bytes with
    | .ok t => .ok t
    | .error fault => .error (.undecodableName fault)
  else .ok (CodePage437.decode bytes)

/-- Where the directory is, and by how much all offsets are shifted. -/
structure Location where
  start : Nat
  size : Nat
  shift : Int

def endSignature : List UInt8 := [0x50, 0x4B, 0x05, 0x06]
def directorySignature : List UInt8 := [0x50, 0x4B, 0x01, 0x02]
def headerSignature : List UInt8 := [0x50, 0x4B, 0x03, 0x04]

def endRecordSize : Nat := 22
def directoryRecordSize : Nat := 46
def headerRecordSize : Nat := 30

/-- The last position below `limit` and not below `least` where the end signature stands. -/
def lastEndSignature? (b : ByteArray) (least : Nat) : (limit : Nat) → Option Nat
  | 0 => none
  | n + 1 =>
    if n < least then none
    else if slice b n 4 = endSignature then some n
    else lastEndSignature? b least n

/-- The position of the end record. A comment of less than 65536 bytes may follow it. -/
def endRecord? (b : ByteArray) : Option Nat :=
  if b.size < endRecordSize then none
  else
    let last := b.size - endRecordSize
    if slice b last 4 = endSignature ∧ slice b (b.size - 2) 2 = [0, 0] then some last
    else
      match lastEndSignature? b (last - 65536) (b.size - 3) with
      | some i => if i ≤ last then some i else none
      | none => none

def wideEndSignature : List UInt8 := [0x50, 0x4B, 0x06, 0x06]
def wideLocatorSignature : List UInt8 := [0x50, 0x4B, 0x06, 0x07]

def wideEndSize : Nat := 56
def wideLocatorSize : Nat := 20

/-- The size and the offset of the directory in numbers of eight bytes, if a record of them and its
locator stand in front of the end record at `i`. -/
def wideEnd? (b : ByteArray) (i : Nat) : Except Error (Option (Nat × Nat)) :=
  let locator := i - wideLocatorSize
  let record := locator - wideEndSize
  if i < wideLocatorSize ∨ slice b locator 4 ≠ wideLocatorSignature then .ok none
  else if littleEndian b (locator + 4) 4 ≠ 0 ∨ 1 < littleEndian b (locator + 16) 4 then
    .error .severalDisks
  else if locator < wideEndSize then .error .notArchive
  else if slice b record 4 ≠ wideEndSignature then .ok none
  else .ok (some (littleEndian b (record + 40) 8, littleEndian b (record + 48) 8))

/-- The directory ends where the end records begin. -/
def Location.endingAt (stop size offset : Nat) : Except Error Location :=
  if stop < size then .error .directoryOffset
  else .ok ⟨stop - size, size, (stop : Int) - size - offset⟩

def locate (b : ByteArray) : Except Error Location := do
  match endRecord? b with
  | none => throw .notArchive
  | some i =>
    match ← wideEnd? b i with
    | some (size, offset) => Location.endingAt (i - wideLocatorSize - wideEndSize) size offset
    | none => Location.endingAt i (littleEndian b (i + 12) 4) (littleEndian b (i + 16) 4)

/-- Sizes that do not fit their fields stand in an extra field, eight bytes each, in a fixed
order. `next` holds those still unread. -/
def wideNumber (field : Text) (isWide : Bool) (value : Nat) (next : List UInt8) :
    Except Error (Nat × List UInt8) :=
  if !isWide then .ok (value, next)
  else if next.length < 8 then .error (.wideField field)
  else .ok (littleEndian ⟨(next.take 8).toArray⟩ 0 8, next.drop 8)

/-- Apply the extra fields of an entry. `fuel` bounds their number. -/
def applyExtra : (fuel : Nat) → List UInt8 → Entry → Except Error Entry
  | 0, _, e => .ok e
  | fuel + 1, i0 :: i1 :: n0 :: n1 :: rest, e => do
    let id := i0.toNat + 256 * i1.toNat
    let size := n0.toNat + 256 * n1.toNat
    if rest.length < size then throw (.extraField id size)
    let limit := 0xFFFFFFFF
    let e ←
      if id = 1 then do
        let data := rest.take size
        let wideSize := e.size = limit ∨ e.size = 0xFFFFFFFFFFFFFFFF
        let (size, data) ← wideNumber "File size" wideSize e.size data
        let (compressedSize, data) ←
          wideNumber "Compress size" (e.compressedSize = limit) e.compressedSize data
        let (offset, _) ←
          wideNumber "Header offset" (e.headerOffset = limit) e.headerOffset.toNat data
        pure { e with size := size, compressedSize := compressedSize, headerOffset := offset }
      else pure e
    applyExtra fuel (rest.drop size) e
  | _ + 1, _, e => .ok e

/-- The latest version of the format that is understood, in tenths. -/
def latestVersion : Nat := 63

/-- The entry at position `i` of the directory, and the position after it. -/
def readDirectoryEntry (b : ByteArray) (stop : Nat) (shift : Int) (i : Nat) :
    Except Error (Entry × Nat) := do
  if stop < i + directoryRecordSize then throw .truncatedDirectory
  if slice b i 4 ≠ directorySignature then throw .directoryMagic
  let field (offset size : Nat) : Nat := littleEndian b (i + offset) size
  let flags := field 8 2
  let nameSize := field 28 2
  let extraSize := field 30 2
  let commentSize := field 32 2
  let within (start size : Nat) : List UInt8 := slice b start (min size (stop - start))
  let nameStart := i + directoryRecordSize
  let writtenName ← decodeName flags (within nameStart nameSize)
  let version := field 6 1
  if latestVersion < version then throw (.version version)
  let extra := within (nameStart + nameSize) extraSize
  let e : Entry :=
    { writtenName := writtenName
      flags := flags
      method := field 10 2
      checksum := field 16 4
      compressedSize := field 20 4
      size := field 24 4
      headerOffset := field 42 4 }
  let e ← applyExtra extra.length extra e
  pure ({ e with headerOffset := e.headerOffset + shift },
    nameStart + nameSize + extraSize + commentSize)

/-- The entries between `i` and `stop`; every entry takes bytes, so that their count is `fuel`
enough. -/
def readDirectory (b : ByteArray) (stop : Nat) (shift : Int) : (fuel i : Nat) →
    Except Error (List Entry)
  | 0, _ => .ok []
  | fuel + 1, i =>
    if stop ≤ i then .ok []
    else do
      let (e, next) ← readDirectoryEntry b stop shift i
      let es ← readDirectory b stop shift fuel next
      pure (e :: es)

theorem length_readDirectory {b : ByteArray} {stop : Nat} {shift : Int} {fuel i : Nat}
    {es : List Entry} (h : readDirectory b stop shift fuel i = .ok es) : es.length ≤ fuel := by
  induction fuel generalizing i es with
  | zero =>
    cases h
    exact Nat.le_refl 0
  | succ fuel ih =>
    rw [readDirectory] at h
    split at h
    · cases h
      exact Nat.zero_le _
    · cases hr : readDirectoryEntry b stop shift i with
      | error e => simp [hr, bind, Except.bind] at h
      | ok r =>
        obtain ⟨e, next⟩ := r
        cases hs : readDirectory b stop shift fuel next with
        | error e => simp [hr, hs, bind, Except.bind] at h
        | ok rest =>
          simp only [hr, hs, bind, Except.bind, pure, Except.pure, Except.ok.injEq] at h
          subst h
          exact Nat.succ_le_succ (ih hs)

end Archive

/-- The bytes of an archive, the entries of its directory, and where the directory starts. -/
structure Archive where
  content : ByteArray
  entries : List Archive.Entry
  directoryStart : Nat

namespace Archive

/-- Read the directory of an archive. -/
def ofBytes (b : ByteArray) : Except Error Archive := do
  let l ← locate b
  let entries ← readDirectory b (l.start + l.size) l.shift b.size l.start
  pure ⟨b, entries, l.start⟩

/-- What an archive is read from. -/
theorem exists_directory_of_ofBytes {b : ByteArray} {a : Archive} (h : ofBytes b = .ok a) :
    a.content = b ∧ ∃ l, locate b = .ok l ∧
      readDirectory b (l.start + l.size) l.shift b.size l.start = .ok a.entries ∧
      a.directoryStart = l.start := by
  unfold ofBytes at h
  cases hl : locate b with
  | error e => simp [hl, bind, Except.bind] at h
  | ok l =>
    cases hr : readDirectory b (l.start + l.size) l.shift b.size l.start with
    | error e => simp [hl, hr, bind, Except.bind] at h
    | ok es =>
      simp only [hl, hr, bind, Except.bind, pure, Except.pure, Except.ok.injEq] at h
      subst h
      exact ⟨rfl, l, rfl, hr, rfl⟩

/-- No archive has more entries than bytes. -/
theorem length_entries {b : ByteArray} {a : Archive} (h : ofBytes b = .ok a) :
    a.entries.length ≤ b.size := by
  obtain ⟨-, l, -, hentries, -⟩ := exists_directory_of_ofBytes h
  exact length_readDirectory hentries

/-- The entry of a name; of several the last. -/
def find? (a : Archive) (name : Text) : Option Entry :=
  a.entries.reverse.find? fun e => e.name == name

/-- Where the data of an entry has to end: at the entry that follows it in the file, or at the
directory. Of entries with one offset, each is followed by the one before it in the directory. -/
def dataLimit (a : Archive) (e : Entry) : Int :=
  let byOffset := a.entries.mergeSort fun x y => decide (y.headerOffset ≤ x.headerOffset)
  match byOffset.reverse.dropWhile (· ≠ e) with
  | _ :: before :: _ => before.headerOffset
  | _ => a.directoryStart

/-- The start of an entry's data, once its own header has been checked against the directory. -/
def dataStart (a : Archive) (e : Entry) : Except Error Nat := do
  if e.headerOffset < -Nat.pow 2 63 ∨ Nat.pow 2 63 ≤ e.headerOffset then throw .wideOffset
  if e.headerOffset < 0 then throw .negativeOffset
  let i := e.headerOffset.toNat
  if a.content.size < i + headerRecordSize then throw .truncatedHeader
  if slice a.content i 4 ≠ headerSignature then throw .headerMagic
  let nameSize := littleEndian a.content (i + 26) 2
  let extraSize := littleEndian a.content (i + 28) 2
  let name := slice a.content (i + headerRecordSize) nameSize
  if e.flags.testBit 5 then throw .patchedData
  if e.flags.testBit 6 then throw .strongEncryption
  let decoded ← decodeName (littleEndian a.content (i + 6) 2) name
  if decoded ≠ e.writtenName then throw (.nameMismatch e.writtenName name)
  let start := min (i + headerRecordSize + nameSize + extraSize) a.content.size
  if a.dataLimit e < (start : Int) + e.compressedSize then throw (.overlapping e.writtenName)
  if e.flags.testBit 0 then throw (.encrypted e.name)
  pure start

/-- What packed bytes stand for, by the number of the method. Stored bytes mark no end. -/
def decoder? : (method : Nat) → Option (ByteArray → Except Error Decoded)
  | 0 => some fun packed => .ok ⟨packed.data.toList, false⟩
  | 8 => some fun packed => (Inflate.inflate packed).mapError .inflating
  | 12 => some fun packed => (Bzip2.decompress packed).mapError .bzip2
  | 14 => some fun packed => (Lzma.decompress packed).mapError .lzma
  | _ => none

/-- The data of an entry, cut at its size. -/
def unpack (a : Archive) (start : Nat) (e : Entry) : Except Error (List UInt8) := do
  let packed := a.content.extract start (start + e.compressedSize)
  let cutShort := packed.size < e.compressedSize
  match decoder? e.method with
  | none => throw .unsupportedMethod
  | some decode =>
    if cutShort ∧ packed.size = 0 then throw .endOfFile
    let decoded ← decode packed
    if cutShort ∧ !decoded.isComplete ∧ decoded.output.length < e.size then throw .endOfFile
    let data := decoded.output.take e.size
    if (Crc32.checksum data).toNat ≠ e.checksum then throw (.checksum e.name)
    pure data

/-- The data of an entry. -/
def readEntry (a : Archive) (e : Entry) : Except Error (List UInt8) := do
  let start ← a.dataStart e
  a.unpack start e

/-- The data of the entry of this name, none when there is no such entry. -/
def read (b : ByteArray) (name : Text) : Except Error (Option (List UInt8)) := do
  let a ← ofBytes b
  match a.find? name with
  | none => pure none
  | some e => some <$> a.readEntry e

/-- The data of all readable entries. -/
def allData (b : ByteArray) : List (List UInt8) :=
  match ofBytes b with
  | .ok a => a.entries.filterMap fun e => (a.readEntry e).toOption
  | .error _ => []

theorem length_allData (b : ByteArray) : (allData b).length ≤ b.size := by
  unfold allData
  split
  next a h => exact Nat.le_trans (List.length_filterMap_le _ _) (length_entries h)
  next => exact Nat.zero_le _

theorem mem_allData {b : ByteArray} {name : Text} {data : List UInt8}
    (h : read b name = .ok (some data)) : data ∈ allData b := by
  unfold read at h
  cases ha : ofBytes b with
  | error e => simp [ha, bind, Except.bind] at h
  | ok a =>
    simp only [ha, bind, Except.bind] at h
    cases hf : a.find? name with
    | none => simp [hf, pure, Except.pure] at h
    | some e =>
      simp only [hf] at h
      cases hr : a.readEntry e with
      | error e => simp [hr, Functor.map, Except.map] at h
      | ok d =>
        simp only [hr, Functor.map, Except.map, Except.ok.injEq, Option.some.injEq] at h
        subst h
        unfold allData
        simp only [ha, List.mem_filterMap]
        refine ⟨e, ?_, by simp [hr, Except.toOption]⟩
        have := List.mem_of_find?_eq_some hf
        simpa using this

end Archive

end JniHeader
