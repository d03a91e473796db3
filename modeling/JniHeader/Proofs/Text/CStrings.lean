import JniHeader.Constant.StringLiteral
import JniHeader.Proofs.Text.Utf8

/-!
# String literals in C

A reader of a string literal goes through it code point by code point and remembers an
escape that it is in. An octal escape takes all the digits it can get, up to three; so
its byte is known with its third digit, or with the first code point that is none.

Every text is read back from its literal as its UTF-8 bytes. The three digits of each
escaped byte use up the octal escape, hence the reader stands between two elements
after each code point of the text, and whatever follows is read on its own.
-/
namespace JniHeader

/-- Where a reader of a string literal stands: between two elements, behind a backslash, behind an
octal escape of which `left` more digits may follow, or behind the closing quote. -/
inductive CStringMode where
  | plain
  | escape
  | octal (left value : ℕ)
  | closed

namespace CString

def octalDigit? (c : CodePoint) : Option ℕ :=
  if c.within 0x30 0x37 then some (c.val - 0x30) else none

/-- The escapes of a single code point. -/
def simpleEscapes : List (Char × UInt8) :=
  [('\'', 0x27), ('"', 0x22), ('?', 0x3F), ('\\', 0x5C), ('a', 0x07), ('b', 0x08), ('f', 0x0C),
    ('n', 0x0A), ('r', 0x0D), ('t', 0x09), ('v', 0x0B)]

def simpleEscape? (c : CodePoint) : Option UInt8 :=
  (simpleEscapes.find? fun e => CodePoint.ofChar e.1 == c).map (·.2)

/-- The byte that an octal escape stands for; a larger number stands for none. -/
def byte? (n : ℕ) : Option UInt8 := if n < 256 then some n.toUInt8 else none

/-- The bytes and the next mode that a code point between two elements gives. A line does not end
inside a literal. -/
def plainStep (c : CodePoint) : Option (List UInt8 × CStringMode) :=
  if c = '"' then some ([], .closed)
  else if c = '\\' then some ([], .escape)
  else if c = '\n' then none
  else some (c.utf8, .plain)

def step : CStringMode → CodePoint → Option (List UInt8 × CStringMode)
  | .plain, c => plainStep c
  | .escape, c =>
    match octalDigit? c with
    | some d => some ([], .octal 2 d)
    | none => (simpleEscape? c).map fun b => ([b], .plain)
  | .octal left value, c =>
    match left, octalDigit? c with
    | left + 2, some d => some ([], .octal (left + 1) (value * 8 + d))
    | 1, some d => (byte? (value * 8 + d)).map fun b => ([b], .plain)
    | _, _ => do
      let b ← byte? value
      let (bytes, mode) ← plainStep c
      some (b :: bytes, mode)
  | .closed, _ => none

/-- The bytes of a literal up to its closing quote, and the text behind the quote. -/
def readFrom : CStringMode → Text → Option (List UInt8 × Text)
  | _, [] => none
  | mode, c :: t =>
    match step mode c with
    | none => none
    | some (bytes, .closed) => some (bytes, t)
    | some (bytes, mode') => (readFrom mode' t).map fun p => (bytes ++ p.1, p.2)

/-- The bytes of the string literal at the front of a text, and the text behind it. -/
def read : Text → Option (List UInt8 × Text)
  | [] => none
  | c :: t => if c = '"' then readFrom .plain t else none

/-- From the one mode to the other the text is read as these bytes, whatever follows it. -/
def Spells (m : CStringMode) (t : Text) (bytes : List UInt8) (m' : CStringMode) : Prop :=
  ∀ rest, readFrom m (t ++ rest) = (readFrom m' rest).map fun p => (bytes ++ p.1, p.2)

namespace Spells

variable {m m' m'' : CStringMode} {s t : Text} {bytes more : List UInt8} {c : CodePoint}

theorem nil (m : CStringMode) : Spells m [] [] m := by
  intro rest
  simp

theorem append (hs : Spells m s bytes m') (ht : Spells m' t more m'') :
    Spells m (s ++ t) (bytes ++ more) m'' := by
  intro rest
  rw [List.append_assoc, hs, ht, Option.map_map]
  simp only [Function.comp_def, List.append_assoc]

theorem single (hstep : step m c = some (bytes, m')) (hopen : m' ≠ .closed) :
    Spells m [c] bytes m' := by
  intro rest
  rw [List.singleton_append, readFrom, hstep]
  cases m' with
  | closed => exact absurd rfl hopen
  | _ => rfl

theorem flatMap {α : Type} {f : α → Text} {g : α → List UInt8}
    (h : ∀ x, Spells m (f x) (g x) m) (xs : List α) : Spells m (xs.flatMap f) (xs.flatMap g) m := by
  induction xs with
  | nil => exact nil m
  | cons x xs ih =>
      rw [List.flatMap_cons, List.flatMap_cons]
      exact (h x).append ih

theorem plain (hquote : c ≠ '"') (hbackslash : c ≠ '\\') (hfeed : c ≠ '\n') :
    Spells .plain [c] c.utf8 .plain := by
  refine single ?_ nofun
  rw [step, plainStep, if_neg hquote, if_neg hbackslash, if_neg hfeed]

theorem backslash : Spells .plain "\\" [] .escape := single rfl nofun

theorem simple {b : UInt8} (hdigit : octalDigit? c = none) (h : simpleEscape? c = some b) :
    Spells .plain (CodePoint.ofChar '\\' :: [c]) [b] .plain := by
  have hstep : step .escape c = some ([b], .plain) := by
    simp only [step, hdigit, h, Option.map_some]
  exact backslash.append (single hstep nofun)

end Spells

theorem octalDigit?_upperDigit {d : ℕ} (h : d < 8) : octalDigit? (upperDigit d) = some d := by
  interval_cases d <;> rfl

/-- Three digits use up an octal escape. -/
theorem spells_octal (b : UInt8) :
    Spells .plain (CodePoint.ofChar '\\' :: Text.octal b.toNat) [b] .plain := by
  have hlt := b.toNat_lt
  have hdigit (k : ℕ) : octalDigit? (upperDigit (k % 8)) = some (k % 8) :=
    octalDigit?_upperDigit (Nat.mod_lt k (by decide))
  have hvalue : (b.toNat / 8 / 8 % 8 * 8 + b.toNat / 8 % 8) * 8 + b.toNat % 8 = b.toNat := by
    omega
  have hbyte : byte? b.toNat = some b := by
    rw [byte?, if_pos hlt]
    exact congrArg some UInt8.ofNat_toNat
  have hfirst : step .escape (upperDigit (b.toNat / 8 / 8 % 8)) =
      some ([], .octal 2 (b.toNat / 8 / 8 % 8)) := by
    simp only [step, hdigit]
  have hsecond : step (.octal 2 (b.toNat / 8 / 8 % 8)) (upperDigit (b.toNat / 8 % 8)) =
      some ([], .octal 1 (b.toNat / 8 / 8 % 8 * 8 + b.toNat / 8 % 8)) := by
    simp only [step, hdigit]
  have hthird : step (.octal 1 (b.toNat / 8 / 8 % 8 * 8 + b.toNat / 8 % 8))
      (upperDigit (b.toNat % 8)) = some ([b], .plain) := by
    simp only [step, hdigit, hvalue, hbyte, Option.map_some]
  exact Spells.backslash.append ((Spells.single hfirst nofun).append
    ((Spells.single hsecond nofun).append (Spells.single hthird nofun)))

theorem spells_escape (c : CodePoint) :
    Spells .plain (StringLiteral.escape c) c.utf8 .plain := by
  rw [StringLiteral.escape]
  split_ifs with hbackslash hquote hfeed htab hreturn
  · rw [hbackslash]
    exact .simple rfl rfl
  · rw [hquote]
    exact .simple rfl rfl
  · rw [hfeed]
    exact .simple rfl rfl
  · rw [htab]
    exact .simple rfl rfl
  · rw [hreturn]
    exact .simple rfl rfl
  · exact .plain hquote hbackslash hfeed
  · have hbytes := Spells.flatMap spells_octal c.utf8
    rwa [List.flatMap_singleton'] at hbytes

theorem utf8_injective {t u : Text} (h : t.utf8 = u.utf8) : t = u := by
  have ht := Utf8.decode_utf8 t
  rw [h, Utf8.decode_utf8] at ht
  exact (Except.ok.inj ht).symm

theorem read_write (t rest : Text) :
    read (StringLiteral.write t ++ rest) = some (t.utf8, rest) := by
  have hbody := Spells.flatMap spells_escape t
  have hclose : readFrom .plain ('"' :: rest) = some ([], rest) := rfl
  change readFrom .plain (t.flatMap StringLiteral.escape ++ "\"" ++ rest) = _
  rw [List.append_assoc, hbody]
  change (readFrom .plain ('"' :: rest)).map _ = _
  rw [hclose, Option.map_some, List.append_nil]
  rfl

/-- The literal of a text is read as the UTF-8 bytes of the text, and no further than to its closing
quote. Hence two texts have the same literal only if they are the same. -/
theorem write_denotes_text :
    (∀ t rest : Text, read (StringLiteral.write t ++ rest) = some (t.utf8, rest)) ∧
    ∀ t u : Text, StringLiteral.write t = StringLiteral.write u ↔ t = u := by
  refine ⟨read_write, fun t u => ⟨fun h => ?_, congrArg StringLiteral.write⟩⟩
  have hread := read_write t []
  rw [h, read_write u []] at hread
  exact utf8_injective (Prod.mk.inj (Option.some.inj hread)).1.symm

example : read "\"\\60\\0609\\n\";" = some ([0x30, 0x30, 0x39, 0x0A], (";" : Text)) := by decide

end CString

end JniHeader
