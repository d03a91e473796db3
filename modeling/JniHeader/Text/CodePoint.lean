/-!
# Code points and texts

A text is a list of Unicode code points. Surrogates are code points like any
other: class files may hold unpaired ones, and names are compared, escaped and
printed code point by code point.
-/
namespace JniHeader

/-- A Unicode code point, surrogates included. -/
structure CodePoint where
  val : Nat
  isLt : val < 0x110000
deriving DecidableEq, Repr

/-- A sequence of code points. -/
abbrev Text := List CodePoint

namespace CodePoint

theorem ext {a b : CodePoint} (h : a.val = b.val) : a = b := by
  cases a; cases b; cases h; rfl

def ofChar (c : Char) : CodePoint :=
  ⟨c.toNat, by
    have h := c.valid
    rcases h with h | ⟨_, h⟩
    · have : c.val.toNat < 0xD800 := h
      show c.val.toNat < _
      omega
    · exact h⟩

/-- The code point of this number; a number beyond the last one gives U+FFFD. -/
def ofNat (n : Nat) : CodePoint :=
  if h : n < 0x110000 then ⟨n, h⟩ else ⟨0xFFFD, by decide⟩

theorem val_ofNat {n : Nat} (h : n < 0x110000) : (ofNat n).val = n := by
  simp [ofNat, h]

instance : Coe Char CodePoint := ⟨ofChar⟩
instance : Inhabited CodePoint := ⟨ofChar ' '⟩

/-- Code points are ordered by number. -/
instance : LT CodePoint := ⟨fun a b => a.val < b.val⟩
instance : DecidableLT CodePoint := fun a b => inferInstanceAs (Decidable (a.val < b.val))

/-- The number of `c` lies between the two bounds, ends included. -/
def within (lo hi : Nat) (c : CodePoint) : Bool := lo ≤ c.val && c.val ≤ hi

def isAsciiDigit (c : CodePoint) : Bool := c.within 0x30 0x39

def isAsciiLetter (c : CodePoint) : Bool := c.within 0x41 0x5A || c.within 0x61 0x7A

/-- U+0020 to U+007E. -/
def isPlain (c : CodePoint) : Bool := c.within 0x20 0x7E

def isHighSurrogate (c : CodePoint) : Bool := c.within 0xD800 0xDBFF

def isLowSurrogate (c : CodePoint) : Bool := c.within 0xDC00 0xDFFF

def isSurrogate (c : CodePoint) : Bool := c.within 0xD800 0xDFFF

/-- The lower-case form of an ASCII letter; other code points stay. -/
def toAsciiLower (c : CodePoint) : CodePoint :=
  if c.within 0x41 0x5A then ofNat (c.val + 0x20) else c

end CodePoint

namespace Text

def ofString (s : String) : Text := s.toList.map .ofChar

instance : Coe String Text := ⟨ofString⟩

/-- Cut at every `sep`; the pieces hold no `sep` and there is one more of them than of `sep`. -/
def splitAt (sep : CodePoint) : Text → List Text
  | [] => [[]]
  | c :: r =>
    if c = sep then [] :: splitAt sep r
    else
      match splitAt sep r with
      | [] => [[c]]
      | piece :: pieces => (c :: piece) :: pieces

/-- Put `sep` between the pieces. -/
def joinWith (sep : Text) : List Text → Text
  | [] => []
  | [t] => t
  | t :: rest => t ++ sep ++ joinWith sep rest

/-- Lines joined by line feeds, with none after the last. -/
def unlines (lines : List Text) : Text := joinWith [CodePoint.ofChar '\n'] lines

/-- Replace one code point by another throughout. -/
def replace (old new : CodePoint) (t : Text) : Text := t.map fun c => if c = old then new else c

/-- The part before the first `sep` and the part after it, if there is one. -/
def cutFirst (sep : CodePoint) (t : Text) : Text × Option Text :=
  match t.dropWhile (· ≠ sep) with
  | [] => (t, none)
  | _ :: r => (t.takeWhile (· ≠ sep), some r)

/-- The part after the last `sep`, or all of the text. -/
def afterLast (sep : CodePoint) (t : Text) : Text :=
  (t.reverse.takeWhile (· ≠ sep)).reverse

def toAsciiLower (t : Text) : Text := t.map CodePoint.toAsciiLower

/-- Texts in ascending order, compared code point by code point. -/
def sort (ts : List Text) : List Text := ts.mergeSort fun a b => decide (¬ b < a)

/-- At least `width` wide, with blanks on the right. -/
def padRight (width : Nat) (t : Text) : Text :=
  t ++ List.replicate (width - t.length) (CodePoint.ofChar ' ')

/-- At least `width` wide, with blanks on the left. -/
def padLeft (width : Nat) (t : Text) : Text :=
  List.replicate (width - t.length) (CodePoint.ofChar ' ') ++ t

end Text

end JniHeader
