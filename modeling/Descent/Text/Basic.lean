/-!
# Code points and text

A text is a finite sequence of code points. Lone surrogates are allowed, so a text is a list of numbers and not
a `String`; every offset in the library counts code points.
-/
namespace Descent

/-- A Unicode code point, a surrogate included. -/
abbrev CodePoint := Nat

/-- A sequence of code points. -/
abbrev Text := List CodePoint

instance : LawfulBEq Text := inferInstanceAs (LawfulBEq (List Nat))

def text (s : String) : Text := s.toList.map Char.toNat

namespace CodePoint

/-- A code point of the range reserved for the halves of UTF-16 pairs. -/
def isSurrogate (c : CodePoint) : Bool := 0xD800 ≤ c && c ≤ 0xDFFF

def isHighSurrogate (c : CodePoint) : Bool := 0xD800 ≤ c && c ≤ 0xDBFF

def isLowSurrogate (c : CodePoint) : Bool := 0xDC00 ≤ c && c ≤ 0xDFFF

/-- The code point that a high and a low surrogate stand for together. -/
def ofSurrogates (high low : CodePoint) : CodePoint := 0x10000 + (high - 0xD800) * 0x400 + (low - 0xDC00)

/-- An ASCII digit. Digits of other scripts are not digits here. -/
def isDigit (c : CodePoint) : Bool := 0x30 ≤ c && c ≤ 0x39

def isUpper (c : CodePoint) : Bool := 0x41 ≤ c && c ≤ 0x5A

def isLower (c : CodePoint) : Bool := 0x61 ≤ c && c ≤ 0x7A

def isAlpha (c : CodePoint) : Bool := isUpper c || isLower c

def isHexDigit (c : CodePoint) : Bool := isDigit c || (0x41 ≤ c && c ≤ 0x46) || (0x61 ≤ c && c ≤ 0x66)

/-- The value of a hexadecimal digit, or zero for any other code point. -/
def hexValue (c : CodePoint) : Nat :=
  if isDigit c then c - 0x30
  else if 0x41 ≤ c && c ≤ 0x46 then c - 0x41 + 10
  else if 0x61 ≤ c && c ≤ 0x66 then c - 0x61 + 10
  else 0

/-- The small-letter hexadecimal digit of a number below sixteen. -/
def ofHexValue (n : Nat) : CodePoint := if n < 10 then 0x30 + n else 0x61 + (n - 10)

end CodePoint

namespace Text

/-- The number that a run of hexadecimal digits denotes. -/
def hexNumber (digits : Text) : Nat := digits.foldl (fun n c => 16 * n + CodePoint.hexValue c) 0

/-- The last `width` hexadecimal digits of a number. -/
def hexDigits : Nat → Nat → Text
  | 0, _ => []
  | width + 1, n => hexDigits width (n / 16) ++ [CodePoint.ofHexValue (n % 16)]

/-- A text with blanks in front up to the given width. -/
def padLeft (width : Nat) (t : Text) : Text := List.replicate (width - t.length) 0x20 ++ t

/-- The pieces between the line feeds of a text; a text without one is a single piece. -/
def lines (t : Text) : List Text := t.foldr addPoint [[]]
where
  /-- Puts a code point in front of the first line, or starts a new line with it. -/
  addPoint (c : CodePoint) : List Text → List Text
    | [] => [[c]]
    | line :: more => if c = 0x0A then [] :: line :: more else (c :: line) :: more

end Text
end Descent
