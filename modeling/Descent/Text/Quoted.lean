import Descent.Text.Printable

/-!
# Quoted text

The quoted form of a text shows it on one line between quotation marks: the mark itself, the backslash and every
unprintable code point are escaped.
-/
namespace Descent.Text

/-- The mark around a quoted text: the apostrophe, unless only the apostrophe would have to be escaped. -/
def quotationMark (t : Text) : CodePoint := if 0x27 ∈ t ∧ 0x22 ∉ t then 0x22 else 0x27

def quotedPoint (mark : CodePoint) (c : CodePoint) : Text :=
  if c = mark ∨ c = 0x5C then [0x5C, c]
  else if c = 0x0A then text "\\n"
  else if c = 0x0D then text "\\r"
  else if c = 0x09 then text "\\t"
  else if CodePoint.isPrintable c then [c]
  else if c ≤ 0xFF then text "\\x" ++ hexDigits 2 c
  else if c ≤ 0xFFFF then text "\\u" ++ hexDigits 4 c
  else text "\\U" ++ hexDigits 8 c

def quoted (t : Text) : Text :=
  let mark := quotationMark t
  mark :: t.flatMap (quotedPoint mark) ++ [mark]

end Descent.Text
