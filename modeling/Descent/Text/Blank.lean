import Descent.Text.Basic

/-!
# Blank code points

The white space of the Unicode bidirectional classes WS, B and S together with the space separators.
-/
namespace Descent.CodePoint

/-- A code point that counts as white space in any script. -/
def isBlank (c : CodePoint) : Bool :=
  (0x09 ≤ c && c ≤ 0x0D) || (0x1C ≤ c && c ≤ 0x20) || c == 0x85 || c == 0xA0 || c == 0x1680 ||
  (0x2000 ≤ c && c ≤ 0x200A) || c == 0x2028 || c == 0x2029 || c == 0x202F || c == 0x205F || c == 0x3000

end Descent.CodePoint
