import Descent.Text.Basic

/-!
# Lines and columns

A position counts lines and columns from one. A line feed ends its line; no other code point does.
-/
namespace Descent

/-- A line and a column, both counted from one. -/
structure Position where
  line : Nat
  column : Nat
  one_le_line : 1 ≤ line := by omega
  one_le_column : 1 ≤ column := by omega
deriving DecidableEq, Repr

namespace Position

def first : Position := ⟨1, 1, Nat.le_refl 1, Nat.le_refl 1⟩

/-- The position behind a code point that stands at the given position. -/
def advance (p : Position) (c : CodePoint) : Position :=
  if c = 0x0A then ⟨p.line + 1, 1, Nat.le_add_left 1 p.line, Nat.le_refl 1⟩
  else ⟨p.line, p.column + 1, p.one_le_line, Nat.le_add_left 1 p.column⟩

end Position
end Descent
