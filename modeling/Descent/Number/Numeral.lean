import Descent.Number.Binary64

/-!
# Numerals

Integers and binary64 numbers side by side, compared by their exact values. NaN is not comparable, not even to itself,
and the two zeros are equal.
-/
namespace Descent

/-- An exact integer or a binary64 number. -/
inductive Numeral
  | int (n : Int)
  | float (x : Binary64)

namespace Numeral

/-- Where a numeral lies among the reals with both infinities: first a rank, then a quotient. -/
def place? : Numeral → Option (Int × Int × Nat)
  | .int n => some (0, n, 1)
  | .float (.infinity negative) => some (if negative then -1 else 1, 0, 1)
  | .float x => x.toQuotient?.map fun (num, den) => (0, num, den)

/-- The order of two numerals, unless one is NaN. -/
def compare? (a b : Numeral) : Option Ordering :=
  match a.place?, b.place? with
  | some (r, num, den), some (r', num', den') => some ((compare r r').then (compare (num * den') (num' * den)))
  | _, _ => none

def eq (a b : Numeral) : Bool := a.compare? b == some .eq

/-- The sum, exact for integers and rounded otherwise. -/
def add : Numeral → Numeral → Numeral
  | .int a, .int b => .int (a + b)
  | .int a, .float y => .float ((Binary64.ofInt a).add y)
  | .float x, .int b => .float (x.add (Binary64.ofInt b))
  | .float x, .float y => .float (x.add y)

def neg : Numeral → Numeral
  | .int a => .int (-a)
  | .float x => .float x.neg

end Numeral
end Descent
