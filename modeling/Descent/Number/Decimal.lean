import Descent.Text.Basic

/-!
# Integers in decimal

Writing and reading integers in base ten. Conversion in either direction is refused for more than `digitLimit` digits,
which bounds its cost.
-/
namespace Descent.Decimal

/-- The most digits an integer may have when it is converted from or to text. -/
def digitLimit : Nat := 4300

/-- The decimal digits of a natural number, without leading zeros. -/
def ofNat (n : Nat) : Text := (Nat.toDigits 10 n).map Char.toNat

/-- An integer in decimal, with a minus sign in front of a negative one. -/
def ofInt : Int → Text
  | .ofNat n => ofNat n
  | .negSucc n => 0x2D :: ofNat (n + 1)

/-- The number that a run of decimal digits denotes. -/
def toNat (digits : Text) : Nat := digits.foldl (fun n c => 10 * n + (c - 0x30)) 0

/-- Digits in groups of three, counted from the right and parted by commas. -/
def grouped (n : Nat) : Text :=
  let digits := ofNat n
  let first := digits.length % 3
  (digits.take first ++ withCommas (digits.drop first)).dropWhile (· = 0x2C)
where
  /-- A comma in front of every third digit. -/
  withCommas : Text → Text
    | a :: b :: c :: rest => 0x2C :: a :: b :: c :: withCommas rest
    | rest => rest

/-- An integer has more digits than may be converted; `digits` counts them where the text was given. -/
structure TooLong where
  digits : Option Nat
deriving DecidableEq, Repr

/-- An integer in decimal, refused above the digit limit. -/
def write (n : Int) : Except TooLong Text :=
  let digits := ofInt n.natAbs
  if digits.length ≤ digitLimit then .ok (ofInt n) else .error ⟨none⟩

/-- The integer with the given sign and digits, refused above the digit limit. -/
def read (negative : Bool) (digits : Text) : Except TooLong Int :=
  if digits.length ≤ digitLimit then .ok (if negative then -toNat digits else toNat digits)
  else .error ⟨some digits.length⟩

/-- The integer that a text spells: an optional sign and at least one digit. -/
def spelled? (t : Text) : Option (Bool × Text) :=
  let (negative, digits) := match t with
    | 0x2D :: rest => (true, rest)
    | 0x2B :: rest => (false, rest)
    | rest => (false, rest)
  if !digits.isEmpty && digits.all CodePoint.isDigit then some (negative, digits) else none

end Descent.Decimal
