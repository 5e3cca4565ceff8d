import Descent.Number.Decimal
import Descent.Text.Blank
import Descent.Text.Digit

/-!
# Integer literals

Integers as people write them: white space around them, a sign in front, decimal digits of any script, and single
underscores that part the digits. In base sixteen the mark `0x` may stand before the digits. In base ten the number of
digits is limited, and too many of them are reported before what follows them is looked at.
-/
namespace Descent

/-- The base of an integer literal. -/
inductive Base
  | ten
  | sixteen
deriving DecidableEq, Repr

namespace Base

/-- The number of digits of a base. -/
def size : Base → Nat
  | .ten => 10
  | .sixteen => 16

def isDigit : Base → CodePoint → Bool
  | .ten => CodePoint.isDigit
  | .sixteen => CodePoint.isHexDigit

/-- The integer with the given sign and digits; only base ten limits their number. -/
def toInt (base : Base) (negative : Bool) (digits : Text) : Except Decimal.TooLong Int :=
  match base with
  | .ten => Decimal.read negative digits
  | .sixteen => .ok (if negative then -(Text.hexNumber digits : Int) else Text.hexNumber digits)

end Base

namespace IntegerLiteral

/-- Why a text is no integer literal. -/
inductive Defect
  | malformed
  | tooLong (error : Decimal.TooLong)
deriving DecidableEq, Repr

/-- The ASCII code point that a digit or a blank of another script stands for. -/
def folded (c : CodePoint) : CodePoint :=
  if c < 0x80 then c
  else if c.isBlank then 0x20
  else match c.digitValue? with
    | some d => 0x30 + d
    | none => c

/-- White space that may stand around a literal once it is folded. -/
def isSpace (c : CodePoint) : Bool := c == 0x20 || (0x09 ≤ c && c ≤ 0x0D)

/-- A sign, if there is one: whether it is a minus sign, and what follows. -/
def splitSign : Text → Bool × Text
  | 0x2D :: rest => (true, rest)
  | 0x2B :: rest => (false, rest)
  | rest => (false, rest)

/-- What follows the mark of base sixteen and an underscore behind it, if the mark is there. -/
def dropMark : Base → Text → Text
  | .sixteen, 0x30 :: 0x78 :: rest => dropUnderscore rest
  | .sixteen, 0x30 :: 0x58 :: rest => dropUnderscore rest
  | _, t => t
where
  /-- What follows an underscore, if there is one. -/
  dropUnderscore : Text → Text
    | 0x5F :: rest => rest
    | rest => rest

/-- Whether the underscores of a text stand one at a time and neither first nor last. -/
def isParted (t : Text) : Bool :=
  t.head? != some 0x5F && t.getLast? != some 0x5F && (t.zip t.tail).all fun pair => pair != (0x5F, 0x5F)

def read (base : Base) (t : Text) : Except Defect Int :=
  let (negative, body) := splitSign ((t.map folded).dropWhile isSpace)
  let body := dropMark base body
  let isPart (c : CodePoint) := base.isDigit c || c == 0x5F
  let run := body.takeWhile isPart
  let digits := run.filter base.isDigit
  if digits.isEmpty || !isParted run then .error .malformed
  else match base.toInt negative digits with
    | .error e => .error (.tooLong e)
    | .ok n => if (body.dropWhile isPart).all isSpace then .ok n else .error .malformed

end IntegerLiteral
end Descent
