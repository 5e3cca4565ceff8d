import Descent.Text.Basic

/-!
# Binary floating point of 64 bits

Numbers of the binary64 format of IEEE 754, with exact integer arithmetic underneath: a finite number is its sign, its
biased exponent and its fraction field, so every combination of fields is a number and equal numbers of one sign have
equal fields. Conversion from a quotient rounds to the nearest number, a tie going to the even significand.
-/
namespace Descent

-- Powers of numbers are those of the core library, whatever else is imported.
attribute [local instance (2000), default_instance 20000] instPowNat

/-- A binary64 number; there is a single NaN. -/
inductive Binary64
  | nan
  | infinity (negative : Bool)
  | finite (negative : Bool) (exponent : Fin 2047) (fraction : Fin (2 ^ 52))
deriving DecidableEq, Repr

namespace Binary64

def zero (negative : Bool) : Binary64 := .finite negative 0 0

/-- The integer significand of a finite number; numbers of exponent zero have no hidden bit. -/
def significand (exponent : Fin 2047) (fraction : Fin (2 ^ 52)) : Nat :=
  if exponent.val = 0 then fraction.val else 2 ^ 52 + fraction.val

/-- The power of two that the significand is scaled by. -/
def power (exponent : Fin 2047) : Int := (max exponent.val 1 : Nat) - 1075

/-! ## Rounding -/

/-- The integer nearest to a quotient, a tie going to the even one. -/
def roundQuotient (num den : Nat) : Nat :=
  let q := num / den
  let r := num % den
  if 2 * r < den then q
  else if den < 2 * r then q + 1
  else if q % 2 = 0 then q else q + 1

/-- The number `m * 2 ^ e`, where `m` is at most `2 ^ 53` and, below `2 ^ 52`, `e` is the least power. -/
def ofScaled (negative : Bool) (m : Nat) (e : Int) : Binary64 :=
  let (m, e) := if m = 2 ^ 53 then (2 ^ 52, e + 1) else (m, e)
  let biased := if m < 2 ^ 52 then 0 else (e + 1075).toNat
  if h : biased < 2047 then
    .finite negative ⟨biased, h⟩ ⟨m % 2 ^ 52, Nat.mod_lt _ (by decide)⟩
  else .infinity negative

/-- The exponent of the largest power of two that is at most the quotient of two positive numbers. -/
def floorLog2 (num den : Nat) : Int :=
  let guess : Int := (Nat.log2 num : Int) - Nat.log2 den
  let reached := if guess ≥ 0 then den * 2 ^ guess.toNat ≤ num else den ≤ num * 2 ^ (-guess).toNat
  if reached then guess else guess - 1

/-- The number nearest to the quotient `num / den`. -/
def ofQuotient (negative : Bool) (num den : Nat) : Binary64 :=
  if num = 0 then zero negative
  else
    let e := max (floorLog2 num den - 52) (-1074)
    let m := if e ≥ 0 then roundQuotient num (den * 2 ^ e.toNat) else roundQuotient (num * 2 ^ (-e).toNat) den
    ofScaled negative m e

def ofInt (n : Int) : Binary64 := ofQuotient (n < 0) n.natAbs 1

/-- The number nearest to `digits * 10 ^ exponent`. Scales at which every number overflows or vanishes are not
computed. -/
def ofDecimal (negative : Bool) (digits : Nat) (exponent : Int) : Binary64 :=
  if digits = 0 then zero negative
  else
    let magnitude := (Nat.toDigits 10 digits).length + exponent
    if magnitude > 310 then .infinity negative
    else if magnitude < -330 then zero negative
    else if exponent ≥ 0 then ofQuotient negative (digits * 10 ^ exponent.toNat) 1
    else ofQuotient negative digits (10 ^ (-exponent).toNat)

/-! ## Exact values and arithmetic -/

/-- The exact value of a finite number, as an integer over a power of two. -/
def toQuotient? : Binary64 → Option (Int × Nat)
  | .finite negative exponent fraction =>
    let m : Int := significand exponent fraction
    let m := if negative then -m else m
    let e := power exponent
    some (if e ≥ 0 then (m * 2 ^ e.toNat, 1) else (m, 2 ^ (-e).toNat))
  | _ => none

def truncated? (x : Binary64) : Option Int := x.toQuotient?.map fun (num, den) => num.tdiv den

def isZero : Binary64 → Bool
  | .finite _ exponent fraction => exponent.val = 0 && fraction.val = 0
  | _ => false

def isNegative : Binary64 → Bool
  | .nan => false
  | .infinity negative => negative
  | .finite negative _ _ => negative

def neg : Binary64 → Binary64
  | .nan => .nan
  | .infinity negative => .infinity (!negative)
  | .finite negative exponent fraction => .finite (!negative) exponent fraction

/-- The sum, rounded. A sum of zero is negative only if both terms are negative zeros. -/
def add (x y : Binary64) : Binary64 :=
  match x, y with
  | .nan, _ => .nan
  | _, .nan => .nan
  | .infinity a, .infinity b => if a = b then .infinity a else .nan
  | .infinity a, _ => .infinity a
  | _, .infinity b => .infinity b
  | x, y =>
    match x.toQuotient?, y.toQuotient? with
    | some (a, b), some (c, d) =>
      let num := a * d + c * b
      if num = 0 then zero (x.isNegative && y.isNegative && x.isZero && y.isZero)
      else ofQuotient (num < 0) num.natAbs (b * d)
    | _, _ => .nan

end Binary64
end Descent
