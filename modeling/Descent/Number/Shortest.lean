import Descent.Number.Binary64
import Descent.Number.Decimal

/-!
# Shortest decimals

A binary64 number is written with the fewest decimal digits that read back as the same number, and with the nearest
such decimal where there are several. The reals that round to a number form an interval, which holds its ends if and
only if the significand is even; for one digit after the other the two neighbours of the number on the decimal grid are
tested against the interval.
-/
namespace Descent.Binary64

attribute [local instance (2000)] instPowNat

/-- A positive decimal `digits * 10 ^ exponent`. -/
structure Digits where
  digits : Nat
  exponent : Int
deriving DecidableEq, Repr

/-- The reals that round to a number, as quotients over one denominator, with the number itself. -/
structure Interval where
  low : Nat
  value : Nat
  high : Nat
  den : Nat
  closed : Bool

/-- The rounding interval of a positive finite number. Below a power of two the next number is half as far. -/
def Interval.of (exponent : Fin 2047) (fraction : Fin (2 ^ 52)) : Interval :=
  let m := significand exponent fraction
  let below := if fraction.val = 0 ∧ exponent.val > 1 then 1 else 2
  let e := power exponent - 2
  let scale := if e ≥ 0 then 2 ^ e.toNat else 1
  let den := if e ≥ 0 then 1 else 2 ^ (-e).toNat
  ⟨(4 * m - below) * scale, 4 * m * scale, (4 * m + 2) * scale, den, m % 2 = 0⟩

namespace Interval

/-- The exponent of the largest power of ten that is at most the value. -/
def floorLog10 (v : Interval) : Int :=
  if v.den ≤ v.value then ((Decimal.ofNat (v.value / v.den)).length : Int) - 1
  else -((Decimal.ofNat ((v.den - 1) / v.value)).length : Int)

/-- Whether a decimal rounds to the value. -/
def contains (v : Interval) (d : Digits) : Bool :=
  let up := if d.exponent ≥ 0 then 10 ^ d.exponent.toNat else 1
  let down := if d.exponent ≥ 0 then 1 else 10 ^ (-d.exponent).toNat
  let point := d.digits * up * v.den
  if v.closed then v.low * down ≤ point && point ≤ v.high * down
  else v.low * down < point && point < v.high * down

/-- The decimal on the grid of the given exponent that is nearest to the value among those that round to it. -/
def onGrid? (v : Interval) (exponent : Int) : Option Digits :=
  let num := if exponent ≥ 0 then v.value else v.value * 10 ^ (-exponent).toNat
  let den := if exponent ≥ 0 then v.den * 10 ^ exponent.toNat else v.den
  let below : Digits := ⟨num / den, exponent⟩
  let above : Digits := ⟨num / den + 1, exponent⟩
  let r := num % den
  let preferBelow := 2 * r < den || (2 * r == den && below.digits % 2 == 0)
  match v.contains below, v.contains above with
  | true, true => some (if preferBelow then below else above)
  | true, false => some below
  | false, true => some above
  | false, false => none

/-- The first hit on the grids of `count`, `count + 1`, … digits, for at most `tries` of them. -/
def search (v : Interval) : Nat → Nat → Digits
  | 0, _ => ⟨0, 0⟩
  | tries + 1, count =>
    match v.onGrid? (v.floorLog10 - count + 1) with
    | some d => d
    | none => v.search tries (count + 1)

end Interval

/-- The shortest decimal of a positive finite number. Seventeen digits always suffice. -/
def shortest (exponent : Fin 2047) (fraction : Fin (2 ^ 52)) : Digits :=
  (Interval.of exponent fraction).search 17 1

/-! ## Layout -/

/-- How a decimal is laid out. -/
structure Layout where
  /-- The least decimal exponent that is written positionally. -/
  positionalFrom : Int
  /-- The first decimal exponent above the positional ones. -/
  positionalBelow : Int
  /-- The least number of digits of a written exponent. -/
  exponentWidth : Nat

/-- Positional from ten-thousandths up to and without ten to the sixteenth; exponents have at least two digits. -/
def layout : Layout := ⟨-4, 16, 2⟩

/-- Zeros, then the text. -/
def padZeros (width : Nat) (t : Text) : Text := List.replicate (width - t.length) 0x30 ++ t

/-- Lays out a decimal whose digits do not end in a zero. An integral number keeps one zero after the point. -/
def Layout.write (style : Layout) (digits : Text) (exponent : Int) : Text :=
  let point := digits.length + exponent
  if style.positionalFrom ≤ point - 1 ∧ point - 1 < style.positionalBelow then
    if point ≤ 0 then text "0." ++ List.replicate (-point).toNat 0x30 ++ digits
    else if digits.length ≤ point then digits ++ List.replicate exponent.toNat 0x30 ++ text ".0"
    else digits.take point.toNat ++ 0x2E :: digits.drop point.toNat
  else
    let mantissa := match digits with
      | [] => []
      | [d] => [d]
      | d :: more => d :: 0x2E :: more
    let sign : CodePoint := if point - 1 < 0 then 0x2D else 0x2B
    mantissa ++ 0x65 :: sign :: padZeros style.exponentWidth (Decimal.ofNat (point - 1).natAbs)

/-- The decimal with its trailing zeros moved into the exponent. -/
def Digits.trimmed (d : Digits) : Text × Int :=
  let digits := Decimal.ofNat d.digits
  let kept := (digits.reverse.dropWhile (· = 0x30)).reverse
  (kept, d.exponent + ((digits.length - kept.length : Nat) : Int))

/-- A number as text: the shortest decimal that reads back, `inf` or `nan`. -/
def write (x : Binary64) : Text :=
  let sign (negative : Bool) : Text := if negative then [0x2D] else []
  match x with
  | .nan => text "nan"
  | .infinity negative => sign negative ++ text "inf"
  | .finite negative exponent fraction =>
    if significand exponent fraction = 0 then sign negative ++ text "0.0"
    else
      let (digits, power) := (shortest exponent fraction).trimmed
      sign negative ++ layout.write digits power

/-! ## Reading -/

/-- The number that a text spells: an optional sign, then `inf`, `nan` or a decimal with an optional fraction and an
optional exponent. -/
def spelled? (t : Text) : Option Binary64 :=
  let (negative, body) := match t with
    | 0x2D :: rest => (true, rest)
    | 0x2B :: rest => (false, rest)
    | rest => (false, rest)
  if body = text "inf" then some (.infinity negative)
  else if body = text "nan" then some .nan
  else
    let integral := body.takeWhile CodePoint.isDigit
    let rest := body.dropWhile CodePoint.isDigit
    let (fraction, rest) := match rest with
      | 0x2E :: more => (more.takeWhile CodePoint.isDigit, more.dropWhile CodePoint.isDigit)
      | _ => ([], rest)
    let exponent? : Option Int := match rest with
      | [] => some 0
      | mark :: more =>
        if mark = 0x65 ∨ mark = 0x45 then
          (Decimal.spelled? more).map fun (negative, digits) =>
            if negative then -(Decimal.toNat digits : Int) else Decimal.toNat digits
        else none
    if integral.isEmpty && fraction.isEmpty then none
    else exponent?.map fun exponent =>
      ofDecimal negative (Decimal.toNat (integral ++ fraction)) (exponent - fraction.length)

end Descent.Binary64
