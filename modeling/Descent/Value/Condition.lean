import Descent.Text.Blank
import Descent.Value.Basic

/-!
# Conditions on values

Conditions that can be written down, for parsers and validators that refine what others accept. A condition on texts,
numbers or lengths does not hold of a value that is or has none.
-/
namespace Descent

/-- A condition on a value. -/
inductive Condition
  /-- Holds of every value or of none. -/
  | always (holds : Bool)
  /-- White space only, and not empty. -/
  | blank
  | within (t : Text)
  /-- Anything but a single code point of the given text. -/
  | notWithin (t : Text)
  /-- A text from one text up to another, both included, in the order of code points. -/
  | between (low high : Text)
  | equals (v : Value)
  | differs (v : Value)
  | lessThan (n : Numeral)
  | atMost (n : Numeral)
  | greaterThan (n : Numeral)
  | atLeast (n : Numeral)
  | hasLength (n : Int)
  | lengthAtLeast (n : Int)
  | not (c : Condition)
  | all (cs : List Condition)

/-- The number of code points, items or entries. -/
def Value.length? : Value → Option Nat
  | .str t => some t.length
  | .list items => some items.length
  | .tuple items => some items.length
  | .dict entries => some entries.length
  | _ => Option.none

namespace Condition

def compares (v : Value) (n : Numeral) (accept : Ordering → Bool) : Bool :=
  match v.numeral? with
  | some m => match m.compare? n with
    | some o => accept o
    | none => false
  | none => false

def ofText (v : Value) (accept : Text → Bool) : Bool :=
  match v with
  | .str t => accept t
  | _ => false

def isPointOf (v : Value) (t : Text) : Bool :=
  match v with
  | .str [c] => t.contains c
  | _ => false

mutual
def holds : Condition → Value → Bool
  | .always b, _ => b
  | .blank, v => ofText v fun t => !t.isEmpty && t.all CodePoint.isBlank
  | .within t, v => isPointOf v t
  | .notWithin t, v => !isPointOf v t
  | .between low high, v => ofText v fun t => low ≤ t && t ≤ high
  | .equals w, v => v.eq w
  | .differs w, v => !v.eq w
  | .lessThan n, v => compares v n (·.isLT)
  | .atMost n, v => compares v n (·.isLE)
  | .greaterThan n, v => compares v n (·.isGT)
  | .atLeast n, v => compares v n (·.isGE)
  | .hasLength n, v => v.length?.any fun k => (k : Int) == n
  | .lengthAtLeast n, v => v.length?.any fun k => n ≤ (k : Int)
  | .not c, v => !holds c v
  | .all cs, v => holdsAll cs v

def holdsAll : List Condition → Value → Bool
  | [], _ => true
  | c :: cs, v => holds c v && holdsAll cs v
end

end Condition
end Descent
