import Descent.Value.Displayed

/-!
# Transformations of values

Transformations that can be written down, for parsers that rework what others produce. A value that a transformation
is not made for is a fault.
-/
namespace Descent

/-- A transformation of a value. -/
inductive Transform
  /-- The texts of a list, one after another. -/
  | join
  /-- The integer that a literal of base ten spells, or a number without its fractional part. -/
  | decimal
  /-- The integer that a literal of base sixteen spells. -/
  | hexadecimal
  /-- The number of code points, items or entries. -/
  | length
  | increment
  | negate
  | sum
  | display
  /-- The first item, or the value of the key zero. -/
  | first
  /-- The second item, or the value of the key one. -/
  | second
  | list
  /-- What `first` gives in front of the items of what `second` gives. -/
  | prepend
  /-- The dictionary of a list of pairs. A dictionary is itself. -/
  | dict
deriving DecidableEq, Repr

namespace Transform

/-- The texts one after another, if all values are texts. -/
def joined? : List Value → Option Text
  | [] => some []
  | .str t :: rest => (joined? rest).map (t ++ ·)
  | _ :: _ => none

/-- The items of a value that has some; those of a text are its code points, those of a dictionary its keys. -/
def items? : Value → Option (List Value)
  | .str t => some (t.map fun c => .str [c])
  | .dict entries => some (entries.map Prod.fst)
  | v => v.items?

def total? : Numeral → List Value → Option Numeral
  | n, [] => some n
  | n, v :: rest => v.numeral?.bind fun m => total? (n.add m) rest

/-- A value, or the fault of an unsuited one. -/
def orUnsuited (v : Option Value) : Except Fault Value :=
  match v with
  | some v => .ok v
  | none => .error .unsuited

def ofNumber (v : Value) (f : Numeral → Numeral) : Except Fault Value :=
  orUnsuited (v.numeral?.map fun n => .ofNumeral (f n))

/-- The items of a value, or the fault of one that has none. -/
def items (v : Value) : Except Fault (List Value) :=
  match items? v with
  | some items => .ok items
  | none => .error .unsuited

def spelled (base : Base) (t : Text) : Except Fault Value :=
  match IntegerLiteral.read base t with
  | .ok n => .ok (.int n)
  | .error .malformed => .error (.notANumeral base t)
  | .error (.tooLong e) => .error (.tooLong e)

def truncated (x : Binary64) : Except Fault Value :=
  match x.truncated? with
  | some n => .ok (.int n)
  | none => .error (.notFinite x)

/-- The item at an index, or the value of the key that equals the index. -/
def itemAt (v : Value) (index : Nat) : Except Fault Value :=
  match v with
  | .dict entries => match Value.lookup? entries (.int index) with
    | some found => .ok found
    | none => .error (.noEntry index)
  | v => do
    match (← items v)[index]? with
    | some item => .ok item
    | none => .error (.beyondEnd (match v with
      | .str _ => text "string"
      | v => v.kindName))

/-- The entries that values stand for, each with two items; `index` counts the values before them. -/
def pairs (index : Nat) : List Value → Except Fault (List (Value × Value))
  | [] => .ok []
  | v :: rest => do
    match ← items v with
    | [key, value] => .ok ((key, value) :: (← pairs (index + 1) rest))
    | items => .error (.notAPair index items.length)

def apply (f : Transform) (v : Value) : Except Fault Value :=
  match f with
  | .join => orUnsuited ((items? v).bind joined? |>.map .str)
  | .decimal => match v with
    | .str t => spelled .ten t
    | .int n => .ok (.int n)
    | .bool b => .ok (.int (if b then 1 else 0))
    | .float x => truncated x
    | _ => .error .unsuited
  | .hexadecimal => match v with
    | .str t => spelled .sixteen t
    | _ => .error .unsuited
  | .length => (items v).map fun items => .int items.length
  | .increment => ofNumber v (·.add (.int 1))
  | .negate => ofNumber v .neg
  | .sum => orUnsuited ((items? v).bind (total? (.int 0)) |>.map .ofNumeral)
  | .display => match v.displayed with
    | .ok t => .ok (.str t)
    | .error e => .error (.tooLong e)
  | .first => itemAt v 0
  | .second => itemAt v 1
  | .list => (items v).map .list
  | .prepend => do
    let head ← itemAt v 0
    let tail ← itemAt v 1
    .ok (.list (head :: (← items tail)))
  | .dict => match v with
    | .dict entries => .ok (.dict entries)
    | v => do .ok (.ofPairs (← pairs 0 (← items v)))

end Transform
end Descent
