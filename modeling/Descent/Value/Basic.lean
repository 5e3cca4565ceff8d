import Descent.Failure
import Descent.Fault
import Descent.Markup.Node
import Descent.Number.Numeral
import Descent.Number.Shortest

/-!
# Values

What parsers produce and validators check. A failure can travel as a value, and wherever a parser's result is inspected
it then counts as a failure. Equality compares numbers by their exact values, truth values being one and zero.
-/
namespace Descent

/-- A value of a parse. -/
inductive Value
  | none
  | bool (b : Bool)
  | int (n : Int)
  | float (x : Binary64)
  | str (t : Text)
  | list (items : List Value)
  | tuple (items : List Value)
  /-- Keys with their values in order of insertion; no two keys are equal. -/
  | dict (entries : List (Value × Value))
  /-- What an optional parser stands for that matched nothing. -/
  | absent
  | failure (f : Failure)
  | attribute (a : Markup.Attribute)
  | node (n : Markup.Node)
deriving Repr

namespace Value

/-- The value as a number; truth values are one and zero. -/
def numeral? : Value → Option Numeral
  | .bool b => some (.int (if b then 1 else 0))
  | .int n => some (.int n)
  | .float x => some (.float x)
  | _ => Option.none

def ofNumeral : Numeral → Value
  | .int n => .int n
  | .float x => .float x

def isBool : Value → Bool
  | .bool _ => true
  | _ => false

/-! ## Identity -/

mutual
/-- Whether two values are the same, as a computation. -/
def same : Value → Value → Bool
  | .none, .none => true
  | .bool a, .bool b => a == b
  | .int a, .int b => a == b
  | .float a, .float b => a == b
  | .str a, .str b => a == b
  | .list a, .list b => sameAll a b
  | .tuple a, .tuple b => sameAll a b
  | .dict a, .dict b => sameEntries a b
  | .absent, .absent => true
  | .failure a, .failure b => a == b
  | .attribute a, .attribute b => a == b
  | .node a, .node b => a == b
  | _, _ => false

/-- Whether two lists of values are the same, as a computation. -/
def sameAll : List Value → List Value → Bool
  | [], [] => true
  | a :: as, b :: bs => same a b && sameAll as bs
  | _, _ => false

/-- Whether two lists of entries are the same, as a computation. -/
def sameEntries : List (Value × Value) → List (Value × Value) → Bool
  | [], [] => true
  | (k, v) :: as, b :: bs => same k b.1 && same v b.2 && sameEntries as bs
  | _, _ => false
end

mutual
/-- The computation decides identity. -/
theorem same_iff : ∀ a b : Value, a.same b = true ↔ a = b
  | .none, b => by cases b <;> simp [same]
  | .bool _, b => by cases b <;> simp [same]
  | .int _, b => by cases b <;> simp [same]
  | .float _, b => by cases b <;> simp [same]
  | .str _, b => by cases b <;> simp [same]
  | .list as, b => by cases b <;> simp [same, sameAll_iff as]
  | .tuple as, b => by cases b <;> simp [same, sameAll_iff as]
  | .dict as, b => by cases b <;> simp [same, sameEntries_iff as]
  | .absent, b => by cases b <;> simp [same]
  | .failure _, b => by cases b <;> simp [same]
  | .attribute _, b => by cases b <;> simp [same]
  | .node _, b => by cases b <;> simp [same]

/-- The computation decides identity of lists. -/
theorem sameAll_iff : ∀ as bs : List Value, sameAll as bs = true ↔ as = bs
  | [], bs => by cases bs <;> simp [sameAll]
  | a :: as, bs => by cases bs <;> simp [sameAll, same_iff a, sameAll_iff as]

/-- The computation decides identity of entries. -/
theorem sameEntries_iff : ∀ as bs : List (Value × Value), sameEntries as bs = true ↔ as = bs
  | [], bs => by cases bs <;> simp [sameEntries]
  | (k, v) :: as, bs => by
    cases bs <;> simp [sameEntries, same_iff k, same_iff v, sameEntries_iff as, Prod.ext_iff]
end
instance : DecidableEq Value := fun a b => decidable_of_iff _ (same_iff a b)

/-! ## Equality -/

mutual
/-- Equality: numbers by their exact values, lists and tuples item by item, dictionaries whatever their order. -/
def eq : Value → Value → Bool
  | .none, .none => true
  | .str a, .str b => a == b
  | .list a, .list b => eqAll a b
  | .tuple a, .tuple b => eqAll a b
  | .dict a, .dict b => a.length == b.length && eqEntries a b
  | .absent, .absent => true
  | .failure a, .failure b => a == b
  | .attribute a, .attribute b => a == b
  | .bool a, b => eqNumeral (.int (if a then 1 else 0)) b
  | .int a, b => eqNumeral (.int a) b
  | .float a, b => eqNumeral (.float a) b
  | _, _ => false

def eqNumeral (a : Numeral) (b : Value) : Bool :=
  match b.numeral? with
  | some b => a.eq b
  | Option.none => false

def eqAll : List Value → List Value → Bool
  | [], [] => true
  | a :: as, b :: bs => eq a b && eqAll as bs
  | _, _ => false

/-- Every entry has an equal one among the others. -/
def eqEntries : List (Value × Value) → List (Value × Value) → Bool
  | [], _ => true
  | (key, value) :: rest, others =>
    others.any (fun other => eq key other.1 && eq value other.2) && eqEntries rest others
end

/-! ## Dictionaries -/

/-- The value of the first key that is equal to the given one. -/
def lookup? (entries : List (Value × Value)) (key : Value) : Option Value :=
  (entries.find? fun entry => entry.1.eq key).map Prod.snd

/-- The entries with one more. A key that is there already keeps its place and takes the new value. -/
def insertEntry (key value : Value) : List (Value × Value) → List (Value × Value)
  | [] => [(key, value)]
  | (k, v) :: rest => if k.eq key then (k, value) :: rest else (k, v) :: insertEntry key value rest

def ofPairs (pairs : List (Value × Value)) : Value :=
  .dict (pairs.foldl (fun entries (key, value) => insertEntry key value entries) [])

/-! ## Kinds -/

def kindName : Value → Text
  | .none => text "NoneType"
  | .bool _ => text "bool"
  | .int _ => text "int"
  | .float _ => text "float"
  | .str _ => text "str"
  | .list _ => text "list"
  | .tuple _ => text "tuple"
  | .dict _ => text "dict"
  | .absent => text "Absent"
  | .failure f => f.kind.label
  | .attribute _ => text "Attribute"
  | .node (.text _) => text "TextNode"
  | .node (.void _ _) => text "VoidTag"
  | .node (.tag _ _ _) => text "Tag"

/-! ## Parts -/

def items? : Value → Option (List Value)
  | .list items => some items
  | .tuple items => some items
  | _ => Option.none

/-- The items of a list or tuple, and none for any other value. -/
def items (v : Value) : List Value := v.items?.getD []

/-- The text of a value that is one, and the empty text for any other value. -/
def asText : Value → Text
  | .str t => t
  | _ => []

/-- The texts among the items of a value, one after another. -/
def joinedText (v : Value) : Text := v.items.flatMap asText

/-- The text `joinedText` as a value. -/
def joined (v : Value) : Value := .str v.joinedText

/-- The first of a pair in front of the list that is its second. -/
def consPair : Value → Value
  | .tuple [head, tail] => .list (head :: tail.items)
  | v => v

def asEntry : Value → Value × Value
  | .tuple [key, value] => (key, value)
  | v => (v, .none)

/-- The value, or the given one where nothing matched. -/
def orElse (v fallback : Value) : Value :=
  match v with
  | .absent => fallback
  | v => v

end Value
end Descent
