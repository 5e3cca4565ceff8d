import Descent.Diagnostic.Catalog

/-!
# Validators

A validator accepts or rejects a value that has been decoded already. Rejections are results and not errors, so
validators combine freely; a rejection inside a list, a record or a row of checks says where it happened. Checking can
only go wrong where a rejection would have to display an integer with too many digits.
-/
namespace Descent

/-- Why a value is rejected. -/
structure Rejection where
  message : Text
  diagnostic : Option Diagnostic
deriving DecidableEq, Repr

def Rejection.ofDiagnostic (d : Diagnostic) : Rejection := ⟨d.message, some d⟩

/-- What a validator says of a value. -/
inductive Verdict
  | accepted (v : Value)
  | rejected (r : Rejection)
deriving DecidableEq

/-- A check of values. -/
inductive Validator
  | string
  /-- Integers and binary64 numbers, but no truth values. -/
  | number
  | boolean
  | null
  | array (inner : Validator)
  /-- Dictionaries that have the given keys with accepted values; other keys are free. -/
  | record (schema : List (Text × Validator))
  /-- Lists and tuples with one item for each validator, accepted by it. -/
  | tupleOf (inners : List Validator)
  | oneOf (inners : List Validator)
  | allOf (inners : List Validator)
  /-- Values equal to the given one, where truth values are equal to no numbers. -/
  | literal (expected : Value)
  /-- Values that a validator accepts and a condition holds of, with a rejection for those it does not hold of. -/
  | satisfying (inner : Validator) (accept : Value → Bool) (rejection : Option Rejection)

namespace Validator

/-- A check, which may have to display a value that is too long. -/
abbrev Checked (α : Type) := Except Decimal.TooLong α

def reject (d : Checked Diagnostic) : Checked Verdict := d.map fun d => .rejected (.ofDiagnostic d)

/-- The verdict on a value in which something may have been found. -/
def verdict (v : Value) (found : Checked (Option Diagnostic)) : Checked Verdict :=
  found.map fun
    | some d => .rejected (.ofDiagnostic d)
    | none => .accepted v

/-- What is wrong with the first rejected item; the first item has the given index. -/
def firstInvalid (check : Value → Checked Verdict) : Nat → List Value → Checked (Option Diagnostic)
  | _, [] => .ok none
  | index, v :: rest =>
    match check v with
    | .error e => .error e
    | .ok (.rejected r) => .ok (some (.invalidItem index r.message))
    | .ok (.accepted _) => firstInvalid check (index + 1) rest

mutual
/-- Checks a value. An accepted value is the result, except that a literal gives its own. -/
def check : Validator → Value → Checked Verdict
  | .string, v =>
    match v with
    | .str _ => .ok (.accepted v)
    | v => reject (Diagnostic.typeMismatch (text "string") v)
  | .number, v =>
    match v with
    | .int _ => .ok (.accepted v)
    | .float _ => .ok (.accepted v)
    | v => reject (Diagnostic.typeMismatch (text "number") v)
  | .boolean, v =>
    match v with
    | .bool _ => .ok (.accepted v)
    | v => reject (Diagnostic.typeMismatch (text "boolean") v)
  | .null, v =>
    match v with
    | .none => .ok (.accepted v)
    | v => reject (Diagnostic.typeMismatch (text "null") v)
  | .array inner, v =>
    match v.items? with
    | some items => verdict v (firstInvalid (check inner) 0 items)
    | none => reject (Diagnostic.typeMismatch (text "array") v)
  | .record schema, v =>
    match v with
    | .dict entries => verdict v (checkFields schema entries)
    | v => reject (Diagnostic.typeMismatch (text "object") v)
  | .tupleOf inners, v =>
    match v.items? with
    | some items =>
      if items.length = inners.length then verdict v (checkItems inners 0 items)
      else reject (Diagnostic.lengthMismatch inners.length v)
    | none => reject (Diagnostic.typeMismatch (text "tuple") v)
  | .oneOf inners, v => checkAlternatives inners [] v
  | .allOf inners, v => verdict v (checkSteps inners 0 v)
  | .literal expected, v =>
    if v.eq expected && v.isBool == expected.isBool then .ok (.accepted expected)
    else reject (Diagnostic.notEqual expected v)
  | .satisfying inner accept rejection, v =>
    match check inner v with
    | .ok (.accepted w) =>
      if accept w then .ok (.accepted w)
      else match rejection with
        | some r => .ok (.rejected r)
        | none => reject (Diagnostic.predicateFailed w)
    | other => other

/-- What is wrong with the first key that is missing or has a rejected value, in the order of the schema. -/
def checkFields : List (Text × Validator) → List (Value × Value) → Checked (Option Diagnostic)
  | [], _ => .ok none
  | (key, inner) :: rest, entries =>
    match Value.lookup? entries (.str key) with
    | none => .ok (some (.missingKey key))
    | some v =>
      match check inner v with
      | .error e => .error e
      | .ok (.rejected r) => .ok (some (.invalidKey key r.message))
      | .ok (.accepted _) => checkFields rest entries

/-- What is wrong with the first rejected item, each having a validator of its own. -/
def checkItems : List Validator → Nat → List Value → Checked (Option Diagnostic)
  | inner :: inners, index, v :: rest =>
    match check inner v with
    | .error e => .error e
    | .ok (.rejected r) => .ok (some (.invalidItem index r.message))
    | .ok (.accepted _) => checkItems inners (index + 1) rest
  | _, _, _ => .ok none

/-- The verdict of the first validator that accepts. If none does, all reasons are given; the reasons so far come
latest first. -/
def checkAlternatives : List Validator → List Text → Value → Checked Verdict
  | [], reasons, _ => reject (.ok (.noAlternative reasons.reverse))
  | inner :: inners, reasons, v =>
    match check inner v with
    | .ok (.rejected r) => checkAlternatives inners (r.message :: reasons) v
    | other => other

/-- What the first validator that rejects has against the value. -/
def checkSteps : List Validator → Nat → Value → Checked (Option Diagnostic)
  | [], _, _ => .ok none
  | inner :: inners, step, v =>
    match check inner v with
    | .error e => .error e
    | .ok (.rejected r) => .ok (some (.stepFailed step r.message))
    | .ok (.accepted _) => checkSteps inners (step + 1) v
end

/-- The fields of a record as given one after another. A key that is given twice keeps its first place and its last
validator. -/
def fields (given : List (Text × Validator)) : List (Text × Validator) :=
  given.foldl (fun schema field => insertField field schema) []
where
  insertField (field : Text × Validator) : List (Text × Validator) → List (Text × Validator)
    | [] => [field]
    | f :: rest => if f.1 = field.1 then (f.1, field.2) :: rest else f :: insertField field rest

end Validator
end Descent
