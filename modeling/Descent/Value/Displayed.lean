import Descent.Value.Basic

/-!
# Displayed values

The displayed form of a value, as messages quote it. It exists unless the value holds an integer with too many digits.
-/
namespace Descent

def enclosed (opening : String) (items : List Text) (closing : String) : Text :=
  text opening ++ (text ", ").intercalate items ++ text closing

def displayedOption (field : Option Text) : Text := field.getD (text "None")

/-- Items of a tuple as they are displayed; a single one is followed by a comma. -/
def displayedTuple (items : List Text) : Text :=
  match items with
  | [item] => text "(" ++ item ++ text ",)"
  | items => enclosed "(" items ")"

def Span.displayed (span : Span) : Text :=
  enclosed "SourceSpan(" [
    text "start=" ++ Decimal.ofNat span.start, text "end=" ++ Decimal.ofNat span.stop,
    text "line=" ++ Decimal.ofNat span.position.line, text "column=" ++ Decimal.ofNat span.position.column] ")"

def Diagnostic.displayed (d : Diagnostic) : Text :=
  enclosed "Diagnostic(" [
    text "code=<DiagnosticCode." ++ d.code.name ++ text ": " ++ Decimal.ofNat d.code.number ++ text ">",
    text "message=" ++ d.message.quoted,
    text "span=" ++ displayedOption (d.span.map Span.displayed),
    text "hint=" ++ displayedOption (d.hint.map Text.quoted),
    text "expected=" ++ displayedTuple (d.expected.map Text.quoted),
    text "severity=" ++ d.severity.quoted] ")"

def Failure.displayed (f : Failure) : Text :=
  f.kind.label ++ text "(diagnostic=" ++ displayedOption (f.diagnostic.map Diagnostic.displayed) ++ text ")"

namespace Value

mutual
def displayed : Value → Except Decimal.TooLong Text
  | .none => .ok (text "None")
  | .bool b => .ok (if b then text "True" else text "False")
  | .int n => Decimal.write n
  | .float x => .ok x.write
  | .str t => .ok t.quoted
  | .list items => (displayedAll items).map fun shown => enclosed "[" shown "]"
  | .tuple items => (displayedAll items).map displayedTuple
  | .dict entries => (displayedEntries entries).map fun shown => enclosed "\x7b" shown "\x7d"
  | .absent => .ok (text "NOTHING")
  | .failure f => .ok f.displayed
  | .attribute a => .ok a.displayed
  | .node n => .ok n.displayed

/-- Values as they are displayed, each on its own. -/
def displayedAll : List Value → Except Decimal.TooLong (List Text)
  | [] => .ok []
  | item :: rest =>
    match displayed item, displayedAll rest with
    | .ok shown, .ok more => .ok (shown :: more)
    | .error e, _ => .error e
    | _, .error e => .error e

/-- Entries as they are displayed, each on its own. -/
def displayedEntries : List (Value × Value) → Except Decimal.TooLong (List Text)
  | [] => .ok []
  | (key, value) :: rest =>
    match displayed key, displayed value, displayedEntries rest with
    | .ok k, .ok v, .ok more => .ok ((k ++ text ": " ++ v) :: more)
    | .error e, _, _ => .error e
    | _, .error e, _ => .error e
    | _, _, .error e => .error e
end

/-- A value as plain text: a text is itself, an absent value is named with its kind, and every other value has its
displayed form. -/
def plain : Value → Except Decimal.TooLong Text
  | .str t => .ok t
  | .absent => .ok (text "Absent.NOTHING")
  | v => v.displayed

end Value
end Descent
