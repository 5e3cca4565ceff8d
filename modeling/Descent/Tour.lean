import Descent.Json.Grammar
import Descent.Markup.Forest
import Descent.Markup.Grammar
import Descent.Parser.Template
import Descent.Validation.Validator
import Descent.Value.Transform

/-!
# A tour of the library

Six short examples, from combining primitives to rewriting markup, each with the text it prints and the records of its
parses. Both are computed by the library.
-/
namespace Descent.Tour

open Descent.Parser

/-- The rules of the examples. -/
inductive Rule
  | nested
deriving DecidableEq, Repr

/-- Balanced parentheses, counted: one more than what is inside. -/
def nested : Parser Rule :=
  (((char 0x28).right (otherwise (.rule .nested) (.int 0))).left (char 0x29)).mapM Transform.increment.apply

def grammar : Grammar Rule
  | .nested => .ok nested

def run (p : Parser Rule) (source : String) (limits : Limits) : Run Rule :=
  grammar.run p limits (.ofText (text source))

/-! ## Printing -/

/-- What an example prints, line by line, and the records of its parses. -/
structure Page where
  lines : List Text
  records : List Record := []

def Page.join (pages : List Page) : Page := ⟨pages.flatMap lines, pages.flatMap records⟩

/-- Lines, each ended by a line feed. -/
def printed (lines : List Text) : Text := lines.flatMap (· ++ [0x0A])

def ruler : Text := List.replicate 60 0x3D

def heading (title : String) : List Text := [ruler, text title, ruler]

def shown (v : Value) : Text :=
  match v.displayed with
  | .ok t => t
  | .error e => (Fault.tooLong e).message

/-- What a parse ends with, as it is displayed. -/
def shownEnding : Ending → Text
  | .success v => shown v
  | .failure f => f.displayed
  | .fault e => e.message

/-! ## Examples -/

def clock : Except Fault (Parser Rule) :=
  let twoDigits := (times digit 2).mapM fun ds => Transform.decimal.apply ds.joined
  template (text "\x7b\x7d:\x7b\x7d") [twoDigits, twoDigits]

def timeOfDay : Page :=
  let title := heading "Example 1: Combining Primitives"
  match clock with
  | .ok p =>
    let full := run p "09:45" {}
    let short := run p "9:45" {}
    { lines := title ++
        [text "clock.eval('09:45') = " ++ shownEnding full.ending,
          text "clock.eval('9:45')  = " ++ shownEnding short.ending,
          []]
      records := full.records ++ short.records }
  | .error e => { lines := title ++ [e.message, []] }

/-- A key and a value with a colon between them, whose absence is a failure of its own kind. -/
def keyValue : Parser Rule :=
  (right (.literal (text "key")) ((char 0x3A).error ⟨.named (text "MissingColon"), none⟩)).right
    (.literal (text "value"))

def customFailures : Page :=
  let r := run keyValue "key value" {}
  { lines := heading "Example 2: Custom Failures" ++
      (match r.ending with
        | .failure f => [text "Failure type: " ++ f.kind.label, f.excerpt r.source r.final.index 2]
        | _ => []) ++
      [[]]
    records := r.records }

/-- A recursive rule within its nesting limit and beyond. -/
def recursion : Page :=
  let within := run (.rule .nested) "((()))" {}
  let beyond := run (.rule .nested) (String.ofList (List.replicate 50 '(' ++ List.replicate 50 ')')) { depth := 10 }
  let exceeded := match beyond.ending with
    | .failure f => f.kind == .tooDeep
    | _ => false
  { lines := heading "Example 3: Recursive Rules" ++
      [text "Depth of '((()))': " ++ shownEnding within.ending,
        text "Exceeded max_depth=10: " ++ shown (.bool exceeded),
        []]
    records := within.records ++ beyond.records }

/-- Words with the offsets at which they start and end. -/
def words : Parser Rule :=
  many ((withRange ((many1 alpha).map .joined)).left ((char 0x20).optional .absent))

def shownWord : Value → Text
  | .tuple [word, .tuple [.int start, .int stop]] =>
    text "  " ++ shown word ++ text ": " ++ Decimal.ofInt start ++ text ".." ++ Decimal.ofInt stop
  | v => shown v

def ranges : Page :=
  let r := run words "parse these words" {}
  { lines := heading "Example 4: Source Ranges" ++
      (match r.ending with
        | .success v => v.items.map shownWord
        | _ => []) ++
      [[]]
    records := r.records }

def students : Validator :=
  .array (.record (Validator.fields [(text "name", .string), (text "age", .number)]))

def studentStatus (read : Except Shortfall Value) : Text :=
  match read with
  | .error (.fault e) => e.message
  | .error (.error e) => e.diagnostic.message
  | .ok v => match students.check v with
    | .ok (.accepted _) => text "valid"
    | .ok (.rejected r) => text "invalid: " ++ r.message
    | .error e => (Fault.tooLong e).message

def studentLine (source : String) : Page :=
  let reading := Json.read {} (.source (.ofText (text source)))
  { lines := [text "  " ++ text source ++ text " -> " ++ studentStatus reading.value]
    records := reading.records }

def json : Page := .join [
  { lines := heading "Example 5: JSON and Validation" },
  studentLine "[\x7b\"name\": \"Alice\", \"age\": 12\x7d]",
  studentLine "[\x7b\"name\": \"David\", \"age\": \"10\"\x7d]",
  { lines := [[]] }]

def shownNode (forest : Markup.Forest) (n : Markup.NodeId) : Text :=
  match forest.written n with
  | .ok t => t
  | .error e => e.message

/-- A markup fragment before and after its inline tags are unwrapped. -/
def markup : Page :=
  let reading := Markup.read {} (.source (.ofText (text "<p>Wo<b>r</b><i>ld</i> &amp; more</p>")))
  { lines := heading "Example 6: Markup" ++
      (match reading.value with
        | .ok v => (Markup.toNodes v.items).flatMap fun node =>
          let (n, forest) := Markup.Forest.empty.plant node
          [text "Parsed:    " ++ shownNode forest n, text "Flattened: " ++ shownNode (forest.flattenInline n) n]
        | .error _ => []) ++
      [[]]
    records := reading.records }

def whole : Page := .join [
  { lines := [[], text "crazyparser Quickstart", []] },
  timeOfDay, customFailures, recursion, ranges, json, markup,
  { lines := [ruler, text "All examples completed successfully!", ruler] }]

end Descent.Tour
