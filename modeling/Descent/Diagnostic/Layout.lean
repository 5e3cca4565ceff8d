import Descent.Diagnostic.Basic

/-!
# Layouts of diagnostics

A diagnostic is printed as a block of lines, as one line, or as a JSON object. The first two show control characters
by visible escapes, so that a message cannot break the line it stands on; the third escapes what JSON requires and
nothing else.
-/
namespace Descent.Diagnostic

/-- A way of printing diagnostics. -/
inductive Layout
  | block
  | line
  | object
deriving DecidableEq, Repr

namespace Layout

/-- Every layout, the default one first. -/
def all : List Layout := [.block, .line, .object]

def name : Layout → Text
  | .block => text "rust"
  | .line => text "simple"
  | .object => text "json"

def ofName? (t : Text) : Option Layout := all.find? fun layout => layout.name = t

end Layout

/-! ## Escapes -/

/-- A code point of the ASCII controls as a visible escape; every other one as it is. -/
def visiblePoint (c : CodePoint) : Text :=
  if c = 0x0A then text "\\n"
  else if c = 0x0D then text "\\r"
  else if c = 0x09 then text "\\t"
  else if c < 0x20 ∨ c = 0x7F then text "\\x" ++ Text.hexDigits 2 c
  else [c]

/-- A text whose ASCII controls are visible escapes. -/
def visible (t : Text) : Text := t.flatMap visiblePoint

def jsonPoint (c : CodePoint) : Text :=
  if c = 0x22 then text "\\\""
  else if c = 0x5C then text "\\\\"
  else if c = 0x0A then text "\\n"
  else if c = 0x0D then text "\\r"
  else if c = 0x09 then text "\\t"
  else if c = 0x08 then text "\\b"
  else if c = 0x0C then text "\\f"
  else if c < 0x20 then text "\\u" ++ Text.hexDigits 4 c
  else [c]

def jsonString (t : Text) : Text := 0x22 :: t.flatMap jsonPoint ++ [0x22]

/-! ## The three layouts -/

def joined (separator : String) (parts : List Text) : Text := (text separator).intercalate parts

/-- A hint that says something; an empty one is not printed. -/
def shownHint (d : Diagnostic) : Option Text := d.hint.filter fun hint => !hint.isEmpty

/-- A heading with the code, then a line each for the position, what was expected and the hint. -/
def block (d : Diagnostic) : Text :=
  let label := if d.severity = text "warning" then text "warning" else text "error"
  let heading := label ++ text "[" ++ d.code.name ++ text "]: " ++ visible d.message
  let place := d.span.map fun span =>
    text "  --> line " ++ Decimal.ofNat span.position.line ++ text ", column " ++ Decimal.ofNat span.position.column
  let wanted := if d.expected.isEmpty then none
    else some (text "  = expected: " ++ joined ", " (d.expected.map visible))
  let help := d.shownHint.map fun hint => text "  = help: " ++ visible hint
  joined "\n" (heading :: [place, wanted, help].filterMap id)

/-- Code, message and position on one line. -/
def line (d : Diagnostic) : Text :=
  d.code.name ++ text ": " ++ visible d.message ++
    match d.span with
    | none => []
    | some span =>
      text " (line " ++ Decimal.ofNat span.position.line ++ text ", column " ++
        Decimal.ofNat span.position.column ++ text ")"

/-- The members of the JSON object, in order, with their values already in JSON. -/
def members (d : Diagnostic) : List (Text × Text) :=
  [(text "code", jsonString d.code.name),
    (text "code_value", Decimal.ofNat d.code.number),
    (text "message", jsonString d.message),
    (text "severity", jsonString d.severity)] ++
  (match d.span with
    | none => []
    | some span => [
      (text "line", Decimal.ofNat span.position.line),
      (text "column", Decimal.ofNat span.position.column),
      (text "start", Decimal.ofNat span.start),
      (text "end", Decimal.ofNat span.stop)]) ++
  (if d.expected.isEmpty then []
    else [(text "expected", text "[" ++ joined ", " (d.expected.map jsonString) ++ text "]")]) ++
  (match d.shownHint with
    | none => []
    | some hint => [(text "hint", jsonString hint)])

def jsonObject (d : Diagnostic) : Text :=
  text "\x7b" ++ joined ", " (d.members.map fun (key, value) => jsonString key ++ text ": " ++ value) ++ text "\x7d"

def render (layout : Layout) (d : Diagnostic) : Text :=
  match layout with
  | .block => d.block
  | .line => d.line
  | .object => d.jsonObject

/-- Several diagnostics in a layout, with an empty line between them. -/
def renderAll (layout : Layout) (ds : List Diagnostic) : Text := joined "\n\n" (ds.map (render layout))

end Descent.Diagnostic
