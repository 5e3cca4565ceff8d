import Descent.Parser.Basic

/-!
# Templates

A template is literal text with slots for parsers. A slot is written `{}`, and a brace of the literal text is written
twice. The scanner reads the wider language of replacement fields, with names, conversions and format specifications,
so that it can say what is wrong with a field that is no bare slot.
-/
namespace Descent.Template

/-- A replacement field. -/
structure Field where
  name : Text
  conversion : Option CodePoint
  specification : Text
deriving DecidableEq, Repr

/-- A field without name, conversion or specification. The code point zero is no conversion. -/
def Field.isBare (f : Field) : Bool :=
  f.name.isEmpty && f.specification.isEmpty && (f.conversion == none || f.conversion == some 0)

/-- A part of a template. -/
inductive Piece
  | point (c : CodePoint)
  | field (f : Field)
deriving DecidableEq, Repr

/-- Where the scanner stands; texts begun are held in reverse. -/
inductive Mode
  | literal
  | opened
  | closed
  | name (read : Text)
  | bracket (read : Text)
  | conversion (name : Text)
  | converted (name : Text) (conversion : CodePoint)
  /-- Inside a specification, with the number of braces open. -/
  | specification (name : Text) (conversion : Option CodePoint) (read : Text) (depth : Nat)
deriving DecidableEq, Repr

/-- Why a template cannot be read. -/
inductive Defect
  | singleClosing
  | singleOpening
  | braceInName
  | unclosedField
  | unmatchedBrace
  | missingConversion
  | colonExpected
  | notBare (name : Text)
  | count (slots parsers : Nat)
deriving DecidableEq, Repr

def Defect.reason : Defect → Text
  | .singleClosing => text "Single '\x7d' encountered in format string"
  | .singleOpening => text "Single '\x7b' encountered in format string"
  | .braceInName => text "unexpected '\x7b' in field name"
  | .unclosedField => text "expected '\x7d' before end of string"
  | .unmatchedBrace => text "unmatched '\x7b' in format spec"
  | .missingConversion => text "end of string while looking for conversion specifier"
  | .colonExpected => text "expected ':' after conversion specifier"
  | .notBare name => text "only bare '\x7b\x7d' fields are supported, got field " ++ name.quoted
  | .count slots parsers =>
    Decimal.ofNat slots ++ text " field(s) but " ++ Decimal.ofNat parsers ++ text " parser(s)"

/-! ## Scanning -/

def readName (read : Text) (c : CodePoint) : Except Defect (Option Piece × Mode) :=
  if c = 0x7B then .error .braceInName
  else if c = 0x5B then .ok (none, .bracket (c :: read))
  else if c = 0x7D then .ok (some (.field ⟨read.reverse, none, []⟩), .literal)
  else if c = 0x3A then .ok (none, .specification read.reverse none [] 0)
  else if c = 0x21 then .ok (none, .conversion read.reverse)
  else .ok (none, .name (c :: read))

/-- Reads a code point: what it completes, and where the scanner stands behind it. -/
def Mode.read : Mode → CodePoint → Except Defect (Option Piece × Mode)
  | .literal, c =>
    if c = 0x7B then .ok (none, .opened)
    else if c = 0x7D then .ok (none, .closed)
    else .ok (some (.point c), .literal)
  | .opened, c => if c = 0x7B then .ok (some (.point c), .literal) else readName [] c
  | .closed, c => if c = 0x7D then .ok (some (.point c), .literal) else .error .singleClosing
  | .name read, c => readName read c
  | .bracket read, c => .ok (none, if c = 0x5D then .name (c :: read) else .bracket (c :: read))
  | .conversion field, c => .ok (none, .converted field c)
  | .converted field letter, c =>
    if c = 0x7D then .ok (some (.field ⟨field, some letter, []⟩), .literal)
    else if c = 0x3A then .ok (none, .specification field (some letter) [] 0)
    else .error .colonExpected
  | .specification field letter spec depth, c =>
    if c = 0x7B then .ok (none, .specification field letter (c :: spec) (depth + 1))
    else if c = 0x7D then
      match depth with
      | 0 => .ok (some (.field ⟨field, letter, spec.reverse⟩), .literal)
      | depth + 1 => .ok (none, .specification field letter (c :: spec) depth)
    else .ok (none, .specification field letter (c :: spec) depth)

def Mode.finish : Mode → Except Defect Unit
  | .literal => .ok ()
  | .opened => .error .singleOpening
  | .closed => .error .singleClosing
  | .name _ => .error .unclosedField
  | .bracket _ => .error .unclosedField
  | .conversion _ => .error .missingConversion
  | .converted _ _ => .error .unmatchedBrace
  | .specification _ _ _ _ => .error .unmatchedBrace

def scanFrom : Mode → Text → Except Defect (List Piece)
  | mode, [] => mode.finish.map fun _ => []
  | mode, c :: rest =>
    match mode.read c with
    | .error e => .error e
    | .ok (piece, mode) => (scanFrom mode rest).map (piece.toList ++ ·)

def scan (t : Text) : Except Defect (List Piece) := scanFrom .literal t

/-! ## Slots -/

/-- The literal texts of a template: one in front of each slot, and the one behind the last slot. -/
structure Literals where
  leading : List Text
  trailing : Text
deriving DecidableEq, Repr

/-- The literal texts between bare slots, or the first field that is none. -/
def literals : List Piece → Except Defect Literals
  | [] => .ok ⟨[], []⟩
  | .point c :: rest =>
    (literals rest).map fun l => match l.leading with
      | [] => { l with trailing := c :: l.trailing }
      | first :: more => { l with leading := (c :: first) :: more }
  | .field f :: rest =>
    if f.isBare then (literals rest).map fun l => { l with leading := [] :: l.leading }
    else .error (.notBare f.name)

/-- The literal texts of a template with the given number of slots. -/
def read (t : Text) (parsers : Nat) : Except Defect Literals :=
  match scan t with
  | .error e => .error e
  | .ok pieces =>
    match literals pieces with
    | .error e => .error e
    | .ok l => if l.leading.length = parsers then .ok l else .error (.count l.leading.length parsers)

end Descent.Template

namespace Descent.Parser

/-- The literal texts of a template with parsers between them; the values of the parsers in a list. The text behind
the last parser stands outside the part that moves the cursor back. -/
def template {ρ : Type} (t : Text) (ps : List (Parser ρ)) : Except Fault (Parser ρ) :=
  match Template.read t ps.length with
  | .error e => .error (.grammar (.invalidTemplate e.reason))
  | .ok l => .ok ((sequence (List.zipWith (fun before p => right (.literal before) p) l.leading ps)).left
      (.literal l.trailing))

end Descent.Parser
