import Descent.Diagnostic.Basic
import Descent.Text.Quoted

/-!
# Failures

A failure is the ordinary, unsuccessful result of a parser. Grammars may name kinds of failure of their own; two
failures are equal when their kinds and their diagnostics are.
-/
namespace Descent

/-- The kind of a failure. -/
inductive Failure.Kind
  | general
  /-- The parse was abandoned because rules nested too deeply. -/
  | tooDeep
  | named (name : Text)
deriving DecidableEq, Repr

/-- A kind with an optional description. -/
structure Failure where
  kind : Failure.Kind := .general
  diagnostic : Option Diagnostic := none
deriving DecidableEq, Repr

namespace Failure

def Kind.label : Kind → Text
  | .general => text "ParseFailure"
  | .tooDeep => text "NestingDepthExceeded"
  | .named name => name

def Kind.ofLabel (name : Text) : Kind :=
  if name = text "ParseFailure" then .general
  else if name = text "NestingDepthExceeded" then .tooDeep
  else .named name

def plain : Failure := ⟨.general, none⟩

/-- The message of the diagnostic, or the general one. -/
def message (f : Failure) : Text :=
  match f.diagnostic with
  | some d => d.message
  | none => (Diagnostic.parseFailed none).message

/-- The failure of a labelled parser that started at the given offset. -/
def expectedAt (s : Source) (description : Text) (start : Nat) : Failure :=
  ⟨.general, some (.expectedAt description (some (.point s start)))⟩

/-- The failure of a parse that was abandoned at the given offset. -/
def tooDeepAt (s : Source) (limit : Int) (offset : Nat) : Failure :=
  ⟨.tooDeep, some (.nestingDepthExceeded limit (some (.point s offset)))⟩

/-! ## Failures in a source -/

/-- The offset a failure refers to: the start of its span, or else where the parse stopped. Parses stop inside the
source or behind it; a cursor that is put elsewhere by hand may stand at any integer. -/
def offset {ι : Type} [NatCast ι] (f : Failure) (stopped : ι) : ι :=
  match f.diagnostic.bind Diagnostic.span with
  | some span => span.start
  | none => stopped

/-- The message with its position in front and what was expected behind. -/
def located (f : Failure) (s : Source) (stopped : Int) : Text :=
  let p := s.position (f.offset stopped)
  let expected := match f.diagnostic with
    | some d => d.expected
    | none => []
  let wanted := if expected.isEmpty then []
    else text " (expected: " ++ (text ", ").intercalate (expected.map fun e => text "'" ++ e ++ text "'") ++ text ")"
  Decimal.ofNat p.line ++ text ":" ++ Decimal.ofNat p.column ++ text ": " ++ f.message ++ wanted

def gutterWidth : Nat := 4

/-- A source line with its number in front, and below the line of the failure a caret under the failing column. -/
def excerptLine (p : Position) (number : Nat) (line : Text) : List Text :=
  let gutter := Text.padLeft gutterWidth (Decimal.ofNat number)
  let shown := gutter ++ text " | " ++ line
  if number = p.line then
    [shown, List.replicate gutter.length 0x20 ++ text " | " ++ List.replicate (p.column - 1) 0x20 ++ text "^"]
  else [shown]

/-- The located message and, after an empty line, the lines of the source around the failure: as many as `around`
before and after it, as far as there are. -/
def excerpt (f : Failure) (s : Source) (stopped : Int) (around : Int) : Text :=
  let p := s.position (f.offset stopped)
  let firstLine := (max 1 ((p.line : Int) - around)).toNat
  let lastLine : Int := (p.line : Int) + around
  let window := (s.lines.zipIdx 1).filter fun (_, number) => firstLine ≤ number && (number : Int) ≤ lastLine
  (text "\n").intercalate
    (f.located s stopped :: [] :: window.flatMap fun (line, number) => excerptLine p number line)

end Failure
end Descent
