import Descent.Diagnostic.Catalog
import Descent.Parser.Basic

/-!
# Combinators with checked arguments

The combinators whose arguments come as values. An argument that makes no sense is a fault in the grammar, reported
when the parser is put together.
-/
namespace Descent

/-- The fault of a diagnostic that may be too long to display. -/
def Fault.ofDiagnostic : Except Decimal.TooLong Diagnostic → Fault
  | .ok d => .grammar d
  | .error e => .tooLong e

def Failure.ofValue : Value → Except Fault Failure
  | .failure f => .ok f
  | v => .error (.grammar (.invalidFailureValue v))

namespace Parser

variable {ρ : Type}

def charOfValue : Value → Except Fault (Parser ρ)
  | .str [c] => .ok (char c)
  | v => .error (.ofDiagnostic (Diagnostic.invalidCharLiteral v))

/-- Any one of the code points that some values spell. -/
def anyCharOfValues (vs : List Value) : Except Fault (Parser ρ) := (vs.mapM charOfValue).map choice

def timesValue (p : Parser ρ) (count : Value) : Except Fault (Parser ρ) :=
  match count with
  | .int n => if 1 ≤ n then .ok (p.times n.toNat) else .error (.ofDiagnostic (Diagnostic.invalidRepetition count))
  | _ => .error (.ofDiagnostic (Diagnostic.invalidRepetition count))

/-- A failure given as a value in place of the parser's. -/
def errorValue (p : Parser ρ) (failure : Value) : Except Fault (Parser ρ) :=
  (Failure.ofValue failure).map p.error

/-- A parser whose value must be accepted, with the failure of a rejection given as a value; none means the plain
failure. -/
def suchThatValue (p : Parser ρ) (accept : Value → Bool) (failure : Value) : Except Fault (Parser ρ) :=
  match failure with
  | .none => .ok (p.suchThat accept .plain)
  | failure => (Failure.ofValue failure).map (p.suchThat accept)

end Parser
end Descent
