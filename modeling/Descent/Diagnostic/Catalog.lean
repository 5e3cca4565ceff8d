import Descent.Value.Displayed

/-!
# Diagnostics that quote values

The diagnostics of faulty grammars and of rejected values. Those that quote a value exist unless the value holds an
integer with too many digits to display.
-/
namespace Descent.Diagnostic

/-- A diagnostic of a rejected value, with what was expected instead. -/
def rejection (code : Code) (message : Text) (expected : List Text) : Diagnostic where
  code
  message
  expected

/-! ## Faulty grammars -/

/-- A fixed repetition with a count that is no integer from one on. -/
def invalidRepetition (count : Value) : Except Decimal.TooLong Diagnostic :=
  count.displayed.map fun shown => {
    code := .invalidRepetition
    message := text "Number of repetitions must be an integer >= 1, got " ++ shown
    hint := some (text "Use many() or some() for open-ended repetition") }

/-- A character parser for something other than one code point. -/
def invalidCharLiteral (literal : Value) : Except Decimal.TooLong Diagnostic :=
  literal.displayed.map fun shown => {
    code := .invalidCharLiteral
    message := text "char() expects exactly one code point, got " ++ shown
    hint := some (text "Use string() to match a multi-character literal") }

/-- Something other than a failure where a failure is needed. -/
def invalidFailureValue (value : Value) : Diagnostic where
  code := .invalidFailureValue
  message := text "Failure values must be ParseFailure instances, got " ++ value.kindName
  hint := some (text "Subclass ParseFailure to define grammar-specific failures")

/-! ## Rejected values -/

def typeMismatch (expectedType : Text) (value : Value) : Except Decimal.TooLong Diagnostic :=
  value.displayed.map fun shown =>
    rejection .typeMismatch (text "Expected " ++ expectedType ++ text ", got " ++ shown) [expectedType]

def invalidItem (index : Int) (reason : Text) : Diagnostic :=
  rejection .invalidItem (text "Invalid index " ++ Decimal.ofInt index ++ text ": " ++ reason) []

/-- A key that a record lacks. -/
def missingKey (key : Text) : Diagnostic := rejection .missingKey (text "Missing key: " ++ key) []

def invalidKey (key reason : Text) : Diagnostic :=
  rejection .invalidKey (text "Invalid key " ++ key ++ text ": " ++ reason) []

def lengthMismatch (expectedLength : Int) (value : Value) : Except Decimal.TooLong Diagnostic :=
  value.displayed.map fun shown =>
    rejection .lengthMismatch
      (text "Expected tuple of length " ++ Decimal.ofInt expectedLength ++ text ", got " ++ shown) []

def noAlternative (reasons : List Text) : Diagnostic :=
  rejection .noAlternative (text "No alternatives matched, got errors: " ++ (text "; ").intercalate reasons) []

/-- A value that one of several checks in a row rejects. -/
def stepFailed (step : Int) (reason : Text) : Diagnostic :=
  rejection .stepFailed (text "Failed at step " ++ Decimal.ofInt step ++ text ": " ++ reason) []

def notEqual (expectedValue value : Value) : Except Decimal.TooLong Diagnostic :=
  match expectedValue.displayed, value.displayed with
  | .ok wanted, .ok shown =>
    .ok (rejection .notEqual (text "Expected " ++ wanted ++ text ", got " ++ shown) [wanted])
  | .error e, _ => .error e
  | _, .error e => .error e

def predicateFailed (value : Value) : Except Decimal.TooLong Diagnostic :=
  value.displayed.map fun shown =>
    rejection .predicateFailed (text "Value did not satisfy predicate, got " ++ shown) []

end Descent.Diagnostic
