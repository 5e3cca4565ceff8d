import Descent.Text.Basic

/-!
# Diagnostic codes

Numbers from 1000 stand for faults in a grammar, from 3000 for failed parses and from 5000 for rejected values.
-/
namespace Descent

/-- What a diagnostic is about. -/
inductive Code
  | invalidRepetition
  | invalidCharLiteral
  | invalidTemplate
  | invalidFailureValue
  | parseFailed
  | expected
  | nestingDepthExceeded
  | typeMismatch
  | invalidItem
  | missingKey
  | invalidKey
  | lengthMismatch
  | noAlternative
  | stepFailed
  | notEqual
  | predicateFailed
deriving DecidableEq, Repr

namespace Code

/-- Every code, by increasing number. -/
def all : List Code := [
  .invalidRepetition, .invalidCharLiteral, .invalidTemplate, .invalidFailureValue, .parseFailed, .expected,
  .nestingDepthExceeded, .typeMismatch, .invalidItem, .missingKey, .invalidKey, .lengthMismatch, .noAlternative,
  .stepFailed, .notEqual, .predicateFailed]

def number : Code → Nat
  | .invalidRepetition => 1001
  | .invalidCharLiteral => 1002
  | .invalidTemplate => 1003
  | .invalidFailureValue => 1004
  | .parseFailed => 3000
  | .expected => 3002
  | .nestingDepthExceeded => 3005
  | .typeMismatch => 5001
  | .invalidItem => 5002
  | .missingKey => 5003
  | .invalidKey => 5004
  | .lengthMismatch => 5005
  | .noAlternative => 5006
  | .stepFailed => 5007
  | .notEqual => 5008
  | .predicateFailed => 5009

def name : Code → Text
  | .invalidRepetition => text "INVALID_REPETITION"
  | .invalidCharLiteral => text "INVALID_CHAR_LITERAL"
  | .invalidTemplate => text "INVALID_TEMPLATE"
  | .invalidFailureValue => text "INVALID_FAILURE_VALUE"
  | .parseFailed => text "PARSE_FAILED"
  | .expected => text "EXPECTED"
  | .nestingDepthExceeded => text "NESTING_DEPTH_EXCEEDED"
  | .typeMismatch => text "VALIDATION_TYPE_MISMATCH"
  | .invalidItem => text "VALIDATION_INVALID_ITEM"
  | .missingKey => text "VALIDATION_MISSING_KEY"
  | .invalidKey => text "VALIDATION_INVALID_KEY"
  | .lengthMismatch => text "VALIDATION_LENGTH_MISMATCH"
  | .noAlternative => text "VALIDATION_NO_ALTERNATIVE"
  | .stepFailed => text "VALIDATION_STEP_FAILED"
  | .notEqual => text "VALIDATION_NOT_EQUAL"
  | .predicateFailed => text "VALIDATION_PREDICATE_FAILED"

def ofNumber? (n : Int) : Option Code := all.find? fun code => (code.number : Int) = n

def ofName? (t : Text) : Option Code := all.find? fun code => code.name = t

end Code
end Descent
