import Descent.Text.Basic

/-!
# Kinds of errors

The errors of the library form a hierarchy, so that a caller can catch them as broadly as it likes. Some of them are
also errors of a general kind that callers know without the library.
-/
namespace Descent

/-- A kind of error. -/
inductive ErrorKind
  | library
  | grammar
  | parseFailed
  | jsonSyntax
  | markupSyntax
  | invalidValue
  | depthLimitExceeded
  | value
  | type
deriving DecidableEq, Repr

namespace ErrorKind

def label : ErrorKind → Text
  | .library => text "CrazyParserError"
  | .grammar => text "GrammarError"
  | .parseFailed => text "ParseFailedError"
  | .jsonSyntax => text "JSONSyntaxError"
  | .markupSyntax => text "MarkupSyntaxError"
  | .invalidValue => text "InvalidValueError"
  | .depthLimitExceeded => text "DepthLimitExceededError"
  | .value => text "ValueError"
  | .type => text "TypeError"

/-- Every kind, by name. -/
def all : List ErrorKind := [
  .library, .depthLimitExceeded, .grammar, .invalidValue, .jsonSyntax, .markupSyntax, .parseFailed, .type, .value]

def ofLabel? (name : Text) : Option ErrorKind := all.find? fun kind => kind.label = name

/-- The kinds that a kind belongs to, itself included. -/
def ancestors : ErrorKind → List ErrorKind
  | .library => [.library]
  | .grammar => [.library, .grammar, .value]
  | .parseFailed => [.library, .parseFailed]
  | .jsonSyntax => [.library, .jsonSyntax, .parseFailed, .value]
  | .markupSyntax => [.library, .markupSyntax, .parseFailed, .value]
  | .invalidValue => [.library, .invalidValue, .type]
  | .depthLimitExceeded => [.library, .depthLimitExceeded]
  | .value => [.value]
  | .type => [.type]

/-- Whether the errors of a kind carry the failure of a parse. -/
def carriesFailure (kind : ErrorKind) : Bool := kind.ancestors.contains .parseFailed

end ErrorKind
end Descent
