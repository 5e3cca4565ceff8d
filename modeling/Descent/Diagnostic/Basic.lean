import Descent.Diagnostic.Code
import Descent.Diagnostic.Span

/-!
# Diagnostics

A diagnostic describes one thing that went wrong, for people and for tools.
-/
namespace Descent

/-- What went wrong, where, and what to do about it. -/
structure Diagnostic where
  code : Code
  message : Text
  span : Option Span := none
  hint : Option Text := none
  expected : List Text := []
  /-- A label such as `error` or `warning`. -/
  severity : Text := text "error"
deriving DecidableEq, Repr

namespace Diagnostic

def parseFailed (span : Option Span) : Diagnostic where
  code := .parseFailed
  message := text "Parsing failed"
  span

/-- The input is not what a labelled parser describes. -/
def expectedAt (description : Text) (span : Option Span) : Diagnostic where
  code := .expected
  message := text "Expected " ++ description
  span
  expected := [description]

/-- Rules called one another more deeply than the limit allows. -/
def nestingDepthExceeded (limit : Int) (span : Option Span) : Diagnostic where
  code := .nestingDepthExceeded
  message := text "Maximum nesting depth (" ++ Decimal.ofInt limit ++ text ") exceeded"
  span
  hint := some (text "Pass a larger max_depth to run() or raise sys.setrecursionlimit()")

def invalidTemplate (reason : Text) : Diagnostic where
  code := .invalidTemplate
  message := text "Invalid template: " ++ reason
  hint := some (text "Mark each parser slot with '\x7b\x7d' and escape literal braces as '\x7b\x7b' and '\x7d\x7d'")

end Diagnostic
end Descent
