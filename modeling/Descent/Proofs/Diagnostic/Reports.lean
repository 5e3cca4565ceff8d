import Descent.Failure

/-!
# What failures report

The failures that a parse builds itself, field by field: of a labelled parser, and of rules that nest too deeply.
-/

namespace Descent

/-- The diagnostic belongs to one offset of a source: its span starts and stops there, with the line and the column of
that offset. -/
def Diagnostic.LocatedAt (d : Diagnostic) (s : Source) (i : Nat) : Prop :=
  ∃ span, d.span = some span ∧ span.start = i ∧ span.stop = i ∧ span.position = s.position i

namespace Failure

variable (s : Source) (i : Nat)

/-- The failure says what was expected at the offset `i`. -/
structure ReportsExpected (f : Failure) (description : Text) : Prop where
  kind : f.kind = .general
  diagnostic : ∃ d, f.diagnostic = some d ∧ d.code = .expected ∧ d.message = text "Expected " ++ description ∧
    d.expected = [description] ∧ d.LocatedAt s i

/-- The failure says that a parse nested more deeply than `limit` allows, which came to light at the offset `i`. -/
structure ReportsDepth (f : Failure) (limit : Int) : Prop where
  kind : f.kind = .tooDeep
  diagnostic : ∃ d, f.diagnostic = some d ∧ d.code = .nestingDepthExceeded ∧
    d.message = text "Maximum nesting depth (" ++ Decimal.ofInt limit ++ text ") exceeded" ∧ d.expected = [] ∧
    d.LocatedAt s i

theorem expectedAt_reports (description : Text) : (expectedAt s description i).ReportsExpected s i description :=
  ⟨rfl, _, rfl, rfl, rfl, rfl, _, rfl, rfl, rfl, rfl⟩

theorem tooDeepAt_reports (limit : Int) : (tooDeepAt s limit i).ReportsDepth s i limit :=
  ⟨rfl, _, rfl, rfl, rfl, rfl, _, rfl, rfl, rfl, rfl⟩

end Failure
end Descent
