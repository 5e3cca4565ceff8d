import Descent.Source.Basic
import Descent.Number.Decimal

/-!
# Spans

A span is a range of offsets with the position of its start. The numbers of a span that comes from outside are checked
in a fixed order, and the first defect is reported.
-/
namespace Descent

/-- The offsets from `start` up to and without `stop`. -/
structure Span where
  start : Nat
  stop : Nat
  position : Position
  start_le_stop : start ≤ stop := by omega
deriving DecidableEq, Repr

namespace Span

/-- Why four numbers do not make a span. -/
inductive Defect
  | negativeStart (start : Int)
  | reversed (start stop : Int)
  | lineBelowOne (line : Int)
  | columnBelowOne (column : Int)
deriving DecidableEq, Repr

def Defect.message : Defect → Text
  | .negativeStart start => text "SourceSpan.start must be >= 0, got " ++ Decimal.ofInt start
  | .reversed start stop =>
    text "SourceSpan.end (" ++ Decimal.ofInt stop ++ text ") must be >= start (" ++ Decimal.ofInt start ++ text ")"
  | .lineBelowOne line => text "SourceSpan.line must be >= 1 (1-indexed), got " ++ Decimal.ofInt line
  | .columnBelowOne column => text "SourceSpan.column must be >= 1 (1-indexed), got " ++ Decimal.ofInt column

/-- The span with the given numbers, or the first thing wrong with them. -/
def make (start stop line column : Int) : Except Defect Span :=
  if hs : start < 0 then .error (.negativeStart start)
  else if he : stop < start then .error (.reversed start stop)
  else if hl : line < 1 then .error (.lineBelowOne line)
  else if hc : column < 1 then .error (.columnBelowOne column)
  else .ok {
    start := start.toNat
    stop := stop.toNat
    position := ⟨line.toNat, column.toNat, by omega, by omega⟩
    start_le_stop := by omega }

def point (s : Source) (offset : Nat) : Span := ⟨offset, offset, s.position offset, Nat.le_refl offset⟩

/-- The span of a range of offsets, located at its start. -/
def locate (s : Source) (start stop : Int) : Except Defect Span :=
  let p := s.position start
  make start stop p.line p.column

end Span
end Descent
