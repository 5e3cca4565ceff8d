import Descent.Source.Position

/-!
# Sources

The text that a parse reads, with access by offset. Offsets beyond the end hold no code point and have the position of
the end.
-/
namespace Descent

/-- A text to be parsed. -/
structure Source where
  points : Array CodePoint

namespace Source

def ofText (t : Text) : Source := ⟨t.toArray⟩

def size (s : Source) : Nat := s.points.size

/-- The code point at an offset, if there is one. -/
def get? (s : Source) (i : Nat) : Option CodePoint := s.points[i]?

def slice (s : Source) (start stop : Nat) : Text := (s.points.extract start stop).toList

def remaining (s : Source) (i : Nat) : Text := s.slice i s.size

/-- Whether a text stands at an offset. The empty text stands at every offset up to the end, and at none beyond. -/
def holds (s : Source) : Nat → Text → Bool
  | i, [] => i ≤ s.size
  | i, c :: rest => s.get? i == some c && s.holds (i + 1) rest

/-- The end of the longest run of accepted code points from an offset on, of at most the given length. -/
def runEnd (s : Source) (accept : CodePoint → Bool) : Nat → Nat → Nat
  | 0, i => i
  | most + 1, i =>
    match s.get? i with
    | some c => if accept c then s.runEnd accept most (i + 1) else i
    | none => i

/-- The end of the longest run of accepted code points from an offset on. -/
def spanEnd (s : Source) (accept : CodePoint → Bool) (i : Nat) : Nat := s.runEnd accept (s.size - i) i

/-- The offset inside the source, its end included, that is nearest to a number. -/
def clamp (s : Source) (offset : Int) : Nat := min offset.toNat s.size

def position (s : Source) (offset : Int) : Position :=
  s.points.foldl Position.advance Position.first 0 (s.clamp offset)

/-- The lines of the source, without their line feeds. -/
def lines (s : Source) : List Text := Text.lines s.points.toList

end Source
end Descent
