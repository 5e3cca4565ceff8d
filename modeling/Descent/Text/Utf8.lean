import Descent.Text.Basic

/-!
# UTF-8

Decoding of bytes into text. A reader is either between code points or inside one; inside, it knows which ranges the
bytes still to come must lie in. The range of the second byte depends on the first one, which is what excludes
overlong forms, surrogates and numbers above the last code point.
-/
namespace Descent.Utf8

/-- What is wrong with a sequence of bytes. -/
inductive Defect
  | invalidStart
  /-- A byte that does not continue the code point begun before it. -/
  | invalidContinuation
  | unexpectedEnd
deriving DecidableEq, Repr

/-- The first bytes that decoding cannot accept: those at offsets from `start` up to and without `stop`. -/
structure Error where
  defect : Defect
  start : Nat
  stop : Nat
  /-- The byte at `start`. -/
  lead : Nat
deriving DecidableEq, Repr

/-- The bytes that may still come inside a code point: an inclusive range for each. -/
abbrev Awaited := List (Nat × Nat)

/-- The range of a continuation byte on which the first byte puts no condition. -/
def anyContinuation : Nat × Nat := (0x80, 0xBF)

/-- The bits that a first byte contributes, and the continuation bytes it asks for. -/
def ofLead (b : Nat) : Option (Nat × Awaited) :=
  if b < 0x80 then some (b, [])
  else if b < 0xC2 then none
  else if b < 0xE0 then some (b - 0xC0, [anyContinuation])
  else if b = 0xE0 then some (0, [(0xA0, 0xBF), anyContinuation])
  else if b = 0xED then some (0xD, [(0x80, 0x9F), anyContinuation])
  else if b < 0xF0 then some (b - 0xE0, [anyContinuation, anyContinuation])
  else if b = 0xF0 then some (0, [(0x90, 0xBF), anyContinuation, anyContinuation])
  else if b < 0xF4 then some (b - 0xF0, [anyContinuation, anyContinuation, anyContinuation])
  else if b = 0xF4 then some (4, [(0x80, 0x8F), anyContinuation, anyContinuation])
  else none

/-- A code point whose first byte has been read. -/
structure Pending where
  start : Nat
  lead : Nat
  bits : Nat
  awaited : Awaited

/-- Where decoding stands: the code points read, newest first, and the one begun, if any. -/
structure Progress where
  points : List CodePoint
  pending : Option Pending

def Progress.read (s : Progress) (offset b : Nat) : Except Error Progress :=
  match s.pending with
  | none =>
    match ofLead b with
    | none => .error ⟨.invalidStart, offset, offset + 1, b⟩
    | some (bits, []) => .ok ⟨bits :: s.points, none⟩
    | some (bits, awaited) => .ok ⟨s.points, some ⟨offset, b, bits, awaited⟩⟩
  | some p =>
    match p.awaited with
    | [] => .error ⟨.invalidContinuation, p.start, offset, p.lead⟩
    | (low, high) :: awaited =>
      if low ≤ b ∧ b ≤ high then
        let bits := p.bits * 0x40 + (b - 0x80)
        match awaited with
        | [] => .ok ⟨bits :: s.points, none⟩
        | _ :: _ => .ok ⟨s.points, some { p with bits, awaited }⟩
      else .error ⟨.invalidContinuation, p.start, offset, p.lead⟩

def Progress.finish : Progress → Nat → List Nat → Except Error (List CodePoint)
  | s, offset, [] =>
    match s.pending with
    | none => .ok s.points
    | some p => .error ⟨.unexpectedEnd, p.start, offset, p.lead⟩
  | s, offset, b :: bytes =>
    match s.read offset b with
    | .error e => .error e
    | .ok s => s.finish (offset + 1) bytes

def decode (bytes : List Nat) : Except Error Text :=
  match (Progress.mk [] none).finish 0 bytes with
  | .error e => .error e
  | .ok points => .ok points.reverse

/-- Why a defect is one, in a few words. -/
def Defect.reason : Defect → Text
  | .invalidStart => text "invalid start byte"
  | .invalidContinuation => text "invalid continuation byte"
  | .unexpectedEnd => text "unexpected end of data"

end Descent.Utf8
