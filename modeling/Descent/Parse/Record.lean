import Descent.Number.Decimal

/-!
# Records of a parse

What a parse notes for those who watch it: warnings about nesting, and for debugging the endings of traced parsers and
of whole parses.
-/
namespace Descent

/-- How much a record matters. -/
inductive Level
  | debug
  | warning
deriving DecidableEq, Repr

def Level.name : Level → Text
  | .debug => text "DEBUG"
  | .warning => text "WARNING"

/-- Something noted. -/
inductive Record
  | clamped (requested callLimit granted : Int)
  | tooDeep (limit : Int) (offset : Nat)
  | outOfFrames (callLimit : Int) (offset : Nat) (limit : Int)
  | won (label : Text) (start stop : Nat)
  | lost (label : Text) (start : Nat)
  | failed (offset : Nat) (message : Text)
  | succeeded (consumed size : Nat)
  | jsonRejected (offset : Nat)
  | markupRejected (offset : Nat)
deriving DecidableEq, Repr

namespace Record

/-- Only what concerns nesting is a warning. -/
def level : Record → Level
  | .clamped _ _ _ => .warning
  | .tooDeep _ _ => .warning
  | .outOfFrames _ _ _ => .warning
  | _ => .debug

def message : Record → Text
  | .clamped requested callLimit granted =>
    text "Requested nesting depth " ++ Decimal.ofInt requested ++ text " exceeds Python recursion limit (" ++
      Decimal.ofInt callLimit ++ text "). Clamping to " ++ Decimal.ofInt granted ++ text "."
  | .tooDeep limit offset =>
    text "Nesting depth limit (" ++ Decimal.ofInt limit ++ text ") exceeded at offset " ++ Decimal.ofNat offset
  | .outOfFrames callLimit offset limit =>
    text "Python recursion limit (" ++ Decimal.ofInt callLimit ++ text ") hit at offset " ++ Decimal.ofNat offset ++
      text " before max_depth (" ++ Decimal.ofInt limit ++ text ")"
  | .won label start stop =>
    text "WIN " ++ label ++ text " (" ++ Decimal.ofNat start ++ text ".." ++ Decimal.ofNat stop ++ text ")"
  | .lost label start => text "BAD " ++ label ++ text " at " ++ Decimal.ofNat start
  | .failed offset message => text "Parse failed at offset " ++ Decimal.ofNat offset ++ text ": " ++ message
  | .succeeded consumed size =>
    text "Parse succeeded, consumed " ++ Decimal.ofNat consumed ++ text " of " ++ Decimal.ofNat size
  | .jsonRejected offset => text "JSON decode failed at offset " ++ Decimal.ofNat offset
  | .markupRejected offset => text "Markup parse failed at offset " ++ Decimal.ofNat offset

end Record
end Descent
