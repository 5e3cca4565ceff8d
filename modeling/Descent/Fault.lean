import Descent.Diagnostic.Basic
import Descent.Number.Binary64
import Descent.Number.IntegerLiteral
import Descent.Text.Quoted
import Descent.Text.Utf8

/-!
# Faults

A fault is no result of a parser: it says that a grammar, a request or an input cannot be worked with, and ends the
work at once.
-/
namespace Descent

/-- The cause of a fault. -/
inductive Fault
  | encoding (error : Utf8.Error)
  | sourceTooLarge (size limit : Nat)
  | span (defect : Span.Defect)
  | grammar (diagnostic : Diagnostic)
  | tooLong (error : Decimal.TooLong)
  | notANumeral (base : Base) (spelling : Text)
  /-- A number that is not finite was to become an integer. -/
  | notFinite (x : Binary64)
  /-- What was to be a pair of a key and a value has another number of items. -/
  | notAPair (index size : Nat)
  /-- An item was asked for that lies beyond the last one of a value of the given kind. -/
  | beyondEnd (kind : Text)
  | noEntry (key : Nat)
  | unknownCode (number : Int)
  | unknownCodeName (name : Text)
  | unknownLayout (name : Text)
  | orphan
  /-- The parent of a node does not have it among its children. -/
  | estranged
  | unwritable
  /-- A value of a shape that an operation is not made for. -/
  | unsuited
deriving DecidableEq, Repr

namespace Fault

/-- What is wrong with the bytes, with the offsets of the first ones that cannot be decoded. -/
def encodingMessage (e : Utf8.Error) : Text :=
  let place :=
    if e.stop = e.start + 1 then
      text "byte 0x" ++ Text.hexDigits 2 e.lead ++ text " in position " ++ Decimal.ofNat e.start
    else
      text "bytes in position " ++ Decimal.ofNat e.start ++ text "-" ++ Decimal.ofNat (e.stop - 1)
  text "'utf-8' codec can't decode " ++ place ++ text ": " ++ e.defect.reason

/-- The most code points of a quoted text that the message on a bad numeral shows. -/
def quotationLimit : Nat := 200

def message : Fault → Text
  | .encoding e => encodingMessage e
  | .sourceTooLarge size limit =>
    text "Source size (" ++ Decimal.grouped size ++ text " characters) exceeds maximum (" ++ Decimal.grouped limit ++
      text " characters). Pass max_source_size to run() to increase the limit."
  | .span defect => defect.message
  | .grammar d => d.message
  | .tooLong e =>
    text "Exceeds the limit (" ++ Decimal.ofNat Decimal.digitLimit ++ text " digits) for integer string conversion" ++
      (match e.digits with
        | some n => text ": value has " ++ Decimal.ofNat n ++ text " digits"
        | none => []) ++
      text "; use sys.set_int_max_str_digits() to increase the limit"
  | .notANumeral base spelling =>
    text "invalid literal for int() with base " ++ Decimal.ofNat base.size ++ text ": " ++
      (Text.quoted spelling).take quotationLimit
  | .notFinite x =>
    text "cannot convert float " ++ text (if x = .nan then "NaN" else "infinity") ++ text " to integer"
  | .notAPair index size =>
    text "dictionary update sequence element #" ++ Decimal.ofNat index ++ text " has length " ++ Decimal.ofNat size ++
      text "; 2 is required"
  | .beyondEnd kind => kind ++ text " index out of range"
  | .noEntry key => Decimal.ofNat key
  | .unknownCode number => Decimal.ofInt number ++ text " is not a valid DiagnosticCode"
  | .unknownCodeName name => Text.quoted name
  | .unknownLayout name => Text.quoted name ++ text " is not a valid OutputFormat"
  | .orphan => text "Cannot replace a node without a parent"
  | .estranged => []
  | .unwritable => []
  | .unsuited => []

/-- The diagnostic of a fault in a grammar; other faults carry none. -/
def diagnostic : Fault → Option Diagnostic
  | .grammar d => some d
  | _ => none

end Fault
end Descent
