import Descent.Parse.Run

/-!
# The JSON grammar

RFC 8259 texts, with white space around every token. Arrays and objects are rules, since they hold values again; their
nesting is what the depth limit counts. A number without fraction and exponent is an integer, every other number the
nearest binary64 number. The last of several members with one key gives its value.
-/
namespace Descent.Json

/-- The rules of the grammar. -/
inductive Rule
  | array
  | object
deriving DecidableEq, Repr

open Descent.Parser

/-- White space between tokens. -/
def isWhitespace (c : CodePoint) : Bool := c == 0x20 || c == 0x09 || c == 0x0D || c == 0x0A

def ws : Parser Rule := .span isWhitespace

/-! ## Strings -/

/-- The letters of the two-character escapes, with what they stand for. -/
def shortEscapes : List (CodePoint × CodePoint) :=
  [(0x22, 0x22), (0x5C, 0x5C), (0x2F, 0x2F), (0x62, 0x08), (0x66, 0x0C), (0x6E, 0x0A), (0x72, 0x0D), (0x74, 0x09)]

/-- What the letter of a two-character escape stands for. -/
def shortEscape? (v : Value) : Option CodePoint :=
  match v with
  | .str [c] => shortEscapes.lookup c
  | _ => none

/-- A code point that stands for itself inside a string. -/
def isRaw (v : Value) : Bool :=
  match v with
  | .str [c] => c != 0x22 && c != 0x5C && 0x20 ≤ c
  | _ => false

/-- Four hexadecimal digits as the UTF-16 unit they spell. -/
def hex4 : Parser Rule := (times hexDigit 4).map fun digits => .int (Text.hexNumber digits.joinedText)

/-- An escape: a text, or the UTF-16 unit of a four-digit one. -/
def escape : Parser Rule :=
  (char 0x5C).right (choice [
    (one.suchThat (fun v => (shortEscape? v).isSome) .plain).map fun v => .str (shortEscape? v).toList,
    (char 0x75).right hex4])

def rawChar : Parser Rule := one.suchThat isRaw .plain

/-- The text that the parts of a string spell. A high surrogate directly followed by a low one is one code point; other
units stand for themselves. -/
def decodeParts : List Value → Text
  | [] => []
  | .int high :: .int low :: rest =>
    if CodePoint.isHighSurrogate high.toNat && CodePoint.isLowSurrogate low.toNat then
      CodePoint.ofSurrogates high.toNat low.toNat :: decodeParts rest
    else high.toNat :: decodeParts (.int low :: rest)
  | .int unit :: rest => unit.toNat :: decodeParts rest
  | .str t :: rest => t ++ decodeParts rest
  | _ :: rest => decodeParts rest

def string : Parser Rule :=
  (((char 0x22).right (many (.orElse escape.attempt rawChar))).left (char 0x22)).map fun parts =>
    .str (decodeParts parts.items)

/-! ## Numbers -/

def digits : Parser Rule := (many1 digit).map .joined

/-- An integer part: zero, or digits that do not start with zero. -/
def isIntegral (v : Value) : Bool :=
  match v with
  | .str t => t == [0x30] || t.head? != some 0x30
  | _ => false

def integral : Parser Rule := digits.suchThat isIntegral .plain

/-- A fraction, if there is one. -/
def fraction : Parser Rule := ((char 0x2E).right digits).attempt.optional .absent

/-- An exponent with its mark and sign, if there is one. -/
def exponent : Parser Rule :=
  (sequence [anyChar (text "eE"), (anyChar (text "+-")).otherwise (.str []), digits]).optional .absent

/-- The number that is spelled by a sign, an integer part, a fraction and an exponent. -/
def toNumber (sign integral : Text) (fraction exponent : Value) : Except Fault Value :=
  let negative := !sign.isEmpty
  match fraction, exponent with
  | .absent, .absent =>
    match Decimal.read negative integral with
    | .ok n => .ok (.int n)
    | .error e => .error (.tooLong e)
  | fraction, exponent =>
    let places := fraction.asText
    let power : Int := match exponent.items with
      | [_, .str sign, .str digits] =>
        if sign = [0x2D] then -(Decimal.toNat digits : Int) else Decimal.toNat digits
      | _ => 0
    .ok (.float (.ofDecimal negative (Decimal.toNat (integral ++ places)) (power - places.length)))

def partsToNumber (parts : Value) : Except Fault Value :=
  match parts.items with
  | [sign, integral, fraction, exponent] => toNumber sign.asText integral.asText fraction exponent
  | _ => .error .unsuited

def number : Parser Rule :=
  (sequence [(char 0x2D).otherwise (.str []), integral, fraction, exponent]).mapM partsToNumber

/-! ## Values -/

/-- Any value, with white space around it. -/
def value : Parser Rule :=
  (ws.right (choice [
    string,
    number,
    const (.literal (text "true")) (.bool true),
    const (.literal (text "false")) (.bool false),
    const (.literal (text "null")) .none,
    .rule .array,
    .rule .object])).left ws

def elements : Parser Rule := (value.and (many ((char 0x2C).right value).attempt)).map .consPair

/-- An array. What is read of a list of items that breaks off is given up, and the closing bracket decides. -/
def array : Parser Rule :=
  (((char 0x5B).right ((elements.attempt.optional .absent).map (·.orElse (.list [])))).left ws).left (char 0x5D)

def member : Parser Rule := (((ws.right string).left ws).left (char 0x3A)).and value

def members : Parser Rule :=
  (member.and (many ((char 0x2C).right member).attempt)).map fun pairs =>
    .ofPairs (pairs.consPair.items.map Value.asEntry)

def object : Parser Rule :=
  (((char 0x7B).right ((members.attempt.optional .absent).map (·.orElse (.dict [])))).left ws).left (char 0x7D)

def grammar : Grammar Rule
  | .array => .ok array
  | .object => .ok object

/-- A value and nothing behind it. -/
def document : Parser Rule := value.left (expecting .eof (text "end of input"))

def read (limits : Limits) (input : Input) : Reading := grammar.read document .jsonRejected limits input

end Descent.Json
