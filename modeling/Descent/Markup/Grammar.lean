import Descent.Parse.Run
import Descent.Text.Blank

/-!
# The markup grammar

Tags with quoted attribute values, void tags, and text with named entities. A node is a rule, since tags hold nodes
again; its nesting is what the depth limit counts.
-/
namespace Descent.Markup

/-- The rules of the grammar. -/
inductive Rule
  | node
deriving DecidableEq, Repr

open Descent.Parser

def ws : Parser Rule := .span CodePoint.isBlank

/-! ## Names and attributes -/

def isNameStart (c : CodePoint) : Bool := CodePoint.isAlpha c || c == 0x5F

def isNameRest (c : CodePoint) : Bool := isNameStart c || CodePoint.isDigit c || c == 0x2E || c == 0x2D

def isPoint (accept : CodePoint → Bool) (v : Value) : Bool :=
  match v with
  | .str [c] => accept c
  | _ => false

/-- A single accepted code point, read before it is looked at. -/
def point (accept : CodePoint → Bool) : Parser Rule := one.suchThat (isPoint accept) .plain

def tagName : Parser Rule := ((point isNameStart).and (.span isNameRest)).map .joined

/-- A named entity as what it stands for. -/
def entity : Parser Rule :=
  ((char 0x26).right (choice (entities.map fun (name, c) =>
    const (.literal (name ++ Descent.text ";")) (.str [c])))).attempt

/-- The rest of an attribute value behind its opening quotation mark. -/
def quotedValue (mark : CodePoint) : Parser Rule :=
  ((many (.orElse entity (point fun c => c != mark && c != 0x26))).map .joined).left (char mark)

def attributeValue : Parser Rule :=
  (anyChar (Descent.text "\"'")).bind fun
    | .str [mark] => quotedValue mark
    | _ => empty

def toAttribute (v : Value) : Value :=
  match v with
  | .tuple [.str key, .str value] => .attribute ⟨key, value⟩
  | v => v

def oneAttribute : Parser Rule :=
  ((((tagName.left ws).left (char 0x3D)).left ws).and attributeValue).map toAttribute

/-- Any number of attributes with white space in front. -/
def attributes : Parser Rule := many (ws.right oneAttribute).attempt

/-! ## Tags -/

def toAttributes (vs : List Value) : List Attribute :=
  vs.filterMap fun
    | .attribute a => some a
    | _ => none

def toNodes (vs : List Value) : List Node :=
  vs.filterMap fun
    | .node n => some n
    | _ => none

/-- The name and the attributes of a tag. -/
structure Head where
  name : Text
  attributes : List Attribute

/-- The head that a pair of a name and a list of attributes is. -/
def Head.ofValue (v : Value) : Head :=
  match v with
  | .tuple [.str name, attributes] => ⟨name, toAttributes attributes.items⟩
  | _ => ⟨[], []⟩

def tagHead : Parser Rule := (((char 0x3C).right ws).right tagName).and (attributes.left ws)

def voidTag : Parser Rule :=
  ((((tagHead.suchThat (fun v => (Head.ofValue v).name ∈ voidNames) .plain).left
    ((char 0x2F).optional .absent)).left ws).left (char 0x3E)).map fun v =>
      .node (.void (Head.ofValue v).name (Head.ofValue v).attributes)

def closing (name : Text) : Parser Rule :=
  ((((right (.literal (Descent.text "</")) ws).right (.literal name)).left ws).left (char 0x3E))

def elementBody (head : Head) : Parser Rule :=
  ((many (.rule .node)).left (closing head.name)).map fun children =>
    .node (.tag head.name head.attributes (toNodes children.items))

def element : Parser Rule := (tagHead.left (char 0x3E)).bind fun v => elementBody (Head.ofValue v)

/-- Character data, not empty. -/
def text : Parser Rule :=
  (many1 (.orElse entity (point fun c => c != 0x3C && c != 0x3E && c != 0x26))).map fun cs =>
    .node (.text cs.joinedText)

/-- One node. Void tags are tried first, since they wait for no closing tag. -/
def node : Parser Rule := choice [voidTag.attempt, element.attempt, text]

def grammar : Grammar Rule
  | .node => .ok node

/-- Nodes and nothing behind them. -/
def document : Parser Rule :=
  (many (.rule .node)).left (expecting .eof (Descent.text "end of input"))

def read (limits : Limits) (input : Input) : Reading := grammar.read document .markupRejected limits input

end Descent.Markup
