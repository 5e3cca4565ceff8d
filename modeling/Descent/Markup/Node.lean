import Descent.Text.Quoted

/-!
# Markup trees

Texts, void tags and tags with children, as plain trees. Their texts and attribute values are unescaped; the written
form escapes them again.
-/
namespace Descent.Markup

/-- A key with its unescaped value. -/
structure Attribute where
  key : Text
  value : Text
deriving DecidableEq, Repr

/-- A node of a markup tree. -/
inductive Node
  | text (content : Text)
  | void (name : Text) (attributes : List Attribute)
  | tag (name : Text) (attributes : List Attribute) (children : List Node)
deriving Repr

/-! ## Identity -/

mutual
/-- Whether two nodes are the same, as a computation. -/
def Node.same : Node → Node → Bool
  | .text a, .text b => a == b
  | .void name attributes, .void name' attributes' => name == name' && attributes == attributes'
  | .tag name attributes children, .tag name' attributes' children' =>
    name == name' && attributes == attributes' && Node.sameAll children children'
  | _, _ => false

/-- Whether two lists of nodes are the same, as a computation. -/
def Node.sameAll : List Node → List Node → Bool
  | [], [] => true
  | a :: as, b :: bs => a.same b && Node.sameAll as bs
  | _, _ => false
end

mutual
/-- The computation decides identity. -/
theorem Node.same_iff : ∀ a b : Node, a.same b = true ↔ a = b
  | .text a, b => by cases b <;> simp [Node.same]
  | .void name attributes, b => by cases b <;> simp [Node.same]
  | .tag name attributes children, b => by
    cases b <;> simp [Node.same, Node.sameAll_iff children, and_assoc]

/-- The computation decides identity of lists. -/
theorem Node.sameAll_iff : ∀ as bs : List Node, Node.sameAll as bs = true ↔ as = bs
  | [], bs => by cases bs <;> simp [Node.sameAll]
  | a :: as, bs => by cases bs <;> simp [Node.sameAll, Node.same_iff a, Node.sameAll_iff as]
end

instance : DecidableEq Node := fun a b => decidable_of_iff _ (Node.same_iff a b)

/-! ## Names -/

/-- The tag names that have no children and no closing tag. -/
def voidNames : List Text :=
  [Descent.text "br", Descent.text "hr", Descent.text "img", Descent.text "input", Descent.text "meta",
    Descent.text "link", Descent.text "base", Descent.text "area", Descent.text "col", Descent.text "embed",
    Descent.text "param", Descent.text "source", Descent.text "track", Descent.text "wbr"]

/-- The tag names that only mark up a stretch of their parent's text. -/
def inlineNames : List Text :=
  [Descent.text "a", Descent.text "abbr", Descent.text "b", Descent.text "bdi", Descent.text "bdo",
    Descent.text "cite", Descent.text "code", Descent.text "data", Descent.text "dfn", Descent.text "em",
    Descent.text "i", Descent.text "kbd", Descent.text "mark", Descent.text "q", Descent.text "s",
    Descent.text "samp", Descent.text "small", Descent.text "span", Descent.text "strong", Descent.text "sub",
    Descent.text "sup", Descent.text "time", Descent.text "u", Descent.text "var"]

/-- The named entities, in the order in which they are tried, with what they stand for. -/
def entities : List (Text × CodePoint) :=
  [(Descent.text "amp", 0x26), (Descent.text "lt", 0x3C), (Descent.text "gt", 0x3E), (Descent.text "quot", 0x22),
    (Descent.text "apos", 0x27)]

/-! ## Written form -/

def writtenTextPoint (c : CodePoint) : Text :=
  if c = 0x26 then Descent.text "&amp;"
  else if c = 0x3C then Descent.text "&lt;"
  else if c = 0x3E then Descent.text "&gt;"
  else [c]

/-- A code point of an attribute value as it is written. -/
def writtenValuePoint (c : CodePoint) : Text :=
  if c = 0x26 then Descent.text "&amp;"
  else if c = 0x22 then Descent.text "&quot;"
  else if c = 0x27 then Descent.text "&apos;"
  else [c]

def writtenText (content : Text) : Text := content.flatMap writtenTextPoint

def Attribute.written (a : Attribute) : Text :=
  a.key ++ Descent.text "=\"" ++ a.value.flatMap writtenValuePoint ++ Descent.text "\""

/-- A tag name with its attributes as they are written. -/
def writtenHead (name : Text) (attributes : List Attribute) : Text :=
  name ++ attributes.flatMap fun a => 0x20 :: a.written

def writtenVoid (name : Text) (attributes : List Attribute) : Text :=
  0x3C :: writtenHead name attributes ++ [0x3E]

def writtenTag (name : Text) (attributes : List Attribute) (inner : Text) : Text :=
  0x3C :: writtenHead name attributes ++ [0x3E] ++ inner ++ Descent.text "</" ++ name ++ [0x3E]

mutual
def Node.written : Node → Text
  | .text content => writtenText content
  | .void name attributes => writtenVoid name attributes
  | .tag name attributes children => writtenTag name attributes (Node.writtenAll children)

def Node.writtenAll : List Node → Text
  | [] => []
  | node :: rest => node.written ++ Node.writtenAll rest
end

/-! ## Displayed form -/

def bracketed (items : List Text) : Text := [0x5B] ++ (Descent.text ", ").intercalate items ++ [0x5D]

def Attribute.displayed (a : Attribute) : Text :=
  Descent.text "Attribute(" ++ a.key.quoted ++ Descent.text ", " ++ a.value.quoted ++ Descent.text ")"

def displayedText (content : Text) : Text := Descent.text "TextNode(" ++ content.quoted ++ Descent.text ")"

def displayedVoid (name : Text) (attributes : List Attribute) : Text :=
  Descent.text "VoidTag(" ++ name.quoted ++ Descent.text ", " ++ bracketed (attributes.map Attribute.displayed) ++
    Descent.text ")"

def displayedTag (name : Text) (attributes : List Attribute) (children : List Text) : Text :=
  Descent.text "Tag(" ++ name.quoted ++ Descent.text ", " ++ bracketed (attributes.map Attribute.displayed) ++
    Descent.text ", " ++ bracketed children ++ Descent.text ")"

mutual
def Node.displayed : Node → Text
  | .text content => displayedText content
  | .void name attributes => displayedVoid name attributes
  | .tag name attributes children => displayedTag name attributes (Node.displayedAll children)

/-- Nodes as they are displayed, each on its own. -/
def Node.displayedAll : List Node → List Text
  | [] => []
  | node :: rest => node.displayed :: Node.displayedAll rest
end

end Descent.Markup
