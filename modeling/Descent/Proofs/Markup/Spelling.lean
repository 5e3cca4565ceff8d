import Descent.Markup.Node
import Descent.Text.Blank

/-!
# Spellings of markup forests

A forest can be written in many ways: characters raw or as entities, values in either quotation mark, white space in and
between attributes, a slash at the end of void tags. The relations of this module say which texts spell a forest,
without saying how one is read.

`Node.Normal` says which forests have a spelling that means them: names are names, void tags are those with a void name,
and texts are neither empty nor next to each other. `Node.need` is the nesting that reading a forest takes up.
-/

namespace Descent.Markup

/-- White space only. -/
def Blank (t : Text) : Prop := ∀ c ∈ t, c.isBlank = true

/-! ## Names -/

/-- A code point that a name starts with: an ASCII letter or an underscore. -/
def StartsName (c : CodePoint) : Prop := c.isAlpha = true ∨ c = 0x5F

/-- A code point that a name goes on with: also a digit, a full stop or a hyphen. -/
def ContinuesName (c : CodePoint) : Prop := StartsName c ∨ c.isDigit = true ∨ c = 0x2E ∨ c = 0x2D

/-- The name of a tag or an attribute. -/
def IsName (t : Text) : Prop := ∃ c rest, t = c :: rest ∧ StartsName c ∧ ∀ d ∈ rest, ContinuesName d

/-! ## Characters -/

/-- `SpellsPoint raw c t`: the code point is written as itself, if it may stand raw, or as its named entity. -/
inductive SpellsPoint (raw : CodePoint → Prop) : CodePoint → Text → Prop
  | raw {c : CodePoint} : raw c → SpellsPoint raw c [c]
  | entity {name : Text} {c : CodePoint} :
      (name, c) ∈ entities → SpellsPoint raw c (0x26 :: (name ++ [0x3B]))

/-- The code points of a text are written one after another. -/
inductive SpellsText (raw : CodePoint → Prop) : Text → Text → Prop
  | nil : SpellsText raw [] []
  | cons {c : CodePoint} {content t u : Text} :
      SpellsPoint raw c t → SpellsText raw content u → SpellsText raw (c :: content) (t ++ u)

/-- Angle brackets and ampersands do not stand raw in a text. -/
def RawInText (c : CodePoint) : Prop := c ≠ 0x3C ∧ c ≠ 0x3E ∧ c ≠ 0x26

/-- The quotation mark around a value and ampersands do not stand raw in the value. -/
def RawInValue (mark : CodePoint) (c : CodePoint) : Prop := c ≠ mark ∧ c ≠ 0x26

/-! ## Attributes -/

/-- An attribute: its key, an equals sign with any white space around it, and its value in single or double quotation
marks. -/
inductive SpellsAttribute : Attribute → Text → Prop
  | quoted {key value before after written : Text} {mark : CodePoint} :
      Blank before → Blank after → mark = 0x22 ∨ mark = 0x27 → SpellsText (RawInValue mark) value written →
      SpellsAttribute ⟨key, value⟩ (key ++ (before ++ 0x3D :: (after ++ mark :: (written ++ [mark]))))

/-- Attributes with any white space in front of each. -/
inductive SpellsAttributes : List Attribute → Text → Prop
  | nil : SpellsAttributes [] []
  | cons {a : Attribute} {others : List Attribute} {blanks t u : Text} :
      Blank blanks → SpellsAttribute a t → SpellsAttributes others u →
      SpellsAttributes (a :: others) (blanks ++ (t ++ u))

/-- The attributes of a tag. There is white space in front of the first one. -/
inductive SpellsTagAttributes : List Attribute → Text → Prop
  | none : SpellsTagAttributes [] []
  | some {a : Attribute} {others : List Attribute} {blanks t u : Text} :
      blanks ≠ [] → Blank blanks → SpellsAttribute a t → SpellsAttributes others u →
      SpellsTagAttributes (a :: others) (blanks ++ (t ++ u))

/-- The opening of a tag, without its end: an angle bracket, the name and the attributes, with white space behind. -/
inductive SpellsHead : Text → List Attribute → Text → Prop
  | opening {name attributes before after t} :
      Blank before → SpellsTagAttributes attributes t → Blank after →
      SpellsHead name attributes (0x3C :: (before ++ (name ++ (t ++ after))))

/-! ## Nodes -/

mutual
/-- A node as one of its spellings. -/
inductive Spells : Node → Text → Prop
  | text {content t : Text} : SpellsText RawInText content t → Spells (.text content) t
  /-- A void tag, with or without a slash. -/
  | void {name : Text} {attributes : List Attribute} {head slash blanks : Text} :
      SpellsHead name attributes head → slash = [] ∨ slash = [0x2F] → Blank blanks →
      Spells (.void name attributes) (head ++ (slash ++ (blanks ++ [0x3E])))
  /-- A tag with its children and its closing tag. -/
  | tag {name : Text} {attributes : List Attribute} {children : List Node} {head inner before after : Text} :
      SpellsHead name attributes head → SpellsAll children inner → Blank before → Blank after →
      Spells (.tag name attributes children)
        (head ++ 0x3E :: (inner ++ 0x3C :: 0x2F :: (before ++ (name ++ (after ++ [0x3E])))))

/-- Nodes one after another. -/
inductive SpellsAll : List Node → Text → Prop
  | nil : SpellsAll [] []
  | cons {n : Node} {ns : List Node} {t u : Text} : Spells n t → SpellsAll ns u → SpellsAll (n :: ns) (t ++ u)
end

/-! ## Normal forests -/

/-- A node that is a text. -/
def Node.IsText : Node → Prop
  | .text _ => True
  | _ => False

mutual
/-- Names are names, exactly the tags with void names are void, and texts are neither empty nor next to each other. -/
def Node.Normal : Node → Prop
  | .text content => content ≠ []
  | .void name attributes => IsName name ∧ name ∈ voidNames ∧ ∀ a ∈ attributes, IsName a.key
  | .tag name attributes children =>
    IsName name ∧ name ∉ voidNames ∧ (∀ a ∈ attributes, IsName a.key) ∧ Node.NormalAll children

/-- The nodes of a forest are normal and no two neighbours are texts. -/
def Node.NormalAll : List Node → Prop
  | [] => True
  | n :: ns => n.Normal ∧ (n.IsText → ∀ m ∈ ns.head?, ¬ m.IsText) ∧ Node.NormalAll ns
end

mutual
/-- The levels of nesting that a node takes up. -/
def Node.need : Node → Nat
  | .text _ => 1
  | .void _ _ => 1
  | .tag _ _ children => 1 + Node.needAll children

/-- The levels of nesting that a forest takes up; looking for one more node takes one. -/
def Node.needAll : List Node → Nat
  | [] => 1
  | n :: ns => max n.need (Node.needAll ns)
end

end Descent.Markup
