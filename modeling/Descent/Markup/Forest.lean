import Descent.Fault
import Descent.Markup.Node

/-!
# Forests of nodes

A forest holds nodes under identities, each with a link to its parent, so that a node can be replaced where it stands,
be part of two trees at once, or be part of none. Edits change children and parent links together as far as they say;
an absorbed or replaced node stays in the forest without a parent.
-/
namespace Descent.Markup

/-- The identity of a node. -/
abbrev NodeId := Nat

/-- What a node is, apart from where it stands. -/
inductive Content
  /-- A node of no particular kind; it has no written form. -/
  | bare
  | text (content : Text)
  | void (name : Text) (attributes : List Attribute)
  | tag (name : Text) (attributes : List Attribute) (children : List NodeId)
deriving DecidableEq, Repr

/-- A node with the tag it stands under, if any. -/
structure Cell where
  content : Content
  parent : Option NodeId
deriving DecidableEq, Repr

/-- Nodes by their identities. -/
structure Forest where
  cells : Array Cell

namespace Forest

def empty : Forest := ⟨#[]⟩

/-! ## Access -/

def get? (f : Forest) (n : NodeId) : Option Cell := f.cells[n]?

/-- What a node is. -/
def content? (f : Forest) (n : NodeId) : Option Content := (f.get? n).map Cell.content

def parent? (f : Forest) (n : NodeId) : Option NodeId := (f.get? n).bind Cell.parent

def children? (f : Forest) (n : NodeId) : Option (List NodeId) :=
  match f.content? n with
  | some (.tag _ _ children) => some children
  | _ => none

/-- The children of a tag, and none for any other node. -/
def children (f : Forest) (n : NodeId) : List NodeId := (f.children? n).getD []

def text? (f : Forest) (n : NodeId) : Option Text :=
  match f.content? n with
  | some (.text content) => some content
  | _ => none

/-- The name of a tag, void tags excluded. -/
def tagName? (f : Forest) (n : NodeId) : Option Text :=
  match f.content? n with
  | some (.tag name _ _) => some name
  | _ => none

/-! ## Change -/

def modify (f : Forest) (n : NodeId) (change : Cell → Cell) : Forest := ⟨f.cells.modify n change⟩

def setParent (f : Forest) (n : NodeId) (parent : Option NodeId) : Forest :=
  f.modify n fun cell => { cell with parent }

def setText (f : Forest) (n : NodeId) (content : Text) : Forest :=
  f.modify n fun cell => match cell.content with
    | .text _ => { cell with content := .text content }
    | _ => cell

/-- The forest with the children of a tag set, and nothing done to their parent links. -/
def setChildren (f : Forest) (n : NodeId) (children : List NodeId) : Forest :=
  f.modify n fun cell => match cell.content with
    | .tag name attributes _ => { cell with content := .tag name attributes children }
    | _ => cell

def adopt (f : Forest) (parent : NodeId) (children : List NodeId) : Forest :=
  children.foldl (fun f child => f.setParent child (some parent)) f

/-- A new node without a parent. A new tag becomes the parent of its children. -/
def add (f : Forest) (content : Content) : NodeId × Forest :=
  let n := f.cells.size
  let f : Forest := ⟨f.cells.push ⟨content, none⟩⟩
  match content with
  | .tag _ _ children => (n, f.adopt n children)
  | _ => (n, f)

mutual
def plant (f : Forest) : Node → NodeId × Forest
  | .text content => f.add (.text content)
  | .void name attributes => f.add (.void name attributes)
  | .tag name attributes children =>
    let (children, f) := f.plantAll children
    f.add (.tag name attributes children)

def plantAll (f : Forest) : List Node → List NodeId × Forest
  | [] => ([], f)
  | node :: rest =>
    let (n, f) := f.plant node
    let (more, f) := f.plantAll rest
    (n :: more, f)
end

/-! ## Edits

An edit walks down a tree. The number of nodes bounds how deep it can go, so the recursion is given that much and no
more. -/

def replace (f : Forest) (old new : NodeId) : Except Fault Forest :=
  match f.parent? old with
  | none => .error .orphan
  | some parent =>
    match (f.children parent).idxOf? old with
    | none => .error .estranged
    | some i =>
      let f := f.setChildren parent ((f.children parent).set i new)
      .ok ((f.setParent new (some parent)).setParent old none)

/-- Merges a child into the children kept so far, the latest first: a text behind a text is absorbed by it. -/
def mergeChild (walk : NodeId → Forest → Forest) (kept : List NodeId × Forest) (child : NodeId) :
    List NodeId × Forest :=
  let f := if (kept.2.children? child).isSome then walk child kept.2 else kept.2
  match kept.1 with
  | last :: _ =>
    match f.text? last, f.text? child with
    | some before, some after => (kept.1, (f.setText last (before ++ after)).setParent child none)
    | _, _ => (child :: kept.1, f)
  | [] => ([child], f)

/-- Merges adjacent texts below a tag, for at most the given depth. -/
def mergeWithin : Nat → NodeId → Forest → Forest
  | 0, _, f => f
  | depth + 1, n, f =>
    let (kept, f) := (f.children n).foldl (mergeChild (mergeWithin depth)) ([], f)
    f.setChildren n kept.reverse

/-- Merges adjacent texts everywhere below a tag. -/
def mergeTexts (f : Forest) (n : NodeId) : Forest := mergeWithin f.cells.size n f

/-- Adds a child to the children kept so far, the latest first: an inline tag is left out and its children take its
place. -/
def flattenChild (walk : NodeId → Forest → Forest) (parent : NodeId) (kept : List NodeId × Forest)
    (child : NodeId) : List NodeId × Forest :=
  match kept.2.tagName? child with
  | none => (child :: kept.1, kept.2)
  | some name =>
    let f := walk child kept.2
    if name ∈ inlineNames then
      let released := f.children child
      (released.reverse ++ kept.1, (f.adopt parent released).setParent child none)
    else (child :: kept.1, f)

/-- Unwraps inline tags below a tag and merges adjacent texts, for at most the given depth. -/
def flattenWithin : Nat → NodeId → Forest → Forest
  | 0, _, f => f
  | depth + 1, n, f =>
    let (kept, f) := (f.children n).foldl (flattenChild (flattenWithin depth) n) ([], f)
    (f.setChildren n kept.reverse).mergeTexts n

/-- Unwraps inline tags everywhere below a tag, then merges adjacent texts. -/
def flattenInline (f : Forest) (n : NodeId) : Forest := flattenWithin f.cells.size n f

/-! ## Views -/

/-- The tree below a node, for at most the given depth. A tree with a bare node has none. -/
def treeWithin (f : Forest) : Nat → NodeId → Option Node
  | 0, _ => none
  | depth + 1, n =>
    match f.content? n with
    | some (.text content) => some (.text content)
    | some (.void name attributes) => some (.void name attributes)
    | some (.tag name attributes children) =>
      (children.mapM (f.treeWithin depth)).map fun nodes => .tag name attributes nodes
    | _ => none

def tree? (f : Forest) (n : NodeId) : Option Node := f.treeWithin f.cells.size n

def written (f : Forest) (n : NodeId) : Except Fault Text :=
  match f.tree? n with
  | some node => .ok node.written
  | none => .error .unwritable

def displayed (f : Forest) (n : NodeId) : Except Fault Text :=
  match f.tree? n with
  | some node => .ok node.displayed
  | none => .error .unwritable

/-- A tree that shows for each node whether its parent link agrees with where it is shown. -/
inductive Outline
  | node (linked : Bool) (content : Content) (children : List Outline)

/-- The outline below a node that is shown under the given parent, for at most the given depth. -/
def outlineWithin (f : Forest) : Nat → Option NodeId → NodeId → Outline
  | 0, _, _ => .node true .bare []
  | depth + 1, parent, n =>
    let linked := f.parent? n == parent
    .node linked ((f.content? n).getD .bare) ((f.children n).map (f.outlineWithin depth (some n)))

/-- The outline below a node that is shown under the given parent. -/
def outline (f : Forest) (parent : Option NodeId) (n : NodeId) : Outline := f.outlineWithin f.cells.size parent n

end Forest
end Descent.Markup
