import Descent.Proofs.Markup.Planting
import Mathlib.Data.List.Perm.Subperm

/-!
# Trees of identified nodes

A forest holds a tree if every node of the tree is in it, with its content and with its children in order. Parent links
do not matter for that. The identities tell nodes apart that look the same, so that a tree says which nodes an edit has
kept, and where.

Results:
1. `mem_subtrees_trans`, `ids_eq`: the trees inside a tree, and its nodes.
2. `Holds.of_content`, `Holds.exists_subtree`, `written_of_holds`: what a held tree depends on, which nodes are reached
   in it, and how it is written.
3. `exists_trees_of_plantAll`: a planted forest holds what was planted.
-/

namespace Descent.Markup

open scoped List

/-- A markup tree with an identity for each node. -/
inductive Tree
  | text (root : NodeId) (content : Text)
  | void (root : NodeId) (name : Text) (attributes : List Attribute)
  | tag (root : NodeId) (name : Text) (attributes : List Attribute) (children : List Tree)

namespace Tree

def root : Tree → NodeId
  | text root _ => root
  | void root _ _ => root
  | tag root _ _ _ => root

def children : Tree → List Tree
  | tag _ _ _ children => children
  | _ => []

def isText : Tree → Bool
  | text _ _ => true
  | _ => false

/-- The name of a tag, void tags excluded. -/
def tagName? : Tree → Option Text
  | tag _ name _ _ => some name
  | _ => none

/-- What the root is in a forest. -/
def content : Tree → Content
  | text _ content => .text content
  | void _ name attributes => .void name attributes
  | tag _ name attributes children => .tag name attributes (children.map root)

mutual
/-- The tree and all trees inside it, in document order. -/
def subtrees : Tree → List Tree
  | tag root name attributes children => tag root name attributes children :: subtreesAll children
  | leaf => [leaf]

def subtreesAll : List Tree → List Tree
  | [] => []
  | t :: ts => subtrees t ++ subtreesAll ts
end

/-- The nodes of the tree in document order. -/
def ids (t : Tree) : List NodeId := t.subtrees.map root

def idsAll (ts : List Tree) : List NodeId := (subtreesAll ts).map root

mutual
/-- The tree without identities. -/
def node : Tree → Node
  | text _ content => .text content
  | void _ name attributes => .void name attributes
  | tag _ name attributes children => .tag name attributes (nodeAll children)

def nodeAll : List Tree → List Node
  | [] => []
  | t :: ts => node t :: nodeAll ts
end

mutual
/-- Every tree has a property that a tag has if its children have it. -/
@[elab_as_elim, induction_eliminator]
theorem induct {P : Tree → Prop} (text : ∀ root content, P (text root content))
    (void : ∀ root name attributes, P (void root name attributes))
    (tag : ∀ root name attributes children, (∀ t ∈ children, P t) → P (tag root name attributes children)) :
    ∀ t, P t
  | .text root content => text root content
  | .void root name attributes => void root name attributes
  | .tag root name attributes children => tag root name attributes children (induct_all text void tag children)

theorem induct_all {P : Tree → Prop} (text : ∀ root content, P (text root content))
    (void : ∀ root name attributes, P (void root name attributes))
    (tag : ∀ root name attributes children, (∀ t ∈ children, P t) → P (tag root name attributes children)) :
    ∀ ts : List Tree, ∀ t ∈ ts, P t
  | [] => List.forall_mem_nil _
  | t :: ts => List.forall_mem_cons.mpr ⟨induct text void tag t, induct_all text void tag ts⟩
end

/-! ## 1. The trees inside a tree -/

variable {t u v : Tree} {ts us : List Tree}

@[simp] theorem subtreesAll_nil : subtreesAll [] = [] := rfl

@[simp] theorem subtreesAll_cons : subtreesAll (t :: ts) = t.subtrees ++ subtreesAll ts := rfl

theorem subtreesAll_singleton : subtreesAll [t] = t.subtrees := List.append_nil _

theorem subtreesAll_append : subtreesAll (ts ++ us) = subtreesAll ts ++ subtreesAll us := by
  induction ts with
  | nil => rfl
  | cons t ts ih => rw [List.cons_append, subtreesAll_cons, ih, subtreesAll_cons, List.append_assoc]

theorem subtrees_eq (t : Tree) : t.subtrees = t :: subtreesAll t.children := by
  cases t <;> rfl

theorem exists_tag (isTag : t.tagName?.isSome) :
    ∃ n name attributes children, t = tag n name attributes children := by
  cases t with
  | text n content => cases isTag
  | void n name attributes => cases isTag
  | tag n name attributes children => exact ⟨n, name, attributes, children, rfl⟩

theorem mem_subtrees_self (t : Tree) : t ∈ t.subtrees := by
  rw [subtrees_eq]
  exact List.mem_cons_self ..

theorem mem_subtreesAll : u ∈ subtreesAll ts ↔ ∃ t ∈ ts, u ∈ t.subtrees := by
  induction ts with
  | nil => simp
  | cons t ts ih => simp [ih]

theorem mem_subtrees_of_child (mem : u ∈ t.children) : u ∈ t.subtrees := by
  rw [subtrees_eq]
  exact List.mem_cons_of_mem _ (mem_subtreesAll.mpr ⟨u, mem, u.mem_subtrees_self⟩)

theorem mem_subtrees_trans (inside : u ∈ t.subtrees) (below : v ∈ u.subtrees) : v ∈ t.subtrees := by
  induction t with
  | text root content => rwa [List.mem_singleton.mp inside] at below
  | void root name attributes => rwa [List.mem_singleton.mp inside] at below
  | tag root name attributes children ih =>
    rcases List.mem_cons.mp inside with rfl | deeper
    · exact below
    · obtain ⟨c, mem, inside⟩ := mem_subtreesAll.mp deeper
      exact List.mem_cons_of_mem _ (mem_subtreesAll.mpr ⟨c, mem, ih c mem inside⟩)

@[simp] theorem idsAll_nil : idsAll [] = [] := rfl

@[simp] theorem idsAll_cons : idsAll (t :: ts) = t.ids ++ idsAll ts := List.map_append

theorem idsAll_singleton : idsAll [t] = t.ids := congrArg (List.map root) subtreesAll_singleton

theorem idsAll_append : idsAll (ts ++ us) = idsAll ts ++ idsAll us := by
  rw [idsAll, subtreesAll_append, List.map_append, idsAll, idsAll]

theorem ids_eq (t : Tree) : t.ids = t.root :: idsAll t.children := by
  rw [ids, subtrees_eq, List.map_cons, idsAll]

theorem ids_tag (n : NodeId) (name : Text) (attributes : List Attribute) (ts : List Tree) :
    (tag n name attributes ts).ids = n :: idsAll ts :=
  rfl

theorem idsAll_children_sublist (t : Tree) : idsAll t.children <+ t.ids := by
  rw [ids_eq]
  exact List.sublist_cons_self ..

theorem length_ids_le (mem : t ∈ ts) : t.ids.length ≤ (idsAll ts).length := by
  obtain ⟨before, behind, rfl⟩ := List.append_of_mem mem
  rw [idsAll_append, idsAll_cons, List.length_append, List.length_append]
  omega

theorem nodup_of_mem (mem : t ∈ ts) (distinct : (idsAll ts).Nodup) : t.ids.Nodup := by
  obtain ⟨before, behind, rfl⟩ := List.append_of_mem mem
  rw [idsAll_append, idsAll_cons] at distinct
  exact (distinct.sublist (List.sublist_append_right ..)).sublist (List.sublist_append_left ..)

end Tree

/-! ## 2. Trees in a forest -/

namespace Forest

open Markup.Tree

/-- All nodes of the tree are in the forest, with the contents that they have in the tree. -/
def Holds (f : Forest) (t : Tree) : Prop := ∀ u ∈ t.subtrees, f.content? u.root = some u.content

def HoldsAll (f : Forest) (ts : List Tree) : Prop := ∀ u ∈ subtreesAll ts, f.content? u.root = some u.content

instance (f : Forest) (t : Tree) : Decidable (f.Holds t) :=
  inferInstanceAs (Decidable (∀ u ∈ t.subtrees, f.content? u.root = some u.content))

variable {f g : Forest} {t u : Tree} {ts us : List Tree} {n x : NodeId}

theorem holdsAll_append : f.HoldsAll (ts ++ us) ↔ f.HoldsAll ts ∧ f.HoldsAll us := by
  rw [HoldsAll, subtreesAll_append, List.forall_mem_append, HoldsAll, HoldsAll]

theorem holdsAll_singleton : f.HoldsAll [t] ↔ f.Holds t := by
  rw [HoldsAll, subtreesAll_singleton, Holds]

theorem holdsAll_cons : f.HoldsAll (t :: ts) ↔ f.Holds t ∧ f.HoldsAll ts := List.forall_mem_append

theorem holdsAll_iff : f.HoldsAll ts ↔ ∀ t ∈ ts, f.Holds t := by
  induction ts with
  | nil => exact ⟨fun _ => List.forall_mem_nil _, fun _ => List.forall_mem_nil _⟩
  | cons t ts ih => rw [holdsAll_cons, ih, List.forall_mem_cons]

theorem holds_iff : f.Holds t ↔ f.content? t.root = some t.content ∧ f.HoldsAll t.children := by
  rw [Holds, subtrees_eq, List.forall_mem_cons, HoldsAll]

theorem Holds.root (held : f.Holds t) : f.content? t.root = some t.content := held t t.mem_subtrees_self

theorem Holds.children (held : f.Holds t) : f.children t.root = t.children.map Tree.root := by
  rw [children_eq, held.root]
  cases t <;> rfl

theorem text?_of_holds {content : Text} (held : f.Holds (.text n content)) : f.text? n = some content := by
  have there : f.content? n = some (.text content) := held.root
  rw [text?, there]

theorem Holds.isSome_text? (held : f.Holds t) : (f.text? t.root).isSome = t.isText := by
  rw [text?, held.root]
  cases t <;> rfl

theorem Holds.tagName? (held : f.Holds t) : f.tagName? t.root = t.tagName? := by
  rw [Forest.tagName?, held.root]
  cases t <;> rfl

theorem Holds.isSome_children? (held : f.Holds t) : (f.children? t.root).isSome = t.tagName?.isSome := by
  rw [children?, held.root]
  cases t <;> rfl

theorem Holds.sub (held : f.Holds t) (inside : u ∈ t.subtrees) : f.Holds u := fun _ below =>
  held _ (mem_subtrees_trans inside below)

/-- Only what the nodes of the trees are matters. -/
theorem HoldsAll.of_content (held : f.HoldsAll ts) (same : ∀ x ∈ idsAll ts, g.content? x = f.content? x) :
    g.HoldsAll ts := fun u inside => by
  rw [same u.root (List.mem_map_of_mem inside), held u inside]

theorem Holds.of_content (held : f.Holds t) (same : ∀ x ∈ t.ids, g.content? x = f.content? x) : g.Holds t :=
  fun u inside => by rw [same u.root (List.mem_map_of_mem inside), held u inside]

theorem content?_congr (same : g.get? x = f.get? x) : g.content? x = f.content? x := congrArg (Option.map _) same

theorem lt_size_of_content {content : Content} (there : f.content? x = some content) : x < f.cells.size := by
  refine Nat.lt_of_not_le fun beyond => ?_
  rw [content?, get?, Array.getElem?_eq_none beyond] at there
  cases there

theorem HoldsAll.lt_size (held : f.HoldsAll ts) (mem : x ∈ idsAll ts) : x < f.cells.size := by
  obtain ⟨u, inside, rfl⟩ := List.mem_map.mp mem
  exact lt_size_of_content (held u inside)

/-- A forest has at least as many nodes as a tree of distinct nodes that it holds. -/
theorem Holds.length_ids_le (held : f.Holds t) (distinct : t.ids.Nodup) : t.ids.length ≤ f.cells.size := by
  have inside : t.ids ⊆ List.range f.cells.size := fun x mem => by
    rw [← idsAll_singleton] at mem
    exact List.mem_range.mpr ((holdsAll_singleton.mpr held).lt_size mem)
  simpa using (List.subperm_of_subset distinct inside).length_le

/-- What is reached from the root is a tree inside the tree. -/
theorem Holds.exists_subtree (held : f.Holds t) (h : f.Reaches t.root x) : ∃ u ∈ t.subtrees, u.root = x := by
  induction h with
  | here => exact ⟨t, t.mem_subtrees_self, rfl⟩
  | child _ mem ih =>
    obtain ⟨u, inside, rfl⟩ := ih
    rw [(held.sub inside).children] at mem
    obtain ⟨c, child, rfl⟩ := List.mem_map.mp mem
    exact ⟨c, mem_subtrees_trans inside (mem_subtrees_of_child child), rfl⟩

/-! ### Changes -/

theorem get?_modify_of_ne {change : Cell → Cell} (other : x ≠ n) : (f.modify n change).get? x = f.get? x := by
  rw [get?_modify, if_neg (Ne.symm other)]

theorem content?_modify_self {change : Cell → Cell} {content content' : Content}
    (there : f.content? n = some content) (changed : ∀ parent, (change ⟨content, parent⟩).content = content') :
    (f.modify n change).content? n = some content' := by
  obtain ⟨cell, get, rfl⟩ := Option.map_eq_some_iff.mp there
  rw [content?, get?_modify, if_pos rfl, get]
  exact congrArg some (changed cell.parent)

/-- A change that leaves the node as it is leaves the forest as it is. -/
theorem modify_eq_self {change : Cell → Cell} (same : ∀ cell, f.get? n = some cell → change cell = cell) :
    f.modify n change = f := by
  obtain ⟨cells⟩ := f
  refine congrArg Forest.mk (Array.ext_getElem? fun i => ?_)
  rw [Array.getElem?_modify]
  split
  · next at_node =>
    subst at_node
    cases get : cells[n]? with
    | none => rfl
    | some cell => exact congrArg some (same cell get)
  · rfl

theorem setChildren_children (f : Forest) (n : NodeId) : f.setChildren n (f.children n) = f := by
  refine modify_eq_self fun cell get => ?_
  obtain ⟨content, parent⟩ := cell
  have children : f.children n = content.children := by rw [children_eq, content?, get]; rfl
  rw [children]
  cases content <;> rfl

theorem content?_setText_self {a b : Text} (there : f.content? n = some (.text a)) :
    (f.setText n b).content? n = some (.text b) :=
  content?_modify_self there fun _ => rfl

theorem content?_setChildren_self {name : Text} {attributes : List Attribute} {ks ks' : List NodeId}
    (there : f.content? n = some (.tag name attributes ks)) :
    (f.setChildren n ks').content? n = some (.tag name attributes ks') :=
  content?_modify_self there fun _ => rfl

theorem content?_setParent (f : Forest) (n : NodeId) (p : Option NodeId) :
    (f.setParent n p).content? x = f.content? x := by
  rw [content?, content?, setParent, get?_modify]
  split
  · rw [Option.map_map]
    rfl
  · rfl

/-! ### Views -/

theorem mapM_eq_nodeAll {view : NodeId → Option Node} (viewed : ∀ t ∈ ts, view t.root = some t.node) :
    (ts.map Tree.root).mapM view = some (nodeAll ts) := by
  induction ts with
  | nil => rfl
  | cons t ts ih =>
    obtain ⟨first, others⟩ := List.forall_mem_cons.mp viewed
    rw [List.map_cons, List.mapM_cons, first, ih others]
    rfl

theorem treeWithin_of_holds {depth : Nat} (held : f.Holds t) (deep : t.ids.length ≤ depth) :
    f.treeWithin depth t.root = some t.node := by
  induction t generalizing depth with
  | text root content =>
    obtain ⟨depth, rfl⟩ := Nat.exists_eq_add_of_le' deep
    rw [ids_eq, List.length_cons, ← Nat.add_assoc, treeWithin, held.root]
    rfl
  | void root name attributes =>
    obtain ⟨depth, rfl⟩ := Nat.exists_eq_add_of_le' deep
    rw [ids_eq, List.length_cons, ← Nat.add_assoc, treeWithin, held.root]
    rfl
  | tag root name attributes children ih =>
    have below : f.HoldsAll children := (holds_iff.mp held).2
    obtain ⟨depth, rfl⟩ := Nat.exists_eq_add_of_le' deep
    rw [ids_eq, List.length_cons, ← Nat.add_assoc, treeWithin, held.root]
    have viewed : ∀ c ∈ children, f.treeWithin (depth + (idsAll children).length) c.root = some c.node :=
      fun c mem => ih c mem (holdsAll_iff.mp below c mem) (Nat.le_add_left_of_le (length_ids_le mem))
    exact congrArg (Option.map _) (mapM_eq_nodeAll viewed)

/-- The tree of distinct nodes below a node is what the forest holds there. -/
theorem tree?_of_holds (held : f.Holds t) (distinct : t.ids.Nodup) : f.tree? t.root = some t.node :=
  treeWithin_of_holds held (held.length_ids_le distinct)

theorem written_of_holds (held : f.Holds t) (distinct : t.ids.Nodup) : f.written t.root = .ok t.node.written := by
  rw [written, tree?_of_holds held distinct]

/-! ## 3. Planted trees -/

theorem content?_adopt (f : Forest) (ks : List NodeId) : (f.adopt n ks).content? x = f.content? x := by
  induction ks generalizing f with
  | nil => rfl
  | cons k ks ih => exact (ih _).trans (content?_setParent f k _)

theorem content?_add_self (f : Forest) (content : Content) :
    (f.add content).2.content? f.cells.size = some content := by
  rw [add_snd, content?_adopt, content?, get?, Array.getElem?_push_size]
  rfl

theorem content?_add_of_ne {content : Content} (other : x ≠ f.cells.size) :
    (f.add content).2.content? x = f.content? x := by
  rw [add_snd, content?_adopt, content?_congr (get?_push_of_ne other)]

/-- A node over held trees makes a held tree. -/
theorem HoldsAll.add {content : Content} (held : f.HoldsAll ts) (at_root : u.root = (f.add content).1)
    (is_content : u.content = content) (children : u.children = ts) : (f.add content).2.Holds u := by
  rw [add_fst] at at_root
  refine holds_iff.mpr ⟨?_, ?_⟩
  · rw [at_root, content?_add_self, is_content]
  · rw [children]
    exact held.of_content fun x mem => content?_add_of_ne (Nat.ne_of_lt (held.lt_size mem))

mutual
theorem exists_tree_of_plant (f : Forest) (node : Node) :
    ∃ t, (f.plant node).2.Holds t ∧ t.root = (f.plant node).1 ∧ t.node = node := by
  cases node with
  | text content =>
    have none : f.HoldsAll [] := List.forall_mem_nil _
    exact ⟨.text (f.plant (.text content)).1 content, none.add rfl rfl rfl, rfl, rfl⟩
  | void name attributes =>
    have none : f.HoldsAll [] := List.forall_mem_nil _
    exact ⟨.void (f.plant (.void name attributes)).1 name attributes, none.add rfl rfl rfl, rfl, rfl⟩
  | tag name attributes children =>
    obtain ⟨ts, held, roots, nodes⟩ := exists_trees_of_plantAll f children
    refine ⟨.tag (f.plant (.tag name attributes children)).1 name attributes ts, ?_, rfl, ?_⟩
    · exact held.add rfl (by rw [Tree.content, roots]) rfl
    · rw [Tree.node, nodes]

/-- The trees of a planted forest are those that were planted. -/
theorem exists_trees_of_plantAll (f : Forest) (nodes : List Node) :
    ∃ ts, (f.plantAll nodes).2.HoldsAll ts ∧ ts.map root = (f.plantAll nodes).1 ∧ nodeAll ts = nodes := by
  cases nodes with
  | nil => exact ⟨[], List.forall_mem_nil _, rfl, rfl⟩
  | cons node rest =>
    obtain ⟨t, held, root, first⟩ := exists_tree_of_plant f node
    obtain ⟨ts, heldAll, roots, others⟩ := exists_trees_of_plantAll (f.plant node).2 rest
    have old := (plantAll_planted (f.plant node).2 rest).old
    have still : (f.plantAll (node :: rest)).2.Holds t := held.of_content fun x mem =>
      content?_congr (old x ((holdsAll_singleton.mpr held).lt_size (idsAll_singleton ▸ mem)))
    refine ⟨t :: ts, holdsAll_cons.mpr ⟨still, heldAll⟩, ?_, ?_⟩
    · rw [List.map_cons, root, roots]
      rfl
    · rw [nodeAll, first, others]
end

end Forest
end Descent.Markup
