import Descent.Proofs.Markup.Links

/-!
# New trees are linked

What each change of a forest does to children and parents, and what follows for nodes that are added. A tag over nodes
without parents is linked if they are, so a tree that is planted from the leaves up is linked, and so is everything that
was linked before.

Results:
1. `children_setParent`, `parent?_adopt` and their like: the changes one by one.
2. `add_linked`, `linked_add`: a new node, and the trees beside it.
3. `plantAll_planted`: whole forests.
-/

namespace Descent.Markup

/-- The children of a tag, and none for any other content. -/
def Content.children : Content → List NodeId
  | .tag _ _ children => children
  | _ => []

namespace Forest

variable {f : Forest} {n k x root : NodeId}

/-! ## 1. Changes one by one -/

theorem children_eq (f : Forest) (n : NodeId) : f.children n = ((f.content? n).map Content.children).getD [] := by
  unfold children children?
  cases f.content? n with
  | none => rfl
  | some content => cases content <;> rfl

theorem get?_modify (change : Cell → Cell) :
    (f.modify n change).get? x = if n = x then (f.get? x).map change else f.get? x :=
  Array.getElem?_modify

/-- A change of a cell that keeps its children keeps the children of every node. -/
theorem children_modify {change : Cell → Cell}
    (keeps : ∀ cell, (change cell).content.children = cell.content.children) :
    (f.modify n change).children x = f.children x := by
  rw [children_eq, children_eq, content?, content?, get?_modify]
  split
  · cases f.get? x with
    | none => rfl
    | some cell => exact keeps cell
  · rfl

/-- A change of a cell that keeps its parent keeps the parent of every node. -/
theorem parent?_modify {change : Cell → Cell} (keeps : ∀ cell, (change cell).parent = cell.parent) :
    (f.modify n change).parent? x = f.parent? x := by
  rw [parent?, parent?, get?_modify]
  split
  · cases f.get? x with
    | none => rfl
    | some cell => exact keeps cell
  · rfl

theorem children_setParent (p : Option NodeId) : (f.setParent n p).children x = f.children x :=
  children_modify fun _ => rfl

theorem parent?_setParent_of_ne {p : Option NodeId} (other : n ≠ x) : (f.setParent n p).parent? x = f.parent? x := by
  rw [parent?, setParent, get?_modify, if_neg other, parent?]

theorem parent?_setParent_self {p : Option NodeId} (inside : n < f.cells.size) : (f.setParent n p).parent? n = p := by
  rw [parent?, setParent, get?_modify, if_pos rfl, get?, Array.getElem?_eq_getElem inside]
  rfl

theorem children_setText (t : Text) : (f.setText n t).children x = f.children x :=
  children_modify fun ⟨content, _⟩ => by cases content <;> rfl

theorem parent?_setText (t : Text) : (f.setText n t).parent? x = f.parent? x :=
  parent?_modify fun ⟨content, _⟩ => by cases content <;> rfl

theorem parent?_setChildren (ks : List NodeId) : (f.setChildren n ks).parent? x = f.parent? x :=
  parent?_modify fun ⟨content, _⟩ => by cases content <;> rfl

theorem children_setChildren_of_ne {ks : List NodeId} (other : n ≠ x) :
    (f.setChildren n ks).children x = f.children x := by
  rw [children_eq, children_eq, content?, content?, setChildren, get?_modify, if_neg other]

/-- Only a tag takes children. -/
theorem children_setChildren_self (f : Forest) (n : NodeId) (ks : List NodeId) :
    (f.setChildren n ks).children n = ks ∨ (f.setChildren n ks).children n = [] ∧ f.children n = [] := by
  rw [children_eq, children_eq, content?, content?, setChildren, get?_modify, if_pos rfl]
  cases f.get? n with
  | none => exact .inr ⟨rfl, rfl⟩
  | some cell =>
    obtain ⟨content, p⟩ := cell
    cases content with
    | tag name attributes children => exact .inl rfl
    | _ => exact .inr ⟨rfl, rfl⟩

theorem mem_of_mem_setChildren {ks : List NodeId} (mem : k ∈ (f.setChildren n ks).children n) : k ∈ ks := by
  rcases children_setChildren_self f n ks with children | ⟨leaf, -⟩
  · rwa [children] at mem
  · rw [leaf] at mem
    cases mem

theorem size_setParent (f : Forest) (n : NodeId) (p : Option NodeId) :
    (f.setParent n p).cells.size = f.cells.size := Array.size_modify

theorem size_setChildren (f : Forest) (n : NodeId) (ks : List NodeId) :
    (f.setChildren n ks).cells.size = f.cells.size := Array.size_modify

theorem size_adopt (f : Forest) (n : NodeId) (ks : List NodeId) : (f.adopt n ks).cells.size = f.cells.size := by
  induction ks generalizing f with
  | nil => rfl
  | cons k ks ih => exact (ih _).trans (size_setParent f k _)

theorem children_adopt (f : Forest) (n : NodeId) (ks : List NodeId) (x : NodeId) :
    (f.adopt n ks).children x = f.children x := by
  induction ks generalizing f with
  | nil => rfl
  | cons k ks ih => exact (ih _).trans (children_setParent _)

theorem get?_adopt_of_notMem {ks : List NodeId} (other : x ∉ ks) : (f.adopt n ks).get? x = f.get? x := by
  induction ks generalizing f with
  | nil => rfl
  | cons k ks ih =>
    obtain ⟨first, other⟩ := not_or.mp fun h => other (List.mem_cons.mpr h)
    refine (ih other).trans ?_
    exact (get?_modify _).trans (if_neg (Ne.symm first))

theorem parent?_adopt_of_mem {ks : List NodeId} (mem : x ∈ ks) (inside : x < f.cells.size) :
    (f.adopt n ks).parent? x = some n := by
  induction ks generalizing f with
  | nil => cases mem
  | cons k ks ih =>
    rcases List.mem_cons.mp mem with rfl | mem
    · by_cases again : x ∈ ks
      · exact ih again (by rwa [size_setParent])
      · show ((f.setParent x (some n)).adopt n ks).parent? x = some n
        rw [parent?, get?_adopt_of_notMem again]
        exact parent?_setParent_self inside
    · exact ih mem (by rwa [size_setParent])

theorem lt_size_of_parent {p : NodeId} (h : f.parent? n = some p) : n < f.cells.size := by
  unfold parent? get? at h
  refine Nat.lt_of_not_le fun beyond => ?_
  rw [Array.getElem?_eq_none beyond] at h
  cases h

/-! ## 2. Added nodes -/

theorem add_fst (f : Forest) (content : Content) : (f.add content).1 = f.cells.size := by
  cases content <;> rfl

theorem add_snd (f : Forest) (content : Content) :
    (f.add content).2 = (⟨f.cells.push ⟨content, none⟩⟩ : Forest).adopt f.cells.size content.children := by
  cases content <;> rfl

theorem size_add (f : Forest) (content : Content) : (f.add content).2.cells.size = f.cells.size + 1 := by
  rw [add_snd, size_adopt, Array.size_push]

theorem get?_push_of_ne {cell : Cell} (other : x ≠ f.cells.size) :
    (⟨f.cells.push cell⟩ : Forest).get? x = f.get? x := by
  rw [get?, Array.getElem?_push, if_neg other, get?]

theorem children_add_self (f : Forest) (content : Content) :
    (f.add content).2.children f.cells.size = content.children := by
  rw [add_snd, children_adopt, children_eq, content?, get?, Array.getElem?_push_size]
  rfl

theorem children_add_of_ne {content : Content} (other : x ≠ f.cells.size) :
    (f.add content).2.children x = f.children x := by
  rw [add_snd, children_adopt, children_eq, children_eq, content?, content?, get?_push_of_ne other]

theorem get?_add {content : Content} (other : x ≠ f.cells.size) (noChild : x ∉ content.children) :
    (f.add content).2.get? x = f.get? x := by
  rw [add_snd, get?_adopt_of_notMem noChild, get?_push_of_ne other]

theorem parent?_add_of_mem {content : Content} (mem : x ∈ content.children) (inside : x < f.cells.size) :
    (f.add content).2.parent? x = some f.cells.size := by
  rw [add_snd]
  refine parent?_adopt_of_mem mem ?_
  rw [Array.size_push]
  exact Nat.lt_succ_of_lt inside

theorem parent?_add_self {content : Content} (inside : ∀ k ∈ content.children, k < f.cells.size) :
    (f.add content).2.parent? f.cells.size = none := by
  have new : f.cells.size ∉ content.children := fun mem => Nat.lt_irrefl _ (inside _ mem)
  rw [add_snd, parent?, get?_adopt_of_notMem new, get?, Array.getElem?_push_size]
  rfl

/-- In a linked tree of nodes that there are, all but the root have a parent. -/
theorem Linked.exists_parent (linked : f.Linked root) (h : f.Reaches root x) (other : x ≠ root) :
    ∃ p, f.Reaches root p ∧ f.parent? x = some p := by
  cases h with
  | here => exact absurd rfl other
  | child above mem => exact ⟨_, above, linked.parent _ above _ mem⟩

theorem Linked.lt_size (linked : f.Linked root) (inside : root < f.cells.size) (h : f.Reaches root x) :
    x < f.cells.size := by
  by_cases top : x = root
  · exact top ▸ inside
  · obtain ⟨p, -, parent⟩ := linked.exists_parent h top
    exact lt_size_of_parent parent

/-- Trees under different roots without parents have no node in common. -/
theorem Linked.apart {a b : NodeId} (ha : f.Linked a) (hb : f.Linked b) (freeA : f.parent? a = none)
    (freeB : f.parent? b = none) (other : a ≠ b) : f.Apart a b := by
  intro x left
  induction left with
  | here =>
    intro right
    obtain ⟨p, -, parent⟩ := hb.exists_parent right other
    cases freeA.symm.trans parent
  | @child x c above mem ih =>
    intro right
    have parent : f.parent? c = some x := ha.parent x above c mem
    by_cases top : c = b
    · cases freeB.symm.trans (top ▸ parent)
    · obtain ⟨p, above', parent'⟩ := hb.exists_parent right top
      obtain rfl := Option.some.inj (parent.symm.trans parent')
      exact ih above'

/-- The children of a new node do not have parents yet. -/
def Free (f : Forest) (content : Content) : Prop :=
  ∀ k ∈ content.children, k < f.cells.size ∧ f.parent? k = none

/-- A new node leaves the linked trees beside it as they are, and takes others under it as they are. -/
theorem linked_add {content : Content} (free : f.Free content) (linked : f.Linked root)
    (inside : root < f.cells.size) : (f.add content).2.Linked root := by
  refine linked.congr (fun y hy => children_add_of_ne (Nat.ne_of_lt (linked.lt_size inside hy))) fun y hy below => ?_
  obtain ⟨p, -, parent⟩ := linked.exists_parent hy below
  have noChild : y ∉ content.children := fun mem => by cases (free y mem).2.symm.trans parent
  rw [parent?, get?_add (Nat.ne_of_lt (linked.lt_size inside hy)) noChild, parent?]

/-- A new node over linked trees is linked. -/
theorem add_linked {content : Content} (free : f.Free content) (linked : ∀ k ∈ content.children, f.Linked k)
    (distinct : content.children.Nodup) : (f.add content).2.Linked (f.add content).1 := by
  have reached : ∀ k ∈ content.children, ∀ x, (f.add content).2.Reaches k x ↔ f.Reaches k x := fun k mem x =>
    reaches_congr fun y hy => children_add_of_ne (Nat.ne_of_lt ((linked k mem).lt_size (free k mem).1 hy))
  rw [add_fst, linked_iff_grove, children_add_self]
  refine ⟨fun k mem => parent?_add_of_mem mem (free k mem).1,
    fun k mem => linked_add free (linked k mem) (free k mem).1, ?_, fun k mem above => ?_⟩
  · refine distinct.imp_of_mem fun memA memB other x left right => ?_
    have apart := (linked _ memA).apart (linked _ memB) (free _ memA).2 (free _ memB).2 other
    exact apart x ((reached _ memA x).mp left) ((reached _ memB x).mp right)
  · have inside := (linked k mem).lt_size (free k mem).1 ((reached k mem _).mp above)
    exact Nat.lt_irrefl _ inside

/-! ## 3. Planted forests -/

/-- What planting does: the nodes that there were stay as they are, and the new roots are those of linked trees. -/
structure Planted (f g : Forest) (roots : List NodeId) : Prop where
  old : ∀ x < f.cells.size, g.get? x = f.get? x
  grows : f.cells.size ≤ g.cells.size
  new : ∀ n ∈ roots, f.cells.size ≤ n ∧ n < g.cells.size
  linked : ∀ n ∈ roots, g.Linked n
  free : ∀ n ∈ roots, g.parent? n = none
  distinct : roots.Nodup

/-- A linked tree stays as it is if nodes are only added. -/
theorem Linked.of_old {g : Forest} (linked : f.Linked root) (inside : root < f.cells.size)
    (old : ∀ x < f.cells.size, g.get? x = f.get? x) : g.Linked root := by
  refine linked.congr (fun y hy => ?_) fun y hy _ => ?_
  · rw [children_eq, children_eq, content?, content?, old y (linked.lt_size inside hy)]
  · rw [parent?, parent?, old y (linked.lt_size inside hy)]

/-- A node over a planted forest is planted. -/
theorem Planted.add {g : Forest} (content : Content) (planted : Planted f g content.children) :
    Planted f (g.add content).2 [(g.add content).1] := by
  have free : g.Free content := fun k mem => ⟨(planted.new k mem).2, planted.free k mem⟩
  have linked := add_linked free planted.linked planted.distinct
  have parent := parent?_add_self fun k mem => (free k mem).1
  rw [add_fst] at linked ⊢
  refine ⟨fun x hx => ?_, ?_, ?_, List.forall_mem_singleton.mpr linked, List.forall_mem_singleton.mpr parent,
    List.pairwise_singleton _ _⟩
  · have below : x < g.cells.size := Nat.lt_of_lt_of_le hx planted.grows
    have noChild : x ∉ content.children := fun mem => Nat.lt_irrefl _ (Nat.lt_of_lt_of_le hx (planted.new x mem).1)
    rw [get?_add (Nat.ne_of_lt below) noChild, planted.old x hx]
  · rw [size_add]
    exact Nat.le_succ_of_le planted.grows
  · refine List.forall_mem_singleton.mpr ⟨planted.grows, ?_⟩
    rw [size_add]
    exact Nat.lt_succ_self _

theorem Planted.nil (f : Forest) : Planted f f [] :=
  ⟨fun _ _ => rfl, Nat.le_refl _, List.forall_mem_nil _, List.forall_mem_nil _, List.forall_mem_nil _, List.nodup_nil⟩

/-- One tree is planted, and then others. -/
theorem Planted.cons {g h : Forest} {roots : List NodeId} (first : Planted f g [n]) (more : Planted g h roots) :
    Planted f h (n :: roots) := by
  obtain ⟨above, below⟩ := first.new n (List.mem_singleton_self n)
  have linked := first.linked n (List.mem_singleton_self n)
  have free := first.free n (List.mem_singleton_self n)
  refine ⟨fun x hx => ?_, Nat.le_trans first.grows more.grows, ?_, ?_, ?_, ?_⟩
  · rw [more.old x (Nat.lt_of_lt_of_le hx first.grows), first.old x hx]
  · refine List.forall_mem_cons.mpr ⟨⟨above, Nat.lt_of_lt_of_le below more.grows⟩, fun k mem => ?_⟩
    exact ⟨Nat.le_trans first.grows (more.new k mem).1, (more.new k mem).2⟩
  · exact List.forall_mem_cons.mpr ⟨linked.of_old below more.old, more.linked⟩
  · refine List.forall_mem_cons.mpr ⟨?_, more.free⟩
    rw [parent?, more.old n below]
    exact free
  · exact List.nodup_cons.mpr
      ⟨fun mem => Nat.lt_irrefl _ (Nat.lt_of_lt_of_le below (more.new n mem).1), more.distinct⟩

mutual
theorem plant_planted (f : Forest) (node : Node) : Planted f (f.plant node).2 [(f.plant node).1] := by
  cases node with
  | text content => exact (Planted.nil f).add (.text content)
  | void name attributes => exact (Planted.nil f).add (.void name attributes)
  | tag name attributes children =>
    exact (plantAll_planted f children).add (.tag name attributes (f.plantAll children).1)

theorem plantAll_planted (f : Forest) (nodes : List Node) : Planted f (f.plantAll nodes).2 (f.plantAll nodes).1 := by
  cases nodes with
  | nil => exact Planted.nil f
  | cons node rest => exact (plant_planted f node).cons (plantAll_planted (f.plant node).2 rest)
end

end Forest
end Descent.Markup
