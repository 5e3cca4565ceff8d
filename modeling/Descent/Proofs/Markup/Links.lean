import Descent.Markup.Forest

/-!
# Linked trees

A tree in a forest is linked if every child points back at the tag it is a child of and no node comes twice. A tree is
linked exactly if its children are the roots of linked trees of their own, point back at it, and have no node in common.
A change to the tree below one of its nodes is a change to the whole tree, which stays linked if the lower tree does.

Results:
1. `Linked.sub`, `Linked.eq_or_reaches`: trees inside a linked tree, and the way up from a node.
2. `linked_iff_grove`: a tree by the trees of its children.
3. `Linked.congr`: only the children and the parents of the nodes in a tree matter.
4. `Reworks.lift`: a change further down.
-/

namespace Descent.Markup.Forest

variable {f g : Forest} {root n m c x : NodeId}

/-! ## Ways down -/

/-- A way from `root` down to `n`: the positions of the children that it takes, the last one first. -/
inductive Leads (f : Forest) (root : NodeId) : List Nat → NodeId → Prop
  | here : f.Leads root [] root
  | down {path : List Nat} {n c : NodeId} {i : Nat} :
      f.Leads root path n → (f.children n)[i]? = some c → f.Leads root (i :: path) c

/-- `n` is in the tree of `root`. -/
inductive Reaches (f : Forest) (root : NodeId) : NodeId → Prop
  | here : f.Reaches root root
  | child {n c : NodeId} : f.Reaches root n → c ∈ f.children n → f.Reaches root c

/-- Every child points back at the tag it is a child of, and there is only one way to every node. -/
structure Linked (f : Forest) (root : NodeId) : Prop where
  parent : ∀ n, f.Reaches root n → ∀ c ∈ f.children n, f.parent? c = some n
  once : ∀ n p q, f.Leads root p n → f.Leads root q n → p = q

/-- Two trees have no node in common. -/
def Apart (f : Forest) (a b : NodeId) : Prop := ∀ x, f.Reaches a x → ¬ f.Reaches b x

/-- Linked trees without common nodes whose roots all point at `n`, which is in none of them. -/
structure Grove (f : Forest) (n : NodeId) (roots : List NodeId) : Prop where
  parent : ∀ k ∈ roots, f.parent? k = some n
  linked : ∀ k ∈ roots, f.Linked k
  apart : roots.Pairwise f.Apart
  above : ∀ k ∈ roots, ¬ f.Reaches k n

/-- A change from `f` to `g` that keeps to the tree of `n`: it leaves a linked tree there, takes no new nodes into it,
and changes nothing outside. -/
structure Reworks (f g : Forest) (n : NodeId) : Prop where
  linked : g.Linked n
  within : ∀ x, g.Reaches n x → f.Reaches n x
  children : ∀ x, ¬ f.Reaches n x → g.children x = f.children x
  parent : ∀ x, ¬ f.Reaches n x → g.parent? x = f.parent? x
  top : g.parent? n = f.parent? n

theorem Leads.reaches {path : List Nat} (way : f.Leads root path n) : f.Reaches root n := by
  induction way with
  | here => exact .here
  | down _ child ih => exact .child ih (List.mem_of_getElem? child)

theorem Reaches.exists_way (h : f.Reaches root n) : ∃ path, f.Leads root path n := by
  induction h with
  | here => exact ⟨[], .here⟩
  | child _ mem ih =>
    obtain ⟨path, way⟩ := ih
    obtain ⟨i, child⟩ := List.getElem?_of_mem mem
    exact ⟨i :: path, .down way child⟩

theorem Leads.append {p q : List Nat} (first : f.Leads root q n) (second : f.Leads n p x) :
    f.Leads root (p ++ q) x := by
  induction second with
  | here => exact first
  | down _ child ih => exact .down ih child

theorem Reaches.trans (first : f.Reaches root n) (second : f.Reaches n x) : f.Reaches root x := by
  induction second with
  | here => exact first
  | child _ mem ih => exact .child ih mem

/-- A node in a tree is its root or in the tree of one of the children. -/
theorem Reaches.eq_or_child (h : f.Reaches n x) : x = n ∨ ∃ k ∈ f.children n, f.Reaches k x := by
  induction h with
  | here => exact .inl rfl
  | child _ mem ih =>
    rcases ih with rfl | ⟨k, hk, below⟩
    · exact .inr ⟨_, mem, .here⟩
    · exact .inr ⟨k, hk, .child below mem⟩

/-! ## 1. Inside a linked tree -/

theorem Linked.sub (linked : f.Linked root) (h : f.Reaches root n) : f.Linked n where
  parent x hx := linked.parent x (h.trans hx)
  once x p q hp hq := by
    obtain ⟨path, way⟩ := h.exists_way
    exact List.append_cancel_right (linked.once x _ _ (way.append hp) (way.append hq))

/-- No child reaches up to its parent. -/
theorem Linked.not_reaches_up (linked : f.Linked root) (h : f.Reaches root n) (mem : c ∈ f.children n) :
    ¬ f.Reaches c n := by
  intro up
  obtain ⟨path, way⟩ := h.exists_way
  obtain ⟨i, child⟩ := List.getElem?_of_mem mem
  obtain ⟨p, around⟩ := up.exists_way
  have same := linked.once n _ _ way ((Leads.down way child).append around)
  have lengths := congrArg List.length same
  rw [List.length_append, List.length_cons] at lengths
  omega

theorem Linked.antisymm (linked : f.Linked root) (h : f.Reaches root n) (down : f.Reaches n m) (up : f.Reaches m n) :
    m = n := by
  rcases down.eq_or_child with same | ⟨k, mem, below⟩
  · exact same
  · exact absurd (below.trans up) (linked.not_reaches_up h mem)

/-- On the way up from a child that is in the tree of `n`: it is `n` itself, or its parent is in that tree too. -/
theorem Linked.eq_or_reaches (linked : f.Linked root) (hn : f.Reaches root n) (hx : f.Reaches root x)
    (mem : c ∈ f.children x) (h : f.Reaches n c) : c = n ∨ f.Reaches n x := by
  cases h with
  | here => exact .inl rfl
  | @child y _ hy mem' =>
    have parents := (linked.parent y (hn.trans hy) c mem').symm.trans (linked.parent x hx c mem)
    exact .inr (Option.some.inj parents ▸ hy)

/-! ## 2. A tree by the trees of its children -/

theorem Grove.of_linked (linked : f.Linked n) : f.Grove n (f.children n) where
  parent := linked.parent n .here
  linked k mem := linked.sub (.child .here mem)
  apart := by
    refine List.pairwise_iff_getElem.mpr fun i j hi hj less x left right => ?_
    obtain ⟨p, left⟩ := left.exists_way
    obtain ⟨q, right⟩ := right.exists_way
    have same := linked.once x _ _ ((Leads.down .here (List.getElem?_eq_getElem hi)).append left)
      ((Leads.down .here (List.getElem?_eq_getElem hj)).append right)
    have last := (List.append_inj' same rfl).2
    rw [List.singleton_inj] at last
    omega
  above k mem := linked.not_reaches_up .here mem

theorem Grove.nodup {roots : List NodeId} (grove : f.Grove n roots) : roots.Nodup := by
  refine grove.apart.imp ?_
  rintro a _ apart rfl
  exact apart a .here .here

theorem Linked.nodup (linked : f.Linked root) (h : f.Reaches root n) : (f.children n).Nodup :=
  (Grove.of_linked (linked.sub h)).nodup

/-- Whether there is one way only can be seen at each tag: no child comes twice, and the root is not a child. -/
theorem Linked.of_children (parent : ∀ n, f.Reaches root n → ∀ c ∈ f.children n, f.parent? c = some n)
    (nodup : ∀ n, f.Reaches root n → (f.children n).Nodup) (top : ∀ n, f.Reaches root n → root ∉ f.children n) :
    f.Linked root where
  parent := parent
  once n p q hp hq := by
    -- The way is followed upwards, from the node to the root.
    induction hp generalizing q with
    | here =>
      cases hq with
      | here => rfl
      | down way child => exact absurd (List.mem_of_getElem? child) (top _ way.reaches)
    | @down p y c i way child ih =>
      cases hq with
      | here => exact absurd (List.mem_of_getElem? child) (top _ way.reaches)
      | @down q y' _ j way' child' =>
        have parents := (parent y way.reaches c (List.mem_of_getElem? child)).symm.trans
          (parent y' way'.reaches c (List.mem_of_getElem? child'))
        obtain rfl := Option.some.inj parents
        have inside := (List.getElem?_eq_some_iff.mp child).1
        have positions : i = j := (List.getElem?_inj inside (nodup y way.reaches)).mp (child.trans child'.symm)
        rw [positions, ih q way']

theorem Grove.linked_of_children (grove : f.Grove n (f.children n)) : f.Linked n := by
  refine .of_children (fun x hx => ?_) (fun x hx => ?_) (fun x hx => ?_)
  · rcases hx.eq_or_child with rfl | ⟨k, mem, below⟩
    · exact grove.parent
    · exact (grove.linked k mem).parent x below
  · rcases hx.eq_or_child with rfl | ⟨k, mem, below⟩
    · exact grove.nodup
    · exact (grove.linked k mem).nodup below
  · intro up
    rcases hx.eq_or_child with rfl | ⟨k, mem, below⟩
    · exact grove.above x up .here
    · exact grove.above k mem (.child below up)

theorem linked_iff_grove : f.Linked n ↔ f.Grove n (f.children n) :=
  ⟨Grove.of_linked, Grove.linked_of_children⟩

theorem linked_of_leaf (leaf : f.children n = []) : f.Linked n :=
  linked_iff_grove.mpr (leaf ▸ ⟨List.forall_mem_nil _, List.forall_mem_nil _, .nil, List.forall_mem_nil _⟩)

theorem Grove.apart_of_split {done todo : List NodeId} (grove : f.Grove n (done ++ c :: todo)) :
    ∀ d ∈ done, f.Apart d c := by
  intro d mem
  exact (List.pairwise_append.mp grove.apart).2.2 d mem c (List.mem_cons_self ..)

/-! ## 3. What a tree depends on -/

/-- A tree whose nodes have the same children has the same ways down. -/
theorem leads_congr (same : ∀ y, f.Reaches root y → g.children y = f.children y) (path : List Nat) :
    g.Leads root path x ↔ f.Leads root path x := by
  constructor
  · intro way
    induction way with
    | here => exact .here
    | down _ child ih => exact .down ih (same _ ih.reaches ▸ child)
  · intro way
    induction way with
    | here => exact .here
    | down way child ih => exact .down ih ((same _ way.reaches).symm ▸ child)

theorem reaches_congr (same : ∀ y, f.Reaches root y → g.children y = f.children y) :
    g.Reaches root x ↔ f.Reaches root x := by
  constructor
  · intro h
    obtain ⟨path, way⟩ := h.exists_way
    exact ((leads_congr same path).mp way).reaches
  · intro h
    obtain ⟨path, way⟩ := h.exists_way
    exact ((leads_congr same path).mpr way).reaches

/-- Below the root, a linked tree is given by children and parents; where the root itself hangs does not matter. -/
theorem Linked.congr (linked : f.Linked root) (same : ∀ y, f.Reaches root y → g.children y = f.children y)
    (parents : ∀ y, f.Reaches root y → y ≠ root → g.parent? y = f.parent? y) : g.Linked root where
  parent n hn c mem := by
    have reached : f.Reaches root n := (reaches_congr same).mp hn
    rw [same n reached] at mem
    have below : c ≠ root := fun top => linked.not_reaches_up reached mem (top ▸ reached)
    rw [parents c (.child reached mem) below]
    exact linked.parent n reached c mem
  once n p q hp hq := linked.once n p q ((leads_congr same p).mp hp) ((leads_congr same q).mp hq)

/-! ## 4. Changes further down -/

theorem Reworks.refl (linked : f.Linked n) : Reworks f f n where
  linked := linked
  within _ h := h
  children _ _ := rfl
  parent _ _ := rfl
  top := rfl

theorem Reworks.trans {h : Forest} (first : Reworks f g n) (second : Reworks g h n) : Reworks f h n where
  linked := second.linked
  within x hx := first.within x (second.within x hx)
  children x outside :=
    (second.children x fun hx => outside (first.within x hx)).trans (first.children x outside)
  parent x outside := (second.parent x fun hx => outside (first.within x hx)).trans (first.parent x outside)
  top := second.top.trans first.top

/-- Whatever the change leaves in the tree of `root` was outside the tree of `n` before, or is in it now. -/
theorem Reworks.outside_or_inside (rework : Reworks f g n) (linked : f.Linked root) (hn : f.Reaches root n)
    (h : g.Reaches root x) : (f.Reaches root x ∧ ¬ f.Reaches n x) ∨ g.Reaches n x := by
  induction h with
  | here =>
    by_cases up : f.Reaches n root
    · obtain rfl := linked.antisymm .here hn up
      exact .inr .here
    · exact .inl ⟨.here, up⟩
  | @child x c _ mem ih =>
    rcases ih with ⟨reached, outside⟩ | inside
    · rw [rework.children x outside] at mem
      by_cases down : f.Reaches n c
      · rcases linked.eq_or_reaches hn reached mem down with rfl | up
        · exact .inr .here
        · exact absurd up outside
      · exact .inl ⟨.child reached mem, down⟩
    · exact .inr (.child inside mem)

/-- A change to a tree inside a linked tree leaves the larger tree linked. -/
theorem Reworks.lift (rework : Reworks f g n) (linked : f.Linked root) (hn : f.Reaches root n) :
    Reworks f g root where
  linked := by
    refine .of_children (fun x hx c mem => ?_) (fun x hx => ?_) (fun x hx mem => ?_)
    · rcases rework.outside_or_inside linked hn hx with ⟨reached, outside⟩ | inside
      · rw [rework.children x outside] at mem
        rw [← linked.parent x reached c mem]
        by_cases down : f.Reaches n c
        · rcases linked.eq_or_reaches hn reached mem down with rfl | up
          · exact rework.top
          · exact absurd up outside
        · exact rework.parent c down
      · exact rework.linked.parent x inside c mem
    · rcases rework.outside_or_inside linked hn hx with ⟨reached, outside⟩ | inside
      · exact rework.children x outside ▸ linked.nodup reached
      · exact rework.linked.nodup inside
    · rcases rework.outside_or_inside linked hn hx with ⟨reached, outside⟩ | inside
      · exact linked.not_reaches_up reached (rework.children x outside ▸ mem) reached
      · -- Then the root was in the tree of `n`, so `n` is the root.
        obtain rfl := linked.antisymm .here hn (rework.within root (.child inside mem))
        exact rework.linked.not_reaches_up inside mem inside
  within x hx := by
    rcases rework.outside_or_inside linked hn hx with ⟨reached, -⟩ | inside
    · exact reached
    · exact hn.trans (rework.within x inside)
  children x outside := rework.children x fun hx => outside (hn.trans hx)
  parent x outside := rework.parent x fun hx => outside (hn.trans hx)
  top := by
    by_cases up : f.Reaches n root
    · obtain rfl := linked.antisymm .here hn up
      exact rework.top
    · exact rework.parent root up

end Descent.Markup.Forest
