import Mathlib.Data.List.Nodup
import Mathlib.Logic.Relation
import Descent.Proofs.Markup.Edits
import Descent.Proofs.Markup.RoundTrip

/-!
# Replacing a node

A replacement puts a node where another one stood. It does not take the new node away from where that one stood before,
and it leaves a node that replaces itself without a parent. So a tree stays linked exactly if the new node is another
one, brings a linked tree with it, and does not stand elsewhere in the tree; below the node that it replaces it may.

Results:
1. `exists_replaces`: what a replacement changes.
2. `linked_iff_of_replaces`: when it leaves a linked tree linked.
3. `edits_keep_links`: new trees are linked, and any number of edits leaves them linked.
-/

namespace Descent.Markup.Forest

variable {f g : Forest} {root n m p c x : NodeId} {before after : List NodeId}

/-! ## 1. What a replacement changes -/

/-- From `f` to `g`, the child `n` of `p` has been replaced by `m`. -/
structure Replaces (f g : Forest) (n m p : NodeId) (before after : List NodeId) : Prop where
  old : f.children p = before ++ n :: after
  new : g.children p = before ++ m :: after
  children : ∀ x, x ≠ p → g.children x = f.children x
  removed : g.parent? n = none
  placed : m ≠ n → g.parent? m = some p
  parent : ∀ x, x ≠ n → x ≠ m → g.parent? x = f.parent? x

theorem exists_replaces (linked : f.Linked root) (hn : f.Reaches root n) (notTop : n ≠ root)
    (inside : m < f.cells.size) :
    ∃ g p before after, f.replace n m = .ok g ∧ f.Reaches root p ∧ Replaces f g n m p before after := by
  cases hn with
  | here => exact absurd rfl notTop
  | @child p _ hp mem =>
    have parent : f.parent? n = some p := linked.parent p hp n mem
    cases found : (f.children p).idxOf? n with
    | none => exact absurd mem (List.idxOf?_eq_none_iff.mp found)
    | some i =>
      obtain ⟨hi, at_i, -⟩ := List.idxOf?_eq_some_iff.mp found
      have old : f.children p = (f.children p).take i ++ n :: (f.children p).drop (i + 1) := by
        rw [← at_i, List.getElem_cons_drop, List.take_append_drop]
      have set : (f.children p).set i m = (f.children p).take i ++ m :: (f.children p).drop (i + 1) := by
        rw [List.set_eq_take_append_cons_drop, if_pos hi]
      let put := ((f.setChildren p ((f.children p).set i m)).setParent m (some p)).setParent n none
      have done : f.replace n m = .ok put := by
        rw [replace, parent]
        simp only [found]
        rfl
      refine ⟨put, p, _, _, done, hp, old, ?_, fun x other => ?_, ?_, fun other => ?_, fun x notOld notNew => ?_⟩
      · rw [children_setParent, children_setParent, ← set]
        rcases children_setChildren_self f p ((f.children p).set i m) with children | ⟨-, leaf⟩
        · exact children
        · rw [leaf] at mem
          cases mem
      · rw [children_setParent, children_setParent, children_setChildren_of_ne (Ne.symm other)]
      · refine parent?_setParent_self ?_
        rw [size_setParent, size_setChildren]
        exact lt_size_of_parent parent
      · rw [parent?_setParent_of_ne (Ne.symm other)]
        refine parent?_setParent_self ?_
        rwa [size_setChildren]
      · rw [parent?_setParent_of_ne (Ne.symm notOld), parent?_setParent_of_ne (Ne.symm notNew), parent?_setChildren]

/-! ## 2. Linked trees after a replacement -/

section Replaced

variable (replaces : Replaces f g n m p before after)
include replaces

theorem Replaces.mem_old : c ∈ f.children p ↔ c = n ∨ c ∈ before ++ after := by
  rw [replaces.old, List.perm_middle.mem_iff, List.mem_cons]

theorem Replaces.mem_new : c ∈ g.children p ↔ c = m ∨ c ∈ before ++ after := by
  rw [replaces.new, List.perm_middle.mem_iff, List.mem_cons]

variable (linked : f.Linked root) (hp : f.Reaches root p)
include hp

theorem Replaces.reaches_old : f.Reaches root n := .child hp (replaces.mem_old.mpr (.inl rfl))

include linked

/-- The child that was replaced is not among the other children of its parent. -/
theorem Replaces.ne_of_mem (mem : c ∈ before ++ after) : c ≠ n := by
  have nodup := linked.nodup hp
  rw [replaces.old, List.nodup_middle, List.nodup_cons] at nodup
  rintro rfl
  exact nodup.1 mem

theorem Replaces.not_reaches_parent : ¬ f.Reaches n p := linked.not_reaches_up hp (replaces.mem_old.mpr (.inl rfl))

/-- A child from outside the tree of `n` is in it only if it is `n`, so its parent is `p`. -/
theorem Replaces.outside_child (hx : f.Reaches root x) (outside : ¬ f.Reaches n x) (mem : c ∈ f.children x)
    (other : x ≠ p ∨ c ≠ n) : ¬ f.Reaches n c := by
  intro down
  rcases linked.eq_or_reaches (replaces.reaches_old hp) hx mem down with rfl | up
  · have parents := (linked.parent x hx c mem).symm.trans (linked.parent p hp c (replaces.mem_old.mpr (.inl rfl)))
    exact other.elim (absurd (Option.some.inj parents)) (absurd rfl)
  · exact outside up

omit linked hp in
/-- What is outside the tree of `n` stays in the tree of the root. -/
theorem Replaces.still_reaches (hx : f.Reaches root x) (outside : ¬ f.Reaches n x) : g.Reaches root x := by
  induction hx with
  | here => exact .here
  | @child x c hx mem ih =>
    have above := ih fun up => outside (up.child mem)
    by_cases same : x = p
    · subst same
      rcases replaces.mem_old.mp mem with rfl | mem
      · exact absurd .here outside
      · exact above.child (replaces.mem_new.mpr (.inr mem))
    · exact above.child (replaces.children x same ▸ mem)

/-! ### What a linked tree requires -/

theorem Replaces.reaches_new : g.Reaches root p ∧ m ∈ g.children p :=
  ⟨replaces.still_reaches hp (replaces.not_reaches_parent linked hp), replaces.mem_new.mpr (.inl rfl)⟩

section Requires

variable (linked' : g.Linked root)
include linked'

theorem Replaces.other_of_linked : m ≠ n := by
  rintro rfl
  obtain ⟨hp', mem⟩ := replaces.reaches_new linked hp
  cases replaces.removed.symm.trans (linked'.parent p hp' m mem)

theorem Replaces.linked_new_of_linked : f.Linked m := by
  obtain ⟨hp', mem⟩ := replaces.reaches_new linked hp
  have new : g.Linked m := linked'.sub (hp'.child mem)
  refine new.congr (fun y hy => (replaces.children y ?_).symm) fun y hy below => (replaces.parent y ?_ below).symm
  · rintro rfl
    exact linked'.not_reaches_up hp' mem hy
  · rintro rfl
    obtain ⟨q, -, parent⟩ := new.exists_parent hy below
    cases replaces.removed.symm.trans parent

theorem Replaces.below_of_linked (notAbove : f.Reaches m n → m = n) (hm : f.Reaches root m) : f.Reaches n m := by
  obtain ⟨hp', mem⟩ := replaces.reaches_new linked hp
  have other := replaces.other_of_linked linked hp linked'
  by_contra outside
  cases hm with
  | here => exact other (notAbove (replaces.reaches_old hp))
  | @child q _ hq mem' =>
    -- The new node has been the child of another tag, or of this one, and still is.
    have outside' : ¬ f.Reaches n q := fun up => outside (up.child mem')
    by_cases same : q = p
    · subst same
      have nodup := linked'.nodup hp'
      rw [replaces.new, List.nodup_middle, List.nodup_cons] at nodup
      exact nodup.1 ((replaces.mem_old.mp mem').resolve_left other)
    · have still := replaces.still_reaches hq outside'
      have parents := (linked'.parent q still m (replaces.children q same ▸ mem')).symm.trans
        (linked'.parent p hp' m mem)
      exact same (Option.some.inj parents)

end Requires

/-! ### What a linked tree follows from -/

/-- Of the children outside the tree of `n` only the new node was not there before. -/
theorem Replaces.child_or_new (hx : f.Reaches root x) (outside : ¬ f.Reaches n x) (mem : c ∈ g.children x) :
    (x = p ∧ c = m) ∨ (c ∈ f.children x ∧ ¬ f.Reaches n c) := by
  by_cases same : x = p
  · subst same
    rcases replaces.mem_new.mp mem with rfl | mem
    · exact .inl ⟨rfl, rfl⟩
    · have old := replaces.mem_old.mpr (.inr mem)
      exact .inr ⟨old, replaces.outside_child linked hp hx outside old (.inr (replaces.ne_of_mem linked hp mem))⟩
  · rw [replaces.children x same] at mem
    exact .inr ⟨mem, replaces.outside_child linked hp hx outside mem (.inl same)⟩

section Follows

variable (notAbove : ¬ f.Reaches m n)
include notAbove

omit linked hp in
theorem Replaces.children_of_reaches (h : f.Reaches m x) : g.children x = f.children x := by
  refine replaces.children x ?_
  rintro rfl
  exact notAbove (h.child (replaces.mem_old.mpr (.inl rfl)))

/-- Outside the tree of `n` or in the tree of `m`: there is nothing else below the root afterwards. -/
theorem Replaces.outside_or_new (hx : g.Reaches root x) :
    (f.Reaches root x ∧ ¬ f.Reaches n x) ∨ g.Reaches m x := by
  induction hx with
  | here =>
    refine .inl ⟨.here, fun up => ?_⟩
    exact replaces.not_reaches_parent linked hp (up.trans hp)
  | @child x c _ mem ih =>
    rcases ih with ⟨hx, outside⟩ | inside
    · rcases replaces.child_or_new linked hp hx outside mem with ⟨-, rfl⟩ | ⟨mem, outside⟩
      · exact .inr .here
      · exact .inl ⟨hx.child mem, outside⟩
    · exact .inr (inside.child mem)

omit linked hp in
/-- The replacement does not touch the tree that the new node brings with it. -/
theorem Replaces.linked_new (new : f.Linked m) : g.Linked m := by
  refine new.congr (fun y hy => replaces.children_of_reaches notAbove hy) fun y hy lower => replaces.parent y ?_ lower
  rintro rfl
  exact notAbove hy

omit linked in
theorem Replaces.root_not_new : ¬ g.Reaches m root := by
  rw [reaches_congr fun y hy => replaces.children_of_reaches notAbove hy]
  exact fun h => notAbove (h.trans (replaces.reaches_old hp))

variable (below : f.Reaches root m → f.Reaches n m)
include below

omit linked hp notAbove in
/-- A child outside the tree of `n` is neither of the two nodes, so its parent is what it was. -/
theorem Replaces.parent_outside (hc : f.Reaches root c) (outside : ¬ f.Reaches n c) : g.parent? c = f.parent? c := by
  refine replaces.parent c ?_ ?_
  · rintro rfl
    exact outside .here
  · rintro rfl
    exact outside (below hc)

omit notAbove in
theorem Replaces.nodup_outside (other : m ≠ n) (hx : f.Reaches root x) (outside : ¬ f.Reaches n x) :
    (g.children x).Nodup := by
  by_cases same : x = p
  · subst same
    have nodup := linked.nodup hx
    rw [replaces.old, List.nodup_middle, List.nodup_cons] at nodup
    rw [replaces.new, List.nodup_middle, List.nodup_cons]
    refine ⟨fun mem => ?_, nodup.2⟩
    have old := replaces.mem_old.mpr (.inr mem)
    exact replaces.outside_child linked hp hx outside old (.inr other) (below (hx.child old))
  · rw [replaces.children x same]
    exact linked.nodup hx

theorem Replaces.linked_of (other : m ≠ n) (new : f.Linked m) : g.Linked root := by
  have new : g.Linked m := replaces.linked_new notAbove new
  -- The new tree is linked. Outside, a child is the new node, or it was there before and its parent is unchanged.
  refine .of_children (fun x hx c mem => ?_) (fun x hx => ?_) (fun x hx mem => ?_)
  · rcases replaces.outside_or_new linked hp notAbove hx with ⟨hx, outside⟩ | inside
    · rcases replaces.child_or_new linked hp hx outside mem with ⟨rfl, rfl⟩ | ⟨mem, outside⟩
      · exact replaces.placed other
      · rw [replaces.parent_outside below (hx.child mem) outside]
        exact linked.parent x hx c mem
    · exact new.parent x inside c mem
  · rcases replaces.outside_or_new linked hp notAbove hx with ⟨hx, outside⟩ | inside
    · exact replaces.nodup_outside linked hp below other hx outside
    · exact new.nodup inside
  · have notNew := replaces.root_not_new hp notAbove
    rcases replaces.outside_or_new linked hp notAbove hx with ⟨hx, outside⟩ | inside
    · rcases replaces.child_or_new linked hp hx outside mem with ⟨-, rfl⟩ | ⟨mem, -⟩
      · exact notNew .here
      · exact linked.not_reaches_up hx mem hx
    · exact notNew (inside.child mem)

end Follows

end Replaced

/-- A replacement by any node but one above the replaced one can be made. It leaves a linked tree linked exactly if the
new node is another one, brings a linked tree with it, and stands in the tree below the replaced one or not at all. -/
theorem replace_linked_iff (linked : f.Linked root) (hn : f.Reaches root n) (notTop : n ≠ root)
    (inside : m < f.cells.size) (notAbove : f.Reaches m n → m = n) :
    ∃ g, f.replace n m = .ok g ∧
      (g.Linked root ↔ m ≠ n ∧ f.Linked m ∧ (f.Reaches root m → f.Reaches n m)) := by
  obtain ⟨g, p, before, after, replaced, hp, replaces⟩ := exists_replaces linked hn notTop inside
  refine ⟨g, replaced, fun linked' => ?_, fun ⟨other, new, below⟩ => ?_⟩
  · exact ⟨replaces.other_of_linked linked hp linked', replaces.linked_new_of_linked linked hp linked',
      replaces.below_of_linked linked hp linked' notAbove⟩
  · exact replaces.linked_of linked hp (fun h => other (notAbove h)) below other new

/-! ## 3. Edits -/

/-- An edit of a forest that respects the tree of `root`. Nodes may be added, texts merged and inline tags unwrapped
below any node of the tree, and any of its nodes but the root replaced by another one that is not above it, brings a
linked tree with it, and stands in the tree below the replaced one or not at all. -/
inductive Edited (root : NodeId) : Forest → Forest → Prop
  | add {f : Forest} (content : Content) : f.Free content → Edited root f (f.add content).2
  | merge {f : Forest} {n : NodeId} : f.Reaches root n → Edited root f (f.mergeTexts n)
  | flatten {f : Forest} {n : NodeId} : f.Reaches root n → Edited root f (f.flattenInline n)
  | replace {f g : Forest} {n m : NodeId} :
      f.Reaches root n → n ≠ root → m < f.cells.size → m ≠ n → f.Linked m → ¬ f.Reaches m n →
      (f.Reaches root m → f.Reaches n m) → f.replace n m = .ok g → Edited root f g

/-- A node that is the root of a linked tree. -/
def LinkedRoot (f : Forest) (root : NodeId) : Prop := root < f.cells.size ∧ f.Linked root

theorem Edited.linked (edited : Edited root f g) (h : f.LinkedRoot root) : g.LinkedRoot root := by
  obtain ⟨inside, linked⟩ := h
  cases edited with
  | add content free => exact ⟨size_add f _ ▸ Nat.lt_succ_of_lt inside, linked_add free linked inside⟩
  | @merge n hn =>
    refine ⟨(size_mergeWithin _ n f).symm ▸ inside, ?_⟩
    exact ((mergeWithin_reworks _ f n (linked.sub hn)).lift linked hn).linked
  | @flatten n hn =>
    refine ⟨(size_flattenWithin _ n f).symm ▸ inside, ?_⟩
    exact ((flattenWithin_reworks _ f n (linked.sub hn)).lift linked hn).linked
  | @replace _ n m hn notTop inside' other new notAbove below replaced =>
    refine ⟨size_replace replaced ▸ inside, ?_⟩
    obtain ⟨g', replaced', iff⟩ := replace_linked_iff linked hn notTop inside' fun h => absurd h notAbove
    obtain rfl : g = g' := Except.ok.inj (replaced.symm.trans replaced')
    exact iff.mpr ⟨other, new, below⟩

theorem linked_of_edits (edits : Relation.ReflTransGen (Edited root) f g) (h : f.LinkedRoot root) :
    g.LinkedRoot root := by
  induction edits with
  | refl => exact h
  | tail _ edited ih => exact edited.linked ih

/-- A paragraph of two texts: nodes 0 and 1 below node 2. -/
def twoTexts : Forest := (empty.plant (.tag (Descent.text "p") [] [.text [0x78], .text [0x79]])).2

/-- A text that replaces itself stays where it is, but without a parent. A text that replaces its neighbour stands in
both places. -/
theorem replace_unlinks :
    twoTexts.Linked 2 ∧ twoTexts.Reaches 2 0 ∧ twoTexts.Reaches 2 1 ∧
    (∃ g, twoTexts.replace 0 0 = .ok g ∧ g.children 2 = [0, 1] ∧ g.parent? 0 = none ∧ ¬ g.Linked 2) ∧
    (∃ g, twoTexts.replace 0 1 = .ok g ∧ g.children 2 = [1, 1] ∧ ¬ g.Linked 2) := by
  have planted := plant_planted empty (.tag (Descent.text "p") [] [.text [0x78], .text [0x79]])
  refine ⟨planted.linked 2 (by decide), .child .here (by decide), .child .here (by decide),
    ⟨_, rfl, by decide, by decide, fun linked => ?_⟩, ⟨_, rfl, by decide, fun linked => ?_⟩⟩
  · exact absurd (linked.parent 2 .here 0 (by decide)) (by decide)
  · exact absurd (linked.nodup .here) (by decide)

/-- New trees are linked, and edits leave them linked, with one condition for replacements.

* Everything that is read is a forest of linked trees.
* A new node over different nodes without parents is linked if they are.
* Any number of edits that respect a linked tree leaves it linked.
* Whether a replacement respects it can be said exactly: of the nodes that are not above the replaced one, those may
  take its place that are other nodes, bring a linked tree with them, and do not stand in the tree unless below the
  replaced node. Every other one leaves a tree that is not linked. -/
theorem edits_keep_links (f : Forest) :
    (∀ limits input v, (read limits input).value = .ok v →
      ∃ nodes, v = .list (nodes.map .node) ∧
        ∀ n ∈ (f.plantAll nodes).1, (f.plantAll nodes).2.LinkedRoot n) ∧
    (∀ content, f.Free content → content.children.Nodup → (∀ k ∈ content.children, f.Linked k) →
      (f.add content).2.LinkedRoot (f.add content).1) ∧
    (∀ root g, f.LinkedRoot root → Relation.ReflTransGen (Edited root) f g → g.LinkedRoot root) ∧
    (∀ root n m, f.Linked root → f.Reaches root n → n ≠ root → m < f.cells.size → (f.Reaches m n → m = n) →
      ∃ g, f.replace n m = .ok g ∧ (g.Linked root ↔ m ≠ n ∧ f.Linked m ∧ (f.Reaches root m → f.Reaches n m))) := by
  refine ⟨fun limits input v h => ?_, fun content free distinct linked => ?_,
    fun root g h edits => linked_of_edits edits h, fun root n m linked hn notTop inside notAbove =>
      replace_linked_iff linked hn notTop inside notAbove⟩
  · obtain ⟨s, h⟩ := RoundTripLemmas.exists_source_of_read h
    obtain ⟨nodes, rfl, -⟩ := LanguageLemmas.exists_forest_of_read h
    refine ⟨nodes, rfl, fun n mem => ?_⟩
    have planted := plantAll_planted f nodes
    exact ⟨(planted.new n mem).2, planted.linked n mem⟩
  · refine ⟨?_, add_linked free linked distinct⟩
    rw [add_fst, size_add]
    exact Nat.lt_succ_self _

/-- The two texts are merged, and there is a new line break that stands nowhere yet. -/
def mergedText : Forest := ((twoTexts.mergeTexts 2).add (.void (Descent.text "br") [])).2

/-- The text that is left is replaced by the line break. -/
theorem mergedText_replaced : ∃ g, mergedText.replace 0 3 = .ok g ∧ g.children 2 = [3] ∧ g.LinkedRoot 2 := by
  have planted := plant_planted empty (.tag (Descent.text "p") [] [.text [0x78], .text [0x79]])
  have start : twoTexts.LinkedRoot 2 := ⟨by decide, planted.linked 2 (by decide)⟩
  have single : ∀ {n x}, mergedText.children n = [] → mergedText.Reaches n x → x = n := fun leaf =>
    (reaches_of_no_children leaf).mp
  have leaf : mergedText.children 3 = [] := by decide
  have elsewhere : ¬ mergedText.Reaches 2 3 := by
    intro h
    rcases h.eq_or_child with same | ⟨k, mem, h⟩
    · exact absurd same (by decide)
    · obtain rfl : k = 0 := List.mem_singleton.mp mem
      exact absurd (single (by decide) h) (by decide)
  have edits : Relation.ReflTransGen (Edited 2) twoTexts _ :=
    .tail (.tail (.tail .refl (.merge .here)) (.add (.void (Descent.text "br") []) (List.forall_mem_nil _)))
      (.replace (n := 0) (m := 3) (.child .here (by decide)) (by decide) (by decide) (by decide)
        (linked_of_leaf leaf)
        (fun h => absurd (single leaf h) (by decide)) (fun h => absurd h elsewhere) rfl)
  exact ⟨_, rfl, by decide, (edits_keep_links twoTexts).2.2.1 2 _ start edits⟩

end Descent.Markup.Forest
