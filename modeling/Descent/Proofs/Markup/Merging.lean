import Descent.Proofs.Markup.Edits
import Descent.Proofs.Markup.Joining
import Descent.Proofs.Markup.RoundTrip
import Mathlib.Data.List.Nodup

/-!
# Merging adjacent texts

Merging texts below a tag goes through the children one by one, keeps what it has joined so far at hand, and changes the
nodes in place. What it leaves in the forest is the merged tree. The tags stay where they are, the tree is written as
before, what was joined into another text has no parent any more, and a second merge finds nothing to do.

Results:
1. `Rebuilds.append`, `Rebuilds.trans`, `Rebuilds.close`: trees that are rebuilt piece by piece, again, or below a tag.
2. `mergeWithin_merges`: the walk builds the merged tree.
3. `mergeWithin_of_joined`: where there is nothing to merge, the walk changes nothing.
4. `mergeTexts_exact`: merging any tree of distinct nodes, and any tag that was read.
-/

namespace Descent.Markup.Forest

open scoped List
open Markup.Tree

variable {f g h : Forest} {t u c : Tree} {ts us done before between after more more' : List Tree} {n x : NodeId}

/-! ## 1. Rebuilt trees -/

/-- An edit from `f` to `g` makes other trees of some trees, of the same nodes in the same order. It changes nothing
else, and a node that it leaves out has no parent any more. -/
structure Rebuilds (f g : Forest) (before after : List Tree) : Prop where
  held : g.HoldsAll after
  sublist : idsAll after <+ idsAll before
  outside : ∀ x ∉ idsAll before, g.get? x = f.get? x
  dropped : ∀ x ∈ idsAll before, x ∉ idsAll after → g.parent? x = none

theorem Rebuilds.refl (held : f.HoldsAll ts) : Rebuilds f f ts ts :=
  ⟨held, .refl _, fun _ _ => rfl, fun _ mem other => absurd mem other⟩

theorem Rebuilds.trans (first : Rebuilds f g before between) (second : Rebuilds g h between after) :
    Rebuilds f h before after where
  held := second.held
  sublist := second.sublist.trans first.sublist
  outside x other := by
    rw [second.outside x fun mem => other (first.sublist.subset mem), first.outside x other]
  dropped x mem other := by
    by_cases still : x ∈ idsAll between
    · exact second.dropped x still other
    · rw [parent?, second.outside x still, ← parent?]
      exact first.dropped x mem still

/-- Trees that have nothing in common are rebuilt one after the other. -/
theorem Rebuilds.append (first : Rebuilds f g before after) (second : Rebuilds g h more more')
    (distinct : (idsAll (before ++ more)).Nodup) : Rebuilds f h (before ++ more) (after ++ more') := by
  rw [idsAll_append] at distinct
  have apart : ∀ x ∈ idsAll before, x ∉ idsAll more := fun x mem mem' =>
    List.disjoint_of_nodup_append distinct mem mem'
  refine ⟨holdsAll_append.mpr ⟨?_, second.held⟩, ?_, fun x other => ?_, fun x mem other => ?_⟩
  · exact first.held.of_content fun x mem => content?_congr (second.outside x (apart x (first.sublist.subset mem)))
  · rw [idsAll_append, idsAll_append]
    exact first.sublist.append second.sublist
  · rw [idsAll_append, List.mem_append, not_or] at other
    rw [second.outside x other.2, first.outside x other.1]
  · rw [idsAll_append, List.mem_append, not_or] at other
    rw [idsAll_append, List.mem_append] at mem
    rcases mem with mem | mem
    · rw [parent?, second.outside x (apart x mem), ← parent?]
      exact first.dropped x mem other.1
    · exact second.dropped x mem other.2

/-- A tree that has nothing in common with the rebuilt ones is still there. -/
theorem Rebuilds.holds_next (rebuilds : Rebuilds f g before after) (held : f.Holds c)
    (distinct : (idsAll (before ++ [c])).Nodup) : g.Holds c := by
  rw [idsAll_append, idsAll_singleton] at distinct
  exact held.of_content fun x mem => content?_congr
    (rebuilds.outside x fun mem' => List.disjoint_of_nodup_append distinct mem' mem)

theorem get?_setChildren_of_ne {ks : List NodeId} (other : x ≠ n) : (f.setChildren n ks).get? x = f.get? x :=
  get?_modify_of_ne other

/-- A tag takes the trees that its children have been made into. -/
theorem Rebuilds.close {name : Text} {attributes : List Attribute} {children children' : List Tree}
    (held : f.Holds (.tag n name attributes children)) (distinct : (Tree.tag n name attributes children).ids.Nodup)
    (below : Rebuilds f g children children') :
    Rebuilds f (g.setChildren n (children'.map root)) [.tag n name attributes children]
      [.tag n name attributes children'] := by
  rw [ids_tag, List.nodup_cons] at distinct
  have new : n ∉ idsAll children := distinct.1
  have new' : n ∉ idsAll children' := fun mem => new (below.sublist.subset mem)
  have top : g.content? n = some (.tag name attributes (children.map root)) := by
    rw [content?_congr (below.outside n new)]
    exact held.root
  refine ⟨holdsAll_singleton.mpr (holds_iff.mpr ⟨content?_setChildren_self top, ?_⟩), ?_, fun x other => ?_,
    fun x mem other => ?_⟩
  · exact below.held.of_content fun x mem => content?_congr (get?_setChildren_of_ne (ne_of_mem_of_not_mem mem new'))
  · rw [idsAll_singleton, idsAll_singleton]
    exact below.sublist.cons_cons n
  · rw [idsAll_singleton, ids_tag, List.mem_cons, not_or] at other
    rw [get?_setChildren_of_ne other.1, below.outside x other.2]
  · rw [idsAll_singleton, ids_tag, List.mem_cons] at mem
    rw [idsAll_singleton, ids_tag, List.mem_cons, not_or] at other
    rw [parent?_setChildren]
    exact below.dropped x (mem.resolve_left other.1) other.2

/-- Going through all children with steps that keep to an invariant of what has been passed. -/
theorem foldl_induct {State : Type} {P : List Tree → State → Prop} {step : State → NodeId → State} {s : State}
    {children : List Tree} (start : P [] s)
    (steps : ∀ done c todo s, children = done ++ c :: todo → P done s → P (done ++ [c]) (step s c.root)) :
    P children ((children.map root).foldl step s) := by
  have rest : ∀ todo done s, children = done ++ todo → P done s → P children ((todo.map root).foldl step s) := by
    intro todo
    induction todo with
    | nil =>
      intro done s split passed
      rw [split, List.append_nil]
      exact passed
    | cons c todo ih =>
      intro done s split passed
      refine ih (done ++ [c]) _ ?_ (steps done c todo s split passed)
      rw [List.append_assoc, List.singleton_append, split]
  exact rest children [] s rfl start

theorem nodup_passed {todo children : List Tree} (split : children = done ++ c :: todo)
    (distinct : (idsAll children).Nodup) : (idsAll (done ++ [c])).Nodup := by
  rw [split, List.append_cons, idsAll_append] at distinct
  exact distinct.of_append_left

/-! ## 2. The walk -/

/-- Rebuilding that leaves the parents of all remaining nodes as they are. -/
structure Merges (f g : Forest) (before after : List Tree) : Prop extends Rebuilds f g before after where
  kept : ∀ x ∈ idsAll after, g.parent? x = f.parent? x

theorem Merges.refl (held : f.HoldsAll ts) : Merges f f ts ts := ⟨.refl held, fun _ _ => rfl⟩

theorem Merges.append (first : Merges f g before after) (second : Merges g h more more')
    (distinct : (idsAll (before ++ more)).Nodup) : Merges f h (before ++ more) (after ++ more') := by
  refine ⟨first.toRebuilds.append second.toRebuilds distinct, fun x mem => ?_⟩
  rw [idsAll_append] at distinct mem
  rcases List.mem_append.mp mem with mem | mem
  · have other : x ∉ idsAll more := List.disjoint_of_nodup_append distinct (first.sublist.subset mem)
    rw [parent?, second.outside x other, ← parent?, first.kept x mem]
  · have other : x ∉ idsAll before := fun mem' =>
      List.disjoint_of_nodup_append distinct mem' (second.sublist.subset mem)
    rw [second.kept x mem, parent?, first.outside x other, ← parent?]

theorem Merges.close {name : Text} {attributes : List Attribute} {children children' : List Tree}
    (held : f.Holds (.tag n name attributes children)) (distinct : (Tree.tag n name attributes children).ids.Nodup)
    (below : Merges f g children children') :
    Merges f (g.setChildren n (children'.map root)) [.tag n name attributes children]
      [.tag n name attributes children'] := by
  refine ⟨below.toRebuilds.close held distinct, fun x mem => ?_⟩
  rw [ids_tag, List.nodup_cons] at distinct
  rw [idsAll_singleton, ids_tag] at mem
  rw [parent?_setChildren]
  rcases List.mem_cons.mp mem with rfl | mem
  · exact congrArg (Option.bind · Cell.parent) (below.outside x distinct.1)
  · exact below.kept x mem

/-- A text takes the content of the text behind it, and that one is dropped. -/
theorem Merges.join {n m : NodeId} {a b : Text} (distinct : (idsAll before).Nodup)
    (merges : Merges f g before (us ++ [.text n a, .text m b])) :
    Merges f ((g.setText n (a ++ b)).setParent m none) before (us ++ [.text n (a ++ b)]) := by
  have old : idsAll (us ++ [.text n a, .text m b]) = idsAll us ++ [n, m] := idsAll_append
  have new : idsAll (us ++ [.text n (a ++ b)]) = idsAll us ++ [n] := idsAll_append
  obtain ⟨⟨held, sublist, outside, dropped⟩, kept⟩ := merges
  rw [old] at sublist dropped kept
  obtain ⟨-, pair, apart⟩ := List.nodup_append.mp (distinct.sublist sublist)
  have other : n ≠ m := by simpa using pair
  have notN : n ∉ idsAll us := fun mem => apart n mem n (by simp) rfl
  have notM : m ∉ idsAll us := fun mem => apart m mem m (by simp) rfl
  obtain ⟨heldUs, heldPair⟩ := holdsAll_append.mp held
  have before_n : n ∈ idsAll before := sublist.subset (by simp)
  have before_m : m ∈ idsAll before := sublist.subset (by simp)
  have there : g.content? n = some (.text a) := heldPair (.text n a) (by simp [subtrees])
  have left : ∀ x, x ∈ idsAll us ++ [n] ↔ x ∈ idsAll us ++ [n, m] ∧ x ≠ m := by
    intro x
    simp only [List.mem_append, List.mem_cons, List.not_mem_nil, or_false]
    constructor
    · rintro (mem | rfl)
      · exact ⟨.inl mem, ne_of_mem_of_not_mem mem notM⟩
      · exact ⟨.inr (.inl rfl), other⟩
    · rintro ⟨mem | same | same, notM⟩
      · exact .inl mem
      · exact .inr same
      · exact absurd same notM
  have isNode : m < (g.setText n (a ++ b)).cells.size := by
    rw [size_setText]
    exact lt_size_of_content (heldPair (.text m b) (by simp [subtrees]))
  rw [← new] at left
  refine ⟨⟨holdsAll_append.mpr ⟨?_, ?_⟩, ?_, fun x out => ?_, fun x mem out => ?_⟩, fun x mem => ?_⟩
  · refine heldUs.of_content fun x mem => ?_
    rw [content?_setParent, setText, content?_congr (get?_modify_of_ne (ne_of_mem_of_not_mem mem notN))]
  · refine holdsAll_singleton.mpr (List.forall_mem_singleton.mpr ?_)
    rw [content?_setParent]
    exact content?_setText_self there
  · rw [new]
    exact (List.Sublist.append_left (List.sublist_append_left [n] [m]) _).trans sublist
  · have notN : x ≠ n := fun same => out (same ▸ before_n)
    have notM : x ≠ m := fun same => out (same ▸ before_m)
    rw [setParent, get?_modify_of_ne notM, setText, get?_modify_of_ne notN, outside x out]
  · by_cases absorbed : x = m
    · rw [absorbed, parent?_setParent_self isNode]
    · rw [parent?_setParent_of_ne (Ne.symm absorbed), parent?_setText]
      exact dropped x mem fun mem' => out ((left x).mpr ⟨mem', absorbed⟩)
  · obtain ⟨mem, notM⟩ := (left x).mp mem
    rw [parent?_setParent_of_ne (Ne.symm notM), parent?_setText]
    exact kept x mem

/-- The nodes kept so far, the latest first, are the roots of the joined trees passed so far. -/
structure Passes (f : Forest) (done : List Tree) (state : List NodeId × Forest) : Prop where
  roots : state.1 = ((joinTexts (mergedEach done)).map root).reverse
  merges : Merges f state.2 done (joinTexts (mergedEach done))

section Step

variable {walk : NodeId → Forest → Forest} {kept : List NodeId} {k l : NodeId}
  (walked : (if (g.children? k).isSome then walk k g else g) = h)
include walked

theorem mergeChild_apart (apart : ∀ l ∈ kept.head?, ((h.text? l).isSome && (h.text? k).isSome) = false) :
    mergeChild walk (kept, g) k = (k :: kept, h) := by
  simp only [mergeChild, walked]
  cases kept with
  | nil => rfl
  | cons l kept =>
    have noPair := apart l rfl
    simp only
    split
    · next before after first second =>
      rw [first, second] at noPair
      cases noPair
    · rfl

theorem mergeChild_both {a b : Text} (first : h.text? l = some a) (second : h.text? k = some b) :
    mergeChild walk (l :: kept, g) k = (l :: kept, (h.setText l (a ++ b)).setParent k none) := by
  simp only [mergeChild, walked, first, second]

end Step

theorem mergeChild_passes {walk : NodeId → Forest → Forest} {state : List NodeId × Forest} (held : f.Holds c)
    (distinct : (idsAll (done ++ [c])).Nodup)
    (walks : ∀ g : Forest, g.Holds c → c.tagName?.isSome → Merges g (walk c.root g) [c] [c.merged])
    (passes : Passes f done state) : Passes f (done ++ [c]) (mergeChild walk state c.root) := by
  obtain ⟨kept, g⟩ := state
  obtain ⟨rfl, merges⟩ := passes
  have still : g.Holds c := merges.holds_next held distinct
  -- First the child itself is merged, if it is a tag.
  obtain ⟨g₁, walked, rework⟩ : ∃ g₁, (if (g.children? c.root).isSome then walk c.root g else g) = g₁ ∧
      Merges g g₁ [c] [c.merged] := by
    refine ⟨_, rfl, ?_⟩
    rw [still.isSome_children?]
    split
    · next isTag => exact walks g still isTag
    · next noTag =>
      have leaf : c.merged = c := by
        cases c with
        | tag n name attributes children => exact absurd rfl noTag
        | _ => rfl
      rw [leaf]
      exact .refl (holdsAll_singleton.mpr still)
  have whole := merges.append rework distinct
  have heldChild : g₁.Holds c.merged := holdsAll_singleton.mp rework.held
  have each : mergedEach (done ++ [c]) = mergedEach done ++ [c.merged] := by
    simp only [mergedEach_eq_map, List.map_append, List.map_cons, List.map_nil]
  by_cases apart : ∀ l ∈ (joinTexts (mergedEach done)).getLast?, bothTexts l c.merged = false
  · -- The child is kept.
    have joined : joinTexts (mergedEach (done ++ [c])) = joinTexts (mergedEach done) ++ [c.merged] := by
      rw [each, joinTexts_concat apart]
    have noPair : ∀ l ∈ (((joinTexts (mergedEach done)).map root).reverse).head?,
        ((g₁.text? l).isSome && (g₁.text? c.root).isSome) = false := by
      intro l hl
      rw [List.head?_reverse, List.getLast?_map] at hl
      obtain ⟨u, last, rfl⟩ := Option.map_eq_some_iff.mp hl
      have heldLast := holdsAll_iff.mp whole.held u (List.mem_append_left _ (List.mem_of_getLast? last))
      rw [heldLast.isSome_text?, ← root_merged c, heldChild.isSome_text?]
      exact apart u last
    rw [mergeChild_apart walked noPair]
    refine ⟨?_, joined ▸ whole⟩
    rw [joined, List.map_append, List.reverse_append, List.map_singleton, root_merged]
    rfl
  · -- The child is a text behind a text.
    obtain ⟨l, last, both⟩ : ∃ l, (joinTexts (mergedEach done)).getLast? = some l ∧ bothTexts l c.merged = true := by
      simpa using apart
    obtain ⟨us, kept⟩ := List.getLast?_eq_some_iff.mp last
    obtain ⟨n, a, rfl⟩ := exists_text (Bool.and_eq_true_iff.mp both).1
    obtain ⟨m, b, child⟩ := exists_text (Bool.and_eq_true_iff.mp both).2
    have root : c.root = m := by rw [← root_merged, child]; rfl
    rw [kept, child, List.append_assoc] at whole
    have joined : joinTexts (mergedEach (done ++ [c])) = us ++ [.text n (a ++ b)] := by
      rw [each, child, joinTexts_concat_text kept]
    have heldPair := holdsAll_cons.mp (holdsAll_append.mp whole.held).2
    have state : ((joinTexts (mergedEach done)).map Tree.root).reverse = n :: (us.map Tree.root).reverse := by
      rw [kept, List.map_append, List.reverse_append]
      rfl
    have second : g₁.text? c.root = some b := root ▸ text?_of_holds (holdsAll_singleton.mp heldPair.2)
    rw [state, mergeChild_both walked (text?_of_holds heldPair.1) second, root]
    refine ⟨?_, joined ▸ whole.join distinct⟩
    rw [joined, List.map_append, List.reverse_append]
    rfl

theorem mergeWithin_succ (depth : Nat) (n : NodeId) (f : Forest) :
    mergeWithin (depth + 1) n f =
      ((f.children n).foldl (mergeChild (mergeWithin depth)) ([], f)).2.setChildren n
        ((f.children n).foldl (mergeChild (mergeWithin depth)) ([], f)).1.reverse :=
  rfl

/-- The walk builds the merged tree. -/
theorem mergeWithin_merges {depth : Nat} (isTag : t.tagName?.isSome) (held : f.Holds t) (distinct : t.ids.Nodup)
    (deep : t.ids.length ≤ depth) : Merges f (mergeWithin depth t.root f) [t] [t.merged] := by
  induction depth generalizing f t with
  | zero =>
    rw [ids_eq] at deep
    exact absurd deep (Nat.not_succ_le_zero _)
  | succ depth ih =>
    obtain ⟨n, name, attributes, children, rfl⟩ := exists_tag isTag
    have heldChildren : f.HoldsAll children := (holds_iff.mp held).2
    have distinctChildren : (idsAll children).Nodup := distinct.of_cons
    have deepEnough : ∀ {c}, c ∈ children → c.ids.length ≤ depth := fun mem =>
      (length_ids_le mem).trans (Nat.le_of_succ_le_succ deep)
    have passes : Passes f children ((children.map root).foldl (mergeChild (mergeWithin depth)) ([], f)) := by
      refine foldl_induct ⟨rfl, .refl (List.forall_mem_nil _)⟩ fun done c todo state split passes => ?_
      have mem : c ∈ children := by simp [split]
      exact mergeChild_passes (holdsAll_iff.mp heldChildren c mem) (nodup_passed split distinctChildren)
        (fun g still isTag => ih isTag still (nodup_of_mem mem distinctChildren) (deepEnough mem)) passes
    have roots : f.children n = children.map root := held.children
    rw [Tree.root, mergeWithin_succ, roots, passes.roots, List.reverse_reverse]
    exact passes.merges.close held distinct

/-! ## 3. Nothing to merge -/

/-- Steps that keep every child as it is come to all children and the forest as it was. -/
theorem foldl_keeps {step : List NodeId × Forest → NodeId → List NodeId × Forest} {children : List Tree}
    (keeps : ∀ done c todo, children = done ++ c :: todo →
      step ((done.map root).reverse, f) c.root = (c.root :: (done.map root).reverse, f)) :
    (children.map root).foldl step ([], f) = ((children.map root).reverse, f) := by
  refine foldl_induct (P := fun done state => state = ((done.map root).reverse, f)) rfl
    fun done c todo state split passed => ?_
  rw [passed, keeps done c todo split, List.map_append, List.reverse_append]
  rfl

/-- Where no two texts stand next to each other, the walk changes nothing. -/
theorem mergeWithin_of_joined (depth : Nat) (held : f.Holds t) (joined : t.Joined) :
    mergeWithin depth t.root f = f := by
  induction depth generalizing t with
  | zero => rfl
  | succ depth ih =>
    have heldChildren : f.HoldsAll t.children := (holds_iff.mp held).2
    have spaced : Spaced t.children := joined t (mem_subtrees_self t)
    have passes : (t.children.map root).foldl (mergeChild (mergeWithin depth)) ([], f) =
        ((t.children.map root).reverse, f) := by
      refine foldl_keeps fun done c todo split => ?_
      have mem : c ∈ t.children := by simp [split]
      have heldChild := holdsAll_iff.mp heldChildren c mem
      have walked : (if (f.children? c.root).isSome then mergeWithin depth c.root f else f) = f := by
        split
        · exact ih heldChild (joined.sub (mem_subtrees_of_child mem))
        · rfl
      have apart : ∀ l ∈ ((done.map root).reverse).head?, ((f.text? l).isSome && (f.text? c.root).isSome) = false := by
        intro l hl
        rw [List.head?_reverse, List.getLast?_map] at hl
        obtain ⟨u, last, rfl⟩ := Option.map_eq_some_iff.mp hl
        have mem' : u ∈ t.children := by simp [split, List.mem_of_getLast? last]
        rw [(holdsAll_iff.mp heldChildren u mem').isSome_text?, heldChild.isSome_text?]
        rw [split] at spaced
        exact (List.isChain_append.mp spaced).2.2 u last c rfl
      exact mergeChild_apart walked apart
    rw [mergeWithin_succ, held.children, passes, List.reverse_reverse, ← held.children, setChildren_children]

/-- In a normal forest no two texts stand next to each other. -/
theorem spaced_of_normalAll (normal : Node.NormalAll (nodeAll ts)) : Spaced ts := by
  induction ts with
  | nil => exact .nil
  | cons t ts ih =>
    obtain ⟨-, apart, others⟩ := normal
    refine List.isChain_cons.mpr ⟨fun u hu => ?_, ih others⟩
    obtain ⟨ts, rfl⟩ := List.head?_eq_some_iff.mp hu
    cases t with
    | text n content => cases u with
      | text m content' => exact absurd trivial (apart trivial _ rfl)
      | void m name attributes => rfl
      | tag m name attributes children => rfl
    | void n name attributes => rfl
    | tag n name attributes children => rfl

theorem normal_of_mem (normal : Node.NormalAll (nodeAll ts)) (mem : t ∈ ts) : t.node.Normal := by
  induction ts with
  | nil => cases mem
  | cons u ts ih =>
    obtain ⟨first, -, others⟩ := normal
    rcases List.mem_cons.mp mem with rfl | mem
    · exact first
    · exact ih others mem

theorem joined_of_normal (normal : t.node.Normal) : t.Joined := by
  induction t with
  | text n content => exact joined_of_isText rfl
  | void n name attributes => exact List.forall_mem_singleton.mpr .nil
  | tag n name attributes children ih =>
    have below : Node.NormalAll (nodeAll children) := normal.2.2.2
    refine List.forall_mem_cons.mpr ⟨spaced_of_normalAll below, fun u inside => ?_⟩
    obtain ⟨c, mem, inside⟩ := mem_subtreesAll.mp inside
    exact ih c mem (normal_of_mem below mem) u inside

/-! ## 4. Any tree, and any tag that was read -/

theorem mergeTexts_merges {name : Text} {attributes : List Attribute} {children : List Tree}
    (held : f.Holds (.tag n name attributes children)) (distinct : (Tree.tag n name attributes children).ids.Nodup) :
    Merges f (f.mergeTexts n) [.tag n name attributes children] [(Tree.tag n name attributes children).merged] :=
  mergeWithin_merges rfl held distinct (held.length_ids_le distinct)

/-- A second merge finds nothing to do. -/
theorem mergeTexts_of_joined (held : f.Holds t) (joined : t.Joined) : f.mergeTexts t.root = f :=
  mergeWithin_of_joined f.cells.size held joined

/-- In a planted normal forest there is nothing to merge below any node. -/
theorem mergeTexts_planted {nodes : List Node} (normal : Node.NormalAll nodes) {top : NodeId}
    (planted : top ∈ (f.plantAll nodes).1) (h : (f.plantAll nodes).2.Reaches top n) :
    (f.plantAll nodes).2.mergeTexts n = (f.plantAll nodes).2 := by
  obtain ⟨ts, held, roots, same⟩ := exists_trees_of_plantAll f nodes
  rw [← roots] at planted
  obtain ⟨t, mem, rfl⟩ := List.mem_map.mp planted
  have heldTree := holdsAll_iff.mp held t mem
  obtain ⟨u, inside, rfl⟩ := heldTree.exists_subtree h
  have joined : t.Joined := joined_of_normal (normal_of_mem (same ▸ normal) mem)
  exact mergeTexts_of_joined (heldTree.sub inside) (joined.sub inside)

/-- Merging texts leaves the merged tree, whatever tree of distinct nodes hangs below the tag.

* The tree is written as before, no two texts are left next to each other, and all tags stay what and where they were.
  In the merged tree every run of texts has become its first text, with the contents of all of them.
* A text that was joined to another one has no parent any more. The parents of all other nodes are as before, and nodes
  outside the tree are not touched at all.
* Merging again changes nothing. Nor does merging below any tag of a forest that was read. -/
theorem mergeTexts_exact :
    (∀ (f : Forest) (n : NodeId) (name : Text) (attributes : List Attribute) (children : List Tree),
      let t := Tree.tag n name attributes children
      let g := f.mergeTexts n
      f.Holds t → t.ids.Nodup →
        g.Holds t.merged ∧
        (f.written n = .ok t.node.written ∧ g.written n = .ok t.node.written) ∧
        t.merged.Joined ∧ t.merged.skeleton = t.skeleton ∧
        (∀ x ∈ t.ids, g.parent? x = if x ∈ t.merged.ids then f.parent? x else none) ∧
        (∀ x ∉ t.ids, g.get? x = f.get? x) ∧
        g.mergeTexts n = g) ∧
    (∀ (f : Forest) (limits : Limits) (input : Input) (v : Value), (read limits input).value = .ok v →
      ∃ nodes : List Node, v = .list (nodes.map .node) ∧
        ∀ top ∈ (f.plantAll nodes).1, ∀ n, (f.plantAll nodes).2.Reaches top n →
          (f.plantAll nodes).2.mergeTexts n = (f.plantAll nodes).2) := by
  constructor
  · intro f n name attributes children t g held distinct
    have merges : Merges f g [t] [t.merged] := mergeTexts_merges held distinct
    have heldMerged : g.Holds t.merged := holdsAll_singleton.mp merges.held
    have distinctMerged : t.merged.ids.Nodup := distinct.sublist t.ids_merged_sublist
    have written := written_of_holds heldMerged distinctMerged
    rw [written_merged] at written
    refine ⟨heldMerged, ⟨written_of_holds held distinct, written⟩, t.joined_merged, t.skeleton_merged,
      fun x mem => ?_, fun x other => merges.outside x (idsAll_singleton ▸ other),
      mergeTexts_of_joined heldMerged t.joined_merged⟩
    have kept := merges.kept x
    have dropped := merges.dropped x
    rw [idsAll_singleton] at kept dropped
    rw [idsAll_singleton] at dropped
    split
    · next still => exact kept still
    · next absorbed => exact dropped mem absorbed
  · intro f limits input v h
    obtain ⟨s, h⟩ := RoundTripLemmas.exists_source_of_read h
    obtain ⟨nodes, rfl, normal, -⟩ := LanguageLemmas.exists_forest_of_read h
    exact ⟨nodes, rfl, fun top planted n reached => mergeTexts_planted normal planted reached⟩

/-- A paragraph with texts next to each other at two levels, one of them empty. -/
def looseTexts : Tree :=
  .tag 7 (Descent.text "p") [] [.text 0 (Descent.text "a"), .text 1 (Descent.text "&"),
    .tag 4 (Descent.text "b") [] [.text 2 [], .text 3 (Descent.text "c")], .void 5 (Descent.text "br") [],
    .text 6 (Descent.text "d")]

/-- The first text of each run takes what the run says, the empty one as well. The others have no parent any more. -/
theorem looseTexts_merged :
    let f := (empty.plant looseTexts.node).2
    let g := f.mergeTexts 7
    f.Holds looseTexts ∧ looseTexts.ids.Nodup ∧
    (g.children 7 = [0, 4, 5, 6] ∧ g.children 4 = [2]) ∧
    g.written 7 = .ok (Descent.text "<p>a&amp;<b>c</b><br>d</p>") ∧
    (g.parent? 0 = some 7 ∧ g.parent? 1 = none ∧ g.parent? 3 = none) ∧
    g.mergeTexts 7 = g ∧
    ∃ nodes : List Node, Value.list [.node (.tag (Descent.text "p") [] [.text [0x26]])] = .list (nodes.map .node) ∧
      ∀ top ∈ (f.plantAll nodes).1, ∀ n, (f.plantAll nodes).2.Reaches top n →
        (f.plantAll nodes).2.mergeTexts n = (f.plantAll nodes).2 := by
  intro f g
  have held : f.Holds looseTexts := by decide +kernel
  have distinct : looseTexts.ids.Nodup := by decide +kernel
  have accepted : (read { size := 0, depth := 3 } (.source (.ofText (Descent.text "<p>&amp;</p>")))).value =
      .ok (.list [.node (.tag (Descent.text "p") [] [.text [0x26]])]) := by decide +kernel
  obtain ⟨merged, ⟨-, written⟩, -, -, parents, -, again⟩ := mergeTexts_exact.1 f 7 _ _ _ held distinct
  have inner : Tree.tag 4 (Descent.text "b") [] [.text 2 (Descent.text "c")] ∈ looseTexts.merged.subtrees :=
    .tail _ (.tail _ (.head _))
  refine ⟨held, distinct, ⟨merged.children, (merged.sub inner).children⟩, written, ⟨?_, ?_, ?_⟩, again,
    mergeTexts_exact.2 f _ _ _ accepted⟩
  · exact (parents 0 (by decide)).trans (by decide +kernel)
  · exact (parents 1 (by decide)).trans (by decide +kernel)
  · exact (parents 3 (by decide)).trans (by decide +kernel)

end Descent.Markup.Forest
