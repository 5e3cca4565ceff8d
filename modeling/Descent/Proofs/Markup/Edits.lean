import Descent.Proofs.Markup.Planting

/-!
# Edits keep trees linked

Merging texts and unwrapping inline tags rebuild the children of a tag from the trees of the children that it had.
While the children are gone through, the nodes kept so far are the roots of linked trees made of what the children
passed so far held, and nothing else has changed: this is the invariant of both walks.

Results:
1. `Gathered.push`, `Gathered.close`: one child more, and the tag with its new children.
2. `mergeWithin_reworks`, `flattenWithin_reworks`: the two walks.
-/

namespace Descent.Markup.Forest

variable {f g : Forest} {n c k x : NodeId} {done todo kept : List NodeId}

/-! ## 1. Rebuilding the children of a tag -/

/-- The children `done` of `n` have been passed in the forest `f`, and `kept` are the nodes that take their place. -/
structure Gathered (f g : Forest) (n : NodeId) (done kept : List NodeId) : Prop where
  parent : ∀ k ∈ kept, g.parent? k = some n
  linked : ∀ k ∈ kept, g.Linked k
  apart : kept.Pairwise g.Apart
  within : ∀ k ∈ kept, ∀ x, g.Reaches k x → ∃ d ∈ done, f.Reaches d x
  otherChildren : ∀ x, (∀ d ∈ done, ¬ f.Reaches d x) → g.children x = f.children x
  otherParent : ∀ x, (∀ d ∈ done, ¬ f.Reaches d x) → g.parent? x = f.parent? x

theorem Gathered.nil (f : Forest) (n : NodeId) : Gathered f f n [] [] :=
  ⟨List.forall_mem_nil _, List.forall_mem_nil _, .nil, List.forall_mem_nil _, fun _ _ => rfl, fun _ _ => rfl⟩

section Step

variable (linked : f.Linked n) (split : f.children n = done ++ c :: todo) (gathered : Gathered f g n done kept)
include split

theorem mem_of_split : c ∈ f.children n := by
  rw [split]
  exact List.mem_append_right _ (List.mem_cons_self ..)

include linked

/-- The tree of the next child has nothing in common with the trees passed so far. -/
theorem not_passed (h : f.Reaches c x) : ∀ d ∈ done, ¬ f.Reaches d x := by
  have grove := Grove.of_linked linked
  rw [split] at grove
  exact fun d mem passed => grove.apart_of_split d mem x passed h

include gathered

/-- So the tree of the next child is still what it was. -/
theorem Gathered.next_reaches : g.Reaches c x ↔ f.Reaches c x :=
  reaches_congr fun _ hy => gathered.otherChildren _ (not_passed linked split hy)

theorem Gathered.next_linked : g.Linked c :=
  (linked.sub (.child .here (mem_of_split split))).congr
    (fun _ hy => gathered.otherChildren _ (not_passed linked split hy))
    (fun _ hy _ => gathered.otherParent _ (not_passed linked split hy))

theorem Gathered.next_parent : g.parent? c = some n := by
  rw [gathered.otherParent c (not_passed linked split .here)]
  exact linked.parent n .here c (mem_of_split split)

/-- None of the nodes kept so far shares a node with the next child. -/
theorem Gathered.next_apart : ∀ k ∈ kept, ∀ x, g.Reaches k x → ¬ g.Reaches c x := by
  intro k mem x left right
  obtain ⟨d, passed, reached⟩ := gathered.within k mem x left
  exact not_passed linked split ((gathered.next_reaches linked split).mp right) d passed reached

theorem Gathered.not_next (other : ∀ d ∈ done ++ [c], ¬ f.Reaches d x) :
    (∀ d ∈ done, ¬ f.Reaches d x) ∧ ¬ g.Reaches c x := by
  obtain ⟨other, next⟩ := List.forall_mem_append.mp other
  exact ⟨other, fun hx => next c (List.mem_singleton_self c) ((gathered.next_reaches linked split).mp hx)⟩

/-- The tree of the next child is reworked, links inside it are changed, and some nodes of it are put in front of those
kept so far. -/
theorem Gathered.push {g₁ g₂ : Forest} (fresh : List NodeId) (rework : Reworks g g₁ c)
    (children : ∀ x, g₂.children x = g₁.children x)
    (others : ∀ x, ¬ g.Reaches c x → g₂.parent? x = g₁.parent? x)
    (inside : ∀ k ∈ fresh, g₁.Reaches c k) (parent : ∀ k ∈ fresh, g₂.parent? k = some n)
    (linked' : ∀ k ∈ fresh, g₂.Linked k) (apart : fresh.Pairwise g₂.Apart) :
    Gathered f g₂ n (done ++ [c]) (fresh ++ kept) := by
  have sameTree : ∀ k x, g₂.Reaches k x ↔ g₁.Reaches k x := fun k x => reaches_congr fun y _ => children y
  have sameChildren : ∀ x, ¬ g.Reaches c x → g₂.children x = g.children x := fun x outside =>
    (children x).trans (rework.children x outside)
  have sameParent : ∀ x, ¬ g.Reaches c x → g₂.parent? x = g.parent? x := fun x outside =>
    (others x outside).trans (rework.parent x outside)
  -- What was kept has no node in the tree of `c`, so it is as it was.
  have outside : ∀ k ∈ kept, ∀ x, g.Reaches k x → ¬ g.Reaches c x := gathered.next_apart linked split
  have keptTree : ∀ k ∈ kept, ∀ x, g₂.Reaches k x ↔ g.Reaches k x := fun k mem x =>
    reaches_congr fun y hy => sameChildren y (outside k mem y hy)
  have freshTree : ∀ k ∈ fresh, ∀ x, g₂.Reaches k x → g.Reaches c x := fun k mem x hx =>
    rework.within x ((inside k mem).trans ((sameTree k x).mp hx))
  refine ⟨List.forall_mem_append.mpr ⟨parent, ?keptParent⟩, List.forall_mem_append.mpr ⟨linked', ?keptLinked⟩,
    List.pairwise_append.mpr ⟨apart, ?keptApart, ?freshApart⟩,
    List.forall_mem_append.mpr ⟨?freshWithin, ?keptWithin⟩, ?otherChildren, ?otherParent⟩
  case keptParent =>
    intro k mem
    rw [sameParent k (outside k mem k .here)]
    exact gathered.parent k mem
  case keptLinked =>
    intro k mem
    exact (gathered.linked k mem).congr (fun y hy => sameChildren y (outside k mem y hy))
      fun y hy _ => sameParent y (outside k mem y hy)
  case keptApart =>
    refine gathered.apart.imp_of_mem fun {a b} memA memB apart x left right => ?_
    exact apart x ((keptTree a memA x).mp left) ((keptTree b memB x).mp right)
  case freshApart =>
    intro k memK l memL x left right
    exact outside l memL x ((keptTree l memL x).mp right) (freshTree k memK x left)
  case freshWithin =>
    intro k mem x hx
    exact ⟨c, List.mem_append_right _ (List.mem_singleton_self c),
      (gathered.next_reaches linked split).mp (freshTree k mem x hx)⟩
  case keptWithin =>
    intro k mem x hx
    obtain ⟨d, passed, reached⟩ := gathered.within k mem x ((keptTree k mem x).mp hx)
    exact ⟨d, List.mem_append_left _ passed, reached⟩
  case otherChildren =>
    intro x other
    obtain ⟨other, next⟩ := gathered.not_next linked split other
    rw [sameChildren x next, gathered.otherChildren x other]
  case otherParent =>
    intro x other
    obtain ⟨other, next⟩ := gathered.not_next linked split other
    rw [sameParent x next, gathered.otherParent x other]

/-- The next child is kept. -/
theorem Gathered.keep {g₁ : Forest} (rework : Reworks g g₁ c) : Gathered f g₁ n (done ++ [c]) (c :: kept) := by
  refine gathered.push linked split [c] rework (fun _ => rfl) (fun _ _ => rfl)
    (List.forall_mem_singleton.mpr .here) (List.forall_mem_singleton.mpr ?_)
    (List.forall_mem_singleton.mpr rework.linked) (List.pairwise_singleton _ _)
  rw [rework.top]
  exact gathered.next_parent linked split

end Step

section Close

variable (linked : f.Linked n) (gathered : Gathered f g n (f.children n) kept)
include linked gathered

/-- The trees of the nodes that were kept are made of what hung below the tag, so it is not in them. -/
theorem Gathered.ne_of_reaches (mem : k ∈ kept) (h : g.Reaches k x) : n ≠ x := by
  rintro rfl
  obtain ⟨d, passed, reached⟩ := gathered.within k mem _ h
  exact (Grove.of_linked linked).above d passed reached

theorem Gathered.reaches_setChildren (mem : k ∈ kept) (ks : List NodeId) :
    (g.setChildren n ks).Reaches k x ↔ g.Reaches k x :=
  reaches_congr fun _ hy => children_setChildren_of_ne (gathered.ne_of_reaches linked mem hy)

theorem Gathered.grove : (g.setChildren n kept.reverse).Grove n kept.reverse := by
  refine ⟨fun k mem => ?_, fun k mem => ?_, ?_, fun k mem up => ?_⟩
  · rw [parent?_setChildren]
    exact gathered.parent k (List.mem_reverse.mp mem)
  · have mem := List.mem_reverse.mp mem
    exact (gathered.linked k mem).congr
      (fun y hy => children_setChildren_of_ne (gathered.ne_of_reaches linked mem hy))
      fun y _ _ => parent?_setChildren _
  · refine List.pairwise_reverse.mpr (gathered.apart.imp_of_mem fun {a b} memA memB apart x left right => ?_)
    exact apart x ((gathered.reaches_setChildren linked memA _).mp right)
      ((gathered.reaches_setChildren linked memB _).mp left)
  · have mem := List.mem_reverse.mp mem
    exact gathered.ne_of_reaches linked mem ((gathered.reaches_setChildren linked mem _).mp up) rfl

/-- The tag takes the nodes that were kept as its children. -/
theorem Gathered.close : Reworks f (g.setChildren n kept.reverse) n := by
  have above : ∀ d ∈ f.children n, ¬ f.Reaches d n := (Grove.of_linked linked).above
  have around : ∀ x, ¬ f.Reaches n x → ∀ d ∈ f.children n, ¬ f.Reaches d x := fun x outside d passed hx =>
    outside ((Reaches.child .here passed).trans hx)
  refine ⟨?_, fun x hx => ?_, fun x outside => ?_, fun x outside => ?_, ?_⟩
  · rcases children_setChildren_self g n kept.reverse with children | ⟨leaf, -⟩
    · refine linked_iff_grove.mpr ?_
      rw [children]
      exact gathered.grove linked
    · exact linked_of_leaf leaf
  · rcases hx.eq_or_child with rfl | ⟨k, mem, hx⟩
    · exact .here
    · have mem := List.mem_reverse.mp (mem_of_mem_setChildren mem)
      obtain ⟨d, passed, reached⟩ := gathered.within k mem x ((gathered.reaches_setChildren linked mem _).mp hx)
      exact (Reaches.child .here passed).trans reached
  · have other : n ≠ x := fun same => outside (same ▸ .here)
    rw [children_setChildren_of_ne other]
    exact gathered.otherChildren x (around x outside)
  · rw [parent?_setChildren]
    exact gathered.otherParent x (around x outside)
  · rw [parent?_setChildren]
    exact gathered.otherParent n above

end Close

/-! ## 2. The walks -/

theorem reaches_of_no_children (leaf : f.children n = []) : f.Reaches n x ↔ x = n := by
  constructor
  · intro h
    rcases h.eq_or_child with same | ⟨k, mem, -⟩
    · exact same
    · rw [leaf] at mem
      cases mem
  · rintro rfl
    exact .here

/-- What a walk does to the tree of a tag. -/
def Walks (walk : NodeId → Forest → Forest) : Prop := ∀ f n, f.Linked n → Reworks f (walk n f) n

theorem mergeChild_gathered {walk : NodeId → Forest → Forest} (walks : Walks walk) (linked : f.Linked n)
    (split : f.children n = done ++ c :: todo) (gathered : Gathered f g n done kept) :
    Gathered f (mergeChild walk (kept, g) c).2 n (done ++ [c]) (mergeChild walk (kept, g) c).1 := by
  have next := gathered.next_linked linked split
  obtain ⟨g₁, walked, rework⟩ : ∃ g₁, (if (g.children? c).isSome then walk c g else g) = g₁ ∧ Reworks g g₁ c := by
    refine ⟨_, rfl, ?_⟩
    split
    · exact walks g c next
    · exact .refl next
  simp only [mergeChild, walked]
  cases kept with
  | nil => exact gathered.keep linked split rework
  | cons last others =>
    simp only
    split
    · next before after _ isText =>
      -- The text of the child goes to the last one kept, and the child is dropped.
      refine gathered.push linked split [] rework (fun x => ?_) (fun x outside => ?_)
        (List.forall_mem_nil _) (List.forall_mem_nil _) (List.forall_mem_nil _) .nil
      · rw [children_setParent, children_setText]
      · have other : c ≠ x := by
          rintro rfl
          exact outside .here
        rw [parent?_setParent_of_ne other, parent?_setText]
    · exact gathered.keep linked split rework

/-- Going through all children with steps that keep to the invariant. -/
theorem foldl_gathered {step : List NodeId × Forest → NodeId → List NodeId × Forest}
    (steps : ∀ done c todo kept g, f.children n = done ++ c :: todo → Gathered f g n done kept →
      Gathered f (step (kept, g) c).2 n (done ++ [c]) (step (kept, g) c).1) :
    Gathered f ((f.children n).foldl step ([], f)).2 n (f.children n) ((f.children n).foldl step ([], f)).1 := by
  have rest : ∀ todo done kept g, f.children n = done ++ todo → Gathered f g n done kept →
      Gathered f (todo.foldl step (kept, g)).2 n (f.children n) (todo.foldl step (kept, g)).1 := by
    intro todo
    induction todo with
    | nil =>
      intro done kept g split gathered
      rw [List.append_nil] at split
      rw [split]
      exact gathered
    | cons c todo ih =>
      intro done kept g split gathered
      rw [List.foldl_cons]
      refine ih (done ++ [c]) _ _ ?_ (steps done c todo kept g split gathered)
      rw [List.append_assoc, List.singleton_append, split]
  exact rest (f.children n) [] [] f rfl (.nil f n)

theorem mergeWithin_reworks (depth : Nat) : Walks (mergeWithin depth) := by
  induction depth with
  | zero => exact fun f n linked => .refl linked
  | succ depth walks =>
    intro f n linked
    exact (foldl_gathered fun _ _ _ _ _ split gathered => mergeChild_gathered walks linked split gathered).close linked

/-- The children of `c` hang below `n` instead, and `c` nowhere. -/
def release (f : Forest) (n c : NodeId) : Forest := (f.adopt n (f.children c)).setParent c none

theorem children_release : (f.release n c).children x = f.children x := by
  rw [release, children_setParent, children_adopt]

theorem parent?_release_of_not_reaches (outside : ¬ f.Reaches c x) : (f.release n c).parent? x = f.parent? x := by
  have other : c ≠ x := by
    rintro rfl
    exact outside .here
  have noChild : x ∉ f.children c := fun mem => outside (.child .here mem)
  rw [release, parent?_setParent_of_ne other, parent?, get?_adopt_of_notMem noChild, parent?]

section Release

variable (linked : f.Linked c) {k : NodeId} (mem : k ∈ f.children c)
include linked mem

theorem parent?_release : (f.release n c).parent? k = some n := by
  have other : c ≠ k := by
    rintro rfl
    exact linked.not_reaches_up .here mem .here
  rw [release, parent?_setParent_of_ne other]
  exact parent?_adopt_of_mem mem (lt_size_of_parent (linked.parent c .here k mem))

/-- Below the children nothing changes. -/
theorem linked_release : (f.release n c).Linked k := by
  have grove := Grove.of_linked linked
  refine (grove.linked k mem).congr (fun _ _ => children_release) fun y hy below => ?_
  have notTop : c ≠ y := by
    rintro rfl
    exact grove.above k mem hy
  have noChild : y ∉ f.children c := by
    intro mem'
    obtain ⟨p, hp, parent⟩ := (grove.linked k mem).exists_parent hy below
    obtain rfl := Option.some.inj (parent.symm.trans (linked.parent c .here y mem'))
    exact grove.above k mem hp
  rw [release, parent?_setParent_of_ne notTop, parent?, get?_adopt_of_notMem noChild, parent?]

end Release

theorem flattenChild_gathered {walk : NodeId → Forest → Forest} (walks : Walks walk) (linked : f.Linked n)
    (split : f.children n = done ++ c :: todo) (gathered : Gathered f g n done kept) :
    Gathered f (flattenChild walk n (kept, g) c).2 n (done ++ [c]) (flattenChild walk n (kept, g) c).1 := by
  have next := gathered.next_linked linked split
  simp only [flattenChild]
  split
  · exact gathered.keep linked split (.refl next)
  · next name _ =>
    have rework := walks g c next
    split
    · -- The children of the child take its place, and the child is dropped.
      have mem : ∀ k ∈ ((walk c g).children c).reverse, k ∈ (walk c g).children c := fun k => List.mem_reverse.mp
      show Gathered f ((walk c g).release n c) n _ _
      refine gathered.push linked split _ rework (fun _ => children_release) (fun x outside => ?_)
        (fun k hk => .child .here (mem k hk)) (fun k hk => parent?_release rework.linked (mem k hk))
        (fun k hk => linked_release rework.linked (mem k hk)) ?_
      · exact parent?_release_of_not_reaches fun hx => outside (rework.within x hx)
      · refine List.pairwise_reverse.mpr ((Grove.of_linked rework.linked).apart.imp fun {a b} apart x left right => ?_)
        have same : ∀ k, ((walk c g).release n c).Reaches k x ↔ (walk c g).Reaches k x := fun k =>
          reaches_congr fun _ _ => children_release
        exact apart x ((same a).mp right) ((same b).mp left)
    · exact gathered.keep linked split rework

theorem flattenWithin_reworks (depth : Nat) : Walks (flattenWithin depth) := by
  induction depth with
  | zero => exact fun f n linked => .refl linked
  | succ depth walks =>
    intro f n linked
    have flattened := (foldl_gathered fun _ _ _ _ _ split gathered =>
      flattenChild_gathered walks linked split gathered).close linked
    exact flattened.trans (mergeWithin_reworks _ _ _ flattened.linked)

/-! ## 3. The number of nodes -/

theorem size_setText (f : Forest) (n : NodeId) (t : Text) : (f.setText n t).cells.size = f.cells.size :=
  Array.size_modify

theorem size_foldl {step : List NodeId × Forest → NodeId → List NodeId × Forest}
    (steps : ∀ state c, (step state c).2.cells.size = state.2.cells.size) (todo : List NodeId)
    (state : List NodeId × Forest) : (todo.foldl step state).2.cells.size = state.2.cells.size := by
  induction todo generalizing state with
  | nil => rfl
  | cons c todo ih => exact (ih (step state c)).trans (steps state c)

theorem size_mergeChild {walk : NodeId → Forest → Forest} (walks : ∀ n f, (walk n f).cells.size = f.cells.size)
    (state : List NodeId × Forest) (c : NodeId) : (mergeChild walk state c).2.cells.size = state.2.cells.size := by
  obtain ⟨kept, f⟩ := state
  have walked : (if (f.children? c).isSome then walk c f else f).cells.size = f.cells.size := by
    split
    · exact walks c f
    · rfl
  rw [mergeChild]
  split
  · split
    · rw [size_setParent, size_setText, walked]
    · exact walked
  · exact walked

theorem size_mergeWithin (depth : Nat) (n : NodeId) (f : Forest) :
    (mergeWithin depth n f).cells.size = f.cells.size := by
  induction depth generalizing n f with
  | zero => rfl
  | succ depth ih => exact (size_setChildren _ _ _).trans (size_foldl (size_mergeChild ih) _ _)

theorem size_flattenChild {walk : NodeId → Forest → Forest} (walks : ∀ n f, (walk n f).cells.size = f.cells.size)
    (n : NodeId) (state : List NodeId × Forest) (c : NodeId) :
    (flattenChild walk n state c).2.cells.size = state.2.cells.size := by
  rw [flattenChild]
  split
  · rfl
  · simp only
    split
    · rw [size_setParent, size_adopt, walks]
    · exact walks c _

theorem size_flattenWithin (depth : Nat) (n : NodeId) (f : Forest) :
    (flattenWithin depth n f).cells.size = f.cells.size := by
  induction depth generalizing n f with
  | zero => rfl
  | succ depth ih =>
    exact (size_mergeWithin _ _ _).trans ((size_setChildren _ _ _).trans (size_foldl (size_flattenChild ih n) _ _))

theorem size_replace {n m : NodeId} (replaced : f.replace n m = .ok g) : g.cells.size = f.cells.size := by
  unfold replace at replaced
  split at replaced
  · cases replaced
  · split at replaced
    · cases replaced
    · cases replaced
      rw [size_setParent, size_setParent, size_setChildren]

end Descent.Markup.Forest
