import Descent.Proofs.Markup.Merging

/-!
# Unwrapping inline tags

Unwrapping leaves out every inline tag below a tag, puts its children in its place, and joins the texts that come to
stand next to each other. `Tree.flattened` does the first everywhere and then the second everywhere. The walk through a
forest does both at each tag on the way up, so the children of an inline tag have been joined before they move up, and
are joined again where they arrive. Both come to the same tree, because joining in two pieces first makes no difference.

Results:
1. `merged_splicedAll`: joining on the way up comes to joining at the end.
2. `Additive.flattened`, `plain_flattened`: what a flattened tree keeps, and that it has no inline tag inside.
3. `flattenWithin_rebuilds`, `flattenWithin_of_plain`: what the walk builds, and when it changes nothing.
4. `flattenInline_exact`: unwrapping any tree of distinct nodes.
-/

namespace Descent.Markup

open scoped List

namespace Tree

/-! ## Definitions -/

/-- A tag with an inline name, void tags excluded. -/
def isInline : Tree → Bool
  | tag _ name _ _ => name ∈ inlineNames
  | _ => false

mutual
/-- What takes the place of a tree where inline tags are left out. -/
def opened : Tree → List Tree
  | tag root name attributes children =>
    if name ∈ inlineNames then openedAll children else [tag root name attributes (openedAll children)]
  | leaf => [leaf]

def openedAll : List Tree → List Tree
  | [] => []
  | t :: ts => opened t ++ openedAll ts
end

/-- The tree without the inline tags below its root. -/
def unwrapped : Tree → Tree
  | tag root name attributes children => tag root name attributes (openedAll children)
  | leaf => leaf

/-- The tree without the inline tags below its root, and then with runs of texts joined at every level. -/
def flattened (t : Tree) : Tree := t.unwrapped.merged

/-- A tag without what stands in it, if it is not inline. -/
def landmark : Tree → List Tree
  | text _ _ => []
  | void root name attributes => [void root name attributes]
  | tag root name attributes _ => if name ∈ inlineNames then [] else [tag root name attributes []]

variable {t u : Tree} {ts us : List Tree}

/-! ## 1. Joining on the way up -/

/-- What the walk puts in the place of a child. -/
def spliced (t : Tree) : List Tree :=
  if t.isInline then t.flattened.children else [t.flattened]

def splicedAll (ts : List Tree) : List Tree := ts.flatMap spliced

theorem mergedEach_append : mergedEach (ts ++ us) = mergedEach ts ++ mergedEach us := by
  rw [mergedEach_eq_map, mergedEach_eq_map, mergedEach_eq_map, List.map_append]

theorem mergedEach_joinTexts_mergedEach :
    mergedEach (joinTexts (mergedEach ts)) = joinTexts (mergedEach ts) := by
  rw [mergedEach_eq_map]
  refine (List.map_congr_left fun u mem => ?_).trans (List.map_id _)
  rcases mem_joinTexts mem with isText | mem
  · exact merged_of_joined (joined_of_isText isText)
  · rw [mergedEach_eq_map] at mem
    obtain ⟨c, -, rfl⟩ := List.mem_map.mp mem
    exact c.merged_merged

/-- What was merged and joined before it moved up is merged and joined to the same as what was not. -/
theorem joinTexts_spliced (t : Tree) :
    joinTexts (mergedEach t.spliced) = joinTexts (mergedEach t.opened) := by
  cases t with
  | text root content => rfl
  | void root name attributes => rfl
  | tag root name attributes children =>
    rw [spliced, isInline, opened]
    by_cases inline : name ∈ inlineNames
    · rw [if_pos (decide_eq_true inline), if_pos inline]
      show joinTexts (mergedEach (joinTexts (mergedEach (openedAll children)))) = _
      rw [mergedEach_joinTexts_mergedEach, joinTexts_joinTexts]
    · rw [if_neg (by simpa using inline), if_neg inline]
      show joinTexts [(merged _).merged] = joinTexts [merged _]
      rw [merged_merged]
      rfl

theorem joinTexts_splicedAll (ts : List Tree) :
    joinTexts (mergedEach (splicedAll ts)) = joinTexts (mergedEach (openedAll ts)) := by
  induction ts with
  | nil => rfl
  | cons t ts ih =>
    rw [splicedAll, List.flatMap_cons, ← splicedAll, openedAll, mergedEach_append, mergedEach_append, joinTexts_append,
      joinTexts_spliced, ih, ← joinTexts_append]

/-- Merging the spliced children of a tag makes the flattened tag. -/
theorem merged_splicedAll (root : NodeId) (name : Text) (attributes : List Attribute) (children : List Tree) :
    (tag root name attributes (splicedAll children)).merged = (tag root name attributes children).flattened := by
  rw [merged, joinTexts_splicedAll]
  rfl

/-! ## 2. Flattened trees -/

/-- A reading of single nodes that does not depend on how a text is divided, nor on what stands in a tag. -/
structure Additive {α : Type} (reading : Tree → List α) : Prop where
  text : ∀ n m a b, reading (text n (a ++ b)) = reading (text n a) ++ reading (text m b)
  tag : ∀ n name attributes cs ds, reading (tag n name attributes cs) = reading (tag n name attributes ds)

namespace Additive

variable {α : Type} {reading : Tree → List α} (additive : Additive reading)
include additive

theorem joinTexts (ts : List Tree) :
    (subtreesAll (joinTexts ts)).flatMap reading = (subtreesAll ts).flatMap reading := by
  induction ts with
  | nil => rfl
  | cons t ts ih =>
    rw [joinTexts_cons, subtreesAll_cons, List.flatMap_append, ← ih]
    rcases joinOnto_cases t (Tree.joinTexts ts) with ⟨-, joined⟩ | ⟨n, a, m, b, rest, rfl, same, joined⟩
    · rw [joined, subtreesAll_cons, List.flatMap_append]
    · rw [joined, same]
      simp only [subtreesAll_cons, subtrees, List.flatMap_append, List.flatMap_cons, List.flatMap_nil, List.append_nil,
        additive.text n m a b, List.append_assoc]

/-- Reading a merged tree comes to reading the tree. -/
theorem merged (t : Tree) : t.merged.subtrees.flatMap reading = t.subtrees.flatMap reading := by
  induction t with
  | text root content => rfl
  | void root name attributes => rfl
  | tag root name attributes children ih =>
    have each : (subtreesAll (mergedEach children)).flatMap reading = (subtreesAll children).flatMap reading := by
      induction children with
      | nil => rfl
      | cons c children ihs =>
        obtain ⟨first, others⟩ := List.forall_mem_cons.mp ih
        rw [mergedEach, subtreesAll_cons, subtreesAll_cons, List.flatMap_append, List.flatMap_append, first, ihs others]
    rw [Tree.merged, subtrees, List.flatMap_cons, additive.joinTexts, each, subtrees, List.flatMap_cons]
    exact congrArg (· ++ _) (additive.tag ..)

theorem merged_children (t : Tree) :
    (subtreesAll t.merged.children).flatMap reading = (subtreesAll t.children).flatMap reading := by
  have whole := additive.merged t
  have top : reading t.merged = reading t := by
    cases t with
    | text root content => rfl
    | void root name attributes => rfl
    | tag root name attributes children => exact additive.tag ..
  rw [subtrees_eq, subtrees_eq, List.flatMap_cons, List.flatMap_cons, top] at whole
  exact List.append_cancel_left whole

variable (skips : ∀ t : Tree, t.isInline = true → reading t = [])
include skips

theorem opened (t : Tree) : (subtreesAll t.opened).flatMap reading = t.subtrees.flatMap reading := by
  induction t with
  | text root content => rfl
  | void root name attributes => rfl
  | tag root name attributes children ih =>
    have each : (subtreesAll (openedAll children)).flatMap reading = (subtreesAll children).flatMap reading := by
      induction children with
      | nil => rfl
      | cons c children ihs =>
        obtain ⟨first, others⟩ := List.forall_mem_cons.mp ih
        rw [openedAll, subtreesAll_append, subtreesAll_cons, List.flatMap_append, List.flatMap_append, first,
          ihs others]
    rw [Tree.opened]
    split
    · next inline =>
      have skipped : reading (.tag root name attributes children) = [] := skips _ (decide_eq_true inline)
      rw [each, subtrees, List.flatMap_cons, skipped, List.nil_append]
    · rw [subtreesAll_singleton, subtrees, subtrees, List.flatMap_cons, List.flatMap_cons, each]
      exact congrArg (· ++ _) (additive.tag ..)

/-- A reading that passes over inline tags reads the same below the root of a flattened tree. -/
theorem flattened (t : Tree) :
    (subtreesAll t.flattened.children).flatMap reading = (subtreesAll t.children).flatMap reading := by
  rw [Tree.flattened, additive.merged_children]
  cases t with
  | text root content => rfl
  | void root name attributes => rfl
  | tag root name attributes children =>
    show (subtreesAll (openedAll children)).flatMap reading = (subtreesAll children).flatMap reading
    induction children with
    | nil => rfl
    | cons c children ih =>
      rw [openedAll, subtreesAll_append, subtreesAll_cons, List.flatMap_append, List.flatMap_append,
        additive.opened skips, ih]

end Additive

theorem additive_ownText : Additive ownText := ⟨fun _ _ _ _ => rfl, fun _ _ _ _ _ => rfl⟩

theorem additive_landmark : Additive landmark := ⟨fun _ _ _ _ => rfl, fun _ _ _ _ _ => rfl⟩

theorem ownText_of_isInline (t : Tree) (inline : t.isInline = true) : t.ownText = [] := by
  cases t with
  | text root content => cases inline
  | void root name attributes => rfl
  | tag root name attributes children => rfl

theorem landmark_of_isInline (t : Tree) (inline : t.isInline = true) : t.landmark = [] := by
  cases t with
  | text root content => rfl
  | void root name attributes => cases inline
  | tag root name attributes children => exact if_pos (of_decide_eq_true inline)

/-- The inline tags, one by one. -/
def inlineRoot (t : Tree) : List NodeId := if t.isInline then [t.root] else []

theorem additive_inlineRoot : Additive inlineRoot := ⟨fun _ _ _ _ => rfl, fun _ _ _ _ _ => rfl⟩

/-- No tree among these or inside them is an inline tag. -/
def Plain (ts : List Tree) : Prop := ∀ u ∈ subtreesAll ts, u.isInline = false

theorem plain_iff : Plain ts ↔ (subtreesAll ts).flatMap inlineRoot = [] := by
  rw [List.flatMap_eq_nil_iff]
  refine forall₂_congr fun u _ => ?_
  cases inline : u.isInline <;> simp [inlineRoot, inline]

theorem plain_append : Plain (ts ++ us) ↔ Plain ts ∧ Plain us := by
  rw [Plain, subtreesAll_append, List.forall_mem_append, Plain, Plain]

theorem plain_opened (t : Tree) : Plain t.opened := by
  induction t with
  | text root content => exact List.forall_mem_singleton.mpr rfl
  | void root name attributes => exact List.forall_mem_singleton.mpr rfl
  | tag root name attributes children ih =>
    have below : Plain (openedAll children) := by
      induction children with
      | nil => exact List.forall_mem_nil _
      | cons c children ihs =>
        obtain ⟨first, others⟩ := List.forall_mem_cons.mp ih
        exact plain_append.mpr ⟨first, ihs others⟩
    rw [opened]
    split
    · exact below
    · next other =>
      rw [Plain, subtreesAll_singleton]
      exact List.forall_mem_cons.mpr ⟨decide_eq_false other, below⟩

/-- There is no inline tag below the root of a flattened tree. -/
theorem plain_flattened (t : Tree) : Plain t.flattened.children := by
  rw [plain_iff, flattened, additive_inlineRoot.merged_children, ← plain_iff]
  cases t with
  | text root content => exact List.forall_mem_nil _
  | void root name attributes => exact List.forall_mem_nil _
  | tag root name attributes children =>
    show Plain (openedAll children)
    induction children with
    | nil => exact List.forall_mem_nil _
    | cons c children ih => exact plain_append.mpr ⟨plain_opened c, ih⟩

end Tree

/-! ## 3. The walk -/

namespace Forest

open Markup.Tree

variable {f g h : Forest} {t c : Tree} {done : List Tree} {n : NodeId}

/-- The children of a tag move out of it, and the tag has no parent any more. -/
theorem Rebuilds.release (held : f.Holds t) (n : NodeId) : Rebuilds f (f.release n t.root) [t] t.children := by
  have isNode : t.root < f.cells.size := lt_size_of_content held.root
  have children : f.children t.root = t.children.map root := held.children
  have moved : ∀ x ∈ f.children t.root, x ∈ idsAll t.children := fun x mem => by
    rw [children] at mem
    obtain ⟨c, child, rfl⟩ := List.mem_map.mp mem
    exact List.mem_map_of_mem (mem_subtreesAll.mpr ⟨c, child, c.mem_subtrees_self⟩)
  refine ⟨?_, ?_, fun x other => ?_, fun x mem other => ?_⟩
  · refine HoldsAll.of_content (holds_iff.mp held).2 fun x _ => ?_
    rw [Forest.release, content?_setParent, content?_adopt]
  · rw [idsAll_singleton]
    exact t.idsAll_children_sublist
  · rw [idsAll_singleton, ids_eq, List.mem_cons, not_or] at other
    rw [Forest.release, setParent, get?_modify_of_ne other.1, get?_adopt_of_notMem fun mem => other.2 (moved x mem)]
  · rw [idsAll_singleton, ids_eq, List.mem_cons] at mem
    rw [mem.resolve_right other, Forest.release]
    exact parent?_setParent_self (by rwa [size_adopt])

/-- The nodes kept so far, the latest first, are the roots of what took the place of the trees passed so far. -/
structure Splices (f : Forest) (done : List Tree) (state : List NodeId × Forest) : Prop where
  roots : state.1 = ((splicedAll done).map root).reverse
  rebuilds : Rebuilds f state.2 done (splicedAll done)

theorem splicedAll_concat (done : List Tree) (c : Tree) : splicedAll (done ++ [c]) = splicedAll done ++ c.spliced := by
  rw [splicedAll, List.flatMap_append, List.flatMap_singleton, splicedAll]

theorem Splices.push {state : List NodeId × Forest} (splices : Splices f done state)
    (rework : Rebuilds state.2 h [c] c.spliced) (distinct : (idsAll (done ++ [c])).Nodup) :
    Splices f (done ++ [c]) ((c.spliced.map root).reverse ++ state.1, h) := by
  refine ⟨?_, ?_⟩
  · rw [splicedAll_concat, List.map_append, List.reverse_append, splices.roots]
  · rw [splicedAll_concat]
    exact splices.rebuilds.append rework distinct

theorem flattenChild_splices {walk : NodeId → Forest → Forest} {state : List NodeId × Forest} (held : f.Holds c)
    (distinct : (idsAll (done ++ [c])).Nodup)
    (walks : ∀ g : Forest, g.Holds c → c.tagName?.isSome → Rebuilds g (walk c.root g) [c] [c.flattened])
    (splices : Splices f done state) : Splices f (done ++ [c]) (flattenChild walk n state c.root) := by
  obtain ⟨kept, g⟩ := state
  have still : g.Holds c := splices.rebuilds.holds_next held distinct
  cases c with
  | text k content =>
    have name : g.tagName? k = none := still.tagName?
    simp only [flattenChild, Tree.root, name]
    exact splices.push (.refl (holdsAll_singleton.mpr still)) distinct
  | void k name attributes =>
    have name : g.tagName? k = none := still.tagName?
    simp only [flattenChild, Tree.root, name]
    exact splices.push (.refl (holdsAll_singleton.mpr still)) distinct
  | tag k name attributes children =>
    have named : g.tagName? k = some name := still.tagName?
    have rework := walks g still rfl
    have heldFlat : (walk k g).Holds (Tree.tag k name attributes children).flattened :=
      holdsAll_singleton.mp rework.held
    simp only [flattenChild, Tree.root, named]
    by_cases inline : name ∈ inlineNames
    · -- The children that the tag has by now take its place.
      have roots : (walk k g).children k = (Tree.tag k name attributes children).flattened.children.map root :=
        heldFlat.children
      have place : (Tree.tag k name attributes children).spliced =
          (Tree.tag k name attributes children).flattened.children := if_pos (decide_eq_true inline)
      have moved : Rebuilds g ((walk k g).release n k) [.tag k name attributes children] _ :=
        rework.trans (Rebuilds.release heldFlat n)
      rw [← place] at moved roots
      rw [if_pos inline, roots]
      have pushed := splices.push moved distinct
      rwa [Forest.release, roots] at pushed
    · have place : (Tree.tag k name attributes children).spliced = [(Tree.tag k name attributes children).flattened] :=
        if_neg (by simpa [isInline] using inline)
      rw [← place] at rework
      rw [if_neg inline]
      have pushed := splices.push rework distinct
      rwa [place] at pushed

theorem flattenWithin_succ (depth : Nat) (n : NodeId) (f : Forest) :
    flattenWithin (depth + 1) n f =
      (((f.children n).foldl (flattenChild (flattenWithin depth) n) ([], f)).2.setChildren n
        ((f.children n).foldl (flattenChild (flattenWithin depth) n) ([], f)).1.reverse).mergeTexts n :=
  rfl

/-- The walk builds the flattened tree. -/
theorem flattenWithin_rebuilds {depth : Nat} (isTag : t.tagName?.isSome) (held : f.Holds t) (distinct : t.ids.Nodup)
    (deep : t.ids.length ≤ depth) : Rebuilds f (flattenWithin depth t.root f) [t] [t.flattened] := by
  induction depth generalizing f t with
  | zero =>
    rw [ids_eq] at deep
    exact absurd deep (Nat.not_succ_le_zero _)
  | succ depth ih =>
    obtain ⟨n, name, attributes, children, rfl⟩ := exists_tag isTag
    have heldChildren : f.HoldsAll children := (holds_iff.mp held).2
    have distinctChildren : (idsAll children).Nodup := distinct.of_cons
    have deepEnough : ∀ {c}, c ∈ children → c.ids.length ≤ depth := fun mem =>
      (length_ids_le mem).trans (Nat.le_of_succ_le_succ deep)
    have splices : Splices f children
        ((children.map root).foldl (flattenChild (flattenWithin depth) n) ([], f)) := by
      refine foldl_induct ⟨rfl, .refl (List.forall_mem_nil _)⟩ fun done c todo state split splices => ?_
      have mem : c ∈ children := by simp [split]
      exact flattenChild_splices (holdsAll_iff.mp heldChildren c mem) (nodup_passed split distinctChildren)
        (fun g still isTag => ih isTag still (nodup_of_mem mem distinctChildren) (deepEnough mem)) splices
    have roots : f.children n = children.map root := held.children
    -- The tag with the spliced children, and then merged.
    have spliced := splices.rebuilds.close held distinct
    have sublist := spliced.sublist
    rw [idsAll_singleton, idsAll_singleton] at sublist
    have merged := mergeTexts_merges (holdsAll_singleton.mp spliced.held) (distinct.sublist sublist)
    rw [merged_splicedAll] at merged
    rw [Tree.root, flattenWithin_succ, roots, splices.roots, List.reverse_reverse]
    exact spliced.trans merged.toRebuilds

/-- Where no tag inside is inline and no two texts stand next to each other, the walk changes nothing. -/
theorem flattenWithin_of_plain (depth : Nat) (held : f.Holds t) (plain : Plain t.children) (joined : t.Joined) :
    flattenWithin depth t.root f = f := by
  induction depth generalizing t with
  | zero => rfl
  | succ depth ih =>
    have heldChildren : f.HoldsAll t.children := (holds_iff.mp held).2
    have splices : (t.children.map root).foldl (flattenChild (flattenWithin depth) t.root) ([], f) =
        ((t.children.map root).reverse, f) := by
      refine foldl_keeps fun done c todo split => ?_
      have mem : c ∈ t.children := by simp [split]
      have heldChild := holdsAll_iff.mp heldChildren c mem
      have inside : ∀ u ∈ c.subtrees, u.isInline = false := fun u below => plain u (mem_subtreesAll.mpr ⟨c, mem, below⟩)
      have walked : flattenWithin depth c.root f = f :=
        ih heldChild (fun u below => inside u (by rw [subtrees_eq]; exact .tail _ below))
          (joined.sub (mem_subtrees_of_child mem))
      have outer := inside c c.mem_subtrees_self
      simp only [flattenChild, heldChild.tagName?, walked]
      cases c with
      | text k content => rfl
      | void k name attributes => rfl
      | tag k name attributes children => exact if_neg (of_decide_eq_false outer)
    rw [flattenWithin_succ, held.children, splices, List.reverse_reverse, ← held.children, setChildren_children]
    exact mergeTexts_of_joined held joined

/-! ## 4. Any tree of distinct nodes -/

/-- Unwrapping inline tags leaves the flattened tree, whatever tree of distinct nodes hangs below the tag.

* The tag keeps its name and its attributes. In its tree every inline tag below it has been left out, with its children
  in its place, and after that every run of texts has become one text.
* So no tag inside is inline, and no two texts stand next to each other. The texts say the same one after another, and
  the other tags are kept in their order, with their names and attributes.
* A node that is left out has no parent any more, and nodes outside the tree are not touched.
* Unwrapping again changes nothing. -/
theorem flattenInline_exact (f : Forest) (n : NodeId) (name : Text) (attributes : List Attribute)
    (children : List Tree) :
    let t := Tree.tag n name attributes children
    let g := f.flattenInline n
    f.Holds t → t.ids.Nodup →
      g.Holds t.flattened ∧
      (t.flattened = .tag n name attributes t.flattened.children ∧ t.flattened = t.unwrapped.merged) ∧
      (∀ u ∈ subtreesAll t.flattened.children, u.isInline = false) ∧ t.flattened.Joined ∧
      (subtreesAll t.flattened.children).flatMap ownText = (subtreesAll t.children).flatMap ownText ∧
      (subtreesAll t.flattened.children).flatMap landmark = (subtreesAll t.children).flatMap landmark ∧
      (∀ x ∈ t.ids, x ∉ t.flattened.ids → g.parent? x = none) ∧
      (∀ x ∉ t.ids, g.get? x = f.get? x) ∧
      g.flattenInline n = g := by
  intro t g held distinct
  have rebuilds : Rebuilds f g [t] [t.flattened] :=
    flattenWithin_rebuilds rfl held distinct (held.length_ids_le distinct)
  have heldFlat : g.Holds t.flattened := holdsAll_singleton.mp rebuilds.held
  have dropped := rebuilds.dropped
  rw [idsAll_singleton, idsAll_singleton] at dropped
  exact ⟨heldFlat, ⟨rfl, rfl⟩, t.plain_flattened, t.unwrapped.joined_merged,
    additive_ownText.flattened ownText_of_isInline t, additive_landmark.flattened landmark_of_isInline t, dropped,
    fun x other => rebuilds.outside x (idsAll_singleton ▸ other),
    flattenWithin_of_plain _ heldFlat t.plain_flattened t.unwrapped.joined_merged⟩

/-- A paragraph with an inline tag inside another one, and one below a tag that is not inline. -/
def wrapped : Tree :=
  .tag 10 (Descent.text "p") [] [.text 0 (Descent.text "Wo"),
    .tag 4 (Descent.text "b") [] [.text 1 (Descent.text "r"), .tag 3 (Descent.text "i") [] [.text 2 []]],
    .void 5 (Descent.text "br") [],
    .tag 9 (Descent.text "li") [] [.text 6 (Descent.text "x"),
      .tag 8 (Descent.text "span") [] [.text 7 (Descent.text "y")]]]

/-- The texts of the inline tags have gone to the texts in front of them. The tags have no parent any more. -/
theorem wrapped_flattened :
    let f := (empty.plant wrapped.node).2
    let g := f.flattenInline 10
    f.Holds wrapped ∧ wrapped.ids.Nodup ∧
    g.children 10 = [0, 5, 9] ∧ wrapped.flattened.ids = [10, 0, 5, 9, 6] ∧
    g.written 10 = .ok (Descent.text "<p>Wor<br><li>xy</li></p>") ∧
    (g.parent? 4 = none ∧ g.parent? 3 = none ∧ g.parent? 8 = none) ∧
    g.flattenInline 10 = g := by
  intro f g
  have held : f.Holds wrapped := by decide +kernel
  have distinct : wrapped.ids.Nodup := by decide +kernel
  obtain ⟨flat, -, -, -, -, -, dropped, -, again⟩ := flattenInline_exact f 10 _ _ _ held distinct
  change g.Holds wrapped.flattened at flat
  have left : wrapped.flattened.ids = [10, 0, 5, 9, 6] := by decide +kernel
  have roots : wrapped.flattened.children.map root = [0, 5, 9] := by decide +kernel
  have spelled : wrapped.flattened.node.written = Descent.text "<p>Wor<br><li>xy</li></p>" := by decide +kernel
  have written := written_of_holds flat (by rw [left]; decide)
  rw [spelled] at written
  have out : ∀ x ∈ wrapped.ids, x ∉ [10, 0, 5, 9, 6] → g.parent? x = none := by
    rw [← left]
    exact dropped
  exact ⟨held, distinct, flat.children.trans roots, left, written,
    ⟨out 4 (by decide) (by decide), out 3 (by decide) (by decide), out 8 (by decide) (by decide)⟩, again⟩

end Forest
end Descent.Markup
