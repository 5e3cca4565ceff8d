import Descent.Proofs.Markup.Trees
import Mathlib.Data.List.SplitBy

/-!
# Joined texts

A run of texts that stand next to each other can be joined into its first text. A tree is merged if that has been done
for all runs below each of its tags. The definitions speak of runs that are as long as possible; the lemmas take the
nodes one by one from the front, or put one more behind.

Results:
1. `joinTexts_cons`, `joinTexts_append`: runs of texts, node by node and piece by piece.
2. `joinTexts_concat_text`, `joinTexts_concat`: one node more behind others.
3. `written_merged`, `skeleton_merged`, `ids_merged_sublist`: what a merged tree keeps.
4. `joined_merged`, `merged_of_joined`: a merged tree has nothing left to merge.
-/

namespace Descent.Markup

open scoped List

namespace Tree

/-! ## Definitions -/

def ownText : Tree → Text
  | text _ content => content
  | _ => []

def bothTexts (t u : Tree) : Bool := t.isText && u.isText

/-- A run of texts as its first text with the contents of all of them. Any other node is a run of its own. -/
def joinRun : List Tree → List Tree
  | text root content :: others => [text root ((text root content :: others).flatMap ownText)]
  | run => run

/-- Neighbouring nodes with every run of texts joined. -/
def joinTexts (ts : List Tree) : List Tree := (ts.splitBy bothTexts).flatMap joinRun

mutual
/-- The tree with runs of texts joined at every level. -/
def merged : Tree → Tree
  | tag root name attributes children => tag root name attributes (joinTexts (mergedEach children))
  | leaf => leaf

def mergedEach : List Tree → List Tree
  | [] => []
  | t :: ts => merged t :: mergedEach ts
end

/-- No two texts stand next to each other. -/
def Spaced (ts : List Tree) : Prop := ts.IsChain fun t u => bothTexts t u = false

/-- No tag of the tree has two texts next to each other among its children. -/
def Joined (t : Tree) : Prop := ∀ u ∈ t.subtrees, Spaced u.children

mutual
/-- The tags of the tree, void ones included, with what they stand in. -/
def skeleton : Tree → Tree
  | tag root name attributes children => tag root name attributes (skeletonAll children)
  | leaf => leaf

def skeletonAll : List Tree → List Tree
  | [] => []
  | text _ _ :: ts => skeletonAll ts
  | t :: ts => skeleton t :: skeletonAll ts
end

variable {t u : Tree} {ts us : List Tree}

/-! ## 1. Node by node -/

/-- A node in front of others, joined to the text that they start with if it is a text too. -/
def joinOnto : Tree → List Tree → List Tree
  | text root before, text _ after :: rest => text root (before ++ after) :: rest
  | t, rest => t :: rest

theorem exists_text (isText : t.isText = true) : ∃ n content, t = text n content := by
  cases t with
  | text n content => exact ⟨n, content, rfl⟩
  | void n name attributes => cases isText
  | tag n name attributes children => cases isText

theorem joinOnto_of_apart (apart : ∀ u ∈ ts.head?, bothTexts t u = false) : t.joinOnto ts = t :: ts := by
  cases t with
  | text root before =>
    cases ts with
    | nil => rfl
    | cons u ts =>
      have noText : bothTexts (text root before) u = false := apart u rfl
      cases u with
      | text root' after => cases noText
      | void root' name attributes => rfl
      | tag root' name attributes children => rfl
  | void root name attributes => rfl
  | tag root name attributes children => rfl

/-- A node is put in front of others, or it is a text in front of a text and takes its place. -/
theorem joinOnto_cases (t : Tree) (ts : List Tree) :
    ((∀ u ∈ ts.head?, bothTexts t u = false) ∧ t.joinOnto ts = t :: ts) ∨
    ∃ n a m b rest, t = text n a ∧ ts = text m b :: rest ∧ t.joinOnto ts = text n (a ++ b) :: rest := by
  by_cases apart : ∀ u ∈ ts.head?, bothTexts t u = false
  · exact .inl ⟨apart, joinOnto_of_apart apart⟩
  · refine .inr ?_
    obtain ⟨u, first, both⟩ : ∃ u, ts.head? = some u ∧ bothTexts t u = true := by simpa using apart
    obtain ⟨rest, rfl⟩ := List.head?_eq_some_iff.mp first
    obtain ⟨n, a, rfl⟩ := exists_text (Bool.and_eq_true_iff.mp both).1
    obtain ⟨m, b, rfl⟩ := exists_text (Bool.and_eq_true_iff.mp both).2
    exact ⟨n, a, m, b, rest, rfl, rfl, rfl⟩

theorem joinOnto_joinOnto {n m : NodeId} {a b : Text} (rest : List Tree) :
    (text n a).joinOnto ((text m b).joinOnto rest) = (text n (a ++ b)).joinOnto rest := by
  cases rest with
  | nil => rfl
  | cons u rest =>
    cases u with
    | text k c => exact congrArg (text n · :: rest) (List.append_assoc a b c).symm
    | void k name attributes => rfl
    | tag k name attributes children => rfl

theorem exists_splitBy (t : Tree) (ts : List Tree) :
    ∃ run rest, (t :: ts).splitBy bothTexts = (t :: run) :: rest := by
  obtain ⟨flat, noEmpty, -⟩ := List.splitBy_eq_iff.mp (rfl : (t :: ts).splitBy bothTexts = _)
  cases runs : (t :: ts).splitBy bothTexts with
  | nil => exact absurd (List.splitBy_eq_nil.mp runs) (List.cons_ne_nil _ _)
  | cons run rest =>
    rw [runs] at flat noEmpty
    cases run with
    | nil => exact absurd (List.mem_cons_self ..) noEmpty
    | cons u run =>
      obtain rfl : t = u := (List.cons.inj flat).1
      exact ⟨run, rest, rfl⟩

/-- A text in front of a text belongs to its run. -/
theorem splitBy_cons_of_both {run : List Tree} {rest : List (List Tree)} (both : bothTexts t u = true)
    (runs : (u :: ts).splitBy bothTexts = (u :: run) :: rest) :
    (t :: u :: ts).splitBy bothTexts = (t :: u :: run) :: rest := by
  obtain ⟨flat, noEmpty, chains, breaks⟩ := List.splitBy_eq_iff.mp runs
  obtain ⟨first, others⟩ := List.forall_mem_cons.mp chains
  obtain ⟨next, breaks⟩ := List.isChain_cons.mp breaks
  refine List.splitBy_eq_iff.mpr ⟨congrArg (t :: ·) flat, fun mem => ?_, ?_, List.isChain_cons.mpr ⟨?_, breaks⟩⟩
  · rcases List.mem_cons.mp mem with empty | mem
    · cases empty
    · exact noEmpty (List.mem_cons_of_mem _ mem)
  · exact List.forall_mem_cons.mpr ⟨List.isChain_cons_cons.mpr ⟨both, first⟩, others⟩
  · intro next_run mem
    obtain ⟨_, some_node, apart⟩ := next next_run mem
    exact ⟨List.cons_ne_nil _ _, some_node, apart⟩

@[simp] theorem joinTexts_nil : joinTexts [] = [] := rfl

theorem joinTexts_singleton (t : Tree) : joinTexts [t] = [t] := by
  cases t with
  | text root content => exact congrArg (fun c => [text root c]) (List.append_nil content)
  | void root name attributes => rfl
  | tag root name attributes children => rfl

theorem joinTexts_cons (t : Tree) (ts : List Tree) : joinTexts (t :: ts) = t.joinOnto (joinTexts ts) := by
  cases ts with
  | nil =>
    have apart : ∀ u ∈ (joinTexts []).head?, bothTexts t u = false := fun u h => by cases h
    rw [joinTexts_singleton, joinOnto_of_apart apart, joinTexts_nil]
  | cons u ts =>
    obtain ⟨run, rest, runs⟩ := exists_splitBy u ts
    cases both : bothTexts t u with
    | true =>
      rw [joinTexts, joinTexts, splitBy_cons_of_both both runs, runs, List.flatMap_cons, List.flatMap_cons]
      obtain ⟨n, a, rfl⟩ := exists_text (Bool.and_eq_true_iff.mp both).1
      obtain ⟨m, b, rfl⟩ := exists_text (Bool.and_eq_true_iff.mp both).2
      rfl
    | false =>
      have head : (joinTexts (u :: ts)).head?.map isText = some u.isText := by
        rw [joinTexts, runs, List.flatMap_cons]
        cases u <;> rfl
      have apart : ∀ v ∈ (joinTexts (u :: ts)).head?, bothTexts t v = false := by
        intro v hv
        rw [hv, Option.map_some, Option.some.injEq] at head
        rw [bothTexts, head, ← bothTexts, both]
      have split := List.splitBy_append_cons (r := bothTexts) (l := [t]) (a := u) ts fun v hv => by
        rwa [← Option.some.inj hv]
      rw [joinOnto_of_apart apart, joinTexts, joinTexts, ← List.singleton_append, split, List.flatMap_append]
      exact congrArg (fun run => run ++ (List.splitBy bothTexts (u :: ts)).flatMap joinRun) (joinTexts_singleton t)

/-! ## 2. Piece by piece -/

theorem Spaced.joinOnto (spaced : Spaced ts) : Spaced (t.joinOnto ts) := by
  rcases joinOnto_cases t ts with ⟨apart, joined⟩ | ⟨n, a, m, b, rest, rfl, rfl, joined⟩
  · rw [joined]
    exact List.isChain_cons.mpr ⟨apart, spaced⟩
  · -- the joined text stands where the other text stood
    obtain ⟨apart, others⟩ := List.isChain_cons.mp spaced
    rw [joined]
    exact List.isChain_cons.mpr ⟨apart, others⟩

theorem spaced_joinTexts (ts : List Tree) : Spaced (joinTexts ts) := by
  induction ts with
  | nil => exact .nil
  | cons t ts ih =>
    rw [joinTexts_cons]
    exact ih.joinOnto

/-- Where no two texts stand next to each other, there is nothing to join. -/
theorem joinTexts_of_spaced (spaced : Spaced ts) : joinTexts ts = ts := by
  induction ts with
  | nil => rfl
  | cons t ts ih =>
    obtain ⟨apart, others⟩ := List.isChain_cons.mp spaced
    rw [joinTexts_cons, ih others, joinOnto_of_apart apart]

theorem joinTexts_joinTexts : joinTexts (joinTexts ts) = joinTexts ts := joinTexts_of_spaced (spaced_joinTexts ts)

theorem joinTexts_joinOnto_append : joinTexts (t.joinOnto ts ++ us) = t.joinOnto (joinTexts (ts ++ us)) := by
  rcases joinOnto_cases t ts with ⟨-, joined⟩ | ⟨n, a, m, b, rest, rfl, rfl, joined⟩
  · rw [joined, List.cons_append, joinTexts_cons]
  · rw [joined, List.cons_append, joinTexts_cons, ← joinOnto_joinOnto, List.cons_append, joinTexts_cons]

/-- It does not matter whether texts are joined in two pieces first. -/
theorem joinTexts_append (ts us : List Tree) : joinTexts (ts ++ us) = joinTexts (joinTexts ts ++ joinTexts us) := by
  induction ts with
  | nil => exact joinTexts_joinTexts.symm
  | cons t ts ih => rw [List.cons_append, joinTexts_cons, ih, joinTexts_cons, joinTexts_joinOnto_append]

/-- Behind the last text, a text is joined to it. -/
theorem joinTexts_concat_text {n m : NodeId} {a b : Text} (last : joinTexts ts = us ++ [text n a]) :
    joinTexts (ts ++ [text m b]) = us ++ [text n (a ++ b)] := by
  have pair : joinTexts [text n a, text m b] = [text n (a ++ b)] := by
    rw [joinTexts_cons, joinTexts_singleton]
    rfl
  have spaced : Spaced (us ++ [text n (a ++ b)]) := by
    have before : Spaced (us ++ [text n a]) := last ▸ spaced_joinTexts ts
    obtain ⟨first, -, apart⟩ := List.isChain_append.mp before
    refine List.isChain_append.mpr ⟨first, .singleton _, fun u hu v hv => ?_⟩
    obtain rfl := Option.some.inj hv
    exact apart u hu (text n a) rfl
  calc
    joinTexts (ts ++ [text m b]) = joinTexts (us ++ [text n a, text m b]) := by
      rw [joinTexts_append, last, joinTexts_singleton, List.append_assoc, List.singleton_append]
    _ = joinTexts (us ++ [text n (a ++ b)]) := by
      rw [joinTexts_append, pair, joinTexts_append us [text n (a ++ b)], joinTexts_singleton]
    _ = us ++ [text n (a ++ b)] := joinTexts_of_spaced spaced

/-- Anything else behind the last node stays on its own. -/
theorem joinTexts_concat (apart : ∀ l ∈ (joinTexts ts).getLast?, bothTexts l t = false) :
    joinTexts (ts ++ [t]) = joinTexts ts ++ [t] := by
  have spaced : Spaced (joinTexts ts ++ [t]) :=
    List.isChain_append.mpr ⟨spaced_joinTexts ts, .singleton _, fun l hl u hu => Option.some.inj hu ▸ apart l hl⟩
  rw [joinTexts_append, joinTexts_singleton, joinTexts_of_spaced spaced]

/-! ## 3. What is kept -/

theorem mergedEach_eq_map (ts : List Tree) : mergedEach ts = ts.map merged := by
  induction ts with
  | nil => rfl
  | cons t ts ih => rw [mergedEach, ih, List.map_cons]

theorem root_merged (t : Tree) : t.merged.root = t.root := by
  cases t <;> rfl

theorem isText_merged (t : Tree) : t.merged.isText = t.isText := by
  cases t <;> rfl

theorem written_joinOnto :
    Node.writtenAll (nodeAll (t.joinOnto ts)) = t.node.written ++ Node.writtenAll (nodeAll ts) := by
  rcases joinOnto_cases t ts with ⟨-, joined⟩ | ⟨n, a, m, b, rest, rfl, rfl, joined⟩
  · rw [joined, nodeAll, Node.writtenAll]
  · rw [joined]
    simp only [nodeAll, node, Node.writtenAll, Node.written, writtenText, List.flatMap_append, List.append_assoc]

theorem written_joinTexts (ts : List Tree) :
    Node.writtenAll (nodeAll (joinTexts ts)) = Node.writtenAll (nodeAll ts) := by
  induction ts with
  | nil => rfl
  | cons t ts ih => rw [joinTexts_cons, written_joinOnto, ih, nodeAll, Node.writtenAll]

/-- Texts are written as one as they are written one by one. -/
theorem written_merged (t : Tree) : t.merged.node.written = t.node.written := by
  induction t with
  | text root content => rfl
  | void root name attributes => rfl
  | tag root name attributes children ih =>
    have each : Node.writtenAll (nodeAll (mergedEach children)) = Node.writtenAll (nodeAll children) := by
      induction children with
      | nil => rfl
      | cons c children ihs =>
        obtain ⟨first, others⟩ := List.forall_mem_cons.mp ih
        rw [mergedEach, nodeAll, nodeAll, Node.writtenAll, Node.writtenAll, first, ihs others]
    rw [merged, node, Node.written, written_joinTexts, each, node, Node.written]

theorem skeletonAll_cons :
    skeletonAll (t :: ts) = if t.isText then skeletonAll ts else t.skeleton :: skeletonAll ts := by
  cases t <;> rfl

theorem skeleton_joinTexts (ts : List Tree) : skeletonAll (joinTexts ts) = skeletonAll ts := by
  induction ts with
  | nil => rfl
  | cons t ts ih =>
    rw [joinTexts_cons, skeletonAll_cons, ← ih]
    rcases joinOnto_cases t (joinTexts ts) with ⟨-, joined⟩ | ⟨n, a, m, b, rest, rfl, same, joined⟩
    · rw [joined, skeletonAll_cons]
    · rw [joined, same]
      rfl

/-- The tags are the same, in the same places. -/
theorem skeleton_merged (t : Tree) : t.merged.skeleton = t.skeleton := by
  induction t with
  | text root content => rfl
  | void root name attributes => rfl
  | tag root name attributes children ih =>
    have each : skeletonAll (mergedEach children) = skeletonAll children := by
      induction children with
      | nil => rfl
      | cons c children ihs =>
        obtain ⟨first, others⟩ := List.forall_mem_cons.mp ih
        rw [mergedEach, skeletonAll_cons, skeletonAll_cons, isText_merged, first, ihs others]
    rw [merged, skeleton, skeleton_joinTexts, each, skeleton]

theorem idsAll_joinOnto_sublist : idsAll (t.joinOnto ts) <+ t.ids ++ idsAll ts := by
  rcases joinOnto_cases t ts with ⟨-, joined⟩ | ⟨n, a, m, b, rest, rfl, rfl, joined⟩
  · rw [joined, idsAll_cons]
  · rw [joined]
    exact List.Sublist.cons_cons n (List.sublist_cons_self ..)

theorem idsAll_joinTexts_sublist (ts : List Tree) : idsAll (joinTexts ts) <+ idsAll ts := by
  induction ts with
  | nil => exact .slnil
  | cons t ts ih =>
    rw [joinTexts_cons, idsAll_cons]
    exact idsAll_joinOnto_sublist.trans (List.Sublist.append_left ih _)

/-- The nodes that are left are in the same order. -/
theorem ids_merged_sublist (t : Tree) : t.merged.ids <+ t.ids := by
  induction t with
  | text root content => exact List.Sublist.refl _
  | void root name attributes => exact List.Sublist.refl _
  | tag root name attributes children ih =>
    have each : idsAll (mergedEach children) <+ idsAll children := by
      induction children with
      | nil => exact .slnil
      | cons c children ihs =>
        obtain ⟨first, others⟩ := List.forall_mem_cons.mp ih
        rw [mergedEach, idsAll_cons, idsAll_cons]
        exact first.append (ihs others)
    exact ((idsAll_joinTexts_sublist _).trans each).cons_cons root

/-! ## 4. What is joined -/

theorem Joined.sub (joined : t.Joined) (inside : u ∈ t.subtrees) : u.Joined := fun v below =>
  joined v (mem_subtrees_trans inside below)

theorem mem_joinTexts (mem : u ∈ joinTexts ts) : u.isText = true ∨ u ∈ ts := by
  induction ts with
  | nil => cases mem
  | cons t ts ih =>
    rw [joinTexts_cons] at mem
    rcases joinOnto_cases t (joinTexts ts) with ⟨-, joined⟩ | ⟨n, a, m, b, rest, rfl, same, joined⟩
    · rw [joined] at mem
      rcases List.mem_cons.mp mem with rfl | mem
      · exact .inr (List.mem_cons_self ..)
      · exact (ih mem).imp_right (List.mem_cons_of_mem _)
    · rw [joined] at mem
      rcases List.mem_cons.mp mem with rfl | mem
      · exact .inl rfl
      · exact (ih (same ▸ List.mem_cons_of_mem _ mem)).imp_right (List.mem_cons_of_mem _)

theorem joined_of_isText (isText : t.isText = true) : t.Joined := by
  obtain ⟨n, content, rfl⟩ := exists_text isText
  exact List.forall_mem_singleton.mpr .nil

/-- No two texts are left next to each other. -/
theorem joined_merged (t : Tree) : t.merged.Joined := by
  induction t with
  | text root content => exact joined_of_isText rfl
  | void root name attributes => exact List.forall_mem_singleton.mpr .nil
  | tag root name attributes children ih =>
    refine List.forall_mem_cons.mpr ⟨spaced_joinTexts _, fun u inside => ?_⟩
    obtain ⟨c, mem, inside⟩ := mem_subtreesAll.mp inside
    rcases mem_joinTexts mem with isText | mem
    · exact joined_of_isText isText u inside
    · rw [mergedEach_eq_map] at mem
      obtain ⟨d, child, rfl⟩ := List.mem_map.mp mem
      exact ih d child u inside

/-- Where no two texts stand next to each other, there is nothing to merge. -/
theorem merged_of_joined (joined : t.Joined) : t.merged = t := by
  induction t with
  | text root content => rfl
  | void root name attributes => rfl
  | tag root name attributes children ih =>
    have each : mergedEach children = children := by
      rw [mergedEach_eq_map]
      refine (List.map_congr_left fun c mem => ?_).trans (List.map_id _)
      exact ih c mem (joined.sub (mem_subtrees_of_child mem))
    have spaced : Spaced children := joined _ (mem_subtrees_self _)
    rw [merged, each, joinTexts_of_spaced spaced]

theorem merged_merged (t : Tree) : t.merged.merged = t.merged := merged_of_joined t.joined_merged

end Tree
end Descent.Markup
