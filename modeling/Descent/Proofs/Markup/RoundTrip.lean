import Descent.Proofs.Markup.Language

/-!
# Written forests are read back

Every forest is a spelling of itself as it is written: the characters that may not stand raw are written as entities,
in texts and in attribute values. What is read is a normal forest, so reading a written forest joins the texts that
stand next to each other and drops the empty ones. `Node.joinedAll` says so without reading anything.

Results:
1. `spellsAll_writtenAll`: the written form of a forest spells it.
2. `normalAll_joinedAll`, `writtenAll_joinedAll`, `needAll_joinedAll_le`: joining texts gives a normal forest that is
   written in the same way and takes up no more levels of nesting.
3. `read_writtenAll_eq_joinedAll`: reading undoes writing up to joined texts.
-/

namespace Descent.Markup

/-! ## Joined texts -/

/-- A node in front of others. An empty text is dropped, and any other text is joined to the one that the others start
with, if they do. -/
def Node.joinOnto : Node → List Node → List Node
  | .text [], rest => rest
  | .text before, .text after :: rest => .text (before ++ after) :: rest
  | n, rest => n :: rest

mutual
/-- The node with the texts below it joined. -/
def Node.joined : Node → Node
  | .text content => .text content
  | .void name attributes => .void name attributes
  | .tag name attributes children => .tag name attributes (Node.joinedAll children)

/-- The nodes with neighbouring texts joined and empty ones dropped, at every level. -/
def Node.joinedAll : List Node → List Node
  | [] => []
  | n :: ns => n.joined.joinOnto (Node.joinedAll ns)
end

/-! ## Forests with proper names -/

mutual
/-- Names are names, and exactly the tags with void names are void. Texts and values are any texts at all. -/
def Node.WellNamed : Node → Prop
  | .text _ => True
  | .void name attributes => IsName name ∧ name ∈ voidNames ∧ ∀ a ∈ attributes, IsName a.key
  | .tag name attributes children =>
    IsName name ∧ name ∉ voidNames ∧ (∀ a ∈ attributes, IsName a.key) ∧ Node.WellNamedAll children

/-- The nodes of a forest are well named. -/
def Node.WellNamedAll : List Node → Prop
  | [] => True
  | n :: ns => n.WellNamed ∧ Node.WellNamedAll ns
end

mutual
/-- The number of nodes on the longest path from a node down to one without children. -/
def Node.height : Node → Nat
  | .text _ => 1
  | .void _ _ => 1
  | .tag _ _ children => 1 + Node.heightAll children

/-- The number of nodes on the longest path from a root of the forest down. -/
def Node.heightAll : List Node → Nat
  | [] => 0
  | n :: ns => max n.height (Node.heightAll ns)
end

/-! ## 1. Written forms are spellings -/

namespace RoundTripLemmas

theorem spells_amp {raw : CodePoint → Prop} : SpellsPoint raw 0x26 (Descent.text "&amp;") :=
  .entity (by decide : (Descent.text "amp", 0x26) ∈ entities)

theorem spellsPoint_text (c : CodePoint) : SpellsPoint RawInText c (writtenTextPoint c) := by
  unfold writtenTextPoint
  split
  · next h =>
    subst h
    exact spells_amp
  · next notAmp =>
    split
    · next h =>
      subst h
      exact .entity (by decide : (Descent.text "lt", 0x3C) ∈ entities)
    · next notLt =>
      split
      · next h =>
        subst h
        exact .entity (by decide : (Descent.text "gt", 0x3E) ∈ entities)
      · next notGt => exact .raw ⟨notLt, notGt, notAmp⟩

theorem spellsPoint_value (c : CodePoint) : SpellsPoint (RawInValue 0x22) c (writtenValuePoint c) := by
  unfold writtenValuePoint
  split
  · next h =>
    subst h
    exact spells_amp
  · next notAmp =>
    split
    · next h =>
      subst h
      exact .entity (by decide : (Descent.text "quot", 0x22) ∈ entities)
    · next notQuot =>
      split
      · next h =>
        subst h
        exact .entity (by decide : (Descent.text "apos", 0x27) ∈ entities)
      · exact .raw ⟨notQuot, notAmp⟩

/-- Code points written one by one, each as a spelling of its own. -/
theorem spellsText_flatMap {raw : CodePoint → Prop} {writtenPoint : CodePoint → Text}
    (points : ∀ c, SpellsPoint raw c (writtenPoint c)) (content : Text) :
    SpellsText raw content (content.flatMap writtenPoint) := by
  induction content with
  | nil => exact .nil
  | cons c content ih => exact .cons (points c) ih

theorem blank_nil : Blank [] := nofun

theorem blank_space : Blank [0x20] := by
  intro c hc
  rw [List.mem_singleton.mp hc]
  rfl

theorem spellsAttribute_written (a : Attribute) : SpellsAttribute a a.written := by
  have value := spellsText_flatMap spellsPoint_value a.value
  have spells : SpellsAttribute a
      (a.key ++ ([] ++ 0x3D :: ([] ++ 0x22 :: (a.value.flatMap writtenValuePoint ++ [0x22])))) :=
    .quoted blank_nil blank_nil (.inl rfl) value
  have same : a.written =
      a.key ++ ([] ++ 0x3D :: ([] ++ 0x22 :: (a.value.flatMap writtenValuePoint ++ [0x22]))) := by
    simp [Attribute.written, Descent.text]
  rw [same]
  exact spells

theorem spellsAttributes_written (attributes : List Attribute) :
    SpellsAttributes attributes (attributes.flatMap fun a => 0x20 :: a.written) := by
  induction attributes with
  | nil => exact .nil
  | cons a others ih =>
    have spells := SpellsAttributes.cons blank_space (spellsAttribute_written a) ih
    simpa using spells

theorem spellsTagAttributes_written (attributes : List Attribute) :
    SpellsTagAttributes attributes (attributes.flatMap fun a => 0x20 :: a.written) := by
  cases attributes with
  | nil => exact .none
  | cons a others =>
    have spells := SpellsTagAttributes.some (List.cons_ne_nil _ _) blank_space (spellsAttribute_written a)
      (spellsAttributes_written others)
    simpa using spells

theorem spellsHead_written (name : Text) (attributes : List Attribute) :
    SpellsHead name attributes (0x3C :: writtenHead name attributes) := by
  have spells : SpellsHead name attributes _ :=
    .opening blank_nil (spellsTagAttributes_written attributes) blank_nil
  simpa [writtenHead] using spells

end RoundTripLemmas

open RoundTripLemmas

mutual
/-- The written form of a node spells it. -/
theorem Node.spells_written (n : Node) : Spells n n.written := by
  cases n with
  | text content => exact .text (spellsText_flatMap spellsPoint_text content)
  | void name attributes =>
    have spells := Spells.void (spellsHead_written name attributes) (.inl rfl) blank_nil
    simpa [Node.written, writtenVoid] using spells
  | tag name attributes children =>
    have spells := Spells.tag (spellsHead_written name attributes) (Node.spellsAll_writtenAll children) blank_nil
      blank_nil
    simpa [Node.written, writtenTag, Descent.text] using spells

/-- The written form of a forest spells it. -/
theorem Node.spellsAll_writtenAll (ns : List Node) : SpellsAll ns (Node.writtenAll ns) := by
  cases ns with
  | nil => exact .nil
  | cons n ns => exact .cons n.spells_written (Node.spellsAll_writtenAll ns)
end

/-! ## 2. Joined forests -/

namespace RoundTripLemmas

theorem writtenAll_joinOnto (n : Node) (ns : List Node) :
    Node.writtenAll (n.joinOnto ns) = n.written ++ Node.writtenAll ns := by
  unfold Node.joinOnto
  split
  · rfl
  · simp [Node.writtenAll, Node.written, writtenText]
  · rfl

/-- Any text, or another node that is normal, makes a normal forest with the normal forest behind it. -/
theorem normalAll_joinOnto {n : Node} {ns : List Node} (normal : ¬ n.IsText → n.Normal) (normals : Node.NormalAll ns) :
    Node.NormalAll (n.joinOnto ns) := by
  cases n with
  | void name attributes => exact ⟨normal id, False.elim, normals⟩
  | tag name attributes children => exact ⟨normal id, False.elim, normals⟩
  | text content =>
    cases content with
    | nil => exact normals
    | cons c content =>
      cases ns with
      | nil => exact ⟨List.cons_ne_nil _ _, fun _ => nofun, trivial⟩
      | cons m rest =>
        cases m with
        | text after =>
          obtain ⟨-, apart, others⟩ := normals
          exact ⟨List.cons_ne_nil _ _, fun _ => apart trivial, others⟩
        | void name attributes => exact ⟨List.cons_ne_nil _ _, fun _ m hm => by cases hm; exact id, normals⟩
        | tag name attributes children => exact ⟨List.cons_ne_nil _ _, fun _ m hm => by cases hm; exact id, normals⟩

theorem needAll_joinOnto_le (n : Node) (ns : List Node) :
    Node.needAll (n.joinOnto ns) ≤ max n.need (Node.needAll ns) := by
  unfold Node.joinOnto
  split
  · exact Nat.le_max_right ..
  · exact Nat.le_max_right ..
  · exact Nat.le_refl _

end RoundTripLemmas

mutual
theorem Node.written_joined (n : Node) : n.joined.written = n.written := by
  cases n with
  | text content => rfl
  | void name attributes => rfl
  | tag name attributes children => rw [Node.joined, Node.written, Node.writtenAll_joinedAll children, Node.written]

/-- Joined texts are written as the texts that they are made of. -/
theorem Node.writtenAll_joinedAll (ns : List Node) : Node.writtenAll (Node.joinedAll ns) = Node.writtenAll ns := by
  cases ns with
  | nil => rfl
  | cons n ns =>
    rw [Node.joinedAll, writtenAll_joinOnto, n.written_joined, Node.writtenAll_joinedAll ns, Node.writtenAll]
end

mutual
theorem Node.normal_joined (n : Node) (named : n.WellNamed) (noText : ¬ n.joined.IsText) : n.joined.Normal := by
  cases n with
  | text content => exact absurd trivial noText
  | void name attributes => exact named
  | tag name attributes children =>
    obtain ⟨isName, noVoid, keys, others⟩ := named
    exact ⟨isName, noVoid, keys, Node.normalAll_joinedAll children others⟩

/-- Joining texts makes a well-named forest normal. -/
theorem Node.normalAll_joinedAll (ns : List Node) (named : Node.WellNamedAll ns) :
    Node.NormalAll (Node.joinedAll ns) := by
  cases ns with
  | nil => trivial
  | cons n ns => exact normalAll_joinOnto (n.normal_joined named.1) (Node.normalAll_joinedAll ns named.2)
end

mutual
theorem Node.need_joined_le (n : Node) : n.joined.need ≤ n.need := by
  cases n with
  | text content => exact Nat.le_refl _
  | void name attributes => exact Nat.le_refl _
  | tag name attributes children => exact Nat.add_le_add_left (Node.needAll_joinedAll_le children) 1

/-- Joining texts takes up no more levels of nesting. -/
theorem Node.needAll_joinedAll_le (ns : List Node) : Node.needAll (Node.joinedAll ns) ≤ Node.needAll ns := by
  cases ns with
  | nil => exact Nat.le_refl _
  | cons n ns =>
    have first := n.need_joined_le
    have others := Node.needAll_joinedAll_le ns
    calc
      Node.needAll (Node.joinedAll (n :: ns)) ≤ max n.joined.need (Node.needAll (Node.joinedAll ns)) :=
        needAll_joinOnto_le n.joined (Node.joinedAll ns)
      _ ≤ max n.need (Node.needAll ns) :=
        Nat.max_le.mpr ⟨Nat.le_trans first (Nat.le_max_left ..), Nat.le_trans others (Nat.le_max_right ..)⟩
end

mutual
theorem Node.need_le_height (n : Node) : n.need ≤ n.height + 1 := by
  cases n with
  | text content => exact Nat.le_succ 1
  | void name attributes => exact Nat.le_succ 1
  | tag name attributes children =>
    have children_le := Node.needAll_le_heightAll children
    rw [Node.need, Node.height]
    omega

/-- A forest takes up at most one level of nesting more than there are nodes on a path. -/
theorem Node.needAll_le_heightAll (ns : List Node) : Node.needAll ns ≤ Node.heightAll ns + 1 := by
  cases ns with
  | nil => exact Nat.le_refl 1
  | cons n ns =>
    have first := n.need_le_height
    have others := Node.needAll_le_heightAll ns
    rw [Node.needAll, Node.heightAll]
    omega
end

/-! ## 3. Reading what was written -/

namespace RoundTripLemmas

open LanguageLemmas

/-- What is read of any input is what is read of some source. -/
theorem exists_source_of_read {limits : Limits} {input : Input} {v : Value} (h : (read limits input).value = .ok v) :
    ∃ s, (read limits (.source s)).value = .ok v := by
  cases input with
  | source s => exact ⟨s, h⟩
  | bytes bs =>
    cases decoded : Utf8.decode bs with
    | ok t =>
      refine ⟨.ofText t, ?_⟩
      rw [← h, read, read, Grammar.read, Grammar.read, Grammar.parseInput, Grammar.parseInput, Limits.source,
        Limits.source, Input.decode, Input.decode, decoded]
    | error e =>
      rw [read, Grammar.read, Grammar.parseInput, Limits.source, Input.decode, decoded] at h
      cases h

/-- The written form of a forest is read as a normal forest with the same written form. -/
theorem read_of_writtenAll {limits : Limits} {ns : List Node} (unlimited : limits.size ≤ 0)
    (normal : Node.NormalAll ns) (deep : (Node.needAll ns : Int) ≤ limits.granted)
    (frames : grammar.HasFrames document limits (.ofText (Node.writtenAll ns))) :
    (read limits (.source (.ofText (Node.writtenAll ns)))).value = .ok (.list (ns.map .node)) := by
  refine read_of_spells (fun h => absurd h.1 (Int.not_lt.mpr unlimited)) normal ?_ ((needAll_le_room_iff ns).mpr deep)
    frames
  rw [Source.toText_ofText]
  exact Node.spellsAll_writtenAll ns

end RoundTripLemmas

open LanguageLemmas

/-- Reading undoes writing up to joined texts, without a limit on the size and as long as the interpreter has the frames
for the text that was written.

* A forest with proper names is read back from its written form as the same forest with neighbouring texts joined and
  empty ones dropped, whatever its texts and values are, if more levels of nesting are granted than there are nodes on a
  path. Written again, it gives the same text.
* What is read of any input is a forest, and it is read back from its written form as it is, wherever as many levels
  are granted as for the input or more than there are nodes on a path. -/
theorem read_writtenAll_eq_joinedAll (limits : Limits) (unlimited : limits.size ≤ 0) :
    (∀ ns, Node.WellNamedAll ns → (Node.heightAll ns : Int) < limits.granted →
      (grammar.HasFrames document limits (.ofText (Node.writtenAll ns)) →
        (read limits (.source (.ofText (Node.writtenAll ns)))).value = .ok (.list ((Node.joinedAll ns).map .node))) ∧
      Node.writtenAll (Node.joinedAll ns) = Node.writtenAll ns) ∧
    (∀ accepting input v, (read accepting input).value = .ok v →
      ∃ ns : List Node, v = .list (ns.map .node) ∧
        (accepting.granted ≤ limits.granted ∨ (Node.heightAll ns : Int) < limits.granted →
          grammar.HasFrames document limits (.ofText (Node.writtenAll ns)) →
          (read limits (.source (.ofText (Node.writtenAll ns)))).value = .ok v)) := by
  constructor
  · intro ns named deep
    have need := Nat.le_trans (Node.needAll_joinedAll_le ns) (Node.needAll_le_heightAll ns)
    have same := Node.writtenAll_joinedAll ns
    refine ⟨fun frames => ?_, same⟩
    rw [← same] at frames ⊢
    exact read_of_writtenAll unlimited (Node.normalAll_joinedAll ns named) (by omega) frames
  · intro accepting input v h
    obtain ⟨s, h⟩ := exists_source_of_read h
    obtain ⟨ns, rfl, normal, -, deep, -⟩ := exists_forest_of_read h
    refine ⟨ns, rfl, fun granted frames => read_of_writtenAll unlimited normal ?_ frames⟩
    have accepted := (needAll_le_room_iff ns).mp deep
    have need := Node.needAll_le_heightAll ns
    omega

/-- Texts next to each other, one of them empty and one that looks like an entity, in front of a tag with both quotation
marks in a value and a lone surrogate below it. -/
def scattered : List Node :=
  [.text (Descent.text "a<"), .text [], .text (Descent.text "&lt;"),
    .tag (Descent.text "p") [⟨Descent.text "k", Descent.text "'\"&quot;"⟩]
      [.text [], .void (Descent.text "br") [], .text [0xD800]]]

/-- A void tag with a quotation mark as the value of its attribute. -/
def hr : Node := .void (Descent.text "hr") [⟨Descent.text "k", [0x22]⟩]

/-- Sources up to some size and three levels of nesting, in an interpreter that lets a thousand calls be open and whose
frames last for five thousand steps. -/
def threeLevels (size : Int) : Limits := { size, depth := 3, interpreter := { callLimit := 1000, steps := some 5000 } }

/-- It is read back as one text in front of the tag, and the tag without its empty text. What is read of a text with the
other quotation marks is read back as well, from a written form that is longer than the text was allowed to be. -/
theorem scattered_read :
    Node.WellNamedAll scattered ∧ (Node.heightAll scattered : Int) < (threeLevels 0).granted ∧
    (read (threeLevels 0) (.source (.ofText (Node.writtenAll scattered)))).value =
      .ok (.list [.node (.text (Descent.text "a<&lt;")),
        .node (.tag (Descent.text "p") [⟨Descent.text "k", Descent.text "'\"&quot;"⟩]
          [.void (Descent.text "br") [], .text [0xD800]])]) ∧
    (read (threeLevels 11) (.source (.ofText (Descent.text "<hr k='\"'>")))).value =
      .ok (.list ([hr].map .node)) ∧
    (read (threeLevels 0) (.source (.ofText (Node.writtenAll [hr])))).value = .ok (.list ([hr].map .node)) := by
  have named : Node.WellNamedAll scattered := by
    have letter : ∀ c : CodePoint, c.isAlpha = true → IsName [c] := fun c h => ⟨c, [], rfl, .inl h, nofun⟩
    have lineBreak : IsName (Descent.text "br") :=
      ⟨0x62, [0x72], rfl, .inl rfl, fun d hd => by rw [List.mem_singleton.mp hd]; exact .inl (.inl rfl)⟩
    have key : ∀ a ∈ [(⟨Descent.text "k", Descent.text "'\"&quot;"⟩ : Attribute)], IsName a.key := fun a ha => by
      rw [List.mem_singleton.mp ha]
      exact letter 0x6B rfl
    exact ⟨trivial, trivial, trivial, ⟨letter 0x70 rfl, by decide, key, trivial, ⟨lineBreak, by decide, nofun⟩,
      trivial, trivial⟩, trivial⟩
  have deep : (Node.heightAll scattered : Int) < (threeLevels 0).granted := by decide
  have accepted : (read (threeLevels 11) (.source (.ofText (Descent.text "<hr k='\"'>")))).value =
      .ok (.list ([hr].map .node)) := by decide +kernel
  obtain ⟨written, again⟩ := read_writtenAll_eq_joinedAll (threeLevels 0) (by decide)
  obtain ⟨ns, same, readAgain⟩ := again (threeLevels 11) _ _ accepted
  obtain rfl : [hr] = ns := by rw [← toNodes_map [hr], ← toNodes_map ns, Value.list.inj same]
  exact ⟨named, deep, (written scattered named deep).1 (by decide +kernel), accepted,
    readAgain (.inl (Int.le_refl _)) (by decide +kernel)⟩

end Descent.Markup
