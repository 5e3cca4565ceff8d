import Descent.Proofs.Markup.Tokens
import Descent.Proofs.Parse.Unread

/-!
# The language of the markup parser

The parser accepts exactly the spellings of normal forests, as long as the forest nests no deeper than allowed. A tag
with a void name is always read as a void tag, since that alternative comes first; a text is read as far as it goes, so
that no two texts are neighbours; and looking in vain for one more node, in front of a closing tag or at the end, takes
one level of nesting.

Results:
1. `evalRule_sound`: what is read as a node is a spelling of it, the node is normal, and there was room for it.
2. `Node.reads`, `Node.readsAll`: spellings of normal nodes are read, if there is room.
3. `read_eq_ok_forest_iff`: both together, for whole documents.
-/

namespace Descent.Markup

open Descent.Parser TokenLemmas

variable {s : Source} {call : Rule → Text → Result}

/-! ## Parts of tags -/

namespace LanguageLemmas

theorem slash_sound {t rest : Text} {v : Value}
    (h : ((char 0x2F).optional .absent).eval s call t = (.success v, rest)) :
    ∃ slash : Text, (slash = [] ∨ slash = [0x2F]) ∧ t = slash ++ rest := by
  rcases eval_optional_eq_success_iff.mp h with read | ⟨⟨_, failed⟩, -, -⟩
  · obtain ⟨rfl, -⟩ := eval_char_eq_success read
    exact ⟨[0x2F], .inr rfl, rfl⟩
  · obtain ⟨rfl, -⟩ := eval_satisfy_eq_failure failed
    exact ⟨[], .inl rfl, rfl⟩

theorem voidTag_sound {t rest : Text} {v : Value} (h : voidTag.eval s call t = (.success v, rest)) :
    ∃ name attributes w, IsName name ∧ (∀ a ∈ attributes, IsName a.key) ∧ name ∈ voidNames ∧
      Spells (.void name attributes) w ∧ t = w ++ rest ∧ v = .node (.void name attributes) := by
  obtain ⟨w₁, closed, rfl, -⟩ := eval_map_eq_success_iff.mp h
  obtain ⟨t₁, _, blanked, -, bracket⟩ := eval_left_eq_success_iff.mp closed
  obtain ⟨t₂, slashed, -, blanks⟩ := eval_left_span_eq_success_iff.mp blanked
  obtain ⟨t₃, _, opened, -, slash⟩ := eval_left_eq_success_iff.mp slashed
  obtain ⟨head, isVoid⟩ := eval_suchThat_eq_success_iff.mp opened
  obtain ⟨name, attributes, w, isName, keys, spells, rfl, rfl, -⟩ := tagHead_sound head
  obtain ⟨slashText, isSlash, rfl⟩ := slash_sound slash
  obtain ⟨rfl, -⟩ := eval_char_eq_success bracket
  obtain ⟨b, blank, stop⟩ := exists_blank t₂
  rw [blanks] at stop
  rw [ofValue_headValue] at isVoid ⊢
  refine ⟨name, attributes, _, isName, keys, of_decide_eq_true isVoid, .void spells isSlash blank, ?_, rfl⟩
  rw [stop]
  simp

/-- White space behind the opening of a tag belongs to it. -/
theorem spellsHead_append_blank {name : Text} {attributes : List Attribute} {w b : Text}
    (spells : SpellsHead name attributes w) (blank : Blank b) : SpellsHead name attributes (w ++ b) := by
  cases spells with
  | @opening before after t blankBefore spells blankAfter =>
    have both : Blank (after ++ b) := by
      intro c hc
      exact (List.mem_append.mp hc).elim (blankAfter c) (blank c)
    have written : 0x3C :: (before ++ (name ++ (t ++ after))) ++ b =
        0x3C :: (before ++ (name ++ (t ++ (after ++ b)))) := by
      simp
    rw [written]
    exact .opening blankBefore spells both

theorem voidTag_of_head {name : Text} {attributes : List Attribute} {t u u' rest : Text} {v : Value}
    (isVoid : name ∈ voidNames) (head : tagHead.eval s call t = (.success (headValue name attributes), u))
    (slash : ((char 0x2F).optional .absent).eval s call u = (.success v, u'))
    (stops : u'.dropWhile CodePoint.isBlank = 0x3E :: rest) :
    voidTag.eval s call t = (.success (.node (.void name attributes)), rest) := by
  have accepted : decide ((Head.ofValue (headValue name attributes)).name ∈ voidNames) = true := by
    rw [ofValue_headValue]
    exact decide_eq_true isVoid
  have blanks : ws.eval s call u' = (.success (.str (u'.takeWhile CodePoint.isBlank)), 0x3E :: rest) := by
    rw [ws, eval_span, stops]
  have bracket : (char 0x3E).eval s call (0x3E :: rest) = (.success (.str [0x3E]), rest) := rfl
  have opened : (tagHead.suchThat (fun v => (Head.ofValue v).name ∈ voidNames) .plain).eval s call t =
      (.success (headValue name attributes), u) := eval_suchThat_eq_success_iff.mpr ⟨head, accepted⟩
  have slashed := eval_left_eq_success_iff.mpr ⟨u, v, opened, rfl, slash⟩
  have blanked := eval_left_eq_success_iff.mpr ⟨u', _, slashed, rfl, blanks⟩
  have closed := eval_left_eq_success_iff.mpr ⟨_, _, blanked, rfl, bracket⟩
  exact eval_map_eq_success_iff.mpr ⟨_, closed, by rw [ofValue_headValue], rfl⟩

theorem voidTag_reads {name : Text} {attributes : List Attribute} {w : Text} (isName : IsName name)
    (keys : ∀ a ∈ attributes, IsName a.key) (isVoid : name ∈ voidNames) (spells : Spells (.void name attributes) w)
    (rest : Text) : voidTag.eval s call (w ++ rest) = (.success (.node (.void name attributes)), rest) := by
  cases spells with
  | @void _ _ head slash blanks opening isSlash blank =>
    have stops : (blanks ++ 0x3E :: rest).dropWhile CodePoint.isBlank = 0x3E :: rest :=
      dropWhile_blank blank (stopsAt_cons.mpr rfl)
    rcases isSlash with rfl | rfl
    · have written : head ++ ([] ++ (blanks ++ [0x3E])) ++ rest = head ++ blanks ++ 0x3E :: rest := by simp
      rw [written]
      exact voidTag_of_head isVoid
        (tagHead_reads isName keys (spellsHead_append_blank opening blank) (.inl rfl) rest) rfl rfl
    · have written : head ++ ([0x2F] ++ (blanks ++ [0x3E])) ++ rest = head ++ 0x2F :: (blanks ++ 0x3E :: rest) := by
        simp
      rw [written]
      exact voidTag_of_head isVoid (tagHead_reads isName keys opening (.inr rfl) _) rfl stops

theorem closing_sound {name t rest : Text} {v : Value} (h : (closing name).eval s call t = (.success v, rest)) :
    ∃ before after, Blank before ∧ Blank after ∧
      t = 0x3C :: 0x2F :: (before ++ (name ++ (after ++ 0x3E :: rest))) := by
  obtain ⟨t₁, _, blanked, -, bracket⟩ := eval_left_eq_success_iff.mp h
  obtain ⟨t₂, named, -, blanksBehind⟩ := eval_left_span_eq_success_iff.mp blanked
  obtain ⟨t₃, _, opened, literal⟩ := eval_right_eq_success_iff.mp named
  obtain ⟨t₄, _, slash, blanks⟩ := eval_right_eq_success_iff.mp opened
  obtain ⟨rfl, -⟩ := eval_literal_eq_success slash
  obtain ⟨rfl, -⟩ := eval_literal_eq_success literal
  obtain ⟨rfl, -⟩ := eval_char_eq_success bracket
  obtain ⟨before, blankBefore, start⟩ := exists_blank t₄
  obtain ⟨after, blankAfter, stop⟩ := exists_blank t₂
  rw [ws, eval_span, Prod.mk.injEq] at blanks
  rw [blanks.2] at start
  rw [blanksBehind] at stop
  refine ⟨before, after, blankBefore, blankAfter, ?_⟩
  rw [start, stop]
  rfl

theorem closing_reads {name before after : Text} (isName : IsName name) (blankBefore : Blank before)
    (blankAfter : Blank after) (rest : Text) :
    ∃ v, (closing name).eval s call (0x3C :: 0x2F :: (before ++ (name ++ (after ++ 0x3E :: rest)))) =
      (.success v, rest) := by
  have slash : (literal (Descent.text "</")).eval s call
      (0x3C :: 0x2F :: (before ++ (name ++ (after ++ 0x3E :: rest)))) =
      (.success (.str (Descent.text "</")), before ++ (name ++ (after ++ 0x3E :: rest))) := eval_literal_append _ _
  have start : StopsAt CodePoint.isBlank (name ++ (after ++ 0x3E :: rest)) := by
    obtain ⟨c, more, rfl, start, -⟩ := isName
    exact stopsAt_cons.mpr (not_isBlank_of_isNameRest (isNameRest_of_isNameStart (isNameStart_iff.mpr start)))
  have stop : StopsAt CodePoint.isBlank (0x3E :: rest) := stopsAt_cons.mpr rfl
  refine ⟨.str name, ?_⟩
  simp only [closing, eval_left, eval_right, slash, Result.andThen_success, ws, eval_span,
    dropWhile_blank blankBefore start, eval_literal_append, dropWhile_blank blankAfter stop, Value.outcome,
    eval_char_cons, if_true]

/-! ## Texts -/

/-- One character of a text. -/
abbrev textCharacter : Parser Rule := .orElse entity (point fun c => c != 0x3C && c != 0x3E && c != 0x26)

/-- No character of a text starts here. -/
def NoText (t : Text) : Prop := ∀ c w u, SpellsPoint RawInText c w → t ≠ w ++ u

theorem noText_of_failure {t : Text} {f : Failure}
    (h : textCharacter.eval s call t = (.failure f, t)) :
    NoText t := by
  rintro c w u spells rfl
  rw [character_reads acceptsText spells] at h
  cases h

theorem text_sound {t rest : Text} {v : Value} (h : Markup.text.eval s call t = (.success v, rest)) :
    ∃ content w, content ≠ [] ∧ SpellsText RawInText content w ∧ t = w ++ rest ∧ v = .node (.text content) ∧
      NoText rest := by
  obtain ⟨w₁, read, rfl, -⟩ := eval_map_eq_success_iff.mp h
  rw [many1, eval_bind, Result.andThen_eq_success_iff] at read
  obtain ⟨list, u, many, some⟩ := read
  obtain ⟨vs, rfl, collects⟩ := eval_many_eq_success_iff.mp many
  obtain ⟨content, w, spells, rfl, rfl, f, stop⟩ := characters_sound acceptsText collects
  cases content with
  | nil => cases some
  | cons c content =>
    cases some
    exact ⟨c :: content, w, List.cons_ne_nil _ _, spells, rfl, by rw [joinedText_map_str], noText_of_failure stop⟩

/-- Where no text is read, the cursor stays in place. -/
theorem text_stays : StaysPut s call Markup.text := by
  intro t rest f h
  rw [Markup.text, eval_map, Result.andThen_eq_failure_iff] at h
  rcases h with h | ⟨_, _, _, ⟨⟩⟩
  rw [many1, eval_bind, Result.andThen_eq_failure_iff] at h
  rcases h with h | ⟨list, u, many, none⟩
  · exact absurd h eval_many_ne_failure
  · obtain ⟨vs, rfl, collects⟩ := eval_many_eq_success_iff.mp many
    obtain ⟨content, w, spells, rfl, rfl, -⟩ := characters_sound acceptsText collects
    cases spells with
    | nil =>
      cases none
      rfl
    | cons first others => cases none

/-- What may follow a text: a tag, opening or closing, or the end. -/
def EndsText (rest : Text) : Prop := ∀ c ∈ rest.head?, c = 0x3C

theorem character_of_endsText {rest : Text} (ends : EndsText rest) :
    textCharacter.eval s call rest = (.failure .plain, rest) := by
  refine character_of_other fun c hc => ?_
  obtain rfl := ends c hc
  exact ⟨by decide, by decide⟩

theorem text_reads {content w rest : Text} (some : content ≠ []) (spells : SpellsText RawInText content w)
    (ends : EndsText rest) : Markup.text.eval s call (w ++ rest) = (.success (.node (.text content)), rest) := by
  have many : (Parser.many textCharacter).eval s call (w ++ rest) =
      (.success (.list (content.map fun c => .str [c])), rest) :=
    eval_many_eq_success_iff.mpr ⟨_, rfl, characters_reads acceptsText spells (character_of_endsText ends)⟩
  rw [Markup.text, eval_map, many1, eval_bind, many, Result.andThen_success]
  cases content with
  | nil => exact absurd rfl some
  | cons c content =>
    show (Outcome.success (.node (.text (Value.list ((c :: content).map fun c => .str [c])).joinedText)), rest) = _
    rw [joinedText_map_str]

/-- No text is read where no character is. -/
theorem text_of_endsText {t : Text} (ends : EndsText t) : Markup.text.eval s call t = (.failure .plain, t) := by
  have many : (Parser.many textCharacter).eval s call t = (.success (.list []), t) :=
    eval_many_eq_success_iff.mpr ⟨[], rfl, .stop (character_of_endsText ends)⟩
  rw [Markup.text, eval_map, many1, eval_bind, many]
  rfl

end LanguageLemmas

open LanguageLemmas

/-! ## What is read -/

/-- What calling the rule comes to when there is some room: a normal node with one of its spellings that needs no more
room, and behind a text no more characters of a text. -/
def Sound (room : Nat) (call : Rule → Text → Result) : Prop :=
  ∀ {t rest v}, call .node t = (.success v, rest) →
    ∃ n w, Node.Normal n ∧ Spells n w ∧ n.need ≤ room ∧ t = w ++ rest ∧ v = .node n ∧ (n.IsText → NoText rest)

namespace LanguageLemmas

theorem spells_ne_nil {n : Node} {w : Text} (normal : n.Normal) (spells : Spells n w) : w ≠ [] := by
  cases spells with
  | text characters =>
    cases characters with
    | nil => exact absurd rfl normal
    | cons first others =>
      intro empty
      exact spellsPoint_ne_nil first (List.append_eq_nil_iff.mp empty).1
  | void opening _ _ =>
    cases opening
    exact List.cons_ne_nil _ _
  | tag opening _ _ _ =>
    cases opening
    exact List.cons_ne_nil _ _

/-- A normal text does not start where no character of a text does. -/
theorem not_isText_of_noText {n : Node} {w u : Text} (normal : n.Normal) (spells : Spells n w)
    (none : NoText (w ++ u)) : ¬ n.IsText := by
  cases spells with
  | text characters =>
    cases characters with
    | nil => exact absurd rfl normal
    | cons first others => exact absurd (List.append_assoc ..) (none _ _ _ first)
  | void _ _ _ => exact id
  | tag _ _ _ _ => exact id

/-- With some room, a node is read by the first of three alternatives that reads one. -/
theorem evalRule_node (room : Nat) (t : Text) :
    grammar.evalRule s (room + 1) .node t =
      (orElse (orElse voidTag.attempt element.attempt) Markup.text).eval s (grammar.evalRule s room) t := rfl

theorem tags_stay : StaysPut s call (orElse voidTag.attempt element.attempt) :=
  StaysPut.orElse (fun _ _ _ => eval_attempt_eq_failure) fun _ _ _ => eval_attempt_eq_failure

/-- Where no node is read, there was room to look for one, and the cursor stays in place. -/
theorem node_failure {room : Nat} {t rest : Text} {f : Failure}
    (h : grammar.evalRule s room .node t = (.failure f, rest)) : 1 ≤ room ∧ rest = t := by
  cases room with
  | zero => cases h
  | succ room => exact ⟨Nat.le_add_left .., (tags_stay.orElse text_stays) h⟩

/-- Nodes one after another, up to where there is none. -/
theorem forest_sound {room : Nat} (sound : Sound room (grammar.evalRule s room)) {t rest : Text} {vs : List Value}
    (h : Collects (grammar.evalRule s room .node) t vs rest) :
    ∃ ns w, Node.NormalAll ns ∧ SpellsAll ns w ∧ Node.needAll ns ≤ room ∧ t = w ++ rest ∧ vs = ns.map .node := by
  induction h with
  | stop failed =>
    obtain ⟨some_room, rfl⟩ := node_failure failed
    exact ⟨[], [], trivial, .nil, some_room, rfl, rfl⟩
  | last read still =>
    obtain ⟨n, w, normal, spells, -, rfl, -⟩ := sound read
    have longer := List.length_pos_iff.mpr (spells_ne_nil normal spells)
    rw [List.length_append] at still
    omega
  | more read _ _ ih =>
    obtain ⟨n, w, normal, spells, deep, rfl, rfl, behind⟩ := sound read
    obtain ⟨ns, u, normals, more, deeper, rfl, rfl⟩ := ih
    refine ⟨n :: ns, w ++ u, ⟨normal, ?_, normals⟩, .cons spells more, Nat.max_le.mpr ⟨deep, deeper⟩,
      (List.append_assoc ..).symm, rfl⟩
    -- A text has been read as far as it goes, so the next node is none.
    intro isText m hm
    cases more with
    | nil => cases hm
    | @cons m' ns t' u' first others =>
      cases hm
      have none := behind isText
      rw [List.append_assoc] at none
      exact not_isText_of_noText normals.1 first none

theorem toNodes_map (ns : List Node) : toNodes (ns.map .node) = ns := by
  rw [toNodes, List.filterMap_map]
  exact List.filterMap_some

/-- A tag with its children, read where no void tag was. -/
theorem element_sound {room : Nat} (sound : Sound room (grammar.evalRule s room)) {t rest u : Text} {v : Value}
    {f : Failure} (noVoid : voidTag.eval s (grammar.evalRule s room) t = (.failure f, u))
    (h : element.eval s (grammar.evalRule s room) t = (.success v, rest)) :
    ∃ n w, Node.Normal n ∧ Spells n w ∧ n.need ≤ room + 1 ∧ t = w ++ rest ∧ v = .node n ∧ ¬ n.IsText := by
  rw [element, eval_bind, Result.andThen_eq_success_iff] at h
  obtain ⟨head, t₁, opened, body⟩ := h
  obtain ⟨t₂, _, opening, -, bracket⟩ := eval_left_eq_success_iff.mp opened
  obtain ⟨name, attributes, w, isName, keys, spells, rfl, rfl, -⟩ := tagHead_sound opening
  obtain ⟨rfl, -⟩ := eval_char_eq_success bracket
  have noVoidName : name ∉ voidNames := by
    intro isVoid
    rw [voidTag_of_head isVoid opening rfl rfl] at noVoid
    cases noVoid
  rw [ofValue_headValue, elementBody] at body
  obtain ⟨list, closed, rfl, -⟩ := eval_map_eq_success_iff.mp body
  obtain ⟨t₃, _, many, -, close⟩ := eval_left_eq_success_iff.mp closed
  obtain ⟨vs, rfl, collects⟩ := eval_many_eq_success_iff.mp many
  obtain ⟨children, inner, normal, spellsInner, deep, rfl, rfl⟩ := forest_sound sound collects
  obtain ⟨before, after, blankBefore, blankAfter, rfl⟩ := closing_sound close
  refine ⟨.tag name attributes children, _, ⟨isName, noVoidName, keys, normal⟩,
    .tag spells spellsInner blankBefore blankAfter, ?_, ?_, ?_, id⟩
  · rw [Node.need]
    omega
  · simp
  · rw [Value.items, Value.items?, Option.getD_some, toNodes_map]

end LanguageLemmas

/-- What is read as a node is one of its spellings, whatever room there is. -/
theorem evalRule_sound (s : Source) (room : Nat) : Sound room (grammar.evalRule s room) := by
  induction room with
  | zero => exact fun h => by cases h
  | succ room sound =>
    intro t rest v h
    rw [evalRule_node] at h
    rcases eval_orElse_eq_success_iff.mp h with tag | ⟨_, t₁, noTag, read⟩
    · rcases eval_orElse_eq_success_iff.mp tag with void | ⟨_, t₁, noVoid, read⟩
      · obtain ⟨name, attributes, w, isName, keys, isVoid, spells, rfl, rfl⟩ :=
          voidTag_sound (eval_attempt_eq_success_iff.mp void)
        exact ⟨.void name attributes, w, ⟨isName, isVoid, keys⟩, spells, Nat.le_add_left .., rfl, rfl, False.elim⟩
      · rw [eval_attempt, Result.orElse_eq_failure_iff] at noVoid
        obtain ⟨f, u, noVoid, same⟩ := noVoid
        cases same
        obtain ⟨n, w, normal, spells, deep, written, rfl, noText⟩ :=
          element_sound sound noVoid (eval_attempt_eq_success_iff.mp read)
        exact ⟨n, w, normal, spells, deep, written, rfl, fun isText => absurd isText noText⟩
    · obtain rfl := tags_stay noTag
      obtain ⟨content, w, some, spells, rfl, rfl, behind⟩ := text_sound read
      exact ⟨.text content, w, some, .text spells, Nat.le_add_left .., rfl, rfl, fun _ => behind⟩

/-! ## What is to be read -/

namespace LanguageLemmas

/-- In front of a closing tag or at the end, no node is read, if there is room to try. -/
theorem no_node {room : Nat} {t : Text} (h : t = [] ∨ ∃ u, t = 0x3C :: 0x2F :: u) :
    grammar.evalRule s (room + 1) .node t = (.failure .plain, t) := by
  have ends : EndsText t := by
    rcases h with rfl | ⟨u, rfl⟩
    · exact fun c hc => by cases hc
    · rintro _ ⟨⟩
      rfl
  obtain ⟨rest, noHead⟩ : ∃ rest, tagHead.eval s (grammar.evalRule s room) t = (.failure .plain, rest) := by
    rcases h with rfl | ⟨u, rfl⟩
    · exact ⟨[], tagHead_of_other fun c hc => by cases hc⟩
    · exact tagHead_of_closing u
  simp only [evalRule_node, eval_orElse, eval_attempt, voidTag, element, eval_map, eval_left, eval_suchThat,
    eval_bind, noHead, Result.andThen_failure, Result.orElse_failure, text_of_endsText ends]

/-- A text starts with no angle bracket. -/
theorem spellsText_starts {content w : Text} (some : content ≠ []) (spells : SpellsText RawInText content w)
    (rest : Text) : ∀ c ∈ (w ++ rest).head?, c ≠ 0x3C := by
  cases spells with
  | nil => exact absurd rfl some
  | cons first others =>
    cases first with
    | raw h =>
      rintro _ ⟨⟩
      exact h.1
    | entity listed =>
      rintro _ ⟨⟩
      decide

/-- Tags start with an angle bracket. -/
theorem endsText_of_not_isText {n : Node} {w : Text} (spells : Spells n w) (tag : ¬ n.IsText) (rest : Text) :
    EndsText (w ++ rest) := by
  cases spells with
  | text characters => exact absurd trivial tag
  | void opening _ _ =>
    cases opening
    rintro _ ⟨⟩
    rfl
  | tag opening _ _ _ =>
    cases opening
    rintro _ ⟨⟩
    rfl

/-- Behind a text comes a tag, or whatever follows the nodes. -/
theorem endsText_of_apart {n : Node} {ns : List Node} {u rest : Text} (spells : SpellsAll ns u)
    (apart : n.IsText → ∀ m ∈ ns.head?, ¬ m.IsText) (ends : EndsText rest) (isText : n.IsText) :
    EndsText (u ++ rest) := by
  cases spells with
  | nil => exact ends
  | @cons m ns t u first others =>
    rw [List.append_assoc]
    exact endsText_of_not_isText first (apart isText m rfl) _

theorem one_le_needAll (ns : List Node) : 1 ≤ Node.needAll ns := by
  induction ns with
  | nil => exact Nat.le_refl 1
  | cons n ns ih => exact Nat.le_trans ih (Nat.le_max_right ..)

/-- A tag is read if its children are, up to the closing tag. -/
theorem element_reads {room : Nat} {name : Text} {attributes : List Attribute} {children : List Node}
    {head inner before after rest close : Text} (isName : IsName name) (keys : ∀ a ∈ attributes, IsName a.key)
    (opening : SpellsHead name attributes head) (blankBefore : Blank before) (blankAfter : Blank after)
    (closes : close = 0x3C :: 0x2F :: (before ++ (name ++ (after ++ 0x3E :: rest))))
    (collects : Collects (grammar.evalRule s room .node) (inner ++ close) (children.map .node) close) :
    element.eval s (grammar.evalRule s room) (head ++ 0x3E :: (inner ++ close)) =
      (.success (.node (.tag name attributes children)), rest) := by
  have bracket : (tagHead.left (char 0x3E)).eval s (grammar.evalRule s room) (head ++ 0x3E :: (inner ++ close)) =
      (.success (headValue name attributes), inner ++ close) :=
    eval_left_eq_success_iff.mpr ⟨_, _, tagHead_reads isName keys opening (.inl rfl) _, rfl, rfl⟩
  have many : (Parser.many (.rule .node)).eval s (grammar.evalRule s room) (inner ++ close) =
      (.success (.list (children.map .node)), close) := eval_many_eq_success_iff.mpr ⟨_, rfl, collects⟩
  obtain ⟨v, closed⟩ : ∃ v, (closing name).eval s (grammar.evalRule s room) close = (.success v, rest) := by
    rw [closes]
    exact closing_reads isName blankBefore blankAfter rest
  rw [element, eval_bind, bracket, Result.andThen_success, ofValue_headValue, elementBody]
  refine eval_map_eq_success_iff.mpr ⟨_, eval_left_eq_success_iff.mpr ⟨_, _, many, rfl, closed⟩, ?_, rfl⟩
  rw [Value.items, Value.items?, Option.getD_some, toNodes_map]

/-- Without an opening angle bracket, only a text is tried. -/
theorem node_of_text {room : Nat} {t rest : Text} {v : Value} (other : ∀ c ∈ t.head?, c ≠ 0x3C)
    (read : Markup.text.eval s (grammar.evalRule s room) t = (.success v, rest)) :
    grammar.evalRule s (room + 1) .node t = (.success v, rest) := by
  simp only [evalRule_node, eval_orElse, eval_attempt, voidTag, element, eval_map, eval_left, eval_suchThat, eval_bind,
    tagHead_of_other other, Result.andThen_failure, Result.orElse_failure, read, Result.orElse_success]

theorem node_of_voidTag {room : Nat} {t rest : Text} {v : Value}
    (read : voidTag.eval s (grammar.evalRule s room) t = (.success v, rest)) :
    grammar.evalRule s (room + 1) .node t = (.success v, rest) := by
  simp only [evalRule_node, eval_orElse, eval_attempt, read, Result.orElse_success]

/-- A tag whose name is not void is no void tag, and then read with its children. -/
theorem node_of_element {room : Nat} {name : Text} {attributes : List Attribute} {t u rest : Text} {v : Value}
    (noVoid : name ∉ voidNames)
    (head : tagHead.eval s (grammar.evalRule s room) t = (.success (headValue name attributes), u))
    (read : element.eval s (grammar.evalRule s room) t = (.success v, rest)) :
    grammar.evalRule s (room + 1) .node t = (.success v, rest) := by
  have refused : decide ((Head.ofValue (headValue name attributes)).name ∈ voidNames) = false := by
    rw [ofValue_headValue]
    exact decide_eq_false noVoid
  have failed : voidTag.eval s (grammar.evalRule s room) t = (.failure .plain, t) := by
    rw [voidTag, eval_map, eval_left, eval_left, eval_left, eval_suchThat, head, Result.andThen_success, refused]
    rfl
  simp only [evalRule_node, eval_orElse, eval_attempt, failed, read, Result.orElse_failure, Result.orElse_success]

end LanguageLemmas

mutual
/-- A spelling of a normal node is read, if there is room; behind a text, a tag or the end must follow. -/
theorem Node.reads (n : Node) {room : Nat} {w rest : Text} (normal : n.Normal) (spells : Spells n w)
    (deep : n.need ≤ room) (behind : n.IsText → EndsText rest) :
    grammar.evalRule s room .node (w ++ rest) = (.success (.node n), rest) := by
  cases n with
  | text content =>
    obtain ⟨m, rfl⟩ : ∃ m, room = m + 1 := Nat.exists_eq_add_of_le' deep
    cases spells with
    | text characters =>
      exact node_of_text (spellsText_starts normal characters rest) (text_reads normal characters (behind trivial))
  | void name attributes =>
    obtain ⟨m, rfl⟩ : ∃ m, room = m + 1 := Nat.exists_eq_add_of_le' deep
    obtain ⟨isName, isVoid, keys⟩ := normal
    exact node_of_voidTag (voidTag_reads isName keys isVoid spells rest)
  | tag name attributes children =>
    obtain ⟨m, rfl⟩ : ∃ m, room = m + 1 := ⟨room - 1, by rw [Node.need] at deep; omega⟩
    obtain ⟨isName, noVoid, keys, normals⟩ := normal
    have deeper : Node.needAll children ≤ m := by
      rw [Node.need] at deep
      omega
    -- Looking for one more child in front of the closing tag takes a level, even without any children.
    have some_room : 1 ≤ m := Nat.le_trans (one_le_needAll children) deeper
    obtain ⟨k, rfl⟩ : ∃ k, m = k + 1 := Nat.exists_eq_add_of_le' some_room
    cases spells with
    | @tag _ _ _ head inner before after opening spellsInner blankBefore blankAfter =>
      have written : head ++ 0x3E :: (inner ++ 0x3C :: 0x2F :: (before ++ (name ++ (after ++ [0x3E])))) ++ rest =
          head ++ 0x3E :: (inner ++ 0x3C :: 0x2F :: (before ++ (name ++ (after ++ 0x3E :: rest)))) := by
        simp
      have collects := Node.readsAll children normals spellsInner deeper (by rintro _ ⟨⟩; rfl)
        (no_node (.inr ⟨before ++ (name ++ (after ++ 0x3E :: rest)), rfl⟩))
      rw [written]
      exact node_of_element noVoid (tagHead_reads isName keys opening (.inl rfl) _)
        (element_reads isName keys opening blankBefore blankAfter rfl collects)

/-- Spellings of normal nodes are read one after another, up to where there is none. -/
theorem Node.readsAll (ns : List Node) {room : Nat} {w rest : Text} {f : Failure} (normal : Node.NormalAll ns)
    (spells : SpellsAll ns w) (deep : Node.needAll ns ≤ room) (ends : EndsText rest)
    (stop : grammar.evalRule s room .node rest = (.failure f, rest)) :
    Collects (grammar.evalRule s room .node) (w ++ rest) (ns.map .node) rest := by
  cases ns with
  | nil =>
    cases spells
    exact .stop stop
  | cons n ns =>
    cases spells with
    | @cons _ _ t u first others =>
      obtain ⟨normal, apart, normals⟩ := normal
      obtain ⟨deepFirst, deepOthers⟩ := Nat.max_le.mp deep
      have behind : n.IsText → EndsText (u ++ rest) := endsText_of_apart others apart ends
      have longer := List.length_pos_iff.mpr (spells_ne_nil normal first)
      rw [List.append_assoc]
      refine .more (Node.reads n normal first deepFirst behind) ?_
        (Node.readsAll ns normals others deepOthers ends stop)
      simp only [List.length_append]
      omega
end

/-! ## Documents -/

namespace LanguageLemmas

variable {limits : Limits} {s : Source}

/-- A spelling of a normal forest is read, if it is not too large and there are room and frames for it. -/
theorem read_of_spells {ns : List Node} (admits : limits.Admits s) (normal : Node.NormalAll ns)
    (spells : SpellsAll ns s.toText) (deep : Node.needAll ns ≤ limits.room)
    (frames : grammar.HasFrames document limits s) : (read limits (.source s)).value = .ok (.list (ns.map .node)) := by
  obtain ⟨k, enough⟩ : ∃ k, limits.room = k + 1 :=
    Nat.exists_eq_add_of_le' (Nat.le_trans (one_le_needAll ns) deep)
  have stop : grammar.evalRule s limits.room .node [] = (.failure .plain, []) := by
    rw [enough]
    exact no_node (.inl rfl)
  have collects := Node.readsAll ns normal spells deep (fun c hc => by cases hc) stop
  rw [List.append_nil] at collects
  exact read_whole_eq_ok_iff.mpr ⟨admits, frames, eval_many_eq_success_iff.mpr ⟨_, rfl, collects⟩, rfl⟩

/-- What is read is a normal forest that the source spells, and there were room and frames for it. -/
theorem exists_forest_of_read {v : Value} (h : (read limits (.source s)).value = .ok v) :
    ∃ ns, v = .list (ns.map .node) ∧ Node.NormalAll ns ∧ SpellsAll ns s.toText ∧ Node.needAll ns ≤ limits.room ∧
      grammar.HasFrames document limits s := by
  obtain ⟨-, frames, forest, -⟩ := read_whole_eq_ok_iff.mp h
  obtain ⟨vs, rfl, collects⟩ := eval_many_eq_success_iff.mp forest
  obtain ⟨ns, w, normal, spells, deep, written, rfl⟩ := forest_sound (evalRule_sound s _) collects
  rw [List.append_nil] at written
  exact ⟨ns, rfl, normal, written ▸ spells, deep, frames⟩

/-- Room for a forest is room for at least one level, and so counts up to the granted limit. -/
theorem needAll_le_room_iff (ns : List Node) :
    Node.needAll ns ≤ limits.room ↔ (Node.needAll ns : Int) ≤ limits.granted := by
  have some_need := one_le_needAll ns
  rw [Limits.room_eq]
  omega

end LanguageLemmas

/-- Without a limit on the size, a document is read as a forest exactly if the forest is normal, the document is one of
its spellings, the forest takes up no more levels of nesting than are granted, and the interpreter has the frames for
the document. -/
theorem read_eq_ok_forest_iff (limits : Limits) (s : Source) (ns : List Node) (unlimited : limits.size ≤ 0) :
    (read limits (.source s)).value = .ok (.list (ns.map .node)) ↔
      Node.NormalAll ns ∧ SpellsAll ns s.toText ∧ (Node.needAll ns : Int) ≤ limits.granted ∧
        grammar.HasFrames document limits s := by
  have admits : limits.Admits s := fun h => absurd h.1 (Int.not_lt.mpr unlimited)
  rw [← needAll_le_room_iff]
  constructor
  · intro h
    obtain ⟨ns', same, normal, spells, deep, frames⟩ := exists_forest_of_read h
    obtain rfl : ns = ns' := by
      rw [← toNodes_map ns, ← toNodes_map ns', Value.list.inj same]
    exact ⟨normal, spells, deep, frames⟩
  · rintro ⟨normal, spells, deep, frames⟩
    exact read_of_spells admits normal spells deep frames

/-- A tag with an attribute around a text and a void tag. -/
def paragraph : List Node :=
  [.tag (Descent.text "p") [⟨Descent.text "class", Descent.text "a&b"⟩]
    [.text (Descent.text "x<y"), .void (Descent.text "br") []]]

/-- Any size and two levels of nesting, in an interpreter that lets a thousand calls be open and whose frames last for
two thousand steps. -/
def twoLevels : Limits := { size := 0, depth := 2, interpreter := { callLimit := 1000, steps := some 2000 } }

/-- Two levels of nesting are enough for it. -/
theorem paragraph_spelled :
    Node.NormalAll paragraph ∧
      SpellsAll paragraph (Source.ofText (Descent.text "<p class='a&amp;b'>x&lt;y<br/></ p >")).toText ∧
      (Node.needAll paragraph : Int) ≤ twoLevels.granted ∧
      grammar.HasFrames document twoLevels (.ofText (Descent.text "<p class='a&amp;b'>x&lt;y<br/></ p >")) :=
  (read_eq_ok_forest_iff twoLevels _ paragraph (by decide)).mp (by decide +kernel)

end Descent.Markup
