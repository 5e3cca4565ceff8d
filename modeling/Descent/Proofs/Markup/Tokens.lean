import Descent.Markup.Grammar
import Descent.Proofs.Markup.Spelling
import Descent.Proofs.Parse.Evaluation

/-!
# Markup tokens

What the parsers of names, characters, attributes and the openings of tags do in front of a text, in both directions.
Names and runs of characters are read as far as they go, so each statement also says what may come behind.

Results:
1. `characters_sound`, `characters_reads`: the characters of texts and attribute values.
2. `attributes_sound`, `attributes_reads`: the attributes of a tag, with the white space between them.
3. `tagHead_sound`, `tagHead_reads`: openings of tags.
-/

namespace Descent.Markup

open Descent.Parser

variable {s : Source} {call : Rule → Text → Result}

/-! ## White space and names -/

namespace TokenLemmas

theorem exists_blank (t : Text) : ∃ b, Blank b ∧ t = b ++ t.dropWhile CodePoint.isBlank :=
  ⟨t.takeWhile CodePoint.isBlank, fun _ hc => List.all_eq_true.mp List.all_takeWhile _ hc,
    List.takeWhile_append_dropWhile.symm⟩

theorem dropWhile_blank {b rest : Text} (blank : Blank b) (stops : StopsAt CodePoint.isBlank rest) :
    (b ++ rest).dropWhile CodePoint.isBlank = rest :=
  dropWhile_append_of_stopsAt blank stops

theorem isNameStart_iff {c : CodePoint} : isNameStart c = true ↔ StartsName c := by
  simp [isNameStart, StartsName]

theorem isNameRest_iff {c : CodePoint} : isNameRest c = true ↔ ContinuesName c := by
  simp [isNameRest, ContinuesName, isNameStart_iff, or_assoc]

theorem not_isBlank_of_isNameRest {c : Nat} (h : isNameRest c = true) : CodePoint.isBlank c = false := by
  have least : 0x2D ≤ c ∧ c ≤ 0x7A := by
    simp only [isNameRest, isNameStart, CodePoint.isAlpha, CodePoint.isUpper, CodePoint.isLower, CodePoint.isDigit,
      Bool.or_eq_true, Bool.and_eq_true, decide_eq_true_eq, beq_iff_eq, CodePoint] at h
    omega
  cases blank : CodePoint.isBlank c with
  | false => rfl
  | true =>
    simp only [CodePoint.isBlank, Bool.or_eq_true, Bool.and_eq_true, decide_eq_true_eq, beq_iff_eq, CodePoint] at blank
    omega

theorem not_isNameRest_of_isBlank {c : CodePoint} (h : c.isBlank = true) : isNameRest c = false := by
  cases rest : isNameRest c with
  | false => rfl
  | true =>
    rw [not_isBlank_of_isNameRest rest] at h
    cases h

theorem isNameRest_of_isNameStart {c : CodePoint} (h : isNameStart c = true) : isNameRest c = true := by
  simp [isNameRest, h]

/-- A name ends in front of white space and whatever ends a name behind it. -/
theorem stopsAt_blank {b rest : Text} (blank : Blank b) (stops : StopsAt isNameRest rest) :
    StopsAt isNameRest (b ++ rest) := by
  cases b with
  | nil => exact stops
  | cons c b => exact stopsAt_cons.mpr (not_isNameRest_of_isBlank (blank c (List.mem_cons_self ..)))

/-- A code point is read before it is looked at. -/
theorem eval_point_cons (accept : CodePoint → Bool) (c : CodePoint) (t : Text) :
    (point accept).eval s call (c :: t) =
      if accept c then (.success (.str [c]), t) else (.failure .plain, c :: t) := rfl

theorem point_sound {accept : CodePoint → Bool} {t rest : Text} {v : Value}
    (h : (point accept).eval s call t = (.success v, rest)) :
    ∃ c, t = c :: rest ∧ accept c = true ∧ v = .str [c] := by
  cases t with
  | nil => cases h
  | cons c t =>
    rw [eval_point_cons] at h
    split at h
    · next accepted =>
      cases h
      exact ⟨c, rfl, accepted, rfl⟩
    · cases h

theorem point_failure {accept : CodePoint → Bool} {t rest : Text} {f : Failure}
    (h : (point accept).eval s call t = (.failure f, rest)) : rest = t ∧ StopsAt accept t := by
  cases t with
  | nil =>
    cases h
    exact ⟨rfl, stopsAt_nil _⟩
  | cons c t =>
    rw [eval_point_cons] at h
    split at h
    · cases h
    · next refused =>
      cases h
      exact ⟨rfl, stopsAt_cons.mpr (Bool.eq_false_iff.mpr refused)⟩

/-- A name is read as far as it goes. -/
theorem tagName_sound {t rest : Text} {v : Value} (h : tagName.eval s call t = (.success v, rest)) :
    ∃ name, IsName name ∧ t = name ++ rest ∧ v = .str name ∧ StopsAt isNameRest rest := by
  rw [tagName, eval_map_eq_success_iff] at h
  obtain ⟨w, h, rfl, -⟩ := h
  obtain ⟨t₁, _, _, first, others, rfl⟩ := eval_and_eq_success_iff.mp h
  obtain ⟨c, rfl, start, rfl⟩ := point_sound first
  cases others
  refine ⟨c :: t₁.takeWhile isNameRest, ⟨c, _, rfl, isNameStart_iff.mp start, fun d hd => ?_⟩, ?_, ?_,
    stopsAt_dropWhile _ _⟩
  · exact isNameRest_iff.mp (List.all_eq_true.mp List.all_takeWhile d hd)
  · exact congrArg (c :: ·) List.takeWhile_append_dropWhile.symm
  · simp [Value.joined, Value.joinedText, Value.items, Value.items?, Value.asText]

theorem tagName_reads {name rest : Text} (isName : IsName name) (stops : StopsAt isNameRest rest) :
    tagName.eval s call (name ++ rest) = (.success (.str name), rest) := by
  obtain ⟨c, more, rfl, start, others⟩ := isName
  have all : ∀ d ∈ more, isNameRest d = true := fun d hd => isNameRest_iff.mpr (others d hd)
  rw [tagName, eval_map, eval_and, List.cons_append, eval_point_cons, if_pos (isNameStart_iff.mpr start),
    Result.andThen_success, eval_span, Result.andThen_success, takeWhile_append_of_stopsAt all stops,
    dropWhile_append_of_stopsAt all stops]
  simp [Value.joined, Value.joinedText, Value.items, Value.items?, Value.asText, Value.outcome]

/-- Where no name starts, none is read. -/
theorem tagName_of_other {t : Text} (other : StopsAt isNameStart t) :
    tagName.eval s call t = (.failure .plain, t) := by
  rw [tagName, eval_map, eval_and]
  cases t with
  | nil => rfl
  | cons c t =>
    rw [eval_point_cons, stopsAt_cons.mp other]
    rfl

/-! ## Characters -/

/-- An entity is read where one stands. -/
theorem entity_sound {t rest : Text} {v : Value} (h : entity.eval s call t = (.success v, rest)) :
    ∃ name c, (name, c) ∈ entities ∧ t = 0x26 :: (name ++ 0x3B :: rest) ∧ v = .str [c] := by
  rw [entity, eval_attempt_eq_success_iff] at h
  obtain ⟨u, _, ampersand, named⟩ := eval_right_eq_success_iff.mp h
  obtain ⟨rfl, -⟩ := eval_char_eq_success ampersand
  obtain ⟨p, hp, read⟩ := eval_choice_eq_success (fun p hp t rest f failed => by
    obtain ⟨⟨name, c⟩, -, rfl⟩ := List.mem_map.mp hp
    exact word_failure failed rfl) named
  obtain ⟨⟨name, c⟩, listed, rfl⟩ := List.mem_map.mp hp
  obtain ⟨rfl, rfl⟩ := word_sound read rfl
  exact ⟨name, c, listed, by simp [Descent.text], rfl⟩

theorem entity_reads {name : Text} {c : CodePoint} (listed : (name, c) ∈ entities) (rest : Text) :
    entity.eval s call (0x26 :: (name ++ 0x3B :: rest)) = (.success (.str [c]), rest) := by
  simp only [entities, List.mem_cons, Prod.mk.injEq, List.not_mem_nil, or_false] at listed
  rcases listed with ⟨rfl, rfl⟩ | ⟨rfl, rfl⟩ | ⟨rfl, rfl⟩ | ⟨rfl, rfl⟩ | ⟨rfl, rfl⟩ <;> rfl

/-- A parser accepts the code points that stand raw, and no ampersand. -/
structure Accepts (accept : CodePoint → Bool) (raw : CodePoint → Prop) : Prop where
  iff : ∀ c, accept c = true ↔ raw c
  ampersand : accept 0x26 = false

variable {accept : CodePoint → Bool} {raw : CodePoint → Prop}

theorem acceptsText : Accepts (fun c => c != 0x3C && c != 0x3E && c != 0x26) RawInText where
  iff c := by simp [RawInText, and_assoc]
  ampersand := rfl

theorem acceptsValue (mark : CodePoint) : Accepts (fun c => c != mark && c != 0x26) (RawInValue mark) where
  iff c := by simp [RawInValue]
  ampersand := by simp

theorem character_sound (accepts : Accepts accept raw) {t rest : Text} {v : Value}
    (h : (orElse entity (point accept)).eval s call t = (.success v, rest)) :
    ∃ c w, SpellsPoint raw c w ∧ t = w ++ rest ∧ v = .str [c] := by
  rcases eval_orElse_eq_success_iff.mp h with named | ⟨_, t₁, failed, plain⟩
  · obtain ⟨name, c, listed, rfl, rfl⟩ := entity_sound named
    exact ⟨c, _, .entity listed, by simp, rfl⟩
  · obtain rfl := eval_attempt_eq_failure failed
    obtain ⟨c, rfl, accepted, rfl⟩ := point_sound plain
    exact ⟨c, [c], .raw ((accepts.iff c).mp accepted), rfl, rfl⟩

theorem character_stays (accept : CodePoint → Bool) : StaysPut s call (orElse entity (point accept)) :=
  StaysPut.orElse (fun _ _ _ failed => eval_attempt_eq_failure failed) fun _ _ _ failed => (point_failure failed).1

theorem entity_of_other {t : Text} (other : ∀ c ∈ t.head?, c ≠ 0x26) :
    entity.eval s call t = (.failure .plain, t) := by
  rw [entity, eval_attempt, eval_right]
  cases t with
  | nil => rfl
  | cons c t =>
    rw [eval_char_cons, if_neg (other c rfl)]
    rfl

theorem character_reads (accepts : Accepts accept raw) {c : CodePoint} {w : Text} (spells : SpellsPoint raw c w)
    (rest : Text) : (orElse entity (point accept)).eval s call (w ++ rest) = (.success (.str [c]), rest) := by
  rw [eval_orElse]
  cases spells with
  | raw h =>
    have accepted := (accepts.iff c).mpr h
    have other : c ≠ 0x26 := by
      rintro rfl
      rw [accepts.ampersand] at accepted
      cases accepted
    rw [List.singleton_append, entity_of_other (by rintro _ ⟨⟩; exact other), Result.orElse_failure, eval_point_cons,
      if_pos accepted, Result.orElse_success]
  | entity listed =>
    rw [List.cons_append, List.append_assoc, List.singleton_append, entity_reads listed, Result.orElse_success]

/-- No character is read in front of one that has to be written as an entity, or at the end. -/
theorem character_of_other {t : Text} (other : ∀ c ∈ t.head?, c ≠ 0x26 ∧ accept c = false) :
    (orElse entity (point accept)).eval s call t = (.failure .plain, t) := by
  rw [eval_orElse, entity_of_other fun c hc => (other c hc).1, Result.orElse_failure]
  cases t with
  | nil => rfl
  | cons c t =>
    rw [eval_point_cons, (other c rfl).2]
    rfl

theorem spellsPoint_ne_nil {c : CodePoint} {w : Text} (spells : SpellsPoint raw c w) : w ≠ [] := by
  cases spells <;> exact List.cons_ne_nil _ _

/-- Characters are read as far as they go. -/
theorem characters_sound (accepts : Accepts accept raw) {t rest : Text} {vs : List Value}
    (h : Collects ((orElse entity (point accept)).eval s call) t vs rest) :
    ∃ content w, SpellsText raw content w ∧ t = w ++ rest ∧ vs = content.map (fun c => .str [c]) ∧
      ∃ f, (orElse entity (point accept)).eval s call rest = (.failure f, rest) := by
  induction h with
  | stop failed =>
    obtain rfl := character_stays accept failed
    exact ⟨[], [], .nil, rfl, rfl, _, failed⟩
  | last read still =>
    obtain ⟨c, w, spells, rfl, -⟩ := character_sound accepts read
    have longer := List.length_pos_iff.mpr (spellsPoint_ne_nil spells)
    rw [List.length_append] at still
    omega
  | more read _ _ ih =>
    obtain ⟨c, w, spells, rfl, rfl⟩ := character_sound accepts read
    obtain ⟨content, u, more, rfl, rfl, stop⟩ := ih
    exact ⟨c :: content, w ++ u, .cons spells more, (List.append_assoc ..).symm, rfl, stop⟩

theorem characters_reads (accepts : Accepts accept raw) {content w : Text} (spells : SpellsText raw content w)
    {rest : Text} {f : Failure} (stop : (orElse entity (point accept)).eval s call rest = (.failure f, rest)) :
    Collects ((orElse entity (point accept)).eval s call) (w ++ rest) (content.map fun c => .str [c]) rest := by
  induction spells with
  | nil => exact .stop stop
  | cons first others ih =>
    rw [List.append_assoc]
    refine .more (character_reads accepts first _) ?_ ih
    have longer := List.length_pos_iff.mpr (spellsPoint_ne_nil first)
    simp only [List.length_append]
    omega

/-! ## Attributes -/

theorem quotedValue_sound {mark : CodePoint} {t rest : Text} {v : Value}
    (h : (quotedValue mark).eval s call t = (.success v, rest)) :
    ∃ content w, SpellsText (RawInValue mark) content w ∧ t = w ++ mark :: rest ∧ v = .str content := by
  rw [quotedValue, eval_left_eq_success_iff] at h
  obtain ⟨t₁, _, joined, -, closing⟩ := h
  obtain ⟨_, many, rfl, -⟩ := eval_map_eq_success_iff.mp joined
  obtain ⟨vs, rfl, collects⟩ := eval_many_eq_success_iff.mp many
  obtain ⟨content, w, spells, rfl, rfl, -⟩ := characters_sound (acceptsValue mark) collects
  obtain ⟨rfl, -⟩ := eval_char_eq_success closing
  exact ⟨content, w, spells, rfl, joined_map_str content⟩

theorem quotedValue_reads {mark : CodePoint} (isMark : mark = 0x22 ∨ mark = 0x27) {content w : Text}
    (spells : SpellsText (RawInValue mark) content w) (rest : Text) :
    (quotedValue mark).eval s call (w ++ mark :: rest) = (.success (.str content), rest) := by
  have stop : (orElse entity (point fun c => c != mark && c != 0x26)).eval s call (mark :: rest) =
      (.failure .plain, mark :: rest) := by
    refine character_of_other ?_
    rintro _ ⟨⟩
    rcases isMark with rfl | rfl <;> exact ⟨by decide, by decide⟩
  have many := eval_many_eq_success_iff.mpr ⟨_, rfl, characters_reads (acceptsValue mark) spells stop⟩
  rw [quotedValue, eval_left, eval_map, many, Result.andThen_success, joined_map_str]
  simp only [Value.outcome, Result.andThen_success, eval_char_cons, if_true]

theorem marks : Descent.text "\"'" = [0x22, 0x27] := rfl

theorem attributeValue_sound {t rest : Text} {v : Value} (h : attributeValue.eval s call t = (.success v, rest)) :
    ∃ mark content w, (mark = 0x22 ∨ mark = 0x27) ∧ SpellsText (RawInValue mark) content w ∧
      t = mark :: (w ++ mark :: rest) ∧ v = .str content := by
  rw [attributeValue, eval_bind, marks, Result.andThen_eq_success_iff] at h
  obtain ⟨m, u, opening, h⟩ := h
  cases t with
  | nil => cases opening
  | cons c t =>
    rw [eval_anyChar_cons] at opening
    split at opening
    · next isMark =>
      cases opening
      obtain ⟨content, w, spells, rfl, rfl⟩ := quotedValue_sound h
      exact ⟨c, content, w, isMark, spells, rfl, rfl⟩
    · cases opening

theorem attributeValue_reads {mark : CodePoint} (isMark : mark = 0x22 ∨ mark = 0x27) {content w : Text}
    (spells : SpellsText (RawInValue mark) content w) (rest : Text) :
    attributeValue.eval s call (mark :: (w ++ mark :: rest)) = (.success (.str content), rest) := by
  rw [attributeValue, eval_bind, marks, eval_anyChar_cons, if_pos isMark, Result.andThen_success]
  exact quotedValue_reads isMark spells rest

theorem oneAttribute_sound {t rest : Text} {v : Value} (h : oneAttribute.eval s call t = (.success v, rest)) :
    ∃ a w, IsName a.key ∧ SpellsAttribute a w ∧ t = w ++ rest ∧ v = .attribute a := by
  obtain ⟨pair, paired, rfl, -⟩ := eval_map_eq_success_iff.mp h
  obtain ⟨t₁, k, val, keyed, valued, rfl⟩ := eval_and_eq_success_iff.mp paired
  obtain ⟨mark, value, written, isMark, spells, rfl, rfl⟩ := attributeValue_sound valued
  obtain ⟨t₂, assigned, -, blanksBehind⟩ := eval_left_span_eq_success_iff.mp keyed
  obtain ⟨t₃, _, blanked, -, equals⟩ := eval_left_eq_success_iff.mp assigned
  obtain ⟨t₄, named, -, blanksBefore⟩ := eval_left_span_eq_success_iff.mp blanked
  obtain ⟨key, isName, rfl, rfl, -⟩ := tagName_sound named
  obtain ⟨rfl, -⟩ := eval_char_eq_success equals
  obtain ⟨before, blankBefore, start⟩ := exists_blank t₄
  obtain ⟨after, blankAfter, stop⟩ := exists_blank t₂
  rw [blanksBefore] at start
  rw [blanksBehind] at stop
  refine ⟨⟨key, value⟩, _, isName, .quoted blankBefore blankAfter isMark spells, ?_, rfl⟩
  rw [start, stop]
  simp

theorem oneAttribute_reads {a : Attribute} {w : Text} (isName : IsName a.key) (spells : SpellsAttribute a w)
    (rest : Text) : oneAttribute.eval s call (w ++ rest) = (.success (.attribute a), rest) := by
  cases spells with
  | @quoted key value before after written mark blankBefore blankAfter isMark spells =>
    have stopEquals : StopsAt CodePoint.isBlank (0x3D :: (after ++ mark :: (written ++ mark :: rest))) :=
      stopsAt_cons.mpr rfl
    have stopMark : StopsAt CodePoint.isBlank (mark :: (written ++ mark :: rest)) := by
      rcases isMark with rfl | rfl <;> exact stopsAt_cons.mpr rfl
    have stopKey : StopsAt isNameRest (before ++ 0x3D :: (after ++ mark :: (written ++ mark :: rest))) :=
      stopsAt_blank blankBefore (stopsAt_cons.mpr rfl)
    have shape : (key ++ (before ++ 0x3D :: (after ++ mark :: (written ++ [mark])))) ++ rest =
        key ++ (before ++ 0x3D :: (after ++ mark :: (written ++ mark :: rest))) := by
      simp
    rw [shape]
    simp only [oneAttribute, eval_map, eval_and, eval_left, tagName_reads isName stopKey, Result.andThen_success, ws,
      eval_span, dropWhile_blank blankBefore stopEquals, Value.outcome, eval_char_cons, if_true,
      dropWhile_blank blankAfter stopMark, attributeValue_reads isMark spells, toAttribute]

theorem separatedAttribute_sound {t rest : Text} {v : Value}
    (h : (ws.right oneAttribute).attempt.eval s call t = (.success v, rest)) :
    ∃ blanks a w, Blank blanks ∧ IsName a.key ∧ SpellsAttribute a w ∧ t = blanks ++ (w ++ rest) ∧
      v = .attribute a := by
  rw [eval_attempt_eq_success_iff, ws, eval_span_right] at h
  obtain ⟨a, w, isName, spells, written, rfl⟩ := oneAttribute_sound h
  obtain ⟨b, blank, start⟩ := exists_blank t
  rw [written] at start
  exact ⟨b, a, w, blank, isName, spells, start, rfl⟩

/-- No attribute is read where no name stands behind the white space. -/
theorem separatedAttribute_of_other {t : Text} (other : StopsAt isNameStart (t.dropWhile CodePoint.isBlank)) :
    (ws.right oneAttribute).attempt.eval s call t = (.failure .plain, t) := by
  simp only [oneAttribute, eval_attempt, eval_right, ws, eval_span, Result.andThen_success, eval_map, eval_and,
    eval_left, tagName_of_other other, Result.andThen_failure, Result.orElse_failure]

theorem spellsAttribute_starts {a : Attribute} {w : Text} (isName : IsName a.key) (spells : SpellsAttribute a w) :
    ∃ c u, w = c :: u ∧ isNameStart c = true := by
  cases spells with
  | quoted _ _ _ _ =>
    obtain ⟨c, more, shape, start, -⟩ := isName
    change _ = _ at shape
    subst shape
    exact ⟨c, _, rfl, isNameStart_iff.mpr start⟩

/-- Attributes with their white space in front, as many as there are. -/
theorem attributes_sound {t rest : Text} {vs : List Value}
    (h : Collects ((ws.right oneAttribute).attempt.eval s call) t vs rest) :
    ∃ attributes w, (∀ a ∈ attributes, IsName a.key) ∧ SpellsAttributes attributes w ∧ t = w ++ rest ∧
      vs = attributes.map .attribute := by
  induction h with
  | stop failed =>
    obtain rfl := eval_attempt_eq_failure failed
    exact ⟨[], [], nofun, .nil, rfl, rfl⟩
  | last read still =>
    obtain ⟨b, a, w, -, isName, spells, rfl, -⟩ := separatedAttribute_sound read
    obtain ⟨c, u, rfl, -⟩ := spellsAttribute_starts isName spells
    simp only [List.length_append, List.length_cons] at still
    omega
  | more read _ _ ih =>
    obtain ⟨b, a, w, blank, isName, spells, rfl, rfl⟩ := separatedAttribute_sound read
    obtain ⟨others, u, keys, more, rfl, rfl⟩ := ih
    refine ⟨a :: others, b ++ (w ++ u), ?_, .cons blank spells more, by simp, rfl⟩
    exact List.forall_mem_cons.mpr ⟨isName, keys⟩

theorem attributes_reads {attributes : List Attribute} {w rest : Text} (keys : ∀ a ∈ attributes, IsName a.key)
    (spells : SpellsAttributes attributes w) (other : StopsAt isNameStart (rest.dropWhile CodePoint.isBlank)) :
    Collects ((ws.right oneAttribute).attempt.eval s call) (w ++ rest) (attributes.map .attribute) rest := by
  induction spells with
  | nil => exact .stop (separatedAttribute_of_other other)
  | @cons a others blanks t u blank first more ih =>
    obtain ⟨isName, keys⟩ := List.forall_mem_cons.mp keys
    obtain ⟨c, v, shape, start⟩ := spellsAttribute_starts isName first
    have stops : StopsAt CodePoint.isBlank (t ++ (u ++ rest)) := by
      rw [shape]
      exact stopsAt_cons.mpr (not_isBlank_of_isNameRest (isNameRest_of_isNameStart start))
    have written : blanks ++ (t ++ u) ++ rest = blanks ++ (t ++ (u ++ rest)) := by simp
    rw [written]
    refine .more (eval_attempt_eq_success_iff.mpr ?_) ?_ (ih keys)
    · rw [ws, eval_span_right, dropWhile_blank blank stops]
      exact oneAttribute_reads isName first _
    · rw [shape]
      simp only [List.length_append, List.length_cons]
      omega

/-- Behind a name, the first attribute has white space in front: otherwise its key would belong to the name. -/
theorem spellsTagAttributes_of_stopsAt {attributes : List Attribute} {w rest : Text}
    (keys : ∀ a ∈ attributes, IsName a.key) (stops : StopsAt isNameRest (w ++ rest))
    (spells : SpellsAttributes attributes w) : SpellsTagAttributes attributes w := by
  cases spells with
  | nil => exact .none
  | @cons a others blanks t u blank first more =>
    refine .some ?_ blank first more
    rintro rfl
    obtain ⟨c, v, rfl, start⟩ := spellsAttribute_starts (keys a (List.mem_cons_self ..)) first
    have ends : isNameRest c = false := stopsAt_cons.mp stops
    rw [isNameRest_of_isNameStart start] at ends
    cases ends

/-! ## Openings of tags -/

/-- The value that the parser makes of the opening of a tag. -/
def headValue (name : Text) (attributes : List Attribute) : Value :=
  .tuple [.str name, .list (attributes.map .attribute)]

theorem ofValue_headValue (name : Text) (attributes : List Attribute) :
    Head.ofValue (headValue name attributes) = ⟨name, attributes⟩ := by
  have kept : toAttributes (attributes.map .attribute) = attributes := by
    rw [toAttributes, List.filterMap_map]
    exact List.filterMap_some
  rw [headValue, Head.ofValue, Value.items, Value.items?, Option.getD_some, kept]

end TokenLemmas

open TokenLemmas

/-- The opening of a tag is read with all white space behind it. -/
theorem tagHead_sound {t rest : Text} {v : Value} (h : tagHead.eval s call t = (.success v, rest)) :
    ∃ name attributes w, IsName name ∧ (∀ a ∈ attributes, IsName a.key) ∧ SpellsHead name attributes w ∧
      t = w ++ rest ∧ v = headValue name attributes ∧ StopsAt CodePoint.isBlank rest := by
  obtain ⟨t₁, k, list, opened, attributed, rfl⟩ := eval_and_eq_success_iff.mp h
  obtain ⟨t₂, _, bracketed, named⟩ := eval_right_eq_success_iff.mp opened
  obtain ⟨t₃, _, bracket, blanks⟩ := eval_right_eq_success_iff.mp bracketed
  obtain ⟨rfl, -⟩ := eval_char_eq_success bracket
  obtain ⟨name, isName, rfl, rfl, stops⟩ := tagName_sound named
  obtain ⟨t₄, many, -, rfl⟩ := eval_left_span_eq_success_iff.mp attributed
  obtain ⟨vs, rfl, collects⟩ := eval_many_eq_success_iff.mp many
  obtain ⟨attributes, w, keys, spells, rfl, rfl⟩ := attributes_sound collects
  rw [ws, eval_span, Prod.mk.injEq] at blanks
  obtain ⟨before, blankBefore, start⟩ := exists_blank t₃
  obtain ⟨after, blankAfter, stop⟩ := exists_blank t₄
  rw [blanks.2] at start
  refine ⟨name, attributes, 0x3C :: (before ++ (name ++ (w ++ after))), isName, keys,
    .opening blankBefore (spellsTagAttributes_of_stopsAt keys stops spells) blankAfter, ?_, rfl, stopsAt_dropWhile _ _⟩
  rw [start]
  simp only [List.cons_append, List.append_assoc, ← stop]

/-- The opening of a tag is read in front of its end or its slash. -/
theorem tagHead_reads {name : Text} {attributes : List Attribute} {w : Text} (isName : IsName name)
    (keys : ∀ a ∈ attributes, IsName a.key) (spells : SpellsHead name attributes w) {c : CodePoint}
    (ends : c = 0x3E ∨ c = 0x2F) (rest : Text) :
    tagHead.eval s call (w ++ c :: rest) = (.success (headValue name attributes), c :: rest) := by
  cases spells with
  | @opening before after t blankBefore spells blankAfter =>
    have stopBlank : StopsAt CodePoint.isBlank (c :: rest) := by
      rcases ends with rfl | rfl <;> exact stopsAt_cons.mpr rfl
    have stopRest : StopsAt isNameRest (c :: rest) := by
      rcases ends with rfl | rfl <;> exact stopsAt_cons.mpr rfl
    have noAttribute : StopsAt isNameStart ((after ++ c :: rest).dropWhile CodePoint.isBlank) := by
      rw [dropWhile_blank blankAfter stopBlank]
      rcases ends with rfl | rfl <;> exact stopsAt_cons.mpr rfl
    have stopBlanks : StopsAt isNameRest (after ++ c :: rest) := stopsAt_blank blankAfter stopRest
    -- White space or the end of the tag comes right behind the name, so it is not read any further.
    have anyAttributes : SpellsAttributes attributes t ∧ StopsAt isNameRest (t ++ (after ++ c :: rest)) := by
      cases spells with
      | none => exact ⟨.nil, stopBlanks⟩
      | @some a others blanks t u some_blanks blank first more =>
        refine ⟨.cons blank first more, ?_⟩
        cases blanks with
        | nil => exact absurd rfl some_blanks
        | cons d blanks => exact stopsAt_cons.mpr (not_isNameRest_of_isBlank (blank d (List.mem_cons_self ..)))
    have stopName : StopsAt CodePoint.isBlank (name ++ (t ++ (after ++ c :: rest))) := by
      obtain ⟨d, more, rfl, start, -⟩ := isName
      exact stopsAt_cons.mpr (not_isBlank_of_isNameRest (isNameRest_of_isNameStart (isNameStart_iff.mpr start)))
    have collected : Markup.attributes.eval s call (t ++ (after ++ c :: rest)) =
        (.success (.list (attributes.map .attribute)), after ++ c :: rest) :=
      eval_many_eq_success_iff.mpr ⟨_, rfl, attributes_reads keys anyAttributes.1 noAttribute⟩
    have written : 0x3C :: (before ++ (name ++ (t ++ after))) ++ c :: rest =
        0x3C :: (before ++ (name ++ (t ++ (after ++ c :: rest)))) := by
      simp
    rw [written]
    simp only [tagHead, eval_and, eval_right, eval_char_cons, if_true, Result.andThen_success, ws, eval_span,
      dropWhile_blank blankBefore stopName, tagName_reads isName anyAttributes.2, eval_left, collected,
      dropWhile_blank blankAfter stopBlank, Value.outcome, headValue]

/-- No opening of a tag stands in front of anything but an angle bracket. -/
theorem tagHead_of_other {t : Text} (other : ∀ c ∈ t.head?, c ≠ 0x3C) :
    tagHead.eval s call t = (.failure .plain, t) := by
  rw [tagHead, eval_and, eval_right, eval_right]
  cases t with
  | nil => rfl
  | cons c t =>
    rw [eval_char_cons, if_neg (other c rfl)]
    rfl

/-- The opening of a closing tag is no opening of a tag. -/
theorem tagHead_of_closing (t : Text) : ∃ rest, tagHead.eval s call (0x3C :: 0x2F :: t) = (.failure .plain, rest) := by
  refine ⟨0x2F :: t, ?_⟩
  have noBlank : (0x2F :: t).dropWhile CodePoint.isBlank = 0x2F :: t := rfl
  rw [tagHead, eval_and, eval_right, eval_right, eval_char_cons, if_pos rfl, Result.andThen_success, ws, eval_span,
    Result.andThen_success, noBlank, tagName_of_other (stopsAt_cons.mpr rfl)]
  rfl

end Descent.Markup
