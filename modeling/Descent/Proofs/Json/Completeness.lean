import Descent.Proofs.Json.Soundness

/-!
# What the JSON parser reads

Every text of RFC 8259 is read as the value that it denotes, as long as there is room for the levels that its tree
takes. These are as many as its arrays and objects nest, and one more for an empty array, where an array is tried in
vain in front of the closing bracket. Every alternative that comes before the right one is shown to leave the cursor in
place; the induction is on the syntax tree, for whatever room is left.

Results:
1. `Item.reads_within`: a value with white space around it, in front of anything that may follow a value.
2. `read_written`: whole documents.
-/

namespace Descent.Json

open Descent.Parser SoundnessLemmas

variable {s : Source}

/-- What may follow a value with the white space around it: a comma, a closing bracket or nothing. -/
def Closes (rest : Text) : Prop := ∀ c ∈ rest.head?, c = 0x2C ∨ c = 0x5D ∨ c = 0x7D

namespace CompletenessLemmas

theorem closes_nil : Closes [] := by
  rintro c ⟨⟩

theorem closes_cons {c : CodePoint} (h : c = 0x2C ∨ c = 0x5D ∨ c = 0x7D) (t : Text) : Closes (c :: t) := by
  rintro _ ⟨⟩
  exact h

theorem Closes.stopsAt {rest : Text} (h : Closes rest) : StopsAt isWhitespace rest := by
  intro c hc
  rcases h c hc with rfl | rfl | rfl <;> rfl

/-- White space and what follows a value end a number. -/
theorem endsNumber_blanks (b : Blanks) {rest : Text} (closes : Closes rest) : EndsNumber (b.val ++ rest) := by
  obtain ⟨b, blank⟩ := b
  intro c hc
  cases b with
  | nil => rcases closes c hc with rfl | rfl | rfl <;> decide
  | cons d b =>
    cases hc
    rcases blank c (List.mem_cons_self ..) with rfl | rfl | rfl | rfl <;> decide

/-- A value does not start with white space. -/
theorem stopsAt_written (tree : Tree) (rest : Text) : StopsAt isWhitespace (tree.written ++ rest) := by
  cases tree with
  | scalar x =>
    cases x with
    | string parts => exact stopsAt_cons.mpr rfl
    | number n =>
      rw [Tree.written, Scalar.written, Number.written]
      cases n.negative with
      | true => exact stopsAt_cons.mpr rfl
      | false =>
        obtain ⟨d, run, written, isDigit⟩ := TokenLemmas.exists_digit n.integral
        rw [written]
        refine stopsAt_cons.mpr (Bool.eq_false_iff.mpr fun blank => ?_)
        rcases TokenLemmas.isWhitespace_iff.mp blank with rfl | rfl | rfl | rfl <;> exact absurd isDigit (by decide)
    | bool b => cases b <;> exact stopsAt_cons.mpr rfl
    | null => exact stopsAt_cons.mpr rfl
  | emptyArray inside => exact stopsAt_cons.mpr rfl
  | array first others => exact stopsAt_cons.mpr rfl
  | object o =>
    obtain ⟨u, written⟩ := object_starts o
    rw [Tree.written, written]
    exact stopsAt_cons.mpr rfl
  | unclosed first others o => exact stopsAt_cons.mpr rfl

/-- White space in front of a value and behind it is skipped. -/
theorem eval_value {call : Rule → Text → Result} (before : Blanks) {t : Text} (start : StopsAt isWhitespace t) :
    value.eval s call (before.val ++ t) =
      (alternatives.eval s call t).andThen fun v rest => (v.outcome, rest.dropWhile isWhitespace) := by
  rw [value_eq, eval_left, eval_right, ws, eval_span, Result.andThen_success, TokenLemmas.dropWhile_blanks before start]
  rfl

/-- A value with white space around it is read if the value itself is. -/
theorem value_reads {call : Rule → Text → Result} {before after : Blanks} {tree : Tree} {rest : Text}
    (closes : Closes rest)
    (read : alternatives.eval s call (tree.written ++ (after.val ++ rest)) =
      (.success tree.value, after.val ++ rest)) :
    value.eval s call ((Item.padded before tree after).written ++ rest) = (.success tree.value, rest) := by
  rw [Item.padded_append, eval_value before (stopsAt_written tree _), read, Result.andThen_success, outcome_value,
    TokenLemmas.dropWhile_blanks after (Closes.stopsAt closes)]

/-- A member is its key and whatever its value comes to. -/
theorem eval_member {call : Rule → Text → Result} (before after : Blanks) (key : List Spelling) (item : Item)
    (rest : Text) :
    member.eval s call ((Member.keyed before key after item).written ++ rest) =
      (value.eval s call (item.written ++ rest)).andThen fun v rest =>
        (.success (.tuple [.str (Spelling.decode key), v]), rest) := by
  have start : StopsAt isWhitespace (writtenString key ++ (after.val ++ 0x3A :: (item.written ++ rest))) :=
    stopsAt_cons.mpr rfl
  have stop : StopsAt isWhitespace (0x3A :: (item.written ++ rest)) := stopsAt_cons.mpr rfl
  simp only [Member.keyed_append, member, eval_and, eval_left, eval_right, ws, eval_span, Result.andThen_success,
    TokenLemmas.dropWhile_blanks before start, string_reads, TokenLemmas.dropWhile_blanks after stop, Value.outcome,
    eval_char_cons, if_true]

/-- In front of an opening bracket of its own, an array is what is tried first. -/
theorem alternatives_of_array {room : Nat} (t : Text) {rest : Text} {v : Value}
    (read : grammar.evalRule s room .array (0x5B :: t) = (.success v, rest)) :
    alternatives.eval s (grammar.evalRule s room) (0x5B :: t) = (.success v, rest) := by
  rw [alternatives, eval_orElse, eval_orElse, scalar_of_bracket (.inl rfl), Result.orElse_failure, eval_rule, read]
  rfl

/-- No array is read in front of any other code point, if there is room to try. -/
theorem array_of_other {room : Nat} {t : Text} (other : ∀ c ∈ t.head?, c ≠ 0x5B) :
    grammar.evalRule s (room + 1) .array t = (.failure .plain, t) := by
  rw [evalRule_array, array_eq_enclosed, enclosed_of_other other]

theorem object_of_other {room : Nat} {t : Text} (other : ∀ c ∈ t.head?, c ≠ 0x7B) :
    grammar.evalRule s (room + 1) .object t = (.failure .plain, t) := by
  rw [evalRule_object, object_eq_enclosed, enclosed_of_other other]

/-- In front of an opening brace, the array that is tried first leaves the cursor in place. -/
theorem alternatives_of_object {room : Nat} (t : Text) {rest : Text} {v : Value}
    (read : grammar.evalRule s (room + 1) .object (0x7B :: t) = (.success v, rest)) :
    alternatives.eval s (grammar.evalRule s (room + 1)) (0x7B :: t) = (.success v, rest) := by
  have noArray : grammar.evalRule s (room + 1) .array (0x7B :: t) = (.failure .plain, 0x7B :: t) :=
    array_of_other (by rintro _ ⟨⟩; decide)
  rw [alternatives, eval_orElse, eval_orElse, scalar_of_bracket (.inr (.inl rfl)), Result.orElse_failure, eval_rule,
    noArray, Result.orElse_failure, Result.orElse_failure, eval_rule, read, Result.orElse_success]

/-- No items are read in front of a closing bracket, if there is room to try. -/
theorem no_elements {room : Nat} (inside : Blanks) (rest : Text) :
    ∃ f u, ((listed value).map .consPair).eval s (grammar.evalRule s (room + 1)) (inside.val ++ 0x5D :: rest) =
      (.failure f, u) := by
  have stop : StopsAt isWhitespace (0x5D :: rest) := stopsAt_cons.mpr rfl
  have noArray : grammar.evalRule s (room + 1) .array (0x5D :: rest) = (.failure .plain, 0x5D :: rest) :=
    array_of_other (by rintro _ ⟨⟩; decide)
  have noObject : grammar.evalRule s (room + 1) .object (0x5D :: rest) = (.failure .plain, 0x5D :: rest) :=
    object_of_other (by rintro _ ⟨⟩; decide)
  refine ⟨.plain, 0x5D :: rest, ?_⟩
  rw [eval_map, listed, eval_and, eval_value inside stop, alternatives, eval_orElse, eval_orElse,
    scalar_of_bracket (.inr (.inr rfl)), Result.orElse_failure, eval_rule, noArray, Result.orElse_failure,
    Result.orElse_failure, eval_rule, noObject]
  rfl

/-- No members are read in front of a closing brace. -/
theorem no_members {call : Rule → Text → Result} (inside : Blanks) (rest : Text) :
    ∃ f u, ((listed member).map fun pairs => .ofPairs (pairs.consPair.items.map Value.asEntry)).eval s call
      (inside.val ++ 0x7D :: rest) = (.failure f, u) := by
  have stop : StopsAt isWhitespace (0x7D :: rest) := stopsAt_cons.mpr rfl
  refine ⟨.plain, 0x7D :: rest, ?_⟩
  rw [eval_map, listed, eval_and, member, eval_and, eval_left, eval_left, eval_right, ws, eval_span,
    Result.andThen_success, TokenLemmas.dropWhile_blanks inside stop,
    TokenLemmas.string_of_other (by rintro _ ⟨⟩; decide)]
  rfl

theorem closes_items (items : Items) (rest : Text) : Closes (items.written ++ 0x5D :: rest) := by
  cases items with
  | nil => exact closes_cons (.inr (.inl rfl)) _
  | cons item others => exact closes_cons (.inl rfl) _

theorem closes_members (members : Members) (rest : Text) : Closes (members.written ++ 0x7D :: rest) := by
  cases members with
  | nil => exact closes_cons (.inr (.inr rfl)) _
  | cons m others => exact closes_cons (.inl rfl) _

end CompletenessLemmas

open CompletenessLemmas

/-! ## Trees -/

mutual
/-- A value is read wherever a number would end behind it. -/
theorem Tree.reads_within (tree : Tree) {room : Nat} {rest : Text} (closed : tree.openArrays = 0) (fits : tree.Fits)
    (enough : tree.levels ≤ room) (ends : EndsNumber rest) :
    alternatives.eval s (grammar.evalRule s room) (tree.written ++ rest) = (.success tree.value, rest) := by
  cases tree with
  | scalar x =>
    have read : scalar.eval s (grammar.evalRule s room) (x.written ++ rest) = (.success x.value, rest) :=
      scalar_reads x fits ends
    rw [alternatives, eval_orElse, eval_orElse, Tree.written, read, Result.orElse_success, Result.orElse_success]
    rfl
  | emptyArray inside =>
    rw [Tree.levels] at enough
    -- The rules tried in vain in front of the closing bracket take a level as well.
    obtain ⟨n, rfl⟩ : ∃ n, room = n + 1 + 1 := ⟨room - 2, by omega⟩
    have stop : StopsAt isWhitespace (0x5D :: rest) := stopsAt_cons.mpr rfl
    rw [Tree.emptyArray_append]
    refine alternatives_of_array _ (enclosed_reads (elements_solid (evalRule_sound s _))
      (.inr ⟨no_elements inside rest, rfl, rfl⟩) (TokenLemmas.dropWhile_blanks inside stop))
  | array first others =>
    rw [Tree.openArrays, Nat.add_eq_zero_iff] at closed
    rw [Tree.levels] at enough
    obtain ⟨n, rfl⟩ : ∃ n, room = n + 1 := ⟨room - 1, by omega⟩
    have stop : StopsAt isWhitespace (0x5D :: rest) := stopsAt_cons.mpr rfl
    have enoughFirst : first.levels ≤ n := by omega
    have enoughOthers : others.levels ≤ n := by omega
    have list := listed_reads (Item.reads_within first closed.1 fits.1 enoughFirst (closes_items others rest))
      (Items.reads_within others closed.2 fits.2 enoughOthers rest)
    rw [Tree.array_append]
    refine alternatives_of_array _ (enclosed_reads (elements_solid (evalRule_sound s n)) (.inl ?_)
      (dropWhile_of_stopsAt stop))
    rw [eval_map, list]
    rfl
  | object o =>
    obtain ⟨u, written⟩ := object_starts o
    obtain ⟨n, rfl⟩ : ∃ n, room = n + 1 := ⟨room - 1, by have := o.levels_pos; rw [Tree.levels] at enough; omega⟩
    have read : grammar.evalRule s (n + 1) .object (o.written ++ rest) =
        (.success (.dict (lastWins o.entries)), rest) := Object.reads_within o closed fits enough
    rw [Tree.written]
    rw [written, List.cons_append] at read ⊢
    exact alternatives_of_object _ read
  | unclosed first others o =>
    rw [Tree.openArrays] at closed
    omega

/-- A value with white space around it is read in front of anything that may follow it. -/
theorem Item.reads_within (item : Item) {room : Nat} {rest : Text} (closed : item.openArrays = 0) (fits : item.Fits)
    (enough : item.levels ≤ room) (closes : Closes rest) :
    value.eval s (grammar.evalRule s room) (item.written ++ rest) = (.success item.value, rest) := by
  cases item with
  | padded before tree after =>
    exact value_reads closes (Tree.reads_within tree closed fits enough (endsNumber_blanks after closes))

/-- More items are read up to a closing bracket. -/
theorem Items.reads_within (items : Items) {room : Nat} (closed : items.openArrays = 0) (fits : items.Fits)
    (enough : items.levels ≤ room) (rest : Text) :
    Collects (((char 0x2C).right value).attempt.eval s (grammar.evalRule s room)) (items.written ++ 0x5D :: rest)
      items.values (0x5D :: rest) := by
  cases items with
  | nil => exact .stop (separated_stops (by decide) rest)
  | cons item others =>
    rw [Items.openArrays, Nat.add_eq_zero_iff] at closed
    rw [Items.levels, Nat.max_le] at enough
    have closes := closes_items others rest
    have read := Item.reads_within item closed.1 fits.1 enough.1 closes
    rw [Items.cons_append]
    refine .more (separated_reads read) ?_ (Items.reads_within others closed.2 fits.2 enough.2 rest)
    simp only [List.length_cons, List.length_append]
    omega

/-- An object is read in front of anything. -/
theorem Object.reads_within (o : Object) {room : Nat} {rest : Text} (closed : o.openArrays = 0) (fits : o.Fits)
    (enough : o.levels ≤ room) :
    grammar.evalRule s room .object (o.written ++ rest) = (.success (.dict (lastWins o.entries)), rest) := by
  obtain ⟨n, rfl⟩ : ∃ n, room = n + 1 := ⟨room - 1, by have := o.levels_pos; omega⟩
  have stop : StopsAt isWhitespace (0x7D :: rest) := stopsAt_cons.mpr rfl
  cases o with
  | empty inside =>
    rw [Object.empty_append]
    exact enclosed_reads (objectMembers_solid (evalRule_sound s _)) (.inr ⟨no_members inside rest, rfl, rfl⟩)
      (TokenLemmas.dropWhile_blanks inside stop)
  | members first others =>
    rw [Object.openArrays, Nat.add_eq_zero_iff] at closed
    rw [Object.levels] at enough
    have enoughFirst : first.levels ≤ n := by omega
    have enoughOthers : others.levels ≤ n := by omega
    have list := listed_reads (Member.reads_within first closed.1 fits.1 enoughFirst (closes_members others rest))
      (Members.reads_within others closed.2 fits.2 enoughOthers rest)
    rw [Object.members_append]
    refine enclosed_reads (objectMembers_solid (evalRule_sound s n)) (.inl ?_) (dropWhile_of_stopsAt stop)
    rw [eval_map, list, Object.entries, ← ofPairs_eq_lastWins]
    simp only [Result.andThen_success, Value.consPair, Value.items, Value.items?, Option.getD_some, List.map_cons,
      List.map_map, Function.comp_def, Value.asEntry]
    rfl

/-- A key with its value is read in front of anything that may follow the value. -/
theorem Member.reads_within (m : Member) {room : Nat} {rest : Text} (closed : m.openArrays = 0) (fits : m.Fits)
    (enough : m.levels ≤ room) (closes : Closes rest) :
    member.eval s (grammar.evalRule s room) (m.written ++ rest) =
      (.success (.tuple [.str m.entry.1, m.entry.2]), rest) := by
  cases m with
  | keyed before key after item =>
    rw [eval_member, Item.reads_within item closed fits enough closes]
    rfl

/-- More members are read up to the closing brace. -/
theorem Members.reads_within (members : Members) {room : Nat} (closed : members.openArrays = 0) (fits : members.Fits)
    (enough : members.levels ≤ room) (rest : Text) :
    Collects (((char 0x2C).right member).attempt.eval s (grammar.evalRule s room)) (members.written ++ 0x7D :: rest)
      (members.entries.map fun entry => .tuple [.str entry.1, entry.2]) (0x7D :: rest) := by
  cases members with
  | nil => exact .stop (separated_stops (by decide) rest)
  | cons m others =>
    rw [Members.openArrays, Nat.add_eq_zero_iff] at closed
    rw [Members.levels, Nat.max_le] at enough
    have closes := closes_members others rest
    have read := Member.reads_within m closed.1 fits.1 enough.1 closes
    rw [Members.cons_append]
    refine .more (separated_reads read) ?_ (Members.reads_within others closed.2 fits.2 enough.2 rest)
    simp only [List.length_cons, List.length_append]
    omega
end

/-- One more level than the nesting is always enough. -/
theorem Item.reads (item : Item) {room : Nat} {rest : Text} (closed : item.openArrays = 0) (fits : item.Fits)
    (deep : item.nesting < room) (closes : Closes rest) :
    Json.value.eval s (grammar.evalRule s room) (item.written ++ rest) = (.success item.value, rest) :=
  item.reads_within closed fits (Nat.le_trans item.levels_le deep) closes

/-! ## Documents -/

/-- Every text of RFC 8259 whose integers are short enough is read as the value that it denotes, if the granted limit on
nesting is larger than the nesting of its arrays and objects, the text is not larger than allowed, and the interpreter
has the frames for it. -/
theorem read_written (item : Item) (limits : Limits) (s : Source) (written : s.toText = item.written)
    (closed : item.openArrays = 0) (fits : item.Fits) (deep : (item.nesting : Int) < limits.granted)
    (admits : limits.Admits s) (frames : grammar.HasFrames document limits s) :
    (read limits (.source s)).value = .ok item.value := by
  refine read_whole_eq_ok_iff.mpr ⟨admits, frames, ?_, ?_⟩
  · have room : item.nesting < limits.room := by rwa [Limits.room_eq, Int.lt_toNat]
    have read := item.reads (s := s) closed fits room closes_nil
    rwa [List.append_nil, ← written] at read
  · cases item with
    | padded before tree after => exact outcome_value tree

namespace Sample

def noBlanks : Blanks := ⟨[], by simp⟩

def space : Blanks := ⟨[0x20], by simp⟩

/-- The number `-1`. -/
def minusOne : Number where
  negative := true
  integral := ⟨[0x31], by decide⟩
  leading := by decide
  fraction := none
  exponent := none

/-- The letter `a` as it is. -/
def plainA : Spelling := .raw 0x61 (by decide)

/-- The letter `a` by its four digits. -/
def unitA : Spelling :=
  .unit ⟨0x30, by decide⟩ ⟨0x30, by decide⟩ ⟨0x36, by decide⟩ ⟨0x31, by decide⟩

/-- An array of a number and an object that has one key in two spellings. -/
def item : Item :=
  .padded space
    (.array (.padded noBlanks (.scalar (.number minusOne)) noBlanks)
      (.cons (.padded space
        (.object (.members
          (.keyed noBlanks [plainA] noBlanks (.padded noBlanks (.scalar (.bool true)) noBlanks))
          (.cons (.keyed noBlanks [unitA] space (.padded space (.scalar .null) noBlanks)) .nil)))
        noBlanks) .nil))
    noBlanks

end Sample

/-- Three levels of nesting, in an interpreter that lets a thousand calls be open and whose frames last for two thousand
steps. -/
def Sample.limits : Limits := { depth := 3, interpreter := { callLimit := 1000, steps := some 2000 } }

/-- The last value of a key that is spelled in two ways is the one that is read. -/
theorem read_sample :
    (read Sample.limits (.source (.ofText (text " [-1, \x7b\"a\":true,\"\\u0061\" : null\x7d]")))).value =
      .ok (.list [.int (-1), .dict [(.str (text "a"), .none)]]) := by
  have fits : Sample.item.Fits := ⟨fun _ _ => by decide, ⟨trivial, trivial, trivial⟩, trivial⟩
  exact read_written Sample.item Sample.limits _ (by decide +kernel) rfl fits (by decide) (by decide +kernel)
    (by decide +kernel)

end Descent.Json
