import Descent.Proofs.Json.Enclosed
import Descent.Proofs.Parse.Unread

/-!
# What the JSON parser accepts

Every text that is read is the written form of a tree with the value that is returned. The alternatives of a value are
tried one after the other from wherever the last one stopped, and there is exactly one place where something read by an
abandoned alternative stays read: an array that lacks its closing bracket, in front of an object. So the trees with open
arrays are needed.

Results:
1. `evalRule_sound`: what arrays and objects have read, within any room.
2. `exists_item_of_read`: what a whole document is that is read.
-/

namespace Descent.Json

open Descent.Parser

variable {s : Source} {call : Rule → Text → Result}

/-! ## Values -/

/-- What calling the rules may come to. An array that fails has not moved the cursor, or it has read its items and lacks
the closing bracket, or no object is read from where it stopped. -/
structure Sound (call : Rule → Text → Result) : Prop where
  array : ∀ {t rest v}, call .array t = (.success v, rest) →
    ∃ tree : Tree, (∃ u, tree.written = 0x5B :: u) ∧ t = tree.written ++ rest ∧ v = tree.value
  arrayFailure : ∀ {t rest f}, call .array t = (.failure f, rest) →
    rest = t ∨ (∃ (first : Item) (items : Items), t = 0x5B :: (first.written ++ (items.written ++ rest))) ∨
      ∀ v u, call .object rest ≠ (.success v, u)
  object : ∀ {t rest v}, call .object t = (.success v, rest) →
    ∃ o : Object, t = o.written ++ rest ∧ v = .dict (lastWins o.entries)

namespace SoundnessLemmas

/-- The alternatives of a value: a token, an array, an object. -/
def alternatives : Parser Rule := .orElse (.orElse scalar (.rule .array)) (.rule .object)

theorem evalRule_array (room : Nat) (t : Text) :
    grammar.evalRule s (room + 1) .array t = array.eval s (grammar.evalRule s room) t := rfl

theorem evalRule_object (room : Nat) (t : Text) :
    grammar.evalRule s (room + 1) .object t = object.eval s (grammar.evalRule s room) t := rfl

theorem value_eq : value = (ws.right alternatives).left ws := rfl

theorem object_starts (o : Object) : ∃ u, o.written = 0x7B :: u := by
  cases o with
  | empty inside => exact ⟨_, rfl⟩
  | members first rest => exact ⟨_, rfl⟩

theorem alternatives_sound (sound : Sound call) {t rest : Text} {v : Value}
    (h : alternatives.eval s call t = (.success v, rest)) :
    ∃ tree : Tree, t = tree.written ++ rest ∧ v = tree.value := by
  rcases eval_orElse_eq_success_iff.mp h with h | ⟨_, t₂, before, h⟩
  · rcases eval_orElse_eq_success_iff.mp h with h | ⟨_, t₁, before, h⟩
    · obtain ⟨x, rfl, rfl⟩ := scalar_sound h
      exact ⟨.scalar x, rfl, rfl⟩
    · obtain ⟨tree, ⟨u, written⟩, stands, rfl⟩ := sound.array h
      have start : t₁ = 0x5B :: (u ++ rest) := by rw [stands, written, List.cons_append]
      exact ⟨tree, by rw [TokenLemmas.eq_of_start (scalar_failure before) start (by decide), written,
        List.cons_append], rfl⟩
  · obtain ⟨_, t₁, _, before, noArray⟩ := eval_orElse_eq_failure before
    obtain ⟨o, stands, rfl⟩ := sound.object h
    -- The array has failed in place, behind its items, or in front of what is no object.
    rcases sound.arrayFailure noArray with rfl | ⟨first, items, start⟩ | noObject
    · obtain ⟨u, written⟩ := object_starts o
      have start : t₂ = 0x7B :: (u ++ rest) := by rw [stands, written, List.cons_append]
      exact ⟨.object o, by rw [TokenLemmas.eq_of_start (scalar_failure before) start (by decide), Tree.written, written,
        List.cons_append], rfl⟩
    · refine ⟨.unclosed first items o, ?_, rfl⟩
      rw [TokenLemmas.eq_of_start (scalar_failure before) start (by decide), stands]
      simp [Tree.written]
    · exact absurd h (noObject _ _)

/-- The value of a tree is no failure. -/
theorem outcome_value (tree : Tree) : tree.value.outcome = .success tree.value := by
  cases tree with
  | scalar x =>
    cases x with
    | number n =>
      rw [Tree.value, Scalar.value, Number.value]
      split <;> rfl
    | string parts => rfl
    | bool b => rfl
    | null => rfl
  | emptyArray inside => rfl
  | array first rest => rfl
  | object o => rfl
  | unclosed first rest o => rfl

end SoundnessLemmas

open SoundnessLemmas

/-- A value that is read stood there with the white space around it, and all of that is read. -/
theorem value_sound (sound : Sound call) {t rest : Text} {v : Value} (h : value.eval s call t = (.success v, rest)) :
    ∃ item : Item, t = item.written ++ rest ∧ v = item.value ∧ StopsAt isWhitespace rest := by
  rw [value_eq] at h
  obtain ⟨t₁, read, -, rfl⟩ := eval_left_span_eq_success_iff.mp h
  rw [ws, eval_span_right] at read
  obtain ⟨tree, written, rfl⟩ := alternatives_sound sound read
  obtain ⟨before, start⟩ := TokenLemmas.exists_blanks t
  obtain ⟨after, stop⟩ := TokenLemmas.exists_blanks t₁
  refine ⟨.padded before tree after, ?_, rfl, stopsAt_dropWhile _ _⟩
  rw [Item.written, List.append_assoc, List.append_assoc, ← stop, ← written]
  exact start

/-! ## Items and members -/

/-- More items, up to where the white space ends. -/
theorem items_sound (sound : Sound call) {t rest : Text} {vs : List Value}
    (h : Collects (((char 0x2C).right value).attempt.eval s call) t vs rest) (start : StopsAt isWhitespace t) :
    ∃ items : Items, t = items.written ++ rest ∧ vs = items.values ∧ StopsAt isWhitespace rest := by
  induction h with
  | stop failed =>
    obtain rfl := eval_attempt_eq_failure failed
    exact ⟨.nil, rfl, rfl, start⟩
  | last read still =>
    obtain ⟨u, rfl, found⟩ := separated_sound read
    obtain ⟨item, rfl, -, -⟩ := value_sound sound found
    simp only [List.length_cons, List.length_append] at still
    omega
  | more read _ _ ih =>
    obtain ⟨u, rfl, found⟩ := separated_sound read
    obtain ⟨item, rfl, rfl, stops⟩ := value_sound sound found
    obtain ⟨items, rfl, rfl, stop⟩ := ih stops
    exact ⟨.cons item items, by simp [Items.written], rfl, stop⟩

/-- A key with its value. -/
theorem member_sound (sound : Sound call) {t rest : Text} {v : Value} (h : member.eval s call t = (.success v, rest)) :
    ∃ m : Member, t = m.written ++ rest ∧ v = .tuple [.str m.entry.1, m.entry.2] ∧ StopsAt isWhitespace rest := by
  obtain ⟨t₁, _, _, keyed, read, rfl⟩ := eval_and_eq_success_iff.mp h
  obtain ⟨item, rfl, rfl, stops⟩ := value_sound sound read
  obtain ⟨t₂, _, padded, -, colon⟩ := eval_left_eq_success_iff.mp keyed
  obtain ⟨t₃, found, -, rfl⟩ := eval_left_span_eq_success_iff.mp padded
  rw [ws, eval_span_right] at found
  obtain ⟨key, written, rfl⟩ := string_sound found
  obtain ⟨stands, -⟩ := eval_char_eq_success colon
  obtain ⟨before, start⟩ := TokenLemmas.exists_blanks t
  obtain ⟨after, stop⟩ := TokenLemmas.exists_blanks t₃
  refine ⟨.keyed before key after item, ?_, rfl, stops⟩
  rw [stands] at stop
  rw [written, stop] at start
  simpa [Member.written] using start

/-- More members, up to where the white space ends. -/
theorem members_sound (sound : Sound call) {t rest : Text} {vs : List Value}
    (h : Collects (((char 0x2C).right member).attempt.eval s call) t vs rest) (start : StopsAt isWhitespace t) :
    ∃ members : Members, t = members.written ++ rest ∧
      vs = members.entries.map (fun entry => .tuple [.str entry.1, entry.2]) ∧ StopsAt isWhitespace rest := by
  induction h with
  | stop failed =>
    obtain rfl := eval_attempt_eq_failure failed
    exact ⟨.nil, rfl, rfl, start⟩
  | last read still =>
    obtain ⟨u, rfl, found⟩ := separated_sound read
    obtain ⟨m, rfl, -, -⟩ := member_sound sound found
    simp only [List.length_cons, List.length_append] at still
    omega
  | more read _ _ ih =>
    obtain ⟨u, rfl, found⟩ := separated_sound read
    obtain ⟨m, rfl, rfl, stops⟩ := member_sound sound found
    obtain ⟨members, rfl, rfl, stop⟩ := ih stops
    exact ⟨.cons m members, by simp [Members.written], rfl, stop⟩

/-! ## Arrays and objects -/

namespace SoundnessLemmas

/-- The items of an array that has some. -/
theorem elements_sound (sound : Sound call) {t rest : Text} {v : Value}
    (h : ((listed value).map .consPair).eval s call t = (.success v, rest)) :
    ∃ (first : Item) (items : Items), t = first.written ++ (items.written ++ rest) ∧
      v = .list (first.value :: items.values) ∧ StopsAt isWhitespace rest := by
  obtain ⟨w, list, rfl, -⟩ := eval_map_eq_success_iff.mp h
  obtain ⟨a, vs, t₁, read, others, rfl⟩ := listed_sound list
  obtain ⟨first, rfl, rfl, start⟩ := value_sound sound read
  obtain ⟨items, rfl, rfl, stops⟩ := items_sound sound others start
  exact ⟨first, items, rfl, rfl, stops⟩

/-- The members of an object that has some. -/
theorem objectMembers_sound (sound : Sound call) {t rest : Text} {v : Value}
    (h : ((listed member).map fun pairs => .ofPairs (pairs.consPair.items.map Value.asEntry)).eval s call t =
      (.success v, rest)) :
    ∃ (first : Member) (members : Members), t = first.written ++ (members.written ++ rest) ∧
      v = .dict (lastWins (first.entry :: members.entries)) ∧ StopsAt isWhitespace rest := by
  obtain ⟨w, list, rfl, -⟩ := eval_map_eq_success_iff.mp h
  obtain ⟨a, vs, t₁, read, others, rfl⟩ := listed_sound list
  obtain ⟨first, rfl, rfl, start⟩ := member_sound sound read
  obtain ⟨members, rfl, rfl, stops⟩ := members_sound sound others start
  refine ⟨first, members, rfl, ?_, stops⟩
  rw [← ofPairs_eq_lastWins]
  simp [Value.consPair, Value.items, Value.items?, Value.asEntry, Function.comp_def]

theorem elements_solid (sound : Sound call) : Solid (((listed value).map .consPair).eval s call) (.list []) where
  outcome h := by
    obtain ⟨first, items, -, rfl, -⟩ := elements_sound sound h
    exact ⟨rfl, nofun⟩
  fallback := rfl

theorem objectMembers_solid (sound : Sound call) :
    Solid (((listed member).map fun pairs => .ofPairs (pairs.consPair.items.map Value.asEntry)).eval s call)
      (.dict []) where
  outcome h := by
    obtain ⟨first, members, -, rfl, -⟩ := objectMembers_sound sound h
    exact ⟨rfl, nofun⟩
  fallback := rfl

theorem array_sound (sound : Sound call) {t rest : Text} {v : Value} (h : array.eval s call t = (.success v, rest)) :
    ∃ tree : Tree, (∃ u, tree.written = 0x5B :: u) ∧ t = tree.written ++ rest ∧ v = tree.value := by
  rw [array_eq_enclosed] at h
  obtain ⟨t₁, t₂, rfl, read | ⟨-, rfl, rfl⟩, stops⟩ := enclosed_sound (elements_solid sound) h
  · obtain ⟨first, items, rfl, rfl, stop⟩ := elements_sound sound read
    rw [dropWhile_of_stopsAt stop] at stops
    exact ⟨.array first items, ⟨_, rfl⟩, by simp [Tree.written, stops], rfl⟩
  · obtain ⟨inside, blanks⟩ := TokenLemmas.exists_blanks t₂
    refine ⟨.emptyArray inside, ⟨_, rfl⟩, ?_, rfl⟩
    rw [stops] at blanks
    simp [Tree.written, blanks]

theorem object_sound (sound : Sound call) {t rest : Text} {v : Value} (h : object.eval s call t = (.success v, rest)) :
    ∃ o : Object, t = o.written ++ rest ∧ v = .dict (lastWins o.entries) := by
  rw [object_eq_enclosed] at h
  obtain ⟨t₁, t₂, rfl, read | ⟨-, rfl, rfl⟩, stops⟩ := enclosed_sound (objectMembers_solid sound) h
  · obtain ⟨first, members, rfl, rfl, stop⟩ := objectMembers_sound sound read
    rw [dropWhile_of_stopsAt stop] at stops
    exact ⟨.members first members, by simp [Object.written, stops], rfl⟩
  · obtain ⟨inside, blanks⟩ := TokenLemmas.exists_blanks t₂
    refine ⟨.empty inside, ?_, rfl⟩
    rw [stops] at blanks
    simp [Object.written, blanks]

/-- In front of a brace only an object is tried without moving the cursor. -/
theorem alternatives_of_brace {room : Nat} {t rest : Text} {f : Failure}
    (h : alternatives.eval s (grammar.evalRule s room) (0x7B :: t) = (.failure f, rest)) :
    ∃ f, grammar.evalRule s room .object (0x7B :: t) = (.failure f, rest) := by
  obtain ⟨_, t₂, _, before, noObject⟩ := eval_orElse_eq_failure h
  obtain ⟨_, t₁, _, noScalar, noArray⟩ := eval_orElse_eq_failure before
  rw [scalar_of_bracket (.inr (.inl rfl))] at noScalar
  cases noScalar
  cases room with
  | zero => cases noArray
  | succ room =>
    rw [eval_rule, evalRule_array, array_eq_enclosed, enclosed_of_other (by rintro _ ⟨⟩; decide)] at noArray
    cases noArray
    exact ⟨_, noObject⟩

theorem value_failure (sound : Sound call) {t rest : Text} {f : Failure}
    (h : value.eval s call t = (.failure f, rest)) :
    alternatives.eval s call (t.dropWhile isWhitespace) = (.failure f, rest) := by
  rw [value_eq, eval_left, eval_right, ws, eval_span, Result.andThen_success, Result.andThen_eq_failure_iff] at h
  rcases h with h | ⟨v, u, h, behind⟩
  · exact h
  · obtain ⟨tree, -, rfl⟩ := alternatives_sound sound h
    rw [eval_span, Result.andThen_success, outcome_value] at behind
    cases behind

theorem elements_failure {t rest : Text} {f : Failure}
    (h : ((listed value).map .consPair).eval s call t = (.failure f, rest)) :
    value.eval s call t = (.failure f, rest) := by
  rw [eval_map, Result.andThen_eq_failure_iff] at h
  rcases h with h | ⟨v, u, h, behind⟩
  · exact listed_failure h
  · obtain ⟨a, vs, t₁, -, -, rfl⟩ := listed_sound h
    cases behind

/-- Where no items are read behind a bracket, no object is read either, not even with one more level of room. -/
theorem no_object_behind {room : Nat} (sound : Sound (grammar.evalRule s room)) {t rest : Text} {f : Failure}
    (h : ((listed value).map .consPair).eval s (grammar.evalRule s room) t = (.failure f, rest)) (v : Value)
    (u : Text) :
    grammar.evalRule s (room + 1) .object (t.dropWhile isWhitespace) ≠ (.success v, u) := by
  -- The first item was tried in the same place and failed there, although an object is an item as well. The object is
  -- read with one more level of room, which makes no difference to a failure.
  intro read
  have failed := value_failure sound (elements_failure h)
  by_cases brace : ∀ c ∈ (t.dropWhile isWhitespace).head?, c ≠ 0x7B
  · rw [evalRule_object, object_eq_enclosed, enclosed_of_other brace] at read
    cases read
  · obtain ⟨t₁, start⟩ : ∃ t₁, t.dropWhile isWhitespace = 0x7B :: t₁ := by
      simp only [ne_eq, Classical.not_forall, Classical.not_not] at brace
      obtain ⟨_, hc, rfl⟩ := brace
      exact List.head?_eq_some_iff.mp hc
    rw [start] at failed read
    obtain ⟨e, noObject⟩ := alternatives_of_brace failed
    have cut := Grammar.evalRule_cut_succ (g := grammar) (s := s) room .object (0x7B :: t₁)
    rw [noObject, read] at cut
    rcases cut with ⟨⟨⟩⟩ | ⟨⟨⟩⟩

end SoundnessLemmas

/-- What arrays and objects have read, whatever room there is. -/
theorem evalRule_sound (s : Source) (room : Nat) : Sound (grammar.evalRule s room) := by
  induction room with
  | zero => exact ⟨nofun, nofun, nofun⟩
  | succ room sound =>
    refine ⟨array_sound sound, ?_, object_sound sound⟩
    intro t rest f h
    rw [evalRule_array, array_eq_enclosed] at h
    rcases enclosed_failure (elements_solid sound) h with same | ⟨v, t₁, t₂, rfl, read | ⟨⟨f, u, failed⟩, -, rfl⟩, rfl⟩
    · exact .inl same
    · obtain ⟨first, items, rfl, -, stops⟩ := elements_sound sound read
      rw [dropWhile_of_stopsAt stops]
      exact .inr (.inl ⟨first, items, rfl⟩)
    · exact .inr (.inr (no_object_behind sound failed))

/-- A document that is read is the written form of a tree with the value that is returned. -/
theorem exists_item_of_read {limits : Limits} {v : Value} (h : (read limits (.source s)).value = .ok v) :
    ∃ item : Item, item.written = s.toText ∧ item.value = v := by
  obtain ⟨-, -, h, -⟩ := read_whole_eq_ok_iff.mp h
  obtain ⟨item, written, rfl, -⟩ := value_sound (evalRule_sound s _) h
  rw [List.append_nil] at written
  exact ⟨item, written.symm, rfl⟩

end Descent.Json
