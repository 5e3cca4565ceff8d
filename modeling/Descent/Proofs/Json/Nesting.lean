import Descent.Proofs.Json.Completeness

/-!
# How deep a JSON text may nest

The limit on nesting counts rule calls, and not every call is for an array or an object that stands in the text. An
array is tried in front of every object, which makes no difference, because the object takes the same level. Both are
tried in front of the bracket that closes an empty array, which does. So a text of RFC 8259 is read exactly if it does
not nest deeper than the limit and has no empty array at the deepest level that is allowed. Any other is refused,
whatever else stands in it.

Results:
1. `Item.levels_le_iff`: the levels that a tree takes, in terms of its nesting and its empty arrays.
2. `Item.refused`: with fewer levels, reading is refused.
3. `read_at_limit`: whole documents.
-/

namespace Descent.Json

open Descent.Parser SoundnessLemmas CompletenessLemmas

variable {s : Source}

/-! ## 1. Empty arrays -/

mutual
/-- An empty array stands at the given depth. It counts as one of the arrays and objects around it. -/
def Tree.EmptyArrayAt : Tree → Nat → Prop
  | .scalar _, _ => False
  | .emptyArray _, depth => depth = 1
  | .array first rest, depth => ∃ inside, depth = 1 + inside ∧ (first.EmptyArrayAt inside ∨ rest.EmptyArrayAt inside)
  | .object o, depth => o.EmptyArrayAt depth
  | .unclosed first rest o, depth =>
    (∃ inside, depth = 1 + inside ∧ (first.EmptyArrayAt inside ∨ rest.EmptyArrayAt inside)) ∨ o.EmptyArrayAt depth

def Item.EmptyArrayAt : Item → Nat → Prop
  | .padded _ tree _, depth => tree.EmptyArrayAt depth

def Items.EmptyArrayAt : Items → Nat → Prop
  | .nil, _ => False
  | .cons item rest, depth => item.EmptyArrayAt depth ∨ rest.EmptyArrayAt depth

def Object.EmptyArrayAt : Object → Nat → Prop
  | .empty _, _ => False
  | .members first rest, depth =>
    ∃ inside, depth = 1 + inside ∧ (first.EmptyArrayAt inside ∨ rest.EmptyArrayAt inside)

def Member.EmptyArrayAt : Member → Nat → Prop
  | .keyed _ _ _ item, depth => item.EmptyArrayAt depth

def Members.EmptyArrayAt : Members → Nat → Prop
  | .nil, _ => False
  | .cons member rest, depth => member.EmptyArrayAt depth ∨ rest.EmptyArrayAt depth
end

namespace NestingLemmas

/-- What is between brackets has one level less. -/
theorem enclosed_le_iff {levels levels' nesting nesting' : Nat} {E E' : Nat → Prop}
    (first : ∀ room, levels ≤ room ↔ nesting ≤ room ∧ ¬ E room)
    (rest : ∀ room, levels' ≤ room ↔ nesting' ≤ room ∧ ¬ E' room) (room : Nat) :
    1 + max levels levels' ≤ room ↔
      1 + max nesting nesting' ≤ room ∧ ¬ ∃ inside, room = 1 + inside ∧ (E inside ∨ E' inside) := by
  cases room with
  | zero => simp
  | succ room =>
    have below : (∃ inside, room + 1 = 1 + inside ∧ (E inside ∨ E' inside)) ↔ E room ∨ E' room := by
      constructor
      · rintro ⟨inside, same, h⟩
        obtain rfl : inside = room := by omega
        exact h
      · exact fun h => ⟨room, Nat.add_comm .., h⟩
    rw [below, Nat.add_comm 1, Nat.add_le_add_iff_right, Nat.add_comm 1, Nat.add_le_add_iff_right, Nat.max_le,
      Nat.max_le, first, rest, not_or]
    exact and_and_and_comm

/-- Values next to each other have the same level. -/
theorem both_le_iff {levels levels' nesting nesting' : Nat} {E E' : Nat → Prop}
    (first : ∀ room, levels ≤ room ↔ nesting ≤ room ∧ ¬ E room)
    (rest : ∀ room, levels' ≤ room ↔ nesting' ≤ room ∧ ¬ E' room) (room : Nat) :
    max levels levels' ≤ room ↔ max nesting nesting' ≤ room ∧ ¬ (E room ∨ E' room) := by
  rw [Nat.max_le, Nat.max_le, first, rest, not_or]
  exact and_and_and_comm

end NestingLemmas

open NestingLemmas

mutual
theorem Tree.levels_le_iff (tree : Tree) (room : Nat) :
    tree.levels ≤ room ↔ tree.nesting ≤ room ∧ ¬ tree.EmptyArrayAt room := by
  cases tree with
  | scalar x => simp [Tree.levels, Tree.nesting, Tree.EmptyArrayAt]
  | emptyArray inside =>
    rw [Tree.levels, Tree.nesting, Tree.EmptyArrayAt]
    omega
  | array first rest => exact enclosed_le_iff first.levels_le_iff rest.levels_le_iff room
  | object o => exact o.levels_le_iff room
  | unclosed first rest o =>
    exact both_le_iff (enclosed_le_iff first.levels_le_iff rest.levels_le_iff) o.levels_le_iff room

/-- There are enough levels for what does not nest deeper, unless an empty array stands in the last of them. -/
theorem Item.levels_le_iff (item : Item) (room : Nat) :
    item.levels ≤ room ↔ item.nesting ≤ room ∧ ¬ item.EmptyArrayAt room := by
  cases item with
  | padded before tree after => exact tree.levels_le_iff room

theorem Items.levels_le_iff (items : Items) (room : Nat) :
    items.levels ≤ room ↔ items.nesting ≤ room ∧ ¬ items.EmptyArrayAt room := by
  cases items with
  | nil => simp [Items.levels, Items.nesting, Items.EmptyArrayAt]
  | cons item rest => exact both_le_iff item.levels_le_iff rest.levels_le_iff room

theorem Object.levels_le_iff (o : Object) (room : Nat) :
    o.levels ≤ room ↔ o.nesting ≤ room ∧ ¬ o.EmptyArrayAt room := by
  cases o with
  | empty inside => simp [Object.levels, Object.nesting, Object.EmptyArrayAt]
  | members first rest => exact enclosed_le_iff first.levels_le_iff rest.levels_le_iff room

theorem Member.levels_le_iff (m : Member) (room : Nat) :
    m.levels ≤ room ↔ m.nesting ≤ room ∧ ¬ m.EmptyArrayAt room := by
  cases m with
  | keyed before key after item => exact item.levels_le_iff room

theorem Members.levels_le_iff (members : Members) (room : Nat) :
    members.levels ≤ room ↔ members.nesting ≤ room ∧ ¬ members.EmptyArrayAt room := by
  cases members with
  | nil => simp [Members.levels, Members.nesting, Members.EmptyArrayAt]
  | cons m rest => exact both_le_iff m.levels_le_iff rest.levels_le_iff room
end

/-! ## 2. Too few levels -/

namespace NestingLemmas

/-- With no room left, the array that is tried in front of anything but a token is refused. -/
theorem alternatives_refused {c : CodePoint} {t : Text} (bracket : c = 0x5B ∨ c = 0x7B ∨ c = 0x5D) :
    (alternatives.eval s (grammar.evalRule s 0) (c :: t)).Refused := by
  rw [alternatives, eval_orElse, eval_orElse, scalar_of_bracket bracket, Result.orElse_failure, eval_rule]
  rfl

/-- A refused array is not replaced by an object. -/
theorem alternatives_of_refused_array {room : Nat} {t : Text}
    (refused : (grammar.evalRule s room .array (0x5B :: t)).Refused) :
    (alternatives.eval s (grammar.evalRule s room) (0x5B :: t)).Refused := by
  rw [alternatives, eval_orElse, eval_orElse, scalar_of_bracket (.inl rfl), Result.orElse_failure, eval_rule]
  exact (refused.orElse _).orElse _

theorem alternatives_of_refused_object {room : Nat} {t : Text}
    (refused : (grammar.evalRule s (room + 1) .object (0x7B :: t)).Refused) :
    (alternatives.eval s (grammar.evalRule s (room + 1)) (0x7B :: t)).Refused := by
  have noArray : grammar.evalRule s (room + 1) .array (0x7B :: t) = (.failure .plain, 0x7B :: t) :=
    array_of_other (by rintro _ ⟨⟩; decide)
  rw [alternatives, eval_orElse, eval_orElse, scalar_of_bracket (.inr (.inl rfl)), Result.orElse_failure, eval_rule,
    noArray, Result.orElse_failure, Result.orElse_failure, eval_rule]
  exact refused.orElse _

end NestingLemmas

mutual
theorem Tree.refused (tree : Tree) {room : Nat} (closed : tree.openArrays = 0) (fits : tree.Fits)
    (few : room < tree.levels) (rest : Text) :
    (alternatives.eval s (grammar.evalRule s room) (tree.written ++ rest)).Refused := by
  cases tree with
  | scalar x => exact absurd few (Nat.not_lt_zero room)
  | emptyArray inside =>
    rw [Tree.levels] at few
    have stop : StopsAt isWhitespace (0x5D :: rest) := stopsAt_cons.mpr rfl
    rw [Tree.emptyArray_append]
    cases room with
    | zero => exact alternatives_refused (.inl rfl)
    | succ room =>
      -- One level is left for the array itself, and none for what is tried in front of its closing bracket.
      obtain rfl : room = 0 := by omega
      have item : (value.eval s (grammar.evalRule s 0) (inside.val ++ 0x5D :: rest)).Refused :=
        eval_value inside stop ▸ (alternatives_refused (.inr (.inr rfl))).andThen _
      exact alternatives_of_refused_array (enclosed_refused ((listed_refused item).andThen _))
  | array first others =>
    rw [Tree.openArrays, Nat.add_eq_zero_iff] at closed
    rw [Tree.levels] at few
    rw [Tree.array_append]
    cases room with
    | zero => exact alternatives_refused (.inl rfl)
    | succ room =>
      refine alternatives_of_refused_array (enclosed_refused (Result.Refused.andThen ?_ _))
      by_cases enough : first.levels ≤ room
      · have fewOthers : room < others.levels := by omega
        exact listed_refused_later (first.reads_within closed.1 fits.1 enough (closes_items others rest))
          (others.refused closed.2 fits.2 fewOthers rest)
      · exact listed_refused (first.refused closed.1 fits.1 (Nat.lt_of_not_le enough) _)
  | object o =>
    obtain ⟨u, starts⟩ := object_starts o
    rw [Tree.written]
    cases room with
    | zero =>
      rw [starts]
      exact alternatives_refused (.inr (.inl rfl))
    | succ room =>
      have refused : (grammar.evalRule s (room + 1) .object (o.written ++ rest)).Refused :=
        o.refused closed fits few rest
      rw [starts] at refused ⊢
      exact alternatives_of_refused_object refused
  | unclosed first others o =>
    rw [Tree.openArrays] at closed
    omega

/-- With fewer levels than it takes, a value is refused. -/
theorem Item.refused (item : Item) {room : Nat} (closed : item.openArrays = 0) (fits : item.Fits)
    (few : room < item.levels) (rest : Text) :
    (Json.value.eval s (grammar.evalRule s room) (item.written ++ rest)).Refused := by
  cases item with
  | padded before tree after =>
    rw [Item.padded_append, eval_value before (stopsAt_written tree _)]
    exact (tree.refused closed fits few _).andThen _

/-- The items in front of the first one that is refused are read. -/
theorem Items.refused (items : Items) {room : Nat} (closed : items.openArrays = 0) (fits : items.Fits)
    (few : room < items.levels) (rest : Text) :
    (collect (((char 0x2C).right value).attempt.eval s (grammar.evalRule s room))
      (items.written ++ 0x5D :: rest)).Refused := by
  cases items with
  | nil => exact absurd few (Nat.not_lt_zero room)
  | cons item others =>
    rw [Items.openArrays, Nat.add_eq_zero_iff] at closed
    rw [Items.levels] at few
    rw [Items.cons_append]
    by_cases enough : item.levels ≤ room
    · have fewOthers : room < others.levels := by omega
      refine collect_refused_later
        (separated_reads (item.reads_within closed.1 fits.1 enough (closes_items others rest))) ?_
        (others.refused closed.2 fits.2 fewOthers rest)
      simp only [List.length_cons, List.length_append]
      omega
    · exact collect_refused (separated_refused (item.refused closed.1 fits.1 (Nat.lt_of_not_le enough) _))

theorem Object.refused (o : Object) {room : Nat} (closed : o.openArrays = 0) (fits : o.Fits)
    (few : room < o.levels) (rest : Text) : (grammar.evalRule s room .object (o.written ++ rest)).Refused := by
  cases room with
  | zero => rfl
  | succ room =>
    cases o with
    | empty inside => exact absurd few (Nat.not_lt.mpr (Nat.le_add_left 1 room))
    | members first others =>
      rw [Object.openArrays, Nat.add_eq_zero_iff] at closed
      rw [Object.levels] at few
      rw [Object.members_append, evalRule_object, object_eq_enclosed]
      refine enclosed_refused (Result.Refused.andThen ?_ _)
      by_cases enough : first.levels ≤ room
      · have fewOthers : room < others.levels := by omega
        exact listed_refused_later (first.reads_within closed.1 fits.1 enough (closes_members others rest))
          (others.refused closed.2 fits.2 fewOthers rest)
      · exact listed_refused (first.refused closed.1 fits.1 (Nat.lt_of_not_le enough) _)

theorem Member.refused (m : Member) {room : Nat} (closed : m.openArrays = 0) (fits : m.Fits)
    (few : room < m.levels) (rest : Text) : (member.eval s (grammar.evalRule s room) (m.written ++ rest)).Refused := by
  cases m with
  | keyed before key after item =>
    rw [eval_member]
    exact (item.refused closed fits few rest).andThen _

theorem Members.refused (members : Members) {room : Nat} (closed : members.openArrays = 0)
    (fits : members.Fits) (few : room < members.levels) (rest : Text) :
    (collect (((char 0x2C).right member).attempt.eval s (grammar.evalRule s room))
      (members.written ++ 0x7D :: rest)).Refused := by
  cases members with
  | nil => exact absurd few (Nat.not_lt_zero room)
  | cons m others =>
    rw [Members.openArrays, Nat.add_eq_zero_iff] at closed
    rw [Members.levels] at few
    rw [Members.cons_append]
    by_cases enough : m.levels ≤ room
    · have fewOthers : room < others.levels := by omega
      refine collect_refused_later
        (separated_reads (m.reads_within closed.1 fits.1 enough (closes_members others rest))) ?_
        (others.refused closed.2 fits.2 fewOthers rest)
      simp only [List.length_cons, List.length_append]
      omega
    · exact collect_refused (separated_refused (m.refused closed.1 fits.1 (Nat.lt_of_not_le enough) _))
end

/-! ## 3. Documents -/

/-- What a limit of `depth` means for a text of RFC 8259 whose integers are short enough, if the limit is granted as it
is and the text is not larger than allowed.

* A text that does not nest deeper is read as the value that it denotes, unless an empty array stands at depth `depth`,
  if the interpreter has the frames for it.
* A text that nests deeper, or that has an empty array there, fails for being nested too deeply. The failure names the
  limit and is located where the parse stopped. -/
theorem read_at_limit (item : Item) (limits : Limits) (s : Source) (written : s.toText = item.written)
    (closed : item.openArrays = 0) (fits : item.Fits) (depth : Nat) (limit : limits.depth = depth)
    (granted : (depth : Int) ≤ limits.interpreter.callLimit - Guard.reserve) (admits : limits.Admits s) :
    (item.nesting ≤ depth → ¬ item.EmptyArrayAt depth → grammar.HasFrames document limits s →
      (read limits (.source s)).value = .ok item.value) ∧
    (depth < item.nesting ∨ item.EmptyArrayAt depth →
      ∃ e, (read limits (.source s)).value = .error (.error e) ∧
        e = (Failure.tooDeepAt s depth e.index).toError s e.index ∧
        e.failure.ReportsDepth s e.index depth ∧ e.failure.diagnostic = some e.diagnostic) := by
  have unclamped : limits.granted = depth := Limits.granted_eq limit granted
  have room : limits.room = depth := by rw [Limits.room_eq, unclamped, Int.toNat_natCast]
  constructor
  · intro shallow noEmpty frames
    have enough : item.levels ≤ limits.room := room ▸ (item.levels_le_iff depth).mpr ⟨shallow, noEmpty⟩
    refine read_whole_eq_ok_iff.mpr ⟨admits, frames, ?_, ?_⟩
    · have read := item.reads_within (s := s) closed fits enough closes_nil
      rwa [List.append_nil, ← written] at read
    · cases item with
      | padded before tree after => exact outcome_value tree
  · intro deep
    have few : limits.room < item.levels := by
      rw [room]
      refine Nat.lt_of_not_le fun enough => ?_
      obtain ⟨shallow, noEmpty⟩ := (item.levels_le_iff depth).mp enough
      rcases deep with deeper | empty
      · exact Nat.not_le.mpr deeper shallow
      · exact noEmpty empty
    have refused := item.refused (s := s) closed fits few []
    rw [List.append_nil, ← written] at refused
    have stopped : (document.eval s (grammar.evalRule s limits.room) s.toText).Refused := refused.andThen _
    obtain ⟨i, failed⟩ := read_eq_tooDeep admits stopped
    rw [unclamped] at failed
    exact ⟨_, failed, rfl, Failure.tooDeepAt_reports s i depth, rfl⟩

namespace Sample

/-- An empty array: `[]`. -/
def brackets : Item := .padded noBlanks (.emptyArray noBlanks) noBlanks

/-- An empty array in an array: `[[]]`. -/
def bracketsInside : Item := .padded noBlanks (.array brackets .nil) noBlanks

end Sample

/-- An array in an array nests two levels deep. If the inner one is empty, it is read with three levels allowed, but
neither with two nor with one. A thousand steps are enough to read it. -/
theorem emptyArray_inside_at_limit :
    let limits (depth : Int) : Limits := { depth, interpreter := { callLimit := 1000, steps := some 1000 } }
    let value (depth : Int) := (read (limits depth) (.source (.ofText (text "[[]]")))).value
    value 3 = .ok (.list [.list []]) ∧
    (∃ e, value 2 = .error (.error e) ∧ e.failure.ReportsDepth (.ofText (text "[[]]")) e.index 2) ∧
    (∃ e, value 1 = .error (.error e) ∧ e.failure.ReportsDepth (.ofText (text "[[]]")) e.index 1) := by
  intro limits value
  have written : (Source.ofText (text "[[]]")).toText = Sample.bracketsInside.written := by decide +kernel
  have fits : Sample.bracketsInside.Fits := ⟨trivial, trivial⟩
  have emptyAt : ∀ depth, Sample.bracketsInside.EmptyArrayAt depth ↔ depth = 2 := by
    intro depth
    simp [Sample.bracketsInside, Sample.brackets, Item.EmptyArrayAt, Tree.EmptyArrayAt, Items.EmptyArrayAt]
  have at_limit := fun (depth : Nat) (granted : (depth : Int) ≤ 1000 - Guard.reserve) admits =>
    read_at_limit Sample.bracketsInside (limits depth) _ written rfl fits depth rfl granted admits
  obtain ⟨e, two, -, reports, -⟩ := (at_limit 2 (by decide) (by decide +kernel)).2 (.inr ((emptyAt 2).mpr rfl))
  obtain ⟨e', one, -, reports', -⟩ := (at_limit 1 (by decide) (by decide +kernel)).2 (.inl (by decide))
  exact ⟨(at_limit 3 (by decide) (by decide +kernel)).1 (by decide) (by rw [emptyAt]; decide) (by decide +kernel),
    ⟨e, two, reports⟩, ⟨e', one, reports'⟩⟩

/-- An empty array nests one level deep and is still not read with one level allowed. The failure is located at the
closing bracket. -/
theorem emptyArray_not_read :
    Sample.brackets.openArrays = 0 ∧ Sample.brackets.Fits ∧ Sample.brackets.written = text "[]" ∧
    Sample.brackets.nesting = 1 ∧ Sample.brackets.value = .list [] ∧
    (read { depth := 1 } (.source (.ofText (text "[]")))).value =
      .error (.error ((Failure.tooDeepAt (.ofText (text "[]")) 1 1).toError (.ofText (text "[]")) 1)) :=
  ⟨rfl, trivial, rfl, rfl, rfl, by decide +kernel⟩

-- An empty object is.
example : (read { depth := 1 } (.source (.ofText (text "\x7b\x7d")))).value = .ok (.dict []) := by decide +kernel

end Descent.Json
