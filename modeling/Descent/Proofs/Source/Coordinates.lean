import Descent.Proofs.Parse.Unread
import Mathlib.Data.List.Induction
import Mathlib.Logic.ExistsUnique

/-!
# Coordinates

The position of an offset is counted while reading up to it, and the lines of a source are split off as a whole. Both
meet where the source is cut in two at the offset: the last line of the first part and the first line of the second part
are the two halves of one line of the source.

Results:
1. `exists_lines_append`: the lines of a text that is cut in two.
2. `behind_eq`: the position behind a text, by its lines.
3. `Source.position_line`, `Source.position_column`: the same by counting line feeds up to the offset, and from the last
   of them on.
4. `Source.exists_halves`: the line of an offset, with its two halves.
5. `Source.position_exact`: positions and offsets correspond one to one, and in order.
-/

namespace Descent

/-! ## 1. Lines -/

namespace Text

theorem lines_cons_lineFeed {t : Text} {first : Text} {more : List Text} (h : lines t = first :: more) :
    lines (0x0A :: t) = [] :: first :: more := by
  show lines.addPoint 0x0A (lines t) = _
  rw [h]
  rfl

theorem lines_cons_other {c : CodePoint} {t first : Text} {more : List Text} (other : c ≠ 0x0A)
    (h : lines t = first :: more) : lines (c :: t) = (c :: first) :: more := by
  show lines.addPoint c (lines t) = _
  rw [h, lines.addPoint, if_neg other]

/-- There is always a line. -/
theorem exists_lines (t : Text) : ∃ first more, lines t = first :: more := by
  induction t with
  | nil => exact ⟨[], [], rfl⟩
  | cons c t ih =>
    obtain ⟨first, more, h⟩ := ih
    by_cases feed : c = 0x0A
    · subst feed
      exact ⟨[], first :: more, lines_cons_lineFeed h⟩
    · exact ⟨c :: first, more, lines_cons_other feed h⟩

/-- The lines are what splitting at the line feeds gives. -/
theorem lines_eq_splitOn (t : Text) : lines t = t.splitOn 0x0A := by
  induction t with
  | nil => rfl
  | cons c t ih =>
    obtain ⟨first, more, h⟩ := exists_lines t
    have split : t.splitOnP (· == 0x0A) = first :: more := ih.symm.trans h
    rw [List.splitOn, List.splitOnP_cons_eq_if_modifyHead, split]
    by_cases feed : c = 0x0A
    · subst feed
      exact lines_cons_lineFeed h
    · rw [lines_cons_other feed h, if_neg (by simpa using feed)]
      rfl

/-- Where a text is cut in two, so is one of its lines. -/
theorem exists_lines_append (u v : Text) :
    ∃ before last first after, lines u = before ++ [last] ∧ lines v = first :: after ∧
      lines (u ++ v) = before ++ (last ++ first) :: after := by
  obtain ⟨first, after, hv⟩ := exists_lines v
  induction u with
  | nil => exact ⟨[], [], first, after, rfl, hv, hv⟩
  | cons c u ih =>
    obtain ⟨before, last, first', after', hu, hv', both⟩ := ih
    obtain ⟨rfl, rfl⟩ := List.cons.inj (hv.symm.trans hv')
    by_cases feed : c = 0x0A
    · subst feed
      refine ⟨[] :: before, last, first, after, ?_, hv, ?_⟩
      · cases before with
        | nil => exact lines_cons_lineFeed hu
        | cons line before => exact lines_cons_lineFeed hu
      · cases before with
        | nil => exact lines_cons_lineFeed both
        | cons line before => exact lines_cons_lineFeed both
    · cases before with
      | nil => exact ⟨[], c :: last, first, after, lines_cons_other feed hu, hv, lines_cons_other feed both⟩
      | cons line before =>
        exact ⟨(c :: line) :: before, last, first, after, lines_cons_other feed hu, hv, lines_cons_other feed both⟩

/-- How many code points lines take up together, with a line feed behind each of them. -/
def extent : List Text → Nat
  | [] => 0
  | line :: more => line.length + 1 + extent more

theorem extent_append (as bs : List Text) : extent (as ++ bs) = extent as + extent bs := by
  induction as with
  | nil => exact (Nat.zero_add _).symm
  | cons line as ih =>
    rw [List.cons_append, extent, extent, ih]
    omega

/-- The last line has no line feed behind it. -/
theorem extent_lines (t : Text) : extent (lines t) = t.length + 1 := by
  induction t with
  | nil => rfl
  | cons c t ih =>
    obtain ⟨first, more, h⟩ := exists_lines t
    rw [h, extent] at ih
    by_cases feed : c = 0x0A
    · subst feed
      rw [lines_cons_lineFeed h, extent, extent, List.length_nil, List.length_cons]
      omega
    · rw [lines_cons_other feed h, extent, List.length_cons, List.length_cons]
      omega

/-- There is one line more than there are line feeds. -/
theorem length_lines (t : Text) : (lines t).length = t.count 0x0A + 1 := by
  induction t with
  | nil => rfl
  | cons c t ih =>
    obtain ⟨first, more, h⟩ := exists_lines t
    rw [h, List.length_cons] at ih
    by_cases feed : c = 0x0A
    · subst feed
      rw [lines_cons_lineFeed h, List.length_cons, List.length_cons, ih, List.count_cons_self]
    · rw [lines_cons_other feed h, List.length_cons, ih, List.count_cons_of_ne feed]

/-- A text without line feeds is a single line. -/
theorem lines_of_notMem {t : Text} (none : 0x0A ∉ t) : lines t = [t] := by
  induction t with
  | nil => rfl
  | cons c t ih =>
    rw [List.mem_cons, not_or] at none
    exact lines_cons_other (Ne.symm none.1) (ih none.2)

end Text

/-! ## 2. Positions by lines -/

namespace Position

/-- The position behind a text. -/
def behind (t : Text) : Position := t.foldl advance first

theorem behind_concat (t : Text) (c : CodePoint) : behind (t ++ [c]) = (behind t).advance c := by
  rw [behind, List.foldl_append]
  rfl

theorem advance_lineFeed (p : Position) : (p.advance 0x0A).line = p.line + 1 ∧ (p.advance 0x0A).column = 1 :=
  ⟨rfl, rfl⟩

theorem advance_other {c : CodePoint} (other : c ≠ 0x0A) (p : Position) :
    (p.advance c).line = p.line ∧ (p.advance c).column = p.column + 1 := by
  rw [advance, if_neg other]
  exact ⟨rfl, rfl⟩

/-- The position behind a text is the one behind its last line. -/
theorem behind_eq {t last : Text} {before : List Text} (h : Text.lines t = before ++ [last]) :
    (behind t).line = before.length + 1 ∧ (behind t).column = last.length + 1 := by
  -- Reading goes on at the end, so the induction takes code points off there.
  induction t using List.reverseRecOn generalizing before last with
  | nil =>
    obtain ⟨rfl, same⟩ := List.append_inj' (show ([] : List Text) ++ [[]] = before ++ [last] from h) rfl
    cases same
    exact ⟨rfl, rfl⟩
  | append_singleton t c ih =>
    obtain ⟨before', last', first, after, ht, hc, both⟩ := Text.exists_lines_append t [c]
    obtain ⟨line, column⟩ := ih ht
    rw [behind_concat]
    by_cases feed : c = 0x0A
    · subst feed
      cases hc
      obtain ⟨rfl, same⟩ := List.append_inj' (show (before' ++ [last' ++ []]) ++ [[]] = before ++ [last] by
        rw [← h, both, List.append_assoc]
        rfl) rfl
      cases same
      obtain ⟨line', column'⟩ := advance_lineFeed (behind t)
      exact ⟨by rw [line', line, List.length_append, List.length_singleton], column'⟩
    · cases (Text.lines_cons_other feed rfl).symm.trans hc
      obtain ⟨rfl, same⟩ := List.append_inj' (both.symm.trans h) rfl
      cases same
      obtain ⟨line', column'⟩ := advance_other feed (behind t)
      exact ⟨line'.trans line, by rw [column', column, List.length_append, List.length_singleton]⟩

theorem eq_of_line_of_column {p q : Position} (line : p.line = q.line) (column : p.column = q.column) : p = q := by
  cases p
  cases q
  cases line
  cases column
  rfl

/-- The order in which positions are passed when a text is read. -/
def Before (p q : Position) : Prop := p.line < q.line ∨ p.line = q.line ∧ p.column < q.column

instance (p q : Position) : Decidable (p.Before q) := inferInstanceAs (Decidable (_ ∨ _))

theorem before_or_eq_or_before (p q : Position) : p.Before q ∨ p = q ∨ q.Before p := by
  rcases Nat.lt_trichotomy p.line q.line with less | line | greater
  · exact .inl (.inl less)
  · rcases Nat.lt_trichotomy p.column q.column with less | column | greater
    · exact .inl (.inr ⟨line, less⟩)
    · exact .inr (.inl (eq_of_line_of_column line column))
    · exact .inr (.inr (.inr ⟨line.symm, greater⟩))
  · exact .inr (.inr (.inl greater))

end Position

/-! ## 3. Offsets -/

namespace Source

variable {s : Source}

theorem lines_eq : s.lines = Text.lines s.toText := rfl

/-- The nearest offset inside the source, said with integers. -/
theorem clamp_eq (offset : Int) : (s.clamp offset : Int) = max 0 (min offset s.size) := by
  rw [clamp]
  omega

theorem clamp_of_le {i : Nat} (inside : i ≤ s.size) : s.clamp i = i := by
  rw [clamp]
  omega

theorem clamp_le (offset : Int) : s.clamp offset ≤ s.size := Nat.min_le_right ..

/-- The position of an offset is the one behind all that comes before it. -/
theorem position_eq_behind (offset : Int) : s.position offset = .behind (s.toText.take (s.clamp offset)) := by
  rw [position, Array.foldl_eq_foldl_extract, ← Array.foldl_toList, Array.toList_extract, List.extract_eq_take_drop]
  rfl

theorem length_take_clamp (offset : Int) : (s.toText.take (s.clamp offset)).length = s.clamp offset := by
  rw [List.length_take, length_toText]
  exact Nat.min_eq_left (clamp_le offset)

/-- The line of an offset, by the line feeds in front of it. -/
theorem position_line (offset : Int) :
    (s.position offset).line = (s.toText.take (s.clamp offset)).count 0x0A + 1 := by
  obtain ⟨before, last, first, after, h, -, -⟩ := Text.exists_lines_append (s.toText.take (s.clamp offset)) []
  rw [position_eq_behind, (Position.behind_eq h).1, ← Text.length_lines, h, List.length_append, List.length_singleton]

/-- The column of an offset is its distance from the last line feed in front of it, which ends the text `u`. In the
first line it is the distance from the start, and one. -/
theorem position_column (offset : Int) :
    (∀ u v, s.toText.take (s.clamp offset) = u ++ 0x0A :: v → 0x0A ∉ v →
      (s.position offset).column = s.clamp offset - u.length) ∧
    (0x0A ∉ s.toText.take (s.clamp offset) → (s.position offset).column = s.clamp offset + 1) := by
  constructor
  · intro u v cut none
    have line : Text.lines (0x0A :: v) = [] :: [v] := Text.lines_cons_lineFeed (Text.lines_of_notMem none)
    obtain ⟨before, last, first, after, -, hv, both⟩ := Text.exists_lines_append u (0x0A :: v)
    cases line.symm.trans hv
    have h : Text.lines (s.toText.take (s.clamp offset)) = (before ++ [last ++ []]) ++ [v] := by
      rw [cut, both, List.append_assoc]
      rfl
    have length := congrArg List.length cut
    rw [length_take_clamp, List.length_append, List.length_cons] at length
    rw [position_eq_behind, (Position.behind_eq h).2]
    omega
  · intro none
    have h : Text.lines (s.toText.take (s.clamp offset)) = [] ++ [s.toText.take (s.clamp offset)] :=
      Text.lines_of_notMem none
    rw [position_eq_behind, (Position.behind_eq h).2, length_take_clamp]

/-! ## 4. Positions of offsets -/

/-- An offset cuts its line in two: the first half is as long as the column says, and the second half goes on with the
code point at the offset, unless that is a line feed or there is none. -/
theorem exists_halves (offset : Int) :
    ∃ before last first after, s.lines = before ++ (last ++ first) :: after ∧
      (s.position offset).line = before.length + 1 ∧ (s.position offset).column = last.length + 1 ∧
      s.clamp offset = Text.extent before + last.length ∧
      first.head? = (s.get? (s.clamp offset)).filter (· != 0x0A) := by
  obtain ⟨before, last, first, after, hu, hv, both⟩ :=
    Text.exists_lines_append (s.toText.take (s.clamp offset)) (s.toText.drop (s.clamp offset))
  obtain ⟨line, column⟩ := Position.behind_eq hu
  have extent := Text.extent_lines (s.toText.take (s.clamp offset))
  rw [hu, Text.extent_append, Text.extent, Text.extent, length_take_clamp] at extent
  rw [List.take_append_drop] at both
  refine ⟨before, last, first, after, both, by rw [position_eq_behind, line], by rw [position_eq_behind, column],
    by omega, ?_⟩
  rw [← head?_remaining, remaining_eq_drop]
  cases behind : s.toText.drop (s.clamp offset) with
  | nil =>
    rw [behind] at hv
    cases hv
    rfl
  | cons c rest =>
    obtain ⟨line, more, h⟩ := Text.exists_lines rest
    rw [behind] at hv
    by_cases feed : c = 0x0A
    · subst feed
      cases (Text.lines_cons_lineFeed h).symm.trans hv
      rfl
    · cases (Text.lines_cons_other feed h).symm.trans hv
      have kept : (c != 0x0A) = true := bne_iff_ne.mpr feed
      simp [Option.filter, kept]

/-- There is such a position in the source: a line with that number, and a column of one of its code points or right
behind them. -/
def HasPosition (s : Source) (p : Position) : Prop :=
  ∃ line, s.lines[p.line - 1]? = some line ∧ p.column ≤ line.length + 1

/-- The offset of a position, from the lines in front of it and the columns in front of it. -/
def offsetOf (s : Source) (p : Position) : Nat := Text.extent (s.lines.take (p.line - 1)) + p.column - 1

namespace CoordinateLemmas

theorem hasPosition_position (offset : Int) : s.HasPosition (s.position offset) := by
  obtain ⟨before, last, first, after, lines, line, column, -, -⟩ := s.exists_halves offset
  refine ⟨last ++ first, ?_, ?_⟩
  · rw [lines, line, Nat.add_sub_cancel, List.getElem?_append_right (Nat.le_refl _), Nat.sub_self]
    rfl
  · rw [column, List.length_append]
    omega

theorem line_le (offset : Int) : (s.position offset).line ≤ s.lines.length := by
  obtain ⟨before, last, first, after, lines, line, -, -, -⟩ := s.exists_halves offset
  rw [lines, line, List.length_append, List.length_cons]
  omega

theorem offsetOf_position (offset : Int) : s.offsetOf (s.position offset) = s.clamp offset := by
  obtain ⟨before, last, first, after, lines, line, column, extent, -⟩ := s.exists_halves offset
  rw [offsetOf, lines, line, column, extent, Nat.add_sub_cancel, List.take_left]
  omega

/-- The lines up to a position take up at most what the whole source does, and one more for the end of the last line. -/
theorem offsetOf_lt_extent {p : Position} {line : Text} (there : s.lines[p.line - 1]? = some line)
    (fits : p.column ≤ line.length + 1) {n : Nat} (further : p.line ≤ n) :
    s.offsetOf p < Text.extent (s.lines.take n) := by
  have one_le := p.one_le_line
  have one_le_column := p.one_le_column
  obtain ⟨inside, there⟩ := List.getElem?_eq_some_iff.mp there
  have upTo : s.lines.take p.line = s.lines.take (p.line - 1) ++ [line] := by
    conv => lhs; rw [← Nat.sub_add_cancel one_le]
    rw [List.take_succ_eq_append_getElem inside, there]
  obtain ⟨more, rest⟩ : s.lines.take p.line <+: s.lines.take n := List.take_prefix_take_left further
  rw [← rest, upTo, offsetOf]
  rw [Text.extent_append, Text.extent_append, Text.extent, Text.extent]
  omega

theorem offsetOf_le {p : Position} (h : s.HasPosition p) : s.offsetOf p ≤ s.size := by
  obtain ⟨line, there, fits⟩ := h
  obtain ⟨inside, -⟩ := List.getElem?_eq_some_iff.mp there
  have below := offsetOf_lt_extent there fits (show p.line ≤ s.lines.length by omega)
  rw [List.take_length, lines_eq, Text.extent_lines, length_toText] at below
  omega

/-- A position that comes earlier has a smaller offset. -/
theorem offsetOf_lt {p q : Position} (hp : s.HasPosition p) (earlier : p.Before q) : s.offsetOf p < s.offsetOf q := by
  have one_le := p.one_le_column
  have one_le_column := q.one_le_column
  rcases earlier with less | ⟨line, less⟩
  · obtain ⟨line, there, fits⟩ := hp
    have below := offsetOf_lt_extent there fits (show p.line ≤ q.line - 1 by omega)
    rw [offsetOf.eq_def s q]
    omega
  · rw [offsetOf, offsetOf, line]
    omega

theorem eq_of_offsetOf_eq {p q : Position} (hp : s.HasPosition p) (hq : s.HasPosition q)
    (same : s.offsetOf p = s.offsetOf q) : p = q := by
  rcases p.before_or_eq_or_before q with earlier | equal | later
  · have less := offsetOf_lt hp earlier
    omega
  · exact equal
  · have less := offsetOf_lt hq later
    omega

end CoordinateLemmas

open CoordinateLemmas

/-- Lines and columns are an exact system of coordinates.

* The lines are the pieces between the line feeds.
* The position of any integer is one of the source, and the offset that it stands for is the integer, moved to the
  nearest end of the source if it lies outside.
* Different offsets of the source have different positions.
* Every position of the source is that of exactly one offset.
* Positions come in the order of the offsets. -/
theorem position_exact (s : Source) :
    s.lines = s.toText.splitOn 0x0A ∧
    (∀ offset : Int, ∃ line : Text,
      1 ≤ (s.position offset).line ∧ (s.position offset).line ≤ s.lines.length ∧
      s.lines[(s.position offset).line - 1]? = some line ∧
      1 ≤ (s.position offset).column ∧ (s.position offset).column ≤ line.length + 1 ∧
      max 0 (min offset s.size) =
        (Text.extent (s.lines.take ((s.position offset).line - 1)) + (s.position offset).column - 1 : Nat)) ∧
    (∀ i j : Nat, i ≤ s.size → j ≤ s.size → s.position i = s.position j → i = j) ∧
    (∀ p : Position, s.HasPosition p → ∃! i : Nat, i ≤ s.size ∧ s.position i = p) ∧
    (∀ i j : Nat, i < j → j ≤ s.size → (s.position i).Before (s.position j)) := by
  have back : ∀ i : Nat, i ≤ s.size → s.offsetOf (s.position i) = i := fun i inside => by
    rw [offsetOf_position, clamp_of_le inside]
  have injective : ∀ i j : Nat, i ≤ s.size → j ≤ s.size → s.position i = s.position j → i = j := by
    intro i j hi hj same
    rw [← back i hi, same, back j hj]
  refine ⟨Text.lines_eq_splitOn s.toText, ?_, injective, ?_, ?_⟩
  · intro offset
    obtain ⟨line, there, fits⟩ := hasPosition_position (s := s) offset
    have one_le := (s.position offset).one_le_column
    have stands := offsetOf_position (s := s) offset
    refine ⟨line, (s.position offset).one_le_line, line_le offset, there, one_le, fits, ?_⟩
    rw [← clamp_eq, ← stands, offsetOf]
  · intro p hp
    have inside := offsetOf_le hp
    have here : s.position (s.offsetOf p) = p :=
      eq_of_offsetOf_eq (hasPosition_position _) hp (back _ inside)
    refine ⟨s.offsetOf p, ⟨inside, here⟩, fun i hi => ?_⟩
    rw [← hi.2, back i hi.1]
  · intro i j less inside
    rcases (s.position i).before_or_eq_or_before (s.position j) with earlier | equal | later
    · exact earlier
    · have same := injective i j (by omega) inside equal
      omega
    · have greater := offsetOf_lt (hasPosition_position (j : Int)) later
      rw [back i (by omega), back j inside] at greater
      omega

/-- A line, an empty line and a line that is not ended. -/
def gapped : Source := .ofText (text "ab\n\ncd")

/-- The end of the first line is no place in the second one, and comes before it. Behind the last line there is one more
column, and only the end of the source is there. -/
theorem gapped_positions :
    gapped.position 2 ≠ gapped.position 3 ∧ (gapped.position 2).Before (gapped.position 3) ∧
      ∃! i : Nat, i ≤ gapped.size ∧ gapped.position i = ⟨3, 3, by decide, by decide⟩ := by
  obtain ⟨-, -, injective, unique, ordered⟩ := position_exact gapped
  refine ⟨fun same => ?_, ordered 2 3 (by decide) (by decide), unique _ ⟨text "cd", by decide, by decide⟩⟩
  exact absurd (injective 2 3 (by decide) (by decide) same) (by decide)

end Source
end Descent
