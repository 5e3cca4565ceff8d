import Descent.Failure
import Descent.Proofs.Source.Coordinates

/-!
# Excerpts

A failure refers to an offset, says so in its heading, and is shown with the lines of the source around that offset. The
lines are numbered through and a window is cut out of them; only for the line of the failure there is a second line in
the excerpt, whose caret stands below the failing code point.

Results:
1. `numbers_window`: a window holds consecutive numbers, as far as there are lines.
2. `rows_window`: what is shown of a window, for a position inside it.
3. `caretLine_pointsAt`: where the caret stands.
4. `refersTo_offset`, `heading_located`: the offset and the heading of a failure.
5. `excerpt_exact`: whole excerpts, for every failure and every place where a parse can stop.
-/

namespace Descent.Failure

variable {s : Source} {p : Position}

/-- The offset that a failure refers to, if the parse has stopped at the offset `stopped`: the start of the span of its
diagnostic, and without such a span the offset where the parse has stopped. -/
inductive RefersTo (f : Failure) (stopped : Int) : Int → Prop
  | span (d : Diagnostic) (span : Span) (diagnosed : f.diagnostic = some d) (spanned : d.span = some span) :
      f.RefersTo stopped span.start
  | unspanned (d : Diagnostic) (diagnosed : f.diagnostic = some d) (unspanned : d.span = none) :
      f.RefersTo stopped stopped
  | undiagnosed (undiagnosed : f.diagnostic = none) : f.RefersTo stopped stopped

/-- A line and a column, counted from one. -/
def place (p : Position) : Text := Decimal.ofNat p.line ++ text ":" ++ Decimal.ofNat p.column ++ text ": "

/-- What a failure says at a position: the message of its diagnostic, and what was expected if that is known. -/
inductive Heading (f : Failure) (p : Position) : Text → Prop
  | undiagnosed (undiagnosed : f.diagnostic = none) : f.Heading p (place p ++ text "Parsing failed")
  | message (d : Diagnostic) (diagnosed : f.diagnostic = some d) (open_ended : d.expected = []) :
      f.Heading p (place p ++ d.message)
  | expecting (d : Diagnostic) (diagnosed : f.diagnostic = some d) (some_expected : d.expected ≠ []) :
      f.Heading p (place p ++ d.message ++ text " (expected: " ++
        (text ", ").intercalate (d.expected.map fun e => text "'" ++ e ++ text "'") ++ text ")")

/-- A line with its number in front, which takes up four columns or more. -/
def numbered (number : Nat) (line : Text) : Text :=
  List.replicate (4 - (Decimal.ofNat number).length) 0x20 ++ Decimal.ofNat number ++ text " | " ++ line

/-- The line of a source that has the given number, with the number in front. There may be no such line. -/
def numbered? (s : Source) (number : Nat) : Option Text := s.lines[number - 1]?.map (numbered number)

/-- What stands in front of a caret: blanks, but for the bar behind the number. -/
def caretMargin (p : Position) : Text :=
  List.replicate (max 4 (Decimal.ofNat p.line).length) 0x20 ++ text " | " ++ List.replicate (p.column - 1) 0x20

/-- The line below the line of the position, with a caret in the column of the position. -/
def caretLine (p : Position) : Text := caretMargin p ++ text "^"

/-- A line has one caret, and it points at the given code point of the line above it, or if there is none, right behind
the end of that line. -/
structure PointsAt (caret above : Text) (c : Option CodePoint) : Prop where
  single : caret.count 0x5E = 1
  same : above[caret.idxOf 0x5E]? = c
  behind : c = none → caret.idxOf 0x5E = above.length

namespace ExcerptLemmas

/-! ## 1. Windows -/

theorem filter_range (first last start count : Nat) :
    (List.range' start count).filter (fun i => decide (first ≤ i) && decide (i ≤ last)) =
      List.range' (max first start) (min (last + 1) (start + count) - max first start) := by
  induction count generalizing start with
  | zero =>
    have none : min (last + 1) (start + 0) - max first start = 0 := by omega
    rw [none]
    rfl
  | succ count ih =>
    have further : start + 1 + count = start + (count + 1) := by omega
    rw [List.range'_succ, List.filter_cons, ih, further]
    by_cases inside : first ≤ start ∧ start ≤ last
    · have here : max first start = start := by omega
      have next : max first (start + 1) = start + 1 := by omega
      have one : min (last + 1) (start + (count + 1)) - start =
          min (last + 1) (start + (count + 1)) - (start + 1) + 1 := by omega
      rw [if_pos (by simpa using inside), here, next, one, List.range'_succ]
    · rw [if_neg (by simpa using inside)]
      by_cases early : start < first
      · have here : max first start = first := by omega
        have next : max first (start + 1) = first := by omega
        rw [here, next]
      · -- Behind the window nothing is left of either stretch.
        have here : min (last + 1) (start + (count + 1)) - max first start = 0 := by omega
        have next : min (last + 1) (start + (count + 1)) - max first (start + 1) = 0 := by omega
        rw [here, next]
        rfl

/-- The numbers from one number to another, cut at a number between them. -/
theorem range_around {first last middle : Nat} (first_le : first ≤ middle) (le_last : middle ≤ last) :
    List.range' first (last + 1 - first) =
      List.range' first (middle - first) ++ middle :: List.range' (middle + 1) (last - middle) := by
  have split := List.range'_append_1 (s := first) (m := middle - first) (n := last - middle + 1)
  have start : first + (middle - first) = middle := by omega
  have count : middle - first + (last - middle + 1) = last + 1 - first := by omega
  rw [start, count, List.range'_succ] at split
  exact split.symm

/-- The lines with the numbers from `first` to `last`. -/
def window (s : Source) (first last : Nat) : List (Text × Nat) :=
  (s.lines.zipIdx 1).filter fun x => decide (first ≤ x.2) && decide (x.2 ≤ last)

theorem numbers_window {first last : Nat} (one_le : 1 ≤ first) :
    (window s first last).map Prod.snd = List.range' first (min s.lines.length last + 1 - first) := by
  have within : max first 1 = first := by omega
  have count : min (last + 1) (1 + s.lines.length) = min s.lines.length last + 1 := by omega
  calc
    (window s first last).map Prod.snd =
        ((s.lines.zipIdx 1).map Prod.snd).filter (fun i => decide (first ≤ i) && decide (i ≤ last)) :=
      (List.filter_map (f := Prod.snd) (p := fun i => decide (first ≤ i) && decide (i ≤ last))).symm
    _ = List.range' first (min s.lines.length last + 1 - first) := by
      rw [List.zipIdx_map_snd, filter_range, within, count]

theorem numbered?_of_mem {first last : Nat} {x : Text × Nat} (h : x ∈ window s first last) :
    numbered? s x.2 = some (numbered x.2 x.1) := by
  have listed := (List.mk_mem_zipIdx_iff_le_and_getElem?_sub.mp (List.mem_filter.mp h).1).2
  rw [numbered?, listed]
  rfl

/-! ## 2. Rows -/

theorem length_padLeft (width : Nat) (t : Text) : (Text.padLeft width t).length = max width t.length := by
  rw [Text.padLeft, List.length_append, List.length_replicate]
  omega

theorem excerptLine_self (line : Text) : excerptLine p p.line line = [numbered p.line line, caretLine p] := by
  rw [excerptLine, if_pos rfl, length_padLeft]
  rfl

theorem excerptLine_other {number : Nat} (other : number ≠ p.line) (line : Text) :
    excerptLine p number line = [numbered number line] := by
  rw [excerptLine, if_neg other]
  rfl

/-- Away from the line of the failure, there is one row for each line. -/
theorem flatMap_excerptLine {lines : List (Text × Nat)} (other : ∀ x ∈ lines, x.2 ≠ p.line) :
    lines.flatMap (fun x => excerptLine p x.2 x.1) = lines.map fun x => numbered x.2 x.1 := by
  induction lines with
  | nil => rfl
  | cons x lines ih =>
    obtain ⟨here, others⟩ := List.forall_mem_cons.mp other
    rw [List.flatMap_cons, excerptLine_other here, ih others]
    rfl

/-- Consecutive numbers that end before the line of the failure, or start behind it, are not the number of that line. -/
theorem other_of_numbers {lines : List (Text × Nat)} {start count : Nat}
    (numbers : lines.map Prod.snd = List.range' start count) (apart : p.line < start ∨ start + count ≤ p.line) :
    ∀ x ∈ lines, x.2 ≠ p.line := by
  intro x hx
  have range : x.2 ∈ List.range' start count := numbers ▸ List.mem_map_of_mem hx
  rw [List.mem_range'_1] at range
  omega

/-- The rows of a window show its lines one after another, and there is one more behind the line of the failure. -/
theorem rows_window {first last : Nat} (one_le : 1 ≤ first) (first_le : first ≤ p.line) (le_last : p.line ≤ last)
    (there : p.line ≤ s.lines.length) :
    ∃ above shown below,
      (window s first last).flatMap (fun x => excerptLine p x.2 x.1) = above ++ shown :: caretLine p :: below ∧
      (above ++ shown :: below).map some =
        (List.range' first (min s.lines.length last + 1 - first)).map (numbered? s) ∧
      above.length = p.line - first ∧ numbered? s p.line = some shown := by
  have parts := range_around first_le (Nat.le_min.mpr ⟨there, le_last⟩)
  obtain ⟨before, rest, cut, numbers, more⟩ := List.map_eq_append_iff.mp ((numbers_window one_le).trans parts)
  obtain ⟨x, after, rfl, here, others⟩ := List.map_eq_cons_iff.mp more
  have beforeOther := other_of_numbers numbers (.inr (by omega : first + (p.line - first) ≤ p.line))
  have afterOther := other_of_numbers others (.inl p.line.lt_succ_self)
  have row := fun (y : Text × Nat) (hy : y ∈ before ++ x :: after) => numbered?_of_mem (cut.symm ▸ hy)
  refine ⟨before.map fun y => numbered y.2 y.1, numbered x.2 x.1, after.map fun y => numbered y.2 y.1, ?_, ?_, ?_, ?_⟩
  · rw [cut, List.flatMap_append, List.flatMap_cons, flatMap_excerptLine beforeOther, flatMap_excerptLine afterOther,
      here, excerptLine_self]
    rfl
  · calc
      (before.map (fun y => numbered y.2 y.1) ++ numbered x.2 x.1 :: after.map fun y => numbered y.2 y.1).map some
        = (before ++ x :: after).map fun y => some (numbered y.2 y.1) := by
          simp only [List.map_append, List.map_cons, List.map_map, Function.comp_def]
      _ = (before ++ x :: after).map fun y => numbered? s y.2 := List.map_congr_left fun y hy => (row y hy).symm
      _ = ((window s first last).map Prod.snd).map (numbered? s) := by rw [cut, List.map_map]; rfl
      _ = _ := by rw [numbers_window one_le]
  · rw [List.length_map, ← List.length_map (f := Prod.snd), numbers, List.length_range']
  · rw [← here]
    exact row x (List.mem_append_right _ (List.mem_cons_self ..))

/-! ## 3. The caret -/

theorem notMem_caretMargin : 0x5E ∉ caretMargin p := by
  have blank : ∀ n, (0x5E : CodePoint) ∉ List.replicate n 0x20 := fun n h => by
    have same := List.eq_of_mem_replicate h
    cases same
  rw [caretMargin, List.mem_append, List.mem_append]
  rintro ((h | h) | h)
  · exact blank _ h
  · exact absurd h (by decide)
  · exact blank _ h

theorem idxOf_caretLine : (caretLine p).idxOf 0x5E = (caretMargin p).length := by
  rw [caretLine, List.idxOf_append, if_neg notMem_caretMargin]
  exact Nat.zero_add _

theorem count_caretLine : (caretLine p).count 0x5E = 1 := by
  rw [caretLine, List.count_append, List.count_eq_zero.mpr notMem_caretMargin]
  rfl

/-- The caret stands below what the second half of a line begins with, if the first half ends at the column. -/
theorem caretLine_pointsAt {last first : Text} (column : p.column = last.length + 1) :
    PointsAt (caretLine p) (numbered p.line (last ++ first)) first.head? := by
  have halves : numbered p.line (last ++ first) = numbered p.line last ++ first := by
    rw [numbered, numbered, List.append_assoc _ last first]
  have margin : (caretMargin p).length = (numbered p.line last).length := by
    simp only [caretMargin, numbered, List.length_append, List.length_replicate]
    omega
  refine ⟨count_caretLine, ?_, ?_⟩
  · rw [idxOf_caretLine, halves, margin, List.getElem?_append_right (Nat.le_refl _), Nat.sub_self,
      List.head?_eq_getElem?]
  · intro none
    rw [List.head?_eq_none_iff.mp none, List.append_nil, idxOf_caretLine, margin]

/-! ## 4. Offsets and headings -/

theorem refersTo_offset (f : Failure) (stopped : Int) : f.RefersTo stopped (f.offset stopped) := by
  rw [Failure.offset]
  cases diagnosed : f.diagnostic with
  | none => exact .undiagnosed diagnosed
  | some d =>
    rw [Option.bind_some]
    cases spanned : d.span with
    | none => exact .unspanned d diagnosed spanned
    | some span => exact .span d span diagnosed spanned

theorem heading_located (f : Failure) (s : Source) (stopped : Int) :
    f.Heading (s.position (f.offset stopped)) (f.located s stopped) := by
  rw [Failure.located, Failure.message]
  cases diagnosed : f.diagnostic with
  | none =>
    simp only [List.isEmpty_nil, if_true, List.append_nil]
    exact .undiagnosed diagnosed
  | some d =>
    cases expected : d.expected with
    | nil =>
      simp only [expected, List.isEmpty_nil, if_true, List.append_nil]
      exact .message d diagnosed expected
    | cons e more =>
      have some_expected : d.expected ≠ [] := by rw [expected]; exact nofun
      have heading := Heading.expecting (p := s.position (f.offset stopped)) d diagnosed some_expected
      simpa only [place, expected, List.isEmpty_cons, Bool.false_eq_true, if_false, List.append_assoc] using heading

/-! ## 5. Whole excerpts -/

theorem excerpt_eq (f : Failure) (s : Source) (stopped : Int) (around : Nat) :
    f.excerpt s stopped around = (text "\n").intercalate (f.located s stopped :: [] ::
      (window s (max 1 ((s.position (f.offset stopped)).line - around))
        ((s.position (f.offset stopped)).line + around)).flatMap
          fun x => excerptLine (s.position (f.offset stopped)) x.2 x.1) := by
  have first : ∀ line : Nat, (max 1 ((line : Int) - around)).toNat = max 1 (line - around) := by omega
  have last : ∀ line number : Nat, (number : Int) ≤ (line : Int) + around ↔ number ≤ line + around := by omega
  simp only [excerpt, first, last]
  rfl

end ExcerptLemmas

open ExcerptLemmas

/-- What a failure is shown with, wherever the parse has stopped, and with any number of lines around it. Let `i` be the
offset that the failure refers to.

* The located message comes first, the heading of the failure at the position of `i`, and then an empty line.
* Of the lines around the failure all that exist are shown, in order and with their numbers in front.
* There is one more line, right behind the line of the failure, and its caret stands below the code point at `i`. At a
  line feed or at the end of the source it stands below the end of the line. -/
theorem excerpt_exact (f : Failure) (s : Source) (stopped : Int) (around : Nat) :
    ∃ i, f.RefersTo stopped i ∧ f.offset stopped = i ∧
    let p := s.position i
    let first := max 1 (p.line - around)
    let last := min s.lines.length (p.line + around)
    f.Heading p (f.located s stopped) ∧
    ∃ above shown below,
      f.excerpt s stopped around = (text "\n").intercalate
        (f.located s stopped :: [] :: (above ++ shown :: caretLine p :: below)) ∧
      (above ++ shown :: below).map some = (List.range' first (last + 1 - first)).map (numbered? s) ∧
      above.length = p.line - first ∧ numbered? s p.line = some shown ∧
      PointsAt (caretLine p) shown ((s.get? (s.clamp i)).filter (· != 0x0A)) := by
  refine ⟨f.offset stopped, refersTo_offset f stopped, rfl, ?_⟩
  intro p first last
  refine ⟨heading_located f s stopped, ?_⟩
  obtain ⟨before, half, rest, after, lines, line, column, -, head⟩ := s.exists_halves (f.offset stopped)
  have one_le := p.one_le_line
  have there : p.line ≤ s.lines.length := Source.CoordinateLemmas.line_le _
  have one_le_first : 1 ≤ first := Nat.le_max_left ..
  have first_le : first ≤ p.line := by omega
  have le_last : p.line ≤ p.line + around := Nat.le_add_right ..
  obtain ⟨above, shown, below, rows, shows, length, here⟩ := rows_window one_le_first first_le le_last there
  refine ⟨above, shown, below, ?_, shows, length, here, ?_⟩
  · rw [excerpt_eq, rows]
  · have found : numbered? s p.line = some (numbered p.line (half ++ rest)) := by
      rw [numbered?, lines, show p.line = before.length + 1 from line, Nat.add_sub_cancel,
        List.getElem?_append_right (Nat.le_refl _), Nat.sub_self]
      rfl
    obtain rfl := Option.some.inj (here.symm.trans found)
    rw [← head]
    exact caretLine_pointsAt column

/-- The list that the second line opens is never closed. -/
example :
    Failure.plain.excerpt (.ofText (text "a = 1\nb = [2\nc = 3")) 11 2 =
      text "2:6: Parsing failed\n\n   1 | a = 1\n   2 | b = [2\n     |      ^\n   3 | c = 3" := by
  decide +kernel

end Descent.Failure
