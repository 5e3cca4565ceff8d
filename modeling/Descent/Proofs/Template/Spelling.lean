import Descent.Parser.Template

/-!
# How templates are written

A template is written mark by mark: a code point that is no brace, a brace written twice, or a slot. The scanner reads a
wider language, in which a field may have a name, a conversion and a specification. The texts in which it finds nothing
but bare fields are exactly those that are written in marks, and what it finds there is what the marks stand for.

One form of a slot is not meant to be one: the scanner takes a conversion by the code point zero for no conversion, so
that a field with nothing else in it is bare.

Results:
1. `spoilt_read`, `begun_read`: what reading one code point does to a field that is under way.
2. `scan_eq_ok_iff`: the texts without other fields than bare ones.
3. `read_eq_ok_iff`: the templates with a given number of slots.
4. `read_doubled`: literal texts with slots between them, written with every brace twice.
-/

namespace Descent.Template

/-! ## Marks -/

/-- What a template is written in. -/
inductive Mark
  | point (c : CodePoint) (plain : c ≠ 0x7B ∧ c ≠ 0x7D)
  | openingBrace
  | closingBrace
  /-- A slot, where the conversion by zero and the colon may be written or not. -/
  | slot (zero colon : Bool)

namespace Mark

def written : Mark → Text
  | point c _ => [c]
  | openingBrace => [0x7B, 0x7B]
  | closingBrace => [0x7D, 0x7D]
  | slot zero colon => 0x7B :: (if zero then [0x21, 0] else []) ++ (if colon then [0x3A] else []) ++ [0x7D]

/-- What the scanner makes of a mark. -/
def piece : Mark → Piece
  | point c _ => .point c
  | openingBrace => .point 0x7B
  | closingBrace => .point 0x7D
  | slot zero _ => .field ⟨[], if zero then some 0 else none, []⟩

def isSlot : Mark → Bool
  | slot _ _ => true
  | _ => false

/-- The mark has no conversion in it, not even the one by zero. -/
def Unconverted : Mark → Prop
  | slot zero _ => zero = false
  | _ => True

/-- How a code point of a literal text is written. -/
def ofPoint (c : CodePoint) : Mark :=
  if opening : c = 0x7B then openingBrace
  else if closing : c = 0x7D then closingBrace
  else point c ⟨opening, closing⟩

theorem piece_ofPoint (c : CodePoint) : (ofPoint c).piece = .point c := by
  unfold ofPoint
  split
  · next opening => rw [opening, piece]
  · split
    · next closing => rw [closing, piece]
    · rfl

end Mark

/-- Every field that the scanner has found is bare. -/
def AllBare (pieces : List Piece) : Prop := ∀ f, .field f ∈ pieces → f.isBare = true

/-! ## 1. One code point -/

namespace SpellingLemmas

theorem isBare_iff {f : Field} :
    f.isBare = true ↔ f.name = [] ∧ f.specification = [] ∧ (f.conversion = none ∨ f.conversion = some 0) := by
  simp [Field.isBare, and_assoc]

end SpellingLemmas

open SpellingLemmas

/-- The field that the scanner is reading will not be bare, however it goes on. -/
def Mode.Spoilt : Mode → Prop
  | .name read => read ≠ []
  | .bracket _ => True
  | .conversion field => field ≠ []
  | .converted field letter => field ≠ [] ∨ letter ≠ 0
  | .specification field letter spec _ => field ≠ [] ∨ ¬ (letter = none ∨ letter = some 0) ∨ spec ≠ []
  | _ => False

/-- The scanner stands behind a text with which a mark may begin. -/
inductive Mode.Begun : Mode → Text → Prop
  | literal : Begun .literal []
  | opened : Begun .opened [0x7B]
  | closed : Begun .closed [0x7D]
  | conversion : Begun (.conversion []) [0x7B, 0x21]
  | converted : Begun (.converted [] 0) [0x7B, 0x21, 0]
  | specification : Begun (.specification [] none [] 0) [0x7B, 0x3A]
  | converted_specification : Begun (.specification [] (some 0) [] 0) [0x7B, 0x21, 0, 0x3A]

/-- What is completed is a field that is not bare, or nothing is and the field under way will not be bare. -/
def Spoils (piece : Option Piece) (mode : Mode) : Prop :=
  (piece = none ∧ mode.Spoilt) ∨ ∃ f, piece = some (.field f) ∧ f.isBare = false

namespace SpellingLemmas

variable {mode mode' : Mode} {c : CodePoint} {piece : Option Piece} {read : Text}

theorem spoils_field {field spec : Text} {letter : Option CodePoint}
    (marked : field ≠ [] ∨ ¬ (letter = none ∨ letter = some 0) ∨ spec ≠ []) :
    Spoils (some (.field ⟨field, letter, spec⟩)) .literal := by
  refine .inr ⟨_, rfl, Bool.eq_false_iff.mpr fun bare => ?_⟩
  obtain ⟨unnamed, unspecified, unconverted⟩ := isBare_iff.mp bare
  rcases marked with named | converted | specified
  · exact named unnamed
  · exact converted unconverted
  · exact specified unspecified

/-- A field with a name or the beginning of one. -/
theorem readName_spoils (h : readName read c = .ok (piece, mode'))
    (named : read ≠ [] ∨ c ≠ 0x7D ∧ c ≠ 0x3A ∧ c ≠ 0x21) : Spoils piece mode' := by
  unfold readName at h
  split at h
  · cases h
  split at h
  · cases h
    exact .inl ⟨rfl, trivial⟩
  split at h
  · next closing =>
    cases h
    have some : read.reverse ≠ [] := by simpa using named.resolve_right fun other => other.1 closing
    exact spoils_field (.inl some)
  split at h
  · next colon =>
    cases h
    have some : read.reverse ≠ [] := by simpa using named.resolve_right fun other => other.2.1 colon
    exact .inl ⟨rfl, .inl some⟩
  split at h
  · next mark =>
    cases h
    have some : read.reverse ≠ [] := by simpa using named.resolve_right fun other => other.2.2 mark
    exact .inl ⟨rfl, some⟩
  · cases h
    exact .inl ⟨rfl, List.cons_ne_nil _ _⟩

end SpellingLemmas

/-- A field that will not be bare goes on so, and is not bare when it ends. -/
theorem spoilt_read {mode mode' : Mode} {c : CodePoint} {piece : Option Piece} (spoilt : mode.Spoilt)
    (h : mode.read c = .ok (piece, mode')) : Spoils piece mode' := by
  cases mode with
  | literal => exact spoilt.elim
  | opened => exact spoilt.elim
  | closed => exact spoilt.elim
  | name read => exact readName_spoils h (.inl spoilt)
  | bracket read =>
    cases h
    split
    · exact .inl ⟨rfl, List.cons_ne_nil _ _⟩
    · exact .inl ⟨rfl, trivial⟩
  | conversion field =>
    cases h
    exact .inl ⟨rfl, .inl spoilt⟩
  | converted field letter =>
    have named : field ≠ [] ∨ ¬ (some letter = none ∨ some letter = some 0) := by simpa [Mode.Spoilt] using spoilt
    simp only [Mode.read] at h
    split at h
    · cases h
      exact spoils_field (named.imp_right .inl)
    split at h
    · cases h
      exact .inl ⟨rfl, named.imp_right .inl⟩
    · cases h
  | specification field letter spec depth =>
    have longer : (Mode.specification field letter (c :: spec) depth).Spoilt := .inr (.inr (List.cons_ne_nil _ _))
    simp only [Mode.read] at h
    split at h
    · cases h
      exact .inl ⟨rfl, longer⟩
    split at h
    · split at h
      · cases h
        exact spoils_field (by simpa [Mode.Spoilt] using spoilt)
      · cases h
        exact .inl ⟨rfl, longer⟩
    · cases h
      exact .inl ⟨rfl, longer⟩

/-- What a mark may begin with is spoilt, goes on, or is the mark. -/
theorem begun_read {mode mode' : Mode} {c : CodePoint} {piece : Option Piece} {u : Text} (begun : mode.Begun u)
    (h : mode.read c = .ok (piece, mode')) :
    Spoils piece mode' ∨ (piece = none ∧ mode'.Begun (u ++ [c])) ∨
      ∃ mark : Mark, piece = some mark.piece ∧ mode' = .literal ∧ mark.written = u ++ [c] := by
  cases begun with
  | literal =>
    simp only [Mode.read] at h
    split at h
    · next opening =>
      cases h
      exact .inr (.inl ⟨rfl, opening ▸ .opened⟩)
    split at h
    · next closing =>
      cases h
      exact .inr (.inl ⟨rfl, closing ▸ .closed⟩)
    · next opening closing =>
      cases h
      exact .inr (.inr ⟨.point c ⟨opening, closing⟩, rfl, rfl, rfl⟩)
  | opened =>
    simp only [Mode.read] at h
    split at h
    · next opening =>
      subst opening
      cases h
      exact .inr (.inr ⟨.openingBrace, rfl, rfl, rfl⟩)
    by_cases closing : c = 0x7D
    · subst closing
      cases h
      exact .inr (.inr ⟨.slot false false, rfl, rfl, rfl⟩)
    by_cases colon : c = 0x3A
    · subst colon
      cases h
      exact .inr (.inl ⟨rfl, .specification⟩)
    by_cases mark : c = 0x21
    · subst mark
      cases h
      exact .inr (.inl ⟨rfl, .conversion⟩)
    · exact .inl (readName_spoils h (.inr ⟨closing, colon, mark⟩))
  | closed =>
    simp only [Mode.read] at h
    split at h
    · next closing =>
      subst closing
      cases h
      exact .inr (.inr ⟨.closingBrace, rfl, rfl, rfl⟩)
    · cases h
  | conversion =>
    cases h
    by_cases zero : c = 0
    · exact .inr (.inl ⟨rfl, zero ▸ .converted⟩)
    · exact .inl (.inl ⟨rfl, .inr zero⟩)
  | converted =>
    simp only [Mode.read] at h
    split at h
    · next closing =>
      cases h
      exact .inr (.inr ⟨.slot true false, rfl, rfl, closing ▸ rfl⟩)
    split at h
    · next colon =>
      cases h
      exact .inr (.inl ⟨rfl, colon ▸ .converted_specification⟩)
    · cases h
  | specification =>
    simp only [Mode.read] at h
    split at h
    · cases h
      exact .inl (.inl ⟨rfl, .inr (.inr (List.cons_ne_nil _ _))⟩)
    split at h
    · next closing =>
      cases h
      exact .inr (.inr ⟨.slot false true, rfl, rfl, closing ▸ rfl⟩)
    · cases h
      exact .inl (.inl ⟨rfl, .inr (.inr (List.cons_ne_nil _ _))⟩)
  | converted_specification =>
    simp only [Mode.read] at h
    split at h
    · cases h
      exact .inl (.inl ⟨rfl, .inr (.inr (List.cons_ne_nil _ _))⟩)
    split at h
    · next closing =>
      cases h
      exact .inr (.inr ⟨.slot true true, rfl, rfl, closing ▸ rfl⟩)
    · cases h
      exact .inl (.inl ⟨rfl, .inr (.inr (List.cons_ne_nil _ _))⟩)

/-! ## 2. Whole texts -/

/-- The text of several marks. -/
def writtenAll (marks : List Mark) : Text := marks.flatMap Mark.written

namespace SpellingLemmas

theorem scanFrom_eq_ok_iff {mode : Mode} {c : CodePoint} {rest : Text} {pieces : List Piece} :
    scanFrom mode (c :: rest) = .ok pieces ↔ ∃ piece mode' more, mode.read c = .ok (piece, mode') ∧
      scanFrom mode' rest = .ok more ∧ pieces = piece.toList ++ more := by
  cases read : mode.read c with
  | error e => simp [scanFrom, read]
  | ok found =>
    obtain ⟨piece, mode'⟩ := found
    simp only [scanFrom, read]
    constructor
    · intro h
      cases scanned : scanFrom mode' rest with
      | error e =>
        rw [scanned] at h
        cases h
      | ok more =>
        rw [scanned] at h
        cases h
        exact ⟨piece, mode', more, rfl, scanned, rfl⟩
    · rintro ⟨_, _, more, ⟨⟩, scanned, rfl⟩
      rw [scanned]
      rfl

/-- A field that is spoilt never becomes bare. -/
theorem not_allBare_of_spoilt {mode : Mode} {t : Text} {pieces : List Piece} (spoilt : mode.Spoilt)
    (h : scanFrom mode t = .ok pieces) : ¬ AllBare pieces := by
  induction t generalizing mode pieces with
  | nil => cases mode <;> first | exact spoilt.elim | cases h
  | cons c rest ih =>
    obtain ⟨piece, mode', more, read, scanned, rfl⟩ := scanFrom_eq_ok_iff.mp h
    rcases spoilt_read spoilt read with ⟨rfl, spoilt'⟩ | ⟨f, rfl, marked⟩
    · exact ih spoilt' scanned
    · intro bare
      exact Bool.eq_false_iff.mp marked (bare f (List.mem_cons_self ..))

theorem marks_of_scanFrom {mode : Mode} {u t : Text} {pieces : List Piece} (begun : mode.Begun u)
    (h : scanFrom mode t = .ok pieces) (bare : AllBare pieces) :
    ∃ marks : List Mark, u ++ t = writtenAll marks ∧ pieces = marks.map Mark.piece := by
  induction t generalizing mode u pieces with
  | nil =>
    cases begun with
    | literal =>
      cases h
      exact ⟨[], rfl, rfl⟩
    | _ => cases h
  | cons c rest ih =>
    obtain ⟨piece, mode', more, read, scanned, rfl⟩ := scanFrom_eq_ok_iff.mp h
    rcases begun_read begun read with (⟨rfl, spoilt⟩ | ⟨f, rfl, marked⟩) | ⟨rfl, begun'⟩ | ⟨mark, rfl, rfl, written⟩
    · exact absurd bare (not_allBare_of_spoilt spoilt scanned)
    · exact absurd (bare f (List.mem_cons_self ..)) (Bool.eq_false_iff.mp marked)
    · obtain ⟨marks, spelled, found⟩ := ih begun' scanned bare
      exact ⟨marks, by simpa using spelled, found⟩
    · obtain ⟨marks, spelled, rfl⟩ := ih .literal scanned fun f later => bare f (List.mem_cons_of_mem _ later)
      refine ⟨mark :: marks, ?_, rfl⟩
      calc
        u ++ c :: rest = (u ++ [c]) ++ rest := List.append_cons ..
        _ = mark.written ++ writtenAll marks := by rw [← written, ← spelled, List.nil_append]

theorem scanFrom_written (mark : Mark) (t : Text) :
    scanFrom .literal (mark.written ++ t) = (scanFrom .literal t).map (mark.piece :: ·) := by
  cases mark with
  | point c plain =>
    cases rest : scanFrom .literal t <;> simp [Mark.written, Mark.piece, scanFrom, Mode.read, plain, rest, Except.map]
  | openingBrace =>
    cases rest : scanFrom .literal t <;> simp [Mark.written, Mark.piece, scanFrom, Mode.read, rest, Except.map]
  | closingBrace =>
    cases rest : scanFrom .literal t <;> simp [Mark.written, Mark.piece, scanFrom, Mode.read, rest, Except.map]
  | slot zero colon =>
    cases rest : scanFrom .literal t <;> cases zero <;> cases colon <;>
      simp [Mark.written, Mark.piece, scanFrom, Mode.read, readName, rest, Except.map]

theorem scan_writtenAll (marks : List Mark) : scan (writtenAll marks) = .ok (marks.map Mark.piece) := by
  induction marks with
  | nil => rfl
  | cons mark marks ih =>
    have split : writtenAll (mark :: marks) = mark.written ++ writtenAll marks := List.flatMap_cons
    rw [scan] at ih ⊢
    rw [split, scanFrom_written, ih]
    rfl

theorem isBare_of_piece {mark : Mark} {f : Field} (found : mark.piece = .field f) : f.isBare = true := by
  cases mark with
  | slot zero colon =>
    cases found
    cases zero <;> rfl
  | _ => cases found

end SpellingLemmas

/-- The scanner finds bare fields only exactly in the texts that are written in marks. -/
theorem scan_eq_ok_iff {t : Text} {pieces : List Piece} :
    (scan t = .ok pieces ∧ AllBare pieces) ↔
      ∃ marks : List Mark, t = writtenAll marks ∧ pieces = marks.map Mark.piece := by
  constructor
  · rintro ⟨scanned, bare⟩
    exact marks_of_scanFrom .literal scanned bare
  · rintro ⟨marks, rfl, rfl⟩
    refine ⟨scan_writtenAll marks, fun f member => ?_⟩
    obtain ⟨mark, -, found⟩ := List.mem_map.mp member
    exact isBare_of_piece found

/-! ## 3. Slots -/

/-- The number of slots among several marks. -/
def slotCount (marks : List Mark) : Nat := marks.countP Mark.isSlot

/-- A code point in front of the literal texts. -/
def Literals.cons (c : CodePoint) (l : Literals) : Literals :=
  match l.leading with
  | [] => { l with trailing := c :: l.trailing }
  | first :: more => { l with leading := (c :: first) :: more }

namespace SpellingLemmas

variable {pieces : List Piece} {l : Literals} {f : Field}

theorem literals_point : literals (.point c :: pieces) = (literals pieces).map (Literals.cons c) := rfl

theorem literals_field (bare : f.isBare = true) :
    literals (.field f :: pieces) = (literals pieces).map fun l => { l with leading := [] :: l.leading } := by
  rw [literals, if_pos bare]

theorem length_leading_cons (c : CodePoint) (l : Literals) : (Literals.cons c l).leading.length = l.leading.length := by
  unfold Literals.cons
  split
  · rfl
  · next first more shape => rw [shape]; rfl

/-- There are as many texts in front of slots as there are slots. -/
theorem literals_marks (marks : List Mark) :
    ∃ l, literals (marks.map Mark.piece) = .ok l ∧ l.leading.length = slotCount marks := by
  induction marks with
  | nil => exact ⟨⟨[], []⟩, rfl, rfl⟩
  | cons mark marks ih =>
    obtain ⟨l, found, counted⟩ := ih
    rw [List.map_cons]
    have point : ∀ c, mark.piece = .point c → mark.isSlot = false →
        ∃ l, literals (mark.piece :: marks.map Mark.piece) = .ok l ∧ l.leading.length = slotCount (mark :: marks) := by
      intro c piece other
      refine ⟨Literals.cons c l, by rw [piece, literals_point, found]; rfl, ?_⟩
      rw [length_leading_cons, counted, slotCount, slotCount, List.countP_cons_of_neg (by simp [other])]
    cases mark with
    | point c plain => exact point c rfl rfl
    | openingBrace => exact point 0x7B rfl rfl
    | closingBrace => exact point 0x7D rfl rfl
    | slot zero colon =>
      refine ⟨{ l with leading := [] :: l.leading }, ?_, ?_⟩
      · rw [Mark.piece, literals_field (@isBare_of_piece (.slot zero colon) _ rfl), found]
        rfl
      · rw [slotCount, List.countP_cons_of_pos rfl, ← slotCount, ← counted]
        rfl

theorem allBare_of_literals (h : literals pieces = .ok l) : AllBare pieces := by
  induction pieces generalizing l with
  | nil => exact fun _ => nofun
  | cons piece pieces ih =>
    have others : ∀ (change : Literals → Literals), (literals pieces).map change = .ok l → AllBare pieces := by
      intro change changed
      cases found : literals pieces with
      | error e =>
        rw [found] at changed
        cases changed
      | ok more => exact ih found
    intro f member
    cases piece with
    | point c =>
      exact others _ h f ((List.mem_cons.mp member).resolve_left nofun)
    | field first =>
      by_cases bare : first.isBare = true
      · rw [literals_field bare] at h
        rcases List.mem_cons.mp member with same | later
        · cases same
          exact bare
        · exact others _ h f later
      · rw [literals, if_neg bare] at h
        cases h

end SpellingLemmas

/-- A text is a template with a given number of slots exactly if it is written in marks that have so many slots. -/
theorem read_eq_ok_iff {t : Text} {n : Nat} :
    (∃ l, read t n = .ok l) ↔ ∃ marks : List Mark, t = writtenAll marks ∧ slotCount marks = n := by
  constructor
  · rintro ⟨l, h⟩
    unfold read at h
    split at h
    · cases h
    · next pieces scanned =>
      split at h
      · cases h
      · next l' found =>
        split at h
        · next counted =>
          cases h
          obtain ⟨marks, rfl, rfl⟩ := scan_eq_ok_iff.mp ⟨scanned, allBare_of_literals found⟩
          obtain ⟨l', found', counted'⟩ := literals_marks marks
          cases found.symm.trans found'
          exact ⟨marks, rfl, counted'.symm.trans counted⟩
        · cases h
  · rintro ⟨marks, rfl, counted⟩
    obtain ⟨l, found, counted'⟩ := literals_marks marks
    exact ⟨l, by simp only [read, scan_writtenAll, found, counted', counted, if_true]⟩

/-! ## 4. Literal texts with slots between them -/

/-- A literal text as it is written, with every brace twice. -/
def doubled (t : Text) : Text := t.flatMap fun c => if c = 0x7B ∨ c = 0x7D then [c, c] else [c]

/-- Literal texts as they are written, with a slot behind each but the last one. -/
def Literals.written (l : Literals) : Text :=
  (l.leading.flatMap fun before => doubled before ++ text "\x7b\x7d") ++ doubled l.trailing

namespace SpellingLemmas

theorem doubled_eq_writtenAll (t : Text) : doubled t = writtenAll (t.map Mark.ofPoint) := by
  rw [doubled, writtenAll, List.flatMap_map]
  congr 1
  funext c
  by_cases opening : c = 0x7B
  · simp [Mark.ofPoint, Mark.written, opening]
  · by_cases closing : c = 0x7D <;> simp [Mark.ofPoint, Mark.written, opening, closing]

theorem pieces_ofPoint (t : Text) : (t.map Mark.ofPoint).map Mark.piece = t.map Piece.point := by
  rw [List.map_map]
  exact List.map_congr_left fun c _ => Mark.piece_ofPoint c

theorem literals_points (t : Text) : literals (t.map .point) = .ok ⟨[], t⟩ := by
  induction t with
  | nil => rfl
  | cons c t ih =>
    rw [List.map_cons, literals_point, ih]
    rfl

theorem literals_points_field (t : Text) (bare : f.isBare = true) (rest : literals pieces = .ok l) :
    literals (t.map .point ++ .field f :: pieces) = .ok ⟨t :: l.leading, l.trailing⟩ := by
  induction t with
  | nil =>
    rw [List.map_nil, List.nil_append, literals_field bare, rest]
    rfl
  | cons c t ih =>
    rw [List.map_cons, List.cons_append, literals_point, ih]
    rfl

/-- Literal texts with slots between them are written in these marks. -/
theorem exists_marks (leading : List Text) (trailing : Text) :
    ∃ marks : List Mark, Literals.written ⟨leading, trailing⟩ = writtenAll marks ∧
      literals (marks.map Mark.piece) = .ok ⟨leading, trailing⟩ := by
  induction leading with
  | nil =>
    refine ⟨trailing.map .ofPoint, doubled_eq_writtenAll trailing, ?_⟩
    rw [pieces_ofPoint, literals_points]
  | cons before leading ih =>
    obtain ⟨marks, spelled, found⟩ := ih
    refine ⟨before.map .ofPoint ++ .slot false false :: marks, ?_, ?_⟩
    · calc
        Literals.written ⟨before :: leading, trailing⟩
            = doubled before ++ text "\x7b\x7d" ++ Literals.written ⟨leading, trailing⟩ := by
          simp only [Literals.written, List.flatMap_cons, List.append_assoc]
        _ = writtenAll (before.map .ofPoint ++ .slot false false :: marks) := by
          rw [spelled, doubled_eq_writtenAll, writtenAll, writtenAll, writtenAll, List.flatMap_append,
            List.flatMap_cons, List.append_assoc]
          rfl
    · rw [List.map_append, pieces_ofPoint, List.map_cons]
      exact literals_points_field before rfl found

end SpellingLemmas

/-- Literal texts with slots between them are read as they were given. -/
theorem read_doubled (l : Literals) : read l.written l.leading.length = .ok l := by
  obtain ⟨marks, spelled, found⟩ := exists_marks l.leading l.trailing
  have scanned : scan l.written = .ok (marks.map Mark.piece) := (congrArg scan spelled).trans (scan_writtenAll marks)
  simp only [read, scanned, found, if_true]

/-- In a template in which no field starts with the conversion by zero, no mark has it. -/
theorem unconverted_of_not_infix {marks : List Mark} (absent : ¬ [0x7B, 0x21, 0] <:+: writtenAll marks) :
    ∀ mark ∈ marks, mark.Unconverted := by
  intro mark member
  cases mark with
  | slot zero colon =>
    cases zero with
    | false => exact rfl
    | true =>
      obtain ⟨before, after, rfl⟩ := List.append_of_mem member
      refine absurd ⟨writtenAll before, (if colon then [0x3A] else []) ++ [0x7D] ++ writtenAll after, ?_⟩ absent
      simp [writtenAll, Mark.written]
  | _ => trivial

end Descent.Template
