import Mathlib.Data.List.Forall2
import Descent.Proofs.Json.Diagnostics

/-!
# Diagnostics on lines of their own

The block and the line layout show the controls of ASCII by visible escapes, so a text of the diagnostic cannot add a
line feed to either. The escapes end with ASCII. The controls from U+0080 to U+009F and the separators U+2028 and U+2029
are shown as they are, and a reader who knows the line breaks of all of Unicode sees a line end at U+0085 and at both
separators.

Results:
1. `splitLines_rows`: lines without line breaks are told apart again by such a reader.
2. `shows_visible`: the code points of a text that its visible form keeps.
3. `laidOut_iff`: lines that show texts are all that the reader sees, exactly if the texts hold none of these code
   points.
4. `layouts_exact`: the block and the line layout, for every diagnostic.
-/

namespace Descent

namespace CodePoint

/-- A control character, which is to say one of the category Cc of Unicode. -/
def isControl (c : CodePoint) : Bool := c < 0x20 || (0x7F ≤ c && c ≤ 0x9F)

/-- A line break, for readers who know all of Unicode. -/
def endsLine (c : CodePoint) : Bool :=
  (0x0A ≤ c && c ≤ 0x0D) || (0x1C ≤ c && c ≤ 0x1E) || c == 0x85 || c == 0x2028 || c == 0x2029

/-- A control character or a line break beyond ASCII. -/
def isRawBreak (c : CodePoint) : Bool := (0x80 ≤ c && c ≤ 0x9F) || c == 0x2028 || c == 0x2029

end CodePoint

/-- The lines that a reader sees who knows all line breaks of Unicode. A carriage return and a line feed are one line
break together. Behind the last line break there is a line only if there is something in it. -/
def Text.splitLines : Text → List Text
  | [] => []
  | c :: rest =>
    if c = 0x0D ∧ rest.head? = some 0x0A then splitLines rest
    else if c.endsLine then [] :: splitLines rest
    else match splitLines rest with
      | [] => [[c]]
      | line :: more => (c :: line) :: more

/-- A text consists of lines that start as given. There are line feeds between them and no control characters in them,
and they are the lines that a reader sees who knows all line breaks. -/
def Text.LaidOut (t : Text) (heads : List Text) : Prop :=
  ∃ rows : List Text, t = (text "\n").intercalate rows ∧ List.Forall₂ (· <+: ·) heads rows ∧
    (∀ row ∈ rows, ∀ c ∈ row, c.isControl = false) ∧ t.splitLines = rows

namespace Diagnostic

/-- How the lines of a block start: one line always, and one more for a position, for what was expected and for a hint
that says something. -/
def heads (d : Diagnostic) : List Text :=
  ((if d.severity = text "warning" then text "warning" else text "error") ++ text "[" ++ d.code.name ++ text "]: ") ::
    ((if d.span.isSome then [text "  --> line "] else []) ++
      (if d.expected.isEmpty then [] else [text "  = expected: "]) ++
      (if d.shownHint.isSome then [text "  = help: "] else []))

/-- The texts that a block shows. -/
def shownTexts (d : Diagnostic) : List Text := d.message :: (d.expected ++ d.shownHint.toList)

end Diagnostic

namespace LineLemmas

open Text

/-! ## 1. Lines and line breaks -/

theorem splitLines_cons_of_endsLine {c : CodePoint} {rest : Text} (ends : c.endsLine = true)
    (single : ¬ (c = 0x0D ∧ rest.head? = some 0x0A)) : splitLines (c :: rest) = [] :: splitLines rest := by
  rw [splitLines, if_neg single, if_pos ends]

theorem splitLines_cons_of_not_endsLine {c : CodePoint} (rest : Text) (inside : c.endsLine = false) :
    splitLines (c :: rest) = match splitLines rest with
      | [] => [[c]]
      | line :: more => (c :: line) :: more := by
  have single : ¬ (c = 0x0D ∧ rest.head? = some 0x0A) := by
    rintro ⟨rfl, -⟩
    cases inside
  rw [splitLines, if_neg single, inside]
  rfl

/-- The lines that the reader sees hold no line breaks. -/
theorem endsLine_of_mem_splitLines {t line : Text} (seen : line ∈ splitLines t) : ∀ c ∈ line, c.endsLine = false := by
  induction t generalizing line with
  | nil => cases seen
  | cons c rest ih =>
    by_cases both : c = 0x0D ∧ rest.head? = some 0x0A
    · rw [splitLines, if_pos both] at seen
      exact ih seen
    · cases ends : c.endsLine with
      | true =>
        rw [splitLines_cons_of_endsLine ends both] at seen
        rcases List.mem_cons.mp seen with rfl | later
        · exact nofun
        · exact ih later
      | false =>
        rw [splitLines_cons_of_not_endsLine rest ends] at seen
        cases others : splitLines rest with
        | nil =>
          rw [others] at seen
          obtain rfl := List.mem_singleton.mp seen
          exact List.forall_mem_singleton.mpr ends
        | cons first more =>
          rw [others] at seen ih
          rcases List.mem_cons.mp seen with rfl | later
          · exact List.forall_mem_cons.mpr ⟨ends, ih List.mem_cons_self⟩
          · exact ih (List.mem_cons_of_mem first later)

/-- A line without line breaks, with nothing behind it. -/
theorem splitLines_row {row : Text} (some_in : row ≠ []) (inside : ∀ c ∈ row, c.endsLine = false) :
    splitLines row = [row] := by
  induction row with
  | nil => exact absurd rfl some_in
  | cons c rest ih =>
    obtain ⟨here, later⟩ := List.forall_mem_cons.mp inside
    rw [splitLines_cons_of_not_endsLine rest here]
    cases rest with
    | nil => rfl
    | cons d rest => rw [ih nofun later]

/-- A line without line breaks, with a line feed behind it. -/
theorem splitLines_row_append {row : Text} (inside : ∀ c ∈ row, c.endsLine = false) (rest : Text) :
    splitLines (row ++ 0x0A :: rest) = row :: splitLines rest := by
  induction row with
  | nil => exact splitLines_cons_of_endsLine rfl nofun
  | cons c row ih =>
    obtain ⟨here, later⟩ := List.forall_mem_cons.mp inside
    rw [List.cons_append, splitLines_cons_of_not_endsLine _ here, ih later]

theorem intercalate_cons_cons (row next : Text) (rows : List Text) :
    (text "\n").intercalate (row :: next :: rows) = row ++ 0x0A :: (text "\n").intercalate (next :: rows) := by
  rw [List.intercalate_cons_cons, List.append_assoc]
  rfl

/-- Lines with something in them and without line breaks are the lines that the reader sees. -/
theorem splitLines_rows {rows : List Text} (some_in : ∀ row ∈ rows, row ≠ [])
    (inside : ∀ row ∈ rows, ∀ c ∈ row, c.endsLine = false) : splitLines ((text "\n").intercalate rows) = rows := by
  induction rows with
  | nil => rfl
  | cons row rows ih =>
    obtain ⟨full, others⟩ := List.forall_mem_cons.mp some_in
    obtain ⟨here, later⟩ := List.forall_mem_cons.mp inside
    cases rows with
    | nil =>
      rw [List.intercalate_singleton]
      exact splitLines_row full here
    | cons next rows => rw [intercalate_cons_cons, splitLines_row_append here, ih others later]

theorem mem_intercalate_of_mem {rows : List Text} {row : Text} {c : CodePoint} (member : row ∈ rows) (there : c ∈ row) :
    c ∈ (text "\n").intercalate rows := by
  induction rows with
  | nil => cases member
  | cons first rows ih =>
    cases rows with
    | nil =>
      obtain rfl := List.mem_singleton.mp member
      rwa [List.intercalate_singleton]
    | cons next rows =>
      rw [intercalate_cons_cons, List.mem_append]
      rcases List.mem_cons.mp member with rfl | later
      · exact .inl there
      · exact .inr (List.mem_cons_of_mem _ (ih later))

theorem eq_or_mem_of_mem_intercalate {rows : List Text} {c : CodePoint} (there : c ∈ (text "\n").intercalate rows) :
    c = 0x0A ∨ ∃ row ∈ rows, c ∈ row := by
  induction rows with
  | nil => cases there
  | cons first rows ih =>
    cases rows with
    | nil =>
      rw [List.intercalate_singleton] at there
      exact .inr ⟨first, List.mem_cons_self, there⟩
    | cons next rows =>
      rw [intercalate_cons_cons, List.mem_append] at there
      rcases there with here | there
      · exact .inr ⟨first, List.mem_cons_self, here⟩
      · rcases List.mem_cons.mp there with rfl | later
        · exact .inl rfl
        · rcases ih later with rfl | ⟨row, member, here⟩
          · exact .inl rfl
          · exact .inr ⟨row, List.mem_cons_of_mem first member, here⟩

/-! ## 2. Visible texts -/

/-- A visible code point of ASCII, or a blank. -/
def IsPlain (c : CodePoint) : Prop := 0x20 ≤ c ∧ c < 0x7F

instance (c : CodePoint) : Decidable (IsPlain c) := inferInstanceAs (Decidable (_ ∧ _))

/-- A line shows texts: it consists of plain code points and of those of the texts that are beyond ASCII, of which it
keeps all. -/
structure Shows (ts : List Text) (row : Text) : Prop where
  shown : ∀ c ∈ row, IsPlain c ∨ 0x7F < c ∧ ∃ t ∈ ts, c ∈ t
  kept : ∀ t ∈ ts, ∀ c ∈ t, 0x7F < c → c ∈ row

theorem shows_plain {row : Text} (plain : ∀ c ∈ row, IsPlain c) : Shows [] row :=
  ⟨fun c there => .inl (plain c there), nofun⟩

theorem Shows.append {ts us : List Text} {a b : Text} (first : Shows ts a) (second : Shows us b) :
    Shows (ts ++ us) (a ++ b) := by
  refine ⟨fun c there => ?_, fun t member c there wide => ?_⟩
  · rcases List.mem_append.mp there with here | here
    · refine (first.shown c here).imp_right fun ⟨wide, t, member, from_t⟩ => ?_
      exact ⟨wide, t, List.mem_append_left us member, from_t⟩
    · refine (second.shown c here).imp_right fun ⟨wide, t, member, from_t⟩ => ?_
      exact ⟨wide, t, List.mem_append_right ts member, from_t⟩
  · rcases List.mem_append.mp member with member | member
    · exact List.mem_append_left b (first.kept t member c there wide)
    · exact List.mem_append_right a (second.kept t member c there wide)

/-- Plain code points in front show nothing else. -/
theorem Shows.behind {ts : List Text} {row before : Text} (shows : Shows ts row) (plain : ∀ c ∈ before, IsPlain c) :
    Shows ts (before ++ row) :=
  (shows_plain plain).append shows

theorem plain_hexDigits (width n : Nat) : ∀ c ∈ hexDigits width n, IsPlain c := by
  have digits : ∀ k < 16, IsPlain (CodePoint.ofHexValue k) := by decide
  induction width generalizing n with
  | zero => exact nofun
  | succ width ih =>
    unfold hexDigits
    intro c there
    rcases List.mem_append.mp there with there | there
    · exact ih (n / 16) c there
    · obtain rfl := List.mem_singleton.mp there
      exact digits _ (Nat.mod_lt n (by decide))

/-- The visible form of a code point is plain, unless the code point is beyond ASCII, which stays as it is. -/
theorem shows_visiblePoint (c : CodePoint) : Shows [[c]] (Diagnostic.visiblePoint c) := by
  have escaped {row : Text} (low : c ≤ 0x7F) (plain : ∀ x ∈ row, IsPlain x) : Shows [[c]] row := by
    refine ⟨fun x there => .inl (plain x there), fun t member x there wide => ?_⟩
    obtain rfl := List.mem_singleton.mp member
    obtain rfl := List.mem_singleton.mp there
    exact absurd wide (Nat.not_lt.mpr low)
  unfold Diagnostic.visiblePoint
  split_ifs with lineFeed carriageReturn tab control
  · exact escaped (lineFeed ▸ by decide) (by decide)
  · exact escaped (carriageReturn ▸ by decide) (by decide)
  · exact escaped (tab ▸ by decide) (by decide)
  · have low : c ≤ 0x7F := control.elim (fun below => Nat.le_of_lt (Nat.lt_trans below (by decide))) Nat.le_of_eq
    refine escaped low fun x there => ?_
    rcases List.mem_append.mp there with there | there
    · exact (show ∀ x ∈ text "\\x", IsPlain x by decide) x there
    · exact plain_hexDigits 2 c x there
  · refine ⟨List.forall_mem_singleton.mpr ?_, fun t member x there _ => ?_⟩
    · rcases Nat.lt_or_ge 0x7F c with wide | low
      · exact .inr ⟨wide, [c], List.mem_singleton_self _, List.mem_singleton_self c⟩
      · obtain ⟨above, other⟩ := not_or.mp control
        exact .inl ⟨Nat.not_lt.mp above, Nat.lt_of_le_of_ne low other⟩
    · rwa [List.mem_singleton.mp member] at there

theorem shows_visible (t : Text) : Shows [t] (Diagnostic.visible t) := by
  refine ⟨fun c there => ?_, fun u member c there wide => ?_⟩
  · obtain ⟨x, from_t, there⟩ := List.mem_flatMap.mp there
    refine ((shows_visiblePoint x).shown c there).imp_right fun ⟨wide, u, member, from_u⟩ => ?_
    obtain rfl := List.mem_singleton.mp member
    obtain rfl := List.mem_singleton.mp from_u
    exact ⟨wide, t, List.mem_singleton_self t, from_t⟩
  · obtain rfl := List.mem_singleton.mp member
    refine List.mem_flatMap.mpr ⟨c, there, ?_⟩
    exact (shows_visiblePoint c).kept [c] (List.mem_singleton_self _) c (List.mem_singleton_self c) wide

theorem shows_joined (ts : List Text) : Shows ts (Diagnostic.joined ", " (ts.map Diagnostic.visible)) := by
  induction ts with
  | nil => exact shows_plain nofun
  | cons t ts ih =>
    cases ts with
    | nil =>
      rw [Diagnostic.joined, List.map_singleton, List.intercalate_singleton]
      exact shows_visible t
    | cons u ts =>
      have comma : ∀ c ∈ text ", ", IsPlain c := by decide
      have behind := ih.behind comma
      rw [Diagnostic.joined] at behind ⊢
      rw [List.map_cons, List.map_cons, List.intercalate_cons_cons, List.append_assoc]
      exact (shows_visible t).append behind

/-! ## 3. Lines that show texts -/

/-- No control character and no line break, in terms of what is beyond ASCII. -/
theorem plain_or_wide {c : CodePoint} (visible : IsPlain c ∨ 0x7F < c) :
    c.isControl = false ∧ c.endsLine = false ↔ c.isRawBreak = false := by
  unfold CodePoint.isControl CodePoint.endsLine CodePoint.isRawBreak
  unfold IsPlain at visible
  simp only [Bool.or_eq_false_iff, Bool.and_eq_false_iff, decide_eq_false_iff_not, beq_eq_false_iff_ne]
  unfold CodePoint at *
  omega

theorem wide_of_isRawBreak {c : CodePoint} (raw : c.isRawBreak = true) : 0x7F < c := by
  unfold CodePoint.isRawBreak at raw
  simp only [Bool.or_eq_true, Bool.and_eq_true, decide_eq_true_eq, beq_iff_eq] at raw
  unfold CodePoint at *
  omega

/-- Lines that start with something have something in them. -/
theorem ne_nil_of_starts {heads rows : List Text} (starts : List.Forall₂ (· <+: ·) heads rows)
    (some_in : ∀ head ∈ heads, head ≠ []) : ∀ row ∈ rows, row ≠ [] := by
  induction starts with
  | nil => exact nofun
  | cons start _ ih =>
    obtain ⟨first, others⟩ := List.forall_mem_cons.mp some_in
    exact List.forall_mem_cons.mpr ⟨fun empty => first (List.prefix_nil.mp (empty ▸ start)), ih others⟩

/-- Lines that show texts are laid out as lines exactly if the texts hold no line break and no control character beyond
ASCII. -/
theorem laidOut_iff {heads rows ts : List Text} (starts : List.Forall₂ (· <+: ·) heads rows)
    (some_in : ∀ head ∈ heads, head ≠ []) (shows : Shows ts rows.flatten) :
    Text.LaidOut ((text "\n").intercalate rows) heads ↔ ∀ t ∈ ts, ∀ c ∈ t, c.isRawBreak = false := by
  constructor
  · rintro ⟨seen, same, -, controls, split⟩ t member c there
    refine Bool.eq_false_iff.mpr fun raw => ?_
    have wide := wide_of_isRawBreak raw
    obtain ⟨row, shown, here⟩ := List.mem_flatten.mp (shows.kept t member c there wide)
    have all := mem_intercalate_of_mem shown here
    rw [same] at all
    rcases eq_or_mem_of_mem_intercalate all with rfl | ⟨line, seen_line, in_line⟩
    · cases raw
    · have inside := endsLine_of_mem_splitLines (split ▸ seen_line) c in_line
      have clean := (plain_or_wide (.inr wide)).mp ⟨controls line seen_line c in_line, inside⟩
      exact absurd raw (Bool.eq_false_iff.mp clean)
  · intro clean
    have sound : ∀ row ∈ rows, ∀ c ∈ row, c.isControl = false ∧ c.endsLine = false := by
      intro row member c there
      rcases shows.shown c (List.mem_flatten.mpr ⟨row, member, there⟩) with plain | ⟨wide, t, from_ts, from_t⟩
      · refine (plain_or_wide (.inl plain)).mpr (Bool.eq_false_iff.mpr fun raw => ?_)
        exact absurd (wide_of_isRawBreak raw) (Nat.not_lt.mpr (Nat.le_of_lt plain.2))
      · exact (plain_or_wide (.inr wide)).mpr (clean t from_ts c from_t)
    have full := ne_nil_of_starts starts some_in
    exact ⟨rows, rfl, starts, fun row member c there => (sound row member c there).1,
      splitLines_rows full fun row member c there => (sound row member c there).2⟩

/-! ## 4. The layouts -/

/-- A line that is there only if there is something to show behind its start. -/
def optionalRow (head : Text) (body : Option Text) : List Text := (body.map (head ++ ·)).toList

theorem starts_optionalRow (head : Text) (body : Option Text) :
    List.Forall₂ (· <+: ·) (if body.isSome then [head] else []) (optionalRow head body) := by
  cases body with
  | none => exact .nil
  | some shown => exact .cons (List.prefix_append head shown) .nil

theorem shows_optionalRow {ts : List Text} {head : Text} {body : Option Text} (plain : ∀ c ∈ head, IsPlain c)
    (shows : Shows ts (body.getD [])) : Shows ts (optionalRow head body).flatten := by
  cases body with
  | none => exact shows
  | some shown =>
    rw [optionalRow, Option.map_some, Option.toList_some, List.flatten_singleton]
    exact shows.behind plain

theorem plain_ofNat (n : Nat) : ∀ c ∈ Decimal.ofNat n, IsPlain c := by
  intro c there
  have digit := Json.ofNat_isDigit n c there
  unfold CodePoint.isDigit at digit
  rw [Bool.and_eq_true, decide_eq_true_iff, decide_eq_true_iff] at digit
  exact ⟨Nat.le_trans (by decide) digit.1, Nat.lt_of_le_of_lt digit.2 (by decide)⟩

theorem plain_append {a b : Text} (first : ∀ c ∈ a, IsPlain c) (second : ∀ c ∈ b, IsPlain c) :
    ∀ c ∈ a ++ b, IsPlain c :=
  List.forall_mem_append.mpr ⟨first, second⟩

theorem plain_name (code : Code) : ∀ c ∈ code.name, IsPlain c := by
  cases code <;> decide

variable (d : Diagnostic)

def heading : Text :=
  (if d.severity = text "warning" then text "warning" else text "error") ++ text "[" ++ d.code.name ++ text "]: "

def place : Option Text :=
  d.span.map fun span =>
    Decimal.ofNat span.position.line ++ text ", column " ++ Decimal.ofNat span.position.column

def wanted : Option Text :=
  if d.expected.isEmpty then none else some (Diagnostic.joined ", " (d.expected.map Diagnostic.visible))

def help : Option Text := d.shownHint.map Diagnostic.visible

/-- The lines of a block. -/
def rows : List Text :=
  (heading d ++ Diagnostic.visible d.message) ::
    (optionalRow (text "  --> line ") (place d) ++ optionalRow (text "  = expected: ") (wanted d) ++
      optionalRow (text "  = help: ") (help d))

theorem block_eq_rows : d.block = (text "\n").intercalate (rows d) := by
  unfold Diagnostic.block rows heading place wanted help Diagnostic.joined
  cases d.span <;> cases d.expected.isEmpty <;> cases d.shownHint <;> simp [optionalRow]

theorem heads_eq : d.heads = heading d ::
    ((if (place d).isSome then [text "  --> line "] else []) ++
      (if (wanted d).isSome then [text "  = expected: "] else []) ++
      (if (help d).isSome then [text "  = help: "] else [])) := by
  unfold Diagnostic.heads heading place wanted help
  cases d.span <;> cases d.expected.isEmpty <;> cases d.shownHint <;> rfl

theorem starts_rows : List.Forall₂ (· <+: ·) d.heads (rows d) := by
  rw [heads_eq]
  refine .cons (List.prefix_append _ _) (List.rel_append (List.rel_append ?_ ?_) ?_)
  · exact starts_optionalRow _ (place d)
  · exact starts_optionalRow _ (wanted d)
  · exact starts_optionalRow _ (help d)

/-- Every line starts with something. -/
theorem heads_full : ∀ head ∈ d.heads, head ≠ [] := by
  unfold Diagnostic.heads
  refine List.forall_mem_cons.mpr ⟨List.append_ne_nil_of_right_ne_nil _ nofun, ?_⟩
  refine List.forall_mem_append.mpr ⟨List.forall_mem_append.mpr ⟨?_, ?_⟩, ?_⟩
  · split <;> simp [text]
  · split <;> simp [text]
  · split <;> simp [text]

theorem plain_heading : ∀ c ∈ heading d, IsPlain c := by
  have label : ∀ c ∈ (if d.severity = text "warning" then text "warning" else text "error"), IsPlain c := by
    split <;> decide
  exact plain_append (plain_append (plain_append label (by decide)) (plain_name d.code)) (by decide)

theorem plain_place {shown : Text} (there : shown ∈ place d) : ∀ c ∈ shown, IsPlain c := by
  obtain ⟨span, -, rfl⟩ := Option.map_eq_some_iff.mp there
  exact plain_append (plain_append (plain_ofNat _) (by decide)) (plain_ofNat _)

theorem shows_rows : Shows d.shownTexts (rows d).flatten := by
  have message := (shows_visible d.message).behind (plain_heading d)
  have position : Shows [] (optionalRow (text "  --> line ") (place d)).flatten := by
    refine shows_optionalRow (by decide) (shows_plain ?_)
    cases found : place d with
    | none => exact nofun
    | some shown => exact plain_place d found
  have expected : Shows d.expected (optionalRow (text "  = expected: ") (wanted d)).flatten := by
    refine shows_optionalRow (by decide) ?_
    unfold wanted
    split
    · next empty => exact List.isEmpty_iff.mp empty ▸ shows_plain nofun
    · exact shows_joined d.expected
  have hint : Shows d.shownHint.toList (optionalRow (text "  = help: ") (help d)).flatten := by
    refine shows_optionalRow (by decide) ?_
    unfold help
    cases d.shownHint with
    | none => exact shows_plain nofun
    | some hint => exact shows_visible hint
  rw [rows, List.flatten_cons, List.flatten_append, List.flatten_append]
  exact message.append ((position.append expected).append hint)

theorem shows_line : Shows [d.message] d.line := by
  have before : ∀ c ∈ d.code.name ++ text ": ", IsPlain c := plain_append (plain_name d.code) (by decide)
  have message := (shows_visible d.message).behind before
  refine message.append (?_ : Shows [] _)
  cases d.span with
  | none => exact shows_plain nofun
  | some span =>
    refine shows_plain (plain_append (plain_append (plain_append (plain_append ?_ ?_) ?_) ?_) ?_)
    · decide
    · exact plain_ofNat span.position.line
    · decide
    · exact plain_ofNat span.position.column
    · decide

theorem Shows.above_controls {ts : List Text} {row : Text} (shows : Shows ts row) :
    ∀ c ∈ row, 0x20 ≤ c ∧ c ≠ 0x7F := by
  intro c there
  rcases shows.shown c there with plain | ⟨wide, -⟩
  · exact ⟨plain.1, Nat.ne_of_lt plain.2⟩
  · exact ⟨Nat.le_trans (by decide) (Nat.le_of_lt wide), Nat.ne_of_gt wide⟩

end LineLemmas

open LineLemmas

/-- What the line and the block layout keep on lines of their own, for every diagnostic.

* The line layout is a single line without control characters exactly if the message holds no control character and no
  line break beyond ASCII.
* The block layout is one line, and one more each for a position, for what was expected and for a hint, each with its
  own start and without control characters, exactly if none of the texts that it shows holds one.
* In any case there are no controls of ASCII in either, but for the line feeds between the lines of the block; so its
  texts add no line feed to it. -/
theorem layouts_exact (d : Diagnostic) :
    (d.line.LaidOut [d.code.name ++ text ": "] ↔ ∀ c ∈ d.message, c.isRawBreak = false) ∧
    (d.block.LaidOut d.heads ↔ ∀ t ∈ d.shownTexts, ∀ c ∈ t, c.isRawBreak = false) ∧
    (∀ c ∈ d.line, 0x20 ≤ c ∧ c ≠ 0x7F) ∧
    ∃ rows : List Text, d.block = (text "\n").intercalate rows ∧ List.Forall₂ (· <+: ·) d.heads rows ∧
      ∀ row ∈ rows, ∀ c ∈ row, 0x20 ≤ c ∧ c ≠ 0x7F := by
  refine ⟨?_, ?_, (shows_line d).above_controls, rows d, block_eq_rows d, starts_rows d, fun row member c there => ?_⟩
  · have start : d.code.name ++ text ": " <+: d.line := ⟨_, (List.append_assoc ..).symm⟩
    have shows : Shows [d.message] [d.line].flatten := List.flatten_singleton ▸ shows_line d
    have full : ∀ head ∈ [d.code.name ++ text ": "], head ≠ [] :=
      List.forall_mem_singleton.mpr (List.append_ne_nil_of_right_ne_nil _ nofun)
    have exactly := laidOut_iff (.cons start .nil) full shows
    rwa [List.intercalate_singleton, List.forall_mem_singleton] at exactly
  · rw [block_eq_rows]
    exact laidOut_iff (starts_rows d) (heads_full d) (shows_rows d)
  · exact (shows_rows d).above_controls c (List.mem_flatten.mpr ⟨row, member, there⟩)

/-- A message with a line break beyond ASCII, and something behind it that looks like a hint. -/
def brokenMessage : Diagnostic where
  code := .parseFailed
  message := text "oops" ++ 0x85 :: text "  = help: retry"

/-- The control character in the message is shown as it is, by both layouts. A reader who knows all line breaks sees a
second line, which in the block starts like the hint that the diagnostic does not have. -/
theorem brokenMessage_looksLikeHint :
    CodePoint.isControl 0x85 = true ∧ 0x85 ∈ brokenMessage.line ∧ 0x85 ∈ brokenMessage.block ∧
    brokenMessage.hint = none ∧
    brokenMessage.line.splitLines = [text "PARSE_FAILED: oops", text "  = help: retry"] ∧
    brokenMessage.block.splitLines = [text "error[PARSE_FAILED]: oops", text "  = help: retry"] ∧
    ¬ brokenMessage.line.LaidOut [text "PARSE_FAILED: "] ∧ ¬ brokenMessage.block.LaidOut brokenMessage.heads := by
  have line : brokenMessage.line.splitLines = [text "PARSE_FAILED: oops", text "  = help: retry"] := by decide
  have block : brokenMessage.block.splitLines = [text "error[PARSE_FAILED]: oops", text "  = help: retry"] := by decide
  refine ⟨rfl, by decide, by decide, rfl, line, block, ?_, ?_⟩
  · rintro ⟨rows, -, starts, -, rfl⟩
    exact absurd starts.length_eq (line ▸ by decide)
  · rintro ⟨rows, -, starts, -, rfl⟩
    exact absurd starts.length_eq (block ▸ by decide)

end Descent
