import Descent.Proofs.Parse.Sequences
import Descent.Proofs.Template.Spelling

/-!
# What templates match

A template is put together exactly if its text is written in marks with a slot for each parser. The parser that comes of
it reads the literal texts and the parsers in turn. Up to the last parser it is one sequence, which moves the cursor
back where it fails. The text behind the last parser stands outside of the sequence: if only that text is missing,
everything in front of it stays read.

Results:
1. `Grammar.Interleaves`: what literal texts with parsers between them come to.
2. `parse_interleaved_iff`: the parser of a template comes to exactly that.
3. `template_exact`: this, and which templates are put together.
-/

namespace Descent

variable {ρ : Type}

/-! ## 1. Literal texts with parsers between them -/

/-- Each text stands where it should and the parser behind it succeeds there, all in a row, with these values. -/
inductive Grammar.Fills (g : Grammar ρ) (s : Source) :
    List (Text × Parser ρ) → Cursor ρ → List Value → Cursor ρ → Prop
  | nil {c : Cursor ρ} : g.Fills s [] c [] c
  | cons {before : Text} {p : Parser ρ} {row : List (Text × Parser ρ)} {c c₁ c₂ : Cursor ρ} {v : Value}
      {vs : List Value} :
      s.holds c.index before = true → g.parse s p (c.moveTo (c.index + before.length)) = (.success v, c₁) →
      g.Fills s row c₁ vs c₂ → g.Fills s ((before, p) :: row) c (v :: vs) c₂

/-- A row of texts and parsers is not read to its end: a text is missing where it should stand, or a parser does not
succeed. -/
inductive Grammar.Stops (g : Grammar ρ) (s : Source) : List (Text × Parser ρ) → Cursor ρ → Reply ρ → Prop
  | text {before : Text} {p : Parser ρ} {row : List (Text × Parser ρ)} {c : Cursor ρ} :
      s.holds c.index before = false → g.Stops s ((before, p) :: row) c (.failure .plain, c)
  | parser {before : Text} {p : Parser ρ} {row : List (Text × Parser ρ)} {c : Cursor ρ} {reply : Reply ρ} :
      s.holds c.index before = true → g.parse s p (c.moveTo (c.index + before.length)) = reply →
      ¬ reply.1.Succeeds → g.Stops s ((before, p) :: row) c reply
  | later {before : Text} {p : Parser ρ} {row : List (Text × Parser ρ)} {c c₁ : Cursor ρ} {v : Value}
      {reply : Reply ρ} :
      s.holds c.index before = true → g.parse s p (c.moveTo (c.index + before.length)) = (.success v, c₁) →
      g.Stops s row c₁ reply → g.Stops s ((before, p) :: row) c reply

/-- What a row of texts and parsers with a last text behind it comes to. -/
inductive Grammar.Interleaves (g : Grammar ρ) (s : Source) (row : List (Text × Parser ρ)) (last : Text)
    (c : Cursor ρ) : Reply ρ → Prop
  /-- All is read: the values of the parsers, behind the last text. -/
  | filled {vs : List Value} {c₁ : Cursor ρ} : g.Fills s row c vs c₁ → s.holds c₁.index last = true →
      g.Interleaves s row last c (.success (.list vs), c₁.moveTo (c₁.index + last.length))
  /-- Only the last text is missing: the cursor stays behind the last parser. -/
  | unfinished {vs : List Value} {c₁ : Cursor ρ} : g.Fills s row c vs c₁ → s.holds c₁.index last = false →
      g.Interleaves s row last c (.failure .plain, c₁)
  /-- Another text is missing or a parser fails: the cursor is moved back to the start. -/
  | failed {f : Failure} {c₁ : Cursor ρ} : g.Stops s row c (.failure f, c₁) →
      g.Interleaves s row last c (.failure f, c₁.moveTo c.index)
  /-- A parser is cut short: nothing else happens. -/
  | aborted {reply : Reply ρ} : g.Stops s row c reply → ¬ reply.1.Fails → g.Interleaves s row last c reply

namespace MatchingLemmas

open Descent.Parser SequenceLemmas

variable {g : Grammar ρ} {s : Source} {row : List (Text × Parser ρ)} {last : Text} {c c₁ : Cursor ρ}
  {vs : List Value} {reply : Reply ρ}

/-- The parser of a row: each text, and the parser behind it. -/
def slots (row : List (Text × Parser ρ)) : List (Parser ρ) := row.map fun (before, p) => right (.literal before) p

theorem parse_literal_of_holds {t : Text} (there : s.holds c.index t = true) :
    g.parse s (.literal t) c = (.success (.str t), c.moveTo (c.index + t.length)) := by
  rw [Grammar.parse, step, if_pos there]

theorem parse_literal_of_not_holds {t : Text} (missing : s.holds c.index t = false) :
    g.parse s (.literal t) c = (.failure .plain, c) := by
  rw [Grammar.parse, step, missing]
  rfl

theorem not_succeeds_of_stops (stops : g.Stops s row c reply) : ¬ reply.1.Succeeds := by
  induction stops with
  | text _ => exact not_succeeds_failure
  | parser _ _ stopped => exact stopped
  | later _ _ _ ih => exact ih

theorem parse_chain_of_fills (fills : g.Fills s row c vs c₁) :
    g.parse s (chain (slots row)) c = (.success (.list vs), c₁) := by
  induction fills with
  | nil => rfl
  | @cons before p row c c₁ c₂ v vs there parsed _ ih =>
    have first : g.parse s (right (.literal before) p) c = (.success v, c₁) := by
      rw [right, parse_bind_of_success (parse_literal_of_holds there), parsed]
    exact parse_chain_of_success first ih

theorem parse_chain_of_stops (stops : g.Stops s row c reply) : g.parse s (chain (slots row)) c = reply := by
  induction stops with
  | text missing =>
    refine parse_chain_of_not_succeeds ?_ not_succeeds_failure
    exact parse_bind_of_not_succeeds (parse_literal_of_not_holds missing) not_succeeds_failure
  | parser there parsed stopped =>
    exact parse_chain_of_not_succeeds ((parse_bind_of_success (parse_literal_of_holds there)).trans parsed) stopped
  | later there parsed stops ih =>
    exact parse_chain_of_later ((parse_bind_of_success (parse_literal_of_holds there)).trans parsed) ih
      (not_succeeds_of_stops stops)

/-- A row is read to its end or is not. -/
theorem fills_or_stops (row : List (Text × Parser ρ)) (c : Cursor ρ) :
    (∃ vs c₁, g.Fills s row c vs c₁) ∨ ∃ reply, g.Stops s row c reply := by
  induction row generalizing c with
  | nil => exact .inl ⟨[], c, .nil⟩
  | cons part row ih =>
    obtain ⟨before, p⟩ := part
    cases there : s.holds c.index before with
    | false => exact .inr ⟨_, .text there⟩
    | true =>
      cases parsed : g.parse s p (c.moveTo (c.index + before.length)) with
      | mk o c₁ =>
        cases o with
        | success v =>
          rcases ih c₁ with ⟨vs, c₂, fills⟩ | ⟨reply, stops⟩
          · exact .inl ⟨v :: vs, c₂, .cons there parsed fills⟩
          · exact .inr ⟨reply, .later there parsed stops⟩
        | _ => exact .inr ⟨_, .parser there parsed nofun⟩

theorem exists_interleaves (row : List (Text × Parser ρ)) (last : Text) (c : Cursor ρ) :
    ∃ reply, g.Interleaves s row last c reply := by
  rcases fills_or_stops (g := g) (s := s) row c with ⟨vs, c₁, fills⟩ | ⟨⟨o, c₁⟩, stops⟩
  · cases there : s.holds c₁.index last with
    | true => exact ⟨_, .filled fills there⟩
    | false => exact ⟨_, .unfinished fills there⟩
  · cases o with
    | failure f => exact ⟨_, .failed stops⟩
    | _ => exact ⟨_, .aborted stops nofun⟩

/-! ## 2. The parser of a template -/

theorem parse_of_interleaves (interleaves : g.Interleaves s row last c reply) :
    g.parse s ((Parser.sequence (slots row)).left (.literal last)) c = reply := by
  cases interleaves with
  | filled fills there =>
    have read := parse_sequence_of_success (parse_chain_of_fills fills)
    rw [left, parse_bind_of_success read, const, map, parse_bind_of_success (parse_literal_of_holds there)]
    rfl
  | unfinished fills missing =>
    have read := parse_sequence_of_success (parse_chain_of_fills fills)
    rw [left, parse_bind_of_success read]
    exact parse_bind_of_not_succeeds (parse_literal_of_not_holds missing) not_succeeds_failure
  | failed stops =>
    exact parse_bind_of_not_succeeds (parse_sequence_of_failure (parse_chain_of_stops stops)) not_succeeds_failure
  | aborted stops unfailed =>
    exact parse_bind_of_not_succeeds (parse_sequence_of_abort (parse_chain_of_stops stops) unfailed)
      (not_succeeds_of_stops stops)

theorem parse_interleaved_iff :
    g.parse s ((Parser.sequence (slots row)).left (.literal last)) c = reply ↔ g.Interleaves s row last c reply := by
  refine ⟨fun parsed => ?_, parse_of_interleaves⟩
  obtain ⟨reply', interleaves⟩ := exists_interleaves (g := g) (s := s) row last c
  obtain rfl : reply' = reply := (parse_of_interleaves interleaves).symm.trans parsed
  exact interleaves

/-- A text that is read as a template gives the parser of its literal texts. -/
theorem template_of_read {t : Text} {ps : List (Parser ρ)} {l : Template.Literals}
    (read : Template.read t ps.length = .ok l) :
    Parser.template t ps = .ok ((Parser.sequence (slots (l.leading.zip ps))).left (.literal l.trailing)) := by
  have steps : List.zipWith (fun before p => right (.literal before) p) l.leading ps = slots (l.leading.zip ps) :=
    (List.map_uncurry_zip_eq_zipWith ..).symm
  simp only [template, read, steps]

theorem template_of_not_read {t : Text} {ps : List (Parser ρ)} {e : Template.Defect}
    (unread : Template.read t ps.length = .error e) :
    Parser.template t ps = .error (.grammar (.invalidTemplate e.reason)) := by
  rw [template, unread]

theorem exists_template_iff {t : Text} {ps : List (Parser ρ)} :
    (∃ q, Parser.template t ps = .ok q) ↔ ∃ l, Template.read t ps.length = .ok l := by
  cases read : Template.read t ps.length with
  | ok l => exact iff_of_true ⟨_, template_of_read read⟩ ⟨l, rfl⟩
  | error e =>
    rw [template_of_not_read read]
    exact iff_of_false nofun nofun

end MatchingLemmas

open MatchingLemmas Template

/-! ## 3. Templates -/

/-- Which templates are put together, and what they match.

* A parser comes of a template exactly if its text is written in marks with as many slots as there are parsers.
* Otherwise the fault is that of a grammar with an invalid template.
* If no field starts with the conversion by zero, the marks are code points other than braces, braces written twice, and
  slots that are empty but for a colon.
* Literal texts, written with every brace twice and a slot between any two, make a template with a parser for each
  slot. It comes to exactly what the texts and the parsers in turn come to, over every set of rules and from every
  cursor of every source. -/
theorem template_exact (ps : List (Parser ρ)) :
    (∀ t, (∃ q, Parser.template t ps = .ok q) ↔
      ∃ marks : List Mark, t = writtenAll marks ∧ slotCount marks = ps.length) ∧
    (∀ t e, Parser.template t ps = .error e → ∃ d : Diagnostic, e = .grammar d ∧ d.code = .invalidTemplate) ∧
    (∀ t, ¬ [0x7B, 0x21, 0] <:+: t → ((∃ q, Parser.template t ps = .ok q) ↔
      ∃ marks : List Mark, (∀ mark ∈ marks, mark.Unconverted) ∧ t = writtenAll marks ∧
        slotCount marks = ps.length)) ∧
    ∀ l : Literals, l.leading.length = ps.length → ∃ q, Parser.template l.written ps = .ok q ∧
      ∀ (g : Grammar ρ) s c reply,
        g.parse s q c = reply ↔ g.Interleaves s (l.leading.zip ps) l.trailing c reply := by
  have built : ∀ t, (∃ q, Parser.template t ps = .ok q) ↔
      ∃ marks : List Mark, t = writtenAll marks ∧ slotCount marks = ps.length :=
    fun t => exists_template_iff.trans Template.read_eq_ok_iff
  refine ⟨built, fun t e failed => ?_, fun t absent => (built t).trans ⟨?_, ?_⟩, fun l counted => ?_⟩
  · cases read : Template.read t ps.length with
    | ok l => cases (template_of_read read).symm.trans failed
    | error defect =>
      cases (template_of_not_read read).symm.trans failed
      exact ⟨_, rfl, rfl⟩
  · rintro ⟨marks, rfl, counted⟩
    exact ⟨marks, unconverted_of_not_infix absent, rfl, counted⟩
  · rintro ⟨marks, -, spelled, counted⟩
    exact ⟨marks, spelled, counted⟩
  · exact ⟨_, template_of_read (counted ▸ read_doubled l), fun _ _ _ _ => parse_interleaved_iff⟩

/-- Two digits with braces around them. Without the last brace the digits stay read; without the second digit nothing
does. A colon in a slot makes no difference. -/
theorem bracedDigits_matched :
    let l : Literals := ⟨[text "\x7b", text ", "], text "\x7d"⟩
    let ps : List (Parser Empty) := [.digit, .digit]
    let c : Cursor Empty := ⟨1, .ofRequest 1, []⟩
    l.written = text "\x7b\x7b\x7b\x7d, \x7b\x7d\x7d\x7d" ∧ l.leading.length = ps.length ∧
    (∃ q, Parser.template l.written ps = .ok q ∧ ∀ g : Grammar Empty,
      g.parse (.ofText (text "=\x7b1, 2\x7d")) q c = (.success (.list [.str (text "1"), .str (text "2")]), c.moveTo 7) ∧
      g.parse (.ofText (text "=\x7b1, 2")) q c = (.failure .plain, c.moveTo 6) ∧
      g.parse (.ofText (text "=\x7b1, ")) q c = (.failure .plain, c)) ∧
    ¬ [0x7B, 0x21, 0] <:+: text "\x7b:\x7d\x7b\x7d" ∧
    ∃ q, Parser.template (text "\x7b:\x7d\x7b\x7d") ps = .ok q := by
  intro l ps c
  obtain ⟨-, -, documented, matched⟩ := template_exact ps
  obtain ⟨q, built, comes⟩ := matched l rfl
  have absent : ¬ [0x7B, 0x21, 0] <:+: text "\x7b:\x7d\x7b\x7d" := by decide
  refine ⟨rfl, rfl, ⟨q, built, fun g => ⟨?_, ?_, ?_⟩⟩, absent, ?_⟩
  · have fills : g.Fills (.ofText (text "=\x7b1, 2\x7d")) (l.leading.zip ps) c [.str (text "1"), .str (text "2")]
        (c.moveTo 6) := .cons rfl rfl (.cons rfl rfl .nil)
    exact (comes g _ c _).mpr (.filled fills rfl)
  · exact (comes g _ c _).mpr (.unfinished (.cons rfl rfl (.cons rfl rfl .nil)) rfl)
  · have stops : g.Stops (.ofText (text "=\x7b1, ")) (l.leading.zip ps) c (.failure .plain, c.moveTo 5) :=
      .later rfl rfl (.parser rfl rfl nofun)
    exact (comes g _ c _).mpr (.failed stops)
  · exact (documented _ absent).mpr ⟨[.slot false true, .slot false false],
      List.forall_mem_cons.mpr ⟨rfl, List.forall_mem_singleton.mpr rfl⟩, rfl, rfl⟩

/-- A field with the conversion by zero makes a template with a parser, although it is no slot as slots are written. -/
theorem zeroConversion_built :
    (∃ q, Parser.template [0x7B, 0x21, 0, 0x7D] [(Parser.digit : Parser Empty)] = .ok q) ∧
    ¬ ∃ marks : List Mark, (∀ mark ∈ marks, mark.Unconverted) ∧ [0x7B, 0x21, 0, 0x7D] = writtenAll marks ∧
      slotCount marks = 1 := by
  refine ⟨⟨_, rfl⟩, ?_⟩
  rintro ⟨marks, unconverted, spelled, -⟩
  have found : [Piece.field ⟨[], some 0, []⟩] = marks.map Mark.piece :=
    Except.ok.inj ((congrArg scan spelled).trans (SpellingLemmas.scan_writtenAll marks))
  obtain ⟨mark, rfl⟩ : ∃ mark, marks = [mark] :=
    List.length_eq_one_iff.mp (by simpa using (congrArg List.length found).symm)
  have plain := unconverted mark (List.mem_singleton_self mark)
  cases mark with
  | slot zero colon =>
    cases plain
    simp [Mark.piece] at found
  | _ => simp [Mark.piece] at found

end Descent
