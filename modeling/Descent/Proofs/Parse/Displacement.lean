import Descent.Json.Grammar
import Descent.Parser.Template

/-!
# Parsing behind another text

A parser looks at the source from the cursor on and never at what lies before it, and apart from `offset` and
`expecting` no parser is told where it stands. So putting a text in front of the source moves a parse along and changes
nothing else about it: not the outcome, not the guard, and the log only in the offsets that it holds.

Results:
1. `Parser.step_shift`: one parser, given that rule calls can be moved.
2. `parse_shift`: every parser without `offset` and `expecting` over every set of rules without them.
-/

namespace Descent

variable {ρ : Type}

/-! ## Moved cursors -/

/-- The record of a traced parser that ran `n` code points further on. Other records are none of a traced parser. -/
def Record.shift (n : Nat) : Record → Record
  | .won label start stop => .won label (n + start) (n + stop)
  | .lost label start => .lost label (n + start)
  | record => record

/-- The event as it is noted `n` code points further on. -/
def Event.shift (n : Nat) : Event ρ → Event ρ
  | .entered r => .entered r
  | .refused r offset => .refused r (n + offset)
  | .traced record => .traced (record.shift n)

/-- The cursor `n` code points further on, with a log that says so. -/
def Cursor.shift (n : Nat) (c : Cursor ρ) : Cursor ρ where
  index := n + c.index
  guard := c.guard
  events := c.events.map (Event.shift n)

/-- The reply `n` code points further on: the same outcome, and the cursor moved along. -/
def Reply.shift (n : Nat) (reply : Reply ρ) : Reply ρ := (reply.1, reply.2.shift n)

/-! ## Parsers without offsets -/

namespace Parser

/-- Nothing puts an offset into a value or a failure: neither `offset` nor `expecting` stands anywhere in the parser. -/
def PositionFree : Parser ρ → Prop
  | satisfy _ => True
  | literal _ => True
  | span _ => True
  | eof => True
  | offset => False
  | pure _ => True
  | fault _ => True
  | bind p next => p.PositionFree ∧ ∀ v, (next v).PositionFree
  | orElse p q => p.PositionFree ∧ q.PositionFree
  | attempt p => p.PositionFree
  | suchThat p _ _ => p.PositionFree
  | recover p _ => p.PositionFree
  | expecting _ _ => False
  | many p => p.PositionFree
  | trace p _ => p.PositionFree
  | rule _ => True

section Derived

variable {p q : Parser ρ}

@[simp] theorem positionFree_satisfy (accept : CodePoint → Bool) : (satisfy accept : Parser ρ).PositionFree := trivial

@[simp] theorem positionFree_char (c : CodePoint) : (char c : Parser ρ).PositionFree := trivial

@[simp] theorem positionFree_literal (t : Text) : (literal t : Parser ρ).PositionFree := trivial

@[simp] theorem positionFree_span (accept : CodePoint → Bool) : (span accept : Parser ρ).PositionFree := trivial

@[simp] theorem positionFree_pure (v : Value) : (pure v : Parser ρ).PositionFree := trivial

@[simp] theorem positionFree_rule (r : ρ) : (rule r).PositionFree := trivial

@[simp] theorem positionFree_attempt : p.attempt.PositionFree ↔ p.PositionFree := .rfl

@[simp] theorem positionFree_many : p.many.PositionFree ↔ p.PositionFree := .rfl

@[simp] theorem positionFree_orElse : (p.orElse q).PositionFree ↔ p.PositionFree ∧ q.PositionFree := .rfl

@[simp] theorem positionFree_suchThat {accept : Value → Bool} {rejection : Failure} :
    (p.suchThat accept rejection).PositionFree ↔ p.PositionFree := .rfl

@[simp] theorem positionFree_optional {fallback : Value} : (p.optional fallback).PositionFree ↔ p.PositionFree := .rfl

@[simp] theorem positionFree_error {f : Failure} : (p.error f).PositionFree ↔ p.PositionFree := .rfl

@[simp] theorem positionFree_otherwise {v : Value} : (p.otherwise v).PositionFree ↔ p.PositionFree :=
  and_iff_left trivial

@[simp] theorem positionFree_map {f : Value → Value} : (p.map f).PositionFree ↔ p.PositionFree :=
  and_iff_left fun _ => trivial

@[simp] theorem positionFree_const {v : Value} : (p.const v).PositionFree ↔ p.PositionFree := positionFree_map

@[simp] theorem positionFree_mapM {f : Value → Except Fault Value} : (p.mapM f).PositionFree ↔ p.PositionFree := by
  refine and_iff_left fun v => ?_
  dsimp only
  split <;> trivial

/-- A parser with one that does not depend on its value behind it. -/
theorem positionFree_bind_iff {next : Value → Parser ρ} (hnext : ∀ v, (next v).PositionFree ↔ q.PositionFree) :
    (p.bind next).PositionFree ↔ p.PositionFree ∧ q.PositionFree :=
  ⟨fun h => ⟨h.1, (hnext .none).mp (h.2 .none)⟩, fun h => ⟨h.1, fun v => (hnext v).mpr h.2⟩⟩

@[simp] theorem positionFree_and : (p.and q).PositionFree ↔ p.PositionFree ∧ q.PositionFree :=
  positionFree_bind_iff fun _ => positionFree_map

@[simp] theorem positionFree_left : (p.left q).PositionFree ↔ p.PositionFree ∧ q.PositionFree :=
  positionFree_bind_iff fun _ => positionFree_const

@[simp] theorem positionFree_right : (p.right q).PositionFree ↔ p.PositionFree ∧ q.PositionFree :=
  positionFree_bind_iff fun _ => .rfl

@[simp] theorem positionFree_many1 : p.many1.PositionFree ↔ p.PositionFree := by
  refine and_iff_left fun v => ?_
  dsimp only
  split <;> trivial

@[simp] theorem positionFree_chain {ps : List (Parser ρ)} : (chain ps).PositionFree ↔ ∀ p ∈ ps, p.PositionFree := by
  induction ps with
  | nil => simp [chain]
  | cons p ps ih =>
    rw [List.forall_mem_cons, ← ih, chain]
    exact positionFree_bind_iff fun _ => positionFree_map

@[simp] theorem positionFree_sequence {ps : List (Parser ρ)} :
    (Parser.sequence ps).PositionFree ↔ ∀ p ∈ ps, p.PositionFree := positionFree_chain

theorem positionFree_foldl_orElse {ps : List (Parser ρ)} :
    (ps.foldl orElse p).PositionFree ↔ p.PositionFree ∧ ∀ q ∈ ps, q.PositionFree := by
  induction ps generalizing p with
  | nil => simp
  | cons q ps ih => rw [List.foldl_cons, ih, positionFree_orElse, List.forall_mem_cons, and_assoc]

@[simp] theorem positionFree_choice {ps : List (Parser ρ)} : (choice ps).PositionFree ↔ ∀ p ∈ ps, p.PositionFree := by
  cases ps with
  | nil => simp [choice, empty]
  | cons p ps => rw [choice, positionFree_foldl_orElse, List.forall_mem_cons]

@[simp] theorem positionFree_times {n : Nat} (hp : p.PositionFree) : (p.times n).PositionFree :=
  positionFree_sequence.mpr fun _ hq => List.eq_of_mem_replicate hq ▸ hp

@[simp] theorem positionFree_anyChar (cs : Text) : (anyChar cs : Parser ρ).PositionFree := by
  simp [anyChar]

@[simp] theorem positionFree_anyLiteral (ts : List Text) : (anyLiteral ts : Parser ρ).PositionFree := by
  simp [anyLiteral]

theorem positionFree_when {condition : Bool} (hp : p.PositionFree) : (p.when condition).PositionFree := by
  cases condition with
  | true => exact hp
  | false => trivial

theorem positionFree_template {t : Text} {ps : List (Parser ρ)} (hps : ∀ p ∈ ps, p.PositionFree)
    (built : template t ps = .ok q) : q.PositionFree := by
  unfold template at built
  split at built
  · cases built
  · next l _ =>
    cases built
    refine positionFree_left.mpr ⟨positionFree_sequence.mpr ?_, trivial⟩
    rw [← List.map_uncurry_zip_eq_zipWith]
    rintro _ hr
    obtain ⟨⟨before, p⟩, hz, rfl⟩ := List.mem_map.mp hr
    exact positionFree_right.mpr ⟨trivial, hps p (List.of_mem_zip hz).2⟩

/-- A value with its range holds offsets. -/
theorem not_positionFree_withRange : ¬ p.withRange.PositionFree := fun h => h.1

end Derived

end Parser

/-! ## Sources behind a text -/

namespace Source

variable (u w : Text)

theorem size_append : (ofText (u ++ w)).size = u.length + (ofText w).size := by simp [ofText, size]

theorem get?_append (i : Nat) : (ofText (u ++ w)).get? (u.length + i) = (ofText w).get? i := by
  simp only [ofText, get?, List.getElem?_toArray]
  rw [List.getElem?_append_right (Nat.le_add_right ..), Nat.add_sub_cancel_left]

theorem holds_append (i : Nat) (t : Text) : (ofText (u ++ w)).holds (u.length + i) t = (ofText w).holds i t := by
  induction t generalizing i with
  | nil => simp [holds, size_append]
  | cons c t ih => rw [holds, holds, get?_append, Nat.add_assoc, ih]

theorem runEnd_append (accept : CodePoint → Bool) (most i : Nat) :
    (ofText (u ++ w)).runEnd accept most (u.length + i) = u.length + (ofText w).runEnd accept most i := by
  induction most generalizing i with
  | zero => rfl
  | succ most ih =>
    rw [runEnd, runEnd, get?_append]
    cases (ofText w).get? i with
    | none => rfl
    | some c =>
      simp only
      split
      · exact ih (i + 1)
      · rfl

theorem spanEnd_append (accept : CodePoint → Bool) (i : Nat) :
    (ofText (u ++ w)).spanEnd accept (u.length + i) = u.length + (ofText w).spanEnd accept i := by
  rw [spanEnd, spanEnd, runEnd_append, size_append, Nat.add_sub_add_left]

theorem slice_append (start stop : Nat) :
    (ofText (u ++ w)).slice (u.length + start) (u.length + stop) = (ofText w).slice start stop := by
  simp [ofText, slice, List.extract_eq_take_drop, Nat.add_sub_add_left]

end Source

/-! ## 1. One parser -/

namespace DisplacementLemmas

open Descent.Parser

variable {u w : Text}

/-- A way of running, behind a text and without it. -/
def Shifts (n : Nat) (behind run : Cursor ρ → Reply ρ) : Prop := ∀ c, behind (c.shift n) = Reply.shift n (run c)

/-- A repetition moves along with what it repeats. -/
theorem repeatWhile_shift {n : Nat} {behind run : Cursor ρ → Reply ρ} (h : Shifts n behind run) (most : Nat)
    (values : List Value) : Shifts n (repeatWhile behind most values) (repeatWhile run most values) := by
  induction most generalizing values with
  | zero => exact fun _ => rfl
  | succ most ih =>
    intro c
    rw [repeatWhile, repeatWhile, h c]
    cases run c with
    | mk o c' =>
      cases o with
      | success v =>
        have still : n + c'.index = n + c.index ↔ c'.index = c.index := Nat.add_left_cancel_iff
        simp only [Reply.shift, Cursor.shift, still]
        split
        · rfl
        · exact ih (v :: values) c'
      | failure f => rfl
      | fault e => rfl
      | refused => rfl

end DisplacementLemmas

open DisplacementLemmas

/-- A parser without offsets moves along with the source, given that rule calls do. -/
theorem Parser.step_shift {u w : Text} {enter enter' : ρ → Cursor ρ → Reply ρ}
    (henter : ∀ r, Shifts u.length (enter' r) (enter r)) {p : Parser ρ} (free : p.PositionFree) :
    Shifts u.length (p.step (.ofText (u ++ w)) enter') (p.step (.ofText w) enter) := by
  induction p with
  | satisfy accept =>
    intro c
    rw [step, step, Cursor.shift, Source.get?_append]
    cases (Source.ofText w).get? c.index with
    | none => rfl
    | some x =>
      simp only
      split <;> rfl
  | literal t =>
    intro c
    rw [step, step, Cursor.shift, Source.holds_append]
    split
    · exact congrArg (Prod.mk _) (congrArg (Cursor.moveTo _) (Nat.add_assoc ..))
    · rfl
  | span accept =>
    intro c
    simp only [step, Cursor.shift, Source.spanEnd_append, Source.slice_append]
    rfl
  | eof =>
    intro c
    simp only [step, Cursor.shift, Source.size_append, Nat.add_lt_add_iff_left]
    rfl
  | offset => exact free.elim
  | pure v => exact fun _ => rfl
  | fault e => exact fun _ => rfl
  | bind p next ihp ihnext =>
    intro c
    rw [step, step, ihp free.1 c]
    cases p.step (.ofText w) enter c with
    | mk o c' =>
      cases o with
      | success v => exact ihnext v (free.2 v) c'
      | _ => rfl
  | orElse p q ihp ihq =>
    intro c
    rw [step, step, ihp free.1 c]
    cases p.step (.ofText w) enter c with
    | mk o c' =>
      cases o with
      | failure f =>
        simp only [Reply.shift, ihq free.2 c']
        cases q.step (.ofText w) enter c' with
        | mk o' c'' => cases o' <;> rfl
      | _ => rfl
  | attempt p ih =>
    intro c
    rw [step, step, ih free c]
    cases p.step (.ofText w) enter c with
    | mk o c' => cases o <;> rfl
  | suchThat p accept rejection ih =>
    intro c
    rw [step, step, ih free c]
    cases p.step (.ofText w) enter c with
    | mk o c' =>
      cases o with
      | success v =>
        simp only [Reply.shift]
        split <;> rfl
      | _ => rfl
  | recover p fallback ih =>
    intro c
    rw [step, step, ih free c]
    cases p.step (.ofText w) enter c with
    | mk o c' => cases o <;> rfl
  | expecting p description => exact free.elim
  | many p ih =>
    intro c
    have most : (Source.ofText (u ++ w)).size - (c.shift u.length).index = (Source.ofText w).size - c.index := by
      rw [Source.size_append, Cursor.shift, Nat.add_sub_add_left]
    rw [step, step, most]
    exact repeatWhile_shift (ih free) _ [] c
  | trace p label ih =>
    intro c
    rw [step, step, ih free c]
    cases p.step (.ofText w) enter c with
    | mk o c' => cases o <;> rfl
  | rule r => exact henter r

/-! ## 2. Rules -/

/-- No rule stands for a parser with `offset` or `expecting` in it. -/
def Grammar.PositionFree (g : Grammar ρ) : Prop := ∀ r p, g r = .ok p → p.PositionFree

/-- A rule call moves along with the source. -/
theorem Grammar.call_shift {g : Grammar ρ} (hg : g.PositionFree) (u w : Text) (levels : Nat) (r : ρ) :
    Shifts u.length (g.call (.ofText (u ++ w)) levels r) (g.call (.ofText w) levels r) := by
  induction levels generalizing r with
  | zero => exact fun _ => rfl
  | succ levels ih =>
    intro c
    rw [call, call, Cursor.shift]
    cases c.guard.enter with
    | none => rfl
    | some guard =>
      cases stands : g r with
      | error e => rfl
      | ok p =>
        have body := Parser.step_shift (w := w) ih (hg r p stands) ({ c with guard }.note (.entered r))
        simp only
        exact congrArg (fun reply : Reply ρ => (reply.1, { reply.2 with guard := reply.2.guard.leave })) body

/-- Parsing does not depend on what stands before the cursor. For every parser and every set of rules without `offset`
and `expecting`, and from every cursor: behind a text `u`, the parse of `w` comes to the same outcome, be it a value, a
failure, a fault or the refusal of a rule, with the same guard, and the cursor stands `u.length` further on. The log is
the same up to the offsets in it. In particular `c` may be the start of `w`; it is then moved to the end of `u`. -/
theorem parse_shift {g : Grammar ρ} (hg : g.PositionFree) {p : Parser ρ} (hp : p.PositionFree) (u w : Text)
    (c : Cursor ρ) :
    g.parse (.ofText (u ++ w)) p (c.shift u.length) = (g.parse (.ofText w) p c).shift u.length :=
  Parser.step_shift (g.call_shift hg u w c.guard.room) hp c

namespace Json

/-- Apart from the end of a document, the JSON grammar puts no offset into anything. -/
theorem value_positionFree : grammar.PositionFree ∧ value.PositionFree := by
  have hstring : string.PositionFree := by
    simp [string, escape, rawChar, hex4, Parser.one, Parser.hexDigit]
  have hdigits : digits.PositionFree := by simp [digits, Parser.digit]
  have hnumber : number.PositionFree := by
    simp [number, integral, fraction, exponent, hdigits]
  have hvalue : value.PositionFree := by
    simp [value, ws, hstring, hnumber]
  refine ⟨fun r p stands => ?_, hvalue⟩
  cases r with
  | array =>
    cases stands
    simp [array, elements, ws, hvalue]
  | object =>
    cases stands
    simp [object, members, member, ws, hstring, hvalue]

/-- Behind two code points, an array with an object in it is read as it is without them. -/
theorem value_behind_prompt :
    grammar.PositionFree ∧ value.PositionFree ∧
    ∃ c', grammar.parse (.ofText (text "> " ++ text "[1, \x7b\x7d] ?")) value ⟨2, .ofRequest 9, []⟩ =
      (.success (.list [.int 1, .dict []]), c') ∧ c'.index = 10 := by
  obtain ⟨hg, hp⟩ := value_positionFree
  have moved := parse_shift hg hp (text "> ") (text "[1, \x7b\x7d] ?") ⟨0, .ofRequest 9, []⟩
  have alone : (grammar.parse (.ofText (text "[1, \x7b\x7d] ?")) value ⟨0, .ofRequest 9, []⟩).1 =
        .success (.list [.int 1, .dict []]) ∧
      (grammar.parse (.ofText (text "[1, \x7b\x7d] ?")) value ⟨0, .ofRequest 9, []⟩).2.index = 8 := by
    decide +kernel
  refine ⟨hg, hp, _, moved.trans (Prod.ext alone.1 rfl), ?_⟩
  show 2 + _ = 10
  rw [alone.2]

end Json
end Descent
