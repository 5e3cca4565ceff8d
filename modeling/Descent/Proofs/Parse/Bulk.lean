import Descent.Proofs.Parse.Unread
import Descent.Value.Condition

/-!
# Readers of many code points

Three parsers read the source directly instead of being put together from parsers of single code points: the literal,
the run of accepted code points, and the choice among single ones. Each comes to the same reply as the combination that
it stands for: the same outcome, the same offset, and nothing else touched. A combination may have read some of the
source before it fails; then it has moved the cursor back.

Results:
1. `parse_literal_eq`: a literal is its code points in sequence.
2. `parse_span_eq`: a run is a repetition of accepted code points.
3. `parse_anyChar_eq`: a choice among code points is one condition on a single one.
4. `parse_bulk_eq`: all three, from any cursor inside the source.
-/

namespace Descent

variable {ρ : Type} {g : Grammar ρ} {s : Source}

/-! ## Single code points -/

namespace BulkLemmas

open Descent.Parser

theorem parse_map (p : Parser ρ) (f : Value → Value) (c : Cursor ρ) :
    g.parse s (p.map f) c = match g.parse s p c with
      | (.success v, c') => ((f v).outcome, c')
      | reply => reply :=
  Grammar.parse_bind ..

theorem parse_satisfy (accept : CodePoint → Bool) (c : Cursor ρ) :
    g.parse s (.satisfy accept) c = match s.get? c.index with
      | some x => if accept x then (.success (.str [x]), c.moveTo (c.index + 1)) else (.failure .plain, c)
      | none => (.failure .plain, c) :=
  rfl

theorem parse_satisfy_of_accept {accept : CodePoint → Bool} {c : Cursor ρ} {x : CodePoint}
    (there : s.get? c.index = some x) (accepted : accept x = true) :
    g.parse s (.satisfy accept) c = (.success (.str [x]), c.moveTo (c.index + 1)) := by
  rw [parse_satisfy, there]
  exact if_pos accepted

theorem parse_satisfy_of_reject {accept : CodePoint → Bool} {c : Cursor ρ}
    (rejected : (s.get? c.index).any accept = false) :
    g.parse s (.satisfy accept) c = (.failure .plain, c) := by
  rw [parse_satisfy]
  cases there : s.get? c.index with
  | none => rfl
  | some x =>
    rw [there] at rejected
    exact if_neg (Bool.eq_false_iff.mp rejected)

/-- A code point whose value is tested is a code point that is tested. -/
theorem parse_one_suchThat (accept : Value → Bool) (c : Cursor ρ) :
    g.parse s (one.suchThat accept .plain) c = g.parse s (.satisfy fun x => accept (.str [x])) c := by
  rw [Grammar.parse_suchThat]
  cases there : s.get? c.index with
  | none =>
    rw [one, parse_satisfy_of_reject (by rw [there]; rfl), parse_satisfy_of_reject (by rw [there]; rfl)]
  | some x =>
    rw [one, parse_satisfy_of_accept there rfl]
    cases accepted : accept (.str [x]) with
    | true =>
      rw [parse_satisfy_of_accept there accepted]
      exact if_pos accepted
    | false =>
      rw [parse_satisfy_of_reject (by rw [there]; exact accepted)]
      exact if_neg (Bool.eq_false_iff.mp accepted)

end BulkLemmas

/-! ## Literals -/

namespace BulkLemmas

open Descent.Parser

/-- Code points in a row are read where their text stands. Elsewhere they fail on the way. -/
theorem parse_chain_char (t : Text) (c : Cursor ρ) (inside : c.index ≤ s.size) :
    (s.holds c.index t = true → g.parse s (chain (t.map char)) c =
      (.success (.list (t.map fun x => .str [x])), c.moveTo (c.index + t.length))) ∧
    (s.holds c.index t = false → ∃ i, g.parse s (chain (t.map char)) c = (.failure .plain, c.moveTo i)) := by
  induction t generalizing c with
  | nil =>
    have holds : s.holds c.index [] = true := decide_eq_true inside
    exact ⟨fun _ => rfl, fun fails => absurd holds (Bool.eq_false_iff.mp fails)⟩
  | cons x t ih =>
    rw [List.map_cons, chain, Grammar.parse_bind, Source.holds]
    by_cases there : s.get? c.index = some x
    · have next : c.index + 1 ≤ s.size := Nat.succ_le_of_lt (Array.getElem?_eq_some_iff.mp there).1
      have read : g.parse s (char x) c = (.success (.str [x]), c.moveTo (c.index + 1)) :=
        parse_satisfy_of_accept there (beq_self_eq_true x)
      obtain ⟨stands, fails⟩ := ih (c.moveTo (c.index + 1)) next
      simp only [read, parse_map, beq_iff_eq.mpr there, Bool.true_and]
      refine ⟨fun holds => ?_, fun differs => ?_⟩
      · rw [stands holds, List.length_cons, Nat.add_comm t.length, ← Nat.add_assoc]
        rfl
      · obtain ⟨i, failed⟩ := fails differs
        exact ⟨i, by rw [failed]; rfl⟩
    · have other : (s.get? c.index).any (· == x) = false := by
        cases get : s.get? c.index with
        | none => rfl
        | some y => exact beq_eq_false_iff_ne.mpr fun same => there (same ▸ get)
      have failed : g.parse s (char x) c = (.failure .plain, c) := parse_satisfy_of_reject other
      rw [failed, beq_eq_false_iff_ne.mpr there, Bool.false_and]
      exact ⟨fun holds => absurd holds Bool.false_ne_true, fun _ => ⟨c.index, rfl⟩⟩

end BulkLemmas

open BulkLemmas

/-- A literal comes to what its code points in sequence come to. -/
theorem parse_literal_eq (t : Text) (c : Cursor ρ) (inside : c.index ≤ s.size) :
    g.parse s (.literal t) c = g.parse s ((Parser.sequence (t.map .char)).map .joined) c := by
  obtain ⟨stands, fails⟩ := parse_chain_char (g := g) t c inside
  rw [parse_map, Parser.sequence, Grammar.parse_attempt, Grammar.parse, Parser.step]
  cases holds : s.holds c.index t with
  | true =>
    rw [stands holds]
    exact congrArg (fun v : Value => (v.outcome, c.moveTo (c.index + t.length))) (Parser.joined_map_str t).symm
  | false =>
    obtain ⟨i, failed⟩ := fails holds
    rw [failed]
    rfl

/-- Behind the end of the source, the empty literal is not there, but a sequence of nothing is. -/
example : (Grammar.parse (ρ := Empty) nofun (.ofText []) (.literal []) ⟨1, .ofRequest 1, []⟩).1 = .failure .plain ∧
    (Grammar.parse (ρ := Empty) nofun (.ofText []) (.sequence []) ⟨1, .ofRequest 1, []⟩).1 = .success (.list []) :=
  ⟨rfl, rfl⟩

/-! ## Runs -/

namespace BulkLemmas

open Descent.Parser

theorem spanEnd_of_accept {accept : CodePoint → Bool} {i : Nat} {x : CodePoint} (there : s.get? i = some x)
    (accepted : accept x = true) : s.spanEnd accept i = s.spanEnd accept (i + 1) := by
  have inside : i < s.size := (Array.getElem?_eq_some_iff.mp there).1
  rw [Source.spanEnd, Source.spanEnd, show s.size - i = s.size - (i + 1) + 1 by omega, Source.runEnd, there]
  exact if_pos accepted

theorem spanEnd_of_reject {accept : CodePoint → Bool} {i : Nat} (rejected : (s.get? i).any accept = false) :
    s.spanEnd accept i = i := by
  rw [Source.spanEnd]
  cases s.size - i with
  | zero => rfl
  | succ most =>
    rw [Source.runEnd]
    cases there : s.get? i with
    | none => rfl
    | some x =>
      rw [there] at rejected
      exact if_neg (Bool.eq_false_iff.mp rejected)

/-- A repeated code point is read as far as the run goes. -/
theorem parse_many_of_reads {p : Parser ρ} {accept : CodePoint → Bool}
    (reads : ∀ c : Cursor ρ, g.parse s p c = g.parse s (.satisfy accept) c) (c : Cursor ρ) :
    g.parse s p.many c = (.success (.list (((s.remaining c.index).takeWhile accept).map fun x => .str [x])),
      c.moveTo (s.spanEnd accept c.index)) := by
  -- by induction on what is unread: one application takes its first code point or ends the run
  induction unread : s.remaining c.index generalizing c with
  | nil =>
    have ended : s.get? c.index = none := by rw [← Source.head?_remaining, unread, List.head?_nil]
    have rejected : (s.get? c.index).any accept = false := by rw [ended, Option.any_none]
    rw [Grammar.parse_many, reads, parse_satisfy_of_reject rejected, spanEnd_of_reject rejected]
    rfl
  | cons x rest ih =>
    have there : s.get? c.index = some x := by rw [← Source.head?_remaining, unread, List.head?_cons]
    cases accepted : accept x with
    | true =>
      have behind : s.remaining (c.index + 1) = rest := by
        rw [Source.remaining_add, unread, List.drop_one, List.tail_cons]
      rw [Grammar.parse_many, reads, parse_satisfy_of_accept there accepted, spanEnd_of_accept there accepted,
        List.takeWhile_cons_of_pos accepted]
      simp only [ih (c.moveTo (c.index + 1)) behind]
      exact if_neg (Nat.succ_ne_self _)
    | false =>
      have rejected : (s.get? c.index).any accept = false := by rw [there, Option.any_some, accepted]
      rw [Grammar.parse_many, reads, parse_satisfy_of_reject rejected, spanEnd_of_reject rejected,
        List.takeWhile_cons_of_neg (Bool.eq_false_iff.mp accepted)]
      rfl

end BulkLemmas

/-- A run comes to what the repetition of an accepted code point comes to. -/
theorem parse_span_eq (accept : Value → Bool) (c : Cursor ρ) (inside : c.index ≤ s.size) :
    g.parse s (.span fun x => accept (.str [x])) c =
      g.parse s ((Parser.many (Parser.one.suchThat accept .plain)).map .joined) c := by
  rw [parse_map, parse_many_of_reads (parse_one_suchThat accept), ← Source.slice_spanEnd inside, Grammar.parse,
    Parser.step]
  exact congrArg (fun v : Value => (v.outcome, c.moveTo _)) (Parser.joined_map_str _).symm

/-! ## Choices -/

namespace BulkLemmas

open Descent.Parser

/-- Two conditions on a code point, one after the other, are one condition. -/
theorem parse_orElse_of_reads {p q : Parser ρ} {accept accept' : CodePoint → Bool}
    (reads : ∀ c : Cursor ρ, g.parse s p c = g.parse s (.satisfy accept) c)
    (reads' : ∀ c : Cursor ρ, g.parse s q c = g.parse s (.satisfy accept') c) (c : Cursor ρ) :
    g.parse s (.orElse p q) c = g.parse s (.satisfy fun x => accept x || accept' x) c := by
  simp only [Grammar.parse_orElse, reads, reads', parse_satisfy]
  cases there : s.get? c.index with
  | none => simp [there]
  | some x => cases first : accept x <;> cases second : accept' x <;> simp [there, first, second]

/-- Alternatives of single code points behind another condition widen it. -/
theorem parse_foldl_orElse (cs : Text) {p : Parser ρ} {accept : CodePoint → Bool}
    (reads : ∀ c : Cursor ρ, g.parse s p c = g.parse s (.satisfy accept) c) (c : Cursor ρ) :
    g.parse s ((cs.map char).foldl .orElse p) c = g.parse s (.satisfy fun x => accept x || cs.contains x) c := by
  induction cs generalizing p accept with
  | nil => simpa using reads c
  | cons x cs ih =>
    have widened := ih (parse_orElse_of_reads reads fun c => (rfl : g.parse s (char x) c = _))
    rw [List.map_cons, List.foldl_cons, widened]
    simp only [List.contains_cons, Bool.or_assoc]

end BulkLemmas

/-- A choice among code points comes to what a condition on a single one comes to. -/
theorem parse_anyChar_eq (cs : Text) (c : Cursor ρ) :
    g.parse s (Parser.anyChar cs) c = g.parse s (Parser.one.suchThat (Condition.isPointOf · cs) .plain) c := by
  rw [parse_one_suchThat]
  cases cs with
  | nil => exact (parse_satisfy_of_reject (by cases s.get? c.index <;> rfl)).symm
  | cons x cs =>
    have widened := parse_foldl_orElse cs (fun c => (rfl : g.parse s (.char x) c = _)) c
    have folded : Parser.anyChar (x :: cs) = (cs.map .char).foldl .orElse (.char x : Parser ρ) := rfl
    rw [folded, widened]
    simp only [Condition.isPointOf, List.contains_cons]

/-! ## All readers -/

/-- Reading in bulk comes to what reading code point by code point comes to: from every cursor inside the source the
replies are the same, whether they are successes or failures.

* A literal is the sequence of its code points, joined. The empty literal is the sequence of nothing.
* The run of the code points that a condition accepts is the repetition of one of them, joined.
* A choice among code points is a single code point that is one of them. The choice among none always fails. -/
theorem parse_bulk_eq (g : Grammar ρ) (s : Source) (c : Cursor ρ) (inside : c.index ≤ s.size) :
    (∀ t : Text, g.parse s (.literal t) c = g.parse s ((Parser.sequence (t.map .char)).map .joined) c) ∧
    (∀ accept : Value → Bool, g.parse s (.span fun x => accept (.str [x])) c =
      g.parse s ((Parser.many (Parser.one.suchThat accept .plain)).map .joined) c) ∧
    (∀ cs : Text, g.parse s (Parser.anyChar cs) c =
      g.parse s (Parser.one.suchThat (Condition.isPointOf · cs) .plain) c) :=
  ⟨fun t => parse_literal_eq t c inside, fun accept => parse_span_eq accept c inside,
    fun cs => parse_anyChar_eq cs c⟩

/-- Behind the first letter of `aab`: the text `abc` goes on differently after two code points that were read, a run of
`a` ends before the `b`, and there is nothing to choose from. -/
theorem read_code_points :
    let g : Grammar Empty := nofun
    let s : Source := .ofText [0x61, 0x61, 0x62]
    let c : Cursor Empty := ⟨1, .ofRequest 1, []⟩
    c.index ≤ s.size ∧
    g.parse s ((Parser.sequence ([0x61, 0x62, 0x63].map .char)).map .joined) c = (.failure .plain, c) ∧
    g.parse s ((Parser.many (Parser.one.suchThat (Condition.isPointOf · [0x61]) .plain)).map .joined) c =
      (.success (.str [0x61]), c.moveTo 2) ∧
    g.parse s (Parser.one.suchThat (Condition.isPointOf · []) .plain) c = (.failure .plain, c) := by
  intro g s c
  have inside : c.index ≤ s.size := by decide
  obtain ⟨literal, run, choice⟩ := parse_bulk_eq g s c inside
  exact ⟨inside, (literal _).symm.trans rfl, (run (Condition.isPointOf · [0x61])).symm.trans rfl,
    (choice []).symm.trans rfl⟩

end Descent
