import Descent.Proofs.Parse.Equations

/-!
# The log is only written

Parsers add to the log of the cursor and never look at it. A parse with a longer past comes to the same, with that past
below everything that it notes itself; so what a parser comes to is a matter of the offset and the guard alone.

Results:
1. `Parser.step_since`: one parser, given that rule calls do not look at the log.
2. `parse_since`: every parser over every set of rules.
3. `parse_place`: from the same offset and under the same guard a parser comes to the same place.
-/

namespace Descent

variable {ρ : Type} {s : Source}

/-! ## Cursors with a past -/

/-- The cursor with events in its log that were there before all others. -/
def Cursor.since (past : List (Event ρ)) (c : Cursor ρ) : Cursor ρ := { c with events := c.events ++ past }

def Reply.since (past : List (Event ρ)) (reply : Reply ρ) : Reply ρ := (reply.1, reply.2.since past)

/-- What a reply says apart from its log: the outcome, the offset and the guard. -/
def Reply.place (reply : Reply ρ) : Outcome × Nat × Guard := (reply.1, reply.2.index, reply.2.guard)

@[simp] theorem Reply.place_since (past : List (Event ρ)) (reply : Reply ρ) : (reply.since past).place = reply.place :=
  rfl

/-! ## 1. One parser -/

namespace LogLemmas

/-- A way of running that only writes to the log. -/
def Ignores (past : List (Event ρ)) (run : Cursor ρ → Reply ρ) : Prop :=
  ∀ c, run (c.since past) = Reply.since past (run c)

theorem repeatWhile_since {past : List (Event ρ)} {run : Cursor ρ → Reply ρ} (h : Ignores past run) (most : Nat)
    (values : List Value) : Ignores past (Parser.repeatWhile run most values) := by
  induction most generalizing values with
  | zero => exact fun _ => rfl
  | succ most ih =>
    intro c
    rw [Parser.repeatWhile, Parser.repeatWhile, h c]
    cases run c with
    | mk o c' =>
      cases o with
      | success v =>
        show (if c'.index = c.index then _ else _) = Reply.since past (if c'.index = c.index then _ else _)
        split
        · rfl
        · exact ih (v :: values) c'
      | failure f => rfl
      | fault e => rfl
      | refused => rfl

end LogLemmas

open LogLemmas

/-- A parser does not look at the log, given that rule calls do not. -/
theorem Parser.step_since {past : List (Event ρ)} {enter : ρ → Cursor ρ → Reply ρ}
    (henter : ∀ r, Ignores past (enter r)) (p : Parser ρ) : Ignores past (p.step s enter) := by
  induction p with
  | satisfy accept =>
    intro c
    rw [step, step, Cursor.since]
    cases s.get? c.index with
    | none => rfl
    | some x =>
      simp only
      split <;> rfl
  | literal t =>
    intro c
    rw [step, step, Cursor.since]
    split <;> rfl
  | span accept => exact fun _ => rfl
  | eof => exact fun _ => rfl
  | offset => exact fun _ => rfl
  | pure v => exact fun _ => rfl
  | fault e => exact fun _ => rfl
  | bind p next ihp ihnext =>
    intro c
    rw [step, step, ihp c]
    cases p.step s enter c with
    | mk o c' =>
      cases o with
      | success v => exact ihnext v c'
      | _ => rfl
  | orElse p q ihp ihq =>
    intro c
    rw [step, step, ihp c]
    cases p.step s enter c with
    | mk o c' =>
      cases o with
      | failure f =>
        simp only [Reply.since, ihq c']
        cases q.step s enter c' with
        | mk o' c'' => cases o' <;> rfl
      | _ => rfl
  | attempt p ih =>
    intro c
    rw [step, step, ih c]
    cases p.step s enter c with
    | mk o c' => cases o <;> rfl
  | suchThat p accept rejection ih =>
    intro c
    rw [step, step, ih c]
    cases p.step s enter c with
    | mk o c' =>
      cases o with
      | success v =>
        simp only [Reply.since]
        split <;> rfl
      | _ => rfl
  | recover p fallback ih =>
    intro c
    rw [step, step, ih c]
    cases p.step s enter c with
    | mk o c' => cases o <;> rfl
  | expecting p description ih =>
    intro c
    rw [step, step, ih c]
    cases p.step s enter c with
    | mk o c' => cases o <;> rfl
  | many p ih => exact fun c => repeatWhile_since ih (s.size - c.index + 1) [] c
  | trace p label ih =>
    intro c
    rw [step, step, ih c]
    cases p.step s enter c with
    | mk o c' => cases o <;> rfl
  | rule r => exact henter r

/-! ## 2. Rules -/

variable {g : Grammar ρ}

theorem Grammar.call_since (past : List (Event ρ)) (levels : Nat) (r : ρ) : Ignores past (g.call s levels r) := by
  induction levels generalizing r with
  | zero => exact fun _ => rfl
  | succ levels ih =>
    intro c
    rw [call, call, Cursor.since]
    cases c.guard.enter with
    | none => rfl
    | some guard =>
      cases g r with
      | error e => rfl
      | ok p =>
        have body := Parser.step_since (s := s) ih p ({ c with guard }.note (.entered r))
        simp only
        exact congrArg (fun reply : Reply ρ => (reply.1, { reply.2 with guard := reply.2.guard.leave })) body

/-- A parse with a longer past comes to the same, with that past in its log. -/
theorem parse_since (past : List (Event ρ)) (p : Parser ρ) (c : Cursor ρ) :
    g.parse s p (c.since past) = (g.parse s p c).since past :=
  Parser.step_since (Grammar.call_since past c.guard.room) p c

/-! ## 3. Places -/

/-- Where a parser gets to, and what it comes to there, depends on the offset and the guard only. -/
theorem parse_place {p : Parser ρ} {c d : Cursor ρ} (index : d.index = c.index) (guard : d.guard = c.guard) :
    (g.parse s p d).place = (g.parse s p c).place := by
  -- Both have the log of a cursor without a past.
  have bare : ∀ e : Cursor ρ, e = (⟨e.index, e.guard, []⟩ : Cursor ρ).since e.events := fun _ => rfl
  rw [bare c, bare d, parse_since, parse_since, Reply.place_since, Reply.place_since, index, guard]

end Descent
