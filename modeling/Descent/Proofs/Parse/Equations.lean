import Descent.Proofs.Parse.Progress

/-!
# Equations of running

What running a combinator comes to, in terms of running its parts over the same set of rules. The two bounds that make
running total are gone from these equations: a repetition unfolds into one application and the repetition again, and a
rule call into running the parser that the rule stands for, one level deeper.
-/

namespace Descent

variable {ρ : Type} {g : Grammar ρ} {s : Source}

/-- The outcome with more items in front, if it is a list. -/
def Outcome.prepend (items : List Value) : Outcome → Outcome
  | .success (.list values) => .success (.list (items ++ values))
  | outcome => outcome

namespace Outcome

theorem prepend_eq_refused_iff {items : List Value} {o : Outcome} : o.prepend items = .refused ↔ o = .refused := by
  cases o with
  | success v => cases v <;> simp [prepend]
  | failure f => simp [prepend]
  | fault e => simp [prepend]
  | refused => simp [prepend]

theorem prepend_eq_failure_iff {items : List Value} {o : Outcome} {f : Failure} :
    o.prepend items = .failure f ↔ o = .failure f := by
  cases o with
  | success v => cases v <;> simp [prepend]
  | failure e => simp [prepend]
  | fault e => simp [prepend]
  | refused => simp [prepend]

end Outcome

/-! ## Repetition -/

namespace Parser

/-- The values collected before a repetition only stand in front of those that it collects. -/
theorem repeatWhile_values (step : Cursor ρ → Reply ρ) (most : Nat) (values : List Value) (c : Cursor ρ) :
    repeatWhile step most values c =
      ((repeatWhile step most [] c).1.prepend values.reverse, (repeatWhile step most [] c).2) := by
  induction most generalizing values c with
  | zero => simp [repeatWhile, Outcome.prepend]
  | succ most ih =>
    rw [repeatWhile, repeatWhile]
    split
    · next v c' _ =>
      split
      · simp [Outcome.prepend]
      · rw [ih (v :: values), ih [v]]
        cases (repeatWhile step most [] c').1 with
        | success w => cases w <;> simp [Outcome.prepend]
        | failure f => rfl
        | fault e => rfl
        | refused => rfl
    · simp [Outcome.prepend]
    · next notSuccess notFailure =>
      cases reached : step c with
      | mk outcome c' =>
        cases outcome with
        | success v => exact absurd reached (notSuccess v c')
        | failure f => exact absurd reached (notFailure f c')
        | fault e => rfl
        | refused => rfl

/-- A bound above the length that is left unread is never reached, so any two of them give the same reply. -/
theorem repeatWhile_bound {step : Cursor ρ → Reply ρ} (hstep : ∀ c : Cursor ρ, c.Follows s (step c).2)
    {m n : Nat} (values : List Value) (c : Cursor ρ) (hm : s.size - c.index < m) (hn : s.size - c.index < n) :
    repeatWhile step m values c = repeatWhile step n values c := by
  induction m generalizing n values c with
  | zero => omega
  | succ m ih =>
    obtain ⟨n, rfl⟩ : ∃ k, n = k + 1 := ⟨n - 1, by omega⟩
    have first := hstep c
    rw [repeatWhile, repeatWhile]
    split
    · next v c' reached =>
      rw [reached] at first
      split
      · rfl
      · next moved =>
        have start := first.start_le
        have ends := first.le_end
        exact ih (v :: values) c' (by simp only at start ends; omega) (by simp only at start ends; omega)
    · rfl
    · rfl

end Parser

/-! ## Combinators -/

namespace Grammar

/-- Rules are called in the same way behind a parser as in front of it, since the guard is the same. -/
theorem call_behind {p : Parser ρ} {c c' : Cursor ρ} {o : Outcome} (h : g.parse s p c = (o, c')) :
    g.call s c'.guard.room = g.call s c.guard.room := by
  have follows := parse_follows (g := g) (s := s) p c
  rw [h] at follows
  rw [follows.guard]

theorem parse_bind (p : Parser ρ) (next : Value → Parser ρ) (c : Cursor ρ) :
    g.parse s (.bind p next) c = match g.parse s p c with
      | (.success v, c') => g.parse s (next v) c'
      | reply => reply := by
  rw [parse, Parser.step]
  show (match g.parse s p c with | (.success v, c') => _ | reply => reply) = _
  split
  · next v c' reached => rw [parse, call_behind reached]
  · rfl

theorem parse_orElse (p q : Parser ρ) (c : Cursor ρ) :
    g.parse s (.orElse p q) c = match g.parse s p c with
      | (.failure _, c') => match g.parse s q c' with
        | (.failure _, c'') => (.failure .plain, c'')
        | reply => reply
      | reply => reply := by
  have run : g.parse s (.orElse p q) c = match g.parse s p c with
      | (.failure _, c') => match q.step s (g.call s c.guard.room) c' with
        | (.failure _, c'') => (.failure .plain, c'')
        | reply => reply
      | reply => reply := rfl
  rw [run]
  split
  · next f c' reached =>
    have behind : g.parse s q c' = q.step s (g.call s c.guard.room) c' := by rw [parse, call_behind reached]
    exact behind ▸ rfl
  · rfl

theorem parse_attempt (p : Parser ρ) (c : Cursor ρ) :
    g.parse s (.attempt p) c = match g.parse s p c with
      | (.failure f, c') => (.failure f, c'.moveTo c.index)
      | reply => reply :=
  rfl

theorem parse_suchThat (p : Parser ρ) (accept : Value → Bool) (rejection : Failure) (c : Cursor ρ) :
    g.parse s (.suchThat p accept rejection) c = match g.parse s p c with
      | (.success v, c') =>
        if accept v then (.success v, c') else (.failure rejection, c'.moveTo c.index)
      | reply => reply :=
  rfl

theorem parse_recover (p : Parser ρ) (fallback : Value) (c : Cursor ρ) :
    g.parse s (.recover p fallback) c = match g.parse s p c with
      | (.failure _, c') => (fallback.outcome, c')
      | reply => reply :=
  rfl

theorem parse_expecting (p : Parser ρ) (description : Text) (c : Cursor ρ) :
    g.parse s (.expecting p description) c = match g.parse s p c with
      | (.failure _, c') => (.failure (.expectedAt s description c.index), c')
      | reply => reply :=
  rfl

theorem parse_trace (p : Parser ρ) (label : Text) (c : Cursor ρ) :
    g.parse s (.trace p label) c = match g.parse s p c with
      | (.success v, c') => (.success v, c'.note (.traced (.won label c.index c'.index)))
      | (.failure f, c') => (.failure f, c'.note (.traced (.lost label c.index)))
      | reply => reply :=
  rfl

theorem parse_many_eq_repeatWhile (p : Parser ρ) (c : Cursor ρ) :
    g.parse s (.many p) c =
      Parser.repeatWhile (p.step s (g.call s c.guard.room)) (s.size - c.index + 1) [] c :=
  rfl

/-- A repetition is one application and, unless that failed or read nothing, the repetition again. -/
theorem parse_many (p : Parser ρ) (c : Cursor ρ) :
    g.parse s (.many p) c = match g.parse s p c with
      | (.success v, c') =>
        if c'.index = c.index then (.success (.list [v]), c')
        else ((g.parse s (.many p) c').1.prepend [v], (g.parse s (.many p) c').2)
      | (.failure _, c') => (.success (.list []), c')
      | reply => reply := by
  have follows := parse_follows (g := g) (s := s) p c
  rw [parse_many_eq_repeatWhile, Parser.repeatWhile]
  show (match g.parse s p c with | (.success v, c') => _ | (.failure _, c') => _ | reply => reply) = _
  split
  · next v c' reached =>
    split
    · rfl
    · next moved =>
      rw [reached] at follows
      have start := follows.start_le
      have ends := follows.le_end
      -- Behind one application the bound differs, but both bounds are above what is left unread.
      rw [Parser.repeatWhile_values, parse_many_eq_repeatWhile, call_behind reached,
        Parser.repeatWhile_bound (Parser.step_follows (call_follows _) p) [] c'
          (n := s.size - c'.index + 1) (by simp only at start ends; omega) (by omega)]
      rfl
  · rfl
  · rfl

/-- A rule call is refused where the guard is full. Otherwise the parser that the rule stands for runs one level
deeper, and the guard is put back. -/
theorem parse_rule (r : ρ) (c : Cursor ρ) :
    g.parse s (.rule r) c = match c.guard.enter with
      | none => (.refused, c.note (.refused r c.index))
      | some guard =>
        let c' := { c with guard }.note (.entered r)
        match g r with
        | .ok p => ((g.parse s p c').1, { (g.parse s p c').2 with guard := c.guard })
        | .error e => (.fault e, { c' with guard := c.guard }) := by
  show g.call s c.guard.room r c = _
  cases entered : c.guard.enter with
  | none =>
    rw [Guard.enter_eq_none_iff.mp entered]
    rfl
  | some guard =>
    rw [Guard.room_of_enter entered, call, entered]
    cases g r with
    | error e => simp only [Cursor.note, Guard.leave_enter entered]
    | ok p =>
      have follows := parse_follows (g := g) (s := s) p ({ c with guard }.note (.entered r))
      have balanced : (g.parse s p ({ c with guard }.note (.entered r))).2.guard = guard := follows.guard
      simp only [parse, Cursor.note] at balanced ⊢
      rw [balanced, Guard.leave_enter entered]

end Grammar
end Descent
