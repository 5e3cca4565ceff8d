import Descent.Proofs.Parse.Equations
import Mathlib.Logic.Relation

/-!
# The course of a run

What `Grammar.parse` computes is what the machine of moments comes to, one step after another.

Results:
1. `leads_parse`: every run comes to an end, with the reply of `Grammar.parse`.
2. `leads_end`, `acc_of_leads`: a run has only one course, so each of its moments leads to that end, and there is no
   endless run beside it.
-/

namespace Descent

variable {ρ : Type}

/-- One moment comes some steps behind another, or is the same. -/
abbrev Grammar.Leads (g : Grammar ρ) (s : Source) : Moment ρ → Moment ρ → Prop :=
  Relation.ReflTransGen fun m m' => g.next s m = some m'

/-- The ending of a whole parse, with the span of a refusal built like every other. -/
def Reply.endingOrBreakdown (s : Source) : Reply ρ → Except Breakdown Ending
  | (.refused, c) =>
    match Span.locate s c.index c.index with
    | .ok span => .ok (.failure ⟨.tooDeep, some (.nestingDepthExceeded c.guard.limit (some span))⟩)
    | .error defect => .error (.noSpan defect)
  | reply => .ok (reply.ending s)

/-! ## Numbers and code points that are there -/

/-- The span of a single offset passes the checks on its numbers. -/
theorem Span.locate_self (s : Source) (i : Nat) : Span.locate s i i = .ok (.point s i) := by
  have line := (s.position i).one_le_line
  have column := (s.position i).one_le_column
  unfold Span.locate Span.make
  rw [dif_neg (by omega), dif_neg (by omega), dif_neg (by omega), dif_neg (by omega)]
  simp only [Int.toNat_natCast]
  rfl

theorem Source.get?_ne_none {s : Source} {i : Nat} (inside : i < s.size) : s.get? i ≠ none := by
  intro missing
  have beyond := Array.getElem?_eq_none_iff.mp missing
  exact absurd inside (Nat.not_lt.mpr beyond)

namespace Outcome

@[simp] theorem prepend_nil (o : Outcome) : o.prepend [] = o := by
  cases o with
  | success v => cases v <;> rfl
  | _ => rfl

theorem prepend_prepend (items more : List Value) (o : Outcome) :
    (o.prepend more).prepend items = o.prepend (items ++ more) := by
  cases o with
  | success v => cases v <;> simp [prepend]
  | _ => rfl

end Outcome

namespace MachineLemmas

open Relation.ReflTransGen

variable {g : Grammar ρ} {s : Source}

/-! ## 1. Every run ends -/

/-- One step in front of a course. -/
theorem leads_of_next {m n k : Moment ρ} (step : g.next s m = some n) (course : g.Leads s n k) :
    g.Leads s m k := head step course

/-- What is left of a span is scanned to its end. The induction is on the length that is left unread. -/
theorem leads_scan (accept : CodePoint → Bool) (stop : Nat) (c : Cursor ρ) (stack : List (Waiting ρ)) :
    g.Leads s (.scan accept stop c stack)
      (.back (.success (.str (s.slice c.index (s.spanEnd accept stop))), c.moveTo (s.spanEnd accept stop)) stack) := by
  unfold Source.spanEnd
  induction hleft : s.size - stop generalizing stop with
  | zero =>
    refine leads_of_next (n := .back (.success (.str (s.slice c.index stop)), c.moveTo stop) stack) ?_ refl
    have beyond : ¬ stop < s.size := by omega
    simp [Grammar.next, Source.scan, beyond]
  | succ left ih =>
    have inside : stop < s.size := by omega
    rw [Source.runEnd]
    cases found : s.get? stop with
    | none => exact absurd found (Source.get?_ne_none inside)
    | some x =>
      simp only
      cases accepted : accept x with
      | true =>
        refine leads_of_next (n := .scan accept (stop + 1) c stack) ?_ (ih (stop + 1) (by omega))
        simp [Grammar.next, Source.scan, inside, found, accepted]
      | false =>
        refine leads_of_next (n := .back (.success (.str (s.slice c.index stop)), c.moveTo stop) stack) ?_ refl
        simp [Grammar.next, Source.scan, inside, found, accepted]

/-- What `p` must do wherever the guard has a given room. -/
def Ends (g : Grammar ρ) (s : Source) (room : Nat) (p : Parser ρ) : Prop :=
  ∀ (c : Cursor ρ) (stack : List (Waiting ρ)), c.guard.room = room →
    g.Leads s (.run p c stack) (.back (g.parse s p c) stack)

/-- A parser that comes back at once. -/
theorem ends_of_begin {room : Nat} {p : Parser ρ}
    (h : ∀ (c : Cursor ρ) stack, g.begin s p c stack = .back (g.parse s p c) stack) : Ends g s room p := by
  intro c stack _
  exact leads_of_next (congrArg some (h c stack)) refl

/-- A combinator that waits for one parser and hands its reply on, reworked. -/
theorem ends_of_resume {room : Nat} {p q : Parser ρ} {task : Task ρ} (hp : Ends g s room p)
    (begins : ∀ (c : Cursor ρ) stack, g.begin s q c stack = .run p c (⟨c.index, task⟩ :: stack))
    (resumes : ∀ (c : Cursor ρ) stack,
      Waiting.resume s ⟨c.index, task⟩ (g.parse s p c) stack = .back (g.parse s q c) stack) :
    Ends g s room q := by
  intro c stack hroom
  refine leads_of_next (congrArg some (begins c stack)) ?_
  refine (hp c _ hroom).trans ?_
  exact leads_of_next (congrArg some (resumes c stack)) refl

/-- A loop on its way goes on to its end. The induction is on what is left unread, which gets shorter with every turn
but the last one. -/
theorem leads_loop {room : Nat} {p : Parser ρ} (hp : Ends g s room p) (start calls : Nat) (values : List Value)
    (c : Cursor ρ) (stack : List (Waiting ρ)) (hroom : c.guard.room = room) :
    g.Leads s (.run p c (⟨start, .many p calls c.index values⟩ :: stack))
      (.back ((g.parse s (.many p) c).1.prepend values.reverse, (g.parse s (.many p) c).2) stack) := by
  induction hleft : s.size - c.index using Nat.strongRecOn generalizing c calls values with
  | ind left ih =>
    refine (hp c _ hroom).trans ?_
    have follows := Grammar.parse_follows (g := g) (s := s) p c
    rw [Grammar.parse_many]
    cases reached : g.parse s p c with
    | mk o c₁ =>
      rw [reached] at follows
      cases o with
      | success v =>
        by_cases still : c₁.index = c.index
        · refine leads_of_next (n := .back (.success (.list (v :: values).reverse), c₁) stack) ?_ ?_
          · simp [Grammar.next, Waiting.resume, still]
          · simp only [if_pos still, Outcome.prepend, List.reverse_cons]
            exact refl
        · have start_le := follows.start_le
          have le_end := follows.le_end
          have shorter : s.size - c₁.index < left := by simp only at start_le le_end; omega
          have guard : c₁.guard.room = room := by rw [← hroom]; exact congrArg Guard.room follows.guard
          refine leads_of_next (n := .run p c₁ (⟨start, .many p (calls + 1) c₁.index (v :: values)⟩ :: stack)) ?_ ?_
          · simp [Grammar.next, Waiting.resume, still]
          · simp only [if_neg still, Outcome.prepend_prepend, ← List.reverse_cons]
            exact ih _ shorter (calls + 1) (v :: values) c₁ guard rfl
      | failure f =>
        refine leads_of_next (n := .back (.success (.list values.reverse), c₁) stack) rfl ?_
        simp only [Outcome.prepend, List.append_nil]
        exact refl
      | fault e => exact leads_of_next (n := .back (.fault e, c₁) stack) rfl refl
      | refused => exact leads_of_next (n := .back (.refused, c₁) stack) rfl refl

/-- A rule call ends, given that parsers one level deeper do. -/
theorem ends_rule {room : Nat} (deeper : ∀ n, n + 1 = room → ∀ p, Ends g s n p) (r : ρ) : Ends g s room (.rule r) := by
  intro c stack hroom
  rw [Grammar.parse_rule]
  cases entered : c.guard.enter with
  | none =>
    refine leads_of_next (n := .back (.refused, c.note (.refused r c.index)) stack) ?_ refl
    simp [Grammar.next, Grammar.begin, entered]
  | some guard =>
    let inside : Cursor ρ := { c with guard }.note (.entered r)
    have left : guard.leave = c.guard := Guard.leave_enter entered
    cases stands : g r with
    | error e =>
      refine leads_of_next (n := .back (.fault e, inside) (⟨c.index, .rule⟩ :: stack)) ?_ ?_
      · simp [Grammar.next, Grammar.begin, entered, stands, inside]
      · refine leads_of_next (n := .back (.fault e, { inside with guard := guard.leave }) stack) rfl ?_
        rw [left]
    | ok p =>
      have one_less : guard.room + 1 = room := by rw [← hroom, Guard.room_of_enter entered]
      have follows := Grammar.parse_follows (g := g) (s := s) p inside
      have body := deeper guard.room one_less p inside (⟨c.index, .rule⟩ :: stack) rfl
      refine leads_of_next (n := .run p inside (⟨c.index, .rule⟩ :: stack)) ?_ (body.trans ?_)
      · simp [Grammar.next, Grammar.begin, entered, stands, inside]
      · refine leads_of_next rfl ?_
        simp only [Waiting.resume]
        rw [follows.guard, show inside.guard = guard from rfl, left]

theorem ends (room : Nat) (p : Parser ρ) : Ends g s room p := by
  -- A rule stands for any parser, with less room: so the room comes first and the parser second.
  induction room using Nat.strongRecOn generalizing p with
  | ind room deeper =>
    induction p with
    | satisfy accept =>
      refine ends_of_begin fun c stack => ?_
      rw [Grammar.begin, Grammar.parse, Parser.step]
      split
      · next inside =>
        cases found : s.get? c.index with
        | none => exact absurd found (Source.get?_ne_none inside)
        | some x => rfl
      · next beyond =>
        have missing : s.get? c.index = none := Array.getElem?_eq_none_iff.mpr (Nat.not_lt.mp beyond)
        rw [missing]
    | literal t => exact ends_of_begin fun _ _ => rfl
    | span accept =>
      intro c stack _
      exact leads_of_next rfl (leads_scan accept c.index c stack)
    | eof => exact ends_of_begin fun _ _ => rfl
    | offset => exact ends_of_begin fun _ _ => rfl
    | pure v => exact ends_of_begin fun _ _ => rfl
    | fault e => exact ends_of_begin fun _ _ => rfl
    | bind p next ihp ihnext =>
      intro c stack hroom
      refine leads_of_next rfl ((ihp c _ hroom).trans ?_)
      have follows := Grammar.parse_follows (g := g) (s := s) p c
      rw [Grammar.parse_bind]
      cases reached : g.parse s p c with
      | mk o c₁ =>
        rw [reached] at follows
        cases o with
        | success v =>
          refine leads_of_next rfl (ihnext v c₁ stack ?_)
          rw [← hroom]
          exact congrArg Guard.room follows.guard
        | _ => exact leads_of_next rfl refl
    | orElse p q ihp ihq =>
      intro c stack hroom
      refine leads_of_next rfl ((ihp c _ hroom).trans ?_)
      have follows := Grammar.parse_follows (g := g) (s := s) p c
      rw [Grammar.parse_orElse]
      cases reached : g.parse s p c with
      | mk o c₁ =>
        rw [reached] at follows
        cases o with
        | failure f =>
          have guard : c₁.guard.room = room := by rw [← hroom]; exact congrArg Guard.room follows.guard
          refine leads_of_next rfl ((ihq c₁ _ guard).trans ?_)
          simp only
          cases g.parse s q c₁ with
          | mk o₂ c₂ => cases o₂ <;> exact leads_of_next rfl refl
        | _ => exact leads_of_next rfl refl
    | attempt p ih =>
      refine ends_of_resume ih (fun _ _ => rfl) fun c stack => ?_
      rw [Grammar.parse_attempt]
      cases g.parse s p c with
      | mk o c₁ => cases o <;> rfl
    | suchThat p accept rejection ih =>
      refine ends_of_resume ih (fun _ _ => rfl) fun c stack => ?_
      rw [Grammar.parse_suchThat]
      cases g.parse s p c with
      | mk o c₁ => cases o <;> rfl
    | recover p fallback ih =>
      refine ends_of_resume ih (fun _ _ => rfl) fun c stack => ?_
      rw [Grammar.parse_recover]
      cases g.parse s p c with
      | mk o c₁ => cases o <;> rfl
    | expecting p description ih =>
      refine ends_of_resume ih (fun _ _ => rfl) fun c stack => ?_
      rw [Grammar.parse_expecting]
      cases g.parse s p c with
      | mk o c₁ =>
        cases o with
        | failure f =>
          simp only [Waiting.resume, Span.locate_self, Moment.ofSpan]
          rfl
        | _ => rfl
    | many p ih =>
      intro c stack hroom
      have loop := leads_loop ih c.index 1 [] c stack hroom
      rw [List.reverse_nil, Outcome.prepend_nil] at loop
      exact leads_of_next rfl loop
    | trace p label ih =>
      refine ends_of_resume ih (fun _ _ => rfl) fun c stack => ?_
      rw [Grammar.parse_trace]
      cases g.parse s p c with
      | mk o c₁ => cases o <;> rfl
    | rule r => exact ends_rule (fun n hn => deeper n (by omega)) r

/-- Every run comes to an end, with the reply of `Grammar.parse`. -/
theorem leads_parse (g : Grammar ρ) (s : Source) (p : Parser ρ) (c : Cursor ρ) (stack : List (Waiting ρ)) :
    g.Leads s (.run p c stack) (.back (g.parse s p c) stack) :=
  ends c.guard.room p c stack rfl

/-! ## 2. A run has one course -/

/-- Behind a final reply there is nothing. -/
theorem eq_of_leads_final {reply : Reply ρ} {m : Moment ρ} (course : g.Leads s (.back reply []) m) :
    m = .back reply [] := by
  rcases cases_head course with rfl | ⟨m', step, _⟩
  · rfl
  · cases step

/-- Every moment of a run that ends leads to that end. -/
theorem leads_end {m m' : Moment ρ} {reply : Reply ρ} (ended : g.Leads s m (.back reply []))
    (course : g.Leads s m m') : g.Leads s m' (.back reply []) := by
  have unique : Relator.RightUnique fun a b : Moment ρ => g.next s a = some b := by
    intro a b b' h h'
    exact Option.some.inj (h.symm.trans h')
  rcases total_of_right_unique unique ended course with beyond | before
  · rw [eq_of_leads_final beyond]
  · exact before

/-- A run that ends is not endless: no sequence of moments goes on forever from any of its moments. -/
theorem acc_of_leads {m : Moment ρ} {reply : Reply ρ} (ended : g.Leads s m (.back reply [])) :
    Acc (fun b a : Moment ρ => g.next s a = some b) m := by
  induction ended using head_induction_on with
  | refl => exact ⟨_, fun _ step => nomatch step⟩
  | head step _ ih =>
    refine ⟨_, fun m' step' => ?_⟩
    rw [← Option.some.inj (step.symm.trans step')]
    exact ih

end MachineLemmas
end Descent
