import Descent.Proofs.Parse.Equations

/-!
# Failures that read nothing

A failed parser leaves the cursor where its failing part stopped, so whether a failure has read anything depends on how
the parser is put together. `Parser.Rewinds` is a class of parsers whose failures read nothing, closed under every
combinator that keeps that so. Two reasons put a parser into the class: it moves the cursor back or cannot fail,
whatever its parts do; or its failures are those of parts that are in the class. A parser that goes on behind another
one is in neither position, so `bind`, `and`, `left` and `right` are missing.

Results:
1. `step_rewound`: a parser of the class moves the cursor back where it fails, given that rule calls do.
2. `failure_rewinds`: so it does over every set of rules that stand for parsers of the class.
-/

namespace Descent

variable {ρ : Type}

/-- Parsers that leave the cursor where it was wherever they fail, as far as the form of the parser shows it. Rules are
trusted if they are among the given ones. The readers of single code points are all `satisfy`, or a choice of two, and
a parser that always fails is `pure`. -/
inductive Parser.Rewinds (trusted : ρ → Prop) : Parser ρ → Prop
  | satisfy (accept : CodePoint → Bool) : Rewinds trusted (.satisfy accept)
  | literal (t : Text) : Rewinds trusted (.literal t)
  | span (accept : CodePoint → Bool) : Rewinds trusted (.span accept)
  | eof : Rewinds trusted .eof
  | offset : Rewinds trusted .offset
  | pure (v : Value) : Rewinds trusted (.pure v)
  | anyChar (cs : Text) : Rewinds trusted (.anyChar cs)
  | anyLiteral (ts : List Text) : Rewinds trusted (.anyLiteral ts)
  -- Any parts at all: the cursor is moved back, or there is no failure.
  | attempt (p : Parser ρ) : Rewinds trusted p.attempt
  | sequence (ps : List (Parser ρ)) : Rewinds trusted (.sequence ps)
  | times (p : Parser ρ) (n : Nat) : Rewinds trusted (p.times n)
  | many (p : Parser ρ) : Rewinds trusted p.many
  | optional (p : Parser ρ) {fallback : Value} : (∀ f, fallback ≠ .failure f) → Rewinds trusted (p.optional fallback)
  | otherwise (p : Parser ρ) {v : Value} : (∀ f, v ≠ .failure f) → Rewinds trusted (p.otherwise v)
  -- Parts of the class: a failure is a failure of theirs, where they started.
  | orElse {p q : Parser ρ} : Rewinds trusted p → Rewinds trusted q → Rewinds trusted (p.orElse q)
  | choice {ps : List (Parser ρ)} : (∀ p ∈ ps, Rewinds trusted p) → Rewinds trusted (.choice ps)
  | suchThat {p : Parser ρ} (accept : Value → Bool) (rejection : Failure) :
      Rewinds trusted p → Rewinds trusted (p.suchThat accept rejection)
  | error {p : Parser ρ} (f : Failure) : Rewinds trusted p → Rewinds trusted (p.error f)
  | expecting {p : Parser ρ} (description : Text) : Rewinds trusted p → Rewinds trusted (p.expecting description)
  | trace {p : Parser ρ} (label : Text) : Rewinds trusted p → Rewinds trusted (p.trace label)
  | withRange {p : Parser ρ} : Rewinds trusted p → Rewinds trusted p.withRange
  | many1 {p : Parser ρ} : Rewinds trusted p → Rewinds trusted p.many1
  | when {p : Parser ρ} (condition : Bool) : Rewinds trusted p → Rewinds trusted (p.when condition)
  | map {p : Parser ρ} {f : Value → Value} :
      (∀ v e, f v ≠ .failure e) → Rewinds trusted p → Rewinds trusted (p.map f)
  | mapM {p : Parser ρ} {f : Value → Except Fault Value} :
      (∀ v e, f v ≠ .ok (.failure e)) → Rewinds trusted p → Rewinds trusted (p.mapM f)
  | rule {r : ρ} : trusted r → Rewinds trusted (.rule r)

/-- The given rules all stand for parsers of the class, which call no other rules than these where it matters. -/
def Grammar.RewindsOn (g : Grammar ρ) (trusted : ρ → Prop) : Prop :=
  ∀ r p, trusted r → g r = .ok p → p.Rewinds trusted

namespace RewindingLemmas

open Descent.Parser

variable {s : Source} {enter : ρ → Cursor ρ → Reply ρ}

/-- A way of running that leaves the cursor where it was wherever it fails. -/
def Rewound (run : Cursor ρ → Reply ρ) : Prop := ∀ ⦃c c' f⦄, run c = (.failure f, c') → c'.index = c.index

/-! ## Values and repetitions that do not fail -/

theorem outcome_ne_failure {v : Value} (h : ∀ f, v ≠ .failure f) (f : Failure) : v.outcome ≠ .failure f := by
  cases v with
  | failure e => exact absurd rfl (h e)
  | _ => nofun

/-- A repetition does not fail, and its value is a list. -/
theorem list_of_repeatWhile {step : Cursor ρ → Reply ρ} {most : Nat} {values : List Value} {c c' : Cursor ρ}
    {o : Outcome} (h : repeatWhile step most values c = (o, c')) :
    (∀ f, o ≠ .failure f) ∧ ∀ v, o = .success v → ∃ items, v = .list items := by
  have listed : ∀ items, (∀ f, Outcome.success (.list items) ≠ .failure f) ∧
      ∀ v, Outcome.success (.list items) = .success v → ∃ items, v = .list items :=
    fun items => ⟨fun _ => Outcome.noConfusion, fun _ hv => ⟨items, (Outcome.success.inj hv).symm⟩⟩
  induction most generalizing values c with
  | zero =>
    cases h
    exact listed _
  | succ most ih =>
    rw [repeatWhile] at h
    split at h
    · next v c₁ _ =>
      split at h
      · cases h
        exact listed _
      · exact ih h
    · cases h
      exact listed _
    · next notSuccess notFailure =>
      exact ⟨fun f hf => notFailure f c' (hf ▸ h), fun v hv => absurd (hv ▸ h) (notSuccess v c')⟩

/-- A repetition without values has tried once, and failed. -/
theorem failure_of_repeatWhile_nil {step : Cursor ρ → Reply ρ} {most : Nat} {c c' : Cursor ρ}
    (h : repeatWhile step (most + 1) [] c = (.success (.list []), c')) : ∃ f, step c = (.failure f, c') := by
  rw [repeatWhile] at h
  split at h
  · next v c₁ _ =>
    split at h
    · cases h
    · rw [repeatWhile_values] at h
      -- What comes behind the first value only makes the list longer.
      cases more : (repeatWhile step most [] c₁).1 with
      | success w => cases w <;> simp [more, Outcome.prepend] at h
      | failure f => simp [more, Outcome.prepend] at h
      | fault e => simp [more, Outcome.prepend] at h
      | refused => simp [more, Outcome.prepend] at h
  · next f c₁ failed =>
    cases h
    exact ⟨f, failed⟩
  · next notSuccess _ => exact absurd h (notSuccess _ _)

/-! ## Readers of the source -/

theorem satisfy_rewound (accept : CodePoint → Bool) : Rewound ((satisfy accept).step s enter) := by
  intro c c' f h
  rw [step] at h
  split at h
  · split at h <;> cases h
    rfl
  · cases h
    rfl

theorem literal_rewound (t : Text) : Rewound ((literal t).step s enter) := by
  intro c c' f h
  rw [step] at h
  split at h <;> cases h
  rfl

/-! ## Combinators -/

theorem attempt_rewound (p : Parser ρ) : Rewound (p.attempt.step s enter) := by
  intro c c' f h
  rw [step] at h
  split at h
  · cases h
    rfl
  · next notFailure => exact absurd h (notFailure f c')

theorem orElse_rewound {p q : Parser ρ} (hp : Rewound (p.step s enter)) (hq : Rewound (q.step s enter)) :
    Rewound ((p.orElse q).step s enter) := by
  intro c c' f h
  rw [step] at h
  split at h
  · next e c₁ failed =>
    split at h
    · next e' c₂ failed' =>
      cases h
      calc
        c'.index = c₁.index := hq failed'
        _ = c.index := hp failed
    · next notFailure => exact absurd h (notFailure f c')
  · next notFailure => exact absurd h (notFailure f c')

/-- Choice takes the alternatives in a row, each one behind the failures of the earlier ones. -/
theorem choice_rewound {ps : List (Parser ρ)} (hps : ∀ p ∈ ps, Rewound (p.step s enter)) :
    Rewound ((choice ps).step s enter) := by
  cases ps with
  | nil =>
    intro c c' f h
    cases h
    rfl
  | cons p ps =>
    rw [choice]
    induction ps generalizing p with
    | nil => exact hps p (List.mem_cons_self ..)
    | cons q ps ih =>
      simp only [List.forall_mem_cons] at hps ih
      obtain ⟨hp, hq, others⟩ := hps
      exact ih (p.orElse q) ⟨orElse_rewound hp hq, others⟩

theorem many1_rewound {p : Parser ρ} (hp : Rewound (p.step s enter)) : Rewound (p.many1.step s enter) := by
  intro c c' f h
  rw [many1, step] at h
  split at h
  · next v c₁ repeated =>
    rw [step] at repeated
    obtain ⟨items, rfl⟩ := (list_of_repeatWhile repeated).2 v rfl
    cases items with
    | nil =>
      obtain ⟨e, failed⟩ := failure_of_repeatWhile_nil repeated
      cases h
      exact hp failed
    | cons item items => cases h
  · rw [step] at h
    exact absurd rfl ((list_of_repeatWhile h).1 f)

/-- A parser whose value is reworked into one that is no failure. -/
theorem bind_rewound {p : Parser ρ} {next : Value → Parser ρ} (hp : Rewound (p.step s enter))
    (hnext : ∀ v (c c' : Cursor ρ) f, (next v).step s enter c ≠ (.failure f, c')) :
    Rewound ((p.bind next).step s enter) := by
  intro c c' f h
  rw [step] at h
  split at h
  · next v c₁ _ => exact absurd h (hnext v c₁ c' f)
  · exact hp h

theorem withRange_rewound {p : Parser ρ} (hp : Rewound (p.step s enter)) : Rewound (p.withRange.step s enter) := by
  intro c c' f h
  have paired : Rewound ((p.bind fun v => offset.bind fun stop =>
      .pure (.tuple [v, .tuple [.int c.index, stop]])).step s enter) :=
    bind_rewound hp fun _ _ _ _ failed => by cases failed
  exact paired h

/-! ## 1. One parser -/

/-- A parser of the class moves the cursor back where it fails, given that the trusted rules do. -/
theorem step_rewound {trusted : ρ → Prop} (henter : ∀ r, trusted r → Rewound (enter r)) {p : Parser ρ}
    (hp : p.Rewinds trusted) : Rewound (p.step s enter) := by
  induction hp with
  | satisfy accept => exact satisfy_rewound accept
  | literal t => exact literal_rewound t
  | span accept =>
    intro c c' f h
    cases h
  | eof =>
    intro c c' f h
    rw [step] at h
    split at h <;> cases h
    rfl
  | offset =>
    intro c c' f h
    cases h
  | pure v =>
    intro c c' f h
    obtain ⟨-, rfl⟩ := Prod.mk.inj h
    rfl
  | anyChar cs => exact choice_rewound (List.forall_mem_map.mpr fun c _ => satisfy_rewound _)
  | anyLiteral ts => exact choice_rewound (List.forall_mem_map.mpr fun t _ => literal_rewound t)
  | attempt p => exact attempt_rewound p
  | sequence ps => exact attempt_rewound (chain ps)
  | times p n => exact attempt_rewound (chain (List.replicate n p))
  | many p =>
    intro c c' f h
    rw [step] at h
    exact absurd rfl ((list_of_repeatWhile h).1 f)
  | optional p hv =>
    intro c c' f h
    rw [Parser.optional, step] at h
    split at h
    · exact absurd (congrArg Prod.fst h) (outcome_ne_failure hv f)
    · next notFailure => exact absurd h (notFailure f c')
  | @otherwise p v hv =>
    intro c c' f h
    rw [Parser.otherwise, step] at h
    split at h
    · split at h
      · next e c₂ failed => exact absurd (congrArg Prod.fst failed) (outcome_ne_failure hv e)
      · next notFailure => exact absurd h (notFailure f c')
    · next notFailure => exact absurd h (notFailure f c')
  | orElse _ _ ihp ihq => exact orElse_rewound ihp ihq
  | choice _ ih => exact choice_rewound ih
  | suchThat accept rejection _ ih =>
    intro c c' f h
    rw [step] at h
    split at h
    · split at h <;> cases h
      rfl
    · exact ih h
  | error e _ ih =>
    intro c c' f h
    rw [Parser.error, step] at h
    split at h
    · next failed =>
      cases h
      exact ih failed
    · exact ih h
  | expecting description _ ih =>
    intro c c' f h
    rw [step] at h
    split at h
    · next failed =>
      cases h
      exact ih failed
    · exact ih h
  | trace label _ ih =>
    intro c c' f h
    rw [step] at h
    split at h
    · cases h
    · next failed =>
      have back := ih failed
      cases h
      exact back
    · exact ih h
  | withRange _ ih => exact withRange_rewound ih
  | many1 _ ih => exact many1_rewound ih
  | when condition _ ih =>
    cases condition with
    | true => exact ih
    | false =>
      intro c c' f h
      cases h
      rfl
  | map hf _ ih =>
    refine bind_rewound ih fun v c c' f h => ?_
    exact outcome_ne_failure (hf v) f (congrArg Prod.fst h)
  | @mapM p f hf _ ih =>
    refine bind_rewound ih fun v c c' e h => ?_
    split at h
    · next w transformed =>
      exact outcome_ne_failure (fun e' same => hf v e' (same ▸ transformed)) e (congrArg Prod.fst h)
    · cases h
  | rule hr => exact henter _ hr

/-! ## 2. Rules -/

variable {g : Grammar ρ} {trusted : ρ → Prop}

/-- A call of a trusted rule moves the cursor back where it fails. -/
theorem call_rewound (hg : g.RewindsOn trusted) (levels : Nat) (r : ρ) (hr : trusted r) :
    Rewound (g.call s levels r) := by
  induction levels generalizing r with
  | zero =>
    intro c c' f h
    cases h
  | succ levels ih =>
    intro c c' f h
    rw [Grammar.call] at h
    split at h
    · cases h
    · next guard entered =>
      cases stands : g r with
      | error e =>
        simp only [stands] at h
        cases h
      | ok p =>
        simp only [stands] at h
        have body : Rewound (p.step s (g.call s levels)) := step_rewound ih (hg r p hr stands)
        cases reached : p.step s (g.call s levels) ({ c with guard }.note (.entered r)) with
        | mk o c₁ =>
          rw [reached] at h
          cases h
          have back := body reached
          exact back

end RewindingLemmas

open RewindingLemmas

/-- A failure of a parser of the class reads nothing, whatever the source, the offset and the room in the guard: the
cursor stands where the parser started. The rules that the parser relies on need only stand for parsers of the class
over one another, so they may call each other and themselves. -/
theorem failure_rewinds {g : Grammar ρ} {s : Source} {trusted : ρ → Prop} (hg : g.RewindsOn trusted) {p : Parser ρ}
    (hp : p.Rewinds trusted) {c c' : Cursor ρ} {f : Failure} (failed : g.parse s p c = (.failure f, c')) :
    c'.index = c.index := by
  have called : ∀ r, trusted r → Rewound (g.call s c.guard.room r) := call_rewound hg c.guard.room
  have run : Rewound (p.step s (g.call s c.guard.room)) := step_rewound called hp
  exact run failed

/-- Lists of digits and lists in square brackets: the rule for `true` is a list, the one for `false` an item. -/
def digitLists : Grammar Bool
  | true => .ok (.sequence [Parser.char 0x5B, (Parser.rule false).many, Parser.char 0x5D])
  | false => .ok (.orElse (.rule true) Parser.digit)

/-- Behind `a`, two lists are opened and neither is closed. The parse fails where it started. -/
theorem digitLists_unclosed :
    digitLists.RewindsOn (fun _ => True) ∧ (Parser.rule true).Rewinds (fun _ => True) ∧
    ∃ c', digitLists.parse (.ofText (text "a[1[2")) (.rule true) ⟨1, .ofRequest 100, []⟩ =
        (.failure .plain, c') ∧ c'.index = 1 := by
  have closed : digitLists.RewindsOn fun _ => True := by
    intro r p _ stands
    cases r with
    | true =>
      cases stands
      exact .sequence _
    | false =>
      cases stands
      exact .orElse (.rule trivial) (.satisfy _)
  have failed : (digitLists.parse (.ofText (text "a[1[2")) (.rule true) ⟨1, .ofRequest 100, []⟩).1 =
      .failure .plain := by decide +kernel
  exact ⟨closed, .rule trivial, _, Prod.ext failed rfl, failure_rewinds closed (.rule trivial) (Prod.ext failed rfl)⟩

end Descent
