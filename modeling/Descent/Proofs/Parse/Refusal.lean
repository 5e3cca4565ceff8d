import Descent.Proofs.Parse.Frames

/-!
# Refused rules

A rule that would nest too deeply is refused, and a refusal is neither a success nor a failure. This module says which
rule calls a parse makes, as a relation of its own, and what becomes of the parse once one of them meets a full guard.

Results:
1. `refused_of_invokes`: the parse ends there. No combinator around the call turns the refusal into something else or
   moves the cursor back, and no rule is entered afterwards.
2. `exists_invokes_of_refused`: a parse is refused for no other reason.
3. `refusal_ends_parse`: both together, with the guard that every parser leaves as it was, and what a whole parse makes
   of a refusal.
-/

namespace Descent

variable {ρ : Type}

/-! ## Rule calls -/

/-- `g.Invokes s p c r c'`: while `p` runs from `c`, the rule `r` is called with the cursor at `c'`.

The rules follow the combinators: what runs first is called in any case (`attempt`, `first_bind` and their like), a
second parser only behind the outcome that leads to it (`next_bind`, `second_orElse`, `again_many`), and the parser that
a rule stands for (`body`) only where the guard lets the rule in. -/
inductive Grammar.Invokes (g : Grammar ρ) (s : Source) : Parser ρ → Cursor ρ → ρ → Cursor ρ → Prop
  | call {r : ρ} {c : Cursor ρ} : g.Invokes s (.rule r) c r c
  | body {r r' : ρ} {c c' : Cursor ρ} {guard : Guard} {p : Parser ρ} :
      c.guard.enter = some guard → g r = .ok p →
      g.Invokes s p ({ c with guard }.note (.entered r)) r' c' → g.Invokes s (.rule r) c r' c'
  | first_bind {p : Parser ρ} {next : Value → Parser ρ} {c c' : Cursor ρ} {r : ρ} :
      g.Invokes s p c r c' → g.Invokes s (.bind p next) c r c'
  | next_bind {p : Parser ρ} {next : Value → Parser ρ} {c c₁ c' : Cursor ρ} {v : Value} {r : ρ} :
      g.parse s p c = (.success v, c₁) → g.Invokes s (next v) c₁ r c' → g.Invokes s (.bind p next) c r c'
  | first_orElse {p q : Parser ρ} {c c' : Cursor ρ} {r : ρ} :
      g.Invokes s p c r c' → g.Invokes s (.orElse p q) c r c'
  | second_orElse {p q : Parser ρ} {c c₁ c' : Cursor ρ} {f : Failure} {r : ρ} :
      g.parse s p c = (.failure f, c₁) → g.Invokes s q c₁ r c' → g.Invokes s (.orElse p q) c r c'
  | attempt {p : Parser ρ} {c c' : Cursor ρ} {r : ρ} :
      g.Invokes s p c r c' → g.Invokes s (.attempt p) c r c'
  | suchThat {p : Parser ρ} {accept : Value → Bool} {rejection : Failure} {c c' : Cursor ρ} {r : ρ} :
      g.Invokes s p c r c' → g.Invokes s (.suchThat p accept rejection) c r c'
  | recover {p : Parser ρ} {fallback : Value} {c c' : Cursor ρ} {r : ρ} :
      g.Invokes s p c r c' → g.Invokes s (.recover p fallback) c r c'
  | expecting {p : Parser ρ} {description : Text} {c c' : Cursor ρ} {r : ρ} :
      g.Invokes s p c r c' → g.Invokes s (.expecting p description) c r c'
  | first_many {p : Parser ρ} {c c' : Cursor ρ} {r : ρ} :
      g.Invokes s p c r c' → g.Invokes s (.many p) c r c'
  | again_many {p : Parser ρ} {c c₁ c' : Cursor ρ} {v : Value} {r : ρ} :
      g.parse s p c = (.success v, c₁) → c₁.index ≠ c.index → g.Invokes s (.many p) c₁ r c' →
      g.Invokes s (.many p) c r c'
  | trace {p : Parser ρ} {label : Text} {c c' : Cursor ρ} {r : ρ} :
      g.Invokes s p c r c' → g.Invokes s (.trace p label) c r c'

/-- The cursor behind a refused call: where it was, with the refusal noted and the guard of the whole parse. -/
def Cursor.refusing (c : Cursor ρ) (r : ρ) (guard : Guard) : Cursor ρ :=
  { c.note (.refused r c.index) with guard }

namespace RefusalLemmas

variable {g : Grammar ρ} {s : Source} {p : Parser ρ} {c c' : Cursor ρ} {r : ρ}

theorem enter_eq_none_iff_isExceeded {guard : Guard} : guard.enter = none ↔ guard.isExceeded = true := by
  unfold Guard.enter
  split
  · next full => simp [full]
  · next free => simp [free]

theorem guard_of_parse {o : Outcome} (h : g.parse s p c = (o, c')) : c'.guard = c.guard := by
  have follows := Grammar.parse_follows (g := g) (s := s) p c
  rw [h] at follows
  exact follows.guard

/-! ## 1. A refusal is final -/

/-- Once a rule call meets a full guard, the parse that makes the call is refused, with the cursor and the log as they
were at the call. -/
theorem refused_of_invokes (called : g.Invokes s p c r c') (full : c'.guard.isExceeded = true) :
    g.parse s p c = (.refused, c'.refusing r c.guard) := by
  induction called with
  | call =>
    rw [Grammar.parse_rule, enter_eq_none_iff_isExceeded.mpr full]
    rfl
  | body entered stands _ ih =>
    rw [Grammar.parse_rule, entered]
    simp only [stands, ih full]
    rfl
  | first_bind _ ih => rw [Grammar.parse_bind, ih full]
  | next_bind reached _ ih =>
    rw [Grammar.parse_bind, reached]
    simp only [ih full, guard_of_parse reached]
  | first_orElse _ ih => rw [Grammar.parse_orElse, ih full]
  | second_orElse reached _ ih =>
    rw [Grammar.parse_orElse, reached]
    simp only [ih full, guard_of_parse reached]
  | attempt _ ih => rw [Grammar.parse_attempt, ih full]
  | suchThat _ ih => rw [Grammar.parse_suchThat, ih full]
  | recover _ ih => rw [Grammar.parse_recover, ih full]
  | expecting _ ih => rw [Grammar.parse_expecting, ih full]
  | first_many _ ih => rw [Grammar.parse_many, ih full]
  | again_many reached moved _ ih =>
    rw [Grammar.parse_many, reached]
    simp only [if_neg moved, ih full, guard_of_parse reached]
    rfl
  | trace _ ih => rw [Grammar.parse_trace, ih full]

/-! ## 2. Nothing else refuses a parse -/

/-- What `p` must do wherever the guard has a given room. -/
def Explained (g : Grammar ρ) (s : Source) (room : Nat) (p : Parser ρ) : Prop :=
  ∀ c : Cursor ρ, c.guard.room = room → (g.parse s p c).1 = .refused →
    ∃ r c', g.Invokes s p c r c' ∧ c'.guard.isExceeded = true

/-- One call of a rule, given that parsers one level deeper are explained. -/
theorem explained_rule {room : Nat} (deeper : ∀ n, n + 1 = room → ∀ p, Explained g s n p) (r : ρ) :
    Explained g s room (.rule r) := by
  intro c hroom refused
  rw [Grammar.parse_rule] at refused
  cases entered : c.guard.enter with
  | none => exact ⟨r, c, .call, enter_eq_none_iff_isExceeded.mp entered⟩
  | some guard =>
    rw [entered] at refused
    cases stands : g r with
    | error e => simp [stands] at refused
    | ok p =>
      simp only [stands] at refused
      have one_less : guard.room + 1 = room := by rw [← hroom, Guard.room_of_enter entered]
      obtain ⟨r', c', called, full⟩ := deeper guard.room one_less p _ rfl refused
      exact ⟨r', c', .body entered stands called, full⟩

/-- A repetition, given that the repeated parser is explained. The induction is on what is left unread, which gets
shorter with every application but the last one. -/
theorem explained_many {room : Nat} (hp : Explained g s room p) : Explained g s room (.many p) := by
  intro c hroom refused
  induction hleft : s.size - c.index using Nat.strongRecOn generalizing c with
  | ind left ih =>
    rw [Grammar.parse_many] at refused
    split at refused
    · next v c₁ reached =>
      split at refused
      · cases refused
      · next moved =>
        have follows := Grammar.parse_follows (g := g) (s := s) p c
        rw [reached] at follows
        have start := follows.start_le
        have ends := follows.le_end
        have guard := guard_of_parse reached
        have shorter : s.size - c₁.index < left := by simp only at start ends; omega
        obtain ⟨r, c', called, full⟩ := ih _ shorter c₁ (by rw [guard, hroom])
          (Outcome.prepend_eq_refused_iff.mp refused) rfl
        exact ⟨r, c', .again_many reached moved called, full⟩
    · cases refused
    · obtain ⟨r, c', called, full⟩ := hp c hroom refused
      exact ⟨r, c', .first_many called, full⟩

theorem explained (room : Nat) (p : Parser ρ) : Explained g s room p := by
  -- A rule stands for any parser, with less room: so the room comes first and the parser second.
  induction room using Nat.strongRecOn generalizing p with
  | ind room deeper =>
    induction p with
    | satisfy accept =>
      intro c _ refused
      rw [Grammar.parse, Parser.step] at refused
      split at refused
      · split at refused <;> cases refused
      · cases refused
    | literal t =>
      intro c _ refused
      rw [Grammar.parse, Parser.step] at refused
      split at refused <;> cases refused
    | span accept =>
      intro c _ refused
      cases refused
    | eof =>
      intro c _ refused
      simp only [Grammar.parse, Parser.step] at refused
      split at refused <;> cases refused
    | offset =>
      intro c _ refused
      cases refused
    | pure v =>
      intro c _ refused
      simp only [Grammar.parse, Parser.step, Value.outcome] at refused
      split at refused <;> cases refused
    | fault e =>
      intro c _ refused
      cases refused
    | bind p next ihp ihnext =>
      intro c hroom refused
      rw [Grammar.parse_bind] at refused
      split at refused
      · next v c₁ reached =>
        obtain ⟨r, c', called, full⟩ := ihnext v c₁ (by rw [guard_of_parse reached, hroom]) refused
        exact ⟨r, c', .next_bind reached called, full⟩
      · obtain ⟨r, c', called, full⟩ := ihp c hroom refused
        exact ⟨r, c', .first_bind called, full⟩
    | orElse p q ihp ihq =>
      intro c hroom refused
      rw [Grammar.parse_orElse] at refused
      split at refused
      · next f c₁ reached =>
        split at refused
        · cases refused
        · obtain ⟨r, c', called, full⟩ := ihq c₁ (by rw [guard_of_parse reached, hroom]) refused
          exact ⟨r, c', .second_orElse reached called, full⟩
      · obtain ⟨r, c', called, full⟩ := ihp c hroom refused
        exact ⟨r, c', .first_orElse called, full⟩
    | attempt p ih =>
      intro c hroom refused
      rw [Grammar.parse_attempt] at refused
      split at refused
      · cases refused
      · obtain ⟨r, c', called, full⟩ := ih c hroom refused
        exact ⟨r, c', .attempt called, full⟩
    | suchThat p accept rejection ih =>
      intro c hroom refused
      rw [Grammar.parse_suchThat] at refused
      split at refused
      · split at refused <;> cases refused
      · obtain ⟨r, c', called, full⟩ := ih c hroom refused
        exact ⟨r, c', .suchThat called, full⟩
    | recover p fallback ih =>
      intro c hroom refused
      rw [Grammar.parse_recover] at refused
      split at refused
      · simp only [Value.outcome] at refused
        split at refused <;> cases refused
      · obtain ⟨r, c', called, full⟩ := ih c hroom refused
        exact ⟨r, c', .recover called, full⟩
    | expecting p description ih =>
      intro c hroom refused
      rw [Grammar.parse_expecting] at refused
      split at refused
      · cases refused
      · obtain ⟨r, c', called, full⟩ := ih c hroom refused
        exact ⟨r, c', .expecting called, full⟩
    | many p ih => exact explained_many ih
    | trace p label ih =>
      intro c hroom refused
      rw [Grammar.parse_trace] at refused
      split at refused
      · cases refused
      · cases refused
      · obtain ⟨r, c', called, full⟩ := ih c hroom refused
        exact ⟨r, c', .trace called, full⟩
    | rule r => exact explained_rule (fun n hn => deeper n (by omega)) r

/-- A refused parse has called a rule under a full guard. -/
theorem exists_invokes_of_refused (refused : (g.parse s p c).1 = .refused) :
    ∃ r c', g.Invokes s p c r c' ∧ c'.guard.isExceeded = true :=
  explained c.guard.room p c rfl refused

end RefusalLemmas

open RefusalLemmas

/-! ## 3. Whole parses -/

/-- The guard is balanced and a refusal is final, for every parser over every set of rules.

* Whatever a parser comes to, the guard counts as many levels afterwards as before.
* A parse is refused exactly if one of the rule calls that it makes meets a full guard. The cursor then stands where
  that call was made, and the log ends with the refusal: nothing that the log held at the call is lost, and no rule is
  entered after it.
* A whole parse with such a call fails for being nested too deeply. The failure is located where the cursor stays, and
  no level is left open. If the interpreter has the frames for the parse, that is at the call. -/
theorem refusal_ends_parse (g : Grammar ρ) (s : Source) (p : Parser ρ) :
    (∀ c, (g.parse s p c).2.guard = c.guard) ∧
    (∀ c, (g.parse s p c).1 = .refused ↔ ∃ r c', g.Invokes s p c r c' ∧ c'.guard.isExceeded = true) ∧
    (∀ c r c', g.Invokes s p c r c' → c'.guard.isExceeded = true →
      (g.parse s p c).2.index = c'.index ∧ (g.parse s p c).2.events = .refused r c'.index :: c'.events) ∧
    (∀ (limits : Limits) r c', g.Invokes s p limits.start r c' → c'.guard.isExceeded = true →
      ∃ f, (g.run p limits s).ending = .failure f ∧ f.kind = .tooDeep ∧
        (f.diagnostic.bind Diagnostic.span).map Span.start = some (g.run p limits s).final.index ∧
        (g.run p limits s).final.guard.depth = 0 ∧
        (g.HasFrames p limits s → (g.run p limits s).final.index = c'.index)) := by
  refine ⟨fun c => (Grammar.parse_follows p c).guard, fun c => ⟨exists_invokes_of_refused, ?_⟩, ?_, ?_⟩
  · rintro ⟨r, c', called, full⟩
    rw [refused_of_invokes called full]
  · intro c r c' called full
    rw [refused_of_invokes called full]
    exact ⟨rfl, rfl⟩
  · intro limits r c' called full
    cases cut : g.cutOff? p limits s with
    | some c =>
      rw [Grammar.run_of_cutOff? cut]
      exact ⟨_, rfl, rfl, rfl, rfl, fun frames => absurd frames (Grammar.not_hasFrames_of_cutOff? cut)⟩
    | none =>
      rw [Grammar.run_of_hasFrames (Grammar.hasFrames_iff.mpr cut), refused_of_invokes called full]
      exact ⟨_, rfl, rfl, rfl, rfl, fun _ => rfl⟩

/-- A rule that calls itself before it reads anything, with a fallback value around the call. -/
def selfCall : Grammar Unit := fun _ => .ok ((Parser.rule ()).otherwise (.int 0))

/-- With one level allowed, the second call of `selfCall` is refused, and neither fallback value covers that up. -/
theorem selfCall_refused :
    (⟨1, 1⟩ : Guard).isExceeded = true ∧
    ∃ f, (selfCall.run ((Parser.rule ()).otherwise (.int 0)) { depth := 1 } (.ofText (text "x"))).ending = .failure f ∧
      f.kind = .tooDeep ∧ (f.diagnostic.bind Diagnostic.span).map Span.start = some 0 := by
  refine ⟨rfl, ?_⟩
  have entered : (Guard.ofRequest 1).enter = some ⟨1, 1⟩ := rfl
  have inner : selfCall.Invokes (.ofText (text "x")) ((Parser.rule ()).otherwise (.int 0))
      (Limits.start { depth := 1 }) () ⟨0, ⟨1, 1⟩, [.entered ()]⟩ :=
    .first_orElse (.body entered rfl (.first_orElse .call))
  obtain ⟨f, ending, kind, located, -, stops⟩ :=
    (refusal_ends_parse selfCall (.ofText (text "x")) ((Parser.rule ()).otherwise (.int 0))).2.2.2
      { depth := 1 } () _ inner rfl
  rw [stops (Grammar.hasFrames_of_steps rfl)] at located
  exact ⟨f, ending, kind, located⟩

end Descent
