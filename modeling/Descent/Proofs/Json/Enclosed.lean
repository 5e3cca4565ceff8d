import Descent.Proofs.Json.Tokens

/-!
# Lists between brackets

Arrays and objects are built alike: brackets around a comma-separated list that may be missing. What a parser of that
shape does is said once, in terms of what its items do.

Results:
1. `enclosed_sound`, `enclosed_failure`: what a parser between brackets has read.
2. `listed_sound`, `listed_failure`: what a comma-separated list has read.
3. `enclosed_reads`, `listed_reads`: the other direction.
4. `enclosed_refused`, `listed_refused`: where a rule is refused inside.
-/

namespace Descent.Json

open Descent.Parser

/-- A list between brackets, or a fixed value for none. -/
def enclosed (opening closing : CodePoint) (inner : Parser Rule) (fallback : Value) : Parser Rule :=
  (((char opening).right ((inner.attempt.optional .absent).map (·.orElse fallback))).left ws).left (char closing)

/-- One item or more, parted by commas. -/
def listed (item : Parser Rule) : Parser Rule := item.and (many ((char 0x2C).right item).attempt)

theorem array_eq_enclosed : array = enclosed 0x5B 0x5D ((listed value).map .consPair) (.list []) := rfl

theorem object_eq_enclosed :
    object = enclosed 0x7B 0x7D
      ((listed member).map fun pairs => .ofPairs (pairs.consPair.items.map Value.asEntry)) (.dict []) := rfl

variable {s : Source} {call : Rule → Text → Result}

/-! ## Lists -/

section Listed

variable {item : Parser Rule}

theorem listed_sound {t rest : Text} {v : Value} (h : (listed item).eval s call t = (.success v, rest)) :
    ∃ a vs t₁, item.eval s call t = (.success a, t₁) ∧
      Collects (((char 0x2C).right item).attempt.eval s call) t₁ vs rest ∧ v = .tuple [a, .list vs] := by
  obtain ⟨t₁, a, w, first, others, rfl⟩ := eval_and_eq_success_iff.mp h
  obtain ⟨vs, rfl, collects⟩ := eval_many_eq_success_iff.mp others
  exact ⟨a, vs, t₁, first, collects, rfl⟩

/-- A list fails where its first item does. -/
theorem listed_failure {t rest : Text} {f : Failure} (h : (listed item).eval s call t = (.failure f, rest)) :
    item.eval s call t = (.failure f, rest) := by
  rw [listed, eval_and, Result.andThen_eq_failure_iff] at h
  rcases h with h | ⟨a, t₁, -, h⟩
  · exact h
  · rcases Result.andThen_eq_failure_iff.mp h with h | ⟨_, _, _, h⟩
    · exact absurd h eval_many_ne_failure
    · cases h

theorem listed_reads {t t₁ rest : Text} {a : Value} {vs : List Value} (first : item.eval s call t = (.success a, t₁))
    (others : Collects (((char 0x2C).right item).attempt.eval s call) t₁ vs rest) :
    (listed item).eval s call t = (.success (.tuple [a, .list vs]), rest) := by
  rw [listed, eval_and, first, Result.andThen_success, eval_many_eq_success_iff.mpr ⟨vs, rfl, others⟩,
    Result.andThen_success]

/-- One more item behind its comma. -/
theorem separated_sound {t rest : Text} {v : Value}
    (h : ((char 0x2C).right item).attempt.eval s call t = (.success v, rest)) :
    ∃ u, t = 0x2C :: u ∧ item.eval s call u = (.success v, rest) := by
  obtain ⟨u, _, comma, read⟩ := eval_right_eq_success_iff.mp (eval_attempt_eq_success_iff.mp h)
  obtain ⟨rfl, -⟩ := eval_char_eq_success comma
  exact ⟨u, rfl, read⟩

theorem separated_reads {u rest : Text} {v : Value} (h : item.eval s call u = (.success v, rest)) :
    ((char 0x2C).right item).attempt.eval s call (0x2C :: u) = (.success v, rest) := by
  rw [eval_attempt, eval_right, eval_char_cons, if_pos rfl, Result.andThen_success, h, Result.orElse_success]

/-- Without a comma there are no more items. -/
theorem separated_stops {c : CodePoint} (other : c ≠ 0x2C) (t : Text) :
    ((char 0x2C).right item).attempt.eval s call (c :: t) = (.failure .plain, c :: t) := by
  rw [eval_attempt, eval_right, eval_char_cons, if_neg other]
  rfl

/-- A list is refused if its first item is, or a later one. -/
theorem listed_refused {t : Text} (h : (item.eval s call t).Refused) : ((listed item).eval s call t).Refused := by
  rw [listed, eval_and]
  exact h.andThen _

theorem listed_refused_later {t t₁ : Text} {a : Value} (first : item.eval s call t = (.success a, t₁))
    (others : (collect (((char 0x2C).right item).attempt.eval s call) t₁).Refused) :
    ((listed item).eval s call t).Refused := by
  rw [listed, eval_and, first, Result.andThen_success]
  exact others.andThen _

theorem separated_refused {u : Text} (h : (item.eval s call u).Refused) :
    (((char 0x2C).right item).attempt.eval s call (0x2C :: u)).Refused := by
  rw [eval_attempt, eval_right, eval_char_cons, if_pos rfl, Result.andThen_success]
  exact h.orElse _

end Listed

/-! ## Brackets -/

section Enclosed

variable {opening closing : CodePoint} {inner : Parser Rule} {fallback : Value}

/-- What may stand between the brackets: what the parser of the list reads, or nothing, where that parser fails. -/
def Between (inner : Text → Result) (fallback : Value) (t : Text) (v : Value) (rest : Text) : Prop :=
  inner t = (.success v, rest) ∨ (∃ f u, inner t = (.failure f, u)) ∧ v = fallback ∧ rest = t

/-- Neither the parser nor its replacement gives a failure as a value, or the value for nothing. -/
structure Solid (inner : Text → Result) (fallback : Value) : Prop where
  outcome : ∀ {t v rest}, inner t = (.success v, rest) → v.outcome = .success v ∧ v ≠ .absent
  fallback : fallback.outcome = .success fallback

theorem orElse_of_ne_absent {v : Value} (h : v ≠ .absent) (w : Value) : v.orElse w = v := by
  cases v <;> first | rfl | exact absurd rfl h

theorem eval_inner (solid : Solid (inner.eval s call) fallback) (t : Text) :
    ((inner.attempt.optional .absent).map (·.orElse fallback)).eval s call t =
      (inner.eval s call t).orElse fun _ _ => (.success fallback, t) := by
  rw [eval_map, eval_optional, eval_attempt]
  cases read : inner.eval s call t with
  | mk o u =>
    cases o with
    | success v =>
      obtain ⟨outcome, present⟩ := solid.outcome read
      simp only [Result.orElse_success, Result.andThen_success, orElse_of_ne_absent present, outcome]
    | failure f =>
      show (fallback.outcome, t) = _
      rw [solid.fallback]
      rfl
    | fault e => rfl
    | refused => rfl

theorem between_iff {t rest : Text} {v : Value} :
    (inner.eval s call t).orElse (fun _ _ => (.success fallback, t)) = (.success v, rest) ↔
      Between (inner.eval s call) fallback t v rest := by
  rw [Result.orElse_eq_success_iff, Between]
  refine or_congr_right ⟨?_, ?_⟩
  · rintro ⟨f, u, failed, h⟩
    cases h
    exact ⟨⟨f, u, failed⟩, rfl, rfl⟩
  · rintro ⟨⟨f, u, failed⟩, rfl, rfl⟩
    exact ⟨f, u, failed, rfl⟩

theorem Between.outcome (solid : Solid (inner.eval s call) fallback) {t rest : Text} {v : Value}
    (h : Between (inner.eval s call) fallback t v rest) : v.outcome = .success v := by
  rcases h with read | ⟨-, rfl, -⟩
  · exact (solid.outcome read).1
  · exact solid.fallback

/-- Up to the closing bracket, the opening bracket, the list and white space are read. -/
theorem opened_sound (solid : Solid (inner.eval s call) fallback) {t u : Text} {v : Value}
    (h : (((char opening).right ((inner.attempt.optional .absent).map (·.orElse fallback))).left ws).eval s call t =
      (.success v, u)) :
    ∃ t₁ t₂, t = opening :: t₁ ∧ Between (inner.eval s call) fallback t₁ v t₂ ∧ u = t₂.dropWhile isWhitespace := by
  obtain ⟨t₂, opened, -, rfl⟩ := eval_left_span_eq_success_iff.mp h
  obtain ⟨t₁, _, bracket, read⟩ := eval_right_eq_success_iff.mp opened
  obtain ⟨rfl, -⟩ := eval_char_eq_success bracket
  exact ⟨t₁, t₂, rfl, between_iff.mp ((eval_inner solid t₁).symm.trans read), rfl⟩

/-- What is read between brackets is followed by white space and the closing bracket. -/
theorem enclosed_sound (solid : Solid (inner.eval s call) fallback) {t rest : Text} {v : Value}
    (h : (enclosed opening closing inner fallback).eval s call t = (.success v, rest)) :
    ∃ t₁ t₂, t = opening :: t₁ ∧ Between (inner.eval s call) fallback t₁ v t₂ ∧
      t₂.dropWhile isWhitespace = closing :: rest := by
  obtain ⟨u, _, opened, -, bracket⟩ := eval_left_eq_success_iff.mp h
  obtain ⟨t₁, t₂, rfl, between, rfl⟩ := opened_sound solid opened
  exact ⟨t₁, t₂, rfl, between, (eval_char_eq_success bracket).1⟩

/-- Brackets that are not read leave the cursor where it was, or where the closing bracket is missing. -/
theorem enclosed_failure (solid : Solid (inner.eval s call) fallback) {t rest : Text} {f : Failure}
    (h : (enclosed opening closing inner fallback).eval s call t = (.failure f, rest)) :
    rest = t ∨ ∃ v t₁ t₂, t = opening :: t₁ ∧ Between (inner.eval s call) fallback t₁ v t₂ ∧
      rest = t₂.dropWhile isWhitespace := by
  rw [enclosed, eval_left, Result.andThen_eq_failure_iff] at h
  rcases h with h | ⟨v, u, opened, close⟩
  · -- The list and the white space never fail, so the opening bracket is missing.
    rw [eval_left, Result.andThen_eq_failure_iff] at h
    rcases h with h | ⟨v, t₂, h, blanks⟩
    · rw [eval_right, Result.andThen_eq_failure_iff] at h
      rcases h with h | ⟨_, t₁, -, h⟩
      · exact .inl (eval_satisfy_eq_failure h).1
      · rw [eval_inner solid, Result.orElse_eq_failure_iff] at h
        obtain ⟨_, _, _, ⟨⟩⟩ := h
    · obtain ⟨t₁, _, -, read⟩ := eval_right_eq_success_iff.mp h
      have between := between_iff.mp ((eval_inner solid t₁).symm.trans read)
      rw [ws, eval_span, Result.andThen_success, between.outcome solid] at blanks
      cases blanks
  · obtain ⟨t₁, t₂, rfl, between, rfl⟩ := opened_sound solid opened
    rcases Result.andThen_eq_failure_iff.mp close with missing | ⟨_, _, _, h⟩
    · exact .inr ⟨v, t₁, t₂, rfl, between, (eval_satisfy_eq_failure missing).1⟩
    · rw [between.outcome solid] at h
      cases h

/-- Something between brackets is read with them. -/
theorem enclosed_reads (solid : Solid (inner.eval s call) fallback) {t₁ t₂ rest : Text} {v : Value}
    (between : Between (inner.eval s call) fallback t₁ v t₂) (stops : t₂.dropWhile isWhitespace = closing :: rest) :
    (enclosed opening closing inner fallback).eval s call (opening :: t₁) = (.success v, rest) := by
  have outcome := between.outcome solid
  rw [enclosed, eval_left, eval_left, eval_right, eval_char_cons, if_pos rfl, Result.andThen_success, eval_inner solid,
    between_iff.mpr between, Result.andThen_success, ws, eval_span, Result.andThen_success, outcome,
    Result.andThen_success, stops, eval_char_cons, if_pos rfl, Result.andThen_success, outcome]

/-- Behind the opening bracket, a refusal is final: there is no going on without the list. -/
theorem enclosed_refused {t : Text} (h : (inner.eval s call t).Refused) :
    ((enclosed opening closing inner fallback).eval s call (opening :: t)).Refused := by
  rw [enclosed, eval_left, eval_left, eval_right, eval_char_cons, if_pos rfl, Result.andThen_success, eval_map,
    eval_optional, eval_attempt]
  exact (((((h.orElse _).orElse _).andThen _).andThen _).andThen _)

/-- Without its opening bracket nothing is read. -/
theorem enclosed_of_other {t : Text} (other : ∀ c ∈ t.head?, c ≠ opening) :
    (enclosed opening closing inner fallback).eval s call t = (.failure .plain, t) := by
  rw [enclosed, eval_left, eval_left, eval_right]
  cases t with
  | nil => rfl
  | cons c t =>
    rw [eval_char_cons, if_neg (other c rfl)]
    rfl

end Enclosed

end Descent.Json
