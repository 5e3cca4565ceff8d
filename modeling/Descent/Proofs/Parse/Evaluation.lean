import Descent.Proofs.Parse.Equations

/-!
# Parsers as functions on text

A parser reads from the front of what is left of the source, so its effect can be said without offsets: it takes the
unread text to an outcome and the text that is then unread. Moving the cursor back means forgetting what was read.
`Parser.eval` says so for one parser with a given way to call rules, `Grammar.evalRule` for rules within a given room.

Results:
1. `eval_many_eq_success_iff`: a repetition collects exactly the chains of `Collects`.
2. `eval_cut`, `evalRule_cut_succ`: with more room a parser comes to the same, unless less room made it be refused.
-/

namespace Descent

variable {ρ : Type}

/-- An outcome and the text left unread. -/
abbrev Result := Outcome × Text

namespace Result

/-- The result of going on behind a success. -/
def andThen (r : Result) (next : Value → Text → Result) : Result :=
  match r with
  | (.success v, rest) => next v rest
  | r => r

/-- The result of going on behind a failure. -/
def orElse (r : Result) (next : Failure → Text → Result) : Result :=
  match r with
  | (.failure f, rest) => next f rest
  | r => r

@[simp] theorem andThen_success (v : Value) (t : Text) (next : Value → Text → Result) :
    andThen (.success v, t) next = next v t := rfl

@[simp] theorem andThen_failure (f : Failure) (t : Text) (next : Value → Text → Result) :
    andThen (.failure f, t) next = (.failure f, t) := rfl

@[simp] theorem andThen_refused (t : Text) (next : Value → Text → Result) :
    andThen (.refused, t) next = (.refused, t) := rfl

@[simp] theorem orElse_success (v : Value) (t : Text) (next : Failure → Text → Result) :
    orElse (.success v, t) next = (.success v, t) := rfl

@[simp] theorem orElse_failure (f : Failure) (t : Text) (next : Failure → Text → Result) :
    orElse (.failure f, t) next = next f t := rfl

@[simp] theorem orElse_refused (t : Text) (next : Failure → Text → Result) :
    orElse (.refused, t) next = (.refused, t) := rfl

theorem andThen_eq_success_iff {r : Result} {next : Value → Text → Result} {w : Value} {u : Text} :
    r.andThen next = (.success w, u) ↔ ∃ v t, r = (.success v, t) ∧ next v t = (.success w, u) := by
  obtain ⟨o, t⟩ := r
  cases o <;> simp [andThen, and_assoc]

theorem andThen_eq_failure_iff {r : Result} {next : Value → Text → Result} {f : Failure} {u : Text} :
    r.andThen next = (.failure f, u) ↔
      r = (.failure f, u) ∨ ∃ v t, r = (.success v, t) ∧ next v t = (.failure f, u) := by
  obtain ⟨o, t⟩ := r
  cases o <;> simp [andThen, and_assoc]

theorem orElse_eq_success_iff {r : Result} {next : Failure → Text → Result} {w : Value} {u : Text} :
    r.orElse next = (.success w, u) ↔
      r = (.success w, u) ∨ ∃ f t, r = (.failure f, t) ∧ next f t = (.success w, u) := by
  obtain ⟨o, t⟩ := r
  cases o <;> simp [orElse, and_assoc]

theorem orElse_eq_failure_iff {r : Result} {next : Failure → Text → Result} {f : Failure} {u : Text} :
    r.orElse next = (.failure f, u) ↔ ∃ e t, r = (.failure e, t) ∧ next e t = (.failure f, u) := by
  obtain ⟨o, t⟩ := r
  cases o <;> simp [orElse, and_assoc]

/-- A result that is a value or a failure: nothing was faulty, and no rule was refused. -/
def Settles (r : Result) : Prop := (∃ v, r.1 = .success v) ∨ ∃ f, r.1 = .failure f

theorem settles_success (v : Value) (t : Text) : Settles (.success v, t) := .inl ⟨v, rfl⟩

theorem settles_failure (f : Failure) (t : Text) : Settles (.failure f, t) := .inr ⟨f, rfl⟩

theorem Settles.andThen {r : Result} {next : Value → Text → Result} (h : r.Settles)
    (hnext : ∀ v t, (next v t).Settles) : (r.andThen next).Settles := by
  obtain ⟨o, t⟩ := r
  rcases h with ⟨v, rfl⟩ | ⟨f, rfl⟩
  · exact hnext v t
  · exact settles_failure f t

theorem Settles.orElse {r : Result} {next : Failure → Text → Result} (h : r.Settles)
    (hnext : ∀ f t, (next f t).Settles) : (r.orElse next).Settles := by
  obtain ⟨o, t⟩ := r
  rcases h with ⟨v, rfl⟩ | ⟨f, rfl⟩
  · exact settles_success v t
  · exact hnext f t

/-- A result of a rule that was refused. Nothing that follows is tried. -/
def Refused (r : Result) : Prop := r.1 = .refused

theorem Refused.andThen {r : Result} (h : r.Refused) (next : Value → Text → Result) : (r.andThen next).Refused := by
  obtain ⟨o, t⟩ := r
  cases h
  rfl

theorem Refused.orElse {r : Result} (h : r.Refused) (next : Failure → Text → Result) : (r.orElse next).Refused := by
  obtain ⟨o, t⟩ := r
  cases h
  rfl

end Result

/-! ## Evaluation -/

namespace Parser

/-- The values of a parser, applied until it fails or reads nothing. -/
def collect (once : Text → Result) (t : Text) : Result :=
  match once t with
  | (.success v, rest) =>
    if rest.length < t.length then ((collect once rest).1.prepend [v], (collect once rest).2)
    else (.success (.list [v]), rest)
  | (.failure _, rest) => (.success (.list []), rest)
  | result => result
termination_by t.length

/-- What a parser comes to in front of a text, with a way to call rules. -/
def eval (s : Source) (call : ρ → Text → Result) : Parser ρ → Text → Result
  | satisfy accept, t =>
    match t with
    | x :: rest => if accept x then (.success (.str [x]), rest) else (.failure .plain, x :: rest)
    | [] => (.failure .plain, [])
  | literal u, t => if u.isPrefixOf t then (.success (.str u), t.drop u.length) else (.failure .plain, t)
  | span accept, t => (.success (.str (t.takeWhile accept)), t.dropWhile accept)
  | eof, t => (if t.isEmpty then .success .none else .failure .plain, t)
  | offset, t => (.success (.int (s.size - t.length : Nat)), t)
  | pure v, t => (v.outcome, t)
  | fault e, t => (.fault e, t)
  | bind p next, t => (eval s call p t).andThen fun v rest => eval s call (next v) rest
  | orElse p q, t => (eval s call p t).orElse fun _ rest =>
    (eval s call q rest).orElse fun _ rest => (.failure .plain, rest)
  | attempt p, t => (eval s call p t).orElse fun f _ => (.failure f, t)
  | suchThat p accept rejection, t => (eval s call p t).andThen fun v rest =>
    if accept v then (.success v, rest) else (.failure rejection, t)
  | recover p fallback, t => (eval s call p t).orElse fun _ rest => (fallback.outcome, rest)
  | expecting p description, t => (eval s call p t).orElse fun _ rest =>
    (.failure (.expectedAt s description (s.size - t.length)), rest)
  | many p, t => collect (eval s call p) t
  | trace p _, t => eval s call p t
  | rule r, t => call r t

end Parser

/-- What a rule comes to in front of a text, with room for so many levels of nesting. -/
def Grammar.evalRule (g : Grammar ρ) (s : Source) : Nat → ρ → Text → Result
  | 0, _, t => (.refused, t)
  | room + 1, r, t =>
    match g r with
    | .ok p => p.eval s (g.evalRule s room) t
    | .error e => (.fault e, t)

namespace Parser

variable {s : Source} {call : ρ → Text → Result}

/-! ## Derived combinators -/

section Derived

variable (p q : Parser ρ) (t : Text)

@[simp] theorem eval_map (f : Value → Value) :
    (p.map f).eval s call t = (p.eval s call t).andThen fun v rest => ((f v).outcome, rest) := rfl

@[simp] theorem eval_const (w : Value) :
    (p.const w).eval s call t = (p.eval s call t).andThen fun _ rest => (w.outcome, rest) := rfl

@[simp] theorem eval_and :
    (p.and q).eval s call t = (p.eval s call t).andThen fun a rest =>
      (q.eval s call rest).andThen fun b rest => (.success (.tuple [a, b]), rest) := rfl

@[simp] theorem eval_left :
    (p.left q).eval s call t = (p.eval s call t).andThen fun a rest =>
      (q.eval s call rest).andThen fun _ rest => (a.outcome, rest) := rfl

@[simp] theorem eval_right :
    (p.right q).eval s call t = (p.eval s call t).andThen fun _ rest => q.eval s call rest := rfl

@[simp] theorem eval_bind (next : Value → Parser ρ) :
    (bind p next).eval s call t = (p.eval s call t).andThen fun v rest => (next v).eval s call rest := rfl

@[simp] theorem eval_orElse :
    (orElse p q).eval s call t = (p.eval s call t).orElse fun _ rest =>
      (q.eval s call rest).orElse fun _ rest => (.failure .plain, rest) := rfl

@[simp] theorem eval_attempt :
    (attempt p).eval s call t = (p.eval s call t).orElse fun f _ => (.failure f, t) := rfl

@[simp] theorem eval_suchThat (accept : Value → Bool) (rejection : Failure) :
    (suchThat p accept rejection).eval s call t = (p.eval s call t).andThen fun v rest =>
      if accept v then (.success v, rest) else (.failure rejection, t) := rfl

@[simp] theorem eval_optional (fallback : Value) :
    (p.optional fallback).eval s call t =
      (p.eval s call t).orElse fun _ rest => (fallback.outcome, rest) := rfl

@[simp] theorem eval_otherwise (v : Value) :
    (p.otherwise v).eval s call t = (p.eval s call t).orElse fun _ rest =>
      Result.orElse (v.outcome, rest) fun _ rest => (.failure .plain, rest) := rfl

end Derived

@[simp] theorem eval_pure (v : Value) (t : Text) : (pure v).eval s call t = (v.outcome, t) := rfl

@[simp] theorem eval_satisfy_cons (accept : CodePoint → Bool) (x : CodePoint) (t : Text) :
    (satisfy accept).eval s call (x :: t) =
      if accept x then (.success (.str [x]), t) else (.failure .plain, x :: t) := rfl

@[simp] theorem eval_satisfy_nil (accept : CodePoint → Bool) :
    (satisfy accept).eval s call [] = (.failure .plain, []) := rfl

@[simp] theorem eval_char_cons (c x : CodePoint) (t : Text) :
    (char c).eval s call (x :: t) =
      if x = c then (.success (.str [x]), t) else (.failure .plain, x :: t) := by
  rw [char, eval_satisfy_cons]
  simp only [beq_iff_eq]

@[simp] theorem eval_char_nil (c : CodePoint) : (char c).eval s call [] = (.failure .plain, []) := rfl

@[simp] theorem eval_one_cons (x : CodePoint) (t : Text) :
    one.eval s call (x :: t) = (.success (.str [x]), t) := rfl

@[simp] theorem eval_one_nil : one.eval s call [] = (.failure .plain, []) := rfl

/-- A code point that is read before it is looked at. -/
@[simp] theorem eval_one_suchThat_cons (accept : Value → Bool) (rejection : Failure) (x : CodePoint) (t : Text) :
    (one.suchThat accept rejection).eval s call (x :: t) =
      if accept (.str [x]) then (.success (.str [x]), t) else (.failure rejection, x :: t) := rfl

@[simp] theorem eval_one_suchThat_nil (accept : Value → Bool) (rejection : Failure) :
    (one.suchThat accept rejection).eval s call [] = (.failure .plain, []) := rfl

@[simp] theorem eval_span (accept : CodePoint → Bool) (t : Text) :
    (span accept).eval s call t = (.success (.str (t.takeWhile accept)), t.dropWhile accept) := rfl

@[simp] theorem eval_rule (r : ρ) (t : Text) : (rule r).eval s call t = call r t := rfl

theorem outcome_eq_success_iff {v w : Value} : v.outcome = .success w ↔ v = w ∧ v.outcome = .success v := by
  cases v <;> simp [Value.outcome]

/-- The first of two values comes out where both parsers succeed. -/
theorem eval_left_eq_success_iff {p q : Parser ρ} {t rest : Text} {v : Value} :
    (p.left q).eval s call t = (.success v, rest) ↔
      ∃ u w, p.eval s call t = (.success v, u) ∧ v.outcome = .success v ∧ q.eval s call u = (.success w, rest) := by
  rw [eval_left, Result.andThen_eq_success_iff]
  constructor
  · rintro ⟨v', u, first, h⟩
    obtain ⟨w, rest', second, h⟩ := Result.andThen_eq_success_iff.mp h
    rw [Prod.mk.injEq] at h
    obtain ⟨outcome, rfl⟩ := h
    obtain ⟨rfl, outcome⟩ := outcome_eq_success_iff.mp outcome
    exact ⟨u, w, first, outcome, second⟩
  · rintro ⟨u, w, first, outcome, second⟩
    exact ⟨v, u, first, by rw [second, Result.andThen_success, outcome]⟩

theorem eval_right_eq_success_iff {p q : Parser ρ} {t rest : Text} {v : Value} :
    (p.right q).eval s call t = (.success v, rest) ↔
      ∃ u w, p.eval s call t = (.success w, u) ∧ q.eval s call u = (.success v, rest) := by
  rw [eval_right, Result.andThen_eq_success_iff]
  constructor
  · rintro ⟨w, u, first, second⟩
    exact ⟨u, w, first, second⟩
  · rintro ⟨u, w, first, second⟩
    exact ⟨w, u, first, second⟩

/-- A run in front of a parser is skipped. -/
theorem eval_span_right (accept : CodePoint → Bool) (p : Parser ρ) (t : Text) :
    ((span accept).right p).eval s call t = p.eval s call (t.dropWhile accept) := rfl

/-- A run behind a parser is skipped. -/
theorem eval_left_span_eq_success_iff {p : Parser ρ} {accept : CodePoint → Bool} {t rest : Text} {v : Value} :
    (p.left (span accept)).eval s call t = (.success v, rest) ↔
      ∃ u, p.eval s call t = (.success v, u) ∧ v.outcome = .success v ∧ u.dropWhile accept = rest := by
  rw [eval_left_eq_success_iff]
  constructor
  · rintro ⟨u, w, read, outcome, skipped⟩
    cases skipped
    exact ⟨u, read, outcome, rfl⟩
  · rintro ⟨u, read, outcome, rfl⟩
    exact ⟨u, _, read, outcome, rfl⟩

theorem eval_and_eq_success_iff {p q : Parser ρ} {t rest : Text} {v : Value} :
    (p.and q).eval s call t = (.success v, rest) ↔
      ∃ u a b, p.eval s call t = (.success a, u) ∧ q.eval s call u = (.success b, rest) ∧ v = .tuple [a, b] := by
  rw [eval_and, Result.andThen_eq_success_iff]
  constructor
  · rintro ⟨a, u, first, h⟩
    obtain ⟨b, rest', second, h⟩ := Result.andThen_eq_success_iff.mp h
    cases h
    exact ⟨u, a, b, first, second, rfl⟩
  · rintro ⟨u, a, b, first, second, rfl⟩
    exact ⟨a, u, first, by rw [second, Result.andThen_success]⟩

theorem eval_map_eq_success_iff {p : Parser ρ} {f : Value → Value} {t rest : Text} {v : Value} :
    (p.map f).eval s call t = (.success v, rest) ↔
      ∃ w, p.eval s call t = (.success w, rest) ∧ v = f w ∧ (f w).outcome = .success (f w) := by
  rw [eval_map, Result.andThen_eq_success_iff]
  constructor
  · rintro ⟨w, u, read, h⟩
    rw [Prod.mk.injEq] at h
    obtain ⟨outcome, rfl⟩ := h
    obtain ⟨rfl, outcome⟩ := outcome_eq_success_iff.mp outcome
    exact ⟨w, read, rfl, outcome⟩
  · rintro ⟨w, read, rfl, outcome⟩
    exact ⟨w, rest, read, by rw [outcome]⟩

theorem eval_attempt_eq_success_iff {p : Parser ρ} {t rest : Text} {v : Value} :
    (attempt p).eval s call t = (.success v, rest) ↔ p.eval s call t = (.success v, rest) := by
  rw [eval_attempt, Result.orElse_eq_success_iff]
  refine ⟨?_, .inl⟩
  rintro (h | ⟨_, _, _, ⟨⟩⟩)
  exact h

/-- An optional part is read, or its replacement stands behind what the failed attempt has read. -/
theorem eval_optional_eq_success_iff {p : Parser ρ} {fallback : Value} {t rest : Text} {v : Value} :
    (p.optional fallback).eval s call t = (.success v, rest) ↔
      p.eval s call t = (.success v, rest) ∨
        (∃ f, p.eval s call t = (.failure f, rest)) ∧ v = fallback ∧ fallback.outcome = .success fallback := by
  rw [eval_optional, Result.orElse_eq_success_iff]
  refine or_congr_right ⟨?_, ?_⟩
  · rintro ⟨f, u, failed, h⟩
    rw [Prod.mk.injEq] at h
    obtain ⟨outcome, rfl⟩ := h
    obtain ⟨rfl, outcome⟩ := outcome_eq_success_iff.mp outcome
    exact ⟨⟨f, failed⟩, rfl, outcome⟩
  · rintro ⟨⟨f, failed⟩, rfl, outcome⟩
    exact ⟨f, rest, failed, by rw [outcome]⟩

theorem eval_suchThat_eq_success_iff {p : Parser ρ} {accept : Value → Bool} {rejection : Failure} {t rest : Text}
    {v : Value} :
    (suchThat p accept rejection).eval s call t = (.success v, rest) ↔
      p.eval s call t = (.success v, rest) ∧ accept v = true := by
  rw [eval_suchThat, Result.andThen_eq_success_iff]
  constructor
  · rintro ⟨w, u, read, h⟩
    split at h
    · next accepted =>
      cases h
      exact ⟨read, accepted⟩
    · cases h
  · rintro ⟨read, accepted⟩
    exact ⟨v, rest, read, if_pos accepted⟩

theorem eval_orElse_eq_success_iff {p q : Parser ρ} {t rest : Text} {v : Value} :
    (orElse p q).eval s call t = (.success v, rest) ↔
      p.eval s call t = (.success v, rest) ∨
        ∃ f t₁, p.eval s call t = (.failure f, t₁) ∧ q.eval s call t₁ = (.success v, rest) := by
  rw [eval_orElse, Result.orElse_eq_success_iff]
  simp only [Result.orElse_eq_success_iff]
  constructor
  · rintro (h | ⟨f, t₁, failed, h | ⟨_, _, _, ⟨⟩⟩⟩)
    · exact .inl h
    · exact .inr ⟨f, t₁, failed, h⟩
  · rintro (h | ⟨f, t₁, failed, h⟩)
    · exact .inl h
    · exact .inr ⟨f, t₁, failed, .inl h⟩

/-- A choice fails where its last alternative does. -/
theorem eval_orElse_eq_failure {p q : Parser ρ} {t rest : Text} {f : Failure}
    (h : (orElse p q).eval s call t = (.failure f, rest)) :
    ∃ e t₁ e', p.eval s call t = (.failure e, t₁) ∧ q.eval s call t₁ = (.failure e', rest) := by
  rw [eval_orElse, Result.orElse_eq_failure_iff] at h
  obtain ⟨e, t₁, failed, h⟩ := h
  obtain ⟨e', t₂, failed', h⟩ := Result.orElse_eq_failure_iff.mp h
  cases h
  exact ⟨e, t₁, e', failed, failed'⟩

/-- A parser leaves the text as it is wherever it fails. -/
def StaysPut (s : Source) (call : ρ → Text → Result) (p : Parser ρ) : Prop :=
  ∀ ⦃t rest f⦄, p.eval s call t = (.failure f, rest) → rest = t

theorem StaysPut.orElse {p q : Parser ρ} (hp : StaysPut s call p) (hq : StaysPut s call q) :
    StaysPut s call (orElse p q) := by
  intro t rest f h
  obtain ⟨_, t₁, _, failed, failed'⟩ := eval_orElse_eq_failure h
  rw [hq failed', hp failed]

/-- Alternatives that stay put are all tried in the same place. -/
theorem eval_choice_eq_success {ps : List (Parser ρ)} (stay : ∀ p ∈ ps, StaysPut s call p) {t rest : Text} {v : Value}
    (h : (choice ps).eval s call t = (.success v, rest)) : ∃ p ∈ ps, p.eval s call t = (.success v, rest) := by
  cases ps with
  | nil => cases h
  | cons p ps =>
    rw [choice] at h
    induction ps generalizing p with
    | nil => exact ⟨p, List.mem_cons_self .., h⟩
    | cons q ps ih =>
      have stayP := stay p (List.mem_cons_self ..)
      have stayQ := stay q (List.mem_cons_of_mem _ (List.mem_cons_self ..))
      have stayOthers : ∀ r ∈ orElse p q :: ps, StaysPut s call r := by
        intro r hr
        rcases List.mem_cons.mp hr with rfl | hr
        · exact stayP.orElse stayQ
        · exact stay r (List.mem_cons_of_mem _ (List.mem_cons_of_mem _ hr))
      obtain ⟨r, hr, read⟩ := ih (orElse p q) stayOthers h
      rcases List.mem_cons.mp hr with rfl | hr
      · rcases eval_orElse_eq_success_iff.mp read with first | ⟨_, t₁, failed, second⟩
        · exact ⟨p, List.mem_cons_self .., first⟩
        · rw [stayP failed] at second
          exact ⟨q, List.mem_cons_of_mem _ (List.mem_cons_self ..), second⟩
      · exact ⟨r, List.mem_cons_of_mem _ (List.mem_cons_of_mem _ hr), read⟩

/-- A literal is read where it stands. -/
theorem eval_literal_append (u t : Text) : (literal u).eval s call (u ++ t) = (.success (.str u), t) := by
  have stands : u.isPrefixOf (u ++ t) = true := List.isPrefixOf_iff_prefix.mpr (List.prefix_append u t)
  simp [eval, stands]

/-- A literal that is read stood there. -/
theorem eval_literal_eq_success {u t rest : Text} {v : Value}
    (h : (literal u).eval s call t = (.success v, rest)) : t = u ++ rest ∧ v = .str u := by
  rw [eval] at h
  split at h
  · next stands =>
    obtain ⟨more, rfl⟩ := List.isPrefixOf_iff_prefix.mp stands
    cases h
    simp
  · cases h

/-- A literal that is not read leaves the text as it is. -/
theorem eval_literal_eq_failure {u t rest : Text} {f : Failure}
    (h : (literal u).eval s call t = (.failure f, rest)) : rest = t := by
  rw [eval] at h
  split at h
  · cases h
  · cases h
    rfl

/-- A fixed word that stands for a value. -/
theorem word_sound {u t rest : Text} {v w : Value} (h : (const (.literal u) w).eval s call t = (.success v, rest))
    (outcome : w.outcome = .success w) : t = u ++ rest ∧ v = w := by
  rw [eval_const, Result.andThen_eq_success_iff] at h
  obtain ⟨_, t₁, read, h⟩ := h
  obtain ⟨rfl, -⟩ := eval_literal_eq_success read
  rw [outcome] at h
  cases h
  exact ⟨rfl, rfl⟩

theorem word_failure {u t rest : Text} {w : Value} {f : Failure}
    (h : (const (.literal u) w).eval s call t = (.failure f, rest)) (outcome : w.outcome = .success w) : rest = t := by
  rw [eval_const, Result.andThen_eq_failure_iff] at h
  rcases h with h | ⟨_, _, _, h⟩
  · exact eval_literal_eq_failure h
  · rw [outcome] at h
    cases h

/-- An accepted code point that is read stood there. -/
theorem eval_satisfy_eq_success {accept : CodePoint → Bool} {t rest : Text} {v : Value}
    (h : (satisfy accept).eval s call t = (.success v, rest)) :
    ∃ c, t = c :: rest ∧ accept c = true ∧ v = .str [c] := by
  cases t with
  | nil => simp at h
  | cons x more =>
    rw [eval_satisfy_cons] at h
    split at h
    · next accepted =>
      cases h
      exact ⟨x, rfl, accepted, rfl⟩
    · cases h

/-- A given code point that is read stood there. -/
theorem eval_char_eq_success {c : CodePoint} {t rest : Text} {v : Value}
    (h : (char c).eval s call t = (.success v, rest)) : t = c :: rest ∧ v = .str [c] := by
  obtain ⟨x, ht, same, hv⟩ := eval_satisfy_eq_success h
  obtain rfl : x = c := by simpa using same
  exact ⟨ht, hv⟩

/-- Where one code point is not accepted, none is read. -/
theorem eval_satisfy_eq_failure {accept : CodePoint → Bool} {t rest : Text} {f : Failure}
    (h : (satisfy accept).eval s call t = (.failure f, rest)) :
    rest = t ∧ ∀ c ∈ t.head?, accept c = false := by
  cases t with
  | nil =>
    cases h
    exact ⟨rfl, fun c hc => by cases hc⟩
  | cons x more =>
    rw [eval_satisfy_cons] at h
    split at h
    · cases h
    · next refused =>
      cases h
      exact ⟨rfl, fun c hc => by simp_all⟩

/-- A parser that moves back where it fails is then where it started. -/
theorem eval_attempt_eq_failure {p : Parser ρ} {t rest : Text} {f : Failure}
    (h : (attempt p).eval s call t = (.failure f, rest)) : rest = t := by
  rw [eval_attempt, Result.orElse_eq_failure_iff] at h
  obtain ⟨e, t', _, h⟩ := h
  cases h
  rfl

theorem eval_anyChar_cons (a b x : CodePoint) (t : Text) :
    (anyChar [a, b]).eval s call (x :: t) =
      if x = a ∨ x = b then (.success (.str [x]), t) else (.failure .plain, x :: t) := by
  rw [anyChar, List.map, List.map, choice, List.map, List.foldl, List.foldl, eval_orElse, eval_char_cons]
  by_cases first : x = a
  · simp [first]
  · by_cases second : x = b
    · subst second
      simp [first]
    · simp [first, second]

/-! ## Whole texts -/

theorem eval_expecting_eof (description : Text) (t : Text) :
    (expecting .eof description).eval s call t =
      (if t.isEmpty then .success .none else .failure (.expectedAt s description (s.size - t.length)), t) := by
  rw [eval, eval]
  split <;> rfl

/-- A parser with nothing allowed behind it succeeds where it reads the whole text. -/
theorem eval_left_eof_eq_success_iff {p : Parser ρ} {description t rest : Text} {v : Value} :
    (p.left (expecting .eof description)).eval s call t = (.success v, rest) ↔
      p.eval s call t = (.success v, []) ∧ v.outcome = .success v ∧ rest = [] := by
  rw [eval_left, Result.andThen_eq_success_iff]
  simp only [eval_expecting_eof]
  constructor
  · rintro ⟨w, u, read, behind⟩
    cases u with
    | cons c u => cases behind
    | nil =>
      simp only [List.isEmpty_nil, if_true, Result.andThen_success, Prod.mk.injEq] at behind
      obtain ⟨rfl, outcome⟩ := outcome_eq_success_iff.mp behind.1
      exact ⟨read, outcome, behind.2.symm⟩
  · rintro ⟨read, outcome, rfl⟩
    exact ⟨v, [], read, by simp only [List.isEmpty_nil, if_true, Result.andThen_success, outcome]⟩

/-! ## Repetition -/

/-- `Collects once t vs rest`: applied over and over from `t` on, `once` gives the values `vs` and leaves `rest`. The
last application is one that fails or one that reads nothing. -/
inductive Collects (once : Text → Result) : Text → List Value → Text → Prop
  | stop {t rest : Text} {f : Failure} : once t = (.failure f, rest) → Collects once t [] rest
  | last {t rest : Text} {v : Value} :
      once t = (.success v, rest) → ¬ rest.length < t.length → Collects once t [v] rest
  | more {t t₁ rest : Text} {v : Value} {vs : List Value} :
      once t = (.success v, t₁) → t₁.length < t.length → Collects once t₁ vs rest →
      Collects once t (v :: vs) rest

theorem collect_of_collects {once : Text → Result} {t rest : Text} {vs : List Value}
    (h : Collects once t vs rest) : collect once t = (.success (.list vs), rest) := by
  induction h with
  | stop failed => rw [collect, failed]
  | last read still => rw [collect, read]; simp only [if_neg still]
  | more read shorter _ ih => rw [collect, read]; simp only [if_pos shorter, ih]; rfl

theorem collects_of_collect {once : Text → Result} {t rest : Text} {w : Value}
    (h : collect once t = (.success w, rest)) : ∃ vs, w = .list vs ∧ Collects once t vs rest := by
  -- `collect` goes on with a shorter text, so the induction is on the length.
  induction hlen : t.length using Nat.strongRecOn generalizing t w with
  | ind n ih =>
    rw [collect] at h
    split at h
    · next v t₁ read =>
      split at h
      · next shorter =>
        cases hmore : collect once t₁ with
        | mk outcome rest₁ =>
          rw [hmore] at h
          cases outcome with
          | success w₁ =>
            obtain rfl : rest₁ = rest := congrArg Prod.snd h
            obtain ⟨vs, rfl, collects⟩ := ih t₁.length (hlen ▸ shorter) hmore rfl
            cases h
            exact ⟨v :: vs, rfl, .more read shorter collects⟩
          | failure f => cases h
          | fault e => cases h
          | refused => cases h
      · next still =>
        cases h
        exact ⟨[v], rfl, .last read still⟩
    · next failed =>
      cases h
      exact ⟨[], rfl, .stop failed⟩
    · next notSuccess _ => exact absurd h (notSuccess w rest)

/-- A refusal ends a repetition, wherever it comes. -/
theorem collect_refused {once : Text → Result} {t : Text} (h : (once t).Refused) : (collect once t).Refused := by
  cases read : once t with
  | mk o rest =>
    rw [read] at h
    cases h
    rw [collect, read]
    rfl

theorem collect_refused_later {once : Text → Result} {t rest : Text} {v : Value} (read : once t = (.success v, rest))
    (shorter : rest.length < t.length) (h : (collect once rest).Refused) : (collect once t).Refused := by
  rw [collect, read]
  simp only [if_pos shorter]
  exact Outcome.prepend_eq_refused_iff.mpr h

/-- A repetition collects exactly the chains of values. -/
theorem eval_many_eq_success_iff {p : Parser ρ} {t rest : Text} {w : Value} :
    (many p).eval s call t = (.success w, rest) ↔
      ∃ vs, w = .list vs ∧ Collects (p.eval s call) t vs rest := by
  refine ⟨collects_of_collect, ?_⟩
  rintro ⟨vs, rfl, collects⟩
  exact collect_of_collects collects

theorem collect_ne_failure {once : Text → Result} {t rest : Text} {f : Failure} :
    collect once t ≠ (.failure f, rest) := by
  intro h
  induction hlen : t.length using Nat.strongRecOn generalizing t with
  | ind n ih =>
    rw [collect] at h
    split at h
    · next v t₁ read =>
      split at h
      · next shorter =>
        rw [Prod.mk.injEq, Outcome.prepend_eq_failure_iff] at h
        exact ih t₁.length (hlen ▸ shorter) (Prod.ext h.1 h.2) rfl
      · cases h
    · cases h
    · next notFailure => exact notFailure f rest h

/-- A repetition does not fail. -/
theorem eval_many_ne_failure {p : Parser ρ} {t rest : Text} {f : Failure} :
    (many p).eval s call t ≠ (.failure f, rest) := collect_ne_failure

/-! ## Runs -/

/-- A text does not go on with an accepted code point. -/
def StopsAt (accept : CodePoint → Bool) (t : Text) : Prop := ∀ c ∈ t.head?, accept c = false

theorem stopsAt_nil (accept : CodePoint → Bool) : StopsAt accept [] := by
  intro c hc
  cases hc

theorem stopsAt_cons {accept : CodePoint → Bool} {c : CodePoint} {t : Text} :
    StopsAt accept (c :: t) ↔ accept c = false := by
  simp [StopsAt]

theorem stopsAt_dropWhile (accept : CodePoint → Bool) (t : Text) : StopsAt accept (t.dropWhile accept) := by
  intro c hc
  have head := List.head?_dropWhile_not accept t
  rw [Option.mem_def.mp hc] at head
  exact head

theorem takeWhile_of_stopsAt {accept : CodePoint → Bool} {t : Text} (stops : StopsAt accept t) :
    t.takeWhile accept = [] := by
  cases t with
  | nil => rfl
  | cons c t => simp [stopsAt_cons.mp stops]

theorem dropWhile_of_stopsAt {accept : CodePoint → Bool} {t : Text} (stops : StopsAt accept t) :
    t.dropWhile accept = t := by
  cases t with
  | nil => rfl
  | cons c t => simp [stopsAt_cons.mp stops]

/-- A run of accepted code points is taken as a whole if it stops there. -/
theorem takeWhile_append_of_stopsAt {accept : CodePoint → Bool} {run rest : Text} (all : ∀ c ∈ run, accept c = true)
    (stops : StopsAt accept rest) : (run ++ rest).takeWhile accept = run := by
  rw [List.takeWhile_append_of_pos all, takeWhile_of_stopsAt stops, List.append_nil]

theorem dropWhile_append_of_stopsAt {accept : CodePoint → Bool} {run rest : Text} (all : ∀ c ∈ run, accept c = true)
    (stops : StopsAt accept rest) : (run ++ rest).dropWhile accept = rest := by
  rw [List.dropWhile_append_of_pos all, dropWhile_of_stopsAt stops]

/-- The code points of a run, one by one. -/
theorem eval_many_satisfy (accept : CodePoint → Bool) (t : Text) :
    (many (satisfy accept)).eval s call t =
      (.success (.list ((t.takeWhile accept).map fun c => .str [c])), t.dropWhile accept) := by
  induction t with
  | nil => rw [eval, collect]; rfl
  | cons c t ih =>
    rw [eval] at ih ⊢
    rw [collect, eval_satisfy_cons, List.takeWhile_cons, List.dropWhile_cons]
    cases accept c with
    | true => simp [ih, Outcome.prepend]
    | false => simp

/-- The code points of a run make up the run. -/
theorem joinedText_map_str (run : Text) : (Value.list (run.map fun c => .str [c])).joinedText = run := by
  show (run.map fun c => Value.str [c]).flatMap Value.asText = run
  induction run with
  | nil => rfl
  | cons c run ih => rw [List.map_cons, List.flatMap_cons, ih]; rfl

theorem joined_map_str (run : Text) : (Value.list (run.map fun c => .str [c])).joined = .str run :=
  congrArg Value.str (joinedText_map_str run)

/-! ## Sequences -/

theorem eval_chain_nil (t : Text) : (chain []).eval s call t = (.success (.list []), t) := rfl

theorem eval_chain_cons (p : Parser ρ) (ps : List (Parser ρ)) (t : Text) :
    (chain (p :: ps)).eval s call t = (p.eval s call t).andThen fun v rest =>
      ((chain ps).eval s call rest).andThen fun w rest => ((consValue v w).outcome, rest) := rfl

/-- The value of a chain is a list. -/
theorem exists_list_of_eval_chain {ps : List (Parser ρ)} {t rest : Text} {w : Value}
    (h : (chain ps).eval s call t = (.success w, rest)) : ∃ vs, w = .list vs := by
  induction ps generalizing t w rest with
  | nil =>
    cases h
    exact ⟨[], rfl⟩
  | cons p ps ih =>
    rw [eval_chain_cons, Result.andThen_eq_success_iff] at h
    obtain ⟨v, t₁, _, h⟩ := h
    obtain ⟨w₁, t₂, more, h⟩ := Result.andThen_eq_success_iff.mp h
    obtain ⟨vs, rfl⟩ := ih more
    cases h
    exact ⟨v :: vs, rfl⟩

/-- A chain that starts with a parser succeeds where that parser does and the others go on behind it. -/
theorem eval_chain_cons_eq_success_iff {p : Parser ρ} {ps : List (Parser ρ)} {t rest : Text} {w : Value} :
    (chain (p :: ps)).eval s call t = (.success w, rest) ↔
      ∃ v t₁ vs, p.eval s call t = (.success v, t₁) ∧ (chain ps).eval s call t₁ = (.success (.list vs), rest) ∧
        w = .list (v :: vs) := by
  rw [eval_chain_cons, Result.andThen_eq_success_iff]
  constructor
  · rintro ⟨v, t₁, first, h⟩
    obtain ⟨w₁, t₂, more, h⟩ := Result.andThen_eq_success_iff.mp h
    obtain ⟨vs, rfl⟩ := exists_list_of_eval_chain more
    cases h
    exact ⟨v, t₁, vs, first, more, rfl⟩
  · rintro ⟨v, t₁, vs, first, more, rfl⟩
    exact ⟨v, t₁, first, by rw [more]; rfl⟩

/-! ## Settled results -/

theorem settles_outcome (v : Value) (t : Text) : Result.Settles (v.outcome, t) := by
  cases v with
  | failure f => exact Result.settles_failure f t
  | _ => exact Result.settles_success _ t

theorem settles_satisfy (accept : CodePoint → Bool) (t : Text) : ((satisfy accept).eval s call t).Settles := by
  cases t with
  | nil => exact Result.settles_failure ..
  | cons x t =>
    rw [eval_satisfy_cons]
    split
    · exact Result.settles_success ..
    · exact Result.settles_failure ..

/-- A repetition of what settles collects values. -/
theorem settles_collect {once : Text → Result} (h : ∀ t, (once t).Settles) (t : Text) : (collect once t).Settles := by
  induction hlen : t.length using Nat.strongRecOn generalizing t with
  | ind n ih =>
    rw [collect]
    split
    · next v rest _ =>
      split
      · next shorter =>
        rcases ih rest.length (hlen ▸ shorter) rest rfl with ⟨w, collected⟩ | ⟨f, failed⟩
        · obtain ⟨vs, rfl, -⟩ := collects_of_collect (Prod.ext collected rfl)
          rw [collected]
          exact Result.settles_success ..
        · exact absurd (show collect once rest = (.failure f, _) from Prod.ext failed rfl) collect_ne_failure
      · exact Result.settles_success ..
    · exact Result.settles_success ..
    · exact h t

/-! ## Room -/

/-- `Cut a b`: the result `a` was cut off by a refusal, or it is the result `b`. -/
def Cut (a b : Result) : Prop := a.1 = .refused ∨ a = b

namespace Cut

theorem refl (a : Result) : Cut a a := .inr rfl

theorem trans {a b c : Result} (hab : Cut a b) (hbc : Cut b c) : Cut a c := by
  rcases hab with refused | rfl
  · exact .inl refused
  · exact hbc

theorem andThen {a b : Result} {next next' : Value → Text → Result} (h : Cut a b)
    (hnext : ∀ v t, Cut (next v t) (next' v t)) : Cut (a.andThen next) (b.andThen next') := by
  rcases h with refused | rfl
  · obtain ⟨o, t⟩ := a
    subst refused
    exact .inl rfl
  · obtain ⟨o, t⟩ := a
    cases o with
    | success v => exact hnext v t
    | failure f => exact .refl _
    | fault e => exact .refl _
    | refused => exact .refl _

theorem orElse {a b : Result} {next next' : Failure → Text → Result} (h : Cut a b)
    (hnext : ∀ f t, Cut (next f t) (next' f t)) : Cut (a.orElse next) (b.orElse next') := by
  rcases h with refused | rfl
  · obtain ⟨o, t⟩ := a
    subst refused
    exact .inl rfl
  · obtain ⟨o, t⟩ := a
    cases o with
    | success v => exact .refl _
    | failure f => exact hnext f t
    | fault e => exact .refl _
    | refused => exact .refl _

end Cut

theorem collect_cut {once once' : Text → Result} (h : ∀ t, Cut (once t) (once' t)) (t : Text) :
    Cut (collect once t) (collect once' t) := by
  induction hlen : t.length using Nat.strongRecOn generalizing t with
  | ind n ih =>
    rw [collect, collect]
    rcases h t with refused | same
    · cases honce : once t with
      | mk o rest =>
        rw [honce] at refused
        subst refused
        exact .inl rfl
    · rw [← same]
      split
      · next v rest read =>
        split
        · next shorter =>
          rcases ih rest.length (hlen ▸ shorter) rest rfl with refused | same
          · exact .inl (Outcome.prepend_eq_refused_iff.mpr refused)
          · exact .inr (by rw [same])
        · exact .refl _
      · exact .refl _
      · exact .refl _

/-- A parser that calls rules with more room comes to the same, unless it was refused. -/
theorem eval_cut {call call' : ρ → Text → Result} (h : ∀ r t, Cut (call r t) (call' r t)) (p : Parser ρ) (t : Text) :
    Cut (p.eval s call t) (p.eval s call' t) := by
  induction p generalizing t with
  | satisfy accept => exact .refl _
  | literal u => exact .refl _
  | span accept => exact .refl _
  | eof => exact .refl _
  | offset => exact .refl _
  | pure v => exact .refl _
  | fault e => exact .refl _
  | bind p next ihp ihnext => exact (ihp t).andThen ihnext
  | orElse p q ihp ihq => exact (ihp t).orElse fun _ rest => (ihq rest).orElse fun _ _ => .refl _
  | attempt p ih => exact (ih t).orElse fun _ _ => .refl _
  | suchThat p accept rejection ih => exact (ih t).andThen fun _ _ => .refl _
  | recover p fallback ih => exact (ih t).orElse fun _ _ => .refl _
  | expecting p description ih => exact (ih t).orElse fun _ _ => .refl _
  | many p ih => exact collect_cut ih t
  | trace p label ih => exact ih t
  | rule r => exact h r t

end Parser

namespace Grammar

variable {g : Grammar ρ} {s : Source}

/-- One more level of room changes nothing but refusals. -/
theorem evalRule_cut_succ (room : Nat) (r : ρ) (t : Text) :
    Parser.Cut (g.evalRule s room r t) (g.evalRule s (room + 1) r t) := by
  induction room generalizing r t with
  | zero => exact .inl rfl
  | succ room ih =>
    rw [evalRule, evalRule]
    cases g r with
    | error e => exact .refl _
    | ok p => exact Parser.eval_cut ih p t

end Grammar
end Descent
