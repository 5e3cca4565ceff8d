import Descent.Proofs.Parse.Sequences

/-!
# All or nothing

A sequence gives the values of all of its parsers or moves the cursor back to where it started. So it does not matter
where a sequence is cut in two: the two parts under one attempt come to the same, although a part that fails first moves
back to its own start and only then to that of the whole.

Results:
1. `Grammar.Passes`, `Grammar.Breaks`: the two ways that a row of parsers can go.
2. `parse_sequence_of_passes`, `parse_sequence_of_breaks`: what a sequence makes of them.
3. `parse_sequence_append`: sequences cut in two.
4. `sequence_laws`: all of this, and repetitions of one parser.
-/

namespace Descent

variable {ρ : Type}

/-! ## 1. Rows of parsers -/

/-- The parsers all succeed, each one from where the one before it has stopped, with these values. -/
inductive Grammar.Passes (g : Grammar ρ) (s : Source) :
    List (Parser ρ) → Cursor ρ → List Value → Cursor ρ → Prop
  | nil {c : Cursor ρ} : g.Passes s [] c [] c
  | cons {p : Parser ρ} {ps : List (Parser ρ)} {c c₁ c₂ : Cursor ρ} {v : Value} {vs : List Value} :
      g.parse s p c = (.success v, c₁) → g.Passes s ps c₁ vs c₂ → g.Passes s (p :: ps) c (v :: vs) c₂

/-- One of the parsers does not succeed, behind others that do. The reply is its own. -/
inductive Grammar.Breaks (g : Grammar ρ) (s : Source) : List (Parser ρ) → Cursor ρ → Reply ρ → Prop
  | here {p : Parser ρ} {ps : List (Parser ρ)} {c : Cursor ρ} {reply : Reply ρ} :
      g.parse s p c = reply → ¬ reply.1.Succeeds → g.Breaks s (p :: ps) c reply
  | later {p : Parser ρ} {ps : List (Parser ρ)} {c c₁ : Cursor ρ} {v : Value} {reply : Reply ρ} :
      g.parse s p c = (.success v, c₁) → g.Breaks s ps c₁ reply → g.Breaks s (p :: ps) c reply

/-- The reply with the cursor moved to an offset if it is a failure. A fault and a refusal leave the cursor alone. -/
def Reply.backTo (start : Nat) : Reply ρ → Reply ρ
  | (.failure f, c) => (.failure f, c.moveTo start)
  | reply => reply

/-- Two lists in a pair, one behind the other. -/
def Value.concat : Value → Value
  | .tuple [.list first, .list second] => .list (first ++ second)
  | other => other

/-- Two parsers in a row under one attempt, with their lists one behind the other. -/
def Parser.joint (p q : Parser ρ) : Parser ρ := .attempt ((p.and q).map Value.concat)

namespace Grammar

variable {g : Grammar ρ} {s : Source} {ps qs : List (Parser ρ)} {c c₁ c₂ : Cursor ρ} {vs ws : List Value}
  {reply : Reply ρ}

/-- A row goes through or breaks. -/
theorem passes_or_breaks (g : Grammar ρ) (s : Source) (ps : List (Parser ρ)) (c : Cursor ρ) :
    (∃ vs c₁, g.Passes s ps c vs c₁) ∨ ∃ reply, g.Breaks s ps c reply := by
  induction ps generalizing c with
  | nil => exact .inl ⟨[], c, .nil⟩
  | cons p ps ih =>
    cases first : g.parse s p c with
    | mk o c₁ =>
      cases o with
      | success v =>
        rcases ih c₁ with ⟨vs, c₂, passes⟩ | ⟨reply, breaks⟩
        · exact .inl ⟨v :: vs, c₂, .cons first passes⟩
        · exact .inr ⟨reply, .later first breaks⟩
      | _ => exact .inr ⟨_, .here first nofun⟩

theorem Passes.append (passes : g.Passes s ps c vs c₁) (others : g.Passes s qs c₁ ws c₂) :
    g.Passes s (ps ++ qs) c (vs ++ ws) c₂ := by
  induction passes with
  | nil => exact others
  | cons first _ ih => exact .cons first (ih others)

theorem Passes.breaks (passes : g.Passes s ps c vs c₁) (breaks : g.Breaks s qs c₁ reply) :
    g.Breaks s (ps ++ qs) c reply := by
  induction passes with
  | nil => exact breaks
  | cons first _ ih => exact .later first (ih breaks)

theorem Breaks.append (breaks : g.Breaks s ps c reply) (qs : List (Parser ρ)) : g.Breaks s (ps ++ qs) c reply := by
  induction breaks with
  | here first stopped => exact .here first stopped
  | later first _ ih => exact .later first ih

theorem Passes.length (passes : g.Passes s ps c vs c₁) : vs.length = ps.length := by
  induction passes with
  | nil => rfl
  | cons _ _ ih => exact congrArg Nat.succ ih

theorem Breaks.not_succeeds (breaks : g.Breaks s ps c reply) : ¬ reply.1.Succeeds := by
  induction breaks with
  | here _ stopped => exact stopped
  | later _ _ ih => exact ih

end Grammar

namespace RowLemmas

open Descent.Parser SequenceLemmas

variable {g : Grammar ρ} {s : Source} {p q : Parser ρ} {ps qs : List (Parser ρ)} {c c₁ c₂ : Cursor ρ}
  {vs ws : List Value} {reply : Reply ρ}

/-! ## 2. Sequences -/

theorem backTo_backTo (start between : Nat) (reply : Reply ρ) :
    (reply.backTo between).backTo start = reply.backTo start := by
  obtain ⟨o, c⟩ := reply
  cases o <;> rfl

theorem backTo_fst (start : Nat) (reply : Reply ρ) : (reply.backTo start).1 = reply.1 := by
  obtain ⟨o, c⟩ := reply
  cases o <;> rfl

theorem parse_attempt_eq (p : Parser ρ) (c : Cursor ρ) : g.parse s (.attempt p) c = (g.parse s p c).backTo c.index := by
  rw [Grammar.parse_attempt]
  cases g.parse s p c with
  | mk o c₁ => cases o <;> rfl

theorem parse_sequence_of_passes (passes : g.Passes s ps c vs c₁) :
    g.parse s (Parser.sequence ps) c = (.success (.list vs), c₁) := by
  refine parse_sequence_of_success ?_
  induction passes with
  | nil => rfl
  | cons first _ ih => exact parse_chain_of_success first ih

theorem parse_sequence_of_breaks (breaks : g.Breaks s ps c reply) :
    g.parse s (Parser.sequence ps) c = reply.backTo c.index := by
  have row : g.parse s (chain ps) c = reply := by
    induction breaks with
    | here first stopped => exact parse_chain_of_not_succeeds first stopped
    | later first breaks ih => exact parse_chain_of_later first ih breaks.not_succeeds
  rw [Parser.sequence, parse_attempt_eq, row]

theorem parse_sequence_eq_success_iff {v : Value} :
    g.parse s (Parser.sequence ps) c = (.success v, c₁) ↔ ∃ vs, v = .list vs ∧ g.Passes s ps c vs c₁ := by
  constructor
  · intro parsed
    rcases Grammar.passes_or_breaks g s ps c with ⟨vs, c₂, passes⟩ | ⟨reply, breaks⟩
    · cases (parse_sequence_of_passes passes).symm.trans parsed
      exact ⟨vs, rfl, passes⟩
    · have outcome := congrArg Prod.fst ((parse_sequence_of_breaks breaks).symm.trans parsed)
      rw [backTo_fst] at outcome
      exact absurd ⟨v, outcome⟩ breaks.not_succeeds
  · rintro ⟨vs, rfl, passes⟩
    exact parse_sequence_of_passes passes

/-! ## 3. Sequences cut in two -/

theorem parse_joint_of_success {a b : List Value} (first : g.parse s p c = (.success (.list a), c₁))
    (second : g.parse s q c₁ = (.success (.list b), c₂)) :
    g.parse s (p.joint q) c = (.success (.list (a ++ b)), c₂) := by
  have both : g.parse s (p.and q) c = (.success (.tuple [.list a, .list b]), c₂) := by
    rw [Parser.and, parse_bind_of_success first, map, parse_bind_of_success second]
    rfl
  rw [joint, parse_attempt_eq, map, parse_bind_of_success both]
  rfl

theorem parse_joint_of_first (first : g.parse s p c = reply) (stopped : ¬ reply.1.Succeeds) :
    g.parse s (p.joint q) c = reply.backTo c.index := by
  rw [joint, parse_attempt_eq]
  exact congrArg _ (parse_bind_of_not_succeeds (parse_bind_of_not_succeeds first stopped) stopped)

theorem parse_joint_of_second {v : Value} (first : g.parse s p c = (.success v, c₁)) (second : g.parse s q c₁ = reply)
    (stopped : ¬ reply.1.Succeeds) : g.parse s (p.joint q) c = reply.backTo c.index := by
  have both : g.parse s (p.and q) c = reply :=
    (parse_bind_of_success first).trans (parse_bind_of_not_succeeds second stopped)
  rw [joint, parse_attempt_eq]
  exact congrArg _ (parse_bind_of_not_succeeds both stopped)

/-- A sequence may be cut in two anywhere. -/
theorem parse_sequence_append (ps qs : List (Parser ρ)) (c : Cursor ρ) :
    g.parse s (Parser.sequence (ps ++ qs)) c = g.parse s ((Parser.sequence ps).joint (Parser.sequence qs)) c := by
  rcases Grammar.passes_or_breaks g s ps c with ⟨vs, c₁, passes⟩ | ⟨reply, breaks⟩
  · have first := parse_sequence_of_passes passes
    rcases Grammar.passes_or_breaks g s qs c₁ with ⟨ws, c₂, others⟩ | ⟨reply, breaks⟩
    · rw [parse_joint_of_success first (parse_sequence_of_passes others)]
      exact parse_sequence_of_passes (passes.append others)
    · -- The second part has moved back to its own start before the whole moves back.
      have stopped : ¬ (reply.backTo c₁.index).1.Succeeds := backTo_fst c₁.index reply ▸ breaks.not_succeeds
      rw [parse_joint_of_second first (parse_sequence_of_breaks breaks) stopped, backTo_backTo]
      exact parse_sequence_of_breaks (passes.breaks breaks)
  · have stopped : ¬ (reply.backTo c.index).1.Succeeds := backTo_fst c.index reply ▸ breaks.not_succeeds
    rw [parse_joint_of_first (parse_sequence_of_breaks breaks) stopped, backTo_backTo]
    exact parse_sequence_of_breaks (breaks.append qs)

theorem parse_times_add (p : Parser ρ) (m n : Nat) (c : Cursor ρ) :
    g.parse s (p.times (m + n)) c = g.parse s ((p.times m).joint (p.times n)) c := by
  have copies : List.replicate (m + n) p = List.replicate m p ++ List.replicate n p :=
    List.replicate_append_replicate.symm
  rw [times, copies, parse_sequence_append]
  rfl

end RowLemmas

open RowLemmas

/-- A sequence is all or nothing, over every set of rules, on every source and from every cursor.

* It succeeds exactly if all of its parsers do in turn, with the list of their values, behind the last of them.
* If they do not, it comes to what the first one that does not succeed comes to, and a failure moves the cursor back to
  the start. A fault and a refusal end the sequence where they arise.
* Cut in two anywhere, it comes to the same as both parts under one attempt, down to the log. So do repetitions of a
  parser, whatever their numbers add up to.
* What comes of so many repetitions is a list of so many values, a failure at the start, or the reply of a repetition
  that a fault or a refusal cuts short. -/
theorem sequence_laws (g : Grammar ρ) (s : Source) (c : Cursor ρ) :
    (∀ ps v c', g.parse s (.sequence ps) c = (.success v, c') ↔ ∃ vs, v = .list vs ∧ g.Passes s ps c vs c') ∧
    (∀ ps, (¬ ∃ vs c', g.Passes s ps c vs c') →
      ∃ reply, g.Breaks s ps c reply ∧ g.parse s (.sequence ps) c = reply.backTo c.index) ∧
    (∀ ps qs, g.parse s (.sequence (ps ++ qs)) c = g.parse s ((Parser.sequence ps).joint (.sequence qs)) c) ∧
    (∀ (p : Parser ρ) m n, g.parse s (p.times (m + n)) c = g.parse s ((p.times m).joint (p.times n)) c) ∧
    (∀ (p : Parser ρ) n,
      (∃ vs c', vs.length = n ∧ g.parse s (p.times n) c = (.success (.list vs), c')) ∨
      (∃ f c', c'.index = c.index ∧ g.parse s (p.times n) c = (.failure f, c')) ∨
      ¬ (g.parse s (p.times n) c).1.Succeeds ∧ ¬ (g.parse s (p.times n) c).1.Fails) := by
  refine ⟨fun _ _ _ => parse_sequence_eq_success_iff, fun ps stuck => ?_, fun ps qs => parse_sequence_append ps qs c,
    fun p m n => parse_times_add p m n c, fun p n => ?_⟩
  · rcases Grammar.passes_or_breaks g s ps c with passes | ⟨reply, breaks⟩
    · exact absurd passes stuck
    · exact ⟨reply, breaks, parse_sequence_of_breaks breaks⟩
  · rcases Grammar.passes_or_breaks g s (List.replicate n p) c with ⟨vs, c', passes⟩ | ⟨⟨o, c'⟩, breaks⟩
    · exact .inl ⟨vs, c', passes.length.trans List.length_replicate, parse_sequence_of_passes passes⟩
    · have parsed : g.parse s (p.times n) c = Reply.backTo c.index (o, c') := parse_sequence_of_breaks breaks
      cases o with
      | success v => exact absurd ⟨v, rfl⟩ breaks.not_succeeds
      | failure f => exact .inr (.inl ⟨f, c'.moveTo c.index, rfl, parsed⟩)
      | _ => exact .inr (.inr ⟨parsed ▸ nofun, parsed ▸ nofun⟩)

/-- Three digits are asked for behind the letter of `x12`, and only two are there: the sequence fails at its start. Two
digits are read. -/
theorem digits_all_or_nothing :
    let g : Grammar Empty := nofun
    let s : Source := .ofText (text "x12")
    let c : Cursor Empty := ⟨1, .ofRequest 1, []⟩
    (¬ ∃ vs c', g.Passes s [.digit, .digit, .digit] c vs c') ∧
    (∃ reply, g.Breaks s [.digit, .digit, .digit] c reply ∧
      g.parse s (.sequence [.digit, .digit, .digit]) c = reply.backTo 1) ∧
    g.Passes s [.digit, .digit] c [.str (text "1"), .str (text "2")] (c.moveTo 3) ∧
    g.parse s (.sequence [.digit, .digit]) c =
      (.success (.list [.str (text "1"), .str (text "2")]), c.moveTo 3) := by
  intro g s c
  obtain ⟨succeeds, breaks, -⟩ := sequence_laws g s c
  have stuck : ¬ ∃ vs c', g.Passes s [.digit, .digit, .digit] c vs c' := by
    rintro ⟨vs, c', passes⟩
    have parsed := (succeeds [.digit, .digit, .digit] (.list vs) c').mpr ⟨vs, rfl, passes⟩
    cases parsed
  have both : g.Passes s [.digit, .digit] c [.str (text "1"), .str (text "2")] (c.moveTo 3) :=
    .cons rfl (.cons rfl .nil)
  exact ⟨stuck, breaks _ stuck, both, (succeeds _ _ _).mpr ⟨_, rfl, both⟩⟩

end Descent
