import Descent.Proofs.Parse.Provenance

/-!
# Parsers in a row

What a row of parsers comes to, from what its first parser and the others come to. A row goes on behind a success and
nowhere else: any other reply, be it a failure, a fault or the refusal of a rule, is the reply of the whole row. In a
sequence a failure has moved the cursor back to the start of the row as well.

Results:
1. `parse_bind_of_success`, `parse_bind_of_not_succeeds`: one parser behind another.
2. `parse_chain_of_success`, `parse_chain_of_not_succeeds`: rows.
3. `parse_sequence_of_success`, `parse_sequence_of_failure`, `parse_sequence_of_abort`: sequences.
-/

namespace Descent.SequenceLemmas

open Descent.Parser

variable {ρ : Type} {g : Grammar ρ} {s : Source} {p : Parser ρ} {ps : List (Parser ρ)} {next : Value → Parser ρ}
  {c c₁ : Cursor ρ} {v : Value} {f : Failure} {reply : Reply ρ}

/-! ## 1. One parser behind another -/

theorem not_succeeds_failure : ¬ (Outcome.failure f).Succeeds := by
  rintro ⟨v, ⟨⟩⟩

theorem parse_bind_of_success (first : g.parse s p c = (.success v, c₁)) :
    g.parse s (.bind p next) c = g.parse s (next v) c₁ := by
  rw [Grammar.parse_bind, first]

theorem parse_bind_of_not_succeeds (first : g.parse s p c = reply) (stopped : ¬ reply.1.Succeeds) :
    g.parse s (.bind p next) c = reply := by
  obtain ⟨o, c'⟩ := reply
  rw [Grammar.parse_bind, first]
  cases o with
  | success v => exact absurd ⟨v, rfl⟩ stopped
  | _ => rfl

/-! ## 2. Rows -/

/-- The values of the others stand behind the first one. -/
theorem parse_chain_of_success {vs : List Value} {c₂ : Cursor ρ} (first : g.parse s p c = (.success v, c₁))
    (others : g.parse s (chain ps) c₁ = (.success (.list vs), c₂)) :
    g.parse s (chain (p :: ps)) c = (.success (.list (v :: vs)), c₂) := by
  rw [chain, parse_bind_of_success first, map, parse_bind_of_success others]
  rfl

theorem parse_chain_of_not_succeeds (first : g.parse s p c = reply) (stopped : ¬ reply.1.Succeeds) :
    g.parse s (chain (p :: ps)) c = reply :=
  parse_bind_of_not_succeeds first stopped

theorem parse_chain_of_later (first : g.parse s p c = (.success v, c₁)) (others : g.parse s (chain ps) c₁ = reply)
    (stopped : ¬ reply.1.Succeeds) : g.parse s (chain (p :: ps)) c = reply := by
  rw [chain, parse_bind_of_success first]
  exact parse_bind_of_not_succeeds others stopped

/-! ## 3. Sequences -/

theorem parse_sequence_of_success (row : g.parse s (chain ps) c = (.success v, c₁)) :
    g.parse s (Parser.sequence ps) c = (.success v, c₁) := by
  rw [Parser.sequence, Grammar.parse_attempt, row]

theorem parse_sequence_of_failure (row : g.parse s (chain ps) c = (.failure f, c₁)) :
    g.parse s (Parser.sequence ps) c = (.failure f, c₁.moveTo c.index) := by
  rw [Parser.sequence, Grammar.parse_attempt, row]

theorem parse_sequence_of_abort (row : g.parse s (chain ps) c = reply) (aborted : ¬ reply.1.Fails) :
    g.parse s (Parser.sequence ps) c = reply := by
  obtain ⟨o, c'⟩ := reply
  rw [Parser.sequence, Grammar.parse_attempt, row]
  cases o with
  | failure f => exact absurd ⟨f, rfl⟩ aborted
  | _ => rfl

end Descent.SequenceLemmas
