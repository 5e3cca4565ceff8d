import Descent.Parse.Run
import Descent.Proofs.Diagnostic.Reports
import Descent.Proofs.Parse.Machine

/-!
# Parses that are cut off

The frames of the interpreter may not last for a whole parse. Where they do, the parse ends as `Grammar.parse` says.
Where they do not, it is cut off at a moment of its course and fails there, as if rules had nested too deeply.

Results:
1. `Grammar.run_of_hasFrames`, `Grammar.run_of_cutOff?`: how a whole parse ends, with and without the frames for it.
   `Grammar.ending_of_refused` and `Grammar.ending_of_cutOff?` are the two endings that report depth.
2. `FrameLemmas.leads_of_cutOff?`: a parse is cut off at a moment of its course.
-/

namespace Descent

variable {ρ : Type} {g : Grammar ρ} {p : Parser ρ} {s : Source} {limits : Limits} {c : Cursor ρ}

namespace Grammar

/-! ## 1. Endings -/

theorem hasFrames_iff : g.HasFrames p limits s ↔ g.cutOff? p limits s = none := Option.isNone_iff_eq_none

theorem not_hasFrames_of_cutOff? (ended : g.cutOff? p limits s = some c) : ¬ g.HasFrames p limits s := by
  rw [hasFrames_iff, ended]
  exact nofun

/-- An interpreter whose frames last for every step has the frames for every parse. -/
theorem hasFrames_of_steps (unbounded : limits.interpreter.steps = none) : g.HasFrames p limits s := by
  rw [hasFrames_iff, cutOff?, unbounded, Option.bind_none]

theorem run_of_hasFrames (frames : g.HasFrames p limits s) :
    g.run p limits s = (g.parse s p limits.start).run limits s := by
  rw [run, hasFrames_iff.mp frames]

theorem run_of_cutOff? (ended : g.cutOff? p limits s = some c) : g.run p limits s = c.cutOffRun limits s := by
  rw [run, ended]

theorem run_source : (g.run p limits s).source = s := by
  rw [run]
  cases g.cutOff? p limits s <;> rfl

/-- A parse that is refused reports the limit on nesting, and the offset at which it stopped. -/
theorem ending_of_refused (frames : g.HasFrames p limits s) (refused : (g.parse s p limits.start).1 = .refused) :
    (g.run p limits s).ending = .failure (.tooDeepAt s limits.granted (g.run p limits s).final.index) := by
  have kept : (g.parse s p limits.start).2.guard = limits.guard := (parse_follows p limits.start).guard
  rw [run_of_hasFrames frames]
  cases reached : g.parse s p limits.start with
  | mk o c =>
    rw [reached] at refused kept
    cases refused
    have limit : c.guard.limit = limits.granted := congrArg Guard.limit kept
    rw [Reply.run, Reply.ending, limit]

/-- A parse that is cut off reports the limit on nesting, and the offset at which it stood. -/
theorem ending_of_cutOff? (ended : g.cutOff? p limits s = some c) :
    (g.run p limits s).ending = .failure (.tooDeepAt s limits.granted c.index) ∧
      (g.run p limits s).final.index = c.index := by
  rw [run_of_cutOff? ended]
  exact ⟨rfl, rfl⟩

end Grammar

/-! ## 2. Moments -/

namespace FrameLemmas

open Grammar

/-- What is cut off is a moment of the course. The induction is on the number of steps. -/
theorem leads_of_cutOff {steps : Nat} {m : Moment ρ} (ended : g.cutOff s steps m = some c) :
    ∃ m', g.Leads s m m' ∧ m'.cursor? = some c := by
  induction steps generalizing m with
  | zero =>
    obtain ⟨_, -, here⟩ := Option.bind_eq_some_iff.mp ended
    exact ⟨m, .refl, here⟩
  | succ steps ih =>
    obtain ⟨next, step, later⟩ := Option.bind_eq_some_iff.mp ended
    obtain ⟨m', course, there⟩ := ih later
    exact ⟨m', MachineLemmas.leads_of_next step course, there⟩

theorem leads_of_cutOff? (ended : g.cutOff? p limits s = some c) :
    ∃ m, g.Leads s (p.firstMoment limits) m ∧ m.cursor? = some c := by
  obtain ⟨_, -, ended⟩ := Option.bind_eq_some_iff.mp ended
  exact leads_of_cutOff ended

end FrameLemmas
end Descent
