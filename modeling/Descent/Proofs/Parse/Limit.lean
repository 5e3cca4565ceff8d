import Descent.Proofs.Parse.Refusal

/-!
# What a limit on nesting does

A limit on nesting cuts parses short and does nothing else. No combinator looks at the limit; a rule call does, but only
to be refused. So two runs of one parser, each under a limit of its own, keep in step until one of them is refused, or
until the frames of the interpreter are used up. That happens to both of them at once, and each of them reports the
limit that it was given.

Results:
1. `next_raise`, `leads_raise`: under a higher limit the machine takes the same steps, as long as no rule is refused.
2. `cutOff_raise`, `cutOff_raise_eq_none`: so the frames last for as many steps.
3. `limit_only_limits`: whole parses under two limits.
4. `endless_shows_limits`: where the frames are used up, the limits show.
-/

namespace Descent

variable {ρ : Type}

/-- No rule call was refused so far. -/
def Cursor.Unrefused (c : Cursor ρ) : Prop := ∀ r i, .refused r i ∉ c.events

/-- No rule call was refused in the course of a whole parse. -/
def Run.Unrefused (run : Run ρ) : Prop := run.final.Unrefused

/-- Two whole parses take the same course. -/
structure Run.SameCourse (a b : Run ρ) : Prop where
  index : a.final.index = b.final.index
  /-- The same rules were put together, in the same order. -/
  rules : a.final.rules = b.final.rules
  traces : a.final.traces = b.final.traces

/-- What two limits, of which the second is not lower, make of one whole parse in which the first refuses no rule. -/
structure Grammar.OnlyLimited (g : Grammar ρ) (s : Source) (p : Parser ρ) (limits limits' : Limits) : Prop where
  course : (g.run p limits s).SameCourse (g.run p limits' s)
  unrefused : (g.run p limits' s).Unrefused
  frames : g.HasFrames p limits s ↔ g.HasFrames p limits' s
  /-- The same value, the same failure or the same fault. -/
  ending : g.HasFrames p limits s → (g.run p limits s).ending = (g.run p limits' s).ending
  /-- Without the frames for it, the parse is cut off at the same offset, and reports the limit that it was given. -/
  depth : ¬ g.HasFrames p limits s → ∃ i f f',
    (g.run p limits s).ending = .failure f ∧ f.ReportsDepth s i limits.granted ∧
    (g.run p limits' s).ending = .failure f' ∧ f'.ReportsDepth s i limits'.granted

/-! ## Raised limits -/

/-- The guard with a limit that is `more` levels higher. -/
def Guard.raise (more : Nat) (guard : Guard) : Guard := { guard with limit := guard.limit + more }

def Cursor.raise (more : Nat) (c : Cursor ρ) : Cursor ρ := { c with guard := c.guard.raise more }

def Moment.raise (more : Nat) : Moment ρ → Moment ρ
  | .run p c stack => .run p (c.raise more) stack
  | .scan accept stop c stack => .scan accept stop (c.raise more) stack
  | .back reply stack => .back (reply.1, reply.2.raise more) stack
  | .broken b => .broken b

open MachineLemmas RefusalLemmas

namespace LimitLemmas

variable {g : Grammar ρ} {s : Source} {p : Parser ρ} {limits limits' : Limits} {more : Nat} {m m' : Moment ρ}
  {c c' : Cursor ρ}

/-! ## 1. Steps under two limits -/

/-- Where there is room, there is room under a higher limit. -/
theorem enter_raise {guard : Guard} (roomy : guard.isExceeded = false) :
    (guard.raise more).enter = guard.enter.map (Guard.raise more) := by
  have below : ¬ guard.limit ≤ guard.depth := of_decide_eq_false roomy
  have raised : (guard.raise more).isExceeded = false :=
    decide_eq_false fun (h : guard.limit + (more : Int) ≤ guard.depth) => below (by omega)
  rw [Guard.enter, Guard.enter, roomy, raised]
  rfl

/-- Every parser starts in the same way, but for a rule call that is refused. -/
theorem begin_raise (p : Parser ρ) (c : Cursor ρ) (stack : List (Waiting ρ))
    (roomy : ∀ r, p = .rule r → c.guard.isExceeded = false) :
    g.begin s p (c.raise more) stack = (g.begin s p c stack).raise more := by
  cases p with
  | satisfy accept =>
    rw [Grammar.begin, Grammar.begin, show (c.raise more).index = c.index from rfl]
    split
    · cases s.get? c.index with
      | none => rfl
      | some x =>
        simp only [Moment.raise]
        split <;> rfl
    · rfl
  | literal t =>
    simp only [Grammar.begin, Moment.raise, show (c.raise more).index = c.index from rfl]
    split <;> rfl
  | rule r =>
    rw [Grammar.begin, Grammar.begin, show (c.raise more).guard = c.guard.raise more from rfl,
      enter_raise (roomy r rfl)]
    cases c.guard.enter with
    | none => rfl
    | some guard => cases g r <;> rfl
  | _ => rfl

theorem scan_raise (accept : CodePoint → Bool) (stop : Nat) (c : Cursor ρ) (stack : List (Waiting ρ)) :
    s.scan accept stop (c.raise more) stack = (s.scan accept stop c stack).raise more := by
  rw [Source.scan, Source.scan]
  split
  · cases s.get? stop with
    | none => rfl
    | some x =>
      simp only
      split <;> rfl
  · rfl

theorem resume_raise (w : Waiting ρ) (o : Outcome) (c : Cursor ρ) (stack : List (Waiting ρ)) :
    w.resume s (o, c.raise more) stack = (w.resume s (o, c) stack).raise more := by
  obtain ⟨start, task⟩ := w
  cases task with
  | suchThat accept rejection =>
    cases o with
    | success v =>
      simp only [Waiting.resume, Moment.raise]
      split <;> rfl
    | _ => rfl
  | many p calls turn values =>
    cases o with
    | success v =>
      simp only [Waiting.resume, show (c.raise more).index = c.index from rfl]
      split <;> rfl
    | _ => rfl
  | expecting description =>
    cases o with
    | failure f =>
      simp only [Waiting.resume, Span.locate_self, Moment.ofSpan]
      rfl
    | _ => rfl
  | rule =>
    have left : (c.raise more).guard.leave = c.guard.leave.raise more := rfl
    cases o <;> simp only [Waiting.resume, left] <;> rfl
  | _ => cases o <;> rfl

/-- A step that does not refuse a rule is taken under a higher limit, too. -/
theorem next_raise (step : g.next s m = some m') (unrefused : ∀ c, m'.cursor? = some c → c.Unrefused) :
    g.next s (m.raise more) = some (m'.raise more) := by
  cases m with
  | run p c stack =>
    cases step
    refine congrArg some (begin_raise p c stack fun r called => ?_)
    subst called
    cases full : c.guard.isExceeded with
    | false => rfl
    | true =>
      -- The refusal would stand in the log.
      rw [Grammar.begin, enter_eq_none_iff_isExceeded.mpr full] at unrefused
      exact absurd List.mem_cons_self (unrefused _ rfl r c.index)
  | scan accept stop c stack =>
    cases step
    exact congrArg some (scan_raise accept stop c stack)
  | back reply stack =>
    cases stack with
    | nil => cases step
    | cons w stack =>
      cases step
      exact congrArg some (resume_raise w reply.1 reply.2 stack)
  | broken b => cases step

/-! ## 2. Logs, courses and frames -/

/-- What a step from the cursor `c` to the moment `m'` does to the log. -/
inductive Logs (c c' : Cursor ρ) (m' : Moment ρ) : Prop
  | nothing (events : c'.events = c.events)
  | other (e : Event ρ) (noted : ∀ r i, e ≠ .refused r i) (events : c'.events = e :: c.events)
  | refusal (r : ρ) (stack : List (Waiting ρ)) (events : c'.events = .refused r c.index :: c.events)
      (back : m' = .back (.refused, c') stack)

theorem entered_ne_refused (r : ρ) : ∀ r' i, Event.entered r ≠ .refused r' i := nofun

theorem traced_ne_refused (record : Record) : ∀ (r : ρ) i, Event.traced record ≠ .refused r i := nofun

theorem Logs.suffix (logs : Logs c c' m') : c.events <:+ c'.events := by
  cases logs with
  | nothing events => exact events ▸ List.suffix_rfl
  | other e _ events => exact events ▸ List.suffix_cons _ _
  | refusal r stack events _ => exact events ▸ List.suffix_cons _ _

theorem begin_logs (p : Parser ρ) (c : Cursor ρ) (stack : List (Waiting ρ))
    (behind : (g.begin s p c stack).cursor? = some c') : Logs c c' (g.begin s p c stack) := by
  cases p with
  | satisfy accept =>
    refine .nothing ?_
    rw [Grammar.begin] at behind
    split at behind
    · cases found : s.get? c.index with
      | none =>
        rw [found] at behind
        cases behind
      | some x =>
        rw [found] at behind
        simp only [Moment.cursor?] at behind
        split at behind <;> cases behind <;> rfl
    · cases behind
      rfl
  | literal t =>
    refine .nothing ?_
    simp only [Grammar.begin, Moment.cursor?] at behind
    split at behind <;> cases behind <;> rfl
  | rule r =>
    rw [Grammar.begin] at behind ⊢
    cases entered : c.guard.enter with
    | none =>
      rw [entered] at behind
      cases behind
      exact .refusal r stack rfl rfl
    | some guard =>
      rw [entered] at behind
      simp only at behind
      cases stands : g r <;> rw [stands] at behind <;> cases behind <;> exact .other _ (entered_ne_refused r) rfl
  | _ =>
    cases behind
    exact .nothing rfl

theorem resume_logs (w : Waiting ρ) (o : Outcome) (c : Cursor ρ) (stack : List (Waiting ρ))
    (behind : (w.resume s (o, c) stack).cursor? = some c') : Logs c c' (w.resume s (o, c) stack) := by
  obtain ⟨start, task⟩ := w
  cases task with
  | suchThat accept rejection =>
    refine .nothing ?_
    cases o with
    | success v =>
      simp only [Waiting.resume, Moment.cursor?] at behind
      split at behind <;> cases behind <;> rfl
    | _ => cases behind; rfl
  | many p calls turn values =>
    refine .nothing ?_
    cases o with
    | success v =>
      simp only [Waiting.resume] at behind
      split at behind <;> cases behind <;> rfl
    | _ => cases behind; rfl
  | expecting description =>
    refine .nothing ?_
    cases o with
    | failure f =>
      simp only [Waiting.resume, Span.locate_self, Moment.ofSpan] at behind
      cases behind
      rfl
    | _ => cases behind; rfl
  | trace label =>
    cases o with
    | success v => cases behind; exact .other _ (traced_ne_refused (.won label start c.index)) rfl
    | failure f => cases behind; exact .other _ (traced_ne_refused (.lost label start)) rfl
    | _ => cases behind; exact .nothing rfl
  | _ => cases o <;> cases behind <;> exact .nothing rfl

/-- A step takes nothing out of the log, and what it adds is a refusal only if it ends in one. -/
theorem next_logs (step : g.next s m = some m') (behind : m'.cursor? = some c') :
    ∃ c, m.cursor? = some c ∧ Logs c c' m' := by
  cases m with
  | run p c stack =>
    cases step
    exact ⟨c, rfl, begin_logs p c stack behind⟩
  | scan accept stop c stack =>
    cases step
    refine ⟨c, rfl, .nothing ?_⟩
    rw [Source.scan] at behind
    split at behind
    · cases found : s.get? stop with
      | none =>
        rw [found] at behind
        cases behind
      | some x =>
        rw [found] at behind
        simp only at behind
        split at behind <;> cases behind <;> rfl
    · cases behind
      rfl
  | back reply stack =>
    cases stack with
    | nil => cases step
    | cons w stack =>
      cases step
      exact ⟨reply.2, rfl, resume_logs w reply.1 reply.2 stack behind⟩
  | broken b => cases step

/-- Where no rule has been refused up to a moment, none has been refused up to any moment before. -/
theorem unrefused_of_leads (course : g.Leads s m m') (there : m'.cursor? = some c') (unrefused : c'.Unrefused) :
    ∀ c, m.cursor? = some c → c.Unrefused := by
  have grown : ∃ c, m.cursor? = some c ∧ c.events <:+ c'.events := by
    induction course using Relation.ReflTransGen.head_induction_on with
    | refl => exact ⟨c', there, List.suffix_rfl⟩
    | head step _ ih =>
      obtain ⟨c₁, here₁, later⟩ := ih
      obtain ⟨c, here, logs⟩ := next_logs step here₁
      exact ⟨c, here, logs.suffix.trans later⟩
  obtain ⟨c₀, here₀, part⟩ := grown
  intro c here r i refused
  cases here₀.symm.trans here
  exact unrefused r i (part.subset refused)

/-- A refusal is passed on by whatever waits for it. -/
theorem resume_refused (w : Waiting ρ) (c : Cursor ρ) (stack : List (Waiting ρ)) :
    ∃ c', w.resume s (.refused, c) stack = .back (.refused, c') stack := by
  obtain ⟨start, task⟩ := w
  cases task <;> exact ⟨_, rfl⟩

/-- At every moment of a course, no rule has been refused yet or a refusal is on its way out. -/
theorem unrefused_or_back (course : g.Leads s m m') (fresh : ∀ c, m.cursor? = some c → c.Unrefused) :
    (∀ c, m'.cursor? = some c → c.Unrefused) ∨ ∃ c stack, m' = .back (.refused, c) stack := by
  induction course with
  | refl => exact .inl fresh
  | @tail m₁ m₂ _ step ih =>
    rcases ih with fresh | ⟨c, stack, rfl⟩
    · by_cases back : ∃ c stack, m₂ = .back (.refused, c) stack
      · exact .inr back
      refine .inl fun c₂ behind r i refused => ?_
      obtain ⟨c₁, here, logs⟩ := next_logs step behind
      cases logs with
      | nothing events => exact fresh c₁ here r i (events ▸ refused)
      | other e noted events =>
        rcases List.mem_cons.mp (events ▸ refused) with rfl | before
        · exact noted r i rfl
        · exact fresh c₁ here r i before
      | refusal r stack _ ends => exact back ⟨c₂, stack, ends⟩
    · cases stack with
      | nil => cases step
      | cons w stack =>
        cases step
        obtain ⟨c', passed⟩ := resume_refused (s := s) w c stack
        exact .inr ⟨c', stack, passed⟩

/-- A stretch of the course without a refusal is the same under a higher limit. -/
theorem leads_raise (more : Nat) (course : g.Leads s m m') (there : m'.cursor? = some c') (unrefused : c'.Unrefused) :
    g.Leads s (m.raise more) (m'.raise more) := by
  induction course using Relation.ReflTransGen.head_induction_on with
  | refl => exact .refl
  | head step later ih => exact leads_of_next (next_raise step (unrefused_of_leads later there unrefused)) ih

theorem cursor?_raise (m : Moment ρ) : (m.raise more).cursor? = m.cursor?.map (Cursor.raise more) := by
  cases m <;> rfl

theorem isSome_next_raise (m : Moment ρ) : (g.next s (m.raise more)).isSome = (g.next s m).isSome := by
  cases m with
  | back reply stack => cases stack <;> rfl
  | _ => rfl

/-- A run that is cut off is cut off at the same moment under a higher limit. -/
theorem cutOff_raise {steps : Nat} (cut : g.cutOff s steps m = some c) (unrefused : c.Unrefused) :
    g.cutOff s steps (m.raise more) = some (c.raise more) := by
  induction steps generalizing m with
  | zero =>
    obtain ⟨m', step, here⟩ := Option.bind_eq_some_iff.mp cut
    have goes_on : (g.next s (m.raise more)).isSome := by rw [isSome_next_raise, step]; rfl
    obtain ⟨m'', step'⟩ := Option.isSome_iff_exists.mp goes_on
    rw [Grammar.cutOff, step', Option.bind_some, cursor?_raise, here]
    rfl
  | succ steps ih =>
    obtain ⟨m', step, later⟩ := Option.bind_eq_some_iff.mp cut
    obtain ⟨m'', course, there⟩ := FrameLemmas.leads_of_cutOff later
    rw [Grammar.cutOff, next_raise step (unrefused_of_leads course there unrefused), Option.bind_some]
    exact ih later

/-- A run that is over before it is cut off is so under a higher limit. -/
theorem cutOff_raise_eq_none {steps : Nat} {reply : Reply ρ} (finished : g.cutOff s steps m = none)
    (ended : g.Leads s m (.back reply [])) (unrefused : reply.2.Unrefused) :
    g.cutOff s steps (m.raise more) = none := by
  induction steps generalizing m with
  | zero =>
    cases step : g.next s m with
    | none =>
      have ends : g.next s (m.raise more) = none := by
        rw [← Option.isNone_iff_eq_none, ← Option.not_isSome, isSome_next_raise, step]
        rfl
      rw [Grammar.cutOff, ends, Option.bind_none]
    | some m' =>
      rw [Grammar.cutOff, step, Option.bind_some] at finished
      rw [Grammar.cutOff, cursor?_raise, finished, Option.map_none, Option.bind_fun_none]
  | succ steps ih =>
    rcases Relation.ReflTransGen.cases_head ended with rfl | ⟨m', step, later⟩
    · rfl
    · rw [Grammar.cutOff, step, Option.bind_some] at finished
      rw [Grammar.cutOff, next_raise step (unrefused_of_leads later rfl unrefused), Option.bind_some]
      exact ih finished later

/-- A whole parse under a higher limit starts at the same moment, but for the limit. -/
theorem firstMoment_raise (p : Parser ρ) (higher : limits.granted + more = limits'.granted) :
    p.firstMoment limits' = (p.firstMoment limits).raise more := by
  have guard : limits'.guard = limits.guard.raise more := by
    show (⟨limits'.granted, 0⟩ : Guard) = ⟨limits.granted + more, 0⟩
    rw [higher]
  show Moment.run p ⟨0, limits'.guard, []⟩ [] = .run p ⟨0, limits.guard.raise more, []⟩ []
  rw [guard]

/-- The log of a parse shows a refusal exactly if the parse is refused. -/
theorem unrefused_iff_ne_refused (fresh : c.Unrefused) :
    (g.parse s p c).2.Unrefused ↔ (g.parse s p c).1 ≠ .refused := by
  constructor
  · intro unrefused refused
    obtain ⟨r, c', called, full⟩ := exists_invokes_of_refused refused
    rw [refused_of_invokes called full] at unrefused
    exact unrefused r c'.index List.mem_cons_self
  · intro unrefused
    rcases unrefused_or_back (leads_parse g s p c []) (fun _ here => Option.some.inj here ▸ fresh) with logged | back
    · exact logged _ rfl
    · obtain ⟨c', stack, back⟩ := back
      exact absurd (congrArg Prod.fst (Moment.back.inj back).1) unrefused

/-- A parse in which no rule is refused comes to the same under a higher limit. -/
theorem parse_raise (unrefused : (g.parse s p c).2.Unrefused) :
    g.parse s p (c.raise more) = ((g.parse s p c).1, (g.parse s p c).2.raise more) := by
  have raised := leads_raise more (leads_parse g s p c []) rfl unrefused
  have ended := leads_parse g s p (c.raise more) []
  have same := eq_of_leads_final (leads_end ended raised)
  exact (Moment.back.inj same).1

/-- With the frames for it, a whole parse refuses no rule exactly if every rule call that it makes meets a guard with
room. -/
theorem unrefused_iff_room (frames : g.HasFrames p limits s) :
    (g.run p limits s).Unrefused ↔ ∀ r c', g.Invokes s p limits.start r c' → c'.guard.isExceeded = false := by
  rw [Grammar.run_of_hasFrames frames]
  refine (unrefused_iff_ne_refused (c := limits.start) nofun).trans ⟨?_, ?_⟩
  · intro unrefused r c' called
    cases full : c'.guard.isExceeded with
    | false => rfl
    | true => exact absurd (congrArg Prod.fst (refused_of_invokes called full)) unrefused
  · intro roomy refused
    obtain ⟨r, c', called, full⟩ := exists_invokes_of_refused refused
    rw [roomy r c' called] at full
    cases full

/-- The frames last for a parse in which no rule is refused exactly if they do under a higher limit, and the run is cut
off at the same moment if they do not. -/
theorem cutOff?_raise (higher : limits.granted + more = limits'.granted)
    (interpreter : limits.interpreter.steps = limits'.interpreter.steps) (unrefused : (g.run p limits s).Unrefused) :
    g.cutOff? p limits' s = (g.cutOff? p limits s).map (Cursor.raise more) := by
  have first := firstMoment_raise p higher
  cases lasts : limits.interpreter.steps with
  | none => simp only [Grammar.cutOff?, ← interpreter, lasts, Option.bind_none, Option.map_none]
  | some steps =>
    have cuts : g.cutOff? p limits s = g.cutOff s steps (p.firstMoment limits) := by
      rw [Grammar.cutOff?, lasts, Option.bind_some]
    rw [Grammar.cutOff?, ← interpreter, lasts, Option.bind_some, first, cuts]
    cases cut : g.cutOff s steps (p.firstMoment limits) with
    | none =>
      rw [Grammar.run_of_hasFrames (Grammar.hasFrames_iff.mpr (cuts.trans cut))] at unrefused
      exact cutOff_raise_eq_none cut (leads_parse g s p limits.start []) unrefused
    | some c =>
      rw [Grammar.run_of_cutOff? (cuts.trans cut)] at unrefused
      exact cutOff_raise cut unrefused

/-- What an unrefused whole parse ends with does not depend on the limit. -/
theorem ending_raise {reply : Reply ρ} (unrefused : reply.1 ≠ .refused) :
    Reply.ending s (reply.1, reply.2.raise more) = reply.ending s := by
  obtain ⟨o, c⟩ := reply
  cases o with
  | refused => exact absurd rfl unrefused
  | _ => rfl

/-- A parse for which there are frames comes to the same under a higher limit. -/
theorem onlyLimited_of_hasFrames (raised : limits.granted + more = limits'.granted)
    (frames : g.HasFrames p limits s) (frames' : g.HasFrames p limits' s)
    (unrefused : (g.run p limits s).Unrefused) : g.OnlyLimited s p limits limits' := by
  have run := Grammar.run_of_hasFrames frames
  rw [run] at unrefused
  have passed := (unrefused_iff_ne_refused (c := limits.start) nofun).mp unrefused
  have start : (limits'.start : Cursor ρ) = limits.start.raise more :=
    (Moment.run.inj (firstMoment_raise p raised)).2.1
  have run' : g.run p limits' s =
      Reply.run limits' s ((g.parse s p limits.start).1, (g.parse s p limits.start).2.raise more) := by
    rw [Grammar.run_of_hasFrames frames', start, parse_raise unrefused]
  refine ⟨?_, ?_, iff_of_true frames frames', fun _ => ?_, fun missing => absurd frames missing⟩
  · rw [run, run']
    exact ⟨rfl, rfl, rfl⟩
  · rw [run']
    exact unrefused
  · rw [run, run']
    exact (ending_raise passed).symm

/-- A parse that is cut off is cut off at the same moment under a higher limit. -/
theorem onlyLimited_of_cutOff? (cut : g.cutOff? p limits s = some c)
    (cut' : g.cutOff? p limits' s = some (c.raise more)) (unrefused : (g.run p limits s).Unrefused) :
    g.OnlyLimited s p limits limits' := by
  have missing : ¬ g.HasFrames p limits s := Grammar.not_hasFrames_of_cutOff? cut
  have missing' : ¬ g.HasFrames p limits' s := Grammar.not_hasFrames_of_cutOff? cut'
  have run := Grammar.run_of_cutOff? cut
  have run' := Grammar.run_of_cutOff? cut'
  rw [run] at unrefused
  refine ⟨?_, ?_, iff_of_false missing missing', fun frames => absurd frames missing, fun _ => ?_⟩
  · rw [run, run']
    exact ⟨rfl, rfl, rfl⟩
  · rw [run']
    exact unrefused
  · rw [run, run']
    exact ⟨c.index, _, _, rfl, Failure.tooDeepAt_reports _ _ _, rfl, Failure.tooDeepAt_reports _ _ _⟩

theorem onlyLimited (higher : limits.granted ≤ limits'.granted)
    (interpreter : limits.interpreter.steps = limits'.interpreter.steps)
    (unrefused : (g.run p limits s).Unrefused) : g.OnlyLimited s p limits limits' := by
  obtain ⟨more, raised⟩ := Int.le.dest higher
  have cuts := cutOff?_raise raised interpreter unrefused
  cases cut : g.cutOff? p limits s with
  | none =>
    rw [cut, Option.map_none] at cuts
    exact onlyLimited_of_hasFrames raised (Grammar.hasFrames_iff.mpr cut) (Grammar.hasFrames_iff.mpr cuts) unrefused
  | some c =>
    rw [cut, Option.map_some] at cuts
    exact onlyLimited_of_cutOff? cut cuts unrefused

end LimitLemmas

open LimitLemmas

/-! ## 3. Whole parses -/

/-- A limit on nesting is only a limit, for every parser over every set of rules. Limits are compared after clamping, in
interpreters whose frames last equally long.

* A whole parse in which a limit refuses no rule takes the same course under every higher limit, and no rule is refused
  there either. With the frames for it, it ends in the same way. Without, both parses are cut off at the same offset.
* So two limits that both let a parse through, with the frames for it, give the same course and the same ending.
* With the frames for it, a parse refuses no rule exactly if every rule call that it makes meets a guard with room. -/
theorem limit_only_limits (g : Grammar ρ) (s : Source) (p : Parser ρ) :
    (∀ limits limits' : Limits, limits.granted ≤ limits'.granted →
      limits.interpreter.steps = limits'.interpreter.steps → (g.run p limits s).Unrefused →
      g.OnlyLimited s p limits limits') ∧
    (∀ limits limits' : Limits, limits.interpreter.steps = limits'.interpreter.steps →
      (g.run p limits s).Unrefused → (g.run p limits' s).Unrefused → g.HasFrames p limits s →
      (g.run p limits s).SameCourse (g.run p limits' s) ∧ (g.run p limits s).ending = (g.run p limits' s).ending) ∧
    (∀ limits : Limits, g.HasFrames p limits s →
      ((g.run p limits s).Unrefused ↔ ∀ r c, g.Invokes s p limits.start r c → c.guard.isExceeded = false)) := by
  refine ⟨fun _ _ => onlyLimited, fun limits limits' interpreter unrefused unrefused' frames => ?_,
    fun _ => unrefused_iff_room⟩
  rcases Int.le_total limits.granted limits'.granted with higher | lower
  · have limited := onlyLimited higher interpreter unrefused
    exact ⟨limited.course, limited.ending frames⟩
  · have limited := onlyLimited lower interpreter.symm unrefused'
    have ⟨index, rules, traces⟩ := limited.course
    exact ⟨⟨index.symm, rules.symm, traces.symm⟩, (limited.ending (limited.frames.mpr frames)).symm⟩

/-- An `x` in any number of round brackets, each pair one level of nesting. -/
def bracketed : Grammar Unit := fun _ =>
  .ok (.trace (.orElse (.attempt ((Parser.char 0x28).right ((Parser.rule ()).left (Parser.char 0x29))))
    (Parser.char 0x78)) (text "bracketed"))

/-- The limits of a parse in an interpreter whose frames last for so many steps. -/
def lasting (steps : Nat) (depth : Int) : Limits := { depth, interpreter := { steps := some steps } }

/-- Two pairs of brackets take three levels. With three allowed and with twenty, the parse takes the same course, reads
the whole text and comes to the same; two hundred steps are enough for it. -/
theorem bracketed_twice_within_three :
    (lasting 200 3).granted ≤ (lasting 200 20).granted ∧
    bracketed.HasFrames (.rule ()) (lasting 200 3) (.ofText (text "((x))")) ∧
    (bracketed.run (.rule ()) (lasting 200 3) (.ofText (text "((x))"))).Unrefused ∧
    (bracketed.run (.rule ()) (lasting 200 3) (.ofText (text "((x))"))).SameCourse
      (bracketed.run (.rule ()) (lasting 200 20) (.ofText (text "((x))"))) ∧
    (bracketed.run (.rule ()) (lasting 200 3) (.ofText (text "((x))"))).ending =
      (bracketed.run (.rule ()) (lasting 200 20) (.ofText (text "((x))"))).ending ∧
    (bracketed.run (.rule ()) (lasting 200 3) (.ofText (text "((x))"))).final.index = 5 := by
  have frames : bracketed.HasFrames (.rule ()) (lasting 200 3) (.ofText (text "((x))")) := by decide +kernel
  have unrefused : (bracketed.run (.rule ()) (lasting 200 3) (.ofText (text "((x))"))).Unrefused := by
    rw [Grammar.run_of_hasFrames frames]
    exact (unrefused_iff_ne_refused (c := (lasting 200 3).start) nofun).mpr (by decide +kernel)
  obtain ⟨higher, both, -⟩ := limit_only_limits bracketed (.ofText (text "((x))")) (.rule ())
  have limited := higher (lasting 200 3) (lasting 200 20) (by decide) rfl unrefused
  obtain ⟨course, ending⟩ := both (lasting 200 3) (lasting 200 20) rfl unrefused limited.unrefused frames
  exact ⟨by decide, frames, unrefused, course, ending, by decide +kernel⟩

/-- A rule that starts with itself, and reads a code point if that fails. -/
def endless : Grammar Unit := fun _ => .ok (.orElse (.rule ()) .one)

/-- Where the frames do not last, two limits that refuse nothing do not come to the same: each parse reports its own. -/
theorem endless_shows_limits :
    (lasting 9 9000).granted ≤ (lasting 9 9500).granted ∧
    (endless.run (.rule ()) (lasting 9 9000) (.ofText (text "aaa"))).Unrefused ∧
    (endless.run (.rule ()) (lasting 9 9500) (.ofText (text "aaa"))).Unrefused ∧
    (endless.run (.rule ()) (lasting 9 9000) (.ofText (text "aaa"))).ending ≠
      (endless.run (.rule ()) (lasting 9 9500) (.ofText (text "aaa"))).ending := by
  have entered : ∀ depth, (endless.run (.rule ()) (lasting 9 depth) (.ofText (text "aaa"))).final.events =
      List.replicate 5 (.entered ()) →
      (endless.run (.rule ()) (lasting 9 depth) (.ofText (text "aaa"))).Unrefused := by
    intro depth events r i refused
    rw [events] at refused
    cases List.eq_of_mem_replicate refused
  exact ⟨by decide, entered 9000 (by decide +kernel), entered 9500 (by decide +kernel), by decide +kernel⟩

end Descent
