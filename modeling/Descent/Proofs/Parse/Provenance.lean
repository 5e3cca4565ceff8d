import Descent.Proofs.Parse.Moments
import Descent.Proofs.Parse.Rewinding

/-!
# Where failures come from

A parse that fails does so with the plain failure, with one that the grammar supplies, or with one that says what was
expected where a labelled parser started; nothing else makes a failure, and nothing alters one. This is an invariant of
the machine: a combinator that waits on the stack has been started in the run, so what it puts in place of a reply can
be traced back to its start.

Results:
1. `next_accounted`, `leads_accounted`: one step and whole runs keep to the invariant.
2. `failure_of_within`: the combinators that hand failures on, at any depth of nesting.
3. `orElse_failure_iff`, `choice_failure_iff`, `many1_failure`: the ones that fail with the plain failure.
4. `failure_provenance`: all of this for every parser and every whole parse.
-/

namespace Descent

variable {ρ : Type}

/-! ## 1. Failures of a run -/

/-- In the course of a run from the moment `m`, the parser `p` is started at the cursor `c`. -/
def Grammar.Starts (g : Grammar ρ) (s : Source) (m : Moment ρ) (p : Parser ρ) (c : Cursor ρ) : Prop :=
  ∃ stack, g.Leads s m (.run p c stack)

/-- In the course of a run from the moment `m`, a reply is handed to a combinator that waits for it. -/
def Grammar.Gets (g : Grammar ρ) (s : Source) (m : Moment ρ) (w : Waiting ρ) (reply : Reply ρ) : Prop :=
  ∃ stack, g.Leads s m (.back reply (w :: stack))

/-- Where a failure comes from that a run from the moment `m` ends with. All but the plain failure are made by a parser
that was started in the run. -/
inductive Grammar.ComesFrom (g : Grammar ρ) (s : Source) (m : Moment ρ) : Failure → Prop
  /-- The plain failure is general and has no diagnostic. -/
  | plain : g.ComesFrom s m ⟨.general, none⟩
  /-- The failure is a value of the grammar. -/
  | value {f : Failure} {d : Cursor ρ} : g.Starts s m (.pure (.failure f)) d → g.ComesFrom s m f
  /-- The failure is for a value that was rejected. -/
  | rejection {p : Parser ρ} {accept : Value → Bool} {f : Failure} {c d : Cursor ρ} {v : Value} :
      g.Starts s m (.suchThat p accept f) d → g.Gets s m ⟨d.index, .suchThat accept f⟩ (.success v, c) →
      accept v = false → g.ComesFrom s m f
  /-- The failure replaces another one. -/
  | fallback {p : Parser ρ} {e f : Failure} {c d : Cursor ρ} :
      g.Starts s m (.recover p (.failure f)) d → g.Gets s m ⟨d.index, .recover (.failure f)⟩ (.failure e, c) →
      g.ComesFrom s m f
  /-- The failure says what was expected. Its span is the single offset at which the labelled parser was started. -/
  | expected {p : Parser ρ} {description : Text} {e f : Failure} {c d : Cursor ρ} :
      g.Starts s m (.expecting p description) d → g.Gets s m ⟨d.index, .expecting description⟩ (.failure e, c) →
      f = .expectedAt s description d.index → f.ReportsExpected s d.index description → g.ComesFrom s m f

/-- The failure of a whole parse says that it nested too deeply, at the cursor `d`. -/
structure Failure.ReportsCursor (f : Failure) (s : Source) (limits : Limits) (d : Cursor ρ) : Prop where
  failure : f = .tooDeepAt s limits.granted d.index
  reports : f.ReportsDepth s d.index limits.granted

/-- Where a failure comes from that a whole parse ends with. -/
inductive Grammar.RunComesFrom (g : Grammar ρ) (s : Source) (p : Parser ρ) (limits : Limits) (f : Failure) : Prop
  | parser (frames : g.HasFrames p limits s) (made : g.ComesFrom s (p.firstMoment limits) f)
  /-- A rule was called under a full guard. -/
  | refusal (frames : g.HasFrames p limits s) (r : ρ) (d : Cursor ρ)
      (called : g.Starts s (p.firstMoment limits) (.rule r) d) (full : d.guard.isExceeded = true)
      (reports : f.ReportsCursor s limits d)
  /-- The frames of the interpreter were used up at a moment of the run. -/
  | cutOff (missing : ¬ g.HasFrames p limits s) (m : Moment ρ) (d : Cursor ρ)
      (course : g.Leads s (p.firstMoment limits) m) (stood : m.cursor? = some d) (reports : f.ReportsCursor s limits d)

/-- A reply has an explanation: a failure comes from somewhere, and a refusal from a rule call under a full guard, which
left the cursor where it was. -/
def Reply.Accounted (g : Grammar ρ) (s : Source) (m : Moment ρ) : Reply ρ → Prop
  | (.failure f, _) => g.ComesFrom s m f
  | (.refused, c) => ∃ r d, g.Starts s m (.rule r) d ∧ d.guard.isExceeded = true ∧ c.index = d.index ∧
      c.guard.limit = d.guard.limit
  | _ => True

/-- A combinator that may put something in place of a reply has been started in the run. -/
def Waiting.Accounted (g : Grammar ρ) (s : Source) (m : Moment ρ) (w : Waiting ρ) : Prop :=
  match w.task with
  | .suchThat accept rejection => ∃ p d, g.Starts s m (.suchThat p accept rejection) d ∧ d.index = w.start
  | .recover fallback => ∃ p d, g.Starts s m (.recover p fallback) d ∧ d.index = w.start
  | .expecting description => ∃ p d, g.Starts s m (.expecting p description) d ∧ d.index = w.start
  | _ => True

/-- Every waiting combinator is accounted for, and so is a reply that is handed back. -/
def Moment.Accounted (g : Grammar ρ) (s : Source) (m first : Moment ρ) : Prop :=
  (∀ w ∈ m.stack, w.Accounted g s first) ∧
    match m with
    | .back reply _ => reply.Accounted g s first
    | _ => True

namespace ProvenanceLemmas

variable {g : Grammar ρ} {s : Source} {first m m' : Moment ρ} {c : Cursor ρ} {stack : List (Waiting ρ)}

/-- A value is accounted for as a reply if it is no failure from nowhere. -/
theorem outcome_accounted {v : Value} (h : ∀ f, v = .failure f → g.ComesFrom s first f) (c : Cursor ρ) :
    Reply.Accounted g s first (v.outcome, c) := by
  cases v with
  | failure f => exact h f rfl
  | _ => trivial

/-- What a parser does first is accounted for if the parser was started in the run. -/
theorem begin_accounted {p : Parser ρ} (started : g.Starts s first p c)
    (waiting : ∀ w ∈ stack, w.Accounted g s first) : (g.begin s p c stack).Accounted g s first := by
  cases p with
  | satisfy accept =>
    rw [Grammar.begin]
    split
    · split
      · refine ⟨waiting, ?_⟩
        show Reply.Accounted g s first (if _ then _ else _)
        split
        · trivial
        · exact Grammar.ComesFrom.plain
      · exact ⟨List.forall_mem_nil _, trivial⟩
    · exact ⟨waiting, .plain⟩
  | literal t =>
    refine ⟨waiting, ?_⟩
    show Reply.Accounted g s first (if _ then _ else _)
    split
    · trivial
    · exact Grammar.ComesFrom.plain
  | span accept => exact ⟨waiting, trivial⟩
  | eof =>
    refine ⟨waiting, ?_⟩
    show Reply.Accounted g s first (if _ then _ else _, c)
    split
    · exact Grammar.ComesFrom.plain
    · trivial
  | offset => exact ⟨waiting, trivial⟩
  | pure v =>
    refine ⟨waiting, outcome_accounted ?_ c⟩
    rintro f rfl
    exact .value started
  | fault e => exact ⟨waiting, trivial⟩
  | bind p next => exact ⟨List.forall_mem_cons.mpr ⟨trivial, waiting⟩, trivial⟩
  | orElse p q => exact ⟨List.forall_mem_cons.mpr ⟨trivial, waiting⟩, trivial⟩
  | attempt p => exact ⟨List.forall_mem_cons.mpr ⟨trivial, waiting⟩, trivial⟩
  | suchThat p accept rejection => exact ⟨List.forall_mem_cons.mpr ⟨⟨p, c, started, rfl⟩, waiting⟩, trivial⟩
  | recover p fallback => exact ⟨List.forall_mem_cons.mpr ⟨⟨p, c, started, rfl⟩, waiting⟩, trivial⟩
  | expecting p description => exact ⟨List.forall_mem_cons.mpr ⟨⟨p, c, started, rfl⟩, waiting⟩, trivial⟩
  | many p => exact ⟨List.forall_mem_cons.mpr ⟨trivial, waiting⟩, trivial⟩
  | trace p label => exact ⟨List.forall_mem_cons.mpr ⟨trivial, waiting⟩, trivial⟩
  | rule r =>
    rw [Grammar.begin]
    split
    · next full =>
      refine ⟨waiting, r, c, started, ?_, rfl, rfl⟩
      unfold Guard.enter at full
      split at full
      · assumption
      · cases full
    · simp only
      split <;> exact ⟨List.forall_mem_cons.mpr ⟨trivial, waiting⟩, trivial⟩

/-- What a waiting combinator does with a reply that it gets is accounted for if both are. -/
theorem resume_accounted {w : Waiting ρ} {reply : Reply ρ} (gets : g.Gets s first w reply)
    (hw : w.Accounted g s first) (hreply : reply.Accounted g s first)
    (waiting : ∀ w ∈ stack, w.Accounted g s first) : (w.resume s reply stack).Accounted g s first := by
  obtain ⟨start, task⟩ := w
  obtain ⟨o, c⟩ := reply
  cases o with
  | success v =>
    cases task with
    | suchThat accept rejection =>
      obtain ⟨p, d, started, rfl⟩ := hw
      refine ⟨waiting, ?_⟩
      show Reply.Accounted g s first (if _ then _ else _)
      split
      · trivial
      · next rejected => exact .rejection started gets (Bool.eq_false_iff.mpr rejected)
    | many p calls turn values =>
      simp only [Waiting.resume]
      split
      · exact ⟨waiting, trivial⟩
      · exact ⟨List.forall_mem_cons.mpr ⟨trivial, waiting⟩, trivial⟩
    | _ => exact ⟨waiting, trivial⟩
  | failure f =>
    cases task with
    | orElse q => exact ⟨List.forall_mem_cons.mpr ⟨trivial, waiting⟩, trivial⟩
    | lastAlternative => exact ⟨waiting, .plain⟩
    | recover fallback =>
      obtain ⟨p, d, started, rfl⟩ := hw
      refine ⟨waiting, outcome_accounted ?_ c⟩
      rintro e rfl
      exact .fallback started gets
    | expecting description =>
      obtain ⟨p, d, started, rfl⟩ := hw
      simp only [Waiting.resume, Span.locate_self, Moment.ofSpan]
      exact ⟨waiting, .expected started gets rfl (Failure.expectedAt_reports _ _ _)⟩
    | many p calls turn values => exact ⟨waiting, trivial⟩
    | _ => exact ⟨waiting, hreply⟩
  | fault e => cases task <;> exact ⟨waiting, trivial⟩
  | refused => cases task <;> exact ⟨waiting, hreply⟩

theorem next_accounted (course : g.Leads s first m) (accounted : m.Accounted g s first)
    (step : g.next s m = some m') : m'.Accounted g s first := by
  obtain ⟨waiting, replied⟩ := accounted
  cases m with
  | run p c stack =>
    cases step
    exact begin_accounted ⟨stack, course⟩ waiting
  | scan accept stop c stack =>
    cases step
    unfold Source.scan
    split
    · split
      · split <;> exact ⟨waiting, trivial⟩
      · exact ⟨List.forall_mem_nil _, trivial⟩
    · exact ⟨waiting, trivial⟩
  | back reply stack =>
    cases stack with
    | nil => cases step
    | cons w stack =>
      cases step
      obtain ⟨hw, waiting⟩ := List.forall_mem_cons.mp waiting
      exact resume_accounted ⟨stack, course⟩ hw replied waiting
  | broken b => cases step

theorem leads_accounted {p : Parser ρ} (course : g.Leads s (.run p c []) m) : m.Accounted g s (.run p c []) := by
  induction course with
  | refl => exact ⟨List.forall_mem_nil _, trivial⟩
  | tail course step ih => exact next_accounted course ih step

/-- The reply of every run is accounted for. -/
theorem parse_accounted (p : Parser ρ) (c : Cursor ρ) : (g.parse s p c).Accounted g s (.run p c []) :=
  (leads_accounted (MachineLemmas.leads_parse g s p c [])).2

end ProvenanceLemmas

/-! ## 2. Handing on a failure -/

/-- Parsers run one behind the other, each with an outcome of some kind. -/
inductive Grammar.InRow (g : Grammar ρ) (s : Source) (kind : Outcome → Prop) :
    List (Parser ρ) → Cursor ρ → Cursor ρ → Prop
  | nil {c : Cursor ρ} : g.InRow s kind [] c c
  | cons {p : Parser ρ} {ps : List (Parser ρ)} {c c₁ c₂ : Cursor ρ} {o : Outcome} :
      g.parse s p c = (o, c₁) → kind o → g.InRow s kind ps c₁ c₂ → g.InRow s kind (p :: ps) c c₂

def Outcome.Succeeds (o : Outcome) : Prop := ∃ v, o = .success v

def Outcome.Fails (o : Outcome) : Prop := ∃ f, o = .failure f

/-- A combinator that is run from a cursor runs a part of it from another cursor, and fails as that part does if it
fails. -/
inductive Grammar.HandsOn (g : Grammar ρ) (s : Source) : Parser ρ → Cursor ρ → Parser ρ → Cursor ρ → Prop
  | map {p : Parser ρ} {f : Value → Value} {c : Cursor ρ} : g.HandsOn s (p.map f) c p c
  | bind {p : Parser ρ} {next : Value → Parser ρ} {c : Cursor ρ} : g.HandsOn s (.bind p next) c p c
  | bind_next {p : Parser ρ} {next : Value → Parser ρ} {c c₁ : Cursor ρ} {v : Value} :
      g.parse s p c = (.success v, c₁) → g.HandsOn s (.bind p next) c (next v) c₁
  | and {p q : Parser ρ} {c : Cursor ρ} : g.HandsOn s (p.and q) c p c
  | and_next {p q : Parser ρ} {c c₁ : Cursor ρ} {v : Value} :
      g.parse s p c = (.success v, c₁) → g.HandsOn s (p.and q) c q c₁
  | left {p q : Parser ρ} {c : Cursor ρ} : g.HandsOn s (p.left q) c p c
  | left_next {p q : Parser ρ} {c c₁ : Cursor ρ} {v : Value} :
      g.parse s p c = (.success v, c₁) → g.HandsOn s (p.left q) c q c₁
  | right {p q : Parser ρ} {c : Cursor ρ} : g.HandsOn s (p.right q) c p c
  | right_next {p q : Parser ρ} {c c₁ : Cursor ρ} {v : Value} :
      g.parse s p c = (.success v, c₁) → g.HandsOn s (p.right q) c q c₁
  | sequence {before after : List (Parser ρ)} {p : Parser ρ} {c c₁ : Cursor ρ} :
      g.InRow s Outcome.Succeeds before c c₁ → g.HandsOn s (.sequence (before ++ p :: after)) c p c₁
  | times {p : Parser ρ} {n k : Nat} {c c₁ : Cursor ρ} :
      k < n → g.InRow s Outcome.Succeeds (List.replicate k p) c c₁ → g.HandsOn s (p.times n) c p c₁
  | attempt {p : Parser ρ} {c : Cursor ρ} : g.HandsOn s p.attempt c p c
  | suchThat {p : Parser ρ} {accept : Value → Bool} {rejection : Failure} {c : Cursor ρ} :
      g.HandsOn s (p.suchThat accept rejection) c p c
  | trace {p : Parser ρ} {label : Text} {c : Cursor ρ} : g.HandsOn s (p.trace label) c p c
  | withRange {p : Parser ρ} {c : Cursor ρ} : g.HandsOn s p.withRange c p c
  /-- A rule runs the parser that it stands for. -/
  | rule {r : ρ} {p : Parser ρ} {c : Cursor ρ} {guard : Guard} :
      c.guard.enter = some guard → g r = .ok p → g.HandsOn s (.rule r) c p ({ c with guard }.note (.entered r))

/-- The same through any number of combinators around one another. -/
inductive Grammar.Within (g : Grammar ρ) (s : Source) : Parser ρ → Cursor ρ → Parser ρ → Cursor ρ → Prop
  | self {p : Parser ρ} {c : Cursor ρ} : g.Within s p c p c
  | inside {p q inner : Parser ρ} {c d e : Cursor ρ} :
      g.HandsOn s p c q d → g.Within s q d inner e → g.Within s p c inner e

namespace ProvenanceLemmas

variable {g : Grammar ρ} {s : Source} {p q : Parser ρ} {c c' d d' : Cursor ρ} {f : Failure}

theorem bind_failure (next : Value → Parser ρ) (failed : g.parse s p c = (.failure f, c')) :
    g.parse s (.bind p next) c = (.failure f, c') := by
  rw [Grammar.parse_bind, failed]

theorem bind_next_failure {next : Value → Parser ρ} {v : Value} {c₁ : Cursor ρ}
    (read : g.parse s p c = (.success v, c₁)) (failed : g.parse s (next v) c₁ = (.failure f, c')) :
    g.parse s (.bind p next) c = (.failure f, c') := by
  rw [Grammar.parse_bind, read]
  exact failed

/-- The first parser of a row that fails is the one whose failure counts. -/
theorem chain_failure {before after : List (Parser ρ)} (row : g.InRow s Outcome.Succeeds before c d)
    (failed : g.parse s p d = (.failure f, d')) :
    g.parse s (.chain (before ++ p :: after)) c = (.failure f, d') := by
  induction row with
  | nil => exact bind_failure _ failed
  | cons read success _ ih =>
    obtain ⟨v, rfl⟩ := success
    exact bind_next_failure read (bind_failure _ (ih failed))

theorem attempt_failure (failed : g.parse s p c = (.failure f, c')) :
    g.parse s p.attempt c = (.failure f, c'.moveTo c.index) := by
  rw [Grammar.parse_attempt, failed]

theorem failure_of_handsOn (step : g.HandsOn s p c q d) (failed : g.parse s q d = (.failure f, d')) :
    ∃ c', g.parse s p c = (.failure f, c') := by
  cases step with
  | map => exact ⟨d', bind_failure _ failed⟩
  | bind => exact ⟨d', bind_failure _ failed⟩
  | bind_next read => exact ⟨d', bind_next_failure read failed⟩
  | and => exact ⟨d', bind_failure _ failed⟩
  | and_next read => exact ⟨d', bind_next_failure read (bind_failure _ failed)⟩
  | left => exact ⟨d', bind_failure _ failed⟩
  | left_next read => exact ⟨d', bind_next_failure read (bind_failure _ failed)⟩
  | right => exact ⟨d', bind_failure _ failed⟩
  | right_next read => exact ⟨d', bind_next_failure read failed⟩
  | sequence row => exact ⟨_, attempt_failure (chain_failure row failed)⟩
  | @times _ n k _ _ below row =>
    have parts : List.replicate n q = List.replicate k q ++ q :: List.replicate (n - k - 1) q := by
      rw [← List.replicate_succ, List.replicate_append_replicate]
      congr 1
      omega
    rw [Parser.times, parts]
    exact ⟨_, attempt_failure (chain_failure row failed)⟩
  | attempt => exact ⟨_, attempt_failure failed⟩
  | suchThat => exact ⟨d', by rw [Grammar.parse_suchThat, failed]⟩
  | trace => exact ⟨_, by rw [Grammar.parse_trace, failed]⟩
  | withRange =>
    have start : g.parse s .offset c = (.success (.int c.index), c) := rfl
    exact ⟨d', bind_next_failure start (bind_failure _ failed)⟩
  | rule entered stands => exact ⟨_, by rw [Grammar.parse_rule, entered]; simp only [stands, failed]; rfl⟩

theorem failure_of_within (nested : g.Within s p c q d) (failed : g.parse s q d = (.failure f, d')) :
    ∃ c', g.parse s p c = (.failure f, c') := by
  induction nested with
  | self => exact ⟨d', failed⟩
  | inside step _ ih =>
    obtain ⟨e, failed⟩ := ih failed
    exact failure_of_handsOn step failed

/-! ## 3. Failing with the plain failure -/

theorem orElse_failure_iff :
    g.parse s (.orElse p q) c = (.failure f, c') ↔
      f = .plain ∧ ∃ e₁ c₁ e₂, g.parse s p c = (.failure e₁, c₁) ∧ g.parse s q c₁ = (.failure e₂, c') := by
  rw [Grammar.parse_orElse]
  constructor
  · intro h
    split at h
    · next e₁ c₁ failed =>
      split at h
      · next e₂ c₂ failed' =>
        cases h
        exact ⟨rfl, e₁, c₁, e₂, failed, failed'⟩
      · next notFailure => exact absurd h (notFailure f c')
    · next notFailure => exact absurd h (notFailure f c')
  · rintro ⟨rfl, e₁, c₁, e₂, failed, failed'⟩
    simp only [failed, failed']

/-- Of two alternatives or more, all have failed, each one from where the one before it stopped. -/
theorem choice_failure_iff {ps : List (Parser ρ)} :
    g.parse s (.choice (p :: q :: ps)) c = (.failure f, c') ↔
      f = .plain ∧ g.InRow s Outcome.Fails (p :: q :: ps) c c' := by
  show g.parse s (ps.foldl .orElse (p.orElse q)) c = (.failure f, c') ↔ _
  induction ps generalizing p q with
  | nil =>
    rw [List.foldl_nil, orElse_failure_iff]
    constructor
    · rintro ⟨rfl, e₁, c₁, e₂, first, second⟩
      exact ⟨rfl, .cons first ⟨e₁, rfl⟩ (.cons second ⟨e₂, rfl⟩ .nil)⟩
    · rintro ⟨rfl, _ | ⟨first, ⟨e₁, rfl⟩, _ | ⟨second, ⟨e₂, rfl⟩, ⟨⟩⟩⟩⟩
      exact ⟨rfl, e₁, _, e₂, first, second⟩
  | cons r ps ih =>
    -- The first two alternatives count as one.
    rw [List.foldl_cons, ih]
    constructor
    · rintro ⟨rfl, _ | ⟨both, ⟨e, rfl⟩, others⟩⟩
      obtain ⟨-, e₁, c₁, e₂, first, second⟩ := orElse_failure_iff.mp both
      exact ⟨rfl, .cons first ⟨e₁, rfl⟩ (.cons second ⟨e₂, rfl⟩ others)⟩
    · rintro ⟨rfl, _ | ⟨first, ⟨e₁, rfl⟩, _ | ⟨second, ⟨e₂, rfl⟩, others⟩⟩⟩
      exact ⟨rfl, .cons (orElse_failure_iff.mpr ⟨rfl, e₁, _, e₂, first, second⟩) ⟨.plain, rfl⟩ others⟩

theorem many1_failure (failed : g.parse s p.many1 c = (.failure f, c')) : f = .plain := by
  rw [Parser.many1, Grammar.parse_bind] at failed
  cases read : g.parse s p.many c with
  | mk o c₁ =>
    have run := (Grammar.parse_many_eq_repeatWhile p c).symm.trans read
    obtain ⟨notFailure, listed⟩ := RewindingLemmas.list_of_repeatWhile run
    rw [read] at failed
    cases o with
    | success v =>
      obtain ⟨values, rfl⟩ := listed v rfl
      cases values with
      | nil =>
        cases failed
        rfl
      | cons v values => cases failed
    | failure e => exact absurd rfl (notFailure e)
    | fault e => cases failed
    | refused => cases failed

/-! ## 4. Whole parses -/

theorem run_comesFrom {limits : Limits} (failed : (g.run p limits s).ending = .failure f) :
    g.RunComesFrom s p limits f := by
  cases cut : g.cutOff? p limits s with
  | some d =>
    obtain ⟨m, course, stood⟩ := FrameLemmas.leads_of_cutOff? cut
    obtain rfl := Ending.failure.inj ((Grammar.ending_of_cutOff? cut).1.symm.trans failed)
    have missing : ¬ g.HasFrames p limits s := Grammar.not_hasFrames_of_cutOff? cut
    exact .cutOff missing m d course stood ⟨rfl, Failure.tooDeepAt_reports _ _ _⟩
  | none =>
    have frames := Grammar.hasFrames_iff.mpr cut
    have accounted := parse_accounted (g := g) (s := s) p limits.start
    have run := Grammar.run_of_hasFrames frames
    cases reached : g.parse s p limits.start with
    | mk o c =>
      rw [reached] at accounted run
      cases o with
      | success v =>
        rw [run] at failed
        cases failed
      | failure e =>
        rw [run] at failed
        cases failed
        exact .parser frames accounted
      | fault e =>
        rw [run] at failed
        cases failed
      | refused =>
        obtain ⟨r, d, called, full, index, -⟩ := accounted
        have deep := Grammar.ending_of_refused frames (congrArg Prod.fst reached)
        have final : (g.run p limits s).final.index = d.index := by
          rw [run]
          exact index
        rw [final] at deep
        obtain rfl := Ending.failure.inj (deep.symm.trans failed)
        exact .refusal frames r d called full ⟨rfl, Failure.tooDeepAt_reports _ _ _⟩

end ProvenanceLemmas

open ProvenanceLemmas

/-- The only failures are those that something in the run accounts for.

* A parser that fails does so with the plain failure, with one that the grammar supplies as a value, for rejected values
  or in place of others, or with one that says what was expected where a labelled parser was started in this run. A
  whole parse may fail as well because a rule was called under a full guard or because the frames of the interpreter
  were used up, and then says where that was.
* Around a parser that fails, all combinators of `HandsOn` fail with the same failure, at any depth.
* A choice between two parsers or more fails only after all of them have failed, and only with the plain failure.
* A repetition that must succeed at least once fails only with the plain failure. -/
theorem failure_provenance (g : Grammar ρ) (s : Source) :
    (∀ p c f c', g.parse s p c = (.failure f, c') → g.ComesFrom s (.run p c []) f) ∧
    (∀ p (limits : Limits) f, (g.run p limits s).ending = .failure f → g.RunComesFrom s p limits f) ∧
    (∀ p c q d f d', g.Within s p c q d → g.parse s q d = (.failure f, d') → ∃ c', g.parse s p c = (.failure f, c')) ∧
    (∀ p q c f c', g.parse s (.orElse p q) c = (.failure f, c') ↔
      f = .plain ∧ ∃ e₁ c₁ e₂, g.parse s p c = (.failure e₁, c₁) ∧ g.parse s q c₁ = (.failure e₂, c')) ∧
    (∀ p q ps c f c', g.parse s (.choice (p :: q :: ps)) c = (.failure f, c') ↔
      f = .plain ∧ g.InRow s Outcome.Fails (p :: q :: ps) c c') ∧
    (∀ (p : Parser ρ) c f c', g.parse s p.many1 c = (.failure f, c') → f = .plain) := by
  refine ⟨?_, ?_, fun _ _ _ _ _ _ => failure_of_within, fun _ _ _ _ _ => orElse_failure_iff,
    fun _ _ _ _ _ _ => choice_failure_iff, fun _ _ _ _ => many1_failure⟩
  · intro p c f c' failed
    have accounted := parse_accounted (g := g) (s := s) p c
    rwa [failed] at accounted
  · exact fun _ _ _ => run_comesFrom

/-- A rule that calls itself behind every opening bracket and expects a digit behind anything else. -/
def callsItself : Grammar Unit := fun _ => .ok (Parser.one.bind fun
  | .str [0x28] => .rule ()
  | _ => .expecting .digit (text "a digit"))

/-- The digit is expected in the innermost of three rules, and the whole parse says so. -/
theorem innermost_failure :
    (callsItself.run (.rule ()) {} (.ofText (text "((xy"))).ending =
      .failure (.expectedAt (.ofText (text "((xy")) (text "a digit") 3) := by
  let s := Source.ofText (text "((xy")
  let inner : Parser Unit := .expecting .digit (text "a digit")
  let innermost : Cursor Unit := ⟨3, ⟨100, 3⟩, [.entered (), .entered (), .entered ()]⟩
  have nested : callsItself.Within s (.rule ()) (Limits.start {}) inner innermost :=
    .inside (.rule rfl rfl) (.inside (.bind_next rfl) (.inside (.rule rfl rfl) (.inside (.bind_next rfl)
      (.inside (.rule rfl rfl) (.inside (.bind_next rfl) .self)))))
  have failed : callsItself.parse s inner innermost = (.failure (.expectedAt s (text "a digit") 3), innermost) := rfl
  obtain ⟨c, failed⟩ := (failure_provenance callsItself s).2.2.1 _ _ _ _ _ _ nested failed
  rw [Grammar.run_of_hasFrames (Grammar.hasFrames_of_steps rfl), failed]
  rfl

end Descent
