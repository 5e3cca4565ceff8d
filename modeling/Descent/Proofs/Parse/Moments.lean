import Descent.Proofs.Parse.Frames

/-!
# What holds at every moment of a run

One invariant, `InOrder`, is kept by every step of the machine. It says where the cursor is, relative to the source and
to the offsets at which the waiting combinators started; how many turns a loop can have taken to get to where it is; and
how the guard counts the rules on the stack. A breakdown is out of order, so none is ever reached.

Results:
1. `next_inOrder`, `leads_inOrder`: one step and whole runs keep to the invariant.
2. `cursor_stays_inside`: the cursor never leaves what lies between its start and the end of the source, and nothing
   that the engine takes out of the source or builds for a diagnostic breaks down.
3. `run_terminates`: whole parses end, with bounded nesting and bounded loops on the way.
-/

namespace Descent

variable {ρ : Type}

/-! ## Stacks -/

/-- Whether a rule is being run. -/
def Task.isRule : Task ρ → Bool
  | .rule => true
  | _ => false

/-- The number of rules that are being run inside one another. -/
def nesting (stack : List (Waiting ρ)) : Nat := stack.countP fun w => w.task.isRule

/-- A waiting combinator has not started behind the offset. A loop has not taken its last turn behind it, and every
turn but the last one has read something. -/
def Waiting.Before (i : Nat) (w : Waiting ρ) : Prop :=
  w.start ≤ i ∧
    match w.task with
    | .many _ calls turn _ => w.start + calls ≤ turn + 1 ∧ turn ≤ i
    | _ => True

/-- The combinators on a stack have started one behind another, between two offsets. -/
def Stacked (low : Nat) : Nat → List (Waiting ρ) → Prop
  | i, [] => low ≤ i
  | i, w :: stack => w.Before i ∧ Stacked low w.start stack

/-- A run that started at offset `low` under the guard `outer` is in order. -/
structure InOrder (s : Source) (low : Nat) (outer : Guard) (c : Cursor ρ) (stack : List (Waiting ρ)) : Prop where
  inside : c.index ≤ s.size
  stacked : Stacked low c.index stack
  limit : c.guard.limit = outer.limit
  depth : c.guard.depth = outer.depth + nesting stack
  roomy : nesting stack ≤ outer.room

namespace Moment

/-- A moment of a run that started at offset `low` under the guard `outer` is in order. -/
def InOrder (s : Source) (low : Nat) (outer : Guard) : Moment ρ → Prop
  | .run _ c stack => Descent.InOrder s low outer c stack
  | .scan _ stop c stack => c.index ≤ stop ∧ stop ≤ s.size ∧ Descent.InOrder s low outer c stack
  | .back reply stack => Descent.InOrder s low outer reply.2 stack
  | .broken _ => False

end Moment

section Order

variable {g : Grammar ρ} {s : Source} {low : Nat} {outer : Guard} {c : Cursor ρ} {stack : List (Waiting ρ)}

/-! ## Offsets on a stack -/

theorem Waiting.Before.mono {i j : Nat} {w : Waiting ρ} (h : w.Before i) (hij : i ≤ j) : w.Before j := by
  obtain ⟨start, task⟩ := w
  unfold Waiting.Before at h ⊢
  obtain ⟨started, turns⟩ := h
  refine ⟨Nat.le_trans started hij, ?_⟩
  cases task with
  | many p calls turn values => exact ⟨turns.1, Nat.le_trans turns.2 hij⟩
  | _ => trivial

theorem Stacked.mono {i j : Nat} (h : Stacked low i stack) (hij : i ≤ j) : Stacked low j stack := by
  cases stack with
  | nil => exact Nat.le_trans h hij
  | cons w stack => exact ⟨h.1.mono hij, h.2⟩

theorem Stacked.low_le {i : Nat} (h : Stacked low i stack) : low ≤ i := by
  induction stack generalizing i with
  | nil => exact h
  | cons w stack ih => exact Nat.le_trans (ih h.2) h.1.1

theorem Stacked.before_of_mem {i : Nat} {w : Waiting ρ} (h : Stacked low i stack) (hw : w ∈ stack) : w.Before i := by
  induction stack generalizing i with
  | nil => cases hw
  | cons top stack ih =>
    rcases List.mem_cons.mp hw with rfl | hw
    · exact h.1
    · exact (ih h.2 hw).mono h.1.1

/-! ## Cursors in order -/

theorem nesting_cons (w : Waiting ρ) (stack : List (Waiting ρ)) :
    nesting (w :: stack) = nesting stack + if w.task.isRule then 1 else 0 := List.countP_cons

namespace InOrder

theorem start (p : c.index ≤ s.size) : InOrder s c.index c.guard c [] where
  inside := p
  stacked := Nat.le_refl _
  limit := rfl
  depth := (Int.add_zero _).symm
  roomy := Nat.zero_le _

theorem note (h : InOrder s low outer c stack) (e : Event ρ) : InOrder s low outer (c.note e) stack :=
  ⟨h.inside, h.stacked, h.limit, h.depth, h.roomy⟩

/-- Reading on. -/
theorem moveTo {i : Nat} (h : InOrder s low outer c stack) (ahead : c.index ≤ i) (inside : i ≤ s.size) :
    InOrder s low outer (c.moveTo i) stack :=
  ⟨inside, h.stacked.mono ahead, h.limit, h.depth, h.roomy⟩

/-- A combinator other than a rule call waits. -/
theorem push {w : Waiting ρ} (h : InOrder s low outer c stack) (task : w.task.isRule = false)
    (before : w.Before c.index) (below : Stacked low w.start stack) : InOrder s low outer c (w :: stack) where
  inside := h.inside
  stacked := ⟨before, below⟩
  limit := h.limit
  depth := by rw [nesting_cons, task]; exact h.depth
  roomy := by rw [nesting_cons, task]; exact h.roomy

/-- A combinator other than a rule call waits no longer, and the cursor stays. -/
theorem pop {w : Waiting ρ} (h : InOrder s low outer c (w :: stack)) (task : w.task.isRule = false) :
    InOrder s low outer c stack where
  inside := h.inside
  stacked := h.stacked.2.mono h.stacked.1.1
  limit := h.limit
  depth := by have depth := h.depth; rwa [nesting_cons, task] at depth
  roomy := by have roomy := h.roomy; rwa [nesting_cons, task] at roomy

/-- A combinator waits no longer, and the cursor goes back to where the combinator started. -/
theorem rewind {w : Waiting ρ} (h : InOrder s low outer c (w :: stack)) (task : w.task.isRule = false) :
    InOrder s low outer (c.moveTo w.start) stack :=
  ⟨Nat.le_trans h.stacked.1.1 h.inside, h.stacked.2, h.limit, (h.pop task).depth, (h.pop task).roomy⟩

/-- The guard lets a rule in only where there is room for one more on the stack. -/
theorem enter {guard : Guard} (h : InOrder s low outer c stack) (entered : c.guard.enter = some guard) :
    InOrder s low outer { c with guard } (⟨c.index, .rule⟩ :: stack) := by
  have depth := h.depth
  have limit := h.limit
  unfold Guard.enter Guard.isExceeded at entered
  split at entered
  · cases entered
  · next below =>
    cases entered
    simp only [decide_eq_true_eq] at below
    refine ⟨h.inside, ⟨⟨Nat.le_refl _, trivial⟩, h.stacked⟩, limit, ?_, ?_⟩
    · rw [nesting_cons]
      simp only [Task.isRule, if_true]
      omega
    · rw [nesting_cons]
      simp only [Task.isRule, if_true, Guard.room]
      omega

/-- A rule comes back, and the guard is left. -/
theorem leave {start : Nat} (h : InOrder s low outer c (⟨start, .rule⟩ :: stack)) :
    InOrder s low outer { c with guard := c.guard.leave } stack := by
  have depth := h.depth
  have roomy := h.roomy
  rw [nesting_cons] at depth roomy
  simp only [Task.isRule, if_true] at depth roomy
  refine ⟨h.inside, h.stacked.2.mono h.stacked.1.1, h.limit, ?_, by omega⟩
  show c.guard.depth - 1 = _
  omega

/-- A loop takes at most one turn more than there is to read behind its start. -/
theorem calls_le (h : InOrder s low outer c stack) {w : Waiting ρ} (hw : w ∈ stack) {p : Parser ρ}
    {calls turn : Nat} {values : List Value} (loop : w.task = .many p calls turn values) :
    calls ≤ s.size - w.start + 1 := by
  have inside := h.inside
  obtain ⟨started, turns⟩ := h.stacked.before_of_mem hw
  rw [loop] at turns
  simp only at turns
  omega

end InOrder

namespace MomentLemmas

open MachineLemmas

/-! ## 1. The invariant -/

/-- A parser starts in order. -/
theorem begin_inOrder (h : InOrder s low outer c stack) (p : Parser ρ) :
    (g.begin s p c stack).InOrder s low outer := by
  -- Most combinators start their first part at once and wait from the offset where they are.
  have waits : ∀ {task : Task ρ}, task.isRule = false → Waiting.Before c.index ⟨c.index, task⟩ →
      InOrder s low outer c (⟨c.index, task⟩ :: stack) := fun task before => h.push task before h.stacked
  cases p with
  | satisfy accept =>
    rw [Grammar.begin]
    split
    · next inside =>
      cases found : s.get? c.index with
      | none => exact Source.get?_ne_none inside found
      | some x =>
        simp only [Moment.InOrder]
        split
        · exact h.moveTo (Nat.le_succ _) inside
        · exact h
    · exact h
  | literal t =>
    simp only [Grammar.begin, Moment.InOrder]
    split
    · next stands => exact h.moveTo (Nat.le_add_right _ _) (Source.add_length_le_of_holds stands)
    · exact h
  | span accept => exact ⟨Nat.le_refl _, h.inside, h⟩
  | eof => exact h
  | offset => exact h
  | pure v => exact h
  | fault e => exact h
  | bind p next => exact waits rfl ⟨Nat.le_refl _, trivial⟩
  | orElse p q => exact waits rfl ⟨Nat.le_refl _, trivial⟩
  | attempt p => exact waits rfl ⟨Nat.le_refl _, trivial⟩
  | suchThat p accept rejection => exact waits rfl ⟨Nat.le_refl _, trivial⟩
  | recover p fallback => exact waits rfl ⟨Nat.le_refl _, trivial⟩
  | expecting p description => exact waits rfl ⟨Nat.le_refl _, trivial⟩
  | many p => exact waits rfl ⟨Nat.le_refl _, Nat.le_refl _, Nat.le_refl _⟩
  | trace p label => exact waits rfl ⟨Nat.le_refl _, trivial⟩
  | rule r =>
    rw [Grammar.begin]
    split
    · exact h.note _
    · next guard entered =>
      have inside := (h.enter entered).note (.entered r)
      cases g r with
      | ok p => exact inside
      | error e => exact inside

/-- A waiting combinator goes on in order. -/
theorem resume_inOrder {w : Waiting ρ} {o : Outcome} (h : InOrder s low outer c (w :: stack)) :
    (w.resume s (o, c) stack).InOrder s low outer := by
  obtain ⟨start, task⟩ := w
  cases task with
  | bind next =>
    cases o <;> exact h.pop rfl
  | orElse q =>
    have popped := h.pop rfl
    cases o with
    | failure f => exact popped.push rfl ⟨h.stacked.1.1, trivial⟩ h.stacked.2
    | _ => exact popped
  | lastAlternative =>
    cases o <;> exact h.pop rfl
  | attempt =>
    cases o with
    | failure f => exact h.rewind rfl
    | _ => exact h.pop rfl
  | suchThat accept rejection =>
    cases o with
    | success v =>
      simp only [Waiting.resume, Moment.InOrder]
      split
      · exact h.pop rfl
      · exact h.rewind rfl
    | _ => exact h.pop rfl
  | recover fallback =>
    cases o <;> exact h.pop rfl
  | expecting description =>
    cases o with
    | failure f =>
      simp only [Waiting.resume, Span.locate_self, Moment.ofSpan]
      exact h.pop rfl
    | _ => exact h.pop rfl
  | many p calls turn values =>
    obtain ⟨started, turns, turned⟩ := h.stacked.1
    have popped := h.pop rfl
    cases o with
    | success v =>
      simp only [Waiting.resume]
      split
      · exact popped
      · next moved =>
        -- The turn has read something, so there is one more turn to the same length.
        refine popped.push rfl ⟨started, ?_, Nat.le_refl _⟩ h.stacked.2
        simp only at turns turned ⊢
        omega
    | _ => exact popped
  | trace label =>
    cases o with
    | success v => exact (h.pop rfl).note _
    | failure f => exact (h.pop rfl).note _
    | _ => exact h.pop rfl
  | rule =>
    cases o <;> exact h.leave

/-- One step keeps to the invariant. -/
theorem next_inOrder {m m' : Moment ρ} (h : m.InOrder s low outer) (step : g.next s m = some m') :
    m'.InOrder s low outer := by
  cases m with
  | run p c stack =>
    cases step
    exact begin_inOrder h p
  | scan accept stop c stack =>
    cases step
    obtain ⟨ahead, inside, h⟩ := h
    unfold Source.scan
    split
    · next more =>
      cases found : s.get? stop with
      | none => exact Source.get?_ne_none more found
      | some x =>
        simp only
        split
        · exact ⟨Nat.le_succ_of_le ahead, more, h⟩
        · exact h.moveTo ahead inside
    · exact h.moveTo ahead inside
  | back reply stack =>
    cases stack with
    | nil => cases step
    | cons w stack =>
      cases step
      exact resume_inOrder h
  | broken b => cases step

/-- Whole runs keep to the invariant. -/
theorem leads_inOrder {m m' : Moment ρ} (h : m.InOrder s low outer) (course : g.Leads s m m') :
    m'.InOrder s low outer := by
  induction course with
  | refl => exact h
  | tail _ step ih => exact next_inOrder ih step

/-- A moment in order is no breakdown: there is a cursor, and it is in order with the stack. -/
theorem inOrder_cursor {m : Moment ρ} (h : m.InOrder s low outer) :
    (∀ b, m ≠ .broken b) ∧ ∃ c, m.cursor? = some c ∧ InOrder s low outer c m.stack := by
  cases m with
  | run p c stack => exact ⟨nofun, c, rfl, h⟩
  | scan accept stop c stack => exact ⟨nofun, c, rfl, h.2.2⟩
  | back reply stack => exact ⟨nofun, reply.2, rfl, h⟩
  | broken b => exact h.elim

/-- A run in order from its first moment on, whatever it starts with. -/
theorem run_inOrder (p : Parser ρ) (inside : c.index ≤ s.size) {m : Moment ρ} (course : g.Leads s (.run p c []) m) :
    m.InOrder s c.index c.guard :=
  leads_inOrder (m := .run p c []) (InOrder.start inside) course

/-- A value comes with the offsets where its parser started and where it stopped. -/
theorem parse_withRange (p : Parser ρ) (c : Cursor ρ) :
    g.parse s p.withRange c = match g.parse s p c with
      | (.success v, c') => (.success (.tuple [v, .tuple [.int c.index, .int c'.index]]), c')
      | reply => reply := by
  rw [Parser.withRange, Grammar.parse_bind]
  show g.parse s (.bind p _) c = _
  rw [Grammar.parse_bind]
  rfl

theorem range_of_parse_withRange {p : Parser ρ} {c c' : Cursor ρ} {v : Value}
    (h : g.parse s p.withRange c = (.success v, c')) :
    ∃ w, v = .tuple [w, .tuple [.int c.index, .int c'.index]] ∧ c.index ≤ c'.index := by
  have follows := Grammar.parse_follows (g := g) (s := s) p c
  rw [parse_withRange] at h
  cases reached : g.parse s p c with
  | mk o c₁ =>
    rw [reached] at h follows
    cases o with
    | success w =>
      cases h
      exact ⟨w, rfl, follows.start_le⟩
    | _ => cases h

/-- The span of a refusal passes the checks on its numbers. -/
theorem endingOrBreakdown_eq_ok (reply : Reply ρ) : reply.endingOrBreakdown s = .ok (reply.ending s) := by
  obtain ⟨o, c⟩ := reply
  cases o with
  | refused =>
    unfold Reply.endingOrBreakdown
    simp only [Span.locate_self]
    rfl
  | _ => rfl

end MomentLemmas

open MachineLemmas MomentLemmas

/-! ## 2. Where the cursor can be -/

/-- A cursor that starts inside the source stays between its start and the end of the source, for every parser over
every set of rules.

* So it stands behind the run, whatever the run comes to: a value, a failure, a fault or a refusal.
* So it stands at every moment of the run, and none of them is a breakdown: no code point is taken from an offset that
  holds none, and no span is built of numbers that make none. The run ends with the reply of `Grammar.parse`.
* A range never stops in front of its start, and the span of a refusal is one, too. -/
theorem cursor_stays_inside {g : Grammar ρ} {s : Source} {p : Parser ρ} {c : Cursor ρ} (inside : c.index ≤ s.size) :
    (c.index ≤ (g.parse s p c).2.index ∧ (g.parse s p c).2.index ≤ s.size) ∧
    g.Leads s (.run p c []) (.back (g.parse s p c) []) ∧
    (∀ m, g.Leads s (.run p c []) m → (∀ b, m ≠ .broken b) ∧
      ∃ c', m.cursor? = some c' ∧ c.index ≤ c'.index ∧ c'.index ≤ s.size) ∧
    (∀ (q : Parser ρ) c₁ v c₂, g.parse s q.withRange c₁ = (.success v, c₂) →
      ∃ w, v = .tuple [w, .tuple [.int c₁.index, .int c₂.index]] ∧ c₁.index ≤ c₂.index) ∧
    Reply.endingOrBreakdown s (g.parse s p c) = .ok (Reply.ending s (g.parse s p c)) := by
  have ended := leads_parse g s p c []
  have final := run_inOrder p inside ended
  refine ⟨⟨final.stacked, final.inside⟩, ended, fun m course => ?_, fun q c₁ v c₂ h => ?_, ?_⟩
  · obtain ⟨whole, c', found, order⟩ := inOrder_cursor (run_inOrder p inside course)
    exact ⟨whole, c', found, order.stacked.low_le, order.inside⟩
  · exact range_of_parse_withRange h
  · exact endingOrBreakdown_eq_ok _

/-- Digits between two quotation marks, with what was expected if there are none, and the range that they take up. -/
def quotedDigits : Parser Empty :=
  ((Parser.char 0x22).right (Parser.digit.many1.expecting (text "digits"))).left (Parser.char 0x22) |>.withRange

/-- Behind `x`, a quotation mark is followed by the end of the source. The cursor stops there, behind its start at
offset one. -/
theorem quotedDigits_stays_inside :
    1 ≤ (Source.ofText (text "x\"")).size ∧
    1 ≤ (Grammar.parse nofun (.ofText (text "x\"")) quotedDigits ⟨1, .ofRequest 100, []⟩).2.index ∧
    (Grammar.parse nofun (.ofText (text "x\"")) quotedDigits ⟨1, .ofRequest 100, []⟩).2.index ≤
      (Source.ofText (text "x\"")).size := by
  have inside : 1 ≤ (Source.ofText (text "x\"")).size := by decide +kernel
  exact ⟨inside, (cursor_stays_inside (c := ⟨1, .ofRequest 100, []⟩) inside).1⟩

/-! ## 3. Whole parses end -/

/-- Every whole parse ends, for every parser over every set of rules, under every limit on nesting.

* From its first moment on, the run leads to a reply, and there is no endless run beside it. If the interpreter has the
  frames for the parse, it ends as that reply says: with its value, its failure or its fault, or where a rule was
  refused, with the failure of a parse that nests too deeply.
* If the interpreter has not, the parse is cut off at a moment of the run, and ends there with such a failure, too.
* No moment of the run leads anywhere else. At none of them are more rules being run inside one another than the clamped
  limit allows, and no loop has started its parser more often than there are offsets from the start of the loop to the
  end of the source, both included. -/
theorem run_terminates (g : Grammar ρ) (s : Source) (p : Parser ρ) (limits : Limits) :
    ∃ reply : Reply ρ,
      g.Leads s (p.firstMoment limits) (.back reply []) ∧
      Acc (fun m' m => g.next s m = some m') (p.firstMoment limits) ∧
      (g.HasFrames p limits s → (g.run p limits s).final = reply.2 ∧
        match reply.1 with
        | .success v => (g.run p limits s).ending = .success v
        | .failure f => (g.run p limits s).ending = .failure f
        | .fault e => (g.run p limits s).ending = .fault e
        | .refused => ∃ f, (g.run p limits s).ending = .failure f ∧
            f = .tooDeepAt s reply.2.guard.limit reply.2.index ∧
            f.ReportsDepth s reply.2.index reply.2.guard.limit) ∧
      (∀ c, g.cutOff? p limits s = some c →
        (∃ m, g.Leads s (p.firstMoment limits) m ∧ m.cursor? = some c) ∧ (g.run p limits s).final.index = c.index ∧
          ∃ f, (g.run p limits s).ending = .failure f ∧ f.ReportsDepth s c.index limits.granted) ∧
      ∀ m, g.Leads s (p.firstMoment limits) m →
        g.Leads s m (.back reply []) ∧
        (nesting m.stack : Int) ≤ max 0 limits.granted ∧
        ∀ w ∈ m.stack, ∀ q calls turn values, w.task = .many q calls turn values →
          calls ≤ s.size - w.start + 1 := by
  have ended := leads_parse g s p limits.start []
  refine ⟨_, ended, acc_of_leads ended, fun frames => ?_, fun c cut => ?_, fun m course => ?_⟩
  · rw [Grammar.run_of_hasFrames frames]
    cases g.parse s p limits.start with
    | mk o c =>
      refine ⟨rfl, ?_⟩
      cases o with
      | refused => exact ⟨_, rfl, rfl, Failure.tooDeepAt_reports _ _ _⟩
      | _ => rfl
  · obtain ⟨ending, final⟩ := Grammar.ending_of_cutOff? cut
    exact ⟨FrameLemmas.leads_of_cutOff? cut, final, _, ending, Failure.tooDeepAt_reports _ _ _⟩
  · obtain ⟨-, c, -, order⟩ := inOrder_cursor (run_inOrder p (Nat.zero_le _) course)
    refine ⟨leads_end ended course, ?_, fun w hw q calls turn values loop => order.calls_le hw loop⟩
    have roomy : nesting m.stack ≤ (limits.granted - 0).toNat := order.roomy
    omega

/-- A rule that repeats itself, without reading anything in between. -/
def selfRepeating : Grammar Unit := fun _ => .ok (.many (.rule ()))

/-- The moment at which its loop starts the rule once more. -/
def repeatedCall : Moment Unit :=
  .run (.rule ()) ⟨0, ⟨1, 1⟩, [.entered ()]⟩ [⟨0, .many (.rule ()) 1 0 []⟩, ⟨0, .rule⟩]

/-- With one level allowed, the rule is to be refused when its loop starts it once more. At that moment one rule is
being run and the loop has taken one turn, and the parse ends from there. -/
theorem selfRepeating_ends :
    selfRepeating.Leads (.ofText (text "x")) ((Parser.rule ()).firstMoment { depth := 1 }) repeatedCall ∧
    nesting repeatedCall.stack = 1 ∧
    (nesting repeatedCall.stack : Int) ≤ max 0 (Guard.clamp 1 Guard.reserve) ∧
    1 ≤ (Source.ofText (text "x")).size - 0 + 1 ∧
    ∃ reply : Reply Unit, selfRepeating.Leads (.ofText (text "x")) repeatedCall (.back reply []) := by
  obtain ⟨reply, -, -, -, -, everywhere⟩ := run_terminates selfRepeating (.ofText (text "x")) (.rule ()) { depth := 1 }
  have called : selfRepeating.Leads (.ofText (text "x")) ((Parser.rule ()).firstMoment { depth := 1 })
      repeatedCall := by
    refine leads_of_next (n := .run (.many (.rule ())) ⟨0, ⟨1, 1⟩, [.entered ()]⟩ [⟨0, .rule⟩]) rfl ?_
    exact leads_of_next rfl .refl
  obtain ⟨ends, nested, turns⟩ := everywhere _ called
  exact ⟨called, rfl, nested, turns ⟨0, .many (.rule ()) 1 0 []⟩ List.mem_cons_self _ _ _ _ rfl, reply, ends⟩

end Order
end Descent
