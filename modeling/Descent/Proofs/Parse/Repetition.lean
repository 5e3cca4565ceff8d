import Descent.Proofs.Parse.Provenance

/-!
# Repetitions

A repetition calls its parser from where the last call has stopped, until a call fails or reads nothing. Which calls
these are is said by a chain of cursors: every call but the last one has moved the cursor on, so the chain is as long as
it can be. Nothing here asks how the parser is put together. It may be any function of the cursor that never moves the
cursor back, and a rule may be called in any way.

Results:
1. `exists_ends`: where no call aborts, there is a chain that ends.
2. `repeatWhile_of_ends`: the loop collects the values of such a chain, and no other call bears on what it comes to.
3. `next_above_cases`, `leads_above`: a call runs in the same way on top of whatever waits for it.
4. `leads_many_iff`: the moments of a repetition are its start, those of the calls of its chain, and its end.
5. `many_collects_chain`: all of it, also for a repetition that needs a value.
-/

namespace Descent

variable {ρ : Type} {s : Source}

/-- Neither a value nor a failure: a combinator does nothing but pass it on. -/
def Outcome.Aborts (o : Outcome) : Prop := ¬ o.Succeeds ∧ ¬ o.Fails

/-- A way of calling a parser that moves the cursor neither back nor out of the source. One that went on behind the end
of the source could be repeated forever. -/
def Onward (s : Source) (call : Cursor ρ → Reply ρ) : Prop :=
  ∀ c, c.index ≤ s.size → c.index ≤ (call c).2.index ∧ (call c).2.index ≤ s.size

/-! ## Chains -/

/-- Calls from a cursor on, each one from where the one before it has stopped. All of them come to values, and all but
the last one have moved the cursor on. -/
structure Chain (call : Cursor ρ → Reply ρ) (c : Cursor ρ) where
  /-- The number of calls. -/
  length : Nat
  /-- Where the first call starts, and behind it where each call stops. -/
  cursor : Nat → Cursor ρ
  value : Nat → Value
  start : cursor 0 = c
  succeeds : ∀ i < length, call (cursor i) = (.success (value i), cursor (i + 1))
  ordered : ∀ i < length, (cursor i).index ≤ (cursor (i + 1)).index
  advances : ∀ i, i + 1 < length → (cursor i).index < (cursor (i + 1)).index

namespace Chain

variable {call : Cursor ρ → Reply ρ} {c : Cursor ρ}

/-- The values of the first so many calls. -/
def before (chain : Chain call c) (i : Nat) : List Value := (List.range i).map chain.value

def values (chain : Chain call c) : List Value := chain.before chain.length

/-- The last call, too, has moved the cursor on. -/
def Ascends (chain : Chain call c) : Prop := ∀ i < chain.length, (chain.cursor i).index < (chain.cursor (i + 1)).index

/-- Why a repetition ends with a chain, with the number of calls that it has made by then and the cursor behind the last
of them. -/
inductive Ends (chain : Chain call c) : Nat → Cursor ρ → Prop
  /-- The last call of the chain has read nothing. -/
  | still {i : Nat} : chain.length = i + 1 → (chain.cursor (i + 1)).index = (chain.cursor i).index →
      chain.Ends (i + 1) (chain.cursor (i + 1))
  /-- One call behind the chain fails. -/
  | failed {f : Failure} {final : Cursor ρ} : chain.Ascends →
      call (chain.cursor chain.length) = (.failure f, final) → chain.Ends (chain.length + 1) final

/-- A loop that has called its parser from the cursor behind so many calls of the chain, and waits for what this call
comes to. -/
def waiting (chain : Chain call c) (p : Parser ρ) (i : Nat) : Waiting ρ :=
  ⟨c.index, .many p (i + 1) (chain.cursor i).index (chain.before i).reverse⟩

end Chain

/-- No call that a repetition makes aborts: neither the first one nor one behind calls that have all read something. -/
def NeverAborts (call : Cursor ρ → Reply ρ) (c : Cursor ρ) : Prop :=
  ∀ chain : Chain call c, chain.Ascends → ¬ (call (chain.cursor chain.length)).1.Aborts

/-- The same moment with more combinators waiting, behind those that wait already. -/
def Moment.above (outer : List (Waiting ρ)) : Moment ρ → Moment ρ
  | .run p c stack => .run p c (stack ++ outer)
  | .scan accept stop c stack => .scan accept stop c (stack ++ outer)
  | .back reply stack => .back reply (stack ++ outer)
  | .broken b => .broken b

/-- The moments of a repetition that makes so many calls along a chain. -/
inductive Chain.Moments {call : Cursor ρ → Reply ρ} {c : Cursor ρ} (chain : Chain call c) (g : Grammar ρ) (s : Source)
    (p : Parser ρ) (calls : Nat) (final : Cursor ρ) : Moment ρ → Prop
  | start : chain.Moments g s p calls final (.run (.many p) c [])
  /-- A moment of one of the calls, while the loop waits. -/
  | calling {i : Nat} {inner : Moment ρ} : i < calls → g.Leads s (.run p (chain.cursor i) []) inner →
      chain.Moments g s p calls final (inner.above [chain.waiting p i])
  | stop : chain.Moments g s p calls final (.back (.success (.list chain.values), final) [])

namespace RepetitionLemmas

open Descent.Parser MachineLemmas

variable {call call' : Cursor ρ → Reply ρ} {c c₁ final : Cursor ρ} {v : Value} {calls i : Nat}

/-! ## 1. Chains that end -/

/-- No calls. -/
def noCalls (call : Cursor ρ → Reply ρ) (c : Cursor ρ) : Chain call c where
  length := 0
  cursor _ := c
  value _ := .none
  start := rfl
  succeeds := nofun
  ordered := nofun
  advances := nofun

/-- One call, that has read nothing. -/
def oneCall (first : call c = (.success v, c₁)) (still : c₁.index = c.index) : Chain call c where
  length := 1
  cursor
    | 0 => c
    | _ + 1 => c₁
  value _ := v
  start := rfl
  succeeds
    | 0, _ => first
  ordered
    | 0, _ => Nat.le_of_eq still.symm
  advances _ more := absurd (Nat.lt_of_succ_lt_succ more) (Nat.not_lt_zero _)

theorem ahead_of_start (chain : Chain call c₁) (ahead : c.index < c₁.index) : c.index < (chain.cursor 0).index := by
  rw [chain.start]
  exact ahead

/-- One call that has moved the cursor on, and a chain from there. -/
def addCall (first : call c = (.success v, c₁)) (ahead : c.index < c₁.index) (chain : Chain call c₁) :
    Chain call c where
  length := chain.length + 1
  cursor
    | 0 => c
    | i + 1 => chain.cursor i
  value
    | 0 => v
    | i + 1 => chain.value i
  start := rfl
  succeeds
    | 0, _ => first.trans (congrArg _ chain.start.symm)
    | i + 1, more => chain.succeeds i (Nat.lt_of_succ_lt_succ more)
  ordered
    | 0, _ => Nat.le_of_lt (ahead_of_start chain ahead)
    | i + 1, more => chain.ordered i (Nat.lt_of_succ_lt_succ more)
  advances
    | 0, _ => ahead_of_start chain ahead
    | i + 1, more => chain.advances i (Nat.lt_of_succ_lt_succ more)

theorem ascends_addCall {chain : Chain call c₁} (first : call c = (.success v, c₁)) (ahead : c.index < c₁.index)
    (ascends : chain.Ascends) : (addCall first ahead chain).Ascends := by
  rintro (_ | i) more
  · exact ahead_of_start chain ahead
  · exact ascends i (Nat.lt_of_succ_lt_succ more)

theorem ends_addCall {chain : Chain call c₁} (first : call c = (.success v, c₁)) (ahead : c.index < c₁.index)
    (ends : chain.Ends calls final) : (addCall first ahead chain).Ends (calls + 1) final := by
  cases ends with
  | still last same => exact .still (i := _ + 1) (congrArg Nat.succ last) same
  | failed ascends failed => exact .failed (ascends_addCall first ahead ascends) failed

/-- Where no call aborts, there is a chain that ends. The induction is on what is left unread, which gets shorter with
every call that a further one comes behind. -/
theorem exists_ends (onward : Onward s call) (inside : c.index ≤ s.size) (returns : NeverAborts call c) :
    ∃ (chain : Chain call c) (calls : Nat) (final : Cursor ρ), chain.Ends calls final ∧
      calls ≤ s.size - c.index + 1 := by
  induction hleft : s.size - c.index using Nat.strongRecOn generalizing c with
  | ind left ih =>
    have aborted : ¬ (call c).1.Aborts := returns (noCalls call c) nofun
    have within := onward c inside
    cases reached : call c with
    | mk o c₁ =>
      rw [reached] at aborted within
      obtain ⟨start_le, le_end⟩ : c.index ≤ c₁.index ∧ c₁.index ≤ s.size := within
      cases o with
      | success v =>
        by_cases same : c₁.index = c.index
        · exact ⟨oneCall reached same, 1, c₁, .still (i := 0) rfl same, Nat.le_add_left ..⟩
        · have ahead : c.index < c₁.index := by omega
          have returns₁ : NeverAborts call c₁ := fun chain ascends =>
            returns (addCall reached ahead chain) (ascends_addCall reached ahead ascends)
          obtain ⟨chain, calls, final, ends, most⟩ := ih (s.size - c₁.index) (by omega) le_end returns₁ rfl
          exact ⟨addCall reached ahead chain, calls + 1, final, ends_addCall reached ahead ends, by omega⟩
      | failure f => exact ⟨noCalls call c, 1, c₁, .failed nofun reached, Nat.le_add_left ..⟩
      | fault e => exact absurd ⟨nofun, nofun⟩ aborted
      | refused => exact absurd ⟨nofun, nofun⟩ aborted

/-! ## 2. Loops -/

variable {chain : Chain call c}

/-- The values so far come latest first while the loop goes on. -/
theorem reverse_before_succ (chain : Chain call c) (i : Nat) :
    (chain.before (i + 1)).reverse = chain.value i :: (chain.before i).reverse := by
  simp [Chain.before, List.range_succ]

theorem pos_of_ends (ends : chain.Ends calls final) : 0 < calls := by
  cases ends <;> exact Nat.succ_pos _

/-- What comes of one of the calls: a further call, or the end of the repetition behind a value that was read from
nothing or behind a failure. -/
inductive Turns (chain : Chain call c) (calls : Nat) (final : Cursor ρ) (i : Nat) : Prop
  | more : i + 1 < calls → call (chain.cursor i) = (.success (chain.value i), chain.cursor (i + 1)) →
      (chain.cursor (i + 1)).index ≠ (chain.cursor i).index → Turns chain calls final i
  | still : i + 1 = calls → call (chain.cursor i) = (.success (chain.value i), final) →
      final.index = (chain.cursor i).index → chain.before (i + 1) = chain.values → Turns chain calls final i
  | failed {f : Failure} : i + 1 = calls → call (chain.cursor i) = (.failure f, final) →
      chain.before i = chain.values → Turns chain calls final i

theorem turns_of_ends (ends : chain.Ends calls final) (called : i < calls) : Turns chain calls final i := by
  cases ends with
  | @still last length same =>
    rcases Nat.lt_or_eq_of_le (Nat.le_of_lt_succ called) with earlier | rfl
    · have ahead := chain.advances i (by omega)
      exact .more (by omega) (chain.succeeds i (by omega)) (by omega)
    · exact .still rfl (chain.succeeds i (by omega)) same (by rw [Chain.values, length])
  | failed ascends failed =>
    rcases Nat.lt_or_eq_of_le (Nat.le_of_lt_succ called) with earlier | rfl
    · have ahead := ascends i earlier
      exact .more (by omega) (chain.succeeds i earlier) (by omega)
    · exact .failed rfl failed rfl

/-- A loop that has come some way along a chain collects the other values. It need only come to the same as the chain
where the chain makes its calls. -/
theorem repeatWhile_of_ends (ends : chain.Ends calls final)
    (same : ∀ i < calls, call' (chain.cursor i) = call (chain.cursor i)) {most : Nat} (called : i < calls)
    (enough : calls ≤ i + most) :
    repeatWhile call' most (chain.before i).reverse (chain.cursor i) = (.success (.list chain.values), final) := by
  induction most generalizing i with
  | zero => omega
  | succ most ih =>
    rw [repeatWhile, same i called]
    cases turns_of_ends ends called with
    | more more reached moved =>
      rw [reached]
      simp only [if_neg moved, ← reverse_before_succ]
      exact ih more (by omega)
    | still last reached unmoved all =>
      rw [reached]
      simp only [if_pos unmoved, ← reverse_before_succ, List.reverse_reverse, all]
    | failed last reached all =>
      rw [reached]
      simp only [List.reverse_reverse, all]

/-- A repetition collects the values of a chain that ends, whatever its parser comes to anywhere else. -/
theorem step_many_of_ends {enter : ρ → Cursor ρ → Reply ρ} {p : Parser ρ} (ends : chain.Ends calls final)
    (same : ∀ i < calls, p.step s enter (chain.cursor i) = call (chain.cursor i))
    (enough : calls ≤ s.size - c.index + 1) :
    p.many.step s enter c = (.success (.list chain.values), final) := by
  have enough₀ : calls ≤ 0 + (s.size - c.index + 1) := (Nat.zero_add _).symm ▸ enough
  have loop := repeatWhile_of_ends ends same (pos_of_ends ends) enough₀
  rw [chain.start] at loop
  exact loop

/-- A repetition that needs a value makes the same calls, and looks at the list behind them. -/
theorem step_many1_of_many {enter : ρ → Cursor ρ → Reply ρ} {p : Parser ρ} {values : List Value}
    (repeated : p.many.step s enter c = (.success (.list values), final)) :
    p.many1.step s enter c = (if values = [] then .failure .plain else .success (.list values), final) := by
  rw [many1, step, repeated]
  cases values <;> rfl

/-! ## 3. Calls on top of a stack -/

variable {g : Grammar ρ} {p : Parser ρ} {outer : List (Waiting ρ)} {m m' : Moment ρ}

theorem begin_above (p : Parser ρ) (c : Cursor ρ) (stack outer : List (Waiting ρ)) :
    g.begin s p c (stack ++ outer) = (g.begin s p c stack).above outer := by
  cases p with
  | satisfy accept =>
    rw [Grammar.begin, Grammar.begin]
    split
    · cases s.get? c.index <;> rfl
    · rfl
  | rule r =>
    rw [Grammar.begin, Grammar.begin]
    cases c.guard.enter with
    | none => rfl
    | some guard => cases g r <;> rfl
  | _ => rfl

theorem scan_above (accept : CodePoint → Bool) (stop : Nat) (c : Cursor ρ) (stack outer : List (Waiting ρ)) :
    s.scan accept stop c (stack ++ outer) = (s.scan accept stop c stack).above outer := by
  rw [Source.scan, Source.scan]
  split
  · cases s.get? stop with
    | none => rfl
    | some x =>
      simp only
      split <;> rfl
  · rfl

theorem resume_above (w : Waiting ρ) (reply : Reply ρ) (stack outer : List (Waiting ρ)) :
    w.resume s reply (stack ++ outer) = (w.resume s reply stack).above outer := by
  obtain ⟨start, task⟩ := w
  obtain ⟨o, c⟩ := reply
  cases task with
  | many p calls turn values =>
    cases o with
    | success v =>
      simp only [Waiting.resume]
      split <;> rfl
    | _ => rfl
  | expecting description =>
    cases o with
    | failure f =>
      simp only [Waiting.resume, Span.locate_self, Moment.ofSpan]
      rfl
    | _ => rfl
  | _ => cases o <;> rfl

/-- A step does not look at what waits below. -/
theorem next_above (step : g.next s m = some m') (outer : List (Waiting ρ)) :
    g.next s (m.above outer) = some (m'.above outer) := by
  cases m with
  | run p c stack =>
    cases step
    exact congrArg some (begin_above p c stack outer)
  | scan accept stop c stack =>
    cases step
    exact congrArg some (scan_above accept stop c stack outer)
  | back reply stack =>
    cases stack with
    | nil => cases step
    | cons w stack =>
      cases step
      exact congrArg some (resume_above w reply stack outer)
  | broken b => cases step

theorem leads_above (course : g.Leads s m m') (outer : List (Waiting ρ)) :
    g.Leads s (m.above outer) (m'.above outer) :=
  Relation.ReflTransGen.lift (Moment.above outer) (fun _ _ step => next_above step outer) _ _ course

/-- One step behind a moment of a call, the call still goes on, or it has come back to what waits below. -/
theorem next_above_cases {start inner : Moment ρ} {reply : Reply ρ} (ended : g.Leads s start (.back reply []))
    (reached : g.Leads s start inner) (step : g.next s (inner.above outer) = some m) :
    (∃ later, g.Leads s start later ∧ m = later.above outer) ∨ g.next s (.back reply outer) = some m := by
  cases goes : g.next s inner with
  | some later => exact .inl ⟨later, reached.tail goes, Option.some.inj (step.symm.trans (next_above goes outer))⟩
  | none =>
    rcases Relation.ReflTransGen.cases_head (leads_end ended reached) with rfl | ⟨later, goes', _⟩
    · exact .inr step
    · cases goes.symm.trans goes'

/-! ## 4. The moments of a repetition -/

/-- The moment behind so many calls of a repetition: a further call is to be started, or the repetition is over. -/
def stage (chain : Chain call c) (p : Parser ρ) (calls : Nat) (final : Cursor ρ) (i : Nat) : Moment ρ :=
  if i < calls then .run p (chain.cursor i) [chain.waiting p i]
  else .back (.success (.list chain.values), final) []

theorem stage_moments (i : Nat) : chain.Moments g s p calls final (stage chain p calls final i) := by
  rw [stage]
  split
  · next called => exact .calling called .refl
  · exact .stop

theorem next_start (ends : chain.Ends calls final) :
    g.next s (.run (.many p) c []) = some (stage chain p calls final 0) := by
  rw [stage, if_pos (pos_of_ends ends), Chain.waiting, chain.start]
  rfl

/-- What the loop does when a call comes back. -/
theorem next_back (ends : chain.Ends calls final)
    (same : ∀ i < calls, g.parse s p (chain.cursor i) = call (chain.cursor i)) (called : i < calls) :
    g.next s (.back (g.parse s p (chain.cursor i)) [chain.waiting p i]) = some (stage chain p calls final (i + 1)) := by
  rw [same i called, stage]
  cases turns_of_ends ends called with
  | more more reached moved =>
    rw [reached, if_pos more]
    simp only [Grammar.next, Chain.waiting, Waiting.resume, if_neg moved, ← reverse_before_succ]
  | still last reached unmoved all =>
    rw [reached, if_neg (by omega)]
    simp only [Grammar.next, Chain.waiting, Waiting.resume, if_pos unmoved, ← reverse_before_succ,
      List.reverse_reverse, all]
  | failed last reached all =>
    rw [reached, if_neg (by omega)]
    simp only [Grammar.next, Chain.waiting, Waiting.resume, List.reverse_reverse, all]

/-- Every stage is reached. -/
theorem leads_stage (ends : chain.Ends calls final)
    (same : ∀ i < calls, g.parse s p (chain.cursor i) = call (chain.cursor i)) (behind : i ≤ calls) :
    g.Leads s (.run (.many p) c []) (stage chain p calls final i) := by
  induction i with
  | zero => exact .single (next_start ends)
  | succ i ih =>
    have called : i < calls := behind
    have before := ih (Nat.le_of_lt called)
    rw [stage, if_pos called] at before
    have call := leads_parse g s p (chain.cursor i) [chain.waiting p i]
    exact (before.trans call).tail (next_back ends same called)

/-- One step leads from one of these moments to another one. -/
theorem next_moments (ends : chain.Ends calls final)
    (same : ∀ i < calls, g.parse s p (chain.cursor i) = call (chain.cursor i))
    (moment : chain.Moments g s p calls final m) (step : g.next s m = some m') :
    chain.Moments g s p calls final m' := by
  cases moment with
  | start =>
    rw [← Option.some.inj ((next_start ends).symm.trans step)]
    exact stage_moments 0
  | @calling i inner called reached =>
    rcases next_above_cases (leads_parse g s p (chain.cursor i) []) reached step with ⟨later, goes, rfl⟩ | back
    · exact .calling called goes
    · rw [← Option.some.inj ((next_back ends same called).symm.trans back)]
      exact stage_moments (i + 1)
  | stop => cases step

/-- A repetition makes the calls of its chain one behind another, and does nothing else. -/
theorem leads_many_iff (ends : chain.Ends calls final)
    (same : ∀ i < calls, g.parse s p (chain.cursor i) = call (chain.cursor i)) :
    g.Leads s (.run (.many p) c []) m ↔ chain.Moments g s p calls final m := by
  constructor
  · intro course
    induction course with
    | refl => exact .start
    | tail _ step ih => exact next_moments ends same ih step
  · intro moment
    cases moment with
    | start => exact .refl
    | @calling i inner called reached =>
      have before := leads_stage ends same (Nat.le_of_lt called)
      rw [stage, if_pos called] at before
      exact before.trans (leads_above reached [chain.waiting p i])
    | stop =>
      have last := leads_stage ends same (Nat.le_refl calls)
      rwa [stage, if_neg (Nat.lt_irrefl calls)] at last

/-- Over a set of rules, all calls of a chain are made under the same guard. -/
theorem guard_of_chain {levels : Nat} (chain : Chain (p.step s (g.call s levels)) c) (within : i ≤ chain.length) :
    (chain.cursor i).guard = c.guard := by
  induction i with
  | zero => rw [chain.start]
  | succ i ih =>
    have follows := step_follows (Grammar.call_follows (g := g) (s := s) levels) p (chain.cursor i)
    rw [chain.succeeds i within] at follows
    exact follows.guard.trans (ih (Nat.le_of_succ_le within))

theorem calls_le_of_ends (ends : chain.Ends calls final) : calls ≤ chain.length + 1 := by
  cases ends with
  | still length same => omega
  | failed => exact Nat.le_refl _

/-- Combinators move the cursor neither back nor out of the source, whatever the rules. -/
theorem onward_step (g : Grammar ρ) (levels : Nat) (p : Parser ρ) : Onward s (p.step s (g.call s levels)) := by
  intro c inside
  have follows := step_follows (Grammar.call_follows (g := g) (s := s) levels) p c
  exact ⟨follows.start_le, follows.le_size inside⟩

/-! ## 5. Parsers that never abort -/

theorem satisfy_returns {enter : ρ → Cursor ρ → Reply ρ} (accept : CodePoint → Bool) (c : Cursor ρ) :
    ¬ ((satisfy accept).step s enter c).1.Aborts := by
  rw [step]
  cases s.get? c.index with
  | none => exact fun aborted => aborted.2 ⟨_, rfl⟩
  | some x =>
    simp only
    split
    · exact fun aborted => aborted.1 ⟨_, rfl⟩
    · exact fun aborted => aborted.2 ⟨_, rfl⟩

theorem bind_returns {enter : ρ → Cursor ρ → Reply ρ} {p : Parser ρ} {next : Value → Parser ρ}
    (hp : ∀ c, ¬ (p.step s enter c).1.Aborts) (hnext : ∀ v c, ¬ ((next v).step s enter c).1.Aborts) (c : Cursor ρ) :
    ¬ ((bind p next).step s enter c).1.Aborts := by
  have first := hp c
  rw [step]
  split
  · exact hnext _ _
  · exact first

end RepetitionLemmas

open RepetitionLemmas

/-- A repetition collects the values of a chain of calls that cannot be longer, on every source and from every cursor
inside it, under every guard.

* Combinators never move the cursor back, whatever the rules. The rest is said of every parser that does not, with rules
  called in any way: a rule may be any function of the cursor. `Grammar.parse` is the case of `Grammar.call`.
* Where no call aborts, there is a chain that ends, and a repetition succeeds with its values. If the last call has read
  nothing, the cursor is left behind it and there is no further call. If not, there is one, which fails, and the cursor
  is left where this call leaves it.
* If a value is needed, the list is the same with the same cursor, unless it is empty: then there is the plain failure.
* A parser that comes to the same in these calls is repeated in the same way, whatever it comes to anywhere else.
* Over a set of rules, the moments of the repetition are its start, those of the calls in order, each with the loop
  waiting for it, and its end. -/
theorem many_collects_chain (p : Parser ρ) {c : Cursor ρ} (inside : c.index ≤ s.size) :
    (∀ (g : Grammar ρ) levels, Onward s (p.step s (g.call s levels))) ∧
    ∀ enter : ρ → Cursor ρ → Reply ρ, Onward s (p.step s enter) → NeverAborts (p.step s enter) c →
      ∃ (chain : Chain (p.step s enter) c) (calls : Nat) (final : Cursor ρ),
        chain.Ends calls final ∧
        p.many.step s enter c = (.success (.list chain.values), final) ∧
        p.many1.step s enter c =
          (if chain.values = [] then .failure .plain else .success (.list chain.values), final) ∧
        (∀ enter' (q : Parser ρ), (∀ i < calls, q.step s enter' (chain.cursor i) = p.step s enter (chain.cursor i)) →
          q.many.step s enter' c = (.success (.list chain.values), final)) ∧
        ∀ g : Grammar ρ, enter = g.call s c.guard.room →
          ∀ m, g.Leads s (.run p.many c []) m ↔ chain.Moments g s p calls final m := by
  refine ⟨fun g levels => onward_step g levels p, fun enter onward returns => ?_⟩
  obtain ⟨chain, calls, final, ends, enough⟩ := exists_ends onward inside returns
  have repeated : p.many.step s enter c = (.success (.list chain.values), final) :=
    step_many_of_ends ends (fun _ _ => rfl) enough
  refine ⟨chain, calls, final, ends, repeated, step_many1_of_many repeated,
    fun enter' q same => step_many_of_ends ends same enough, ?_⟩
  rintro g rfl m
  refine leads_many_iff ends fun i called => ?_
  have within : i ≤ chain.length := Nat.le_of_lt_succ (Nat.lt_of_lt_of_le called (calls_le_of_ends ends))
  rw [Grammar.parse, guard_of_chain chain within]

/-- The letter `a` and the letter `b` behind it. -/
def letterPair : Parser Empty := (Parser.char 0x61).right (Parser.char 0x62)

/-- Two pairs are collected behind the dash of `-ababac`. The third call reads one more letter before it fails, so the
cursor is left behind that letter. -/
theorem letterPairs_collected :
    let g : Grammar Empty := nofun
    let s : Source := .ofText (text "-ababac")
    let c : Cursor Empty := ⟨1, .ofRequest 1, []⟩
    let call := letterPair.step s (g.call s c.guard.room)
    c.index ≤ s.size ∧ Onward s call ∧ NeverAborts call c ∧
    ∃ (chain : Chain call c) (calls : Nat) (final : Cursor Empty),
      chain.Ends calls final ∧ chain.values = [.str (text "b"), .str (text "b")] ∧ final.index = 6 ∧
      (∀ m, g.Leads s (.run letterPair.many c []) m ↔ chain.Moments g s letterPair calls final m) := by
  intro g s c call
  have inside : c.index ≤ s.size := by decide +kernel
  obtain ⟨onward, collects⟩ := many_collects_chain letterPair inside
  have returns : NeverAborts call c := fun chain _ =>
    bind_returns (satisfy_returns _) (fun _ => satisfy_returns _) (chain.cursor chain.length)
  obtain ⟨chain, calls, final, ends, repeated, -, -, moments⟩ := collects _ (onward g _) returns
  have computed : letterPair.many.step s (g.call s c.guard.room) c =
      (.success (.list [.str (text "b"), .str (text "b")]), c.moveTo 6) := rfl
  have same := repeated.symm.trans computed
  simp only [Prod.mk.injEq, Outcome.success.injEq, Value.list.injEq] at same
  obtain ⟨values, rfl⟩ := same
  exact ⟨inside, onward g _, returns, chain, calls, c.moveTo 6, ends, values, rfl, moments g rfl⟩

end Descent
