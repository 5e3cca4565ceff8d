import Descent.Proofs.Parse.Log
import Descent.Proofs.Parse.Refusal
import Mathlib.Data.List.Basic

/-!
# Tracing

A traced parser notes how it ended and does nothing else. Taking every trace out of a parser and out of the rules that
it calls changes neither where it gets to nor which rules it enters. The records themselves are accounted for by the
calls that a run makes: a tree, in which a call stands above the calls made inside it. Each traced call that comes to a
value or a failure leaves one record when it does so, behind the records of all calls made inside it.

Results:
1. `step_untraced`, `parse_untraced`: one parser, and every parser over every set of rules, with and without its traces.
2. `accounts`: what one call adds to the records, in terms of the calls that it makes itself.
3. `hasTree`, `unfolds_unique`, `recorded_of_unfolds`: the tree of all calls, and the records that it stands for.
4. `tracing_transparent`: both, for whole runs.
-/

namespace Descent

variable {ρ : Type}

/-! ## Without traces -/

/-- The parser with every trace taken out of it. -/
def Parser.untraced : Parser ρ → Parser ρ
  | .satisfy accept => .satisfy accept
  | .literal t => .literal t
  | .span accept => .span accept
  | .eof => .eof
  | .offset => .offset
  | .pure v => .pure v
  | .fault e => .fault e
  | .bind p next => .bind p.untraced fun v => (next v).untraced
  | .orElse p q => .orElse p.untraced q.untraced
  | .attempt p => .attempt p.untraced
  | .suchThat p accept rejection => .suchThat p.untraced accept rejection
  | .recover p fallback => .recover p.untraced fallback
  | .expecting p description => .expecting p.untraced description
  | .many p => .many p.untraced
  | .trace p _ => p.untraced
  | .rule r => .rule r

/-- The rules with every trace taken out of the parsers that they stand for. -/
def Grammar.untraced (g : Grammar ρ) : Grammar ρ := fun r => (g r).map Parser.untraced

/-- Whether an event is the record of a traced parser. -/
def Event.isTraced : Event ρ → Bool
  | .traced _ => true
  | _ => false

/-- The cursor without the records of traced parsers. -/
def Cursor.untraced (c : Cursor ρ) : Cursor ρ := { c with events := c.events.filter (!·.isTraced) }

def Reply.untraced (reply : Reply ρ) : Reply ρ := (reply.1, reply.2.untraced)

/-- The rules that were entered are no traces. -/
@[simp] theorem Cursor.rules_untraced (c : Cursor ρ) : c.untraced.rules = c.rules := by
  unfold rules untraced
  rw [← List.filter_reverse, List.filterMap_filter]
  congr 1
  funext event
  cases event <;> rfl

@[simp] theorem Cursor.traces_untraced (c : Cursor ρ) : c.untraced.traces = [] := by
  unfold traces untraced
  rw [← List.filter_reverse, List.filterMap_filter, List.filterMap_eq_nil_iff]
  intro event _
  cases event <;> rfl

/-! ## 1. Traced and untraced runs -/

namespace TracingLemmas

variable {s : Source} {g : Grammar ρ}

/-- The second way of running does what the first one does, without traces. -/
def Erases (run run' : Cursor ρ → Reply ρ) : Prop := ∀ c, run' c.untraced = Reply.untraced (run c)

theorem repeatWhile_untraced {run run' : Cursor ρ → Reply ρ} (h : Erases run run') (most : Nat)
    (values : List Value) : Erases (Parser.repeatWhile run most values) (Parser.repeatWhile run' most values) := by
  induction most generalizing values with
  | zero => exact fun _ => rfl
  | succ most ih =>
    intro c
    rw [Parser.repeatWhile, Parser.repeatWhile, h c]
    cases run c with
    | mk o c' =>
      cases o with
      | success v =>
        show (if c'.index = c.index then _ else _) = Reply.untraced (if c'.index = c.index then _ else _)
        split
        · rfl
        · exact ih (v :: values) c'
      | failure f => rfl
      | fault e => rfl
      | refused => rfl

/-- One parser comes to the same without its traces, given that rule calls do. -/
theorem step_untraced {enter enter' : ρ → Cursor ρ → Reply ρ} (henter : ∀ r, Erases (enter r) (enter' r))
    (p : Parser ρ) : Erases (p.step s enter) (p.untraced.step s enter') := by
  induction p with
  | satisfy accept =>
    intro c
    rw [Parser.untraced, Parser.step, Parser.step, Cursor.untraced]
    cases s.get? c.index with
    | none => rfl
    | some x =>
      simp only
      split <;> rfl
  | literal t =>
    intro c
    rw [Parser.untraced, Parser.step, Parser.step, Cursor.untraced]
    split <;> rfl
  | span accept => exact fun _ => rfl
  | eof => exact fun _ => rfl
  | offset => exact fun _ => rfl
  | pure v => exact fun _ => rfl
  | fault e => exact fun _ => rfl
  | bind p next ihp ihnext =>
    intro c
    rw [Parser.untraced, Parser.step, Parser.step, ihp c]
    cases p.step s enter c with
    | mk o c' =>
      cases o with
      | success v => exact ihnext v c'
      | _ => rfl
  | orElse p q ihp ihq =>
    intro c
    rw [Parser.untraced, Parser.step, Parser.step, ihp c]
    cases p.step s enter c with
    | mk o c' =>
      cases o with
      | failure f =>
        simp only [Reply.untraced, ihq c']
        cases q.step s enter c' with
        | mk o' c'' => cases o' <;> rfl
      | _ => rfl
  | attempt p ih =>
    intro c
    rw [Parser.untraced, Parser.step, Parser.step, ih c]
    cases p.step s enter c with
    | mk o c' => cases o <;> rfl
  | suchThat p accept rejection ih =>
    intro c
    rw [Parser.untraced, Parser.step, Parser.step, ih c]
    cases p.step s enter c with
    | mk o c' =>
      cases o with
      | success v =>
        simp only [Reply.untraced]
        split <;> rfl
      | _ => rfl
  | recover p fallback ih =>
    intro c
    rw [Parser.untraced, Parser.step, Parser.step, ih c]
    cases p.step s enter c with
    | mk o c' => cases o <;> rfl
  | expecting p description ih =>
    intro c
    rw [Parser.untraced, Parser.step, Parser.step, ih c]
    cases p.step s enter c with
    | mk o c' => cases o <;> rfl
  | many p ih => exact fun c => repeatWhile_untraced ih (s.size - c.index + 1) [] c
  | trace p label ih =>
    -- The record stands at the head of the traced log and nowhere in the other one.
    intro c
    rw [Parser.untraced, Parser.step, ih c]
    cases p.step s enter c with
    | mk o c' => cases o <;> rfl
  | rule r => exact henter r

theorem call_untraced (levels : Nat) (r : ρ) : Erases (g.call s levels r) (g.untraced.call s levels r) := by
  induction levels generalizing r with
  | zero => exact fun _ => rfl
  | succ levels ih =>
    intro c
    rw [Grammar.call, Grammar.call, Cursor.untraced, Grammar.untraced]
    cases c.guard.enter with
    | none => rfl
    | some guard =>
      cases g r with
      | error e => rfl
      | ok p =>
        have body := step_untraced (s := s) ih p ({ c with guard }.note (.entered r))
        exact congrArg (fun reply : Reply ρ => (reply.1, { reply.2 with guard := reply.2.guard.leave })) body

end TracingLemmas

open TracingLemmas

variable {s : Source} {g : Grammar ρ}

/-- Without traces, a parser comes to the same, with the same log but for the traces. -/
theorem parse_untraced (p : Parser ρ) (c : Cursor ρ) :
    g.untraced.parse s p.untraced c.untraced = (g.parse s p c).untraced :=
  step_untraced (call_untraced c.guard.room) p c

/-- A whole parse ends in the same way without traces, and where it ended with them, if there are the frames for it with
them and without. -/
theorem run_untraced (p : Parser ρ) (limits : Limits) (frames : g.HasFrames p limits s)
    (frames' : g.untraced.HasFrames p.untraced limits s) :
    (g.untraced.run p.untraced limits s).ending = (g.run p limits s).ending ∧
    (g.untraced.run p.untraced limits s).final = (g.run p limits s).final.untraced := by
  have reply : g.untraced.parse s p.untraced limits.start = Reply.untraced (g.parse s p limits.start) :=
    parse_untraced p limits.start
  rw [Grammar.run_of_hasFrames frames, Grammar.run_of_hasFrames frames', reply]
  cases g.parse s p limits.start with
  | mk o c => cases o <;> exact ⟨rfl, rfl⟩

/-! ## Calls -/

/-- A call of a parser from a cursor, with the calls that it makes itself, in order. -/
inductive Call (ρ : Type) : Type
  | made (p : Parser ρ) (c : Cursor ρ) (inner : List (Call ρ))

/-- The parser and the cursor of a call. -/
def Call.start : Call ρ → Parser ρ × Cursor ρ
  | .made p c _ => (p, c)

mutual

/-- A call and all calls made inside it, in the order in which they end. -/
def Call.ended : Call ρ → List (Parser ρ × Cursor ρ)
  | .made p c inner => Call.endedIn inner ++ [(p, c)]

def Call.endedIn : List (Call ρ) → List (Parser ρ × Cursor ρ)
  | [] => []
  | call :: calls => call.ended ++ Call.endedIn calls

end

theorem Call.endedIn_eq_flatMap (calls : List (Call ρ)) : Call.endedIn calls = calls.flatMap Call.ended := by
  induction calls with
  | nil => rfl
  | cons call calls ih => rw [endedIn, ih, List.flatMap_cons]

/-- The cursors from which a repetition applies its parser. -/
def Grammar.turns (g : Grammar ρ) (s : Source) (p : Parser ρ) (c : Cursor ρ) : List (Cursor ρ) :=
  c :: match _ : g.parse s p c with
    | (.success _, c') => if c'.index = c.index then [] else g.turns s p c'
    | _ => []
termination_by s.size - c.index
decreasing_by
  have follows := Grammar.parse_follows (g := g) (s := s) p c
  rw [‹g.parse s p c = _›] at follows
  have start := follows.start_le
  have ends := follows.le_end
  simp only at start ends
  omega

theorem Grammar.turns_eq (p : Parser ρ) (c : Cursor ρ) :
    g.turns s p c = c :: match g.parse s p c with
      | (.success _, c') => if c'.index = c.index then [] else g.turns s p c'
      | _ => [] := by
  rw [turns]
  congr 1
  cases g.parse s p c with
  | mk o c' => cases o <;> rfl

/-- The calls that a parser makes itself when it is run from a cursor, in order. -/
def Grammar.direct (g : Grammar ρ) (s : Source) (p : Parser ρ) (c : Cursor ρ) : List (Parser ρ × Cursor ρ) :=
  match p with
  | .bind p next => (p, c) :: match g.parse s p c with
    | (.success v, c') => [(next v, c')]
    | _ => []
  | .orElse p q => (p, c) :: match g.parse s p c with
    | (.failure _, c') => [(q, c')]
    | _ => []
  | .attempt p => [(p, c)]
  | .suchThat p _ _ => [(p, c)]
  | .recover p _ => [(p, c)]
  | .expecting p _ => [(p, c)]
  | .trace p _ => [(p, c)]
  | .many p => (g.turns s p c).map fun d => (p, d)
  | .rule r => match c.guard.enter, g r with
    | some guard, .ok p => [(p, { c with guard }.note (.entered r))]
    | _, _ => []
  | _ => []

/-- A tree of calls that leaves out nothing: below each call stand the calls that its parser makes itself. -/
inductive Grammar.Unfolds (g : Grammar ρ) (s : Source) : Call ρ → Prop
  | made {p : Parser ρ} {c : Cursor ρ} {inner : List (Call ρ)} :
      inner.map Call.start = g.direct s p c → (∀ call ∈ inner, g.Unfolds s call) → g.Unfolds s (.made p c inner)

/-- The record that a call leaves when it ends: none unless the parser is traced, and none if the call comes to neither
a value nor a failure. -/
def Grammar.record? (g : Grammar ρ) (s : Source) (p : Parser ρ) (c : Cursor ρ) : Option Record :=
  match p with
  | .trace _ label => match g.parse s p c with
    | (.success _, c') => some (.won label c.index c'.index)
    | (.failure _, _) => some (.lost label c.index)
    | _ => none
  | _ => none

/-- The records that a call leaves, whatever was noted before it. -/
def Grammar.recorded (g : Grammar ρ) (s : Source) (p : Parser ρ) (c : Cursor ρ) : List Record :=
  (g.parse s p ⟨c.index, c.guard, []⟩).2.traces

/-! ## 2. One call -/

theorem Cursor.rules_since (c d : Cursor ρ) : (d.since c.events).rules = c.rules ++ d.rules := by
  simp only [rules, since, List.reverse_append, List.filterMap_append]

theorem Cursor.traces_since (c d : Cursor ρ) : (d.since c.events).traces = c.traces ++ d.traces := by
  simp only [traces, since, List.reverse_append, List.filterMap_append]

namespace TracingLemmas

/-- Whatever the log holds at the start stands below what is noted from then on. -/
theorem parse_eq_since (p : Parser ρ) (c : Cursor ρ) :
    g.parse s p c = (g.parse s p ⟨c.index, c.guard, []⟩).since c.events :=
  parse_since c.events p ⟨c.index, c.guard, []⟩

theorem traces_parse (p : Parser ρ) (c : Cursor ρ) :
    (g.parse s p c).2.traces = c.traces ++ g.recorded s p c := by
  rw [parse_eq_since p c]
  exact Cursor.traces_since c _

@[simp] theorem traces_note_traced (c : Cursor ρ) (record : Record) :
    (c.note (.traced record)).traces = c.traces ++ [record] := by
  simp [Cursor.traces, Cursor.note]

@[simp] theorem traces_note_entered (c : Cursor ρ) (r : ρ) : (c.note (.entered r)).traces = c.traces := by
  simp [Cursor.traces, Cursor.note]

@[simp] theorem traces_note_refused (c : Cursor ρ) (r : ρ) (offset : Nat) :
    (c.note (.refused r offset)).traces = c.traces := by
  simp [Cursor.traces, Cursor.note]

/-- A repetition leaves the records of its turns. -/
theorem traces_many (p : Parser ρ) (c : Cursor ρ) :
    (g.parse s (.many p) c).2.traces = c.traces ++ (g.turns s p c).flatMap fun d => g.recorded s p d := by
  induction c using Grammar.turns.induct g s p with
  | case1 c ih =>
    rw [Grammar.parse_many, Grammar.turns_eq, List.flatMap_cons, ← List.append_assoc, ← traces_parse]
    cases reached : g.parse s p c with
    | mk o c' =>
      cases o with
      | success v =>
        show (if c'.index = c.index then _ else _ : Reply ρ).2.traces = _
        simp only
        split
        · exact (List.append_nil _).symm
        · next moved => exact ih v c' reached moved
      | failure f => exact (List.append_nil _).symm
      | fault e => exact (List.append_nil _).symm
      | refused => exact (List.append_nil _).symm

/-- A call accounts for what it adds to the records: first what the calls add that it makes itself, and then its own
record. -/
def Accounts (g : Grammar ρ) (s : Source) (p : Parser ρ) (c : Cursor ρ) : Prop :=
  (g.parse s p c).2.traces =
    c.traces ++ ((g.direct s p c).flatMap fun call => g.recorded s call.1 call.2) ++ (g.record? s p c).toList

/-- A parser that makes no calls and adds nothing. -/
theorem accounts_of_leaf {p : Parser ρ} {c : Cursor ρ} (calls : g.direct s p c = []) (own : g.record? s p c = none)
    (kept : (g.parse s p c).2.traces = c.traces) : Accounts g s p c := by
  rw [Accounts, calls, own, kept, List.flatMap_nil, Option.toList_none, List.append_nil, List.append_nil]

/-- A parser that makes one call, from where it starts itself, and adds nothing to what this call adds. -/
theorem accounts_of_part {p q : Parser ρ} {c : Cursor ρ} (calls : g.direct s q c = [(p, c)])
    (own : g.record? s q c = none) (kept : (g.parse s q c).2.traces = (g.parse s p c).2.traces) :
    Accounts g s q c := by
  rw [Accounts, calls, own, kept, List.flatMap_singleton, Option.toList_none, List.append_nil, traces_parse]

theorem accounts_bind (p : Parser ρ) (next : Value → Parser ρ) (c : Cursor ρ) :
    Accounts g s (.bind p next) c := by
  rw [Accounts, Grammar.parse_bind, Grammar.direct, List.flatMap_cons, ← List.append_assoc, ← traces_parse]
  cases g.parse s p c with
  | mk o c' =>
    cases o with
    | success v => simp [Grammar.record?, traces_parse (next v)]
    | _ => simp [Grammar.record?]

theorem accounts_orElse (p q : Parser ρ) (c : Cursor ρ) : Accounts g s (.orElse p q) c := by
  rw [Accounts, Grammar.parse_orElse, Grammar.direct, List.flatMap_cons, ← List.append_assoc, ← traces_parse]
  cases g.parse s p c with
  | mk o c' =>
    cases o with
    | failure f =>
      have second := traces_parse (g := g) (s := s) q c'
      simp only [Grammar.record?, List.flatMap_singleton, Option.toList_none, List.append_nil, ← second]
      cases g.parse s q c' with
      | mk o' c'' => cases o' <;> rfl
    | _ => simp [Grammar.record?]

theorem accounts_trace (p : Parser ρ) (label : Text) (c : Cursor ρ) : Accounts g s (.trace p label) c := by
  rw [Accounts, Grammar.direct, List.flatMap_singleton, ← traces_parse, Grammar.record?, Grammar.parse_trace]
  cases g.parse s p c with
  | mk o c' =>
    cases o with
    | success v => exact traces_note_traced c' (.won label c.index c'.index)
    | failure f => exact traces_note_traced c' (.lost label c.index)
    | fault e => exact (List.append_nil _).symm
    | refused => exact (List.append_nil _).symm

/-- The events of a rule call are no records of traced parsers. -/
theorem accounts_rule (r : ρ) (c : Cursor ρ) : Accounts g s (.rule r) c := by
  have own : g.record? s (.rule r) c = none := rfl
  rw [Accounts, own, Grammar.parse_rule, Grammar.direct, Option.toList_none, List.append_nil]
  cases c.guard.enter with
  | none => simp
  | some guard =>
    cases g r with
    | error e => exact (traces_note_entered c r).trans (List.append_nil _).symm
    | ok p =>
      have body := traces_parse (g := g) (s := s) p ({ c with guard }.note (.entered r))
      have before : ({ c with guard }.note (.entered r) : Cursor ρ).traces = c.traces := traces_note_entered c r
      rw [before] at body
      simp only [List.flatMap_singleton]
      exact body

/-- Every call accounts for what it adds to the records. -/
theorem accounts (p : Parser ρ) (c : Cursor ρ) : Accounts g s p c := by
  cases p with
  | satisfy accept =>
    refine accounts_of_leaf rfl rfl ?_
    rw [Grammar.parse, Parser.step]
    split
    · split <;> rfl
    · rfl
  | literal t =>
    refine accounts_of_leaf rfl rfl ?_
    rw [Grammar.parse, Parser.step]
    split <;> rfl
  | span accept => exact accounts_of_leaf rfl rfl rfl
  | eof => exact accounts_of_leaf rfl rfl rfl
  | offset => exact accounts_of_leaf rfl rfl rfl
  | pure v => exact accounts_of_leaf rfl rfl rfl
  | fault e => exact accounts_of_leaf rfl rfl rfl
  | bind p next => exact accounts_bind p next c
  | orElse p q => exact accounts_orElse p q c
  | attempt p =>
    refine accounts_of_part rfl rfl ?_
    rw [Grammar.parse_attempt]
    split
    · next reached => rw [reached]; rfl
    · rfl
  | suchThat p accept rejection =>
    refine accounts_of_part rfl rfl ?_
    rw [Grammar.parse_suchThat]
    split
    · next reached =>
      rw [reached]
      split <;> rfl
    · rfl
  | recover p fallback =>
    refine accounts_of_part rfl rfl ?_
    rw [Grammar.parse_recover]
    split
    · next reached => rw [reached]
    · rfl
  | expecting p description =>
    refine accounts_of_part rfl rfl ?_
    rw [Grammar.parse_expecting]
    split
    · next reached => rw [reached]
    · rfl
  | many p =>
    rw [Accounts, traces_many, Grammar.direct, List.flatMap_map]
    exact (List.append_nil _).symm
  | trace p label => exact accounts_trace p label c
  | rule r => exact accounts_rule r c

/-- The records of a call are those of the calls that it makes itself, and its own. -/
theorem recorded_eq (p : Parser ρ) (c : Cursor ρ) :
    g.recorded s p c =
      ((g.direct s p c).flatMap fun call => g.recorded s call.1 call.2) ++ (g.record? s p c).toList := by
  have both := (traces_parse p c).symm.trans (accounts (g := g) (s := s) p c)
  rw [List.append_assoc] at both
  exact List.append_cancel_left both

/-! ## 3. The tree of calls -/

/-- There is a tree of the calls that are made when the parser is run from the cursor. -/
def HasTree (g : Grammar ρ) (s : Source) (p : Parser ρ) (c : Cursor ρ) : Prop :=
  ∃ call, g.Unfolds s call ∧ call.start = (p, c)

/-- Trees of calls in a row. -/
theorem exists_trees (calls : List (Parser ρ × Cursor ρ)) (h : ∀ call ∈ calls, HasTree g s call.1 call.2) :
    ∃ trees : List (Call ρ), trees.map Call.start = calls ∧ ∀ tree ∈ trees, g.Unfolds s tree := by
  induction calls with
  | nil => exact ⟨[], rfl, fun _ none => absurd none List.not_mem_nil⟩
  | cons call calls ih =>
    obtain ⟨tree, unfolds, start⟩ := h call List.mem_cons_self
    obtain ⟨trees, starts, all⟩ := ih fun other mem => h other (List.mem_cons_of_mem _ mem)
    refine ⟨tree :: trees, by rw [List.map_cons, start, starts], ?_⟩
    rintro other (_ | ⟨_, mem⟩)
    · exact unfolds
    · exact all other mem

/-- A call has a tree if the calls have that it makes itself. -/
theorem HasTree.above {p : Parser ρ} {c : Cursor ρ} (h : ∀ call ∈ g.direct s p c, HasTree g s call.1 call.2) :
    HasTree g s p c := by
  obtain ⟨inner, starts, all⟩ := exists_trees _ h
  exact ⟨.made p c inner, .made starts all, rfl⟩

/-- Every turn of a repetition is taken under the same guard. -/
theorem guard_of_mem_turns {p : Parser ρ} {c d : Cursor ρ} (mem : d ∈ g.turns s p c) : d.guard = c.guard := by
  induction c using Grammar.turns.induct g s p with
  | case1 c ih =>
    rw [Grammar.turns_eq] at mem
    rcases List.mem_cons.mp mem with rfl | mem
    · rfl
    · cases reached : g.parse s p c with
      | mk o c' =>
        rw [reached] at mem
        cases o with
        | success v =>
          simp only at mem
          split at mem
          · exact absurd mem List.not_mem_nil
          · next moved => rw [ih v c' reached moved mem, RefusalLemmas.guard_of_parse reached]
        | failure f => exact absurd mem List.not_mem_nil
        | fault e => exact absurd mem List.not_mem_nil
        | refused => exact absurd mem List.not_mem_nil

/-- Every call has a tree: a rule call leads to parsers with less room, and all other calls to smaller parsers. -/
theorem hasTree (room : Nat) (p : Parser ρ) (c : Cursor ρ) (hroom : c.guard.room = room) : HasTree g s p c := by
  induction room using Nat.strongRecOn generalizing p c with
  | ind room deeper =>
    induction p generalizing c with
    | bind p next ihp ihnext =>
      refine .above ?_
      rw [Grammar.direct, List.forall_mem_cons]
      refine ⟨ihp c hroom, ?_⟩
      cases reached : g.parse s p c with
      | mk o c' =>
        cases o with
        | success v =>
          refine List.forall_mem_singleton.mpr (ihnext v c' ?_)
          rw [RefusalLemmas.guard_of_parse reached, hroom]
        | _ => exact List.forall_mem_nil _
    | orElse p q ihp ihq =>
      refine .above ?_
      rw [Grammar.direct, List.forall_mem_cons]
      refine ⟨ihp c hroom, ?_⟩
      cases reached : g.parse s p c with
      | mk o c' =>
        cases o with
        | failure f =>
          refine List.forall_mem_singleton.mpr (ihq c' ?_)
          rw [RefusalLemmas.guard_of_parse reached, hroom]
        | _ => exact List.forall_mem_nil _
    | many p ih =>
      refine .above ?_
      rw [Grammar.direct, List.forall_mem_map]
      intro d mem
      exact ih d (by rw [guard_of_mem_turns mem, hroom])
    | rule r =>
      refine .above ?_
      rw [Grammar.direct]
      cases entered : c.guard.enter with
      | none => exact List.forall_mem_nil _
      | some guard =>
        cases g r with
        | error e => exact List.forall_mem_nil _
        | ok p =>
          have one_less : guard.room < room := by
            rw [← hroom, Guard.room_of_enter entered]
            exact Nat.lt_succ_self _
          exact List.forall_mem_singleton.mpr (deeper guard.room one_less p _ rfl)
    | attempt p ih => exact .above (List.forall_mem_singleton.mpr (ih c hroom))
    | suchThat p accept rejection ih => exact .above (List.forall_mem_singleton.mpr (ih c hroom))
    | recover p fallback ih => exact .above (List.forall_mem_singleton.mpr (ih c hroom))
    | expecting p description ih => exact .above (List.forall_mem_singleton.mpr (ih c hroom))
    | trace p label ih => exact .above (List.forall_mem_singleton.mpr (ih c hroom))
    | _ => exact .above (List.forall_mem_nil _)

/-- Trees in a row are the same if they start alike and each of them is fixed by its start. -/
theorem trees_unique {a b : List (Call ρ)} (starts : a.map Call.start = b.map Call.start)
    (fixed : ∀ tree ∈ a, ∀ other ∈ b, tree.start = other.start → tree = other) : a = b := by
  induction a generalizing b with
  | nil =>
    cases b with
    | nil => rfl
    | cons other b => cases starts
  | cons tree a ih =>
    cases b with
    | nil => cases starts
    | cons other b =>
      rw [List.map_cons, List.map_cons, List.cons.injEq] at starts
      rw [fixed tree List.mem_cons_self other List.mem_cons_self starts.1,
        ih starts.2 fun t mem u mem' =>
          fixed t (List.mem_cons_of_mem _ mem) u (List.mem_cons_of_mem _ mem')]

/-- A run makes its calls in one way only. -/
theorem unfolds_unique {a b : Call ρ} (ha : g.Unfolds s a) (hb : g.Unfolds s b) (same : a.start = b.start) :
    a = b := by
  induction ha generalizing b with
  | made calls _ ih =>
    cases hb with
    | made calls' all =>
      cases same
      rw [trees_unique (calls.trans calls'.symm) fun tree mem other mem' => ih tree mem (all other mem')]

/-- The records of a run are those of its calls, in the order in which the calls end. -/
theorem recorded_of_unfolds {call : Call ρ} (h : g.Unfolds s call) :
    g.recorded s call.start.1 call.start.2 = call.ended.filterMap fun e => g.record? s e.1 e.2 := by
  induction h with
  | @made p c inner calls _ ih =>
    have below : inner.flatMap (fun call => g.recorded s call.start.1 call.start.2) =
        inner.flatMap fun call => call.ended.filterMap fun e => g.record? s e.1 e.2 :=
      List.flatMap_congr ih
    rw [Call.start, recorded_eq, ← calls, List.flatMap_map, below, Call.ended, Call.endedIn_eq_flatMap,
      List.filterMap_append, List.filterMap_flatMap]
    rfl

end TracingLemmas

/-! ## 4. Whole runs -/

/-- Tracing is transparent, and it is complete, for every parser over every set of rules.

* A parser without its traces, over rules without theirs, comes to the same from every cursor: the outcome, the offset
  and the guard are the same, and so are the rules that were entered, one by one. It adds nothing to the records.
* The calls that a run makes form one tree and no other. The run adds a record for each traced call that comes to a
  value or a failure, with the label, where the call started and, for a value, where it stopped; it adds none for a
  call that a fault or a refusal cuts short. The records stand in the order in which the calls end, so those of the
  calls made inside a traced one come first. -/
theorem tracing_transparent (g : Grammar ρ) (s : Source) (p : Parser ρ) :
    (∀ c : Cursor ρ,
      (g.untraced.parse s p.untraced c).place = (g.parse s p c).place ∧
      (g.untraced.parse s p.untraced c).2.rules = (g.parse s p c).2.rules ∧
      (g.untraced.parse s p.untraced c).2.traces = c.traces) ∧
    ∀ c : Cursor ρ, ∃ call : Call ρ,
      (∀ other, g.Unfolds s other ∧ other.start = (p, c) ↔ other = call) ∧
      (g.parse s p c).2.traces = c.traces ++ call.ended.filterMap fun e => g.record? s e.1 e.2 := by
  refine ⟨fun c => ?_, fun c => ?_⟩
  · -- Nothing is traced in the log of a cursor without a past, so there the two runs can be compared.
    have erased : g.untraced.parse s p.untraced ⟨c.index, c.guard, []⟩ =
        Reply.untraced (g.parse s p ⟨c.index, c.guard, []⟩) := parse_untraced p ⟨c.index, c.guard, []⟩
    rw [parse_eq_since p.untraced c, parse_eq_since p c, erased]
    refine ⟨rfl, ?_, ?_⟩
    · simp only [Reply.since, Reply.untraced, Cursor.rules_since, Cursor.rules_untraced]
    · simp only [Reply.since, Reply.untraced, Cursor.traces_since, Cursor.traces_untraced]
      exact List.append_nil _
  · obtain ⟨call, unfolds, start⟩ := hasTree (g := g) (s := s) c.guard.room p c rfl
    refine ⟨call, fun other => ⟨?_, ?_⟩, ?_⟩
    · rintro ⟨unfolds', start'⟩
      exact unfolds_unique unfolds' unfolds (start'.trans start.symm)
    · rintro rfl
      exact ⟨unfolds, start⟩
    · have records := recorded_of_unfolds unfolds
      rw [start] at records
      rw [traces_parse, records]

/-- Each turn of a repetition is noted before the repetition is, the failed last turn included. -/
example :
    (Grammar.parse (fun (_ : Unit) => .ok .empty) (.ofText (text "aa"))
      (((Parser.char 0x61).trace (text "turn")).many.trace (text "loop")) ⟨0, .ofRequest 1, []⟩).2.traces =
    [.won (text "turn") 0 1, .won (text "turn") 1 2, .lost (text "turn") 2, .won (text "loop") 0 2] := by
  decide +kernel

end Descent
