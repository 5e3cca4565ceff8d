import Descent.Proofs.Parse.Evaluation
import Descent.Proofs.Parse.Frames

/-!
# Cursors and unread text

A cursor inside the source stands in front of the text that is still unread there. Running a parser from the cursor and
evaluating it in front of that text come to the same.

Results:
1. `parse_agrees`: the outcome of a parser and the text left unread, by cursor and by text.
2. `read_eq_ok_iff`, `read_whole_eq_ok_iff`: when reading a document gives a value.
3. `read_eq_tooDeep`, `read_eq_cutOff`: what it gives where a rule is refused, or the frames do not last.
-/

namespace Descent

/-! ## Sources -/

namespace Source

variable {s : Source}

/-- All code points of a source, in order. -/
def toText (s : Source) : Text := s.points.toList

@[simp] theorem toText_ofText (t : Text) : (ofText t).toText = t := by simp [toText, ofText]

theorem length_toText : s.toText.length = s.size := rfl

theorem remaining_eq_drop (i : Nat) : s.remaining i = s.toText.drop i := by
  simp only [remaining, slice, toText, Array.toList_extract, List.extract_eq_take_drop]
  exact List.take_of_length_le (by rw [List.length_drop]; exact Nat.le_refl _)

theorem remaining_zero : s.remaining 0 = s.toText := by rw [remaining_eq_drop, List.drop_zero]

theorem length_remaining (i : Nat) : (s.remaining i).length = s.size - i := by
  rw [remaining_eq_drop, List.length_drop, length_toText]

theorem remaining_add (i n : Nat) : s.remaining (i + n) = (s.remaining i).drop n := by
  rw [remaining_eq_drop, remaining_eq_drop, List.drop_drop]

theorem head?_remaining (i : Nat) : (s.remaining i).head? = s.get? i := by
  rw [remaining_eq_drop, List.head?_drop, get?, toText, Array.getElem?_toList]

/-- Behind an offset that holds a code point, the text goes on with that code point. -/
theorem remaining_eq_cons {i : Nat} {c : CodePoint} (h : s.get? i = some c) :
    s.remaining i = c :: s.remaining (i + 1) := by
  rw [← head?_remaining] at h
  obtain ⟨rest, hrest⟩ := List.head?_eq_some_iff.mp h
  rw [remaining_add, hrest, List.drop_one, List.tail_cons]

/-- A text that the unread text begins with is the slice of its length. -/
theorem slice_of_prefix {i : Nat} {t : Text} (stands : t <+: s.remaining i) : s.slice i (i + t.length) = t := by
  obtain ⟨rest, unread⟩ := stands
  rw [remaining_eq_drop] at unread
  simp only [slice, Array.toList_extract, List.extract_eq_take_drop, Nat.add_sub_cancel_left]
  exact (congrArg (List.take t.length) unread.symm).trans List.take_left

/-- Behind an offset that holds none, there is nothing. -/
theorem remaining_eq_nil {i : Nat} (h : s.get? i = none) : s.remaining i = [] := by
  rwa [← head?_remaining, List.head?_eq_none_iff] at h

theorem holds_eq_isPrefixOf {i : Nat} (inside : i ≤ s.size) (t : Text) :
    s.holds i t = t.isPrefixOf (s.remaining i) := by
  induction t generalizing i with
  | nil => simp [holds, inside]
  | cons c rest ih =>
    rw [holds]
    cases found : s.get? i with
    | none => rw [remaining_eq_nil found]; rfl
    | some x =>
      have below : i < s.size := by
        rw [get?, Array.getElem?_eq_some_iff] at found
        exact found.1
      rw [remaining_eq_cons found, List.isPrefixOf_cons_cons, ih below]
      simp only [Option.some_beq_some, Bool.beq_comm]

/-- A run of accepted code points ends where dropping them ends. -/
theorem remaining_runEnd (accept : CodePoint → Bool) (most i : Nat) (long : s.size - i ≤ most) :
    s.remaining (s.runEnd accept most i) = (s.remaining i).dropWhile accept := by
  induction most generalizing i with
  | zero =>
    have none_left : s.remaining i = [] := List.eq_nil_of_length_eq_zero (by rw [length_remaining]; omega)
    rw [runEnd, none_left]
    rfl
  | succ most ih =>
    rw [runEnd]
    cases found : s.get? i with
    | none =>
      simp only [remaining_eq_nil found]
      rfl
    | some c =>
      rw [remaining_eq_cons found, List.dropWhile_cons]
      simp only
      split
      · exact ih (i + 1) (by omega)
      · exact remaining_eq_cons found

theorem remaining_spanEnd (accept : CodePoint → Bool) (i : Nat) :
    s.remaining (s.spanEnd accept i) = (s.remaining i).dropWhile accept :=
  remaining_runEnd accept _ i (Nat.le_refl _)

/-- The text of a run is what was taken. -/
theorem slice_spanEnd {i : Nat} (inside : i ≤ s.size) (accept : CodePoint → Bool) :
    s.slice i (s.spanEnd accept i) = (s.remaining i).takeWhile accept := by
  have start := s.le_spanEnd accept i
  have ends := s.spanEnd_le accept i
  have split_at := List.takeWhile_append_dropWhile (p := accept) (l := s.remaining i)
  have lengths := congrArg List.length split_at
  rw [List.length_append, ← remaining_spanEnd, length_remaining, length_remaining] at lengths
  have taken : s.spanEnd accept i - i = ((s.remaining i).takeWhile accept).length := by omega
  calc
    s.slice i (s.spanEnd accept i) = (s.remaining i).take (s.spanEnd accept i - i) := by
      simp only [slice, remaining_eq_drop, toText, Array.toList_extract, List.extract_eq_take_drop]
    _ = (s.remaining i).takeWhile accept := by
      conv => lhs; rw [← split_at, taken]
      exact List.take_left

end Source

/-! ## Parsers -/

/-- A reply comes to a result: the same outcome, and the cursor in front of the text left unread. -/
def Reply.Agrees {ρ : Type} (s : Source) (reply : Reply ρ) (result : Result) : Prop :=
  reply.1 = result.1 ∧ s.remaining reply.2.index = result.2

namespace UnreadLemmas

variable {ρ : Type} {g : Grammar ρ} {s : Source}

/-- What `p` must do wherever the guard has a given room. -/
def Agreeing (g : Grammar ρ) (s : Source) (room : Nat) (p : Parser ρ) : Prop :=
  ∀ c : Cursor ρ, c.guard.room = room → c.index ≤ s.size →
    (g.parse s p c).Agrees s (p.eval s (g.evalRule s room) (s.remaining c.index))

/-- Behind a parser that agrees, what follows starts from a cursor with the same room inside the source. -/
theorem behind {room : Nat} {p : Parser ρ} (hp : Agreeing g s room p) {c : Cursor ρ} (hroom : c.guard.room = room)
    (inside : c.index ≤ s.size) :
    ∃ o c', g.parse s p c = (o, c') ∧ p.eval s (g.evalRule s room) (s.remaining c.index) = (o, s.remaining c'.index) ∧
      c.Follows s c' ∧ c'.guard.room = room ∧ c'.index ≤ s.size := by
  have follows := Grammar.parse_follows (g := g) (s := s) p c
  obtain ⟨outcome, unread⟩ := hp c hroom inside
  exact ⟨(g.parse s p c).1, (g.parse s p c).2, rfl, Prod.ext outcome.symm unread.symm, follows,
    by rw [follows.guard, hroom], follows.le_size inside⟩

theorem agreeing_many {room : Nat} {p : Parser ρ} (hp : Agreeing g s room p) : Agreeing g s room (.many p) := by
  intro c hroom inside
  induction hleft : s.size - c.index using Nat.strongRecOn generalizing c with
  | ind left ih =>
    obtain ⟨o, c', parsed, evaluated, follows, hroom', inside'⟩ := behind hp hroom inside
    rw [Grammar.parse_many, Parser.eval, Parser.collect, parsed, evaluated]
    cases o with
    | success v =>
      have start := follows.start_le
      simp only [Source.length_remaining]
      by_cases moved : c'.index = c.index
      · rw [if_pos moved, if_neg (by omega)]
        exact ⟨rfl, rfl⟩
      · rw [if_neg moved, if_pos (by omega)]
        obtain ⟨outcome, unread⟩ := ih _ (by omega) c' hroom' inside' rfl
        exact ⟨congrArg (Outcome.prepend [v]) outcome, unread⟩
    | failure f => exact ⟨rfl, rfl⟩
    | fault e => exact ⟨rfl, rfl⟩
    | refused => exact ⟨rfl, rfl⟩

theorem agreeing_rule {room : Nat} (deeper : ∀ n, n + 1 = room → ∀ p, Agreeing g s n p) (r : ρ) :
    Agreeing g s room (.rule r) := by
  intro c hroom inside
  rw [Grammar.parse_rule, Parser.eval_rule]
  cases entered : c.guard.enter with
  | none =>
    rw [← hroom, Guard.enter_eq_none_iff.mp entered]
    exact ⟨rfl, rfl⟩
  | some guard =>
    have one_less := Guard.room_of_enter entered
    obtain rfl : guard.room + 1 = room := by omega
    rw [Grammar.evalRule]
    cases g r with
    | error e => exact ⟨rfl, rfl⟩
    | ok p => exact deeper guard.room rfl p ({ c with guard }.note (.entered r)) rfl inside

theorem agreeing (room : Nat) (p : Parser ρ) : Agreeing g s room p := by
  -- A rule stands for any parser, with less room: so the room comes first and the parser second.
  induction room using Nat.strongRecOn generalizing p with
  | ind room deeper =>
    induction p with
    | satisfy accept =>
      intro c _ _
      rw [Grammar.parse, Parser.step]
      cases found : s.get? c.index with
      | none =>
        rw [Source.remaining_eq_nil found]
        exact ⟨rfl, Source.remaining_eq_nil found⟩
      | some x =>
        rw [Source.remaining_eq_cons found, Parser.eval_satisfy_cons]
        simp only
        split
        · exact ⟨rfl, rfl⟩
        · exact ⟨rfl, Source.remaining_eq_cons found⟩
    | literal t =>
      intro c _ inside
      rw [Grammar.parse, Parser.step, Parser.eval, Source.holds_eq_isPrefixOf inside]
      split
      · exact ⟨rfl, Source.remaining_add _ _⟩
      · exact ⟨rfl, rfl⟩
    | span accept =>
      intro c _ inside
      exact ⟨by rw [Parser.eval_span, ← Source.slice_spanEnd inside]; rfl, Source.remaining_spanEnd accept c.index⟩
    | eof =>
      intro c _ inside
      rw [Grammar.parse, Parser.step, Parser.eval]
      have empty : (s.remaining c.index).isEmpty = true ↔ ¬ c.index < s.size := by
        rw [List.isEmpty_iff_length_eq_zero, Source.length_remaining]
        omega
      split
      · next below => rw [if_neg (by rw [empty]; omega)]; exact ⟨rfl, rfl⟩
      · next above => rw [if_pos (empty.mpr above)]; exact ⟨rfl, rfl⟩
    | offset =>
      intro c _ inside
      rw [Grammar.parse, Parser.step, Parser.eval, Source.length_remaining, Nat.sub_sub_self inside]
      exact ⟨rfl, rfl⟩
    | pure v => exact fun _ _ _ => ⟨rfl, rfl⟩
    | fault e => exact fun _ _ _ => ⟨rfl, rfl⟩
    | bind p next ihp ihnext =>
      intro c hroom inside
      obtain ⟨o, c', parsed, evaluated, _, hroom', inside'⟩ := behind ihp hroom inside
      rw [Grammar.parse_bind, Parser.eval_bind, parsed, evaluated]
      cases o with
      | success v => exact ihnext v c' hroom' inside'
      | failure f => exact ⟨rfl, rfl⟩
      | fault e => exact ⟨rfl, rfl⟩
      | refused => exact ⟨rfl, rfl⟩
    | orElse p q ihp ihq =>
      intro c hroom inside
      obtain ⟨o, c', parsed, evaluated, _, hroom', inside'⟩ := behind ihp hroom inside
      rw [Grammar.parse_orElse, Parser.eval_orElse, parsed, evaluated]
      cases o with
      | success v => exact ⟨rfl, rfl⟩
      | failure f =>
        obtain ⟨o', c'', parsed', evaluated', _⟩ := behind ihq hroom' inside'
        simp only [Result.orElse_failure, parsed', evaluated']
        cases o' <;> exact ⟨rfl, rfl⟩
      | fault e => exact ⟨rfl, rfl⟩
      | refused => exact ⟨rfl, rfl⟩
    | attempt p ih =>
      intro c hroom inside
      obtain ⟨o, c', parsed, evaluated, _⟩ := behind ih hroom inside
      rw [Grammar.parse_attempt, Parser.eval_attempt, parsed, evaluated]
      cases o <;> exact ⟨rfl, rfl⟩
    | suchThat p accept rejection ih =>
      intro c hroom inside
      obtain ⟨o, c', parsed, evaluated, _⟩ := behind ih hroom inside
      rw [Grammar.parse_suchThat, Parser.eval_suchThat, parsed, evaluated]
      cases o with
      | success v =>
        simp only [Result.andThen_success]
        split <;> exact ⟨rfl, rfl⟩
      | failure f => exact ⟨rfl, rfl⟩
      | fault e => exact ⟨rfl, rfl⟩
      | refused => exact ⟨rfl, rfl⟩
    | recover p fallback ih =>
      intro c hroom inside
      obtain ⟨o, c', parsed, evaluated, _⟩ := behind ih hroom inside
      rw [Grammar.parse_recover, Parser.eval, parsed, evaluated]
      cases o <;> exact ⟨rfl, rfl⟩
    | expecting p description ih =>
      intro c hroom inside
      obtain ⟨o, c', parsed, evaluated, _⟩ := behind ih hroom inside
      rw [Grammar.parse_expecting, Parser.eval, parsed, evaluated, Source.length_remaining, Nat.sub_sub_self inside]
      cases o <;> exact ⟨rfl, rfl⟩
    | many p ih => exact agreeing_many ih
    | trace p label ih =>
      intro c hroom inside
      obtain ⟨o, c', parsed, evaluated, _⟩ := behind ih hroom inside
      rw [Grammar.parse_trace, Parser.eval, parsed, evaluated]
      cases o <;> exact ⟨rfl, rfl⟩
    | rule r => exact agreeing_rule (fun n hn => deeper n (by omega)) r

end UnreadLemmas

/-- Running a parser from a cursor inside the source comes to what the parser comes to in front of the unread text. -/
theorem parse_agrees {ρ : Type} (g : Grammar ρ) (s : Source) (p : Parser ρ) (c : Cursor ρ) (inside : c.index ≤ s.size) :
    (g.parse s p c).Agrees s (p.eval s (g.evalRule s c.guard.room) (s.remaining c.index)) :=
  UnreadLemmas.agreeing c.guard.room p c rfl inside

/-- A parser that takes a text off what is unread stops behind that text. -/
theorem parse_of_eval {ρ : Type} {g : Grammar ρ} {s : Source} {p : Parser ρ} {c : Cursor ρ} {o : Outcome}
    {t rest : Text} (inside : c.index ≤ s.size) (unread : s.remaining c.index = t ++ rest)
    (evaluated : p.eval s (g.evalRule s c.guard.room) (s.remaining c.index) = (o, rest)) :
    (g.parse s p c).1 = o ∧ (g.parse s p c).2.index = c.index + t.length := by
  obtain ⟨outcome, stops⟩ := parse_agrees g s p c inside
  have ends := (Grammar.parse_follows (g := g) (s := s) p c).le_size inside
  rw [evaluated] at outcome stops
  have lengths := congrArg List.length unread
  have left_over : (s.remaining (g.parse s p c).2.index).length = rest.length := congrArg List.length stops
  rw [Source.length_remaining] at lengths left_over
  rw [List.length_append] at lengths
  exact ⟨outcome, by omega⟩

/-! ## Documents -/

-- What comes of a concrete document can be computed and compared.
instance decidableEqExcept {ε α : Type} [DecidableEq ε] [DecidableEq α] : DecidableEq (Except ε α)
  | .ok a, .ok b => decidable_of_iff (a = b) ⟨congrArg _, Except.ok.inj⟩
  | .error a, .error b => decidable_of_iff (a = b) ⟨congrArg _, Except.error.inj⟩
  | .ok _, .error _ => isFalse nofun
  | .error _, .ok _ => isFalse nofun

/-- A source is not larger than allowed. -/
def Limits.Admits (limits : Limits) (s : Source) : Prop := ¬ (0 < limits.size ∧ limits.size < s.size)

instance (limits : Limits) (s : Source) : Decidable (limits.Admits s) :=
  inferInstanceAs (Decidable (¬ _))

/-- The levels of nesting that a parse has room for. -/
def Limits.room (limits : Limits) : Nat := limits.guard.room

theorem Limits.room_eq (limits : Limits) : limits.room = limits.granted.toNat := by
  show (limits.granted - 0).toNat = limits.granted.toNat
  rw [Int.sub_zero]

/-- A limit that leaves the reserve free is granted as it is asked for. -/
theorem Limits.granted_eq {limits : Limits} {depth : Int} (limit : limits.depth = depth)
    (free : depth ≤ limits.interpreter.callLimit - Guard.reserve) : limits.granted = depth := by
  rw [granted, limit, Guard.clamp, Int.min_eq_left free]

section Documents

variable {ρ : Type} {g : Grammar ρ} {p : Parser ρ} {rejected : Nat → Record} {limits : Limits} {s : Source}

/-- Reading a document that is not too large comes to what its parse comes to. -/
theorem read_value (admits : limits.Admits s) :
    (g.read p rejected limits (.source s)).value = (g.run p limits s).value := by
  rw [Grammar.read, Grammar.parseInput, Limits.source, Input.decode]
  simp only [if_neg admits, Except.map]

theorem read_of_failure {f : Failure} (admits : limits.Admits s) (ended : (g.run p limits s).ending = .failure f) :
    (g.read p rejected limits (.source s)).value = .error (.error (f.toError s (g.run p limits s).final.index)) := by
  rw [read_value admits]
  simp only [Run.value, ended, Grammar.run_source]

/-- A parse that is cut off is rejected for its depth. -/
theorem read_eq_cutOff {c : Cursor ρ} (admits : limits.Admits s) (cut : g.cutOff? p limits s = some c) :
    (g.read p rejected limits (.source s)).value =
      .error (.error ((Failure.tooDeepAt s limits.granted c.index).toError s c.index)) := by
  obtain ⟨ending, final⟩ := Grammar.ending_of_cutOff? cut
  rw [read_of_failure admits ending, final]

/-- A whole parse starts in front of the whole source. -/
theorem parse_start_agrees (g : Grammar ρ) (p : Parser ρ) (limits : Limits) (s : Source) :
    Reply.Agrees s (g.parse s p limits.start) (p.eval s (g.evalRule s limits.room) s.toText) := by
  rw [← Source.remaining_zero]
  exact parse_agrees g s p limits.start (Nat.zero_le _)

/-- Reading a document gives a value exactly if its source is not too large, the interpreter has the frames for it, and
the parser succeeds with that value in front of the whole source. -/
theorem read_eq_ok_iff {v : Value} :
    (g.read p rejected limits (.source s)).value = .ok v ↔
      limits.Admits s ∧ g.HasFrames p limits s ∧
        ∃ rest, p.eval s (g.evalRule s limits.room) s.toText = (.success v, rest) := by
  by_cases large : 0 < limits.size ∧ limits.size < s.size
  · simp [Grammar.read, Grammar.parseInput, Limits.source, Input.decode, large, Limits.Admits, Except.map]
  have admits : limits.Admits s := large
  cases cut : g.cutOff? p limits s with
  | some c =>
    have missing : ¬ g.HasFrames p limits s := Grammar.not_hasFrames_of_cutOff? cut
    simp only [read_eq_cutOff admits cut, missing, false_and, and_false, reduceCtorEq]
  | none =>
    have frames : g.HasFrames p limits s := Grammar.hasFrames_iff.mpr cut
    have agrees := parse_start_agrees g p limits s
    simp only [admits, frames, true_and]
    rw [read_value admits, Grammar.run_of_hasFrames frames, Run.value, Reply.run]
    cases parsed : g.parse s p limits.start with
    | mk o c =>
      rw [parsed] at agrees
      have evaluated : p.eval s (g.evalRule s limits.room) s.toText = (o, s.remaining c.index) :=
        Prod.ext agrees.1.symm agrees.2.symm
      rw [evaluated]
      cases o <;> simp [Reply.ending]

/-- Reading a document in which a rule is refused ends in a failure for being nested too deeply. The failure is located
where the parse stopped, be it at the rule or, if the frames have not lasted until then, before it. -/
theorem read_eq_tooDeep (admits : limits.Admits s)
    (refused : (p.eval s (g.evalRule s limits.room) s.toText).Refused) :
    ∃ i, (g.read p rejected limits (.source s)).value =
      .error (.error ((Failure.tooDeepAt s limits.granted i).toError s i)) := by
  cases cut : g.cutOff? p limits s with
  | some c => exact ⟨c.index, read_eq_cutOff admits cut⟩
  | none =>
    have stopped : (g.parse s p limits.start).1 = .refused := (parse_start_agrees g p limits s).1.trans refused
    exact ⟨_, read_of_failure admits (Grammar.ending_of_refused (Grammar.hasFrames_iff.mpr cut) stopped)⟩

/-- Reading a document with nothing allowed behind it gives a value exactly if its source is not too large, the
interpreter has the frames for it, and the parser reads all of it. -/
theorem read_whole_eq_ok_iff {description : Text} {v : Value} :
    (g.read (p.left (.expecting .eof description)) rejected limits (.source s)).value = .ok v ↔
      limits.Admits s ∧ g.HasFrames (p.left (.expecting .eof description)) limits s ∧
        p.eval s (g.evalRule s limits.room) s.toText = (.success v, []) ∧ v.outcome = .success v := by
  rw [read_eq_ok_iff]
  simp only [Parser.eval_left_eof_eq_success_iff]
  constructor
  · rintro ⟨admits, frames, rest, read, outcome, -⟩
    exact ⟨admits, frames, read, outcome⟩
  · rintro ⟨admits, frames, read, outcome⟩
    exact ⟨admits, frames, [], read, outcome, rfl⟩

end Documents
end Descent
