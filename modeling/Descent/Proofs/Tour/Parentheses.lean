import Mathlib.Data.List.TakeWhile
import Descent.Proofs.Parse.Unread
import Descent.Tour

/-!
# Counting parentheses

The rule of the tour that counts parentheses calls itself behind every opening one, and once more behind the last of
them, where it fails. So it takes one level of nesting more than there are pairs. A group that is not closed makes every
group around it fail as well: zero takes the place of the failed group, but the closing parenthesis that the next group
needs is missing at the very place where the failed one has stopped.

Results:
1. `eval_nested_closed`, `eval_nested_open`: one group, by what is inside.
2. `evalRule_nested_refused`, `orZero_evalRule_nested`: any number of groups inside one another.
3. `nested_exact`: whole parses.
-/

namespace Descent.Tour

/-- How many opening parentheses a text starts with. -/
def openings (t : Text) : Nat := (t.takeWhile (· == 0x28)).length

namespace ParenthesisLemmas

open Descent.Parser

variable {s : Source} {call : Rule → Text → Result} {t u rest : Text} {n : Int}

/-- The result with zero in place of a failure. -/
def orZero (r : Result) : Result := r.orElse fun _ rest => (.success (.int 0), rest)

/-! ## 1. One group -/

theorem eval_char_of_stopsAt {c : CodePoint} (stops : StopsAt (· == c) t) :
    (char c : Parser Rule).eval s call t = (.failure .plain, t) := by
  cases t with
  | nil => rfl
  | cons x t =>
    have other := stopsAt_cons.mp stops
    rw [eval_char_cons, if_neg (beq_eq_false_iff_ne.mp other)]

theorem eval_nested_of_stopsAt (stops : StopsAt (· == 0x28) t) :
    nested.eval s call t = (.failure .plain, t) := by
  unfold nested
  simp [mapM, eval_char_of_stopsAt stops]

theorem eval_nested_refused (inside : call .nested t = (.refused, u)) :
    nested.eval s call (0x28 :: t) = (.refused, u) := by
  unfold nested
  simp [mapM, inside]

/-- A closed group counts one more than what is inside. -/
theorem eval_nested_closed (inside : orZero (call .nested t) = (.success (.int n), 0x29 :: u)) :
    nested.eval s call (0x28 :: t) = (.success (.int (n + 1)), u) := by
  unfold nested
  cases reached : call .nested t with
  | mk o u' =>
    rw [reached] at inside
    cases o with
    | success v =>
      cases inside
      simp [mapM, reached, Value.outcome]
      rfl
    | failure f =>
      cases inside
      simp [mapM, reached, Value.outcome]
      rfl
    | _ => cases inside

/-- A group that is not closed stops behind what is inside. -/
theorem eval_nested_open (stops : StopsAt (· == 0x29) u) (inside : orZero (call .nested t) = (.success (.int n), u)) :
    nested.eval s call (0x28 :: t) = (.failure .plain, u) := by
  unfold nested
  cases reached : call .nested t with
  | mk o u' =>
    rw [reached] at inside
    cases o with
    | success v =>
      cases inside
      simp [mapM, reached, Value.outcome, eval_char_of_stopsAt stops]
    | failure f =>
      cases inside
      simp [mapM, reached, Value.outcome, eval_char_of_stopsAt stops]
    | _ => cases inside

/-! ## 2. Groups inside one another -/

/-- With no more room than there are opening parentheses the rule is refused, behind as many of them as there is room
for. -/
theorem evalRule_nested_refused {room k : Nat} (few : room ≤ k) (rest : Text) :
    grammar.evalRule s room .nested (List.replicate k 0x28 ++ rest) =
      (.refused, List.replicate (k - room) 0x28 ++ rest) := by
  induction room generalizing k with
  | zero => rfl
  | succ room ih =>
    obtain ⟨k, rfl⟩ : ∃ more, k = more + 1 := ⟨k - 1, by omega⟩
    rw [Nat.add_sub_add_right, List.replicate_succ, List.cons_append]
    exact eval_nested_refused (ih (Nat.le_of_succ_le_succ few))

variable {k j : Nat}

/-- Behind the opening parentheses there are some closing ones, and then something else. -/
structure Behind (j : Nat) (rest : Text) : Prop where
  notClosing : StopsAt (· == 0x29) rest
  notOpening : StopsAt (· == 0x28) (List.replicate j 0x29 ++ rest)

/-- One more group around those that have been counted. -/
theorem evalRule_nested_succ {room : Nat} (behind : Behind j rest)
    (inside : orZero (grammar.evalRule s room .nested (List.replicate k 0x28 ++ (List.replicate j 0x29 ++ rest))) =
      (.success (.int (if k ≤ j then k else 0)), List.replicate (j - k) 0x29 ++ rest)) :
    grammar.evalRule s (room + 1) .nested (List.replicate (k + 1) 0x28 ++ (List.replicate j 0x29 ++ rest)) =
      if k < j then (.success (.int (k + 1 : Nat)), List.replicate (j - (k + 1)) 0x29 ++ rest)
      else (.failure .plain, rest) := by
  rw [List.replicate_succ, List.cons_append]
  by_cases closed : k < j
  · have one_more : j - k = j - (k + 1) + 1 := by omega
    rw [if_pos (Nat.le_of_lt closed), one_more, List.replicate_succ, List.cons_append] at inside
    rw [if_pos closed]
    exact eval_nested_closed inside
  · rw [Nat.sub_eq_zero_of_le (Nat.not_lt.mp closed), List.replicate_zero, List.nil_append] at inside
    rw [if_neg closed]
    exact eval_nested_open behind.notClosing inside

/-- With more room than there are opening parentheses: they are counted if all are closed, and if not, nothing is, and
the closing ones that are there have been read. The induction is on the number of opening parentheses. -/
theorem orZero_evalRule_nested {room : Nat} (behind : Behind j rest) (enough : k < room) :
    orZero (grammar.evalRule s room .nested (List.replicate k 0x28 ++ (List.replicate j 0x29 ++ rest))) =
      (.success (.int (if k ≤ j then k else 0)), List.replicate (j - k) 0x29 ++ rest) := by
  induction k generalizing room with
  | zero =>
    obtain ⟨room, rfl⟩ : ∃ more, room = more + 1 := ⟨room - 1, by omega⟩
    have failed : grammar.evalRule s (room + 1) .nested (List.replicate j 0x29 ++ rest) =
        (.failure .plain, List.replicate j 0x29 ++ rest) := eval_nested_of_stopsAt behind.notOpening
    rw [List.replicate_zero, List.nil_append, failed, if_pos (Nat.zero_le j)]
    rfl
  | succ k ih =>
    obtain ⟨room, rfl⟩ : ∃ more, room = more + 1 := ⟨room - 1, by omega⟩
    rw [evalRule_nested_succ behind (ih (Nat.lt_of_succ_lt_succ enough))]
    by_cases closed : k < j
    · rw [if_pos closed, if_pos (show k + 1 ≤ j from closed)]
      rfl
    · rw [if_neg closed, if_neg (show ¬ k + 1 ≤ j from closed), Nat.sub_eq_zero_of_le (by omega)]
      rfl

/-- With at least one opening parenthesis and room for one more: the rule counts them if all are closed, and fails
behind the closing ones if not. -/
theorem evalRule_nested_of_opened {room : Nat} (behind : Behind j rest) (opened : 1 ≤ k) (enough : k < room) :
    grammar.evalRule s room .nested (List.replicate k 0x28 ++ (List.replicate j 0x29 ++ rest)) =
      if k ≤ j then (.success (.int k), List.replicate (j - k) 0x29 ++ rest) else (.failure .plain, rest) := by
  obtain ⟨k, rfl⟩ : ∃ less, k = less + 1 := ⟨k - 1, by omega⟩
  obtain ⟨room, rfl⟩ : ∃ less, room = less + 1 := ⟨room - 1, by omega⟩
  exact evalRule_nested_succ behind (orZero_evalRule_nested behind (Nat.lt_of_succ_lt_succ enough))

/-! ## 3. Whole sources -/

theorem takeWhile_eq_replicate (c : CodePoint) (t : Text) :
    t.takeWhile (· == c) = List.replicate (t.takeWhile (· == c)).length c := by
  refine List.eq_replicate_of_mem fun x there => ?_
  exact eq_of_beq (List.mem_takeWhile_imp (p := (· == c)) there)

/-- Every text is opening parentheses, closing ones behind them, and what is left. -/
theorem exists_behind (t : Text) :
    ∃ j rest, t = List.replicate (openings t) 0x28 ++ (List.replicate j 0x29 ++ rest) ∧ Behind j rest := by
  let inner := t.dropWhile (· == 0x28)
  have split_inner :
      List.replicate (inner.takeWhile (· == 0x29)).length 0x29 ++ inner.dropWhile (· == 0x29) = inner := by
    rw [← takeWhile_eq_replicate, List.takeWhile_append_dropWhile]
  refine ⟨(inner.takeWhile (· == 0x29)).length, inner.dropWhile (· == 0x29), ?_, stopsAt_dropWhile _ inner, ?_⟩
  · rw [split_inner, openings, ← takeWhile_eq_replicate, List.takeWhile_append_dropWhile]
  · rw [split_inner]
    exact stopsAt_dropWhile _ t

/-- A run of closing parentheses in front of others is as long as there are closing ones, or shorter. -/
theorem replicate_prefix_iff (stops : StopsAt (· == 0x29) rest) :
    List.replicate k 0x29 <+: List.replicate j 0x29 ++ rest ↔ k ≤ j := by
  induction k generalizing j with
  | zero => simp
  | succ k ih =>
    cases j with
    | zero =>
      cases rest with
      | nil => simp
      | cons c rest =>
        have rejected : (c == 0x29) = false := stops c rfl
        have other : c ≠ 0x29 := beq_eq_false_iff_ne.mp rejected
        simp [List.replicate_succ, List.cons_prefix_cons, other.symm]
    | succ j =>
      rw [List.replicate_succ, List.replicate_succ, List.cons_append, List.cons_prefix_cons, ih]
      simp

variable {limits : Limits} {m : Nat} {o : Outcome} {read : Text}

/-- A whole parse comes to what the rule comes to in front of the whole text, and stops where the text left unread
starts. -/
theorem run_nested (frames : grammar.HasFrames (.rule .nested) limits s) (granted : limits.granted = m)
    (whole : s.toText = read ++ rest) (evaluated : grammar.evalRule s m .nested s.toText = (o, rest)) :
    ∃ c : Cursor Rule, (grammar.run (.rule .nested) limits s).ending = Reply.ending s (o, c) ∧
      (grammar.run (.rule .nested) limits s).final = c ∧ c.index = read.length ∧ c.guard.limit = m := by
  have room : limits.room = m := by rw [Limits.room_eq, granted, Int.toNat_natCast]
  have whole_eval :
      (Parser.rule Rule.nested).eval s (grammar.evalRule s limits.room) (s.remaining 0) = (o, rest) := by
    rw [Source.remaining_zero, room]
    exact evaluated
  obtain ⟨outcome, index⟩ :=
    parse_of_eval (c := limits.start) (Nat.zero_le _) (Source.remaining_zero.trans whole) whole_eval
  have guard : (grammar.parse s (.rule .nested) limits.start).2.guard = limits.guard :=
    (Grammar.parse_follows _ _).guard
  refine ⟨(grammar.parse s (.rule .nested) limits.start).2, ?_, ?_, index.trans (Nat.zero_add _),
    (congrArg Guard.limit guard).trans granted⟩
  · rw [Grammar.run_of_hasFrames frames, ← outcome]
    rfl
  · rw [Grammar.run_of_hasFrames frames]
    rfl

/-- More opening parentheses than the limit allows. -/
theorem run_few (frames : grammar.HasFrames (.rule .nested) limits s) (granted : limits.granted = m)
    (whole : s.toText = List.replicate k 0x28 ++ rest) (few : m ≤ k) :
    (grammar.run (.rule .nested) limits s).ending = .failure (.tooDeepAt s m m) ∧
    (grammar.run (.rule .nested) limits s).final.index = m := by
  have cut : s.toText = List.replicate m 0x28 ++ (List.replicate (k - m) 0x28 ++ rest) := by
    rw [← List.append_assoc, List.replicate_append_replicate, Nat.add_sub_of_le few]
    exact whole
  have evaluated : grammar.evalRule s m .nested s.toText = (.refused, _) :=
    (congrArg _ whole).trans (evalRule_nested_refused few _)
  obtain ⟨c, ending, final, index, limit⟩ := run_nested frames granted cut evaluated
  rw [List.length_replicate] at index
  exact ⟨by rw [ending, Reply.ending, limit, index], by rw [final, index]⟩

/-- As many closing parentheses as opening ones, or more. -/
theorem run_closed (frames : grammar.HasFrames (.rule .nested) limits s) (granted : limits.granted = m)
    (whole : s.toText = List.replicate k 0x28 ++ (List.replicate j 0x29 ++ rest)) (behind : Behind j rest)
    (opened : 1 ≤ k) (enough : k < m) (closed : k ≤ j) :
    (grammar.run (.rule .nested) limits s).ending = .success (.int k) ∧
    (grammar.run (.rule .nested) limits s).final.index = 2 * k := by
  have cut : s.toText = (List.replicate k 0x28 ++ List.replicate k 0x29) ++ (List.replicate (j - k) 0x29 ++ rest) := by
    rw [List.append_assoc, ← List.append_assoc (List.replicate k 0x29), List.replicate_append_replicate,
      Nat.add_sub_of_le closed]
    exact whole
  have evaluated : grammar.evalRule s m .nested s.toText = (.success (.int k), _) :=
    (congrArg _ whole).trans ((evalRule_nested_of_opened behind opened enough).trans (if_pos closed))
  obtain ⟨c, ending, final, index, -⟩ := run_nested frames granted cut evaluated
  rw [List.length_append, List.length_replicate, List.length_replicate, ← Nat.two_mul] at index
  exact ⟨ending, by rw [final, index]⟩

/-- No opening parentheses, or fewer closing ones than those. -/
theorem run_open (frames : grammar.HasFrames (.rule .nested) limits s) (granted : limits.granted = m)
    (whole : s.toText = List.replicate k 0x28 ++ (List.replicate j 0x29 ++ rest)) (behind : Behind j rest)
    (enough : k < m) (unclosed : ¬ (1 ≤ k ∧ k ≤ j)) :
    (grammar.run (.rule .nested) limits s).ending = .failure .plain := by
  cases k with
  | zero =>
    obtain ⟨m, rfl⟩ : ∃ less, m = less + 1 := ⟨m - 1, by omega⟩
    have evaluated : grammar.evalRule s (m + 1) .nested s.toText = (.failure .plain, s.toText) :=
      eval_nested_of_stopsAt (whole ▸ behind.notOpening)
    obtain ⟨c, ending, -⟩ := run_nested frames granted (List.nil_append _).symm evaluated
    exact ending
  | succ k =>
    have opened : 1 ≤ k + 1 := Nat.succ_pos k
    have evaluated : grammar.evalRule s m .nested s.toText = (.failure .plain, rest) :=
      (congrArg _ whole).trans ((evalRule_nested_of_opened behind opened enough).trans
        (if_neg fun closed => unclosed ⟨opened, closed⟩))
    obtain ⟨c, ending, -⟩ := run_nested frames granted (whole.trans (List.append_assoc ..).symm) evaluated
    exact ending

end ParenthesisLemmas

open ParenthesisLemmas

/-- What counting parentheses comes to on every source, with `k` opening parentheses at its start and any limit `m` that
is granted as it is asked for, if the interpreter has the frames for it.

* If the limit is not above `k`, the parse is too deep, at the offset `m`.
* If it is, and there are `k` closing parentheses behind the opening ones, they are counted and read.
* Otherwise the parse fails, be it that no parenthesis is opened or that one of them is not closed. -/
theorem nested_exact (s : Source) (limits : Limits) (m : Nat) (limit : limits.depth = m)
    (granted : (m : Int) ≤ limits.interpreter.callLimit - Guard.reserve)
    (frames : grammar.HasFrames (.rule .nested) limits s) :
    let k := openings s.toText
    let run := grammar.run (.rule .nested) limits s
    (m ≤ k → run.final.index = m ∧
      ∃ f, run.ending = .failure f ∧ f = .tooDeepAt s m m ∧ f.ReportsDepth s m m) ∧
    (1 ≤ k → k < m → List.replicate k 0x29 <+: s.toText.drop k →
      run.ending = .success (.int k) ∧ run.final.index = 2 * k) ∧
    (k < m → ¬ (1 ≤ k ∧ List.replicate k 0x29 <+: s.toText.drop k) → run.ending = .failure ⟨.general, none⟩) := by
  intro k run
  obtain ⟨j, rest, whole, behind⟩ := exists_behind s.toText
  have closes : List.replicate k 0x29 <+: s.toText.drop k ↔ k ≤ j := by
    rw [whole, List.drop_left' List.length_replicate]
    exact replicate_prefix_iff behind.notClosing
  have unclamped : limits.granted = m := Limits.granted_eq limit granted
  rw [closes]
  refine ⟨fun few => ?_, run_closed frames unclamped whole behind, run_open frames unclamped whole behind⟩
  obtain ⟨ending, index⟩ := run_few frames unclamped whole few
  exact ⟨index, _, ending, rfl, Failure.tooDeepAt_reports s m m⟩

/-- Two pairs of parentheses, with a limit of three and with one of two, and two opening parentheses with one closing
one behind them, in an interpreter that lets a thousand calls be open and whose frames last for a hundred steps. -/
theorem nested_pairs :
    let limits (m : Nat) : Limits := { depth := m, interpreter := { callLimit := 1000, steps := some 100 } }
    let run (m : Nat) (t : String) := grammar.run (.rule .nested) (limits m) (.ofText (text t))
    ((3 : Nat) : Int) ≤ 1000 - Guard.reserve ∧ ((2 : Nat) : Int) ≤ 1000 - Guard.reserve ∧
    (run 3 "(()))").ending = .success (.int 2) ∧ (run 3 "(()))").final.index = 4 ∧
    (run 2 "(()))").final.index = 2 ∧
    (∃ f, (run 2 "(()))").ending = .failure f ∧ f.ReportsDepth (.ofText (text "(()))")) 2 2) ∧
    (run 3 "(()").ending = .failure ⟨.general, none⟩ := by
  intro limits run
  have three : ((3 : Nat) : Int) ≤ 1000 - Guard.reserve := by decide
  have two : ((2 : Nat) : Int) ≤ 1000 - Guard.reserve := by decide
  obtain ⟨-, counted, -⟩ := nested_exact (.ofText (text "(()))")) (limits 3) 3 rfl three (by decide +kernel)
  obtain ⟨ending, index⟩ := counted (by decide) (by decide) (by decide)
  obtain ⟨refused, -, -⟩ := nested_exact (.ofText (text "(()))")) (limits 2) 2 rfl two (by decide +kernel)
  obtain ⟨stops, f, failed, -, reports⟩ := refused (by decide)
  obtain ⟨-, -, unclosed⟩ := nested_exact (.ofText (text "(()")) (limits 3) 3 rfl three (by decide +kernel)
  exact ⟨three, two, ending, index, stops, ⟨f, failed, reports⟩, unclosed (by decide) (by decide)⟩

end Descent.Tour
