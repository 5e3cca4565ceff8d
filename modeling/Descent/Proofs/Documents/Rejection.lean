import Descent.Proofs.Json.Soundness
import Descent.Proofs.Markup.Language
import Descent.Proofs.Parse.Moments
import Descent.Proofs.Parse.Rewinding

/-!
# Rejected documents

A document is a parser with nothing allowed behind it. It is rejected in one of three ways: the parser itself fails,
something is left behind what it has read, or the parse nests too deeply, because a rule is refused or the frames of the
interpreter are used up. Whichever it is, the error is located at the cursor.

A value of JSON is a choice, so it fails with the plain failure. Nodes of markup are repeated, and a repetition does not
fail, so a markup document is either nested too deeply or cut where a node ends and no other one begins.

Results:
1. `Grammar.parse_left_eof`, `Grammar.run_failure`: how a whole parse comes to a failure.
2. `RejectionLemmas.rejects_of_read`: the three ways, for documents of any grammar.
3. `Json.value_fails_plainly`, `Markup.rejects_of_read`: what is left of them for each of the grammars.
4. `syntax_error_located`: errors of JSON and markup documents.
5. `Markup.rejected_between_nodes`: where a rejected markup document is cut.
-/

namespace Descent

variable {ρ : Type} {g : Grammar ρ} {p : Parser ρ} {s : Source} {limits : Limits}

/-! ## 1. Documents -/

/-- A source that is no larger than an admitted one is admitted. -/
theorem Limits.Admits.of_size_le {s' : Source} (admits : limits.Admits s) (smaller : s'.size ≤ s.size) :
    limits.Admits s' := by
  unfold Limits.Admits at admits ⊢
  omega

namespace Grammar

/-- Behind a success, the end of the source must have been reached. -/
theorem parse_left_eof (p : Parser ρ) (description : Text) (c : Cursor ρ) :
    g.parse s (p.left (.expecting .eof description)) c = match g.parse s p c with
      | (.success v, c') =>
        if c'.index < s.size then (.failure (.expectedAt s description c'.index), c') else (v.outcome, c')
      | reply => reply := by
  rw [Parser.left, parse_bind]
  cases reached : g.parse s p c with
  | mk o c' =>
    cases o with
    | success v =>
      have eof : g.parse s .eof c' = (if c'.index < s.size then .failure .plain else .success .none, c') := rfl
      simp only [Parser.const, Parser.map, parse_bind, parse_expecting, eof]
      by_cases unread : c'.index < s.size
      · simp only [if_pos unread]
      · simp only [if_neg unread]
        rfl
    | failure f => rfl
    | fault e => rfl
    | refused => rfl

/-- A whole parse ends in a failure where its parser fails, or where it nests too deeply. -/
theorem run_failure {f : Failure} (ended : (g.run p limits s).ending = .failure f) :
    g.parse s p limits.start = (.failure f, (g.run p limits s).final) ∨
      f = .tooDeepAt s limits.granted (g.run p limits s).final.index := by
  cases cut : g.cutOff? p limits s with
  | some c =>
    obtain ⟨ending, final⟩ := ending_of_cutOff? cut
    rw [final]
    exact .inr (Ending.failure.inj (ended.symm.trans ending))
  | none =>
    have frames : g.HasFrames p limits s := hasFrames_iff.mpr cut
    by_cases refused : (g.parse s p limits.start).1 = .refused
    · exact .inr (Ending.failure.inj (ended.symm.trans (ending_of_refused frames refused)))
    · rw [run_of_hasFrames frames] at ended ⊢
      cases reached : g.parse s p limits.start with
      | mk o c =>
        rw [reached] at ended refused
        cases o with
        | success v => cases ended
        | failure e =>
          cases ended
          exact .inl rfl
        | fault e => cases ended
        | refused => exact absurd rfl refused

/-- The cursor behind a whole parse stands inside the source. -/
theorem final_le_size (p : Parser ρ) : (g.run p limits s).final.index ≤ s.size := by
  cases cut : g.cutOff? p limits s with
  | some c =>
    obtain ⟨m, course, stood⟩ := FrameLemmas.leads_of_cutOff? cut
    obtain ⟨-, c', stood', order⟩ := MomentLemmas.inOrder_cursor (MomentLemmas.run_inOrder p (Nat.zero_le _) course)
    obtain rfl := Option.some.inj (stood.symm.trans stood')
    rw [(ending_of_cutOff? cut).2]
    exact order.inside
  | none =>
    rw [run_of_hasFrames (hasFrames_iff.mpr cut)]
    exact (parse_follows (g := g) (s := s) p limits.start).le_size (Nat.zero_le _)

/-- A document is rejected where its parse ends in a failure, and the error says where the parse has stopped. -/
theorem read_eq_error {rejected : Nat → Record} {input : Input} {e : ParseError}
    (h : (g.read p rejected limits input).value = .error (.error e)) :
    ∃ s f, limits.source input = .ok s ∧ (g.run p limits s).ending = .failure f ∧
      e = f.toError s (g.run p limits s).final.index := by
  rw [read, parseInput] at h
  cases source : limits.source input with
  | error e =>
    rw [source] at h
    cases h
  | ok s =>
    simp only [source, Except.map, Run.value] at h
    cases ended : (g.run p limits s).ending with
    | success v =>
      rw [ended] at h
      cases h
    | failure f =>
      rw [ended, run_source] at h
      cases h
      exact ⟨s, f, rfl, ended, rfl⟩
    | fault e =>
      rw [ended] at h
      cases h

/-- A source is parsed from its start, unless it is larger than allowed. -/
theorem parseInput_source_eq_ok_iff {r : Run ρ} :
    g.parseInput p limits (.source s) = .ok r ↔ limits.Admits s ∧ g.run p limits s = r := by
  rw [parseInput, Limits.source, Input.decode]
  by_cases large : 0 < limits.size ∧ limits.size < s.size <;> simp [large, Limits.Admits, Except.map]

end Grammar

/-! ## 2. Errors -/

namespace ParseError

/-- The error is located at the offset `i` of a source: the parse has stopped there, and the diagnostic has a span that
starts and ends there, with the line and the column of that offset. -/
structure StopsAt (e : ParseError) (s : Source) (i : Nat) : Prop where
  index : e.index = i
  inside : i ≤ s.size
  located : ∃ span, e.diagnostic.span = some span ∧ span.start = i ∧ span.stop = i ∧ span.position = s.position i

/-- The parser has read its part of the document, and the error says that the end was expected where it stopped. -/
structure LeavesInput (e : ParseError) (g : Grammar ρ) (p : Parser ρ) (limits : Limits) (s : Source) : Prop where
  code : e.diagnostic.code = .expected
  expected : e.diagnostic.expected = [text "end of input"]
  diagnostic : e.diagnostic = .expectedAt (text "end of input") (some (.point s e.index))
  kind : e.failure.kind = .general
  failure : e.failure.diagnostic = some e.diagnostic
  parsed : ∃ v c, g.parse s p limits.start = (.success v, c) ∧ c.index = e.index
  unread : e.index < s.size

/-- The parse was abandoned because rules nested too deeply, or more deeply than there were frames for. -/
structure NestsTooDeep (e : ParseError) (limits : Limits) (s : Source) : Prop where
  code : e.diagnostic.code = .nestingDepthExceeded
  diagnostic : e.diagnostic = .nestingDepthExceeded limits.granted (some (.point s e.index))
  kind : e.failure.kind = .tooDeep
  failure : e.failure.diagnostic = some e.diagnostic

/-- The parse has failed without saying why. -/
structure FailsPlainly (e : ParseError) (s : Source) : Prop where
  code : e.diagnostic.code = .parseFailed
  diagnostic : e.diagnostic = .parseFailed (some (.point s e.index))
  kind : e.failure.kind = .general
  failure : e.failure.diagnostic = none

end ParseError

namespace RejectionLemmas

/-- Where a document fails, its parser has failed, or else it has succeeded, and something is left or its value counts
as a failure. -/
theorem failure_of_left_eof {description : Text} {c c' : Cursor ρ} {f : Failure}
    (failed : g.parse s (p.left (.expecting .eof description)) c = (.failure f, c')) :
    g.parse s p c = (.failure f, c') ∨
      ∃ v, g.parse s p c = (.success v, c') ∧
        (v.outcome = .failure f ∨ c'.index < s.size ∧ f = .expectedAt s description c'.index) := by
  rw [Grammar.parse_left_eof] at failed
  cases reached : g.parse s p c with
  | mk o c₁ =>
    rw [reached] at failed
    cases o with
    | success v =>
      by_cases unread : c₁.index < s.size
      · simp only [if_pos unread] at failed
        cases failed
        exact .inr ⟨v, rfl, .inr ⟨unread, rfl⟩⟩
      · simp only [if_neg unread, Prod.mk.injEq] at failed
        obtain ⟨outcome, rfl⟩ := failed
        exact .inr ⟨v, rfl, .inl outcome⟩
    | failure e => exact .inl failed
    | fault e => cases failed
    | refused => cases failed

/-- The ways in which a document can be rejected. -/
theorem rejects_of_read {rejected : Nat → Record} {input : Input} {e : ParseError}
    (h : (g.read (p.left (.expecting .eof (text "end of input"))) rejected limits input).value = .error (.error e))
    (solid : ∀ s v c, g.parse s p limits.start = (.success v, c) → v.outcome = .success v) :
    ∃ r, g.parseInput (p.left (.expecting .eof (text "end of input"))) limits input = .ok r ∧
      e.index = r.final.index ∧ r.final.index ≤ r.source.size ∧
      (g.parse r.source p limits.start = (.failure e.failure, r.final) ∧
          e = e.failure.toError r.source r.final.index ∨
        e.LeavesInput g p limits r.source ∨ e.NestsTooDeep limits r.source) := by
  obtain ⟨s, f, source, ended, rfl⟩ := Grammar.read_eq_error h
  refine ⟨g.run (p.left (.expecting .eof (text "end of input"))) limits s, by rw [Grammar.parseInput, source]; rfl, rfl,
    ?_, ?_⟩
  · rw [Grammar.run_source]
    exact Grammar.final_le_size _
  rw [Grammar.run_source]
  rcases Grammar.run_failure ended with failed | rfl
  · rcases failure_of_left_eof failed with failed | ⟨v, read, outcome | ⟨unread, rfl⟩⟩
    · exact .inl ⟨failed, rfl⟩
    · rw [solid s v _ read] at outcome
      cases outcome
    · exact .inr (.inl ⟨rfl, rfl, rfl, rfl, rfl, ⟨v, _, read, rfl⟩, unread⟩)
  · exact .inr (.inr ⟨rfl, rfl, rfl, rfl⟩)

/-- A diagnostic with a span of a single offset says where that is. -/
theorem stopsAt_of_span {e : ParseError} {i : Nat} (index : e.index = i) (inside : i ≤ s.size)
    (span : e.diagnostic.span = some (.point s e.index)) : e.StopsAt s i := by
  subst index
  exact ⟨rfl, inside, _, span, rfl, rfl, rfl⟩

theorem stopsAt_of_rejects {e : ParseError} {i : Nat} (index : e.index = i) (inside : i ≤ s.size)
    (rejects : e.LeavesInput g p limits s ∨ e.NestsTooDeep limits s) : e.StopsAt s i := by
  rcases rejects with left | deep
  · exact stopsAt_of_span index inside (by rw [left.diagnostic]; rfl)
  · exact stopsAt_of_span index inside (by rw [deep.diagnostic]; rfl)

/-- What is read from the start of a source, by text. -/
theorem eval_of_parse_start {o : Outcome} {c : Cursor ρ} (parsed : g.parse s p limits.start = (o, c)) :
    p.eval s (g.evalRule s limits.room) s.toText = (o, s.remaining c.index) := by
  obtain ⟨outcome, unread⟩ := parse_start_agrees g p limits s
  rw [parsed] at outcome unread
  exact Prod.ext outcome.symm unread.symm

theorem size_ofText (t : Text) : (Source.ofText t).size = t.length := by
  rw [← Source.length_toText, Source.toText_ofText]

/-- A source of which a text has been read begins with that text. -/
theorem front_of_toText {i : Nat} {w : Text} (inside : i ≤ s.size) (written : s.toText = w ++ s.remaining i) :
    i = w.length ∧ s.slice 0 i = w := by
  have lengths := congrArg List.length written
  rw [Source.length_toText, List.length_append, Source.length_remaining] at lengths
  have length : i = w.length := by omega
  have stands : w <+: s.remaining 0 := ⟨s.remaining i, by rw [Source.remaining_zero, written]⟩
  have taken := Source.slice_of_prefix stands
  rw [Nat.zero_add, ← length] at taken
  exact ⟨length, taken⟩

/-- A choice fails with the plain failure. -/
theorem plain_of_orElse {call : ρ → Text → Result} {q : Parser ρ} {t rest : Text} {f : Failure}
    (h : (Parser.orElse p q).eval s call t = (.failure f, rest)) : f = .plain := by
  rw [Parser.eval_orElse, Result.orElse_eq_failure_iff] at h
  obtain ⟨_, _, -, h⟩ := h
  rw [Result.orElse_eq_failure_iff] at h
  obtain ⟨_, _, -, ⟨⟩⟩ := h
  rfl

end RejectionLemmas

open RejectionLemmas

/-! ## 3. Values and nodes -/

namespace Json

theorem value_solid (s : Source) (v : Value) (c : Cursor Rule)
    (read : grammar.parse s value limits.start = (.success v, c)) : v.outcome = .success v := by
  obtain ⟨⟨before, tree, after⟩, -, rfl, -⟩ := value_sound (evalRule_sound s _) (eval_of_parse_start read)
  exact SoundnessLemmas.outcome_value tree

theorem value_fails_plainly {f : Failure} {c : Cursor Rule}
    (failed : grammar.parse s value limits.start = (.failure f, c)) : f = .plain :=
  plain_of_orElse (SoundnessLemmas.value_failure (evalRule_sound s _) (eval_of_parse_start failed))

end Json

namespace Markup

/-- Nodes in a row do not fail, and their value is a list. -/
theorem nodes_succeed {s : Source} {c c' : Cursor Rule} {o : Outcome}
    (read : grammar.parse s (.many (.rule .node)) c = (o, c')) :
    (∀ f, o ≠ .failure f) ∧ ∀ v, o = .success v → ∃ items, v = .list items :=
  RewindingLemmas.list_of_repeatWhile ((Grammar.parse_many_eq_repeatWhile _ _).symm.trans read)

theorem nodes_solid (s : Source) (v : Value) (c : Cursor Rule)
    (read : grammar.parse s (.many (.rule .node)) limits.start = (.success v, c)) : v.outcome = .success v := by
  obtain ⟨items, rfl⟩ := (nodes_succeed read).2 v rfl
  rfl

/-- A markup document is rejected for what it leaves unread, or for nesting too deeply. -/
theorem rejects_of_read {input : Input} {e : ParseError} (h : (read limits input).value = .error (.error e)) :
    ∃ r, grammar.parseInput document limits input = .ok r ∧ e.index = r.final.index ∧ r.final.index ≤ r.source.size ∧
      (e.LeavesInput grammar (.many (.rule .node)) limits r.source ∨ e.NestsTooDeep limits r.source) := by
  obtain ⟨r, parsed, index, inside, ⟨failed, -⟩ | rejects⟩ := RejectionLemmas.rejects_of_read h nodes_solid
  · exact absurd rfl ((nodes_succeed failed).1 _)
  · exact ⟨r, parsed, index, inside, rejects⟩

end Markup

/-! ## 4. Places of errors -/

/-- Every error of a rejected JSON or markup document is located where the parse has stopped, at an offset of the
document. It says that the end of the document was expected there, behind a value or behind nodes, or that rules nested
too deeply, or, for JSON only, nothing more than that there is no value. The interpreter may be any. -/
theorem syntax_error_located :
    (∀ (limits : Limits) (input : Input) (e : ParseError), (Json.read limits input).value = .error (.error e) →
      ∃ r, Json.grammar.parseInput Json.document limits input = .ok r ∧ e.StopsAt r.source r.final.index ∧
        (e.LeavesInput Json.grammar Json.value limits r.source ∨ e.NestsTooDeep limits r.source ∨
          e.FailsPlainly r.source)) ∧
    (∀ (limits : Limits) (input : Input) (e : ParseError), (Markup.read limits input).value = .error (.error e) →
      ∃ r, Markup.grammar.parseInput Markup.document limits input = .ok r ∧ e.StopsAt r.source r.final.index ∧
        (e.LeavesInput Markup.grammar (.many (.rule .node)) limits r.source ∨ e.NestsTooDeep limits r.source)) := by
  constructor
  · intro limits input e h
    obtain ⟨r, parsed, index, inside, ⟨failed, same⟩ | rejects⟩ := RejectionLemmas.rejects_of_read h Json.value_solid
    · have plain := Json.value_fails_plainly failed
      have diagnostic : e.diagnostic = .parseFailed (some (.point r.source e.index)) := by
        rw [index, same, plain]
        rfl
      exact ⟨r, parsed, stopsAt_of_span index inside (by rw [diagnostic]; rfl),
        .inr (.inr ⟨by rw [diagnostic]; rfl, diagnostic, by rw [plain]; rfl, by rw [plain]; rfl⟩)⟩
    · exact ⟨r, parsed, stopsAt_of_rejects index inside rejects, rejects.imp_right .inl⟩
  · intro limits input e h
    obtain ⟨r, parsed, index, inside, rejects⟩ := Markup.rejects_of_read h
    exact ⟨r, parsed, stopsAt_of_rejects index inside rejects, rejects⟩

/-- A number for the one grammar and a text for the other, with a bracket behind it that belongs to neither. -/
def dangling : Source := .ofText (text "1>")

/-- At the bracket, the end of the document was expected. -/
def danglingError : ParseError := (Failure.expectedAt dangling (text "end of input") 1).toError dangling 1

/-- Both grammars stop at the bracket. -/
theorem dangling_located :
    (∃ r, Json.grammar.parseInput Json.document {} (.source dangling) = .ok r ∧
      danglingError.StopsAt r.source r.final.index ∧
      (danglingError.LeavesInput Json.grammar Json.value {} r.source ∨ danglingError.NestsTooDeep {} r.source ∨
        danglingError.FailsPlainly r.source)) ∧
    ∃ r, Markup.grammar.parseInput Markup.document {} (.source dangling) = .ok r ∧
      danglingError.StopsAt r.source r.final.index ∧
      (danglingError.LeavesInput Markup.grammar (.many (.rule .node)) {} r.source ∨
        danglingError.NestsTooDeep {} r.source) :=
  ⟨syntax_error_located.1 {} (.source dangling) danglingError (by decide +kernel),
    syntax_error_located.2 {} (.source dangling) danglingError (by decide +kernel)⟩

/-! ## 5. Cuts between nodes -/

namespace Markup

open LanguageLemmas

/-- Where nodes have been read one after another, there is no further one, and trying to read it moves nothing. -/
theorem no_node_behind {room : Nat} {t rest : Text} {vs : List Value}
    (collects : Parser.Collects (grammar.evalRule s room .node) t vs rest) :
    grammar.evalRule s room .node rest = (.failure .plain, rest) := by
  induction collects with
  | stop failed =>
    obtain ⟨some_room, rfl⟩ := node_failure failed
    obtain ⟨k, rfl⟩ := Nat.exists_eq_add_of_le' some_room
    rw [evalRule_node] at failed ⊢
    rw [plain_of_orElse failed] at failed
    exact failed
  | last read still =>
    obtain ⟨n, w, normal, spells, -, rfl, -⟩ := evalRule_sound s room read
    have longer := List.length_pos_iff.mpr (spells_ne_nil normal spells)
    rw [List.length_append] at still
    omega
  | more _ _ _ ih => exact ih

/-- A rejected document that does not end where the end was expected is cut between two nodes. The part in front of the
cut is a document of exactly those nodes that had been read, if the interpreter has the frames for it. At the cut no
node starts: the attempt to read one fails without having moved the cursor. -/
theorem rejected_between_nodes (limits : Limits) (s : Source) (e : ParseError)
    (rejected : (read limits (.source s)).value = .error (.error e))
    (unread : e.diagnostic.expected = [Descent.text "end of input"]) :
    ∃ (ns : List Node) (c : Cursor Rule),
      grammar.parse s (.many (.rule .node)) limits.start = (.success (.list (ns.map .node)), c) ∧ c.index = e.index ∧
      (grammar.HasFrames document limits (.ofText (s.slice 0 e.index)) →
        (read limits (.source (.ofText (s.slice 0 e.index)))).value = .ok (.list (ns.map .node))) ∧
      ∀ d : Cursor Rule, d.index = e.index → d.guard = limits.guard →
        ∃ d', grammar.parse s (.rule .node) d = (.failure .plain, d') ∧ d'.index = d.index := by
  obtain ⟨r, parsed, -, -, left | deep⟩ := rejects_of_read rejected
  · obtain ⟨admits, rfl⟩ := Grammar.parseInput_source_eq_ok_iff.mp parsed
    rw [Grammar.run_source] at left
    obtain ⟨v, c, nodes, stops⟩ := left.parsed
    have inside : e.index ≤ s.size := Nat.le_of_lt left.unread
    obtain ⟨vs, rfl, collects⟩ := Parser.eval_many_eq_success_iff.mp (eval_of_parse_start nodes)
    rw [stops] at collects
    obtain ⟨ns, w, normal, spells, need, written, rfl⟩ := forest_sound (evalRule_sound s _) collects
    obtain ⟨length, cut⟩ := front_of_toText inside written
    refine ⟨ns, c, nodes, stops, ?_, ?_⟩
    · rw [cut]
      refine read_of_spells (admits.of_size_le ?_) normal (by rwa [Source.toText_ofText]) need
      rw [size_ofText, ← length]
      exact inside
    · intro d here guard
      have none : (Parser.rule Rule.node).eval s (grammar.evalRule s d.guard.room) (s.remaining d.index) =
          (.failure .plain, s.remaining d.index) := by
        rw [guard, here]
        exact no_node_behind collects
      obtain ⟨failed, stays⟩ := parse_of_eval (here ▸ inside) (List.nil_append _).symm none
      exact ⟨_, Prod.ext failed rfl, stays⟩
  · rw [deep.diagnostic] at unread
    cases unread

/-- A tag, and an opened tag that is never closed although it has a child of its own. -/
def unclosed : Source := .ofText (Descent.text "<p>x</p><b><i>y</i>")

def unclosedError : ParseError := (Failure.expectedAt unclosed (Descent.text "end of input") 8).toError unclosed 8

/-- The opened tag is given up as a whole, with its child, so the cut is in front of it. -/
theorem unclosed_cut :
    ∃ (ns : List Node) (c : Cursor Rule),
      grammar.parse unclosed (.many (.rule .node)) (Limits.start {}) = (.success (.list (ns.map .node)), c) ∧
      c.index = 8 ∧
      (read {} (.source (.ofText (unclosed.slice 0 8)))).value = .ok (.list (ns.map .node)) ∧
      ∀ d : Cursor Rule, d.index = 8 → d.guard = .ofRequest Guard.defaultLimit →
        ∃ d', grammar.parse unclosed (.rule .node) d = (.failure .plain, d') ∧ d'.index = d.index := by
  obtain ⟨ns, c, nodes, stops, again, behind⟩ :=
    rejected_between_nodes {} unclosed unclosedError (by decide +kernel) rfl
  exact ⟨ns, c, nodes, stops, again (Grammar.hasFrames_of_steps rfl), behind⟩

end Markup

end Descent
