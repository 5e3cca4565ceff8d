import Descent.Proofs.Parse.Log
import Descent.Proofs.Parse.Provenance

/-!
# Ordered choice

A choice takes its alternatives in a row and commits as it goes: an alternative starts where the failed one before it
has left the cursor. How the alternatives are grouped does not matter. Whether the earlier ones have read something
does: a choice comes to what its first alternative that does not fail comes to on its own, as long as failing
alternatives leave the cursor where it was, and a parser that moves it can be told apart by what is put behind it.

Results:
1. `parse_orElse_assoc`, `parse_choice_append`: grouping.
2. `parse_choice_iff`: what a choice comes to, alternative by alternative.
3. `place_of_chooses`: alternatives that stay where they fail.
4. `choice_laws`: all of this for every set of rules, and that alternatives must stay.
-/

namespace Descent

variable {ρ : Type}

/-- What a choice comes to. The parsers are run in a row, each one from where the failed one before it has left the
cursor, until one does not fail. If all fail, so does the choice, with the plain failure. -/
inductive Grammar.Chooses (g : Grammar ρ) (s : Source) : List (Parser ρ) → Cursor ρ → Reply ρ → Prop
  | exhausted {c : Cursor ρ} : g.Chooses s [] c (.failure .plain, c)
  | taken {p : Parser ρ} {ps : List (Parser ρ)} {c : Cursor ρ} {reply : Reply ρ} :
      g.parse s p c = reply → ¬ reply.1.Fails → g.Chooses s (p :: ps) c reply
  | next {p : Parser ρ} {ps : List (Parser ρ)} {c c₁ : Cursor ρ} {f : Failure} {reply : Reply ρ} :
      g.parse s p c = (.failure f, c₁) → g.Chooses s ps c₁ reply → g.Chooses s (p :: ps) c reply

/-- The place that the first of several parsers gets to which does not fail, each one run on its own from the same
cursor. If all fail it is that cursor, with the plain failure. -/
def Grammar.firstAlone (g : Grammar ρ) (s : Source) (c : Cursor ρ) : List (Parser ρ) → Outcome × Nat × Guard
  | [] => (.failure .plain, c.index, c.guard)
  | p :: ps =>
    match g.parse s p c with
    | (.failure _, _) => g.firstAlone s c ps
    | reply => reply.place

/-- If the parser fails, the cursor is where it was. -/
def Grammar.StaysIfFailed (g : Grammar ρ) (s : Source) (p : Parser ρ) (c : Cursor ρ) : Prop :=
  ∀ f c', g.parse s p c = (.failure f, c') → c'.index = c.index

/-- The reply with the plain failure in place of any other. -/
def Reply.orPlain : Reply ρ → Reply ρ
  | (.failure _, c) => (.failure .plain, c)
  | reply => reply

namespace ChoiceLemmas

open Descent.Parser

variable {g : Grammar ρ} {s : Source} {p q r : Parser ρ} {ps qs : List (Parser ρ)} {c c₁ : Cursor ρ} {reply : Reply ρ}
  {f : Failure}

@[simp] theorem orPlain_orPlain (reply : Reply ρ) : reply.orPlain.orPlain = reply.orPlain := by
  obtain ⟨o, c⟩ := reply
  cases o <;> rfl

theorem orPlain_of_not_fails (decided : ¬ reply.1.Fails) : reply.orPlain = reply := by
  obtain ⟨o, c⟩ := reply
  cases o with
  | failure f => exact absurd ⟨f, rfl⟩ decided
  | _ => rfl

/-- The first alternative decides unless it fails. -/
theorem parse_orElse_of_not_fails (first : g.parse s p c = reply) (decided : ¬ reply.1.Fails) :
    g.parse s (.orElse p q) c = reply := by
  obtain ⟨o, c'⟩ := reply
  rw [Grammar.parse_orElse, first]
  cases o with
  | failure f => exact absurd ⟨f, rfl⟩ decided
  | _ => rfl

/-- Behind a first alternative that has failed, the second one decides, though not with which failure. -/
theorem parse_orElse_of_fails (first : g.parse s p c = (.failure f, c₁)) :
    g.parse s (.orElse p q) c = (g.parse s q c₁).orPlain := by
  cases second : g.parse s q c₁ with
  | mk o c₂ => cases o <;> simp only [Grammar.parse_orElse, first, second, Reply.orPlain]

theorem guard_of_fails (first : g.parse s p c = (.failure f, c₁)) : c₁.guard = c.guard := by
  have follows := Grammar.parse_follows (g := g) (s := s) p c
  rw [first] at follows
  exact follows.guard

/-! ## 1. Grouping -/

theorem parse_orElse_congr (h : ∀ c, g.parse s q c = g.parse s r c) (c : Cursor ρ) :
    g.parse s (.orElse p q) c = g.parse s (.orElse p r) c := by
  simp only [Grammar.parse_orElse, h]

theorem parse_orElse_assoc (p q r : Parser ρ) (c : Cursor ρ) :
    g.parse s (.orElse (.orElse p q) r) c = g.parse s (.orElse p (.orElse q r)) c := by
  cases first : g.parse s p c with
  | mk o c₁ =>
    cases o with
    | failure f =>
      cases second : g.parse s q c₁ with
      | mk o₂ c₂ =>
        cases o₂ with
        | failure f₂ =>
          simp only [Grammar.parse_orElse, first, second]
          cases g.parse s r c₂ with
          | mk o₃ c₃ => cases o₃ <;> rfl
        | _ => simp only [Grammar.parse_orElse, first, second]
    | _ => simp only [Grammar.parse_orElse, first]

/-- The first alternative may as well stand in front of the choice among the others. -/
theorem parse_choice_cons (p q : Parser ρ) (ps : List (Parser ρ)) (c : Cursor ρ) :
    g.parse s (choice (p :: q :: ps)) c = g.parse s (.orElse p (choice (q :: ps))) c := by
  induction ps generalizing p q c with
  | nil => rfl
  | cons r ps ih =>
    calc
      g.parse s (choice (p :: q :: r :: ps)) c
          = g.parse s (choice (p.orElse q :: r :: ps)) c := rfl
      _ = g.parse s (.orElse (p.orElse q) (choice (r :: ps))) c := ih ..
      _ = g.parse s (.orElse p (.orElse q (choice (r :: ps)))) c := parse_orElse_assoc ..
      _ = g.parse s (.orElse p (choice (q :: r :: ps))) c := parse_orElse_congr (fun c => (ih q r c).symm) c

theorem parse_choice_append (p q : Parser ρ) (ps qs : List (Parser ρ)) (c : Cursor ρ) :
    g.parse s (choice (p :: ps ++ q :: qs)) c = g.parse s (.orElse (choice (p :: ps)) (choice (q :: qs))) c := by
  induction ps generalizing p c with
  | nil => exact parse_choice_cons p q qs c
  | cons r ps ih =>
    calc
      g.parse s (choice (p :: r :: ps ++ q :: qs)) c
          = g.parse s (.orElse p (choice (r :: ps ++ q :: qs))) c := parse_choice_cons ..
      _ = g.parse s (.orElse p (.orElse (choice (r :: ps)) (choice (q :: qs)))) c := parse_orElse_congr (ih r) c
      _ = g.parse s (.orElse (.orElse p (choice (r :: ps))) (choice (q :: qs))) c := (parse_orElse_assoc ..).symm
      _ = g.parse s (.orElse (choice (p :: r :: ps)) (choice (q :: qs))) c := by
        rw [Grammar.parse_orElse, ← parse_choice_cons, ← Grammar.parse_orElse]

/-! ## 2. Alternative by alternative -/

/-- Every choice comes to something. -/
theorem exists_chooses (ps : List (Parser ρ)) (c : Cursor ρ) : ∃ reply, g.Chooses s ps c reply := by
  induction ps generalizing c with
  | nil => exact ⟨_, .exhausted⟩
  | cons p ps ih =>
    cases first : g.parse s p c with
    | mk o c₁ =>
      cases o with
      | failure f =>
        obtain ⟨reply, chosen⟩ := ih c₁
        exact ⟨reply, .next first chosen⟩
      | _ => exact ⟨_, .taken first nofun⟩

/-- A single alternative keeps a failure of its own, so this is up to which failure it is. -/
theorem orPlain_of_chooses (chosen : g.Chooses s (p :: ps) c reply) :
    (g.parse s (choice (p :: ps)) c).orPlain = reply := by
  induction ps generalizing p c with
  | nil =>
    cases chosen with
    | taken first decided => rw [choice, List.foldl_nil, first, orPlain_of_not_fails decided]
    | next first later =>
      cases later
      rw [choice, List.foldl_nil, first]
      rfl
  | cons q ps ih =>
    rw [parse_choice_cons]
    cases chosen with
    | taken first decided => rw [parse_orElse_of_not_fails first decided, orPlain_of_not_fails decided]
    | next first later =>
      rw [parse_orElse_of_fails first, orPlain_orPlain]
      exact ih later

theorem parse_of_chooses (chosen : g.Chooses s (p :: q :: ps) c reply) :
    g.parse s (choice (p :: q :: ps)) c = reply := by
  rw [parse_choice_cons]
  cases chosen with
  | taken first decided => exact parse_orElse_of_not_fails first decided
  | next first later => rw [parse_orElse_of_fails first, orPlain_of_chooses later]

theorem parse_choice_iff :
    g.parse s (choice (p :: q :: ps)) c = reply ↔ g.Chooses s (p :: q :: ps) c reply := by
  refine ⟨fun parsed => ?_, parse_of_chooses⟩
  obtain ⟨reply', chosen⟩ := exists_chooses (g := g) (s := s) (p :: q :: ps) c
  obtain rfl : reply' = reply := (parse_of_chooses chosen).symm.trans parsed
  exact chosen

/-! ## 3. Alternatives that stay -/

theorem firstAlone_of_not_fails (first : g.parse s p c = reply) (decided : ¬ reply.1.Fails) :
    g.firstAlone s c (p :: ps) = reply.place := by
  obtain ⟨o, c'⟩ := reply
  rw [Grammar.firstAlone, first]
  cases o with
  | failure f => exact absurd ⟨f, rfl⟩ decided
  | _ => rfl

theorem firstAlone_of_fails (first : g.parse s p c = (.failure f, c₁)) :
    g.firstAlone s c (p :: ps) = g.firstAlone s c ps := by
  rw [Grammar.firstAlone, first]

/-- The log is not looked at. -/
theorem parse_fails_congr {d : Cursor ρ} (index : d.index = c.index) (guard : d.guard = c.guard)
    (failed : g.parse s p d = (.failure f, c₁)) :
    ∃ c₂, g.parse s p c = (.failure f, c₂) ∧ c₂.index = c₁.index := by
  have same := parse_place (g := g) (s := s) (p := p) index guard
  cases there : g.parse s p c with
  | mk o c₂ =>
    rw [failed, there] at same
    obtain ⟨rfl, rest⟩ := Prod.mk.inj same
    exact ⟨c₂, rfl, (Prod.mk.inj rest).1.symm⟩

theorem firstAlone_congr {d : Cursor ρ} (index : d.index = c.index) (guard : d.guard = c.guard)
    (ps : List (Parser ρ)) : g.firstAlone s d ps = g.firstAlone s c ps := by
  induction ps with
  | nil => rw [Grammar.firstAlone, Grammar.firstAlone, index, guard]
  | cons p ps ih =>
    by_cases fails : (g.parse s p d).1.Fails
    · obtain ⟨f, failed⟩ := fails
      obtain ⟨c₂, failed', -⟩ := parse_fails_congr index guard (Prod.ext failed rfl)
      rw [firstAlone_of_fails failed', firstAlone_of_fails (Prod.ext failed rfl), ih]
    · have same := parse_place (g := g) (s := s) (p := p) index guard
      have fails' : ¬ (g.parse s p c).1.Fails := (Prod.mk.inj same).1 ▸ fails
      rw [firstAlone_of_not_fails rfl fails, firstAlone_of_not_fails rfl fails', same]

theorem staysIfFailed_congr {d : Cursor ρ} (index : d.index = c.index) (guard : d.guard = c.guard)
    (stays : g.StaysIfFailed s p c) : g.StaysIfFailed s p d := by
  intro f c₁ failed
  obtain ⟨c₂, failed', same⟩ := parse_fails_congr index guard failed
  rw [← same, stays f c₂ failed', index]

/-- Alternatives that stay where they fail are all run from the start, whatever failed before them. -/
theorem place_of_chooses (chosen : g.Chooses s ps c reply) (stays : ∀ p ∈ ps, g.StaysIfFailed s p c) :
    reply.place = g.firstAlone s c ps := by
  induction chosen with
  | exhausted => rfl
  | taken first decided => rw [firstAlone_of_not_fails first decided]
  | @next p ps c c₁ f reply first _ ih =>
    obtain ⟨stay, others⟩ := List.forall_mem_cons.mp stays
    have index := stay f c₁ first
    have guard := guard_of_fails first
    calc
      reply.place = g.firstAlone s c₁ ps := ih fun q member => staysIfFailed_congr index guard (others q member)
      _ = g.firstAlone s c ps := firstAlone_congr index guard ps
      _ = g.firstAlone s c (p :: ps) := (firstAlone_of_fails first).symm

/-- A parser that moves the cursor where it fails is told apart by the choice between it and one that always fails. -/
theorem stays_of_place (h : (g.parse s (choice [p, empty]) c).place = g.firstAlone s c [p, empty]) :
    g.StaysIfFailed s p c := by
  intro f c₁ first
  have both : g.parse s (choice [p, empty]) c = (.failure .plain, c₁) := parse_orElse_of_fails first
  rw [both, firstAlone_of_fails first] at h
  exact (Prod.mk.inj (Prod.mk.inj h).2).1

end ChoiceLemmas

open ChoiceLemmas

/-- The laws of ordered choice, for all parsers over every set of rules, from every cursor.

* A choice among two parsers or more comes to exactly what `Chooses` says.
* The choice among all of two lists is the choice between the choices among each, with the same reply down to the log.
* Choice is associative.
* If every parser stays where it is if it fails at the cursor, the choice gets to where the first of them that does not
  fail gets to on its own: with its value, and likewise with its fault or its refusal. If all fail, the choice does, at
  the cursor.
* A parser stays where it is if it fails exactly if the choice between it and any other one can be told in this way. -/
theorem choice_laws (g : Grammar ρ) (s : Source) (c : Cursor ρ) :
    (∀ p q ps reply, g.parse s (.choice (p :: q :: ps)) c = reply ↔ g.Chooses s (p :: q :: ps) c reply) ∧
    (∀ ps qs, ps ≠ [] → qs ≠ [] →
      g.parse s (.choice (ps ++ qs)) c = g.parse s (.orElse (.choice ps) (.choice qs)) c) ∧
    (∀ p q r, g.parse s (.orElse (.orElse p q) r) c = g.parse s (.orElse p (.orElse q r)) c) ∧
    (∀ ps, 2 ≤ ps.length → (∀ p ∈ ps, g.StaysIfFailed s p c) →
      (g.parse s (.choice ps) c).place = g.firstAlone s c ps) ∧
    (∀ p, g.StaysIfFailed s p c ↔
      ∀ q, g.StaysIfFailed s q c → (g.parse s (.choice [p, q]) c).place = g.firstAlone s c [p, q]) := by
  have staying : ∀ p q ps, (∀ r ∈ p :: q :: ps, g.StaysIfFailed s r c) →
      (g.parse s (.choice (p :: q :: ps)) c).place = g.firstAlone s c (p :: q :: ps) :=
    fun p q ps stays => place_of_chooses (parse_choice_iff.mp rfl) stays
  refine ⟨fun _ _ _ _ => parse_choice_iff, fun ps qs some some' => ?_, fun p q r => parse_orElse_assoc p q r c,
    fun ps many stays => ?_, fun p => ⟨fun stay q stay' => ?_, fun told => ?_⟩⟩
  · obtain ⟨p, ps, rfl⟩ := List.exists_cons_of_ne_nil some
    obtain ⟨q, qs, rfl⟩ := List.exists_cons_of_ne_nil some'
    exact parse_choice_append p q ps qs c
  · obtain _ | ⟨p, _ | ⟨q, ps⟩⟩ := ps
    · cases many
    · exact absurd many (by simp)
    · exact staying p q ps stays
  · exact staying p q [] (List.forall_mem_cons.mpr ⟨stay, List.forall_mem_singleton.mpr stay'⟩)
  · exact stays_of_place (told .empty fun _ _ failed => by cases failed; rfl)

/-- One rule: two dots in a row, read one by one. -/
def twoDots : Grammar Unit := fun _ => .ok (.sequence [Parser.char 0x2E, Parser.char 0x2E])

/-- Behind the first dot of `..a`, the rule and the attempt have read a dot before they fail, and both have moved back.
The third alternative is the one that reads the dot and the letter. -/
theorem dottedLetter_chosen :
    let s : Source := .ofText (text "..a")
    let c : Cursor Unit := ⟨1, .ofRequest 1, []⟩
    let ps : List (Parser Unit) :=
      [.rule (), .attempt ((Parser.char 0x2E).and Parser.digit), .literal (text ".a"), .one]
    2 ≤ ps.length ∧ (∀ p ∈ ps, twoDots.StaysIfFailed s p c) ∧
    (twoDots.parse s (.choice ps) c).place = (.success (.str (text ".a")), 3, .ofRequest 1) := by
  intro s c ps
  have many : 2 ≤ ps.length := by decide
  have stays : ∀ p ∈ ps, twoDots.StaysIfFailed s p c := by
    have dots : twoDots.parse s (.rule ()) c = (.failure .plain, c.note (.entered ())) := rfl
    have dotDigit : twoDots.parse s (.attempt ((Parser.char 0x2E).and Parser.digit)) c = (.failure .plain, c) := rfl
    have dotLetter : twoDots.parse s (.literal (text ".a")) c = (.success (.str (text ".a")), c.moveTo 3) := rfl
    have dot : twoDots.parse s .one c = (.success (.str (text ".")), c.moveTo 2) := rfl
    refine List.forall_mem_cons.mpr ⟨fun f c' failed => ?_, List.forall_mem_cons.mpr ⟨fun f c' failed => ?_,
      List.forall_mem_cons.mpr ⟨fun f c' failed => ?_, List.forall_mem_singleton.mpr fun f c' failed => ?_⟩⟩⟩
    · cases dots.symm.trans failed
      rfl
    · cases dotDigit.symm.trans failed
      rfl
    · cases dotLetter.symm.trans failed
    · cases dot.symm.trans failed
  exact ⟨many, stays, ((choice_laws twoDots s c).2.2.2.1 ps many stays).trans rfl⟩

-- An alternative that has read something before it fails takes that from the next one.
example : (Grammar.parse (ρ := Empty) nofun (.ofText (text ".a"))
    (.choice [(Parser.char 0x2E).and Parser.digit, .literal (text ".a")]) ⟨0, .ofRequest 1, []⟩).1 = .failure .plain :=
  rfl

end Descent
