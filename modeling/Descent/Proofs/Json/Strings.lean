import Mathlib.Data.List.SplitBy
import Descent.Proofs.Json.Tokens
import Descent.Proofs.Parse.Unread

/-!
# JSON strings

A string token is read as a whole or not at all, and what it denotes can be said without looking at pairs one by one:
its escapes of four digits form maximal runs, each of them is a text in UTF-16, and every other character stands for
itself. A surrogate that stands raw in the source is therefore never the other half of one that is written by its
digits.

Results:
1. `Utf16.encode_decode`: decoding loses no unit.
2. `Spelling.decode_eq_denoted`: what the parts of a string spell, run by run.
3. `Spelling.decode_of_spells`: a text in any spelling is spelled by it, if it has no pair of surrogates in it.
4. `parse_string_exact`: the parser of strings from any offset of any source.
-/

namespace Descent

/-! ## 1. UTF-16 -/

namespace Utf16

/-- The text of some UTF-16 units. A high surrogate and a low one behind it are one code point; surrogates without
their other half are kept. -/
def decode : List Nat → Text
  | [] => []
  | [unit] => [unit]
  | high :: low :: rest =>
    if CodePoint.isHighSurrogate high && CodePoint.isLowSurrogate low then
      CodePoint.ofSurrogates high low :: decode rest
    else high :: decode (low :: rest)

/-- The units of a code point. -/
def encode (c : Nat) : List Nat :=
  if c < 0x10000 then [c] else [0xD800 + (c - 0x10000) / 0x400, 0xDC00 + (c - 0x10000) % 0x400]

theorem encode_pair {high low : Nat} (aboveHigh : 0xD800 ≤ high) (aboveLow : 0xDC00 ≤ low) (belowLow : low ≤ 0xDFFF) :
    encode (0x10000 + (high - 0xD800) * 0x400 + (low - 0xDC00)) = [high, low] := by
  rw [encode, if_neg (by omega)]
  simp only [List.cons.injEq, and_true]
  omega

theorem encode_ofSurrogates {high low : Nat} (isHigh : CodePoint.isHighSurrogate high = true)
    (isLow : CodePoint.isLowSurrogate low = true) : encode (CodePoint.ofSurrogates high low) = [high, low] := by
  simp only [CodePoint.isHighSurrogate, CodePoint.isLowSurrogate, Bool.and_eq_true, decide_eq_true_eq] at isHigh isLow
  exact encode_pair isHigh.1 isLow.1 isLow.2

/-- Decoding loses no unit. -/
theorem encode_decode {units : List Nat} (small : ∀ u ∈ units, u < 0x10000) :
    (decode units).flatMap encode = units := by
  have single : ∀ u < 0x10000, encode u = [u] := fun u hu => if_pos hu
  induction units using decode.induct with
  | case1 => rfl
  | case2 unit => simp [decode, single unit (small unit (by simp))]
  | case3 high low rest pair ih =>
    rw [decode, if_pos pair, List.flatMap_cons, ih fun u hu => small u (by simp [hu])]
    rw [Bool.and_eq_true] at pair
    rw [encode_ofSurrogates pair.1 pair.2]
    rfl
  | case4 high low rest apart ih =>
    rw [decode, if_neg apart, List.flatMap_cons, ih fun u hu => small u (List.mem_cons_of_mem _ hu),
      single high (small high (by simp))]
    rfl

end Utf16

namespace Json

/-! ## 2. Runs of units -/

namespace Spelling

/-- The maximal runs of units. Every other character is a run of its own. -/
def runs (parts : List Spelling) : List (List Spelling) := parts.splitBy fun p q => p.isUnit && q.isUnit

/-- The text of a run: units together, any other character by itself. -/
def textOfRun (run : List Spelling) : Text :=
  if run.all isUnit then Utf16.decode (run.map meaning) else run.map meaning

/-- The text of some spellings, run by run. -/
def denoted (parts : List Spelling) : Text := (runs parts).flatMap textOfRun

/-- Units up to something that is none are decoded together. -/
theorem decode_units : ∀ {run rest : List Spelling}, (∀ p ∈ run, p.isUnit = true) →
    (∀ q ∈ rest.head?, q.isUnit = false) → decode (run ++ rest) = Utf16.decode (run.map meaning) ++ decode rest
  | [], _, _, _ => rfl
  | [p], rest, _, ends => by
    refine decode_cons fun _ _ q hq unit => ?_
    rw [ends q hq] at unit
    cases unit
  | .unit a b c d :: .unit a' b' c' d' :: run, rest, units, ends => by
    have others : ∀ p ∈ run, p.isUnit = true := fun p hp => units p (by simp [hp])
    have behind : ∀ p ∈ unit a' b' c' d' :: run, p.isUnit = true := fun p hp => units p (List.mem_cons_of_mem _ hp)
    have mapped : (unit a b c d :: unit a' b' c' d' :: run).map meaning =
        unitOf a b c d :: unitOf a' b' c' d' :: run.map meaning := rfl
    rw [mapped, List.cons_append, List.cons_append, decode, Utf16.decode]
    by_cases pair : (CodePoint.isHighSurrogate (unitOf a b c d) && CodePoint.isLowSurrogate (unitOf a' b' c' d')) = true
    · rw [if_pos pair, if_pos pair, decode_units others ends, List.cons_append]
    · rw [if_neg pair, if_neg pair]
      exact congrArg (unitOf a b c d :: ·) (decode_units behind ends)
  | .raw c legal :: _ :: run, _, units, _ => absurd (units _ (List.mem_cons_self ..)) Bool.false_ne_true
  | .short e :: _ :: run, _, units, _ => absurd (units _ (List.mem_cons_self ..)) Bool.false_ne_true
  | p :: .raw c legal :: run, _, units, _ => absurd (units (.raw c legal) (by simp)) Bool.false_ne_true
  | p :: .short e :: run, _, units, _ => absurd (units (.short e) (by simp)) Bool.false_ne_true

/-- A run holds one character, or units only. -/
theorem units_of_isChain {p : Spelling} {run : List Spelling} (nonempty : run ≠ [])
    (chain : (p :: run).IsChain fun p q => (p.isUnit && q.isUnit) = true) : ∀ q ∈ p :: run, q.isUnit = true := by
  induction run generalizing p with
  | nil => exact absurd rfl nonempty
  | cons q run ih =>
    obtain ⟨pair, chain⟩ := List.isChain_cons_cons.mp chain
    rw [Bool.and_eq_true] at pair
    refine List.forall_mem_cons.mpr ⟨pair.1, ?_⟩
    cases run with
    | nil => exact List.forall_mem_singleton.mpr pair.2
    | cons r run => exact ih (List.cons_ne_nil _ _) chain

/-- A run is decoded apart from what follows, unless units follow on units. -/
theorem decode_run {run rest : List Spelling} (nonempty : run ≠ [])
    (chain : run.IsChain fun p q => (p.isUnit && q.isUnit) = true)
    (ends : ∀ q ∈ rest.head?, (run.getLast nonempty).isUnit = true → q.isUnit = false) :
    decode (run ++ rest) = textOfRun run ++ decode rest := by
  by_cases units : ∀ p ∈ run, p.isUnit = true
  · have last := units _ (List.getLast_mem nonempty)
    rw [textOfRun, if_pos (List.all_eq_true.mpr units)]
    exact decode_units units fun q hq => ends q hq last
  · rw [textOfRun, if_neg fun all => units (List.all_eq_true.mp all)]
    cases run with
    | nil => exact absurd rfl nonempty
    | cons p run =>
      obtain rfl : run = [] := Classical.byContradiction fun more => units (units_of_isChain more chain)
      refine decode_cons fun unit => absurd ?_ units
      exact List.forall_mem_singleton.mpr unit

/-- What the parts of a string spell, run by run. -/
theorem decode_eq_denoted (parts : List Spelling) : decode parts = denoted parts := by
  have joined : ∀ runs : List (List Spelling), [] ∉ runs →
      (∀ run ∈ runs, run.IsChain fun p q => (p.isUnit && q.isUnit) = true) →
      (runs.IsChain fun a b => ∃ ha hb, ((a.getLast ha).isUnit && (b.head hb).isUnit) = false) →
      decode runs.flatten = runs.flatMap textOfRun := by
    intro runs nonempty chains apart
    induction runs with
    | nil => rfl
    | cons run runs ih =>
      obtain ⟨first, nonempty⟩ := not_or.mp (fun h => nonempty (List.mem_cons.mpr h))
      obtain ⟨chain, chains⟩ := List.forall_mem_cons.mp chains
      rw [List.flatten_cons, List.flatMap_cons, ← ih nonempty chains apart.tail]
      refine decode_run (Ne.symm first) chain fun q hq unit => ?_
      cases runs with
      | nil => cases hq
      | cons next runs =>
        obtain ⟨_, hb, different⟩ := (List.isChain_cons_cons.mp apart).1
        rw [unit, Bool.true_and] at different
        have head : q = next.head hb := by
          rw [List.flatten_cons, List.head?_append_of_ne_nil _ hb, List.head?_eq_some_head hb] at hq
          exact (Option.some.inj hq).symm
        rw [head, different]
  have all := joined (runs parts) (List.nil_notMem_splitBy _ _)
    (fun run hrun => List.isChain_of_mem_splitBy hrun)
    (List.isChain_getLast_head_splitBy (fun p q : Spelling => p.isUnit && q.isUnit) parts)
  rwa [runs, List.flatten_splitBy] at all

/-! ## 3. Texts in any spelling -/

/-- `Spells c parts`: the parts are a legal spelling of the code point `c`, which is a single one, or both halves of
its surrogate pair. -/
inductive Spells : CodePoint → List Spelling → Prop
  | single (p : Spelling) : Spells p.meaning [p]
  | pair (a b c d a' b' c' d' : HexDigit) :
      CodePoint.isHighSurrogate (unitOf a b c d) = true → CodePoint.isLowSurrogate (unitOf a' b' c' d') = true →
      Spells (CodePoint.ofSurrogates (unitOf a b c d) (unitOf a' b' c' d')) [.unit a b c d, .unit a' b' c' d']

/-- `SpellsText t parts`: the parts are legal spellings of the code points of `t`, one behind the other. -/
inductive SpellsText : Text → List Spelling → Prop
  | nil : SpellsText [] []
  | cons {c : CodePoint} {t : Text} {first rest : List Spelling} :
      Spells c first → SpellsText t rest → SpellsText (c :: t) (first ++ rest)

/-- No high surrogate of the text has a low one right behind it. -/
def Unpaired (t : Text) : Prop :=
  t.IsChain fun c d => CodePoint.isHighSurrogate c = true → CodePoint.isLowSurrogate d = false

theorem not_isLowSurrogate_of_high {c : CodePoint} (high : CodePoint.isHighSurrogate c = true) :
    CodePoint.isLowSurrogate c = false := by
  simp only [CodePoint.isHighSurrogate, Bool.and_eq_true, decide_eq_true_eq] at high
  rw [CodePoint.isLowSurrogate, decide_eq_false (Nat.not_le.mpr (Nat.lt_of_le_of_lt high.2 (by decide))),
    Bool.false_and]

/-- A spelled text starts with a low surrogate unit only if its first code point is that surrogate. -/
theorem SpellsText.head_low {t : Text} {parts : List Spelling} (spelled : SpellsText t parts) {q : Spelling}
    (first : q ∈ parts.head?) (unit : q.isUnit = true) (low : CodePoint.isLowSurrogate q.meaning = true) :
    q.meaning ∈ t.head? := by
  cases spelled with
  | nil => cases first
  | cons point rest =>
    cases point with
    | single p =>
      cases first
      exact rfl
    | pair a b c d a' b' c' d' high _ =>
      cases first
      exact absurd low (Bool.eq_false_iff.mp (not_isLowSurrogate_of_high high))

/-- A text without pairs of surrogates is what any spelling of it spells. -/
theorem decode_of_spells {t : Text} {parts : List Spelling} (spelled : SpellsText t parts) (unpaired : Unpaired t) :
    decode parts = t := by
  induction spelled with
  | nil => rfl
  | @cons c t first rest point spelled ih =>
    have behind := ih unpaired.tail
    cases point with
    | single p =>
      rw [List.singleton_append, decode_cons, behind]
      intro _ high q hq unit
      refine Bool.eq_false_iff.mpr fun low => ?_
      have next := spelled.head_low hq unit low
      obtain ⟨more, rfl⟩ := List.head?_eq_some_iff.mp next
      exact Bool.false_ne_true (((List.isChain_cons_cons.mp unpaired).1 high).symm.trans low)
    | pair a b c d a' b' c' d' high low =>
      rw [List.cons_append, List.singleton_append, decode, high, low, behind]
      rfl

end Spelling

/-! ## 4. The parser -/

namespace StringLemmas

open Descent.Parser

variable {g : Grammar Rule} {s : Source}

/-- Behind the end of the source, no string is read. -/
theorem parse_string_beyond {c : Cursor Rule} (beyond : s.get? c.index = none) :
    (g.parse s string c).1 = .failure .plain := by
  simp [Grammar.parse, string, Parser.map, Parser.left, Parser.right, Parser.char, Parser.step, beyond]

section Settling

variable {call : Rule → Text → Result}

theorem hex4_settles (t : Text) : (hex4.eval s call t).Settles := by
  have digits : ∀ n t, ((chain (List.replicate n hexDigit)).eval s call t).Settles := by
    intro n
    induction n with
    | zero => exact fun t => Result.settles_success ..
    | succ n ih =>
      intro t
      rw [List.replicate_succ, eval_chain_cons]
      exact (settles_satisfy _ t).andThen fun _ rest => (ih rest).andThen fun _ _ => settles_outcome ..
  rw [hex4, eval_map, times, Parser.sequence, eval_attempt]
  exact ((digits 4 t).orElse fun _ _ => Result.settles_failure ..).andThen fun _ _ => settles_outcome ..

theorem one_suchThat_settles (accept : Value → Bool) (t : Text) :
    ((one.suchThat accept .plain).eval s call t).Settles := by
  rw [eval_suchThat]
  refine (settles_satisfy _ t).andThen fun v rest => ?_
  split
  · exact Result.settles_success ..
  · exact Result.settles_failure ..

theorem escape_settles (t : Text) : (escape.eval s call t).Settles := by
  rw [escape, eval_right, choice, List.foldl, List.foldl]
  refine (settles_satisfy _ t).andThen fun _ rest => ?_
  rw [eval_orElse, eval_map]
  refine ((one_suchThat_settles _ rest).andThen fun _ _ => settles_outcome ..).orElse fun _ rest => ?_
  rw [eval_right]
  exact ((settles_satisfy _ rest).andThen fun _ rest => hex4_settles rest).orElse fun _ _ => Result.settles_failure ..

theorem character_settles (t : Text) : ((orElse escape.attempt rawChar).eval s call t).Settles := by
  rw [eval_orElse, eval_attempt]
  refine ((escape_settles t).orElse fun _ _ => Result.settles_failure ..).orElse fun _ rest => ?_
  exact (one_suchThat_settles _ rest).orElse fun _ _ => Result.settles_failure ..

/-- A string is read or it is not: there is nothing in it that could be faulty or be refused. -/
theorem string_settles (call : Rule → Text → Result) (t : Text) : (string.eval s call t).Settles := by
  rw [string, eval_map, eval_left, eval_right]
  refine Result.Settles.andThen ?_ fun _ _ => settles_outcome ..
  refine ((settles_satisfy _ t).andThen fun _ rest => settles_collect character_settles rest).andThen fun _ rest => ?_
  exact (settles_satisfy _ rest).andThen fun _ _ => settles_outcome ..

end Settling

/-- What the parser of strings comes to, with the offset that it stops at. -/
theorem parse_string_agrees (c : Cursor Rule) :
    (g.parse s string c).1 = (string.eval s (g.evalRule s c.guard.room) (s.remaining c.index)).1 ∧
      (c.index ≤ s.size → (g.parse s string c).2.index ≤ s.size ∧ s.remaining (g.parse s string c).2.index =
        (string.eval s (g.evalRule s c.guard.room) (s.remaining c.index)).2) := by
  by_cases inside : c.index ≤ s.size
  · obtain ⟨outcome, unread⟩ := parse_agrees g s string c inside
    exact ⟨outcome, fun _ => ⟨(Grammar.parse_follows string c).le_size inside, unread⟩⟩
  · have beyond : s.get? c.index = none := by
      rw [Source.get?, Array.getElem?_eq_none_iff]
      exact Nat.le_of_not_le inside
    refine ⟨?_, fun h => absurd h inside⟩
    rw [parse_string_beyond beyond, Source.remaining_eq_nil beyond]
    rfl

/-- A string token is read to its end. -/
theorem parse_string_of_token {c : Cursor Rule} {parts : List Spelling}
    (token : writtenString parts <+: s.remaining c.index) :
    (g.parse s string c).1 = .success (.str (Spelling.decode parts)) ∧
      (g.parse s string c).2.index = c.index + (writtenString parts).length := by
  obtain ⟨rest, written⟩ := token
  have lengths := congrArg List.length written
  have long : 0 < (writtenString parts).length := Nat.succ_pos _
  rw [List.length_append, Source.length_remaining] at lengths
  have inside : c.index ≤ s.size := by omega
  obtain ⟨outcome, stops⟩ := parse_string_agrees (g := g) (s := s) c
  rw [← written, string_reads] at outcome stops
  obtain ⟨ends, unread⟩ := stops inside
  have left_over : (s.remaining (g.parse s string c).2.index).length = rest.length := congrArg List.length unread
  rw [Source.length_remaining] at left_over
  exact ⟨outcome, by omega⟩

/-- Where a string is read, there is a token. -/
theorem token_of_parse_string {c : Cursor Rule} {v : Value} (read : (g.parse s string c).1 = .success v) :
    ∃ parts : List Spelling, writtenString parts <+: s.remaining c.index ∧ v = .str (Spelling.decode parts) := by
  have evaluated := (parse_string_agrees c).1.symm.trans read
  obtain ⟨parts, written, value⟩ := string_sound (Prod.ext evaluated rfl)
  exact ⟨parts, ⟨_, written.symm⟩, value⟩

end StringLemmas

open StringLemmas

/-- The parser of strings accepts string tokens and nothing else, from every offset of every source.

* It succeeds exactly where a token stands. It then stops at the end of the token, and the value is the text that the
  token denotes: every maximal run of escapes of four digits read as UTF-16, every other character as it is meant.
* Anywhere else it fails.
* A text without a high surrogate in front of a low one is read back from every spelling of it. -/
theorem parse_string_exact (g : Grammar Rule) (s : Source) (c : Cursor Rule) :
    (∀ v stop, (g.parse s string c).1 = .success v ∧ (g.parse s string c).2.index = stop ↔
      ∃ parts : List Spelling, writtenString parts <+: s.remaining c.index ∧
        stop = c.index + (writtenString parts).length ∧ v = .str (Spelling.denoted parts)) ∧
    ((¬ ∃ parts, writtenString parts <+: s.remaining c.index) → ∃ f, (g.parse s string c).1 = .failure f) ∧
    (∀ t parts, Spelling.SpellsText t parts → Spelling.Unpaired t → writtenString parts <+: s.remaining c.index →
      (g.parse s string c).1 = .success (.str t) ∧
        (g.parse s string c).2.index = c.index + (writtenString parts).length) := by
  refine ⟨fun v stop => ⟨?_, ?_⟩, fun noToken => ?_, fun t parts spelled unpaired token => ?_⟩
  · rintro ⟨read, rfl⟩
    obtain ⟨parts, token, rfl⟩ := token_of_parse_string read
    exact ⟨parts, token, (parse_string_of_token token).2, congrArg Value.str (Spelling.decode_eq_denoted parts)⟩
  · rintro ⟨parts, token, rfl, rfl⟩
    rw [← Spelling.decode_eq_denoted]
    exact parse_string_of_token token
  · rw [(parse_string_agrees c).1]
    rcases string_settles (g.evalRule s c.guard.room) (s.remaining c.index) with ⟨v, read⟩ | failed
    · obtain ⟨parts, token, -⟩ := token_of_parse_string ((parse_string_agrees c).1.trans read)
      exact absurd ⟨parts, token⟩ noToken
    · exact failed
  · rw [← Spelling.decode_of_spells spelled unpaired]
    exact parse_string_of_token token

namespace Sample

def highUnit : Spelling := .unit ⟨0x44, rfl⟩ ⟨0x38, rfl⟩ ⟨0x33, rfl⟩ ⟨0x44, rfl⟩

def lowUnit : Spelling := .unit ⟨0x64, rfl⟩ ⟨0x65, rfl⟩ ⟨0x30, rfl⟩ ⟨0x30, rfl⟩

/-- A letter, a face beyond the first plane and half of one, in the spelling `A\uD83D\ude00\uD83D`. -/
def faces : List Spelling := [.raw 0x41 (by decide), highUnit, lowUnit, highUnit]

/-- The spelling in quotation marks, behind a bracket. -/
def bracketed : Source := .ofText (0x5B :: writtenString faces)

end Sample

/-- In front of the quotation mark a pair of units is read as one code point and half of a pair as itself. In front of
the bracket no string is read. -/
theorem faces_read :
    Spelling.SpellsText [0x41, 0x1F600, 0xD83D] Sample.faces ∧ Spelling.Unpaired [0x41, 0x1F600, 0xD83D] ∧
    (grammar.parse Sample.bracketed string ⟨1, .ofRequest 1, []⟩).1 = .success (.str [0x41, 0x1F600, 0xD83D]) ∧
    (grammar.parse Sample.bracketed string ⟨1, .ofRequest 1, []⟩).2.index = 22 ∧
    ∃ f, (grammar.parse Sample.bracketed string ⟨0, .ofRequest 1, []⟩).1 = .failure f := by
  have half : Spelling.Spells 0xD83D [Sample.highUnit] := by
    have meaning : Sample.highUnit.meaning = 0xD83D := by decide +kernel
    exact meaning ▸ .single Sample.highUnit
  have face : Spelling.Spells 0x1F600 [Sample.highUnit, Sample.lowUnit] := by
    have meaning : CodePoint.ofSurrogates Sample.highUnit.meaning Sample.lowUnit.meaning = 0x1F600 := by decide +kernel
    exact meaning ▸ .pair _ _ _ _ _ _ _ _ (by decide +kernel) (by decide +kernel)
  have spelled : Spelling.SpellsText [0x41, 0x1F600, 0xD83D] Sample.faces :=
    .cons (.single (.raw 0x41 (by decide))) (.cons face (.cons half .nil))
  have unpaired : Spelling.Unpaired [0x41, 0x1F600, 0xD83D] := by
    refine .cons_cons ?_ (.cons_cons ?_ (.singleton _)) <;> decide
  have token : writtenString Sample.faces <+: Sample.bracketed.remaining 1 := by decide +kernel
  have noToken : ¬ ∃ parts, writtenString parts <+: Sample.bracketed.remaining 0 := by
    rintro ⟨parts, rest, written⟩
    have bracket : (Sample.bracketed.remaining 0).head? = some 0x5B := by decide +kernel
    have mark : (0x22 : CodePoint) = 0x5B := Option.some.inj ((congrArg List.head? written).trans bracket)
    exact absurd mark (by decide)
  obtain ⟨read, stop⟩ :=
    (parse_string_exact grammar Sample.bracketed ⟨1, .ofRequest 1, []⟩).2.2 _ _ spelled unpaired token
  exact ⟨spelled, unpaired, read, stop, (parse_string_exact grammar Sample.bracketed ⟨0, .ofRequest 1, []⟩).2.1 noToken⟩

end Json
end Descent
