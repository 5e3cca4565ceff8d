import Descent.Json.Grammar
import Descent.Proofs.Json.Syntax
import Descent.Proofs.Parse.Evaluation

/-!
# JSON tokens

What the parsers of white space, strings and numbers do in front of a text, in both directions: what they read is the
written form of a token, and the written form of a token is read as a whole.

Results:
1. `string_sound`, `string_reads`: strings. `string_failure` says where a string that breaks off leaves the cursor.
2. `number_sound`, `number_reads`: numbers.
3. `scalar_sound`, `scalar_failure`, `scalar_reads`: all tokens that are values.
-/

namespace Descent.Json

open Descent.Parser

variable {s : Source} {call : Rule → Text → Result}

/-! ## White space -/

namespace TokenLemmas

theorem isWhitespace_iff {c : CodePoint} :
    isWhitespace c = true ↔ c = 0x20 ∨ c = 0x09 ∨ c = 0x0D ∨ c = 0x0A := by
  simp [isWhitespace, or_assoc]

/-- White space is taken as a whole. -/
theorem exists_blanks (t : Text) : ∃ b : Blanks, t = b.val ++ t.dropWhile isWhitespace := by
  refine ⟨⟨t.takeWhile isWhitespace, fun c hc => ?_⟩, List.takeWhile_append_dropWhile.symm⟩
  exact isWhitespace_iff.mp (List.all_eq_true.mp List.all_takeWhile c hc)

theorem dropWhile_blanks (b : Blanks) {rest : Text} (stops : StopsAt isWhitespace rest) :
    (b.val ++ rest).dropWhile isWhitespace = rest :=
  dropWhile_append_of_stopsAt (fun c hc => isWhitespace_iff.mpr (b.property c hc)) stops

/-! ## Strings -/

/-- The value that the parser makes of a spelling: a text, or the UTF-16 unit. -/
def part : Spelling → Value
  | .raw c _ => .str [c]
  | .short e => .str [e.meaning]
  | .unit a b c d => .int (Spelling.unitOf a b c d)

theorem decodeParts_map_part (parts : List Spelling) : decodeParts (parts.map part) = Spelling.decode parts := by
  induction parts using Spelling.decode.induct with
  | case1 => rfl
  | case2 a b c d a' b' c' d' rest pair ih =>
    simp only [List.map_cons, part, decodeParts, Int.toNat_natCast, pair, if_true, Spelling.decode, ih]
  | case3 a b c d a' b' c' d' rest single ih =>
    simp only [List.map_cons, part] at ih ⊢
    rw [decodeParts, Spelling.decode, Int.toNat_natCast, Int.toNat_natCast, if_neg single, if_neg single, ih]
  | case4 p rest alone ih =>
    rw [Spelling.decode.eq_3 _ _ alone, List.map_cons]
    cases p with
    | raw c legal => simp [part, decodeParts, ih, Spelling.meaning]
    | short e => simp [part, decodeParts, ih, Spelling.meaning]
    | unit a b c d =>
      cases rest with
      | nil => rfl
      | cons q rest =>
        cases q with
        | raw c' legal => simp_all [part, decodeParts, Spelling.meaning]
        | short e => simp_all [part, decodeParts, Spelling.meaning]
        | unit a' b' c' d' => exact absurd rfl (alone a b c d a' b' c' d' rest rfl)

theorem shortEscape?_letter (e : ShortEscape) : shortEscape? (.str [e.letter]) = some e.meaning := by
  cases e <;> rfl

/-- The letters that are looked up are those of the short escapes. -/
theorem exists_shortEscape {c m : CodePoint} (h : shortEscape? (.str [c]) = some m) :
    ∃ e : ShortEscape, e.letter = c ∧ e.meaning = m := by
  obtain ⟨before, behind, listed, -⟩ := List.lookup_eq_some_iff.mp h
  have known : (c, m) ∈ shortEscapes := by
    rw [listed]
    exact List.mem_append_right _ (List.mem_cons_self ..)
  simp only [shortEscapes, List.mem_cons, Prod.mk.injEq, List.not_mem_nil, or_false] at known
  rcases known with h | h | h | h | h | h | h | h
  · exact ⟨.quotationMark, h.1.symm, h.2.symm⟩
  · exact ⟨.backslash, h.1.symm, h.2.symm⟩
  · exact ⟨.slash, h.1.symm, h.2.symm⟩
  · exact ⟨.backspace, h.1.symm, h.2.symm⟩
  · exact ⟨.formFeed, h.1.symm, h.2.symm⟩
  · exact ⟨.lineFeed, h.1.symm, h.2.symm⟩
  · exact ⟨.carriageReturn, h.1.symm, h.2.symm⟩
  · exact ⟨.tab, h.1.symm, h.2.symm⟩

theorem hex4_sound {t rest : Text} {v : Value} (h : hex4.eval s call t = (.success v, rest)) :
    ∃ a b c d : HexDigit, t = a.val :: b.val :: c.val :: d.val :: rest ∧ v = .int (Spelling.unitOf a b c d) := by
  rw [hex4, eval_map_eq_success_iff] at h
  obtain ⟨w, h, rfl, -⟩ := h
  rw [times, Parser.sequence, eval_attempt_eq_success_iff] at h
  obtain ⟨_, t₁, _, first, h₁, rfl⟩ := eval_chain_cons_eq_success_iff.mp h
  obtain ⟨_, t₂, _, second, h₂, ⟨⟩⟩ := eval_chain_cons_eq_success_iff.mp h₁
  obtain ⟨_, t₃, _, third, h₃, ⟨⟩⟩ := eval_chain_cons_eq_success_iff.mp h₂
  obtain ⟨_, t₄, _, fourth, h₄, ⟨⟩⟩ := eval_chain_cons_eq_success_iff.mp h₃
  obtain ⟨a, rfl, ha, rfl⟩ := eval_satisfy_eq_success first
  obtain ⟨b, rfl, hb, rfl⟩ := eval_satisfy_eq_success second
  obtain ⟨c, rfl, hc, rfl⟩ := eval_satisfy_eq_success third
  obtain ⟨d, rfl, hd, rfl⟩ := eval_satisfy_eq_success fourth
  cases h₄
  exact ⟨⟨a, ha⟩, ⟨b, hb⟩, ⟨c, hc⟩, ⟨d, hd⟩, rfl, rfl⟩

theorem hex4_reads (a b c d : HexDigit) (rest : Text) :
    hex4.eval s call (a.val :: b.val :: c.val :: d.val :: rest) =
      (.success (.int (Spelling.unitOf a b c d)), rest) := by
  have digits : (chain (List.replicate 4 hexDigit)).eval s call (a.val :: b.val :: c.val :: d.val :: rest) =
      (.success (.list [.str [a.val], .str [b.val], .str [c.val], .str [d.val]]), rest) := by
    simp only [List.replicate, eval_chain_cons, eval_chain_nil, hexDigit, eval_satisfy_cons, a.property, b.property,
      c.property, d.property, if_true, Result.andThen_success]
    rfl
  rw [hex4, eval_map, times, Parser.sequence, eval_attempt, digits]
  rfl

/-- Where an escape is read, it is one of the two forms. -/
theorem escape_sound {t rest : Text} {v : Value} (h : escape.eval s call t = (.success v, rest)) :
    ∃ p : Spelling, t = p.written ++ rest ∧ v = part p := by
  rw [escape, eval_right_eq_success_iff] at h
  obtain ⟨t₁, _, backslash, h⟩ := h
  obtain ⟨rfl, rfl⟩ := eval_char_eq_success backslash
  rw [choice, List.foldl, List.foldl, eval_orElse] at h
  cases t₁ with
  | nil => cases h
  | cons c t₂ =>
    rw [eval_map, eval_one_suchThat_cons] at h
    cases found : shortEscape? (.str [c]) with
    | some m =>
      obtain ⟨e, rfl, rfl⟩ := exists_shortEscape found
      simp only [found, Option.isSome_some, if_true, Result.andThen_success] at h
      cases h
      exact ⟨.short e, rfl, rfl⟩
    | none =>
      simp only [found, Option.isSome_none, Bool.false_eq_true, if_false, Result.andThen_failure,
        Result.orElse_failure, eval_right, eval_char_cons] at h
      split at h
      · next isMark =>
        subst isMark
        rw [Result.andThen_success, Result.orElse_eq_success_iff] at h
        rcases h with h | ⟨_, _, _, h⟩
        · obtain ⟨a, b, c, d, rfl, rfl⟩ := hex4_sound h
          exact ⟨.unit a b c d, rfl, rfl⟩
        · cases h
      · cases h

theorem escape_reads_short (e : ShortEscape) (rest : Text) :
    escape.eval s call (0x5C :: e.letter :: rest) = (.success (.str [e.meaning]), rest) := by
  rw [escape, eval_right, eval_char_cons, if_pos rfl, Result.andThen_success, choice, List.foldl, List.foldl]
  simp only [eval_orElse, eval_map, eval_one_suchThat_cons, shortEscape?_letter, Option.isSome_some, if_true,
    Result.andThen_success]
  rfl

theorem escape_reads_unit (a b c d : HexDigit) (rest : Text) :
    escape.eval s call (0x5C :: 0x75 :: a.val :: b.val :: c.val :: d.val :: rest) =
      (.success (.int (Spelling.unitOf a b c d)), rest) := by
  have not_short : (shortEscape? (.str [0x75])).isSome = false := rfl
  rw [escape, eval_right, eval_char_cons, if_pos rfl, Result.andThen_success, choice, List.foldl, List.foldl]
  simp only [eval_orElse, eval_map, eval_one_suchThat_cons, not_short, Bool.false_eq_true, if_false,
    Result.andThen_failure, Result.orElse_failure, eval_right, eval_char_cons, if_true, Result.andThen_success,
    hex4_reads, Result.orElse_success]

/-- A code point may stand inside a string as it is. -/
def isPlain (c : CodePoint) : Bool := isRaw (.str [c])

theorem isPlain_iff {c : CodePoint} : isPlain c = true ↔ c ≠ 0x22 ∧ c ≠ 0x5C ∧ 0x20 ≤ c := by
  simp [isPlain, isRaw, and_assoc]

/-- One character of a string. -/
theorem character_sound {t rest : Text} {v : Value}
    (h : (orElse escape.attempt rawChar).eval s call t = (.success v, rest)) :
    ∃ p : Spelling, t = p.written ++ rest ∧ v = part p := by
  rcases eval_orElse_eq_success_iff.mp h with read | ⟨_, t₁, failed, read⟩
  · exact escape_sound (eval_attempt_eq_success_iff.mp read)
  · obtain rfl := eval_attempt_eq_failure failed
    cases t₁ with
    | nil => cases read
    | cons c t₂ =>
      rw [rawChar, eval_one_suchThat_cons] at read
      split at read
      · next raw =>
        cases read
        exact ⟨.raw c (isPlain_iff.mp raw), rfl, rfl⟩
      · cases read

/-- Where no character of a string is read, the cursor stays, and what stands there is not plain. -/
theorem character_failure {t rest : Text} {f : Failure}
    (h : (orElse escape.attempt rawChar).eval s call t = (.failure f, rest)) :
    rest = t ∧ StopsAt isPlain t := by
  rw [eval_orElse, Result.orElse_eq_failure_iff] at h
  obtain ⟨_, t₁, failed, h⟩ := h
  obtain rfl := eval_attempt_eq_failure failed
  cases t₁ with
  | nil =>
    cases h
    exact ⟨rfl, stopsAt_nil _⟩
  | cons c t₂ =>
    rw [rawChar, eval_one_suchThat_cons] at h
    split at h
    · cases h
    · next special =>
      cases h
      exact ⟨rfl, stopsAt_cons.mpr (Bool.eq_false_iff.mpr special)⟩

theorem character_reads (p : Spelling) (rest : Text) :
    (orElse escape.attempt rawChar).eval s call (p.written ++ rest) = (.success (part p), rest) := by
  cases p with
  | raw c legal =>
    have failed : escape.eval s call (c :: rest) = (.failure .plain, c :: rest) := by
      rw [escape, eval_right, eval_char_cons, if_neg legal.2.1, Result.andThen_failure]
    have raw : isRaw (.str [c]) = true := isPlain_iff.mpr legal
    simp only [Spelling.written, List.cons_append, List.nil_append, eval_orElse, eval_attempt, failed,
      Result.orElse_failure, rawChar, eval_one_suchThat_cons, raw, if_true, Result.orElse_success, part]
  | short e =>
    simp only [Spelling.written, List.cons_append, List.nil_append, eval_orElse, eval_attempt, escape_reads_short,
      Result.orElse_success, part]
  | unit a b c d =>
    simp only [Spelling.written, List.cons_append, List.nil_append, eval_orElse, eval_attempt, escape_reads_unit,
      Result.orElse_success, part]

theorem written_ne_nil (p : Spelling) : p.written ≠ [] := by
  cases p <;> simp [Spelling.written]

/-- The characters of a string, up to something that is none. -/
theorem characters_sound {t rest : Text} {vs : List Value}
    (h : Collects ((orElse escape.attempt rawChar).eval s call) t vs rest) :
    ∃ parts : List Spelling, t = parts.flatMap Spelling.written ++ rest ∧ vs = parts.map part ∧
      StopsAt isPlain rest := by
  induction h with
  | stop failed =>
    obtain ⟨rfl, stops⟩ := character_failure failed
    exact ⟨[], rfl, rfl, stops⟩
  | last read still =>
    obtain ⟨p, rfl, -⟩ := character_sound read
    have longer := List.length_pos_iff.mpr (written_ne_nil p)
    rw [List.length_append] at still
    omega
  | more read _ _ ih =>
    obtain ⟨p, rfl, rfl⟩ := character_sound read
    obtain ⟨parts, rfl, rfl, stops⟩ := ih
    exact ⟨p :: parts, by simp, rfl, stops⟩

theorem characters_reads (parts : List Spelling) {rest : Text} {f : Failure}
    (stops : (orElse escape.attempt rawChar).eval s call rest = (.failure f, rest)) :
    Collects ((orElse escape.attempt rawChar).eval s call) (parts.flatMap Spelling.written ++ rest)
      (parts.map part) rest := by
  induction parts with
  | nil => exact .stop stops
  | cons p parts ih =>
    rw [List.flatMap_cons, List.append_assoc, List.map_cons]
    refine .more (character_reads p _) ?_ ih
    have longer := List.length_pos_iff.mpr (written_ne_nil p)
    simp only [List.length_append]
    omega

theorem quotation_mark_stops (rest : Text) :
    (orElse escape.attempt rawChar).eval s call (0x22 :: rest) = (.failure .plain, 0x22 :: rest) := rfl

end TokenLemmas

open TokenLemmas

/-- A string that is read stood there, and its value is what it spells. -/
theorem string_sound {t rest : Text} {v : Value} (h : string.eval s call t = (.success v, rest)) :
    ∃ parts : List Spelling, t = writtenString parts ++ rest ∧ v = .str (Spelling.decode parts) := by
  rw [string, eval_map_eq_success_iff] at h
  obtain ⟨w, h, rfl, -⟩ := h
  obtain ⟨t₁, _, h, -, closing⟩ := eval_left_eq_success_iff.mp h
  obtain ⟨t₂, _, opening, many⟩ := eval_right_eq_success_iff.mp h
  obtain ⟨rfl, -⟩ := eval_char_eq_success opening
  obtain ⟨vs, rfl, collects⟩ := eval_many_eq_success_iff.mp many
  obtain ⟨parts, rfl, rfl, -⟩ := characters_sound collects
  obtain ⟨rfl, -⟩ := eval_char_eq_success closing
  exact ⟨parts, by simp [writtenString], congrArg Value.str (decodeParts_map_part parts)⟩

/-- A string that is not read leaves the cursor where it was, or in front of a backslash or a control character, or at
the end. No value starts there. -/
theorem string_failure {t rest : Text} {f : Failure} (h : string.eval s call t = (.failure f, rest)) :
    rest = t ∨ ∀ c ∈ rest.head?, c = 0x5C ∨ c < 0x20 := by
  rw [string, eval_map, Result.andThen_eq_failure_iff] at h
  rcases h with h | ⟨_, _, _, h⟩
  · rw [eval_left, Result.andThen_eq_failure_iff] at h
    rcases h with h | ⟨w, t₁, h, closing⟩
    · rw [eval_right, Result.andThen_eq_failure_iff] at h
      rcases h with h | ⟨_, _, _, h⟩
      · exact .inl (eval_satisfy_eq_failure h).1
      · exact absurd h eval_many_ne_failure
    · obtain ⟨t₂, _, -, many⟩ := eval_right_eq_success_iff.mp h
      obtain ⟨vs, rfl, collects⟩ := eval_many_eq_success_iff.mp many
      obtain ⟨parts, -, -, stops⟩ := characters_sound collects
      rcases Result.andThen_eq_failure_iff.mp closing with closing | ⟨_, _, _, closing⟩
      · obtain ⟨rfl, noMark⟩ := eval_satisfy_eq_failure closing
        refine .inr fun c hc => ?_
        have special : ¬ (c ≠ 0x22 ∧ c ≠ 0x5C ∧ 0x20 ≤ c) := by
          rw [← isPlain_iff, stops c hc]
          exact Bool.false_ne_true
        have other : c ≠ 0x22 := by simpa using noMark c hc
        by_cases backslash : c = 0x5C
        · exact .inl backslash
        · exact .inr (Nat.lt_of_not_le fun le => special ⟨other, backslash, le⟩)
      · cases closing
  · cases h

/-- A string is read as a whole. -/
theorem string_reads (parts : List Spelling) (rest : Text) :
    string.eval s call (writtenString parts ++ rest) = (.success (.str (Spelling.decode parts)), rest) := by
  have characters : (many (orElse escape.attempt rawChar)).eval s call
      (parts.flatMap Spelling.written ++ 0x22 :: rest) = (.success (.list (parts.map part)), 0x22 :: rest) :=
    eval_many_eq_success_iff.mpr ⟨_, rfl, characters_reads parts (quotation_mark_stops rest)⟩
  have written : writtenString parts ++ rest = 0x22 :: (parts.flatMap Spelling.written ++ 0x22 :: rest) := by
    simp [writtenString]
  rw [string, written, eval_map, eval_left, eval_right, eval_char_cons, if_pos rfl, Result.andThen_success, characters,
    Result.andThen_success, eval_char_cons, if_pos rfl, Result.andThen_success, ← decodeParts_map_part]
  rfl

/-! ## Numbers -/

namespace TokenLemmas

/-- Digits are read up to something that is none. -/
theorem eval_digits (t : Text) :
    digits.eval s call t =
      if t.takeWhile CodePoint.isDigit = [] then (.failure .plain, t)
      else (.success (.str (t.takeWhile CodePoint.isDigit)), t.dropWhile CodePoint.isDigit) := by
  have split_at := List.takeWhile_append_dropWhile (p := CodePoint.isDigit) (l := t)
  rw [digits, eval_map, many1, eval_bind, digit, eval_many_satisfy, Result.andThen_success]
  cases run : t.takeWhile CodePoint.isDigit with
  | nil =>
    rw [run, List.nil_append] at split_at
    rw [split_at]
    rfl
  | cons c run => exact congrArg (fun v => (Outcome.success v, _)) (joined_map_str _)

theorem digits_sound {t rest : Text} {v : Value} (h : digits.eval s call t = (.success v, rest)) :
    ∃ d : Digits, t = d.val ++ rest ∧ v = .str d.val := by
  rw [eval_digits] at h
  split at h
  · cases h
  · next some_digits =>
    cases h
    exact ⟨⟨t.takeWhile CodePoint.isDigit, some_digits, fun c hc => List.all_eq_true.mp List.all_takeWhile c hc⟩,
      List.takeWhile_append_dropWhile.symm, rfl⟩

theorem digits_reads (d : Digits) {rest : Text} (stops : StopsAt CodePoint.isDigit rest) :
    digits.eval s call (d.val ++ rest) = (.success (.str d.val), rest) := by
  rw [eval_digits, takeWhile_append_of_stopsAt d.property.2 stops, if_neg d.property.1,
    dropWhile_append_of_stopsAt d.property.2 stops]

theorem digits_fail {t : Text} (stops : StopsAt CodePoint.isDigit t) :
    digits.eval s call t = (.failure .plain, t) := by
  rw [eval_digits, if_pos (takeWhile_of_stopsAt stops)]

theorem exists_digit (d : Digits) : ∃ c run, d.val = c :: run ∧ c.isDigit = true := by
  obtain ⟨run, some_digits, all⟩ := d
  cases run with
  | nil => exact absurd rfl some_digits
  | cons c run => exact ⟨c, run, rfl, all c (List.mem_cons_self ..)⟩

theorem not_digit_of_lt {c : CodePoint} (h : c < 0x30) : c.isDigit = false := by
  have small : ¬ 0x30 ≤ c := Nat.not_le_of_lt h
  simp [CodePoint.isDigit, small]

/-- The value that the parser makes of a fraction. -/
def fractionPart : Option Digits → Value
  | none => .absent
  | some d => .str d.val

/-- The value that the parser makes of an exponent. -/
def exponentPart : Option Exponent → Value
  | none => .absent
  | some e => .list [.str [e.mark], .str e.sign.written, .str e.digits.val]

theorem sign_sound {t rest : Text} {v : Value}
    (h : ((char 0x2D).otherwise (.str [])).eval s call t = (.success v, rest)) :
    ∃ negative, t = Number.writtenSign negative ++ rest ∧ v = .str (Number.writtenSign negative) := by
  rcases eval_orElse_eq_success_iff.mp h with read | ⟨_, _, failed, replaced⟩
  · obtain ⟨rfl, rfl⟩ := eval_char_eq_success read
    exact ⟨true, rfl, rfl⟩
  · obtain ⟨rfl, -⟩ := eval_satisfy_eq_failure failed
    cases replaced
    exact ⟨false, rfl, rfl⟩

theorem sign_reads (negative : Bool) (d : Digits) (rest : Text) :
    ((char 0x2D).otherwise (.str [])).eval s call (Number.writtenSign negative ++ (d.val ++ rest)) =
      (.success (.str (Number.writtenSign negative)), d.val ++ rest) := by
  cases negative with
  | true => rfl
  | false =>
    obtain ⟨c, run, written, isDigit⟩ := exists_digit d
    have other : c ≠ 0x2D := by
      rintro rfl
      exact absurd isDigit (by decide)
    simp only [Number.writtenSign, Bool.false_eq_true, if_false, List.nil_append, written, List.cons_append,
      eval_otherwise, eval_char_cons, other, Result.orElse_failure]
    rfl

theorem fraction_sound {t rest : Text} {v : Value} (h : fraction.eval s call t = (.success v, rest)) :
    ∃ f, t = Number.writtenFraction f ++ rest ∧ v = fractionPart f := by
  rcases eval_optional_eq_success_iff.mp h with h | ⟨⟨_, failed⟩, rfl, -⟩
  · obtain ⟨t₁, _, point, behind⟩ := eval_right_eq_success_iff.mp (eval_attempt_eq_success_iff.mp h)
    obtain ⟨rfl, -⟩ := eval_char_eq_success point
    obtain ⟨d, rfl, rfl⟩ := digits_sound behind
    exact ⟨some d, rfl, rfl⟩
  · obtain rfl := eval_attempt_eq_failure failed
    exact ⟨none, rfl, rfl⟩

theorem fraction_reads (f : Option Digits) {rest : Text}
    (stops : ∀ c ∈ rest.head?, c.isDigit = false ∧ c ≠ 0x2E) :
    fraction.eval s call (Number.writtenFraction f ++ rest) = (.success (fractionPart f), rest) := by
  rw [fraction, eval_optional, eval_attempt, eval_right]
  cases f with
  | some d =>
    rw [Number.writtenFraction, List.cons_append, eval_char_cons, if_pos rfl, Result.andThen_success,
      digits_reads d fun c hc => (stops c hc).1]
    rfl
  | none =>
    cases rest with
    | nil => rfl
    | cons c rest =>
      rw [Number.writtenFraction, List.nil_append, eval_char_cons, if_neg (stops c rfl).2]
      rfl

theorem mark_sound {t rest : Text} {v : Value} (h : (anyChar (text "eE")).eval s call t = (.success v, rest)) :
    ∃ capital : Bool, t = (if capital then 0x45 else 0x65) :: rest ∧ v = .str [if capital then 0x45 else 0x65] := by
  have letters : text "eE" = [0x65, 0x45] := rfl
  rw [letters] at h
  cases t with
  | nil => cases h
  | cons c t =>
    rw [eval_anyChar_cons] at h
    split at h
    · next letter =>
      cases h
      rcases letter with rfl | rfl
      · exact ⟨false, rfl, rfl⟩
      · exact ⟨true, rfl, rfl⟩
    · cases h

theorem mark_reads (e : Exponent) (rest : Text) :
    (anyChar (text "eE")).eval s call (e.mark :: rest) = (.success (.str [e.mark]), rest) := by
  have letters : text "eE" = [0x65, 0x45] := rfl
  rw [letters, eval_anyChar_cons, if_pos]
  unfold Exponent.mark
  split
  · exact .inr rfl
  · exact .inl rfl

theorem exponentSign_sound {t rest : Text} {v : Value}
    (h : ((anyChar (text "+-")).otherwise (.str [])).eval s call t = (.success v, rest)) :
    ∃ sign : Sign, t = sign.written ++ rest ∧ v = .str sign.written := by
  have signs : text "+-" = [0x2B, 0x2D] := rfl
  rw [signs, eval_otherwise] at h
  cases t with
  | nil =>
    cases h
    exact ⟨.implicit, rfl, rfl⟩
  | cons c t =>
    rw [eval_anyChar_cons] at h
    split at h
    · next sign =>
      cases h
      rcases sign with rfl | rfl
      · exact ⟨.plus, rfl, rfl⟩
      · exact ⟨.minus, rfl, rfl⟩
    · cases h
      exact ⟨.implicit, rfl, rfl⟩

theorem exponentSign_reads (sign : Sign) (d : Digits) (rest : Text) :
    ((anyChar (text "+-")).otherwise (.str [])).eval s call (sign.written ++ (d.val ++ rest)) =
      (.success (.str sign.written), d.val ++ rest) := by
  cases sign with
  | plus => rfl
  | minus => rfl
  | implicit =>
    have signs : text "+-" = [0x2B, 0x2D] := rfl
    obtain ⟨c, run, written, isDigit⟩ := exists_digit d
    have other : ¬ (c = 0x2B ∨ c = 0x2D) := by
      rintro (rfl | rfl) <;> exact absurd isDigit (by decide)
    rw [signs, Sign.written, List.nil_append, written, List.cons_append, eval_otherwise, eval_anyChar_cons,
      if_neg other]
    rfl

theorem exponent_sound {t rest : Text} {v : Value} (h : exponent.eval s call t = (.success v, rest)) :
    ∃ e, t = Number.writtenExponent e ++ rest ∧ v = exponentPart e := by
  rcases eval_optional_eq_success_iff.mp h with h | ⟨⟨_, failed⟩, rfl, -⟩
  · rw [Parser.sequence, eval_attempt_eq_success_iff] at h
    obtain ⟨_, t₁, _, letter, h₁, rfl⟩ := eval_chain_cons_eq_success_iff.mp h
    obtain ⟨_, t₂, _, sign, h₂, ⟨⟩⟩ := eval_chain_cons_eq_success_iff.mp h₁
    obtain ⟨_, t₃, _, number, h₃, ⟨⟩⟩ := eval_chain_cons_eq_success_iff.mp h₂
    cases h₃
    obtain ⟨capital, rfl, rfl⟩ := mark_sound letter
    obtain ⟨plusMinus, rfl, rfl⟩ := exponentSign_sound sign
    obtain ⟨d, rfl, rfl⟩ := digits_sound number
    exact ⟨some ⟨capital, plusMinus, d⟩, by simp [Number.writtenExponent, Exponent.written, Exponent.mark], rfl⟩
  · obtain rfl := eval_attempt_eq_failure failed
    exact ⟨none, rfl, rfl⟩

theorem exponent_reads (e : Option Exponent) {rest : Text}
    (stops : ∀ c ∈ rest.head?, c.isDigit = false ∧ c ≠ 0x65 ∧ c ≠ 0x45) :
    exponent.eval s call (Number.writtenExponent e ++ rest) = (.success (exponentPart e), rest) := by
  rw [exponent, eval_optional, Parser.sequence, eval_attempt, eval_chain_cons]
  cases e with
  | some e =>
    have written : Number.writtenExponent (some e) ++ rest = e.mark :: (e.sign.written ++ (e.digits.val ++ rest)) := by
      simp [Number.writtenExponent, Exponent.written]
    rw [written, mark_reads, Result.andThen_success, eval_chain_cons, exponentSign_reads, Result.andThen_success,
      eval_chain_cons, digits_reads e.digits fun c hc => (stops c hc).1]
    rfl
  | none =>
    cases rest with
    | nil => rfl
    | cons c rest =>
      have letters : text "eE" = [0x65, 0x45] := rfl
      have other : ¬ (c = 0x65 ∨ c = 0x45) := not_or.mpr (stops c rfl).2
      rw [Number.writtenExponent, List.nil_append, letters, eval_anyChar_cons, if_neg other]
      rfl

/-- The values that the parser makes of the parts of a number. -/
def parts (n : Number) : List Value :=
  [.str (Number.writtenSign n.negative), .str n.integral.val, fractionPart n.fraction, exponentPart n.exponent]

theorem isEmpty_writtenSign (negative : Bool) : (!(Number.writtenSign negative).isEmpty) = negative := by
  cases negative <;> rfl

theorem toNumber_integer (negative : Bool) (integral : Text) :
    toNumber (Number.writtenSign negative) integral .absent .absent =
      if integral.length ≤ Decimal.digitLimit then
        .ok (.int (if negative then -(Decimal.toNat integral : Int) else Decimal.toNat integral))
      else .error (.tooLong ⟨some integral.length⟩) := by
  rw [toNumber, isEmpty_writtenSign, Decimal.read]
  by_cases short : integral.length ≤ Decimal.digitLimit
  · simp only [if_pos short]
  · simp only [if_neg short]

/-- The power of ten that the parser takes from an exponent. -/
theorem power_exponentPart (e : Option Exponent) :
    (match (exponentPart e).items with
      | [_, .str sign, .str digits] =>
        if sign = [0x2D] then -(Decimal.toNat digits : Int) else Decimal.toNat digits
      | _ => 0) = (e.map Exponent.value).getD 0 := by
  cases e with
  | none => rfl
  | some e =>
    obtain ⟨capital, sign, d⟩ := e
    cases sign <;> rfl

theorem asText_fractionPart (f : Option Digits) : (fractionPart f).asText = (f.map Subtype.val).getD [] := by
  cases f <;> rfl

theorem toNumber_fractional (negative : Bool) (integral : Text) (f : Option Digits) (e : Option Exponent)
    (fractional : f ≠ none ∨ e ≠ none) :
    toNumber (Number.writtenSign negative) integral (fractionPart f) (exponentPart e) =
      .ok (.float (.ofDecimal negative (Decimal.toNat (integral ++ (f.map Subtype.val).getD []))
        ((e.map Exponent.value).getD 0 - ((f.map Subtype.val).getD []).length))) := by
  rw [← asText_fractionPart, ← power_exponentPart]
  cases f with
  | some f =>
    have given : fractionPart (some f) = .absent → exponentPart e = .absent → False := by rintro ⟨⟩
    have read := toNumber.eq_2 (Number.writtenSign negative) integral (fractionPart (some f)) (exponentPart e) given
    rw [isEmpty_writtenSign] at read
    exact read
  | none =>
    cases e with
    | some e =>
      have given : fractionPart none = .absent → exponentPart (some e) = .absent → False := by rintro - ⟨⟩
      have read :=
        toNumber.eq_2 (Number.writtenSign negative) integral (fractionPart none) (exponentPart (some e)) given
      rw [isEmpty_writtenSign] at read
      exact read
    | none => simp at fractional

/-- The value of the parts of a number is the one that the number denotes, unless it is an integer with too many
digits. -/
theorem partsToNumber_parts (n : Number) :
    partsToNumber (.list (parts n)) = .ok n.value ∨ ¬ n.Fits ∧ ∃ e, partsToNumber (.list (parts n)) = .error e := by
  obtain ⟨negative, integral, leading, fraction, exponent⟩ := n
  show toNumber (Number.writtenSign negative) integral.val (fractionPart fraction) (exponentPart exponent) = _ ∨
    _ ∧ ∃ e, toNumber (Number.writtenSign negative) integral.val (fractionPart fraction) (exponentPart exponent) = _
  by_cases fractional : fraction ≠ none ∨ exponent ≠ none
  · rw [toNumber_fractional _ _ _ _ fractional]
    refine .inl ?_
    cases fraction <;> cases exponent <;> simp_all [Number.value, Number.places, Number.power]
  · obtain ⟨rfl, rfl⟩ : fraction = none ∧ exponent = none := by simpa using fractional
    rw [fractionPart, exponentPart, toNumber_integer]
    split
    · exact .inl rfl
    · next long => exact .inr ⟨fun fits => long (fits rfl rfl), _, rfl⟩

theorem integral_sound {t rest : Text} {v : Value} (h : integral.eval s call t = (.success v, rest)) :
    ∃ d : Digits, (d.val = [0x30] ∨ d.val.head? ≠ some 0x30) ∧ t = d.val ++ rest ∧ v = .str d.val := by
  obtain ⟨read, accepted⟩ := eval_suchThat_eq_success_iff.mp h
  obtain ⟨d, rfl, rfl⟩ := digits_sound read
  exact ⟨d, by simpa [isIntegral] using accepted, rfl, rfl⟩

theorem integral_reads (n : Number) {rest : Text} (stops : StopsAt CodePoint.isDigit rest) :
    integral.eval s call (n.integral.val ++ rest) = (.success (.str n.integral.val), rest) := by
  have accepted : isIntegral (.str n.integral.val) = true := by simpa [isIntegral] using n.leading
  rw [integral, eval_suchThat, digits_reads n.integral stops, Result.andThen_success, if_pos accepted]

/-- The value of a number is no failure. -/
theorem outcome_of_partsToNumber {v w : Value} (h : partsToNumber v = .ok w) : w.outcome = .success w := by
  unfold partsToNumber toNumber at h
  split at h
  · dsimp only at h
    split at h
    · split at h
      · cases h
        rfl
      · cases h
    · cases h
      rfl
  · cases h

/-- What may follow a fraction and an exponent may follow what precedes them. -/
theorem head_writtenExponent (e : Option Exponent) {rest : Text}
    (ends : ∀ c ∈ rest.head?, c.isDigit = false ∧ c ≠ 0x2E) :
    ∀ c ∈ (Number.writtenExponent e ++ rest).head?, c.isDigit = false ∧ c ≠ 0x2E := by
  cases e with
  | none => exact ends
  | some e =>
    intro c hc
    obtain rfl : e.mark = c := by simpa [Number.writtenExponent, Exponent.written] using hc
    unfold Exponent.mark
    split <;> decide

theorem head_writtenFraction (f : Option Digits) {rest : Text} (stops : StopsAt CodePoint.isDigit rest) :
    StopsAt CodePoint.isDigit (Number.writtenFraction f ++ rest) := by
  cases f with
  | none => exact stops
  | some f => exact stopsAt_cons.mpr (by decide)

end TokenLemmas

open TokenLemmas

/-- A number ends in front of a text that does not go on with a digit, a fraction or an exponent. -/
def EndsNumber (rest : Text) : Prop := ∀ c ∈ rest.head?, c.isDigit = false ∧ c ≠ 0x2E ∧ c ≠ 0x65 ∧ c ≠ 0x45

/-- A number that is read stood there, and its value is what it denotes. -/
theorem number_sound {t rest : Text} {v : Value} (h : number.eval s call t = (.success v, rest)) :
    ∃ n : Number, t = n.written ++ rest ∧ v = n.value := by
  rw [number, mapM, eval_bind, Result.andThen_eq_success_iff] at h
  obtain ⟨w, u, h, hv⟩ := h
  rw [Parser.sequence, eval_attempt_eq_success_iff] at h
  obtain ⟨_, t₁, _, sign, h₁, rfl⟩ := eval_chain_cons_eq_success_iff.mp h
  obtain ⟨_, t₂, _, whole, h₂, ⟨⟩⟩ := eval_chain_cons_eq_success_iff.mp h₁
  obtain ⟨_, t₃, _, point, h₃, ⟨⟩⟩ := eval_chain_cons_eq_success_iff.mp h₂
  obtain ⟨_, t₄, _, scale, h₄, ⟨⟩⟩ := eval_chain_cons_eq_success_iff.mp h₃
  cases h₄
  obtain ⟨negative, rfl, rfl⟩ := sign_sound sign
  obtain ⟨d, leading, rfl, rfl⟩ := integral_sound whole
  obtain ⟨f, rfl, rfl⟩ := fraction_sound point
  obtain ⟨e, rfl, rfl⟩ := exponent_sound scale
  rcases partsToNumber_parts ⟨negative, d, leading, f, e⟩ with value | ⟨-, error, value⟩
  · have outcome := outcome_of_partsToNumber value
    rw [parts] at value
    simp only [value, eval_pure, outcome] at hv
    cases hv
    exact ⟨⟨negative, d, leading, f, e⟩, by simp [Number.written], rfl⟩
  · -- An integer with too many digits ends the parse, so nothing is read.
    rw [parts] at value
    simp only [value] at hv
    cases hv

/-- A number that is not read leaves the cursor where it was. -/
theorem number_failure {t rest : Text} {f : Failure} (h : number.eval s call t = (.failure f, rest)) : rest = t := by
  rw [number, mapM, eval_bind, Result.andThen_eq_failure_iff] at h
  rcases h with h | ⟨w, u, -, h⟩
  · exact eval_attempt_eq_failure h
  · cases value : partsToNumber w with
    | ok w =>
      simp only [value, eval_pure, outcome_of_partsToNumber value] at h
      cases h
    | error e =>
      simp only [value] at h
      cases h

/-- A number is read as a whole. -/
theorem number_reads (n : Number) (fits : n.Fits) {rest : Text} (ends : EndsNumber rest) :
    number.eval s call (n.written ++ rest) = (.success n.value, rest) := by
  have afterFraction := head_writtenExponent n.exponent fun c hc => ⟨(ends c hc).1, (ends c hc).2.1⟩
  have afterIntegral := head_writtenFraction n.fraction fun c hc => (afterFraction c hc).1
  have read : (Parser.sequence [(char 0x2D).otherwise (.str []), integral, fraction, exponent]).eval s call
      (n.written ++ rest) = (.success (.list (parts n)), rest) := by
    rw [Parser.sequence, eval_attempt, Number.written, List.append_assoc, List.append_assoc, List.append_assoc,
      eval_chain_cons, sign_reads, Result.andThen_success, eval_chain_cons, integral_reads n afterIntegral,
      Result.andThen_success, eval_chain_cons, fraction_reads n.fraction afterFraction, Result.andThen_success,
      eval_chain_cons, exponent_reads n.exponent fun c hc => ⟨(ends c hc).1, (ends c hc).2.2⟩]
    rfl
  rcases partsToNumber_parts n with value | ⟨long, -⟩
  · rw [number, mapM, eval_bind, read, Result.andThen_success, value]
    exact congrArg (·, rest) (outcome_of_partsToNumber value)
  · exact absurd fits long

/-- No number starts with anything but a minus sign or a digit. -/
theorem number_of_other {t : Text} (other : ∀ c ∈ t.head?, c ≠ 0x2D ∧ c.isDigit = false) :
    number.eval s call t = (.failure .plain, t) := by
  have unsigned : ((char 0x2D).otherwise (.str [])).eval s call t = (.success (.str []), t) := by
    cases t with
    | nil => rfl
    | cons c t =>
      rw [eval_otherwise, eval_char_cons, if_neg (other c rfl).1]
      rfl
  have failed : integral.eval s call t = (.failure .plain, t) := by
    rw [integral, eval_suchThat, digits_fail fun c hc => (other c hc).2]
    rfl
  rw [number, mapM, eval_bind, Parser.sequence, eval_attempt, eval_chain_cons, unsigned, Result.andThen_success,
    eval_chain_cons, failed]
  rfl

/-! ## Scalars -/

/-- The alternatives of a value that are tokens. -/
def scalar : Parser Rule :=
  choice [string, number, const (.literal (text "true")) (.bool true), const (.literal (text "false")) (.bool false),
    const (.literal (text "null")) .none]

namespace TokenLemmas

/-- No value starts here, since a backslash, a control character or the end comes first. -/
def Dead (t : Text) : Prop := ∀ c ∈ t.head?, c = 0x5C ∨ c < 0x20

theorem Dead.number {t : Text} (dead : Dead t) : number.eval s call t = (.failure .plain, t) := by
  refine number_of_other fun c hc => ?_
  rcases dead c hc with rfl | control
  · exact ⟨by decide, by decide⟩
  · exact ⟨Nat.ne_of_lt (Nat.lt_trans control (by decide)), not_digit_of_lt (Nat.lt_trans control (by decide))⟩

/-- Where something starts, the cursor is where it was. -/
theorem eq_of_start {t t₁ u : Text} {c : CodePoint} (h : t₁ = t ∨ Dead t₁) (start : t₁ = c :: u)
    (visible : c ≠ 0x5C ∧ 0x20 ≤ c) : t = c :: u := by
  rcases h with rfl | dead
  · exact start
  · subst start
    rcases dead c rfl with backslash | control
    · exact absurd backslash visible.1
    · exact absurd control (Nat.not_lt.mpr visible.2)

theorem string_of_other {t : Text} (other : ∀ c ∈ t.head?, c ≠ 0x22) :
    string.eval s call t = (.failure .plain, t) := by
  cases t with
  | nil => rfl
  | cons c t =>
    rw [string, eval_map, eval_left, eval_right, eval_char_cons, if_neg (other c rfl)]
    rfl

theorem head_number (n : Number) (rest : Text) : ∀ c ∈ (n.written ++ rest).head?, c ≠ 0x22 := by
  intro c hc
  rw [Number.written] at hc
  cases negative : n.negative with
  | true =>
    simp only [negative, Number.writtenSign] at hc
    cases hc
    decide
  | false =>
    obtain ⟨d, run, written, isDigit⟩ := exists_digit n.integral
    simp only [negative, Number.writtenSign, written] at hc
    cases hc
    rintro rfl
    exact absurd isDigit (by decide)

/-- Behind strings and numbers that were tried in vain, the cursor is where it was or no value starts there. -/
theorem numeric_failure {t rest : Text} {f : Failure} (h : (orElse string number).eval s call t = (.failure f, rest)) :
    rest = t ∨ Dead rest := by
  obtain ⟨_, t₁, _, noString, noNumber⟩ := eval_orElse_eq_failure h
  rw [number_failure noNumber]
  exact string_failure noString

end TokenLemmas

open TokenLemmas

/-- A token that is read stood there, and its value is what it denotes. -/
theorem scalar_sound {t rest : Text} {v : Value} (h : scalar.eval s call t = (.success v, rest)) :
    ∃ x : Scalar, t = x.written ++ rest ∧ v = x.value := by
  rw [scalar, choice] at h
  rcases eval_orElse_eq_success_iff.mp h with h | ⟨_, t₁, before, h⟩
  · rcases eval_orElse_eq_success_iff.mp h with h | ⟨_, t₁, before, h⟩
    · rcases eval_orElse_eq_success_iff.mp h with h | ⟨_, t₁, before, h⟩
      · rcases eval_orElse_eq_success_iff.mp h with read | ⟨_, t₁, before, read⟩
        · obtain ⟨parts, rfl, rfl⟩ := string_sound read
          exact ⟨.string parts, rfl, rfl⟩
        · -- A broken string may have moved the cursor, but no number starts where it has stopped.
          rcases string_failure before with rfl | dead
          · obtain ⟨n, rfl, rfl⟩ := number_sound read
            exact ⟨.number n, rfl, rfl⟩
          · rw [Dead.number dead] at read
            cases read
      · obtain ⟨stands, rfl⟩ := word_sound h rfl
        exact ⟨.bool true, eq_of_start (numeric_failure before) stands (by decide), rfl⟩
    · obtain ⟨_, t₂, _, before, noTrue⟩ := eval_orElse_eq_failure before
      obtain rfl := word_failure noTrue rfl
      obtain ⟨stands, rfl⟩ := word_sound h rfl
      exact ⟨.bool false, eq_of_start (numeric_failure before) stands (by decide), rfl⟩
  · obtain ⟨_, t₂, _, before, noFalse⟩ := eval_orElse_eq_failure before
    obtain ⟨_, t₃, _, before, noTrue⟩ := eval_orElse_eq_failure before
    obtain rfl := word_failure noTrue rfl
    obtain rfl := word_failure noFalse rfl
    obtain ⟨stands, rfl⟩ := word_sound h rfl
    exact ⟨.null, eq_of_start (numeric_failure before) stands (by decide), rfl⟩

/-- Behind tokens that were tried in vain, the cursor is where it was or no value starts there. -/
theorem scalar_failure {t rest : Text} {f : Failure} (h : scalar.eval s call t = (.failure f, rest)) :
    rest = t ∨ Dead rest := by
  rw [scalar, choice] at h
  obtain ⟨_, t₁, _, h, noNull⟩ := eval_orElse_eq_failure h
  obtain ⟨_, t₂, _, h, noFalse⟩ := eval_orElse_eq_failure h
  obtain ⟨_, t₃, _, h, noTrue⟩ := eval_orElse_eq_failure h
  rw [word_failure noNull rfl, word_failure noFalse rfl, word_failure noTrue rfl]
  exact numeric_failure h

namespace TokenLemmas

/-- In front of what starts neither a string nor a number, only the words are left. -/
theorem scalar_of_other {t : Text} (other : ∀ c ∈ t.head?, c ≠ 0x22 ∧ c ≠ 0x2D ∧ c.isDigit = false) :
    scalar.eval s call t =
      (choice [.empty, const (.literal (text "true")) (.bool true), const (.literal (text "false")) (.bool false),
        const (.literal (text "null")) .none]).eval s call t := by
  rw [scalar, choice, choice]
  simp only [List.foldl, eval_orElse, string_of_other fun c hc => (other c hc).1,
    number_of_other fun c hc => (other c hc).2, Result.orElse_failure]
  rfl

end TokenLemmas

/-- A token is read as a whole. -/
theorem scalar_reads (x : Scalar) (fits : x.Fits) {rest : Text} (ends : EndsNumber rest) :
    scalar.eval s call (x.written ++ rest) = (.success x.value, rest) := by
  cases x with
  | string parts =>
    simp only [scalar, choice, List.foldl, eval_orElse, Scalar.written, string_reads, Result.orElse_success,
      Scalar.value]
  | number n =>
    have noString : string.eval s call (n.written ++ rest) = (.failure .plain, n.written ++ rest) :=
      string_of_other (head_number n rest)
    simp only [scalar, choice, List.foldl, eval_orElse, Scalar.written, noString, number_reads n fits ends,
      Result.orElse_failure, Result.orElse_success, Scalar.value]
  | bool b =>
    cases b with
    | true =>
      rw [scalar_of_other]
      · rfl
      · rintro c ⟨⟩
        decide
    | false =>
      rw [scalar_of_other]
      · rfl
      · rintro c ⟨⟩
        decide
  | null =>
    rw [scalar_of_other]
    · rfl
    · rintro c ⟨⟩
      decide

/-- No token starts with a bracket. -/
theorem scalar_of_bracket {c : CodePoint} (bracket : c = 0x5B ∨ c = 0x7B ∨ c = 0x5D) (t : Text) :
    scalar.eval s call (c :: t) = (.failure .plain, c :: t) := by
  have other : c ≠ 0x22 ∧ c ≠ 0x2D ∧ c.isDigit = false := by
    rcases bracket with rfl | rfl | rfl <;> decide
  rw [scalar_of_other (by rintro _ ⟨⟩; exact other)]
  rcases bracket with rfl | rfl | rfl <;> rfl

end Descent.Json
