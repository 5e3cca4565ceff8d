import Descent.Number.IntegerLiteral
import Descent.Proofs.Json.Tokens
import Descent.Proofs.Parse.Unread
import Descent.Value.Transform

/-!
# JSON numbers

A number is read as far as it goes: the longest beginning of the unread text that is one. What looks like the start of
a fraction or an exponent and has no digits is left where it stands. Only the integer part can make the parser fail: a
run of digits that starts with zero and goes on is not cut short.

The value depends on nothing but the text that was read. An integer is the literal that the text spells, any other
number the binary64 number nearest to what the text spells.

Results:
1. `NumberLemmas.partsToNumber_eq_converted`: the value made of the parts is the value of the text.
2. `NumberLemmas.eval_number_of_starts`, `NumberLemmas.eval_number_of_not_starts`: the parser takes each part as far as
   it goes, and where no number starts, it takes nothing.
3. `length_written_le`: a number whose parts cannot be read on is the longest one there.
4. `parse_number_exact`: the parser of numbers from any offset of any source.
-/

namespace Descent

/-! ## 1. Values of texts -/

namespace Decimal

/-- A letter between a decimal number and the power of ten that it is scaled by. -/
def isMark (c : CodePoint) : Bool := c == 0x65 || c == 0x45

/-- The binary64 number nearest to what a text spells: a sign, digits with a point among them, and a power of ten with a
sign of its own behind a mark. All but the digits may be missing. -/
def nearest (t : Text) : Binary64 :=
  let negative := (IntegerLiteral.splitSign t).1
  let unsigned := (IntegerLiteral.splitSign t).2
  let mantissa := unsigned.takeWhile fun c => !isMark c
  let places := (mantissa.dropWhile (· != 0x2E)).drop 1
  let scale := IntegerLiteral.splitSign ((unsigned.dropWhile fun c => !isMark c).drop 1)
  let power : Int := if scale.1 then -(toNat scale.2 : Int) else toNat scale.2
  .ofDecimal negative (toNat (mantissa.takeWhile (· != 0x2E) ++ places)) (power - places.length)

end Decimal

namespace Json

open Descent.Parser

/-- What follows a minus sign, if there is one. -/
def unsigned : Text → Text
  | 0x2D :: rest => rest
  | rest => rest

/-- Behind a minus sign, if there is one, come digits, and the whole run of them is zero alone or does not start with
zero. -/
def StartsNumber (t : Text) : Prop :=
  (unsigned t).takeWhile CodePoint.isDigit ≠ [] ∧
    ((unsigned t).takeWhile CodePoint.isDigit = [0x30] ∨
      ((unsigned t).takeWhile CodePoint.isDigit).head? ≠ some 0x30)

instance (t : Text) : Decidable (StartsNumber t) := inferInstanceAs (Decidable (_ ∧ _))

/-- The value of a number from the text that was read: of an integer what the literal spells, unless it has too many
digits, and of any other number the nearest binary64 number. -/
def Number.converted (n : Number) : Except Fault Value :=
  match n.fraction, n.exponent with
  | none, none => Transform.spelled .ten n.written
  | _, _ => .ok (.float (Decimal.nearest n.written))

namespace NumberLemmas

open TokenLemmas

theorem isDigit_iff {c : CodePoint} : c.isDigit = true ↔ 0x30 ≤ c ∧ c ≤ 0x39 := by
  simp [CodePoint.isDigit]

theorem ne_of_isDigit {c e : CodePoint} (digit : c.isDigit = true) (other : e.isDigit = false) : c ≠ e := by
  rintro rfl
  exact Bool.false_ne_true (other.symm.trans digit)

theorem splitSign_digits (d : Digits) (rest : Text) :
    IntegerLiteral.splitSign (d.val ++ rest) = (false, d.val ++ rest) := by
  obtain ⟨c, run, written, isDigit⟩ := exists_digit d
  rw [written, List.cons_append, IntegerLiteral.splitSign]
  · exact fun more minus => ne_of_isDigit isDigit rfl (List.cons.inj minus).1
  · exact fun more plus => ne_of_isDigit isDigit rfl (List.cons.inj plus).1

theorem splitSign_writtenSign (negative : Bool) (d : Digits) (rest : Text) :
    IntegerLiteral.splitSign (Number.writtenSign negative ++ (d.val ++ rest)) = (negative, d.val ++ rest) := by
  cases negative with
  | true => rfl
  | false => exact splitSign_digits d rest

theorem splitSign_sign (sign : Sign) (d : Digits) (rest : Text) :
    IntegerLiteral.splitSign (sign.written ++ (d.val ++ rest)) =
      (match sign with | .minus => true | _ => false, d.val ++ rest) := by
  cases sign with
  | implicit => exact splitSign_digits d rest
  | plus => rfl
  | minus => rfl

/-! ### Integers -/

theorem isParted_of_notMem {t : Text} (none : 0x5F ∉ t) : IntegerLiteral.isParted t = true := by
  have first : t.head? ≠ some 0x5F := fun h => none (List.mem_of_mem_head? h)
  have last : t.getLast? ≠ some 0x5F := fun h => none (List.mem_of_mem_getLast? h)
  have pairs : (t.zip t.tail).all (fun pair => pair != (0x5F, 0x5F)) = true := by
    refine List.all_eq_true.mpr fun pair mem => bne_iff_ne.mpr ?_
    rintro rfl
    exact none (List.of_mem_zip mem).1
  rw [IntegerLiteral.isParted, pairs, bne_iff_ne.mpr first, bne_iff_ne.mpr last]
  rfl

theorem mem_integer {negative : Bool} {d : Digits} {c : CodePoint} (mem : c ∈ Number.writtenSign negative ++ d.val) :
    c = 0x2D ∨ c.isDigit = true := by
  rcases List.mem_append.mp mem with sign | digit
  · cases negative with
    | true => exact .inl (List.mem_singleton.mp sign)
    | false => cases sign
  · exact .inr (d.property.2 c digit)

theorem folded_integer (negative : Bool) (d : Digits) :
    (Number.writtenSign negative ++ d.val).map IntegerLiteral.folded = Number.writtenSign negative ++ d.val := by
  refine (List.map_congr_left fun c mem => if_pos ?_).trans (List.map_id _)
  rcases mem_integer mem with rfl | digit
  · decide
  · exact Nat.lt_of_le_of_lt (isDigit_iff.mp digit).2 (by decide)

theorem trimmed_integer (negative : Bool) (d : Digits) :
    (Number.writtenSign negative ++ d.val).dropWhile IntegerLiteral.isSpace =
      Number.writtenSign negative ++ d.val := by
  refine dropWhile_of_stopsAt fun c mem => ?_
  rcases mem_integer (List.mem_of_mem_head? mem) with rfl | digit
  · decide
  · have above : ¬ c ≤ 0x0D := Nat.not_le_of_lt (Nat.lt_of_lt_of_le (by decide) (isDigit_iff.mp digit).1)
    rw [IntegerLiteral.isSpace, beq_eq_false_iff_ne.mpr (ne_of_isDigit digit rfl), decide_eq_false above,
      Bool.and_false, Bool.or_false]

/-- The digits of an integer literal, with underscores among them, are all there is. -/
theorem run_integer (d : Digits) :
    d.val.takeWhile (fun c => Base.ten.isDigit c || c == 0x5F) = d.val ∧
      d.val.dropWhile (fun c => Base.ten.isDigit c || c == 0x5F) = [] := by
  have parts : ∀ c ∈ d.val, (Base.ten.isDigit c || c == 0x5F) = true := fun c mem => by
    rw [Base.isDigit, d.property.2 c mem, Bool.true_or]
  constructor
  · simpa using takeWhile_append_of_stopsAt parts (stopsAt_nil _)
  · simpa using dropWhile_append_of_stopsAt parts (stopsAt_nil _)

/-- A text of ASCII digits behind a minus sign, if there is one, is the literal of the integer that it spells. -/
theorem read_integer (negative : Bool) (d : Digits) :
    IntegerLiteral.read .ten (Number.writtenSign negative ++ d.val) =
      match Decimal.read negative d.val with
      | .ok n => .ok n
      | .error e => .error (.tooLong e) := by
  have sign : IntegerLiteral.splitSign (Number.writtenSign negative ++ d.val) = (negative, d.val) := by
    simpa using splitSign_writtenSign negative d []
  have parted : IntegerLiteral.isParted d.val = true :=
    isParted_of_notMem fun mem => absurd (d.property.2 _ mem) (by decide)
  have some_digits : d.val.isEmpty = false := List.isEmpty_eq_false_iff.mpr d.property.1
  have filtered : d.val.filter Base.ten.isDigit = d.val := List.filter_eq_self.mpr d.property.2
  obtain ⟨run, behind⟩ := run_integer d
  rw [IntegerLiteral.read, folded_integer, trimmed_integer, sign]
  simp only [IntegerLiteral.dropMark, run, behind, filtered, some_digits, parted, Base.toInt]
  cases Decimal.read negative d.val <;> rfl

/-! ### Other numbers -/

theorem not_isMark_of_isDigit {c : CodePoint} (digit : c.isDigit = true) : Decimal.isMark c = false := by
  rw [Decimal.isMark, beq_eq_false_iff_ne.mpr (ne_of_isDigit digit rfl),
    beq_eq_false_iff_ne.mpr (ne_of_isDigit digit rfl), Bool.or_false]

theorem not_isMark_of_mem_fraction {f : Option Digits} {c : CodePoint} (mem : c ∈ Number.writtenFraction f) :
    Decimal.isMark c = false := by
  cases f with
  | none => cases mem
  | some d =>
    rcases List.mem_cons.mp mem with rfl | digit
    · rfl
    · exact not_isMark_of_isDigit (d.property.2 c digit)

/-- The digits in front of the point and those behind it. -/
theorem split_mantissa (d : Digits) (f : Option Digits) :
    (d.val ++ Number.writtenFraction f).takeWhile (· != 0x2E) = d.val ∧
      ((d.val ++ Number.writtenFraction f).dropWhile (· != 0x2E)).drop 1 = (f.map Subtype.val).getD [] := by
  have noPoint : ∀ c ∈ d.val, (c != 0x2E) = true := fun c hc =>
    bne_iff_ne.mpr (ne_of_isDigit (d.property.2 c hc) rfl)
  have stops : StopsAt (· != 0x2E) (Number.writtenFraction f) := by
    cases f with
    | none => exact stopsAt_nil _
    | some f => exact stopsAt_cons.mpr rfl
  rw [takeWhile_append_of_stopsAt noPoint stops, dropWhile_append_of_stopsAt noPoint stops]
  cases f <;> exact ⟨rfl, rfl⟩

/-- The power of ten behind the mark. -/
theorem split_power (e : Option Exponent) :
    (if (IntegerLiteral.splitSign ((Number.writtenExponent e).drop 1)).1
      then -(Decimal.toNat (IntegerLiteral.splitSign ((Number.writtenExponent e).drop 1)).2 : Int)
      else Decimal.toNat (IntegerLiteral.splitSign ((Number.writtenExponent e).drop 1)).2) =
      (e.map Exponent.value).getD 0 := by
  cases e with
  | none => rfl
  | some e =>
    have behind : (Number.writtenExponent (some e)).drop 1 = e.sign.written ++ (e.digits.val ++ []) := by
      rw [List.append_nil]
      rfl
    rw [behind, splitSign_sign, List.append_nil]
    obtain ⟨capital, sign, d⟩ := e
    cases sign <;> rfl

theorem nearest_written (n : Number) :
    Decimal.nearest n.written =
      .ofDecimal n.negative (Decimal.toNat (n.integral.val ++ n.places)) (n.power - n.places.length) := by
  have sign := splitSign_writtenSign n.negative n.integral
    (Number.writtenFraction n.fraction ++ Number.writtenExponent n.exponent)
  have noMark : ∀ c ∈ n.integral.val ++ Number.writtenFraction n.fraction, (!Decimal.isMark c) = true := by
    intro c hc
    rcases List.mem_append.mp hc with digit | behind
    · rw [not_isMark_of_isDigit (n.integral.property.2 c digit)]
      rfl
    · rw [not_isMark_of_mem_fraction behind]
      rfl
  have mark : StopsAt (fun c => !Decimal.isMark c) (Number.writtenExponent n.exponent) := by
    cases n.exponent with
    | none => exact stopsAt_nil _
    | some e =>
      refine stopsAt_cons.mpr ?_
      rw [Exponent.mark]
      split <;> rfl
  obtain ⟨whole, places⟩ := split_mantissa n.integral n.fraction
  rw [Decimal.nearest, Number.written, sign]
  simp only [← List.append_assoc, takeWhile_append_of_stopsAt noMark mark, dropWhile_append_of_stopsAt noMark mark,
    whole, places, split_power]
  rfl

/-- An integer is converted as its literal, unless it has too many digits. -/
theorem converted_integer (negative : Bool) (integral : Digits) (leading) :
    Number.converted ⟨negative, integral, leading, none, none⟩ =
      if integral.val.length ≤ Decimal.digitLimit then
        .ok (.int (if negative then -(Decimal.toNat integral.val : Int) else Decimal.toNat integral.val))
      else .error (.tooLong ⟨some integral.val.length⟩) := by
  have written : Number.written ⟨negative, integral, leading, none, none⟩ =
      Number.writtenSign negative ++ integral.val := by
    simp [Number.written, Number.writtenFraction, Number.writtenExponent]
  rw [Number.converted, written, Transform.spelled, read_integer, Decimal.read]
  by_cases short : integral.val.length ≤ Decimal.digitLimit
  · simp only [if_pos short]
  · simp only [if_neg short]

/-- The value that the parser makes of the parts of a number is the one that their text has. -/
theorem partsToNumber_eq_converted (n : Number) : partsToNumber (.list (parts n)) = n.converted := by
  have nearest := nearest_written n
  obtain ⟨negative, integral, leading, fraction, exponent⟩ := n
  show toNumber (Number.writtenSign negative) integral.val (fractionPart fraction) (exponentPart exponent) = _
  cases fraction with
  | none =>
    cases exponent with
    | none => rw [fractionPart, exponentPart, toNumber_integer, converted_integer]
    | some e =>
      rw [toNumber_fractional negative integral.val none (some e) (.inr (Option.some_ne_none e)), Number.converted,
        nearest]
      rfl
  | some f =>
    rw [toNumber_fractional negative integral.val (some f) exponent (.inl (Option.some_ne_none f)), Number.converted,
      nearest]
    rfl

theorem converted_of_fits {n : Number} (fits : n.Fits) : ∃ v, n.converted = .ok v := by
  obtain ⟨negative, integral, leading, fraction, exponent⟩ := n
  cases fraction with
  | none =>
    cases exponent with
    | none => exact ⟨_, (converted_integer negative integral leading).trans (if_pos (fits rfl rfl))⟩
    | some e => exact ⟨_, rfl⟩
  | some f => exact ⟨_, rfl⟩

theorem converted_of_not_fits {n : Number} (long : ¬ n.Fits) :
    n.converted = .error (.tooLong ⟨some n.integral.val.length⟩) := by
  obtain ⟨negative, integral, leading, fraction, exponent⟩ := n
  cases fraction with
  | none =>
    cases exponent with
    | none =>
      refine (converted_integer negative integral leading).trans (if_neg fun short => long fun _ _ => short)
    | some e => exact absurd (fun _ none => nomatch none) long
  | some f => exact absurd (fun none => nomatch none) long

end NumberLemmas

/-! ## 2. Optional parts -/

/-- Behind a fraction there is no digit, and where none is read, none stands. -/
def EndsFraction : Option Digits → Text → Prop
  | none, rest => ∀ d : Digits, ¬ Number.writtenFraction (some d) <+: rest
  | some _, rest => StopsAt CodePoint.isDigit rest

/-- Behind an exponent there is no digit, and where none is read, none stands. -/
def EndsExponent : Option Exponent → Text → Prop
  | none, rest => ∀ e : Exponent, ¬ Number.writtenExponent (some e) <+: rest
  | some _, rest => StopsAt CodePoint.isDigit rest

/-- A number cannot be read on behind any of its parts. -/
structure Number.Munches (n : Number) (rest : Text) : Prop where
  integral : StopsAt CodePoint.isDigit (writtenFraction n.fraction ++ (writtenExponent n.exponent ++ rest))
  fraction : EndsFraction n.fraction (writtenExponent n.exponent ++ rest)
  exponent : EndsExponent n.exponent rest

namespace NumberLemmas

open TokenLemmas

variable (s : Source) (call : Rule → Text → Result)

/-- Digits stand in front of a text, or none does. -/
theorem digits_cases (t : Text) : StopsAt CodePoint.isDigit t ∨
    ∃ (d : Digits) (rest : Text), t = d.val ++ rest ∧ StopsAt CodePoint.isDigit rest := by
  have split_at := List.takeWhile_append_dropWhile (p := CodePoint.isDigit) (l := t)
  have stops := stopsAt_dropWhile CodePoint.isDigit t
  by_cases none : t.takeWhile CodePoint.isDigit = []
  · rw [none, List.nil_append] at split_at
    exact .inl (split_at ▸ stops)
  · have all : ∀ c ∈ t.takeWhile CodePoint.isDigit, c.isDigit = true :=
      fun c hc => List.all_eq_true.mp List.all_takeWhile c hc
    exact .inr ⟨⟨_, none, all⟩, _, split_at.symm, stops⟩

theorem not_stopsAt_digits (d : Digits) (rest : Text) : ¬ StopsAt CodePoint.isDigit (d.val ++ rest) := by
  obtain ⟨c, run, written, isDigit⟩ := exists_digit d
  rw [written, List.cons_append, stopsAt_cons, isDigit]
  exact nofun

theorem exists_fraction (t : Text) : ∃ f rest, t = Number.writtenFraction f ++ rest ∧
    fraction.eval s call t = (.success (fractionPart f), rest) ∧ EndsFraction f rest := by
  cases t with
  | nil => exact ⟨none, [], rfl, rfl, fun d stands => absurd (List.prefix_nil.mp stands) (List.cons_ne_nil _ _)⟩
  | cons c u =>
    by_cases point : c = 0x2E
    · subst point
      rcases digits_cases u with stops | ⟨d, rest, rfl, stops⟩
      · refine ⟨none, 0x2E :: u, rfl, ?_, ?_⟩
        · rw [fraction, eval_optional, eval_attempt, eval_right, eval_char_cons, if_pos rfl, Result.andThen_success,
            digits_fail stops]
          rfl
        · rintro d ⟨rest, stands⟩
          rw [Number.writtenFraction, List.cons_append, List.cons.injEq] at stands
          exact not_stopsAt_digits d rest (stands.2 ▸ stops)
      · refine ⟨some d, rest, rfl, ?_, stops⟩
        rw [fraction, eval_optional, eval_attempt, eval_right, eval_char_cons, if_pos rfl, Result.andThen_success,
          digits_reads d stops]
        rfl
    · refine ⟨none, c :: u, rfl, ?_, ?_⟩
      · rw [fraction, eval_optional, eval_attempt, eval_right, eval_char_cons, if_neg point]
        rfl
      · rintro d ⟨rest, stands⟩
        rw [Number.writtenFraction, List.cons_append, List.cons.injEq] at stands
        exact point stands.1.symm

/-- A sign in front of an exponent is read where there is one. -/
theorem exists_exponentSign (t : Text) : ∃ sign : Sign, t = sign.written ++ (IntegerLiteral.splitSign t).2 ∧
    ((anyChar (text "+-")).otherwise (.str [])).eval s call t =
      (.success (.str sign.written), (IntegerLiteral.splitSign t).2) := by
  have signs : text "+-" = [0x2B, 0x2D] := rfl
  rw [signs]
  cases t with
  | nil => exact ⟨.implicit, rfl, rfl⟩
  | cons c u =>
    by_cases plus : c = 0x2B
    · subst plus
      exact ⟨.plus, rfl, rfl⟩
    · by_cases minus : c = 0x2D
      · subst minus
        exact ⟨.minus, rfl, rfl⟩
      · have same : (IntegerLiteral.splitSign (c :: u)).2 = c :: u := by
          rw [IntegerLiteral.splitSign]
          · exact fun more eq => minus (List.cons.inj eq).1
          · exact fun more eq => plus (List.cons.inj eq).1
        refine ⟨.implicit, by rw [same]; rfl, ?_⟩
        rw [same, eval_otherwise, eval_anyChar_cons, if_neg (not_or.mpr ⟨plus, minus⟩)]
        rfl

theorem exists_exponent (t : Text) : ∃ e rest, t = Number.writtenExponent e ++ rest ∧
    exponent.eval s call t = (.success (exponentPart e), rest) ∧ EndsExponent e rest := by
  have letters : text "eE" = [0x65, 0x45] := rfl
  cases t with
  | nil => exact ⟨none, [], rfl, rfl, fun e stands => absurd (List.prefix_nil.mp stands) (List.cons_ne_nil _ _)⟩
  | cons c u =>
    by_cases mark : c = 0x65 ∨ c = 0x45
    · obtain ⟨sign, written, read⟩ := exists_exponentSign s call u
      rcases digits_cases (IntegerLiteral.splitSign u).2 with stops | ⟨d, rest, behind, stops⟩
      · refine ⟨none, c :: u, rfl, ?_, ?_⟩
        · rw [exponent, eval_optional, Parser.sequence, eval_attempt, eval_chain_cons, letters, eval_anyChar_cons,
            if_pos mark, Result.andThen_success, eval_chain_cons, read, Result.andThen_success, eval_chain_cons,
            digits_fail stops]
          rfl
        · rintro e ⟨rest, stands⟩
          rw [Number.writtenExponent, Exponent.written, List.cons_append, List.cons.injEq, List.append_assoc] at stands
          rw [← stands.2, splitSign_sign] at stops
          exact not_stopsAt_digits e.digits rest stops
      · obtain ⟨capital, same⟩ : ∃ capital : Bool, c = if capital then 0x45 else 0x65 := by
          rcases mark with rfl | rfl
          · exact ⟨false, rfl⟩
          · exact ⟨true, rfl⟩
        refine ⟨some ⟨capital, sign, d⟩, rest, ?_, ?_, stops⟩
        · rw [written, behind, same]
          simp [Number.writtenExponent, Exponent.written, Exponent.mark]
        · rw [exponent, eval_optional, Parser.sequence, eval_attempt, eval_chain_cons, letters, eval_anyChar_cons,
            if_pos mark, Result.andThen_success, eval_chain_cons, read, Result.andThen_success, eval_chain_cons,
            behind, digits_reads d stops, same]
          rfl
    · refine ⟨none, c :: u, rfl, ?_, ?_⟩
      · rw [exponent, eval_optional, Parser.sequence, eval_attempt, eval_chain_cons, letters, eval_anyChar_cons,
          if_neg mark]
        rfl
      · rintro e ⟨rest, stands⟩
        rw [Number.writtenExponent, Exponent.written, List.cons_append, List.cons.injEq] at stands
        refine mark ?_
        rw [← stands.1, Exponent.mark]
        split
        · exact .inr rfl
        · exact .inl rfl

/-! ### The parts that must be there -/

/-- What follows a minus sign, if there is one. -/
theorem exists_sign (t : Text) : ∃ negative, t = Number.writtenSign negative ++ unsigned t ∧
    ((char 0x2D).otherwise (.str [])).eval s call t = (.success (.str (Number.writtenSign negative)), unsigned t) := by
  cases t with
  | nil => exact ⟨false, rfl, rfl⟩
  | cons c u =>
    by_cases minus : c = 0x2D
    · subst minus
      exact ⟨true, rfl, rfl⟩
    · have same : unsigned (c :: u) = c :: u := by
        rw [unsigned]
        exact fun more eq => minus (List.cons.inj eq).1
      refine ⟨false, by rw [same]; rfl, ?_⟩
      rw [same, eval_otherwise, eval_char_cons, if_neg minus]
      rfl

theorem isIntegral_iff {t : Text} : isIntegral (.str t) = true ↔ t = [0x30] ∨ t.head? ≠ some 0x30 := by
  simp [isIntegral]

/-- Where a number starts, its parts are read as far as they go. -/
theorem parts_read {t : Text} (starts : StartsNumber t) : ∃ (n : Number) (rest : Text), t = n.written ++ rest ∧
    n.Munches rest ∧
    (Parser.sequence [(char 0x2D).otherwise (.str []), integral, fraction, exponent]).eval s call t =
      (.success (.list (parts n)), rest) := by
  obtain ⟨some_digits, leading⟩ := starts
  obtain ⟨negative, signed, sign⟩ := exists_sign s call t
  rcases digits_cases (unsigned t) with stops | ⟨d, behind, whole, stops⟩
  · exact absurd (takeWhile_of_stopsAt stops) some_digits
  · have run : (unsigned t).takeWhile CodePoint.isDigit = d.val := by
      rw [whole, takeWhile_append_of_stopsAt d.property.2 stops]
    rw [run] at leading
    obtain ⟨f, afterFraction, rfl, point, endsFraction⟩ := exists_fraction s call behind
    obtain ⟨e, rest, rfl, scale, endsExponent⟩ := exists_exponent s call afterFraction
    have read : integral.eval s call (unsigned t) =
        (.success (.str d.val), Number.writtenFraction f ++ (Number.writtenExponent e ++ rest)) := by
      rw [integral, eval_suchThat, whole, digits_reads d stops, Result.andThen_success,
        if_pos (isIntegral_iff.mpr leading)]
    refine ⟨⟨negative, d, leading, f, e⟩, rest, ?_, ⟨stops, endsFraction, endsExponent⟩, ?_⟩
    · rw [signed, whole]
      simp [Number.written]
    · rw [Parser.sequence, eval_attempt, eval_chain_cons, sign, Result.andThen_success, eval_chain_cons, read,
        Result.andThen_success, eval_chain_cons, point, Result.andThen_success, eval_chain_cons, scale]
      rfl

/-- Where no number starts, none is read and nothing is taken. -/
theorem eval_number_of_not_starts {t : Text} (other : ¬ StartsNumber t) :
    number.eval s call t = (.failure .plain, t) := by
  obtain ⟨negative, signed, sign⟩ := exists_sign s call t
  have failed : ∃ rest, integral.eval s call (unsigned t) = (.failure .plain, rest) := by
    rw [integral, eval_suchThat, eval_digits]
    by_cases none : (unsigned t).takeWhile CodePoint.isDigit = []
    · exact ⟨_, by rw [if_pos none]; rfl⟩
    · have refused : ¬ isIntegral (.str ((unsigned t).takeWhile CodePoint.isDigit)) = true := fun accepted =>
        other ⟨none, isIntegral_iff.mp accepted⟩
      exact ⟨_, by rw [if_neg none, Result.andThen_success, if_neg refused]⟩
  obtain ⟨rest, failed⟩ := failed
  rw [number, mapM, eval_bind, Parser.sequence, eval_attempt, eval_chain_cons, sign, Result.andThen_success,
    eval_chain_cons, failed]
  rfl

/-- Where a number starts, its text is taken and converted. -/
theorem eval_number_of_starts {t : Text} (starts : StartsNumber t) :
    ∃ (n : Number) (rest : Text), t = n.written ++ rest ∧ n.Munches rest ∧
      number.eval s call t = (match n.converted with
        | .ok v => .success v
        | .error e => .fault e, rest) := by
  obtain ⟨n, rest, written, munches, read⟩ := parts_read s call starts
  refine ⟨n, rest, written, munches, ?_⟩
  rw [number, mapM, eval_bind, read, Result.andThen_success]
  rw [← partsToNumber_eq_converted]
  cases value : partsToNumber (.list (parts n)) with
  | ok v => exact congrArg (·, rest) (outcome_of_partsToNumber value)
  | error e => rfl

end NumberLemmas

/-! ## 3. The longest number -/

namespace NumberLemmas

open TokenLemmas

/-- Two texts that go on behind their digits with something else agree on the digits, or the first ends with them. -/
theorem digits_prefix {d a run u : Text} (digits : ∀ c ∈ d, c.isDigit = true) (stops : StopsAt CodePoint.isDigit a)
    (digits' : ∀ c ∈ run, c.isDigit = true) (stops' : StopsAt CodePoint.isDigit u) (stands : d ++ a <+: run ++ u) :
    (a = [] ∧ d.length ≤ run.length) ∨ (d = run ∧ a <+: u) := by
  induction d generalizing run with
  | nil =>
    cases run with
    | nil => exact .inr ⟨rfl, stands⟩
    | cons r run =>
      cases a with
      | nil => exact .inl ⟨rfl, Nat.zero_le _⟩
      | cons x a =>
        obtain rfl := (List.cons_prefix_cons.mp stands).1
        exact absurd (stopsAt_cons.mp stops) (by rw [digits' x (List.mem_cons_self ..)]; exact nofun)
  | cons x d ih =>
    obtain ⟨isDigit, digits⟩ := List.forall_mem_cons.mp digits
    cases run with
    | nil =>
      obtain ⟨more, rfl⟩ := stands
      exact absurd (stopsAt_cons.mp stops') (by rw [isDigit]; exact nofun)
    | cons r run =>
      obtain ⟨same, stands⟩ := List.cons_prefix_cons.mp stands
      rcases ih digits (List.forall_mem_cons.mp digits').2 stands with ⟨ended, short⟩ | ⟨whole, behind⟩
      · exact .inl ⟨ended, Nat.succ_le_succ short⟩
      · exact .inr ⟨by rw [same, whole], behind⟩

/-- Digits in front of which signs stand agree on the signs. -/
theorem sign_prefix {x y : Sign} {d e : Digits} {a u : Text}
    (stands : x.written ++ (d.val ++ a) <+: y.written ++ (e.val ++ u)) : x = y ∧ d.val ++ a <+: e.val ++ u := by
  obtain ⟨c, run, written, isDigit⟩ := exists_digit d
  obtain ⟨c', run', written', isDigit'⟩ := exists_digit e
  rw [written, written'] at stands ⊢
  cases x <;> cases y
  case implicit.implicit => exact ⟨rfl, stands⟩
  case plus.plus => exact ⟨rfl, (List.cons_prefix_cons.mp stands).2⟩
  case minus.minus => exact ⟨rfl, (List.cons_prefix_cons.mp stands).2⟩
  case implicit.plus => exact absurd (List.cons_prefix_cons.mp stands).1 (ne_of_isDigit isDigit rfl)
  case implicit.minus => exact absurd (List.cons_prefix_cons.mp stands).1 (ne_of_isDigit isDigit rfl)
  case plus.implicit => exact absurd (List.cons_prefix_cons.mp stands).1.symm (ne_of_isDigit isDigit' rfl)
  case minus.implicit => exact absurd (List.cons_prefix_cons.mp stands).1.symm (ne_of_isDigit isDigit' rfl)
  case plus.minus => exact absurd (List.cons_prefix_cons.mp stands).1 (by decide)
  case minus.plus => exact absurd (List.cons_prefix_cons.mp stands).1 (by decide)

theorem writtenSign_eq (negative : Bool) :
    Number.writtenSign negative = (if negative then Sign.minus else .implicit).written := by
  cases negative <;> rfl

theorem exponent_le {e e' : Option Exponent} {rest : Text} (ends : EndsExponent e rest)
    (stands : Number.writtenExponent e' <+: Number.writtenExponent e ++ rest) :
    (Number.writtenExponent e').length ≤ (Number.writtenExponent e).length := by
  cases e' with
  | none => exact Nat.zero_le _
  | some x =>
    cases e with
    | none => exact absurd stands (ends x)
    | some y =>
      rw [Number.writtenExponent, Number.writtenExponent, Exponent.written, Exponent.written, List.cons_append,
        List.append_assoc, List.cons_prefix_cons, ← List.append_nil x.digits.val] at stands
      obtain ⟨same, digits⟩ := sign_prefix stands.2
      rw [Number.writtenExponent, Number.writtenExponent, Exponent.written, Exponent.written, same]
      rcases digits_prefix x.digits.property.2 (stopsAt_nil _) y.digits.property.2 ends digits with ⟨-, le⟩ | ⟨eq, -⟩
      · simp only [List.length_cons, List.length_append]
        omega
      · simp only [eq, List.length_cons, Nat.le_refl]

theorem stopsAt_writtenExponent (e : Option Exponent) : StopsAt CodePoint.isDigit (Number.writtenExponent e) := by
  have ends := @head_writtenExponent e [] nofun
  rw [List.append_nil] at ends
  exact fun c hc => (ends c hc).1

theorem fraction_le {f f' : Option Digits} {e e' : Option Exponent} {rest : Text}
    (ends : EndsFraction f (Number.writtenExponent e ++ rest)) (ends' : EndsExponent e rest)
    (stands : Number.writtenFraction f' ++ Number.writtenExponent e' <+:
      Number.writtenFraction f ++ (Number.writtenExponent e ++ rest)) :
    (Number.writtenFraction f' ++ Number.writtenExponent e').length ≤
      (Number.writtenFraction f ++ Number.writtenExponent e).length := by
  cases f' with
  | none =>
    cases f with
    | none => exact exponent_le ends' stands
    | some d =>
      cases e' with
      | none => exact Nat.zero_le _
      | some x =>
        have point : x.mark = 0x2E := (List.cons_prefix_cons.mp stands).1
        rw [Exponent.mark] at point
        split at point <;> cases point
  | some d' =>
    cases f with
    | none => exact absurd ((List.prefix_append _ _).trans stands) (ends d')
    | some d =>
      have behind := (List.cons_prefix_cons.mp stands).2
      simp only [Number.writtenFraction, List.cons_append, List.length_cons, List.length_append]
      rcases digits_prefix d'.property.2 (stopsAt_writtenExponent e') d.property.2 ends behind with
        ⟨none, le⟩ | ⟨eq, behind⟩
      · rw [none, List.length_nil]
        omega
      · have le := exponent_le ends' behind
        rw [eq]
        omega

end NumberLemmas

open NumberLemmas TokenLemmas

/-- A number that cannot be read on behind any of its parts is the longest one that stands there. -/
theorem length_written_le {n m : Number} {rest : Text} (munches : n.Munches rest)
    (stands : m.written <+: n.written ++ rest) : m.written.length ≤ n.written.length := by
  have stops := head_writtenFraction m.fraction (stopsAt_writtenExponent m.exponent)
  rw [Number.written, Number.written, writtenSign_eq, writtenSign_eq, List.append_assoc, List.append_assoc,
    List.append_assoc] at stands
  obtain ⟨same, behind⟩ := sign_prefix stands
  rw [Number.written, Number.written, writtenSign_eq, writtenSign_eq, same]
  rcases digits_prefix m.integral.property.2 stops n.integral.property.2 munches.integral behind with
    ⟨none, le⟩ | ⟨whole, behind⟩
  · simp only [none, List.length_append, List.length_nil]
    omega
  · have le := fraction_le munches.fraction munches.exponent behind
    simp only [whole, List.length_append] at le ⊢
    omega

/-! ## 4. The parser -/

/-- No beginning of the text that is a number is longer than this one. -/
structure Number.LongestIn (n : Number) (t : Text) : Prop where
  stands : n.written <+: t
  longest : ∀ m : Number, m.written <+: t → m.written.length ≤ n.written.length

theorem Number.Munches.longestIn {n : Number} {rest : Text} (munches : n.Munches rest) :
    n.LongestIn (n.written ++ rest) :=
  ⟨List.prefix_append .., fun _ stands => length_written_le munches stands⟩

/-- Behind the end of the source, no number is read and the cursor stays. -/
theorem parse_number_beyond {g : Grammar Rule} {s : Source} {c : Cursor Rule} (beyond : s.get? c.index = none) :
    g.parse s number c = (.failure .plain, c) := by
  simp [Grammar.parse, number, Parser.mapM, Parser.sequence, Parser.chain, Parser.otherwise, Parser.char, integral,
    digits, Parser.many1, Parser.digit, Parser.map, Parser.empty, Parser.step, Parser.repeatWhile, beyond,
    Value.outcome, Cursor.moveTo]

/-- The parser of numbers reads the longest number that stands at the cursor, from every offset of every source.

* It reads one exactly where one starts: behind a minus sign, if there is one, come digits, and the whole run of them is
  zero alone or does not start with zero.
* The slice that it reads is the longest number that the unread text begins with. What only looks like the start of a
  fraction or an exponent is left.
* The value is made of that slice: the integer that the literal spells if there is neither fraction nor exponent, else
  the nearest binary64 number. An integer of too many digits is a fault.
* Where no number starts, the parser fails and the cursor stays. -/
theorem parse_number_exact (g : Grammar Rule) (s : Source) (c : Cursor Rule) :
    (StartsNumber (s.remaining c.index) → ∃ n : Number, n.LongestIn (s.remaining c.index) ∧
      (g.parse s number c).2.index = c.index + n.written.length ∧
      s.slice c.index (g.parse s number c).2.index = n.written ∧
      (n.Fits → ∃ v, n.converted = .ok v ∧ (g.parse s number c).1 = .success v) ∧
      (¬ n.Fits → (g.parse s number c).1 = .fault (.tooLong ⟨some n.integral.val.length⟩))) ∧
    (¬ StartsNumber (s.remaining c.index) →
      (g.parse s number c).1 = .failure .plain ∧ (g.parse s number c).2.index = c.index) := by
  by_cases inside : c.index ≤ s.size
  · refine ⟨fun starts => ?_, fun other => ?_⟩
    · obtain ⟨n, rest, unread, munches, evaluated⟩ :=
        eval_number_of_starts s (g.evalRule s c.guard.room) starts
      obtain ⟨outcome, stop⟩ := parse_of_eval inside unread evaluated
      have longest : n.LongestIn (s.remaining c.index) := unread ▸ munches.longestIn
      refine ⟨n, longest, stop, by rw [stop, Source.slice_of_prefix longest.stands], fun fits => ?_, fun long => ?_⟩
      · obtain ⟨v, value⟩ := converted_of_fits fits
        exact ⟨v, value, by rw [outcome, value]⟩
      · rw [outcome, converted_of_not_fits long]
    · exact parse_of_eval inside (List.nil_append _).symm (eval_number_of_not_starts s _ other)
  · have beyond : s.get? c.index = none := Array.getElem?_eq_none_iff.mpr (Nat.le_of_not_le inside)
    refine ⟨fun starts => ?_, fun _ => ?_⟩
    · rw [Source.remaining_eq_nil beyond] at starts
      exact absurd rfl starts.1
    · rw [parse_number_beyond beyond]
      exact ⟨rfl, rfl⟩

namespace Sample

/-- A number with the start of an exponent behind it and digits after a zero. -/
def measured : Source := .ofText (text "-12.5e+x01")

end Sample

/-- The mark and the sign of the exponent are left. In front of `01` no number is read, not even the zero. -/
theorem measured_read :
    StartsNumber (Sample.measured.remaining 0) ∧ ¬ StartsNumber (Sample.measured.remaining 8) ∧
    (grammar.parse Sample.measured number ⟨0, .ofRequest 1, []⟩).2.index = 5 ∧
    (∃ (n : Number) (v : Value), n.LongestIn (Sample.measured.remaining 0) ∧ n.written = text "-12.5" ∧
      n.converted = .ok v ∧ (grammar.parse Sample.measured number ⟨0, .ofRequest 1, []⟩).1 = .success v) ∧
    (grammar.parse Sample.measured number ⟨8, .ofRequest 1, []⟩).1 = .failure .plain ∧
    (grammar.parse Sample.measured number ⟨8, .ofRequest 1, []⟩).2.index = 8 := by
  have starts : StartsNumber (Sample.measured.remaining 0) := by decide +kernel
  have other : ¬ StartsNumber (Sample.measured.remaining 8) := by decide +kernel
  have stop : (grammar.parse Sample.measured number ⟨0, .ofRequest 1, []⟩).2.index = 5 := by decide +kernel
  obtain ⟨n, longest, -, slice, value, -⟩ := (parse_number_exact grammar Sample.measured ⟨0, .ofRequest 1, []⟩).1 starts
  rw [stop] at slice
  have written : n.written = text "-12.5" := slice.symm.trans (by decide +kernel)
  have fits : n.Fits := fun _ _ => by
    have short : n.written.length = 5 := congrArg List.length written
    rw [Number.written, List.length_append, List.length_append] at short
    exact Nat.le_trans (by omega) (by decide : 5 ≤ Decimal.digitLimit)
  obtain ⟨v, converted, read⟩ := value fits
  obtain ⟨failed, stays⟩ := (parse_number_exact grammar Sample.measured ⟨8, .ofRequest 1, []⟩).2 other
  exact ⟨starts, other, stop, ⟨n, v, longest, written, converted, read⟩, failed, stays⟩

end Json
end Descent
