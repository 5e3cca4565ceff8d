import Descent.Validation.Validator
import Mathlib.Algebra.Field.Rat
import Mathlib.Tactic.NormNum

/-!
# Equality with a literal

A literal accepts the values that are equal to it, and truth values are to be equal to no numbers. Equality itself takes
truth values for one and zero, so the literal looks at the outside of both values as well. Inside lists, tuples and
dictionaries nothing is looked at, and there a truth value still passes for a number.

Results:
1. `Numeral.eq_iff_same`: comparing numerals compares their exact values.
2. `Value.eq_iff_numbered`: two values compare equal if they are equal once truth values are read as numbers.
3. `Validator.literal_exact`: which values a literal accepts, and when these are the ones that are equal to it.
-/

namespace Descent

/-! ## 1. Numbers -/

namespace Numeral

/-- The exact value of a finite numeral. -/
def rational? : Numeral → Option ℚ
  | .int n => some n
  | .float (.finite negative exponent fraction) =>
    some ((if negative then -1 else 1) * Binary64.significand exponent fraction * 2 ^ Binary64.power exponent)
  | .float _ => none

/-- Two finite numerals of one exact value, or an infinity with itself. -/
inductive Same : Numeral → Numeral → Prop
  | finite {a b : Numeral} {q : ℚ} : a.rational? = some q → b.rational? = some q → Same a b
  | infinite (negative : Bool) : Same (.float (.infinity negative)) (.float (.infinity negative))

/-- The quotient of a finite number is its exact value. -/
theorem toQuotient?_finite (negative : Bool) (exponent : Fin 2047) (fraction : Fin (2 ^ 52)) :
    ∃ num den, (Binary64.finite negative exponent fraction).toQuotient? = some (num, den) ∧ den ≠ 0 ∧
      rational? (.float (.finite negative exponent fraction)) = some ((num : ℚ) / den) := by
  simp only [Binary64.toQuotient?, rational?]
  generalize Binary64.significand exponent fraction = m
  generalize Binary64.power exponent = e
  have signed : (((if negative then -(m : Int) else m : Int)) : ℚ) = (if negative then -1 else 1) * m := by
    cases negative <;> simp
  by_cases whole : e ≥ 0
  · obtain ⟨k, rfl⟩ := Int.eq_ofNat_of_zero_le whole
    refine ⟨_, _, by rw [if_pos whole], one_ne_zero, ?_⟩
    push_cast [signed]
    simp [zpow_natCast]
  · obtain ⟨k, rfl⟩ : ∃ k : Nat, e = -k := ⟨(-e).toNat, by omega⟩
    refine ⟨_, _, by rw [if_neg whole], by positivity, ?_⟩
    push_cast [signed]
    simp [zpow_neg, div_eq_mul_inv]

/-- A finite numeral has rank zero, and a quotient for its exact value. -/
theorem place?_of_rational? {a : Numeral} {q : ℚ} (value : a.rational? = some q) :
    ∃ num den, a.place? = some (0, num, den) ∧ den ≠ 0 ∧ q = (num : ℚ) / den := by
  cases a with
  | int n => exact ⟨n, 1, rfl, one_ne_zero, by simpa [rational?] using value.symm⟩
  | float x =>
    cases x with
    | nan => cases value
    | infinity negative => cases value
    | finite negative exponent fraction =>
      obtain ⟨num, den, quotient, positive, value'⟩ := toQuotient?_finite negative exponent fraction
      exact ⟨num, den, by rw [place?, quotient] <;> first | rfl | nofun, positive, by simpa [value'] using value.symm⟩

/-- A numeral other than NaN is finite or an infinity. -/
theorem finite_or_infinite {a : Numeral} {place : Int × Int × Nat} (placed : a.place? = some place) :
    (∃ q, a.rational? = some q) ∨ ∃ negative, a = .float (.infinity negative) := by
  cases a with
  | int n => exact .inl ⟨_, rfl⟩
  | float x =>
    cases x with
    | nan => cases placed
    | infinity negative => exact .inr ⟨negative, rfl⟩
    | finite negative exponent fraction => exact .inl ⟨_, rfl⟩

/-- Two numerals compare equal if they have one rank and equal quotients. -/
theorem eq_iff_place (a b : Numeral) : a.eq b = true ↔ ∃ rank num den num' den',
    a.place? = some (rank, num, den) ∧ b.place? = some (rank, num', den') ∧ num * den' = num' * den := by
  rw [eq, compare?, beq_iff_eq]
  cases a.place? with
  | none => simp
  | some place =>
    cases b.place? with
    | none => simp
    | some place' =>
      obtain ⟨rank, num, den⟩ := place
      obtain ⟨rank', num', den'⟩ := place'
      simp only [Option.some.injEq, Ordering.then_eq_eq, compare_eq_iff_eq, Prod.mk.injEq]
      constructor
      · rintro ⟨rfl, cross⟩
        exact ⟨_, _, _, _, _, ⟨rfl, rfl, rfl⟩, ⟨rfl, rfl, rfl⟩, cross⟩
      · rintro ⟨_, _, _, _, _, ⟨rfl, rfl, rfl⟩, ⟨rfl, rfl, rfl⟩, cross⟩
        exact ⟨rfl, cross⟩

/-- Two numerals compare equal exactly if they have the same exact value. -/
theorem eq_iff_same (a b : Numeral) : a.eq b = true ↔ a.Same b := by
  -- Quotients are equal if they are so across.
  have across {num num' : Int} {den den' : Nat} (positive : den ≠ 0) (positive' : den' ≠ 0) :
      (num : ℚ) / den = num' / den' ↔ num * den' = num' * den := by
    rw [div_eq_div_iff (by exact_mod_cast positive) (by exact_mod_cast positive')]
    exact_mod_cast Iff.rfl
  rw [eq_iff_place]
  constructor
  · rintro ⟨rank, num, den, num', den', place, place', cross⟩
    obtain ⟨q, value⟩ | ⟨negative, rfl⟩ := finite_or_infinite place <;>
      obtain ⟨q', value'⟩ | ⟨negative', rfl⟩ := finite_or_infinite place'
    · obtain ⟨_, _, found, positive, rfl⟩ := place?_of_rational? value
      obtain ⟨_, _, found', positive', rfl⟩ := place?_of_rational? value'
      cases place.symm.trans found
      cases place'.symm.trans found'
      exact .finite value (value'.trans (by rw [(across positive positive').mpr cross]))
    · obtain ⟨_, _, found, -, -⟩ := place?_of_rational? value
      cases place.symm.trans found
      cases negative' <;> cases place'
    · obtain ⟨_, _, found', -, -⟩ := place?_of_rational? value'
      cases place'.symm.trans found'
      cases negative <;> cases place
    · cases negative <;> cases negative' <;> cases place <;> cases place' <;> exact .infinite _
  · rintro (⟨value, value'⟩ | negative)
    · obtain ⟨num, den, place, positive, rfl⟩ := place?_of_rational? value
      obtain ⟨num', den', place', positive', same⟩ := place?_of_rational? value'
      exact ⟨0, num, den, num', den', place, place', (across positive positive').mp same⟩
    · exact ⟨_, _, _, _, _, rfl, rfl, rfl⟩

end Numeral

/-! ## 2. Values -/

namespace Value

/-- The number that a value is. Truth values are no numbers. -/
def number? : Value → Option Numeral
  | .int n => some (.int n)
  | .float x => some (.float x)
  | _ => Option.none

/-- Equality that keeps truth values apart from numbers, at every depth. Numbers are equal if they have the same exact
value, lists and tuples item by item. Dictionaries are equal if they have the same size and each entry of one has a twin
in the other; as no two keys of a dictionary are equal, no two of its entries share a twin. -/
inductive Equals : Value → Value → Prop
  | none : Equals .none .none
  | bool (b : Bool) : Equals (.bool b) (.bool b)
  | str (t : Text) : Equals (.str t) (.str t)
  | number {x y : Value} {a b : Numeral} : x.number? = some a → y.number? = some b → a.Same b → Equals x y
  | list {as bs : List Value} : as.length = bs.length →
      (∀ i (_ : i < as.length) (_ : i < bs.length), Equals as[i] bs[i]) → Equals (.list as) (.list bs)
  | tuple {as bs : List Value} : as.length = bs.length →
      (∀ i (_ : i < as.length) (_ : i < bs.length), Equals as[i] bs[i]) → Equals (.tuple as) (.tuple bs)
  | dict {as bs : List (Value × Value)} (twin : Value × Value → Value × Value) : as.length = bs.length →
      (∀ entry ∈ as, twin entry ∈ bs) → (∀ entry ∈ as, Equals entry.1 (twin entry).1) →
      (∀ entry ∈ as, Equals entry.2 (twin entry).2) → Equals (.dict as) (.dict bs)

/-- Values made of nothing, truth values, numbers other than NaN, texts, lists, tuples and dictionaries. -/
inductive Plain : Value → Prop
  | none : Plain .none
  | bool (b : Bool) : Plain (.bool b)
  | int (n : Int) : Plain (.int n)
  | float {x : Binary64} : x ≠ .nan → Plain (.float x)
  | str (t : Text) : Plain (.str t)
  | list {items : List Value} : (∀ item ∈ items, Plain item) → Plain (.list items)
  | tuple {items : List Value} : (∀ item ∈ items, Plain item) → Plain (.tuple items)
  | dict {entries : List (Value × Value)} :
      (∀ entry ∈ entries, Plain entry.1) → (∀ entry ∈ entries, Plain entry.2) → Plain (.dict entries)

mutual
/-- The value with one and zero for the truth values in it. -/
def numbered : Value → Value
  | .bool b => .int (if b then 1 else 0)
  | .list items => .list (numberedAll items)
  | .tuple items => .tuple (numberedAll items)
  | .dict entries => .dict (numberedEntries entries)
  | v => v

def numberedAll : List Value → List Value
  | [] => []
  | item :: rest => numbered item :: numberedAll rest

def numberedEntries : List (Value × Value) → List (Value × Value)
  | [] => []
  | (key, value) :: rest => (numbered key, numbered value) :: numberedEntries rest
end

/-- Comparing with the value is equality once truth values are read as numbers. -/
def Agrees (x : Value) : Prop := ∀ y, y.Plain → (x.eq y = true ↔ x.numbered.Equals y.numbered)

namespace EqualityLemmas

theorem numberedAll_eq (items : List Value) : numberedAll items = items.map numbered := by
  induction items with
  | nil => rfl
  | cons item rest ih => rw [numberedAll, ih, List.map_cons]

theorem numberedEntries_eq (entries : List (Value × Value)) :
    numberedEntries entries = entries.map (Prod.map numbered numbered) := by
  induction entries with
  | nil => rfl
  | cons entry rest ih => rw [numberedEntries, ih, List.map_cons]; rfl

theorem eqAll_iff {as bs : List Value} : eqAll as bs = true ↔
    as.length = bs.length ∧ ∀ i (_ : i < as.length) (_ : i < bs.length), as[i].eq bs[i] = true := by
  induction as generalizing bs with
  | nil => cases bs <;> simp [eqAll]
  | cons a as ih =>
    cases bs with
    | nil => simp [eqAll]
    | cons b bs =>
      rw [eqAll, Bool.and_eq_true, ih]
      constructor
      · rintro ⟨first, long, others⟩
        refine ⟨by rw [List.length_cons, List.length_cons, long], fun i below below' => ?_⟩
        cases i with
        | zero => exact first
        | succ i => exact others i (Nat.lt_of_succ_lt_succ below) (Nat.lt_of_succ_lt_succ below')
      · rintro ⟨long, each⟩
        exact ⟨each 0 (Nat.succ_pos _) (Nat.succ_pos _), Nat.succ.inj long, fun i below below' =>
          each (i + 1) (Nat.succ_lt_succ below) (Nat.succ_lt_succ below')⟩

theorem eqEntries_iff {as bs : List (Value × Value)} : eqEntries as bs = true ↔
    ∀ a ∈ as, ∃ b ∈ bs, a.1.eq b.1 = true ∧ a.2.eq b.2 = true := by
  induction as with
  | nil => simp [eqEntries]
  | cons a as ih => simp [eqEntries, ih]

/-- Values of one kind only are equal. -/
theorem equals_list {as bs : List Value} : (list as).Equals (.list bs) ↔
    as.length = bs.length ∧ ∀ i (_ : i < as.length) (_ : i < bs.length), as[i].Equals bs[i] :=
  ⟨fun | .list long each => ⟨long, each⟩, fun ⟨long, each⟩ => .list long each⟩

theorem equals_tuple {as bs : List Value} : (tuple as).Equals (.tuple bs) ↔
    as.length = bs.length ∧ ∀ i (_ : i < as.length) (_ : i < bs.length), as[i].Equals bs[i] :=
  ⟨fun | .tuple long each => ⟨long, each⟩, fun ⟨long, each⟩ => .tuple long each⟩

theorem equals_dict {as bs : List (Value × Value)} : (dict as).Equals (.dict bs) ↔
    as.length = bs.length ∧ ∀ a ∈ as, ∃ b ∈ bs, a.1.Equals b.1 ∧ a.2.Equals b.2 := by
  constructor
  · intro same
    cases same with
    | number numeral _ _ => cases numeral
    | dict twin long inside keys values =>
      exact ⟨long, fun a member => ⟨twin a, inside a member, keys a member, values a member⟩⟩
  · rintro ⟨long, twins⟩
    have : Nonempty (Value × Value) := ⟨.none, .none⟩
    choose! twin inside keys values using twins
    exact .dict twin long inside keys values

theorem equals_of_number {x y : Value} {a : Numeral} (number : x.number? = some a) :
    x.Equals y ↔ ∃ b, y.number? = some b ∧ a.Same b := by
  constructor
  · rintro (_ | _ | _ | ⟨found, other, same⟩ | _ | _ | _) <;> try cases number
    cases number.symm.trans found
    exact ⟨_, other, same⟩
  · rintro ⟨b, other, same⟩
    exact .number number other same

variable {as bs : List Value} {es fs : List (Value × Value)} {x y : Value}

theorem numbered_number? (x : Value) : x.numbered.number? = x.numeral? := by
  cases x <;> rfl

theorem numeral?_of_number? {a : Numeral} (numeral : x.number? = some a) : x.numeral? = some a := by
  cases x <;> first | exact numeral | cases numeral

theorem isBool_of_number? {a : Numeral} (numeral : x.number? = some a) : x.isBool = false := by
  cases x <;> first | rfl | cases numeral

/-- For a number, comparing is comparing numerals, and truth values are numbers as well. -/
theorem eq_of_numeral {a : Numeral} (numeral : x.numeral? = some a) :
    x.eq y = true ↔ ∃ b, y.numeral? = some b ∧ a.eq b = true := by
  have step : x.eq y = eqNumeral a y := by
    cases x with
    | bool b => cases numeral; rw [eq]
    | int n => cases numeral; rw [eq]
    | float z => cases numeral; rw [eq]
    | _ => cases numeral
  rw [step, eqNumeral]
  cases y.numeral? <;> simp

theorem agrees_of_numeral {a : Numeral} (numeral : x.numeral? = some a) : x.Agrees := by
  intro y _
  rw [eq_of_numeral numeral, equals_of_number ((numbered_number? x).trans numeral), numbered_number?]
  simp only [Numeral.eq_iff_same]

/-- Where the items agree, so do lists of them. -/
theorem eqAll_iff_numbered (agree : ∀ a ∈ as, a.Agrees) (plain : ∀ b ∈ bs, b.Plain) : eqAll as bs = true ↔
    (numberedAll as).length = (numberedAll bs).length ∧
    ∀ i (_ : i < (numberedAll as).length) (_ : i < (numberedAll bs).length),
      (numberedAll as)[i].Equals (numberedAll bs)[i] := by
  simp only [eqAll_iff, numberedAll_eq, List.length_map, List.getElem_map]
  refine and_congr_right fun _ => forall₃_congr fun i below below' => ?_
  exact agree _ (List.getElem_mem below) _ (plain _ (List.getElem_mem below'))

/-- Where keys and values agree, so do dictionaries of them. -/
theorem eqEntries_iff_numbered (agreeKeys : ∀ e ∈ es, e.1.Agrees) (agreeValues : ∀ e ∈ es, e.2.Agrees)
    (plainKeys : ∀ f ∈ fs, f.1.Plain) (plainValues : ∀ f ∈ fs, f.2.Plain) :
    (es.length == fs.length && eqEntries es fs) = true ↔ (numberedEntries es).length = (numberedEntries fs).length ∧
      ∀ e ∈ numberedEntries es, ∃ f ∈ numberedEntries fs, e.1.Equals f.1 ∧ e.2.Equals f.2 := by
  rw [Bool.and_eq_true, beq_iff_eq, eqEntries_iff, numberedEntries_eq, numberedEntries_eq, List.forall_mem_map]
  simp only [List.length_map, List.mem_map, exists_exists_and_eq_and, Prod.map_fst, Prod.map_snd]
  refine and_congr_right fun _ => forall₂_congr fun e member => exists_congr fun f => and_congr_right fun member' => ?_
  rw [agreeKeys e member f.1 (plainKeys f member'), agreeValues e member f.2 (plainValues f member')]

end EqualityLemmas

open EqualityLemmas

/-- Plain values compare equal exactly if they are equal once their truth values are read as numbers. -/
theorem eq_iff_numbered {x : Value} (plain : x.Plain) {y : Value} (plain' : y.Plain) :
    x.eq y = true ↔ x.numbered.Equals y.numbered := by
  suffices agree : x.Agrees from agree y plain'
  clear plain'
  induction plain with
  | none =>
    intro y plain'
    cases plain' with
    | none => exact iff_of_true rfl .none
    | _ => exact iff_of_false (by simp [eq]) nofun
  | bool b => exact agrees_of_numeral rfl
  | int n => exact agrees_of_numeral rfl
  | float => exact agrees_of_numeral rfl
  | str t =>
    intro y plain'
    cases plain' with
    | str t' =>
      rw [eq, beq_iff_eq]
      exact ⟨fun | rfl => .str t, fun | .str _ => rfl⟩
    | _ => exact iff_of_false (by simp [eq]) nofun
  | list _ ih =>
    intro y plain'
    cases plain' with
    | list each => rw [eq, numbered, numbered, equals_list, eqAll_iff_numbered ih each]
    | _ => exact iff_of_false (by simp [eq]) nofun
  | tuple _ ih =>
    intro y plain'
    cases plain' with
    | tuple each => rw [eq, numbered, numbered, equals_tuple, eqAll_iff_numbered ih each]
    | _ => exact iff_of_false (by simp [eq]) nofun
  | dict _ _ ihKeys ihValues =>
    intro y plain'
    cases plain' with
    | dict keys values =>
      rw [eq, numbered, numbered, equals_dict, eqEntries_iff_numbered ihKeys ihValues keys values]
    | _ => exact iff_of_false (by simp [eq]) nofun

/-- Equal values compare equal. -/
theorem Equals.eq {x y : Value} (same : x.Equals y) : x.eq y = true := by
  induction same with
  | none => rfl
  | bool b => cases b <;> rfl
  | str t => rw [Value.eq, beq_self_eq_true]
  | number numeral numeral' same =>
    exact (eq_of_numeral (numeral?_of_number? numeral)).mpr
      ⟨_, numeral?_of_number? numeral', (Numeral.eq_iff_same ..).mpr same⟩
  | list long _ ih => rw [Value.eq, eqAll_iff]; exact ⟨long, ih⟩
  | tuple long _ ih => rw [Value.eq, eqAll_iff]; exact ⟨long, ih⟩
  | dict twin long inside _ _ ihKeys ihValues =>
    rw [Value.eq, Bool.and_eq_true, beq_iff_eq, eqEntries_iff]
    exact ⟨long, fun entry member => ⟨twin entry, inside entry member, ihKeys entry member, ihValues entry member⟩⟩

/-- Of two equal values both are truth values, or neither is. -/
theorem Equals.isBool {x y : Value} (same : x.Equals y) : x.isBool = y.isBool := by
  cases same with
  | number numeral numeral' _ => rw [isBool_of_number? numeral, isBool_of_number? numeral']
  | _ => rfl

/-- Truth values are nowhere in the value, unless it is one itself. -/
def TruthOutside (x : Value) : Prop := x.isBool = true ∨ x.numbered = x

theorem isBool_iff {x : Value} : x.isBool = true ↔ ∃ b, x = .bool b := by
  cases x <;> simp [Value.isBool]

/-- Where truth values are on the outside only, they can be told from numbers there. -/
theorem equals_iff_of_truthOutside {x y : Value} (plain : x.Plain) (plain' : y.Plain) (outside : x.TruthOutside)
    (outside' : y.TruthOutside) : x.Equals y ↔ x.eq y = true ∧ x.isBool = y.isBool := by
  refine ⟨fun same => ⟨same.eq, same.isBool⟩, fun ⟨same, alike⟩ => ?_⟩
  by_cases truth : x.isBool = true
  · obtain ⟨a, rfl⟩ := isBool_iff.mp truth
    obtain ⟨b, rfl⟩ := isBool_iff.mp (alike ▸ truth)
    have : a = b := by
      revert same
      cases a <;> cases b <;> decide
    rw [this]
    exact .bool b
  · have whole := outside.resolve_left truth
    have whole' := outside'.resolve_left (alike ▸ truth)
    have numbered := (eq_iff_numbered plain plain').mp same
    rwa [whole, whole'] at numbered

end Value

namespace Validator

/-! ## 3. Literals -/

open Value Value.EqualityLemmas

/-- A literal accepts what compares equal to its value if both or neither are truth values. It answers with its own. -/
theorem literal_accepts_iff {expected x w : Value} : (literal expected).check x = .ok (.accepted w) ↔
    w = expected ∧ x.eq expected = true ∧ x.isBool = expected.isBool := by
  rw [check]
  split
  · next same =>
    rw [Bool.and_eq_true, beq_iff_eq] at same
    simp [same, eq_comm]
  · next different =>
    rw [Bool.and_eq_true, beq_iff_eq] at different
    refine iff_of_false ?_ fun accepted => different accepted.2
    cases Diagnostic.notEqual expected x <;> exact nofun

/-- What a literal accepts among plain values.

* The result is the value of the literal.
* A value is accepted exactly if it equals that of the literal when truth values are read as numbers at every depth, and
  both or neither are truth values on the outside.
* Every value that equals it is accepted, where truth values are equal to no numbers at any depth.
* No others are accepted if there are no truth values inside of either value. -/
theorem literal_exact {expected x : Value} (plain : x.Plain) (plain' : expected.Plain) :
    (∀ w, (literal expected).check x = .ok (.accepted w) → w = expected) ∧
    ((∃ w, (literal expected).check x = .ok (.accepted w)) ↔
      x.numbered.Equals expected.numbered ∧ x.isBool = expected.isBool) ∧
    (x.Equals expected → ∃ w, (literal expected).check x = .ok (.accepted w)) ∧
    (x.TruthOutside → expected.TruthOutside →
      ((∃ w, (literal expected).check x = .ok (.accepted w)) ↔ x.Equals expected)) := by
  have accepted : (∃ w, (literal expected).check x = .ok (.accepted w)) ↔
      x.eq expected = true ∧ x.isBool = expected.isBool := by
    simp only [literal_accepts_iff, exists_eq_left]
  refine ⟨fun w answer => (literal_accepts_iff.mp answer).1, ?_, fun same => ?_, fun outside outside' => ?_⟩
  · rw [accepted, eq_iff_numbered plain plain']
  · exact accepted.mpr ⟨same.eq, same.isBool⟩
  · rw [accepted, equals_iff_of_truthOutside plain plain' outside outside']

namespace Sample

/-- A dictionary of integers and a list that is empty but for nothing. -/
def integers : Value := .dict [(.str (text "a"), .int 1), (.str (text "b"), .list [.none])]

/-- An equal one with its entries the other way round and a fractional number one. -/
def fractions : Value :=
  .dict [(.str (text "b"), .list [.none]), (.str (text "a"), .float (.ofDecimal false 1 0))]

theorem integers_plain : integers.Plain := by
  refine .dict (fun entry member => ?_) fun entry member => ?_
  · rcases member with _ | ⟨_, _ | ⟨_, ⟨⟩⟩⟩ <;> exact .str _
  · rcases member with _ | ⟨_, _ | ⟨_, ⟨⟩⟩⟩
    · exact .int 1
    · exact .list (List.forall_mem_singleton.mpr .none)

theorem fractions_plain : fractions.Plain := by
  refine .dict (fun entry member => ?_) fun entry member => ?_
  · rcases member with _ | ⟨_, _ | ⟨_, ⟨⟩⟩⟩ <;> exact .str _
  · rcases member with _ | ⟨_, _ | ⟨_, ⟨⟩⟩⟩
    · exact .list (List.forall_mem_singleton.mpr .none)
    · exact .float (by decide)

end Sample

open Sample

/-- Entries in another order and a fractional one for an integer are accepted, and are equal. -/
theorem fractions_equal :
    fractions.Plain ∧ integers.Plain ∧ fractions.TruthOutside ∧ integers.TruthOutside ∧
    (literal integers).check fractions = .ok (.accepted integers) ∧ fractions.Equals integers := by
  obtain ⟨-, -, -, outside⟩ := literal_exact fractions_plain integers_plain
  have accepted : (literal integers).check fractions = .ok (.accepted integers) := rfl
  exact ⟨fractions_plain, integers_plain, .inr rfl, .inr rfl, accepted,
    (outside (.inr rfl) (.inr rfl)).mp ⟨integers, accepted⟩⟩

/-- A list with the integer one as its literal, and a list with a truth value: they are not equal, but the check of the
outside sees two lists. -/
theorem truthInside_accepted :
    ¬ ∀ expected x : Value, expected.Plain → x.Plain →
      ((∃ w, (literal expected).check x = .ok (.accepted w)) ↔ x.Equals expected) := by
  intro always
  have plain : (Value.list [.int 1]).Plain := .list (List.forall_mem_singleton.mpr (.int 1))
  have plain' : (Value.list [.bool true]).Plain := .list (List.forall_mem_singleton.mpr (.bool true))
  have same := (always (.list [.int 1]) (.list [.bool true]) plain plain').mp ⟨_, rfl⟩
  have inside := (equals_list.mp same).2 0 (by decide) (by decide)
  exact absurd inside.isBool (by decide)

end Validator
end Descent
