import Descent.Validation.Validator
import Descent.Value.Condition

/-!
# What validators accept

A validator stands for a set of values. The set is defined by recursion on the validator and does not mention how a
value is checked: no order of alternatives, no early exit, no message and no result. Checking decides the set for every
value that can be displayed, by every validator that does not look at more of a value than equality shows.

Results:
1. `Value.Short.displayed`: values without long integers can be displayed.
2. `Admits`: the set of a validator.
3. `check_judges`: checking a value comes to a verdict, the verdict is acceptance exactly for the values of the set, and
   the result of acceptance is the value itself or an equal one.
-/

namespace Descent

/-! ## 1. Values that can be displayed -/

namespace Value

/-- No integer in the value has more digits than may be converted. -/
inductive Short : Value → Prop
  | none : Short .none
  | bool (b : Bool) : Short (.bool b)
  | int {n : Int} : (Decimal.ofNat n.natAbs).length ≤ Decimal.digitLimit → Short (.int n)
  | float (x : Binary64) : Short (.float x)
  | str (t : Text) : Short (.str t)
  | list {items : List Value} : (∀ item ∈ items, Short item) → Short (.list items)
  | tuple {items : List Value} : (∀ item ∈ items, Short item) → Short (.tuple items)
  | dict {entries : List (Value × Value)} :
      (∀ entry ∈ entries, Short entry.1) → (∀ entry ∈ entries, Short entry.2) → Short (.dict entries)
  | absent : Short .absent
  | failure (f : Failure) : Short (.failure f)
  | attribute (a : Markup.Attribute) : Short (.attribute a)
  | node (n : Markup.Node) : Short (.node n)

theorem displayedAll_ok {items : List Value} (shown : ∀ item ∈ items, ∃ t, item.displayed = .ok t) :
    ∃ ts, displayedAll items = .ok ts := by
  induction items with
  | nil => exact ⟨[], rfl⟩
  | cons item rest ih =>
    obtain ⟨t, first⟩ := shown item (List.mem_cons_self ..)
    obtain ⟨ts, others⟩ := ih fun other later => shown other (List.mem_cons_of_mem _ later)
    exact ⟨t :: ts, by simp only [displayedAll, first, others]⟩

theorem displayedEntries_ok {entries : List (Value × Value)}
    (shownKeys : ∀ entry ∈ entries, ∃ t, entry.1.displayed = .ok t)
    (shownValues : ∀ entry ∈ entries, ∃ t, entry.2.displayed = .ok t) :
    ∃ ts, displayedEntries entries = .ok ts := by
  induction entries with
  | nil => exact ⟨[], rfl⟩
  | cons entry rest ih =>
    obtain ⟨k, key⟩ := shownKeys entry (List.mem_cons_self ..)
    obtain ⟨v, value⟩ := shownValues entry (List.mem_cons_self ..)
    obtain ⟨ts, others⟩ := ih (fun other later => shownKeys other (List.mem_cons_of_mem _ later))
      (fun other later => shownValues other (List.mem_cons_of_mem _ later))
    exact ⟨_, by simp only [displayedEntries, key, value, others]; rfl⟩

/-- A value without long integers can be displayed. -/
theorem Short.displayed {x : Value} (short : x.Short) : ∃ t, x.displayed = .ok t := by
  induction short with
  | int few => exact ⟨_, if_pos few⟩
  | list _ ih =>
    obtain ⟨ts, shown⟩ := displayedAll_ok ih
    exact ⟨_, by rw [Value.displayed, shown]; rfl⟩
  | tuple _ ih =>
    obtain ⟨ts, shown⟩ := displayedAll_ok ih
    exact ⟨_, by rw [Value.displayed, shown]; rfl⟩
  | dict _ _ keys values =>
    obtain ⟨ts, shown⟩ := displayedEntries_ok keys values
    exact ⟨_, by rw [Value.displayed, shown]; rfl⟩
  | _ => exact ⟨_, rfl⟩

/-- The items of a list or tuple are no longer than the whole. -/
theorem Short.item {x : Value} (short : x.Short) {items : List Value} (found : x.items? = some items) :
    ∀ item ∈ items, item.Short := by
  cases short with
  | list each => cases found; exact each
  | tuple each => cases found; exact each
  | _ => cases found

/-- Neither is what stands behind a key. -/
theorem Short.lookup {entries : List (Value × Value)} (short : (Value.dict entries).Short) {key v : Value}
    (found : lookup? entries key = some v) : v.Short := by
  cases short with
  | dict _ values =>
    obtain ⟨entry, first, rfl⟩ := Option.map_eq_some_iff.mp found
    exact values entry (List.mem_of_find?_eq_some first)

theorem length_of_eqAll {as bs : List Value} (same : eqAll as bs = true) : as.length = bs.length := by
  induction as generalizing bs with
  | nil =>
    cases bs with
    | nil => rfl
    | cons b bs => cases same
  | cons a as ih =>
    cases bs with
    | nil => cases same
    | cons b bs =>
      rw [eqAll, Bool.and_eq_true] at same
      rw [List.length_cons, List.length_cons, ih same.2]

/-- Equal values have the same length, if any. -/
theorem length?_of_eq {a b : Value} (same : a.eq b = true) : a.length? = b.length? := by
  cases a <;> cases b <;>
    simp only [eq, eqNumeral, numeral?, Bool.false_eq_true, Bool.and_eq_true, beq_iff_eq] at same <;>
    simp only [length?]
  · rw [same]
  · rw [length_of_eqAll same]
  · rw [length_of_eqAll same]
  · rw [same.1]

end Value

namespace Validator

/-! ## 2. The set of a validator -/

/-- The values that a validator admits. Nothing is said of keys that a record does not name. -/
def Admits : Validator → Value → Prop
  | .string, x => ∃ t, x = .str t
  | .number, x => (∃ n, x = .int n) ∨ ∃ y, x = .float y
  | .boolean, x => ∃ b, x = .bool b
  | .null, x => x = .none
  | .array inner, x => ∃ items, x.items? = some items ∧ ∀ item ∈ items, Admits inner item
  | .record schema, x => ∃ entries, x = .dict entries ∧ ∀ field, field ∈ schema →
      ∃ v, Value.lookup? entries (.str field.1) = some v ∧ Admits field.2 v
  | .tupleOf inners, x => ∃ items, x.items? = some items ∧ items.length = inners.length ∧
      ∀ i (_ : i < inners.length) (_ : i < items.length), Admits inners[i] items[i]
  | .oneOf inners, x => ∃ inner, ∃ _ : inner ∈ inners, Admits inner x
  | .allOf inners, x => ∀ inner, inner ∈ inners → Admits inner x
  | .literal expected, x => x.eq expected = true ∧ x.isBool = expected.isBool
  | .satisfying inner accept _, x => Admits inner x ∧ accept x = true
termination_by v => v
decreasing_by
  all_goals try decreasing_tactic
  -- What is left are the validators of a record and of a tuple.
  · rename_i named
    have inside := List.sizeOf_lt_of_mem named
    cases field
    simp only [Prod.mk.sizeOf_spec, record.sizeOf_spec] at inside ⊢
    omega
  · rename_i bound _
    have inside := List.sizeOf_lt_of_mem (List.getElem_mem bound)
    rw [tupleOf.sizeOf_spec]
    omega

section Parts

variable {x : Value} {inners : List Validator} {schema : List (Text × Validator)}

theorem admits_record : (record schema).Admits x ↔
    ∃ entries, x = .dict entries ∧
      ∀ field ∈ schema, ∃ v, Value.lookup? entries (.str field.1) = some v ∧ field.2.Admits v := by
  rw [Admits]

theorem admits_oneOf : (oneOf inners).Admits x ↔ ∃ inner ∈ inners, inner.Admits x := by
  rw [Admits]
  simp only [exists_prop]

theorem admits_allOf : (allOf inners).Admits x ↔ ∀ inner ∈ inners, inner.Admits x := by
  rw [Admits]

end Parts

/-- Nothing long would have to be displayed, and no condition tells equal values apart. -/
inductive Regular : Validator → Prop
  | string : Regular .string
  | number : Regular .number
  | boolean : Regular .boolean
  | null : Regular .null
  | array {inner : Validator} : Regular inner → Regular (.array inner)
  | record {schema : List (Text × Validator)} : (∀ field ∈ schema, Regular field.2) → Regular (.record schema)
  | tupleOf {inners : List Validator} : (∀ inner ∈ inners, Regular inner) → Regular (.tupleOf inners)
  | oneOf {inners : List Validator} : (∀ inner ∈ inners, Regular inner) → Regular (.oneOf inners)
  | allOf {inners : List Validator} : (∀ inner ∈ inners, Regular inner) → Regular (.allOf inners)
  | literal {expected : Value} : expected.Short → Regular (.literal expected)
  | satisfying {inner : Validator} {accept : Value → Bool} (rejection : Option Rejection) :
      Regular inner → (∀ a b : Value, a.eq b = true → accept a = accept b) →
      Regular (.satisfying inner accept rejection)

/-- The values of the literals that may be given as a result. What is inside a list, a record or a row of checks is only
looked at. -/
inductive Answers : Validator → Value → Prop
  | literal (expected : Value) : Answers (.literal expected) expected
  | oneOf {inners : List Validator} {inner : Validator} {w : Value} :
      inner ∈ inners → Answers inner w → Answers (.oneOf inners) w
  | satisfying {inner : Validator} {accept : Value → Bool} {rejection : Option Rejection} {w : Value} :
      Answers inner w → Answers (.satisfying inner accept rejection) w

section Parts

variable {inner : Validator} {inners : List Validator} {schema : List (Text × Validator)} {accept : Value → Bool}
  {rejection : Option Rejection} {w : Value}

theorem regular_array : (array inner).Regular ↔ inner.Regular := ⟨fun | .array h => h, .array⟩

theorem regular_record : (record schema).Regular ↔ ∀ field ∈ schema, field.2.Regular :=
  ⟨fun | .record h => h, .record⟩

theorem regular_tupleOf : (tupleOf inners).Regular ↔ ∀ inner ∈ inners, inner.Regular :=
  ⟨fun | .tupleOf h => h, .tupleOf⟩

theorem regular_oneOf : (oneOf inners).Regular ↔ ∀ inner ∈ inners, inner.Regular := ⟨fun | .oneOf h => h, .oneOf⟩

theorem regular_allOf : (allOf inners).Regular ↔ ∀ inner ∈ inners, inner.Regular := ⟨fun | .allOf h => h, .allOf⟩

theorem regular_satisfying : (satisfying inner accept rejection).Regular ↔
    inner.Regular ∧ ∀ a b : Value, a.eq b = true → accept a = accept b :=
  ⟨fun | .satisfying _ regular respects => ⟨regular, respects⟩,
    fun ⟨regular, respects⟩ => .satisfying _ regular respects⟩

theorem answers_oneOf : (oneOf inners).Answers w ↔ ∃ inner ∈ inners, inner.Answers w :=
  ⟨fun | .oneOf member answer => ⟨_, member, answer⟩, fun ⟨_, member, answer⟩ => .oneOf member answer⟩

theorem answers_satisfying : (satisfying inner accept rejection).Answers w ↔ inner.Answers w :=
  ⟨fun | .satisfying answer => answer, .satisfying⟩

/-- Lists, records, tuples and checks in a row answer with nothing but the value. -/
theorem not_answers_array : ¬ (array inner).Answers w := nofun

theorem not_answers_record : ¬ (record schema).Answers w := nofun

theorem not_answers_tupleOf : ¬ (tupleOf inners).Answers w := nofun

theorem not_answers_allOf : ¬ (allOf inners).Answers w := nofun

end Parts

/-- The results of a regular validator can be displayed as well. -/
theorem Answers.short {v : Validator} {w : Value} (answer : v.Answers w) (regular : v.Regular) : w.Short := by
  induction answer with
  | literal expected =>
    cases regular with
    | literal short => exact short
  | oneOf member _ ih =>
    cases regular with
    | oneOf each => exact ih (each _ member)
  | satisfying _ ih =>
    cases regular with
    | satisfying _ inner _ => exact ih inner

/-! ## 3. Checking -/

/-- `v.Judges x result`: the result of checking `x` is a verdict, and it is right. An accepted value comes back as it
is, or as an equal one that a literal gives. -/
inductive Judges (v : Validator) (x : Value) : Checked Verdict → Prop
  | accepts {w : Value} : v.Admits x → (w = x ∨ v.Answers w ∧ x.eq w = true) → Judges v x (.ok (.accepted w))
  | rejects {r : Rejection} : ¬ v.Admits x → Judges v x (.ok (.rejected r))

namespace Judges

variable {v : Validator} {x : Value} {checked : Checked Verdict}

theorem settles (judged : v.Judges x checked) : ∃ verdict, checked = .ok verdict := by
  cases judged with
  | accepts _ _ => exact ⟨_, rfl⟩
  | rejects _ => exact ⟨_, rfl⟩

theorem rejected_iff (judged : v.Judges x checked) : (∃ r, checked = .ok (.rejected r)) ↔ ¬ v.Admits x := by
  cases judged with
  | accepts inside _ => exact iff_of_false nofun fun outside => outside inside
  | rejects outside => exact iff_of_true ⟨_, rfl⟩ outside

theorem accepted_iff (judged : v.Judges x checked) : (∃ w, checked = .ok (.accepted w)) ↔ v.Admits x := by
  cases judged with
  | accepts inside _ => exact iff_of_true ⟨_, rfl⟩ inside
  | rejects outside => exact iff_of_false nofun outside

/-- What comes back is the value itself or an equal one. -/
theorem result {w : Value} (judged : v.Judges x (.ok (.accepted w))) : w = x ∨ v.Answers w ∧ x.eq w = true := by
  cases judged with
  | accepts _ back => exact back

end Judges

/-- `Finds right found`: something wrong is found exactly if not all is right. -/
inductive Finds (right : Prop) : Checked (Option Diagnostic) → Prop
  | nothing : right → Finds right (.ok none)
  | something {d : Diagnostic} : ¬ right → Finds right (.ok (some d))

namespace DenotationLemmas

variable {v : Validator} {x : Value}

/-- A value that can be displayed can be rejected. -/
theorem judges_reject (short : x.Short) (outside : ¬ v.Admits x) (describe : Text → Diagnostic) :
    v.Judges x (reject (x.displayed.map describe)) := by
  obtain ⟨t, shown⟩ := short.displayed
  rw [shown]
  exact .rejects outside

theorem judges_verdict {right : Prop} {found : Checked (Option Diagnostic)} (same : v.Admits x ↔ right)
    (finds : Finds right found) : v.Judges x (verdict x found) := by
  cases finds with
  | nothing allRight => exact .accepts (same.mpr allRight) (.inl rfl)
  | something wrong => exact .rejects fun inside => wrong (same.mp inside)

/-- Nothing is wrong with the empty list, and with another one if nothing is wrong with its first and the others. -/
theorem finds_nil {α : Type} {right : α → Prop} : Finds (∀ a ∈ ([] : List α), right a) (.ok none) :=
  .nothing fun _ member => absurd member List.not_mem_nil

theorem finds_first {α : Type} {right : α → Prop} {a : α} {rest : List α} {d : Diagnostic} (wrong : ¬ right a) :
    Finds (∀ b ∈ a :: rest, right b) (.ok (some d)) :=
  .something fun all => wrong (all a (List.mem_cons_self ..))

theorem finds_later {α : Type} {right : α → Prop} {a : α} {rest : List α} {found : Checked (Option Diagnostic)}
    (first : right a) (finds : Finds (∀ b ∈ rest, right b) found) : Finds (∀ b ∈ a :: rest, right b) found := by
  cases finds with
  | nothing others => exact .nothing (List.forall_mem_cons.mpr ⟨first, others⟩)
  | something wrong => exact .something fun all => wrong (List.forall_mem_cons.mp all).2

theorem firstInvalid_finds {inner : Validator} {items : List Value} (index : Nat)
    (judged : ∀ item ∈ items, inner.Judges item (inner.check item)) :
    Finds (∀ item ∈ items, inner.Admits item) (firstInvalid inner.check index items) := by
  induction items generalizing index with
  | nil => exact finds_nil
  | cons item rest ih =>
    obtain ⟨first, others⟩ := List.forall_mem_cons.mp judged
    rw [firstInvalid]
    generalize inner.check item = result at first
    cases first with
    | accepts inside _ => exact finds_later inside (ih (index + 1) others)
    | rejects outside => exact finds_first outside

/-- A key has a value, and the value is admitted. -/
theorem checkFields_finds {schema : List (Text × Validator)} {entries : List (Value × Value)}
    (judged : ∀ field ∈ schema, ∀ w, Value.lookup? entries (.str field.1) = some w →
      field.2.Judges w (field.2.check w)) :
    Finds (∀ field ∈ schema, ∃ w, Value.lookup? entries (.str field.1) = some w ∧ field.2.Admits w)
      (checkFields schema entries) := by
  induction schema with
  | nil => exact finds_nil
  | cons field rest ih =>
    obtain ⟨key, inner⟩ := field
    obtain ⟨first, others⟩ := List.forall_mem_cons.mp judged
    rw [checkFields]
    cases found : Value.lookup? entries (.str key) with
    | none =>
      refine finds_first ?_
      rintro ⟨w, found', -⟩
      cases found.symm.trans found'
    | some w =>
      have judgedHere := first w found
      simp only
      generalize inner.check w = result at judgedHere
      cases judgedHere with
      | accepts inside _ => exact finds_later ⟨w, found, inside⟩ (ih others)
      | rejects outside =>
        refine finds_first ?_
        rintro ⟨w', found', inside⟩
        exact outside (Option.some.inj (found.symm.trans found') ▸ inside)

theorem checkSteps_finds {inners : List Validator} (step : Nat)
    (judged : ∀ inner ∈ inners, inner.Judges x (inner.check x)) :
    Finds (∀ inner ∈ inners, inner.Admits x) (checkSteps inners step x) := by
  induction inners generalizing step with
  | nil => exact finds_nil
  | cons inner rest ih =>
    obtain ⟨first, others⟩ := List.forall_mem_cons.mp judged
    rw [checkSteps]
    generalize inner.check x = result at first
    cases first with
    | accepts inside _ => exact finds_later inside (ih (step + 1) others)
    | rejects outside => exact finds_first outside

/-- Items and validators are gone through side by side. -/
theorem checkItems_finds {inners : List Validator} {items : List Value} (index : Nat)
    (paired : items.length = inners.length)
    (judged : ∀ inner ∈ inners, ∀ item ∈ items, inner.Judges item (inner.check item)) :
    Finds (∀ i (_ : i < inners.length) (_ : i < items.length), inners[i].Admits items[i])
      (checkItems inners index items) := by
  induction inners generalizing index items with
  | nil => exact .nothing fun i below => absurd below (Nat.not_lt_zero i)
  | cons inner inners ih =>
    cases items with
    | nil => cases paired
    | cons item items =>
      have first := judged inner (List.mem_cons_self ..) item (List.mem_cons_self ..)
      have later := ih (index + 1) (Nat.succ.inj paired) fun other member other' member' =>
        judged other (List.mem_cons_of_mem _ member) other' (List.mem_cons_of_mem _ member')
      rw [checkItems]
      generalize inner.check item = result at first
      cases first with
      | rejects outside => exact .something fun all => outside (all 0 (Nat.succ_pos _) (Nat.succ_pos _))
      | accepts inside _ =>
        simp only
        generalize checkItems inners (index + 1) items = found at later
        cases later with
        | something wrong =>
          exact .something fun all => wrong fun i below below' =>
            all (i + 1) (Nat.succ_lt_succ below) (Nat.succ_lt_succ below')
        | nothing others =>
          refine .nothing fun i below below' => ?_
          cases i with
          | zero => exact inside
          | succ i => exact others i (Nat.lt_of_succ_lt_succ below) (Nat.lt_of_succ_lt_succ below')

/-- The first alternative that accepts gives the result. -/
theorem checkAlternatives_judges {inners : List Validator} (reasons : List Text)
    (judged : ∀ inner ∈ inners, inner.Judges x (inner.check x)) :
    (oneOf inners).Judges x (checkAlternatives inners reasons x) := by
  induction inners generalizing reasons with
  | nil =>
    refine .rejects ?_
    rw [admits_oneOf]
    rintro ⟨inner, member, -⟩
    exact absurd member List.not_mem_nil
  | cons inner rest ih =>
    obtain ⟨first, others⟩ := List.forall_mem_cons.mp judged
    rw [checkAlternatives]
    generalize inner.check x = result at first
    cases first with
    | accepts inside back =>
      have here : inner ∈ inner :: rest := List.mem_cons_self ..
      exact .accepts (admits_oneOf.mpr ⟨inner, here, inside⟩)
        (back.imp_right fun ⟨answer, same⟩ => ⟨.oneOf here answer, same⟩)
    | @rejects r outside =>
      have later := ih (r.message :: reasons) others
      simp only
      generalize checkAlternatives rest (r.message :: reasons) x = result at later
      cases later with
      | accepts inside back =>
        obtain ⟨other, member, admits⟩ := admits_oneOf.mp inside
        refine .accepts (admits_oneOf.mpr ⟨other, List.mem_cons_of_mem _ member, admits⟩) (back.imp_right ?_)
        rintro ⟨answer, same⟩
        cases answer with
        | oneOf member answer => exact ⟨.oneOf (List.mem_cons_of_mem _ member) answer, same⟩
      | rejects none =>
        refine .rejects fun inside => none ?_
        obtain ⟨other, member, admits⟩ := admits_oneOf.mp inside
        rcases List.mem_cons.mp member with rfl | member
        · exact absurd admits outside
        · exact admits_oneOf.mpr ⟨other, member, admits⟩

end DenotationLemmas

open DenotationLemmas

/-- A regular validator comes to the right verdict on every value that can be displayed. -/
theorem check_judges {v : Validator} (regular : v.Regular) {x : Value} (short : x.Short) : v.Judges x (v.check x) := by
  induction regular generalizing x with
  | string =>
    cases x with
    | str t => exact .accepts (by simp [Admits]) (.inl rfl)
    | _ => exact judges_reject short (by simp [Admits]) _
  | number =>
    cases x with
    | int n => exact .accepts (by simp [Admits]) (.inl rfl)
    | float y => exact .accepts (by simp [Admits]) (.inl rfl)
    | _ => exact judges_reject short (by simp [Admits]) _
  | boolean =>
    cases x with
    | bool b => exact .accepts (by simp [Admits]) (.inl rfl)
    | _ => exact judges_reject short (by simp [Admits]) _
  | null =>
    cases x with
    | none => exact .accepts (by simp [Admits]) (.inl rfl)
    | _ => exact judges_reject short (by simp [Admits]) _
  | @array inner _ ih =>
    rw [check]
    split
    · next items found =>
      refine judges_verdict ?_ (firstInvalid_finds 0 fun item member => ih (short.item found item member))
      simp [Admits, found]
    · next missing => exact judges_reject short (by simp [Admits, missing]) _
  | @record schema _ ih =>
    cases x with
    | dict entries =>
      refine judges_verdict ?_ (checkFields_finds fun field member w found => ih field member (short.lookup found))
      simp [Admits]
    | _ => exact judges_reject short (by simp [Admits]) _
  | @tupleOf inners _ ih =>
    rw [check]
    split
    · next items found =>
      split
      · next paired =>
        refine judges_verdict ?_ (checkItems_finds 0 paired fun inner member item member' =>
          ih inner member (short.item found item member'))
        simp [Admits, found, paired]
      · next unpaired => exact judges_reject short (by simp [Admits, found, unpaired]) _
    · next missing => exact judges_reject short (by simp [Admits, missing]) _
  | @oneOf inners _ ih =>
    rw [check]
    exact checkAlternatives_judges [] fun inner member => ih inner member short
  | @allOf inners _ ih =>
    rw [check]
    refine judges_verdict ?_ (checkSteps_finds 0 fun inner member => ih inner member short)
    rw [Admits]
  | @literal expected wanted =>
    rw [check]
    split
    · next same =>
      rw [Bool.and_eq_true, beq_iff_eq] at same
      exact .accepts (by rw [Admits]; exact same) (.inr ⟨.literal expected, same.1⟩)
    · next different =>
      rw [Bool.and_eq_true, beq_iff_eq] at different
      obtain ⟨t, shown⟩ := wanted.displayed
      obtain ⟨t', shown'⟩ := short.displayed
      rw [Diagnostic.notEqual, shown, shown']
      exact .rejects (by rw [Admits]; exact different)
  | @satisfying inner accept rejection regular respects ih =>
    have judged := ih short
    rw [check]
    generalize inner.check x = result at judged
    cases judged with
    | rejects outside => exact .rejects (by rw [Admits]; exact fun inside => outside inside.1)
    | @accepts w inside back =>
      -- The condition is asked of the result, which is the value or an equal one.
      have asked : accept w = accept x := by
        rcases back with rfl | ⟨-, same⟩
        · rfl
        · exact (respects x w same).symm
      have shortResult : w.Short := by
        rcases back with rfl | ⟨answer, -⟩
        · exact short
        · exact answer.short regular
      simp only
      split
      · next holds =>
        refine .accepts ?_ (back.imp_right fun ⟨answer, same⟩ => ⟨.satisfying answer, same⟩)
        rw [Admits]
        exact ⟨inside, asked ▸ holds⟩
      · next fails =>
        have outside : ¬ (satisfying inner accept rejection).Admits x := by
          rw [Admits]
          exact fun inside => fails (asked ▸ inside.2)
        cases rejection with
        | some r => exact .rejects outside
        | none =>
          obtain ⟨t, shown⟩ := shortResult.displayed
          simp only [Diagnostic.predicateFailed, shown]
          exact .rejects outside

end Validator
end Descent
