import Descent.Proofs.Validation.Denotation

/-!
# Where a rejected value offends

Lists, tuples and records are checked part by part, and the first part that is rejected is reported. The message says
which part it is and quotes what was said about it, so the message of a rejection deep inside a value starts with the
way there. At the end of the way stands a value that offends on its own account: by its type, by its length, or by a key
that it lacks.

Results:
1. `Enters`, `Offends`, `Reaches`: the parts that are reached when everything before them is accepted, and the faults
   that a value has on its own account.
2. `rejects_iff`: a value is rejected on its own account, or because of a part that is.
3. `rejection_located`: the message of a rejection leads to the one place that offends.
-/

namespace Descent

/-! ## 1. Ways into a value -/

/-- A step into a value. -/
inductive Place
  | index (i : Nat)
  | key (k : Text)
deriving DecidableEq

/-- What a message says of a part in front of what is wrong with it. -/
def Place.label : Place → Text
  | .index i => text "Invalid index " ++ Decimal.ofNat i ++ text ": "
  | .key k => text "Invalid key " ++ k ++ text ": "

namespace Validator

/-- Validators for the structure of a value only: its type, and its items or keys. -/
inductive Structural : Validator → Prop
  | string : Structural .string
  | number : Structural .number
  | boolean : Structural .boolean
  | null : Structural .null
  | array {inner : Validator} : Structural inner → Structural (.array inner)
  | record {schema : List (Text × Validator)} : (∀ field ∈ schema, Structural field.2) → Structural (.record schema)
  | tupleOf {inners : List Validator} : (∀ inner ∈ inners, Structural inner) → Structural (.tupleOf inners)

def Accepts (v : Validator) (x : Value) : Prop := ∃ w, v.check x = .ok (.accepted w)

def Rejects (v : Validator) (x : Value) (message : Text) : Prop :=
  ∃ r, v.check x = .ok (.rejected r) ∧ r.message = message

/-- The type that a validator asks for, as messages name it. -/
def typeName : Validator → Text
  | .string => text "string"
  | .number => text "number"
  | .boolean => text "boolean"
  | .null => text "null"
  | .array _ => text "array"
  | .record _ => text "object"
  | .tupleOf _ => text "tuple"
  | _ => []

/-- The value has the type that a validator asks for, whatever is inside. -/
def Fits : Validator → Value → Prop
  | .string, x => ∃ t, x = .str t
  | .number, x => (∃ n, x = .int n) ∨ ∃ y, x = .float y
  | .boolean, x => ∃ b, x = .bool b
  | .null, x => x = .none
  | .array _, x => ∃ items, x.items? = some items
  | .record _, x => ∃ entries, x = .dict entries
  | .tupleOf _, x => ∃ items, x.items? = some items
  | _, _ => True

/-- The keys before one in a record are all there, and their values are accepted. -/
def KeysBefore (schema : List (Text × Validator)) (entries : List (Value × Value)) (i : Nat) : Prop :=
  ∀ j < i, ∃ field z, schema[j]? = some field ∧ Value.lookup? entries (.str field.1) = some z ∧ field.2.Accepts z

/-- `v.Enters x place w y`: checking `x` gets to its part `y` at the place, which `w` is for. All parts before are there
and are accepted. -/
inductive Enters : Validator → Value → Place → Validator → Value → Prop
  | item {inner : Validator} {x y : Value} {items : List Value} {i : Nat} :
      x.items? = some items → items[i]? = some y →
      (∀ j < i, ∃ z, items[j]? = some z ∧ inner.Accepts z) → Enters (.array inner) x (.index i) inner y
  | member {inners : List Validator} {inner : Validator} {x y : Value} {items : List Value} {i : Nat} :
      x.items? = some items → items.length = inners.length → inners[i]? = some inner → items[i]? = some y →
      (∀ j < i, ∃ w z, inners[j]? = some w ∧ items[j]? = some z ∧ w.Accepts z) →
      Enters (.tupleOf inners) x (.index i) inner y
  | field {schema : List (Text × Validator)} {key : Text} {inner : Validator} {entries : List (Value × Value)}
      {y : Value} {i : Nat} :
      schema[i]? = some (key, inner) → Value.lookup? entries (.str key) = some y → KeysBefore schema entries i →
      Enters (.record schema) (.dict entries) (.key key) inner y

/-- `v.Offends x message`: the message says what `v` has against `x` itself. It has another type or another length, or
it lacks a key, the keys before being there with accepted values. -/
inductive Offends : Validator → Value → Text → Prop
  | type {v : Validator} {x : Value} {shown : Text} : ¬ v.Fits x → x.displayed = .ok shown →
      Offends v x (text "Expected " ++ v.typeName ++ text ", got " ++ shown)
  | length {inners : List Validator} {x : Value} {items : List Value} {shown : Text} :
      x.items? = some items → items.length ≠ inners.length → x.displayed = .ok shown →
      Offends (.tupleOf inners) x
        (text "Expected tuple of length " ++ Decimal.ofNat inners.length ++ text ", got " ++ shown)
  | missing {schema : List (Text × Validator)} {key : Text} {inner : Validator} {entries : List (Value × Value)}
      {i : Nat} : schema[i]? = some (key, inner) → Value.lookup? entries (.str key) = none →
      KeysBefore schema entries i →
      Offends (.record schema) (.dict entries) (text "Missing key: " ++ key)

/-- `v.Reaches x path w y`: the path leads from `x` to `y`, and from the check of `x` to that of `y`. -/
inductive Reaches : Validator → Value → List Place → Validator → Value → Prop
  | here (v : Validator) (x : Value) : Reaches v x [] v x
  | inside {v w u : Validator} {x y z : Value} {place : Place} {path : List Place} :
      Enters v x place w y → Reaches w y path u z → Reaches v x (place :: path) u z

/-! ## 2. One step -/

/-- What is found of a part, given how a rejection of it is described. -/
def finding (describe : Text → Diagnostic) : Checked Verdict → Checked (Option Diagnostic)
  | .error e => .error e
  | .ok (.rejected r) => .ok (some (describe r.message))
  | .ok (.accepted _) => .ok none

/-- What is found of a key of a record. -/
def fieldFinding (entries : List (Value × Value)) (field : Text × Validator) : Checked (Option Diagnostic) :=
  match Value.lookup? entries (.str field.1) with
  | none => .ok (some (.missingKey field.1))
  | some v => finding (.invalidKey field.1) (field.2.check v)

/-- The first thing that is found, if any. -/
def firstFound : List (Checked (Option Diagnostic)) → Checked (Option Diagnostic)
  | [] => .ok none
  | .ok none :: rest => firstFound rest
  | found :: _ => found

namespace OffenceLemmas

variable {v inner : Validator} {x : Value} {items : List Value} {inners : List Validator}
  {schema : List (Text × Validator)} {entries : List (Value × Value)} {d : Diagnostic} {t : Text}

/-! The walks over items and keys look for the first thing that is found. -/

theorem firstInvalid_eq (check : Value → Checked Verdict) (index : Nat) (items : List Value) :
    firstInvalid check index items =
      firstFound (items.mapIdx fun i item => finding (.invalidItem (index + i : Nat)) (check item)) := by
  induction items generalizing index with
  | nil => rfl
  | cons item rest ih =>
    have shift : ∀ i, index + 1 + i = index + (i + 1) := by omega
    rw [firstInvalid, List.mapIdx_cons]
    rcases check item with e | w | r
    · rfl
    · simp only [finding, firstFound, ih, shift]
    · rfl

theorem checkItems_eq (inners : List Validator) (index : Nat) (items : List Value) :
    checkItems inners index items = firstFound ((inners.zip items).mapIdx fun i part =>
      finding (.invalidItem (index + i : Nat)) (part.1.check part.2)) := by
  induction inners generalizing index items with
  | nil => rfl
  | cons inner inners ih =>
    cases items with
    | nil => rfl
    | cons item rest =>
      have shift : ∀ i, index + 1 + i = index + (i + 1) := by omega
      rw [checkItems, List.zip_cons_cons, List.mapIdx_cons]
      rcases inner.check item with e | w | r
      · rfl
      · simp only [finding, firstFound, ih, shift]
      · rfl

theorem checkFields_eq (schema : List (Text × Validator)) (entries : List (Value × Value)) :
    checkFields schema entries = firstFound (schema.map (fieldFinding entries)) := by
  induction schema with
  | nil => rfl
  | cons field rest ih =>
    obtain ⟨key, inner⟩ := field
    rw [checkFields, List.map_cons, fieldFinding]
    cases Value.lookup? entries (.str key) with
    | none => rfl
    | some value =>
      simp only
      rcases inner.check value with e | w | r
      · rfl
      · simp only [finding, firstFound, ih]
      · rfl

/-- Something is found at one place, and nothing before. -/
theorem firstFound_eq_some {parts : List (Checked (Option Diagnostic))} : firstFound parts = .ok (some d) ↔
    ∃ i : Nat, parts[i]? = some (.ok (some d)) ∧ ∀ j < i, parts[j]? = some (.ok none) := by
  induction parts with
  | nil => simp [firstFound]
  | cons part rest ih =>
    by_cases nothing : part = .ok none
    · subst nothing
      rw [firstFound, ih]
      constructor
      · rintro ⟨i, found, before⟩
        refine ⟨i + 1, found, fun j below => ?_⟩
        cases j with
        | zero => rfl
        | succ j => exact before j (Nat.lt_of_succ_lt_succ below)
      · rintro ⟨i, found, before⟩
        cases i with
        | zero => simp at found
        | succ i => exact ⟨i, found, fun j below => before (j + 1) (Nat.succ_lt_succ below)⟩
    · have first : firstFound (part :: rest) = part := by
        rcases part with e | _ | d
        · rfl
        · exact absurd rfl nothing
        · rfl
      rw [first]
      constructor
      · rintro rfl
        exact ⟨0, rfl, fun j below => absurd below (Nat.not_lt_zero j)⟩
      · rintro ⟨i, found, before⟩
        cases i with
        | zero => exact Option.some.inj found
        | succ i => exact absurd (Option.some.inj (before 0 (Nat.succ_pos i))) nothing

theorem finding_eq_some {describe : Text → Diagnostic} {checked : Checked Verdict} :
    finding describe checked = .ok (some d) ↔ ∃ r, checked = .ok (.rejected r) ∧ describe r.message = d := by
  rcases checked with e | w | r <;> simp [finding]

theorem finding_eq_none {describe : Text → Diagnostic} {checked : Checked Verdict} :
    finding describe checked = .ok none ↔ ∃ w, checked = .ok (.accepted w) := by
  rcases checked with e | w | r <;> simp [finding]

theorem fieldFinding_eq_some {field : Text × Validator} : fieldFinding entries field = .ok (some d) ↔
    Value.lookup? entries (.str field.1) = none ∧ Diagnostic.missingKey field.1 = d ∨
    ∃ y, Value.lookup? entries (.str field.1) = some y ∧
      ∃ r, field.2.check y = .ok (.rejected r) ∧ Diagnostic.invalidKey field.1 r.message = d := by
  rw [fieldFinding]
  cases Value.lookup? entries (.str field.1) with
  | none => simp
  | some y => simp [finding_eq_some]

theorem fieldFinding_eq_none {field : Text × Validator} : fieldFinding entries field = .ok none ↔
    ∃ y, Value.lookup? entries (.str field.1) = some y ∧ field.2.Accepts y := by
  rw [fieldFinding]
  cases Value.lookup? entries (.str field.1) with
  | none => simp
  | some y => simp [finding_eq_none, Accepts]

/-! What each walk finds first. -/

theorem firstInvalid_eq_some : firstInvalid inner.check 0 items = .ok (some d) ↔
    ∃ (i : Nat) (y : Value) (r : Rejection), items[i]? = some y ∧ inner.check y = .ok (.rejected r) ∧
      Diagnostic.invalidItem i r.message = d ∧ ∀ j < i, ∃ z, items[j]? = some z ∧ inner.Accepts z := by
  simp only [firstInvalid_eq, firstFound_eq_some, List.getElem?_mapIdx, Option.map_eq_some_iff, finding_eq_some,
    finding_eq_none, Nat.zero_add]
  refine exists_congr fun i => ⟨?_, ?_⟩
  · rintro ⟨⟨y, here, r, rejected, same⟩, before⟩
    exact ⟨y, r, here, rejected, same, before⟩
  · rintro ⟨y, r, here, rejected, same, before⟩
    exact ⟨⟨y, here, r, rejected, same⟩, before⟩

theorem checkItems_eq_some : checkItems inners 0 items = .ok (some d) ↔
    ∃ (i : Nat) (w : Validator) (y : Value) (r : Rejection), inners[i]? = some w ∧ items[i]? = some y ∧
      w.check y = .ok (.rejected r) ∧ Diagnostic.invalidItem i r.message = d ∧
      ∀ j < i, ∃ u z, inners[j]? = some u ∧ items[j]? = some z ∧ u.Accepts z := by
  simp only [checkItems_eq, firstFound_eq_some, List.getElem?_mapIdx, Option.map_eq_some_iff, finding_eq_some,
    finding_eq_none, Nat.zero_add, List.getElem?_zip_eq_some, Prod.exists, and_assoc]
  refine exists_congr fun i => ⟨?_, ?_⟩
  · rintro ⟨⟨w, y, asked, here, r, rejected, same⟩, before⟩
    exact ⟨w, y, r, asked, here, rejected, same, before⟩
  · rintro ⟨w, y, r, asked, here, rejected, same, before⟩
    exact ⟨⟨w, y, asked, here, r, rejected, same⟩, before⟩

theorem checkFields_eq_some : checkFields schema entries = .ok (some d) ↔
    ∃ (i : Nat) (field : Text × Validator), schema[i]? = some field ∧ KeysBefore schema entries i ∧
      (Value.lookup? entries (.str field.1) = none ∧ Diagnostic.missingKey field.1 = d ∨
        ∃ y, Value.lookup? entries (.str field.1) = some y ∧
          ∃ r, field.2.check y = .ok (.rejected r) ∧ Diagnostic.invalidKey field.1 r.message = d) := by
  simp only [checkFields_eq, firstFound_eq_some, List.getElem?_map, Option.map_eq_some_iff, fieldFinding_eq_some,
    fieldFinding_eq_none, KeysBefore, exists_and_left]
  refine exists_congr fun i => ⟨?_, ?_⟩
  · rintro ⟨⟨field, here, found⟩, before⟩
    exact ⟨field, here, before, found⟩
  · rintro ⟨field, here, before, found⟩
    exact ⟨⟨field, here, found⟩, before⟩

/-! Rejections come from descriptions and from what is found. -/

theorem rejects_of_reject {describe : Text → Diagnostic} (same : v.check x = reject (x.displayed.map describe)) :
    v.Rejects x t ↔ ∃ shown, x.displayed = .ok shown ∧ (describe shown).message = t := by
  rw [Rejects, same]
  cases x.displayed with
  | error e => simp [reject, Except.map]
  | ok shown => simp [reject, Except.map, Rejection.ofDiagnostic]

theorem rejects_of_verdict {found : Checked (Option Diagnostic)} (same : v.check x = verdict x found) :
    v.Rejects x t ↔ ∃ d, found = .ok (some d) ∧ d.message = t := by
  rw [Rejects, same]
  rcases found with e | _ | d <;> simp [verdict, Except.map, Rejection.ofDiagnostic]

end OffenceLemmas

open OffenceLemmas

/-- A value of another type is told its type and what it is. -/
theorem check_of_not_fits {v : Validator} {x : Value} (structural : v.Structural) (unfit : ¬ v.Fits x) :
    v.check x = reject (Diagnostic.typeMismatch v.typeName x) := by
  cases structural with
  | array _ =>
    rw [check]
    cases found : x.items? with
    | none => rfl
    | some items => exact absurd ⟨items, found⟩ unfit
  | tupleOf _ =>
    rw [check]
    cases found : x.items? with
    | none => rfl
    | some items => exact absurd ⟨items, found⟩ unfit
  | _ => cases x <;> first | rfl | simp [Fits] at unfit

/-- A value that is entered has the type that is asked for. -/
theorem Enters.fits {v w : Validator} {x y : Value} {place : Place} (enters : v.Enters x place w y) : v.Fits x := by
  cases enters with
  | item found _ _ => exact ⟨_, found⟩
  | member found _ _ _ _ => exact ⟨_, found⟩
  | field _ _ _ => exact ⟨_, rfl⟩

/-- Values of another type are rejected for it. -/
theorem rejects_iff_of_not_fits {v : Validator} {x : Value} {t : Text} (structural : v.Structural)
    (unfit : ¬ v.Fits x) : v.Rejects x t ↔ v.Offends x t := by
  rw [rejects_of_reject (check_of_not_fits structural unfit)]
  constructor
  · rintro ⟨shown, displayed, rfl⟩
    exact .type unfit displayed
  · rintro (⟨-, displayed⟩ | ⟨found, -, -⟩ | ⟨-, -, -⟩)
    · exact ⟨_, displayed, rfl⟩
    · exact absurd ⟨_, found⟩ unfit
    · exact absurd ⟨_, rfl⟩ unfit

/-- Some part of a value is entered and rejected. The message names the place and repeats what is said of the part. -/
def RejectsInside (v : Validator) (x : Value) (message : Text) : Prop :=
  ∃ place w y s, v.Enters x place w y ∧ w.Rejects y s ∧ message = place.label ++ s

theorem rejects_array_iff {inner : Validator} {x : Value} {items : List Value} {t : Text}
    (found : x.items? = some items) : (array inner).Rejects x t ↔ (array inner).RejectsInside x t := by
  have walk : (array inner).check x = verdict x (firstInvalid inner.check 0 items) := by rw [check, found]
  rw [rejects_of_verdict walk]
  constructor
  · rintro ⟨_, first, rfl⟩
    obtain ⟨i, y, r, here, rejected, rfl, before⟩ := firstInvalid_eq_some.mp first
    exact ⟨.index i, inner, y, r.message, .item found here before, ⟨r, rejected, rfl⟩, rfl⟩
  · rintro ⟨_, _, _, _, enters, ⟨r, rejected, rfl⟩, rfl⟩
    cases enters with
    | item found' here before =>
      cases found.symm.trans found'
      exact ⟨_, firstInvalid_eq_some.mpr ⟨_, _, r, here, rejected, rfl, before⟩, rfl⟩

theorem rejects_tupleOf_iff {inners : List Validator} {x : Value} {items : List Value} {t : Text}
    (found : x.items? = some items) :
    (tupleOf inners).Rejects x t ↔ (tupleOf inners).Offends x t ∨ (tupleOf inners).RejectsInside x t := by
  by_cases long : items.length = inners.length
  · have walk : (tupleOf inners).check x = verdict x (checkItems inners 0 items) := by
      rw [check, found]
      exact if_pos long
    rw [rejects_of_verdict walk]
    constructor
    · rintro ⟨_, first, rfl⟩
      obtain ⟨i, w, y, r, asked, here, rejected, rfl, before⟩ := checkItems_eq_some.mp first
      exact .inr ⟨.index i, w, y, r.message, .member found long asked here before, ⟨r, rejected, rfl⟩, rfl⟩
    · rintro (offends | ⟨_, _, _, _, enters, ⟨r, rejected, rfl⟩, rfl⟩)
      · cases offends with
        | type unfit _ => exact absurd ⟨_, found⟩ unfit
        | length found' other _ =>
          cases found.symm.trans found'
          exact absurd long other
      · cases enters with
        | member found' _ asked here before =>
          cases found.symm.trans found'
          exact ⟨_, checkItems_eq_some.mpr ⟨_, _, _, r, asked, here, rejected, rfl, before⟩, rfl⟩
  · have mismatch : (tupleOf inners).check x = reject (Diagnostic.lengthMismatch inners.length x) := by
      rw [check, found]
      exact if_neg long
    rw [rejects_of_reject mismatch]
    constructor
    · rintro ⟨shown, displayed, rfl⟩
      exact .inl (.length found long displayed)
    · rintro (offends | ⟨_, _, _, _, enters, -, -⟩)
      · cases offends with
        | type unfit _ => exact absurd ⟨_, found⟩ unfit
        | length _ _ displayed => exact ⟨_, displayed, rfl⟩
      · cases enters with
        | member found' long' _ _ _ =>
          cases found.symm.trans found'
          exact absurd long' long

theorem rejects_record_iff {schema : List (Text × Validator)} {entries : List (Value × Value)} {t : Text} :
    (record schema).Rejects (.dict entries) t ↔
      (record schema).Offends (.dict entries) t ∨ (record schema).RejectsInside (.dict entries) t := by
  have walk : (record schema).check (.dict entries) = verdict (.dict entries) (checkFields schema entries) := by
    rw [check]
  rw [rejects_of_verdict walk]
  constructor
  · rintro ⟨_, first, rfl⟩
    obtain ⟨i, ⟨key, w⟩, asked, before, ⟨lacking, rfl⟩ | ⟨y, here, r, rejected, rfl⟩⟩ := checkFields_eq_some.mp first
    · exact .inl (.missing asked lacking before)
    · exact .inr ⟨.key key, w, y, r.message, .field asked here before, ⟨r, rejected, rfl⟩, rfl⟩
  · rintro (offends | ⟨_, _, _, _, enters, ⟨r, rejected, rfl⟩, rfl⟩)
    · cases offends with
      | type unfit _ => exact absurd ⟨_, rfl⟩ unfit
      | missing asked lacking before =>
        exact ⟨_, checkFields_eq_some.mpr ⟨_, _, asked, before, .inl ⟨lacking, rfl⟩⟩, rfl⟩
    · cases enters with
      | field asked here before =>
        exact ⟨_, checkFields_eq_some.mpr ⟨_, _, asked, before, .inr ⟨_, here, r, rejected, rfl⟩⟩, rfl⟩

/-- A value is rejected on its own account, or because the first part that is rejected is. -/
theorem rejects_iff {v : Validator} {x : Value} {t : Text} (structural : v.Structural) :
    v.Rejects x t ↔ v.Offends x t ∨ v.RejectsInside x t := by
  by_cases fits : v.Fits x
  · cases structural with
    | array _ =>
      obtain ⟨items, found⟩ := fits
      rw [rejects_array_iff found]
      refine (or_iff_right fun offends => ?_).symm
      cases offends with
      | type unfit _ => exact unfit ⟨items, found⟩
    | tupleOf _ =>
      obtain ⟨items, found⟩ := fits
      exact rejects_tupleOf_iff found
    | record _ =>
      obtain ⟨entries, rfl⟩ := fits
      exact rejects_record_iff
    | _ =>
      -- The others accept whatever has their type.
      refine iff_of_false ?_ ?_
      · rintro ⟨r, rejected, -⟩
        cases x <;> first | (simp [Fits] at fits; done) | cases rejected
      · rintro (⟨unfit, -⟩ | ⟨_, _, _, _, ⟨⟩, -⟩)
        exact unfit fits
  · rw [rejects_iff_of_not_fits structural fits]
    exact (or_iff_left fun ⟨_, _, _, _, enters, _⟩ => fits enters.fits).symm

/-! ## 3. The whole way -/

/-- The parts of a structural validator are structural. -/
theorem Enters.structural {v w : Validator} {x y : Value} {place : Place} (enters : v.Enters x place w y)
    (structural : v.Structural) : w.Structural := by
  cases enters with
  | item _ _ _ =>
    cases structural with
    | array inside => exact inside
  | member _ _ asked _ _ =>
    cases structural with
    | tupleOf inside => exact inside _ (List.mem_of_getElem? asked)
  | field asked _ _ =>
    cases structural with
    | record inside => exact inside _ (List.mem_of_getElem? asked)

/-- A validator that is entered is larger than its part. -/
theorem Enters.smaller {v w : Validator} {x y : Value} {place : Place} (enters : v.Enters x place w y) :
    sizeOf w < sizeOf v := by
  cases enters with
  | item _ _ _ => simp
  | member _ _ asked _ _ =>
    have inside := List.sizeOf_lt_of_mem (List.mem_of_getElem? asked)
    simp only [tupleOf.sizeOf_spec]
    omega
  | field asked _ _ =>
    have inside := List.sizeOf_lt_of_mem (List.mem_of_getElem? asked)
    simp only [Prod.mk.sizeOf_spec, record.sizeOf_spec] at inside ⊢
    omega

/-- A value is rejected because of the end of a path. -/
theorem rejects_iff_reaches {v : Validator} {x : Value} {t : Text} (structural : v.Structural) :
    v.Rejects x t ↔ ∃ path w y s, v.Reaches x path w y ∧ w.Offends y s ∧ t = path.flatMap Place.label ++ s := by
  constructor
  · intro rejects
    obtain offends | ⟨place, w, y, s, enters, inside, rfl⟩ := (rejects_iff structural).mp rejects
    · exact ⟨[], v, x, t, .here v x, offends, rfl⟩
    · have := enters.smaller
      obtain ⟨path, u, z, m, reaches, offends, rfl⟩ := (rejects_iff_reaches (enters.structural structural)).mp inside
      exact ⟨place :: path, u, z, m, .inside enters reaches, offends, by rw [List.flatMap_cons, List.append_assoc]⟩
  · rintro ⟨path, w, y, s, reaches, offends, rfl⟩
    induction reaches with
    | here v x => exact (rejects_iff structural).mpr (.inl offends)
    | inside enters _ ih =>
      refine (rejects_iff structural).mpr (.inr ⟨_, _, _, _, enters, ih (enters.structural structural) offends, ?_⟩)
      rw [List.flatMap_cons, List.append_assoc]
termination_by sizeOf v

namespace OffenceLemmas

variable {v w w' : Validator} {x y y' : Value} {s t t' : Text} {place place' : Place}

theorem rejects_unique (rejects : v.Rejects x t) (rejects' : v.Rejects x t') : t = t' := by
  obtain ⟨r, checked, rfl⟩ := rejects
  obtain ⟨r', checked', rfl⟩ := rejects'
  cases checked.symm.trans checked'
  rfl

theorem not_accepts_of_rejects (rejects : v.Rejects x t) : ¬ v.Accepts x := by
  obtain ⟨r, checked, -⟩ := rejects
  rintro ⟨w, checked'⟩
  cases checked.symm.trans checked'

/-- There is only one first number without a property. -/
theorem first_unique {P : Nat → Prop} {i j : Nat} (before : ∀ k < i, P k) (here : ¬ P i) (before' : ∀ k < j, P k)
    (here' : ¬ P j) : i = j := by
  rcases Nat.lt_trichotomy i j with below | same | above
  · exact absurd (before' i below) here
  · exact same
  · exact absurd (before j above) here'

/-- A part that is rejected is not among those that are there and accepted. -/
theorem not_accepted_item {items : List Value} {i : Nat} (here : items[i]? = some y) (bad : ¬ v.Accepts y) :
    ¬ ∃ z, items[i]? = some z ∧ v.Accepts z := by
  rintro ⟨z, again, good⟩
  cases here.symm.trans again
  exact bad good

theorem not_accepted_member {inners : List Validator} {items : List Value} {i : Nat} (asked : inners[i]? = some w)
    (here : items[i]? = some y) (bad : ¬ w.Accepts y) :
    ¬ ∃ u z, inners[i]? = some u ∧ items[i]? = some z ∧ u.Accepts z := by
  rintro ⟨u, z, asked', again, good⟩
  cases asked.symm.trans asked'
  cases here.symm.trans again
  exact bad good

/-- A key that lacks, or whose value is rejected, is not among those that are there and accepted. -/
theorem not_accepted_field {schema : List (Text × Validator)} {entries : List (Value × Value)} {i : Nat} {key : Text}
    (asked : schema[i]? = some (key, w)) (bad : ∀ z, Value.lookup? entries (.str key) = some z → ¬ w.Accepts z) :
    ¬ ∃ field z, schema[i]? = some field ∧ Value.lookup? entries (.str field.1) = some z ∧ field.2.Accepts z := by
  rintro ⟨field, z, asked', here, accepts⟩
  cases asked.symm.trans asked'
  exact bad z here accepts

/-- Of the parts that are entered, only one is rejected. -/
theorem enters_unique (enters : v.Enters x place w y) (rejects : w.Rejects y t) (enters' : v.Enters x place' w' y')
    (rejects' : w'.Rejects y' t') : place = place' ∧ w = w' ∧ y = y' := by
  have accepts := not_accepts_of_rejects rejects
  have accepts' := not_accepts_of_rejects rejects'
  cases enters with
  | item found here before =>
    cases enters' with
    | item found' here' before' =>
      cases found.symm.trans found'
      obtain rfl := first_unique before (not_accepted_item here accepts) before' (not_accepted_item here' accepts')
      cases here.symm.trans here'
      exact ⟨rfl, rfl, rfl⟩
  | member found _ asked here before =>
    cases enters' with
    | member found' _ asked' here' before' =>
      cases found.symm.trans found'
      obtain rfl := first_unique before (not_accepted_member asked here accepts) before'
        (not_accepted_member asked' here' accepts')
      cases asked.symm.trans asked'
      cases here.symm.trans here'
      exact ⟨rfl, rfl, rfl⟩
  | field asked here before =>
    cases enters' with
    | field asked' here' before' =>
      obtain rfl := first_unique before
        (not_accepted_field asked fun z again => by cases here.symm.trans again; exact accepts) before'
        (not_accepted_field asked' fun z again => by cases here'.symm.trans again; exact accepts')
      cases asked.symm.trans asked'
      cases here.symm.trans here'
      exact ⟨rfl, rfl, rfl⟩

/-- A value that offends on its own account has no part that is entered and rejected. -/
theorem not_enters_of_offends (offends : v.Offends x s) (enters : v.Enters x place w y) : ¬ w.Rejects y t := by
  intro rejects
  have accepts := not_accepts_of_rejects rejects
  cases offends with
  | type unfit _ => exact unfit enters.fits
  | length found other _ =>
    cases enters with
    | member found' long _ _ _ =>
      cases found.symm.trans found'
      exact other long
  | missing asked lacking before =>
    cases enters with
    | field asked' here' before' =>
      obtain rfl := first_unique before
        (not_accepted_field asked fun z again => by rw [lacking] at again; cases again) before'
        (not_accepted_field asked' fun z again => by cases here'.symm.trans again; exact accepts)
      cases asked.symm.trans asked'
      cases lacking.symm.trans here'

end OffenceLemmas

/-- Only one place that is reached offends. -/
theorem Reaches.unique {v w w' : Validator} {x y y' : Value} {path path' : List Place} {s s' : Text}
    (structural : v.Structural) (reaches : v.Reaches x path w y) (offends : w.Offends y s)
    (reaches' : v.Reaches x path' w' y') (offends' : w'.Offends y' s') :
    path = path' ∧ w = w' ∧ y = y' ∧ s = s' := by
  induction reaches generalizing path' with
  | here v x =>
    cases reaches' with
    | here _ _ =>
      have rejects := (rejects_iff structural).mpr (.inl offends)
      exact ⟨rfl, rfl, rfl, rejects_unique rejects ((rejects_iff structural).mpr (.inl offends'))⟩
    | inside enters rest =>
      have rejects := (rejects_iff_reaches (enters.structural structural)).mpr ⟨_, _, _, _, rest, offends', rfl⟩
      exact absurd rejects (not_enters_of_offends offends enters)
  | inside enters rest ih =>
    have rejects := (rejects_iff_reaches (enters.structural structural)).mpr ⟨_, _, _, _, rest, offends, rfl⟩
    cases reaches' with
    | here _ _ => exact absurd rejects (not_enters_of_offends offends' enters)
    | inside enters' rest' =>
      have rejects' := (rejects_iff_reaches (enters'.structural structural)).mpr ⟨_, _, _, _, rest', offends', rfl⟩
      obtain ⟨rfl, rfl, rfl⟩ := enters_unique enters rejects enters' rejects'
      obtain ⟨rfl, same⟩ := ih (enters.structural structural) offends rest'
      exact ⟨rfl, same⟩

theorem Structural.regular {v : Validator} (structural : v.Structural) : v.Regular := by
  induction structural with
  | string => exact .string
  | number => exact .number
  | boolean => exact .boolean
  | null => exact .null
  | array _ ih => exact .array ih
  | record _ ih => exact .record ih
  | tupleOf _ ih => exact .tupleOf ih

/-- What the rejection of a value by a structural validator says.

* A value is rejected with a message exactly if the message is made of the labels along a path and of what is wrong with
  the value at its end. The path leads from the value and its validator to a part and the validator for it; all parts
  before each step are there and accepted.
* There is only one such path, and one thing that is said of its end.
* A value without long integers that is not accepted is rejected. -/
theorem rejection_located {v : Validator} (structural : v.Structural) (x : Value) :
    (∀ t, v.Rejects x t ↔
      ∃ path w y s, v.Reaches x path w y ∧ w.Offends y s ∧ t = path.flatMap Place.label ++ s) ∧
    (∀ path w y s path' w' y' s', v.Reaches x path w y → w.Offends y s → v.Reaches x path' w' y' → w'.Offends y' s' →
      path = path' ∧ w = w' ∧ y = y' ∧ s = s') ∧
    (x.Short → ¬ v.Accepts x → ∃ t, v.Rejects x t) := by
  refine ⟨fun t => rejects_iff_reaches structural, fun path w y s path' w' y' s' reaches offends reaches' offends' =>
    reaches.unique structural offends reaches' offends', fun short outside => ?_⟩
  have judged := check_judges structural.regular short
  obtain ⟨r, rejected⟩ := judged.rejected_iff.mpr fun inside => outside (judged.accepted_iff.mpr inside)
  exact ⟨r.message, r, rejected, rfl⟩

namespace Sample

/-- A dictionary with rows of a text and a number. -/
def table : Validator := .record [(text "rows", .array (.tupleOf [.string, .number])), (text "name", .string)]

/-- The second of its rows has a text in place of a number. It has no name either, which comes later. -/
def badTable : Value :=
  .dict [(.str (text "rows"), .list [.tuple [.str (text "a"), .int 1], .tuple [.str (text "b"), .str (text "2")]])]

theorem table_structural : table.Structural := by
  have row : (Validator.tupleOf [.string, .number]).Structural :=
    .tupleOf (List.forall_mem_cons.mpr ⟨.string, List.forall_mem_singleton.mpr .number⟩)
  exact .record (List.forall_mem_cons.mpr ⟨.array row, List.forall_mem_singleton.mpr .string⟩)

theorem badTable_short : badTable.Short := by
  have row {a b : Value} (first : a.Short) (second : b.Short) : (Value.tuple [a, b]).Short :=
    .tuple (List.forall_mem_cons.mpr ⟨first, List.forall_mem_singleton.mpr second⟩)
  have rows := Value.Short.list (List.forall_mem_cons.mpr
    ⟨row (.str (text "a")) (.int (n := 1) (by decide)),
      List.forall_mem_singleton.mpr (row (.str (text "b")) (.str (text "2")))⟩)
  exact .dict (List.forall_mem_singleton.mpr (.str _)) (List.forall_mem_singleton.mpr rows)

end Sample

open Sample

/-- The message leads through the rows and the second of them to the text. -/
theorem badTable_located : table.Structural ∧ badTable.Short ∧ ¬ table.Accepts badTable ∧
    ∃ path w y s, table.Reaches badTable path w y ∧ w.Offends y s ∧
      text "Invalid key rows: Invalid index 1: Invalid index 1: Expected number, got '2'" =
        path.flatMap Place.label ++ s := by
  have rejects : table.Rejects badTable
      (text "Invalid key rows: Invalid index 1: Invalid index 1: Expected number, got '2'") := ⟨_, rfl, by decide⟩
  exact ⟨table_structural, badTable_short, not_accepts_of_rejects rejects,
    ((rejection_located table_structural badTable).1 _).mp rejects⟩

end Validator
end Descent
