import Mathlib.Data.List.Basic
import Mathlib.Tactic.SplitIfs
import Descent.Diagnostic.Layout
import Descent.Proofs.Json.Completeness

/-!
# Diagnostics as JSON

The object layout of a diagnostic is a text of the JSON grammar: it is the written form of a syntax tree that spells
every string as the layout escapes it. The grammar therefore reads the layout back, and what it reads are the fields of
the diagnostic.

Results:
1. `written_spellings`, `decode_spellings`: the escaped form of a text denotes the text.
2. `ofNat_isDigit`, `toNat_ofNat`: the decimal form of a number is a JSON number and denotes the number.
3. `written_ofFields`: the object layout is the written form of an object.
4. `read_object_layout`: reading it gives the fields of the diagnostic.
-/

namespace Descent.Json

/-! ## 1. Strings -/

/-- The last hexadecimal digit of a number, in a small letter. -/
def lastHexDigit (n : Nat) : HexDigit :=
  ⟨CodePoint.ofHexValue (n % 16), by
    have digits : ∀ k < 16, (CodePoint.ofHexValue k).isHexDigit = true := by decide
    exact digits _ (Nat.mod_lt _ (by decide))⟩

/-- How the object layout spells a code point. -/
def spellingOf (c : CodePoint) : Spelling :=
  if quotation : c = 0x22 then .short .quotationMark
  else if backslash : c = 0x5C then .short .backslash
  else if c = 0x0A then .short .lineFeed
  else if c = 0x0D then .short .carriageReturn
  else if c = 0x09 then .short .tab
  else if c = 0x08 then .short .backspace
  else if c = 0x0C then .short .formFeed
  else if control : c < 0x20 then
    .unit (lastHexDigit (c / 16 / 16 / 16)) (lastHexDigit (c / 16 / 16)) (lastHexDigit (c / 16)) (lastHexDigit c)
  else .raw c ⟨quotation, backslash, Nat.le_of_not_lt control⟩

def spellings (t : Text) : List Spelling := t.map spellingOf

namespace DiagnosticLemmas

/-- Characters that may stand raw are spelled raw. -/
theorem spellingOf_legal {c : CodePoint} (legal : c ≠ 0x22 ∧ c ≠ 0x5C ∧ 0x20 ≤ c) :
    spellingOf c = .raw c legal ∧ Diagnostic.jsonPoint c = [c] := by
  obtain ⟨quotation, backslash, above⟩ := legal
  have other : ∀ k < 0x20, c ≠ k := fun k below => Nat.ne_of_gt (Nat.lt_of_lt_of_le below above)
  constructor
  · rw [spellingOf, dif_neg quotation, dif_neg backslash, if_neg (other 0x0A (by decide)),
      if_neg (other 0x0D (by decide)), if_neg (other 0x09 (by decide)), if_neg (other 0x08 (by decide)),
      if_neg (other 0x0C (by decide)), dif_neg (Nat.not_lt.mpr above)]
  · rw [Diagnostic.jsonPoint, if_neg quotation, if_neg backslash, if_neg (other 0x0A (by decide)),
      if_neg (other 0x0D (by decide)), if_neg (other 0x09 (by decide)), if_neg (other 0x08 (by decide)),
      if_neg (other 0x0C (by decide)), if_neg (Nat.not_lt.mpr above)]

/-- The spelling is written as the layout writes the code point, it means the code point, and only control characters
are spelled by their digits. -/
theorem spellingOf_spec (c : CodePoint) :
    (spellingOf c).written = Diagnostic.jsonPoint c ∧ (spellingOf c).meaning = c ∧
      ((spellingOf c).isUnit = true → c < 0x20) := by
  by_cases control : c < 0x20
  · have all : ∀ c < 0x20, (spellingOf c).written = Diagnostic.jsonPoint c ∧ (spellingOf c).meaning = c := by decide
    exact ⟨(all c control).1, (all c control).2, fun _ => control⟩
  · by_cases quotation : c = 0x22
    · subst quotation
      exact ⟨rfl, rfl, nofun⟩
    · by_cases backslash : c = 0x5C
      · subst backslash
        exact ⟨rfl, rfl, nofun⟩
      · obtain ⟨raw, written⟩ := spellingOf_legal ⟨quotation, backslash, Nat.le_of_not_lt control⟩
        rw [raw, written]
        exact ⟨rfl, rfl, nofun⟩

theorem written_spellingOf (c : CodePoint) : (spellingOf c).written = Diagnostic.jsonPoint c := (spellingOf_spec c).1

theorem meaning_spellingOf (c : CodePoint) : (spellingOf c).meaning = c := (spellingOf_spec c).2.1

end DiagnosticLemmas

open DiagnosticLemmas

theorem decode_spellings (t : Text) : Spelling.decode (spellings t) = t := by
  induction t with
  | nil => rfl
  | cons c t ih =>
    have apart : (spellingOf c).isUnit = true → CodePoint.isHighSurrogate (spellingOf c).meaning = true →
        ∀ q ∈ (spellings t).head?, q.isUnit = true → CodePoint.isLowSurrogate q.meaning = false := by
      intro unit high
      have control : c < 0x20 := (spellingOf_spec c).2.2 unit
      simp only [meaning_spellingOf, CodePoint.isHighSurrogate, Bool.and_eq_true, decide_eq_true_eq] at high
      exact absurd (Nat.lt_of_lt_of_le control (by decide)) (Nat.not_lt.mpr high.1)
    calc
      Spelling.decode (spellings (c :: t)) = (spellingOf c).meaning :: Spelling.decode (spellings t) :=
        Spelling.decode_cons apart
      _ = c :: t := by rw [meaning_spellingOf, ih]

theorem written_spellings (t : Text) : writtenString (spellings t) = Diagnostic.jsonString t := by
  rw [writtenString, spellings, List.flatMap_map, Diagnostic.jsonString, List.cons_append]
  simp only [written_spellingOf]

/-! ## 2. Numbers -/

theorem ofNat_ne_nil (n : Nat) : Decimal.ofNat n ≠ [] := by
  rw [Decimal.ofNat, Ne, List.map_eq_nil_iff]
  exact Nat.toDigits_ne_nil

theorem ofNat_isDigit (n : Nat) : ∀ c ∈ Decimal.ofNat n, c.isDigit = true := by
  intro c hc
  obtain ⟨digit, mem, rfl⟩ := List.mem_map.mp hc
  have isDigit : digit.isDigit = true := Nat.isDigit_of_mem_toDigits (by decide) (by decide) mem
  simpa [Char.isDigit, CodePoint.isDigit, UInt32.le_iff_toNat_le] using isDigit

/-- Only zero starts with the digit zero. -/
theorem head?_ofNat {n : Nat} (positive : 0 < n) : (Decimal.ofNat n).head? ≠ some 0x30 := by
  induction n using Nat.strongRecOn with
  | ind n ih =>
    rcases Nat.lt_or_ge n 10 with single | more
    · have all : ∀ n < 10, 0 < n → (Decimal.ofNat n).head? ≠ some 0x30 := by decide
      exact all n single positive
    · have front : (Decimal.ofNat n).head? = (Decimal.ofNat (n / 10)).head? := by
        rw [Decimal.ofNat, Nat.toDigits_of_base_le (by decide) more, List.map_append]
        exact List.head?_append_of_ne_nil _ (ofNat_ne_nil (n / 10))
      rw [front]
      exact ih (n / 10) (by omega) (by omega)

theorem toNat_ofNat (n : Nat) : Decimal.toNat (Decimal.ofNat n) = n := by
  rw [Decimal.toNat, Decimal.ofNat, List.foldl_map]
  exact Nat.ofDigitChars_ten_toDigits

/-- A natural number in decimal. -/
def natural (n : Nat) : Number where
  negative := false
  integral := ⟨Decimal.ofNat n, ofNat_ne_nil n, ofNat_isDigit n⟩
  leading := by
    rcases Nat.eq_zero_or_pos n with rfl | positive
    · exact .inl rfl
    · exact .inr (head?_ofNat positive)
  fraction := none
  exponent := none

theorem written_natural (n : Nat) : (natural n).written = Decimal.ofNat n := by
  simp [Number.written, natural, Number.writtenSign, Number.writtenFraction, Number.writtenExponent]

theorem value_natural (n : Nat) : (natural n).value = .int n := by
  simp [Number.value, natural, toNat_ofNat]

/-! ## 3. Lists and objects -/

/-- That many spaces. -/
def spaces (n : Nat) : Blanks := ⟨List.replicate n 0x20, fun _ mem => .inl (List.eq_of_mem_replicate mem)⟩

namespace Tree

def ofText (t : Text) : Tree := .scalar (.string (spellings t))

def ofNat (n : Nat) : Tree := .scalar (.number (natural n))

/-- An array of strings. -/
def ofTexts : List Text → Tree
  | [] => .emptyArray (spaces 0)
  | t :: more => .array (.padded (spaces 0) (ofText t) (spaces 0)) (others more)
where
  /-- The strings behind the first one. -/
  others : List Text → Items
    | [] => .nil
    | t :: more => .cons (.padded (spaces 1) (ofText t) (spaces 0)) (others more)

end Tree

/-- A key with its value. -/
def Member.ofField (before : Blanks) (field : Text × Tree) : Member :=
  .keyed before (spellings field.1) (spaces 0) (.padded (spaces 1) field.2 (spaces 0))

/-- An object with the given fields. -/
def Object.ofFields : List (Text × Tree) → Object
  | [] => .empty (spaces 0)
  | field :: more => .members (.ofField (spaces 0) field) (others more)
where
  /-- The fields behind the first one. -/
  others : List (Text × Tree) → Members
    | [] => .nil
    | field :: more => .cons (.ofField (spaces 1) field) (others more)

namespace DiagnosticLemmas

theorem joined_cons (part : Text) (parts : List Text) :
    Diagnostic.joined ", " (part :: parts) = part ++ parts.flatMap fun p => 0x2C :: 0x20 :: p := by
  induction parts generalizing part with
  | nil => simp [Diagnostic.joined]
  | cons next parts ih =>
    have rest : Diagnostic.joined ", " (next :: parts) = next ++ parts.flatMap fun p => 0x2C :: 0x20 :: p := ih next
    rw [Diagnostic.joined] at rest ⊢
    rw [List.intercalate_cons_cons, rest, List.flatMap_cons, List.append_assoc]
    rfl

theorem written_ofTexts (ts : List Text) :
    (Tree.ofTexts ts).written = text "[" ++ Diagnostic.joined ", " (ts.map Diagnostic.jsonString) ++ text "]" := by
  have others : ∀ more : List Text, (Tree.ofTexts.others more).written =
      (more.map Diagnostic.jsonString).flatMap fun p => 0x2C :: 0x20 :: p := by
    intro more
    induction more with
    | nil => rfl
    | cons t more ih =>
      simp [Tree.ofTexts.others, Items.written, Item.written, Tree.ofText, Tree.written, Scalar.written,
        written_spellings, spaces, ih]
  cases ts with
  | nil => rfl
  | cons t more =>
    simp [Tree.ofTexts, Tree.written, Item.written, Tree.ofText, Scalar.written, written_spellings, spaces, others,
      joined_cons, text]

theorem written_ofField (before : Blanks) (field : Text × Tree) :
    (Member.ofField before field).written =
      before.val ++ (Diagnostic.jsonString field.1 ++ text ": " ++ field.2.written) := by
  simp [Member.ofField, Member.written, Item.written, written_spellings, spaces, text]

end DiagnosticLemmas

theorem written_ofFields (fields : List (Text × Tree)) :
    (Object.ofFields fields).written =
      text "\x7b" ++ Diagnostic.joined ", " (fields.map fun field =>
        Diagnostic.jsonString field.1 ++ text ": " ++ field.2.written) ++ text "\x7d" := by
  have others : ∀ more : List (Text × Tree), (Object.ofFields.others more).written =
      (more.map fun field => Diagnostic.jsonString field.1 ++ text ": " ++ field.2.written).flatMap
        fun p => 0x2C :: 0x20 :: p := by
    intro more
    induction more with
    | nil => rfl
    | cons field more ih => simp [Object.ofFields.others, Members.written, written_ofField, spaces, ih]
  cases fields with
  | nil => rfl
  | cons field more =>
    simp [Object.ofFields, Object.written, written_ofField, spaces, others, joined_cons, text]

/-- A value that is no object, holds no array or object, and has no integer with too many digits. -/
structure Tree.Flat (tree : Tree) : Prop where
  closed : tree.openArrays = 0
  fits : tree.Fits
  shallow : tree.nesting ≤ 1

namespace DiagnosticLemmas

theorem flat_ofText (t : Text) : (Tree.ofText t).Flat := ⟨rfl, trivial, Nat.zero_le 1⟩

theorem flat_ofNat {n : Nat} (short : (Decimal.ofNat n).length ≤ Decimal.digitLimit) : (Tree.ofNat n).Flat :=
  ⟨rfl, fun _ _ => short, Nat.zero_le 1⟩

theorem flat_ofTexts (ts : List Text) : (Tree.ofTexts ts).Flat := by
  have others : ∀ more : List Text, (Tree.ofTexts.others more).openArrays = 0 ∧ (Tree.ofTexts.others more).Fits ∧
      (Tree.ofTexts.others more).nesting = 0 := by
    intro more
    induction more with
    | nil => exact ⟨rfl, trivial, rfl⟩
    | cons t more ih =>
      obtain ⟨closed, fits, shallow⟩ := ih
      exact ⟨by rw [Tree.ofTexts.others, Items.openArrays, closed]; rfl, ⟨trivial, fits⟩,
        by rw [Tree.ofTexts.others, Items.nesting, shallow]; rfl⟩
  cases ts with
  | nil => exact ⟨rfl, trivial, Nat.le_refl 1⟩
  | cons t more =>
    obtain ⟨closed, fits, shallow⟩ := others more
    exact ⟨by rw [Tree.ofTexts, Tree.openArrays, closed]; rfl, ⟨trivial, fits⟩,
      by rw [Tree.ofTexts, Tree.nesting, shallow]; exact Nat.le_refl 1⟩

theorem value_ofText (t : Text) : (Tree.ofText t).value = .str t := congrArg Value.str (decode_spellings t)

theorem value_ofTexts (ts : List Text) : (Tree.ofTexts ts).value = .list (ts.map .str) := by
  have others : ∀ more : List Text, (Tree.ofTexts.others more).values = more.map .str := by
    intro more
    induction more with
    | nil => rfl
    | cons t more ih => rw [Tree.ofTexts.others, Items.values, ih, Item.value, value_ofText, List.map_cons]
  cases ts with
  | nil => rfl
  | cons t more => rw [Tree.ofTexts, Tree.value, others, Item.value, value_ofText, List.map_cons]

/-- Around flat values there is one object. -/
theorem ofFields_flat {fields : List (Text × Tree)} (flat : ∀ field ∈ fields, field.2.Flat) :
    (Object.ofFields fields).openArrays = 0 ∧ (Object.ofFields fields).Fits ∧ (Object.ofFields fields).nesting ≤ 2 := by
  have others : ∀ more : List (Text × Tree), (∀ field ∈ more, field.2.Flat) →
      (Object.ofFields.others more).openArrays = 0 ∧ (Object.ofFields.others more).Fits ∧
        (Object.ofFields.others more).nesting ≤ 1 := by
    intro more flat
    induction more with
    | nil => exact ⟨rfl, trivial, Nat.zero_le 1⟩
    | cons field more ih =>
      obtain ⟨first, flat⟩ := List.forall_mem_cons.mp flat
      obtain ⟨closed, fits, shallow⟩ := ih flat
      exact ⟨Nat.add_eq_zero_iff.mpr ⟨first.closed, closed⟩, ⟨first.fits, fits⟩,
        Nat.max_le.mpr ⟨first.shallow, shallow⟩⟩
  cases fields with
  | nil => exact ⟨rfl, trivial, Nat.le_succ 1⟩
  | cons field more =>
    obtain ⟨first, flat⟩ := List.forall_mem_cons.mp flat
    obtain ⟨closed, fits, shallow⟩ := others more flat
    exact ⟨Nat.add_eq_zero_iff.mpr ⟨first.closed, closed⟩, ⟨first.fits, fits⟩,
      Nat.add_le_add_left (Nat.max_le.mpr ⟨first.shallow, shallow⟩) 1⟩

theorem entries_ofFields (fields : List (Text × Tree)) :
    (Object.ofFields fields).entries = fields.map fun field => (field.1, field.2.value) := by
  have entry : ∀ before field, (Member.ofField before field).entry = (field.1, field.2.value) := fun before field =>
    Prod.ext (decode_spellings field.1) rfl
  have others : ∀ more : List (Text × Tree), (Object.ofFields.others more).entries =
      more.map fun field => (field.1, field.2.value) := by
    intro more
    induction more with
    | nil => rfl
    | cons field more ih => rw [Object.ofFields.others, Members.entries, entry, ih, List.map_cons]
  cases fields with
  | nil => rfl
  | cons field more => rw [Object.ofFields, Object.entries, entry, others, List.map_cons]

theorem eraseDups_of_nodup {keys : List Text} (distinct : keys.Nodup) : keys.eraseDups = keys := by
  induction keys with
  | nil => rfl
  | cons key keys ih =>
    obtain ⟨new, distinct⟩ := List.nodup_cons.mp distinct
    have others : keys.filter (fun other => !other == key) = keys :=
      List.filter_eq_self.mpr fun other mem => by simpa using fun (same : other = key) => new (same ▸ mem)
    rw [List.eraseDups_cons, others, ih distinct]

/-- Entries of different keys are those of the dictionary. -/
theorem lastWins_of_nodup {entries : List (Text × Value)} (distinct : (entries.map Prod.fst).Nodup) :
    lastWins entries = entries.map fun entry => (.str entry.1, entry.2) := by
  rw [lastWins, eraseDups_of_nodup distinct, List.map_map]
  refine List.map_congr_left fun entry mem => ?_
  obtain ⟨front, back, rfl⟩ := List.append_of_mem mem
  rw [List.map_append, List.map_cons, List.nodup_append, List.nodup_cons] at distinct
  obtain ⟨-, ⟨new, -⟩, -⟩ := distinct
  have found : (front ++ entry :: back).reverse.lookup entry.1 = some entry.2 := by
    refine List.lookup_eq_some_iff.mpr ⟨back.reverse, front.reverse, by simp, fun other later => ?_⟩
    have later : other.1 ∈ back.map Prod.fst := List.mem_map_of_mem (List.mem_reverse.mp later)
    simpa using fun (same : entry.1 = other.1) => new (same ▸ later)
  rw [Function.comp_apply, found, Option.getD_some]

end DiagnosticLemmas

end Descent.Json

namespace Descent.Diagnostic

open Json Json.DiagnosticLemmas

/-! ## 4. Diagnostics -/

variable {α β : Type}

/-- The fields of the JSON object, in order: the first four always, the numbers of a span if there is one, what was
expected if anything is, and a hint if it says something. Texts, numbers and lists of texts are given in some form. -/
def fieldsIn (ofText : Text → α) (ofNat : Nat → α) (ofTexts : List Text → α) (d : Diagnostic) : List (Text × α) :=
  [(text "code", ofText d.code.name), (text "code_value", ofNat d.code.number), (text "message", ofText d.message),
    (text "severity", ofText d.severity)] ++
  (match d.span with
    | none => []
    | some span => [(text "line", ofNat span.position.line), (text "column", ofNat span.position.column),
        (text "start", ofNat span.start), (text "end", ofNat span.stop)]) ++
  (if d.expected = [] then [] else [(text "expected", ofTexts d.expected)]) ++
  (match d.hint with
    | none => []
    | some hint => if hint = [] then [] else [(text "hint", ofText hint)])

/-- The fields as values. -/
def entries (d : Diagnostic) : List (Text × Value) :=
  d.fieldsIn .str (fun n => .int n) fun ts => .list (ts.map .str)

/-- The fields as syntax trees. -/
def trees (d : Diagnostic) : List (Text × Tree) := d.fieldsIn .ofText .ofNat .ofTexts

/-- The numbers of a span have no more digits than may be converted. -/
def Short (d : Diagnostic) : Prop :=
  ∀ span, d.span = some span → ∀ n ∈ [span.position.line, span.position.column, span.start, span.stop],
    (Decimal.ofNat n).length ≤ Decimal.digitLimit

variable {ofText : Text → α} {ofNat : Nat → α} {ofTexts : List Text → α}

theorem map_fieldsIn (f : α → β) (d : Diagnostic) :
    ((d.fieldsIn ofText ofNat ofTexts).map fun field => (field.1, f field.2)) =
      d.fieldsIn (fun t => f (ofText t)) (fun n => f (ofNat n)) fun ts => f (ofTexts ts) := by
  simp only [fieldsIn, List.map_append]
  congr 1
  · congr 1
    · cases d.span <;> rfl
    · split_ifs <;> rfl
  · cases d.hint with
    | none => rfl
    | some hint => dsimp only; split_ifs <;> rfl

theorem members_eq_fieldsIn (d : Diagnostic) :
    d.members = d.fieldsIn jsonString Decimal.ofNat fun ts =>
      text "[" ++ joined ", " (ts.map jsonString) ++ text "]" := by
  simp only [members, fieldsIn, List.isEmpty_iff]
  congr 1
  cases hint : d.hint with
  | none => rw [shownHint, hint, Option.filter_none]
  | some t => cases t <;> rw [shownHint, hint] <;> rfl

/-- The object layout is the written form of an object. -/
theorem jsonObject_eq_written (d : Diagnostic) : d.jsonObject = (Object.ofFields d.trees).written := by
  have members : d.members = d.trees.map fun field => (field.1, field.2.written) := by
    rw [members_eq_fieldsIn, trees, map_fieldsIn]
    congr 1
    · exact funext fun t => (written_spellings t).symm
    · exact funext fun n => (written_natural n).symm
    · exact funext fun ts => (written_ofTexts ts).symm
  rw [jsonObject, members, List.map_map, written_ofFields]
  rfl

theorem entries_eq_trees (d : Diagnostic) : d.entries = d.trees.map fun field => (field.1, field.2.value) := by
  rw [trees, map_fieldsIn, entries]
  congr 1
  · exact funext fun t => (value_ofText t).symm
  · exact funext fun n => (value_natural n).symm
  · exact funext fun ts => (value_ofTexts ts).symm

/-- No two fields have one key. -/
theorem nodup_fieldsIn (d : Diagnostic) : ((d.fieldsIn ofText ofNat ofTexts).map Prod.fst).Nodup := by
  have among : ((d.fieldsIn ofText ofNat ofTexts).map Prod.fst).Sublist
      ([text "code", text "code_value", text "message", text "severity"] ++
        [text "line", text "column", text "start", text "end"] ++ [text "expected"] ++ [text "hint"]) := by
    simp only [fieldsIn, List.map_append]
    refine ((List.Sublist.refl _).append ?_).append ?_ |>.append ?_
    · cases d.span with
      | none => exact List.nil_sublist _
      | some span => exact List.Sublist.refl _
    · split_ifs
      · exact List.nil_sublist _
      · exact List.Sublist.refl _
    · cases d.hint with
      | none => exact List.nil_sublist _
      | some hint =>
        dsimp only
        split_ifs
        · exact List.nil_sublist _
        · exact List.Sublist.refl _
  exact List.Nodup.sublist among (by decide)

theorem digits_of_code (code : Code) : (Decimal.ofNat code.number).length ≤ Decimal.digitLimit := by
  cases code <;> decide

theorem flat_trees {d : Diagnostic} (short : d.Short) : ∀ field ∈ d.trees, field.2.Flat := by
  simp only [trees, fieldsIn, List.forall_mem_append]
  refine ⟨⟨⟨?_, ?_⟩, ?_⟩, ?_⟩
  · simp only [List.forall_mem_cons, List.not_mem_nil, false_imp_iff, implies_true, and_true]
    exact ⟨flat_ofText _, flat_ofNat (digits_of_code d.code), flat_ofText _, flat_ofText _⟩
  · cases present : d.span with
    | none => exact List.forall_mem_nil _
    | some span =>
      have short := short span present
      simp only [List.forall_mem_cons, List.not_mem_nil, false_imp_iff, implies_true, and_true] at short ⊢
      obtain ⟨line, column, start, stop⟩ := short
      exact ⟨flat_ofNat line, flat_ofNat column, flat_ofNat start, flat_ofNat stop⟩
  · split_ifs
    · exact List.forall_mem_nil _
    · exact List.forall_mem_singleton.mpr (flat_ofTexts _)
  · cases d.hint with
    | none => exact List.forall_mem_nil _
    | some hint =>
      dsimp only
      split_ifs
      · exact List.forall_mem_nil _
      · exact List.forall_mem_singleton.mpr (flat_ofText _)

end Descent.Diagnostic

namespace Descent.Json

open Diagnostic DiagnosticLemmas CompletenessLemmas SoundnessLemmas

/-- The object layout of a diagnostic is read as the dictionary of its fields. -/
theorem read_object_layout (d : Diagnostic) (short : d.Short) :
    (read { size := 0 } (.source (.ofText (d.render .object)))).value =
      .ok (.dict (d.entries.map fun entry => (.str entry.1, entry.2))) := by
  obtain ⟨closed, fits, shallow⟩ := ofFields_flat (flat_trees short)
  have distinct : (d.entries.map Prod.fst).Nodup := nodup_fieldsIn d
  have entries : (Object.ofFields d.trees).entries = d.entries := by rw [entries_ofFields, entries_eq_trees]
  have room : (Object.ofFields d.trees).nesting < ({ size := 0 } : Limits).room :=
    Nat.lt_of_le_of_lt shallow (by decide)
  rw [render, jsonObject_eq_written, ← lastWins_of_nodup distinct, ← entries]
  refine read_whole_eq_ok_iff.mpr
    ⟨fun limited => absurd limited.1 (by decide), Grammar.hasFrames_of_steps rfl, ?_,
      outcome_value (.object (.ofFields d.trees))⟩
  have read := (Item.padded (spaces 0) (.object (.ofFields d.trees)) (spaces 0)).reads
    (s := .ofText (Object.ofFields d.trees).written) closed fits room closes_nil
  simpa [Item.written, Item.value, Tree.written, Tree.value, spaces] using read

/-- A diagnostic with all its fields, whose texts hold a quotation mark, a backslash, control characters, a line
separator and two halves of a surrogate pair. -/
def Sample.harsh : Diagnostic where
  code := .expected
  message := [0x22, 0x5C, 0x00, 0x0A, 0x1F, 0x7F, 0x2028]
  span := some ⟨3, 5, Position.first.advance 0x0A, Nat.le_add_right 3 2⟩
  hint := some [0xD83D, 0xDE00]
  expected := [[], [0xDE00, 0x08]]
  severity := text "warning"

/-- Every code point comes back, and the two halves stay apart. -/
theorem read_harsh_layout :
    Sample.harsh.Short ∧
      (read { size := 0 } (.source (.ofText (Sample.harsh.render .object)))).value =
        .ok (.dict [
          (.str (text "code"), .str (text "EXPECTED")), (.str (text "code_value"), .int 3002),
          (.str (text "message"), .str [0x22, 0x5C, 0x00, 0x0A, 0x1F, 0x7F, 0x2028]),
          (.str (text "severity"), .str (text "warning")),
          (.str (text "line"), .int 2), (.str (text "column"), .int 1),
          (.str (text "start"), .int 3), (.str (text "end"), .int 5),
          (.str (text "expected"), .list [.str [], .str [0xDE00, 0x08]]),
          (.str (text "hint"), .str [0xD83D, 0xDE00])]) := by
  have short : Sample.harsh.Short := by
    rintro _ ⟨⟩
    decide
  exact ⟨short, read_object_layout Sample.harsh short⟩

end Descent.Json
