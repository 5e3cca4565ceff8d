import Descent.Proofs.Validation.Denotation

/-!
# The order in validators

Alternatives and checks in a row are tried one after the other, and the keys of a record are looked up one after the
other. The order decides what a rejection says, and which of several equal values comes back. It does not decide whether
a value is accepted: a validator that has been reordered, at any depth, stands for the same set and has the same
literals to answer with.

Results:
1. `Reordered.alike`: what reordering keeps.
2. `check_denotes`: every regular validator decides its set, and so does every reordering of it.
-/

namespace Descent.Validator

/-! ## 1. Reordering -/

/-- `v.Reordered w`: `w` is `v` with the alternatives, the checks in a row and the keys of records in any order, at any
depth. It is the least relation that allows each of these and goes into every part of a validator. The items of a tuple
stay where they are. -/
inductive Reordered : Validator → Validator → Prop
  | refl (v : Validator) : Reordered v v
  | trans {u v w : Validator} : Reordered u v → Reordered v w → Reordered u w
  | alternatives {inners inners' : List Validator} :
      inners.Perm inners' → Reordered (.oneOf inners) (.oneOf inners')
  | steps {inners inners' : List Validator} : inners.Perm inners' → Reordered (.allOf inners) (.allOf inners')
  | keys {schema schema' : List (Text × Validator)} :
      schema.Perm schema' → Reordered (.record schema) (.record schema')
  | array {v w : Validator} : Reordered v w → Reordered (.array v) (.array w)
  | record {schema schema' : List (Text × Validator)} : schema.length = schema'.length →
      (∀ i (_ : i < schema.length) (_ : i < schema'.length), schema[i].1 = schema'[i].1) →
      (∀ i (_ : i < schema.length) (_ : i < schema'.length), Reordered schema[i].2 schema'[i].2) →
      Reordered (.record schema) (.record schema')
  | tupleOf {inners inners' : List Validator} : inners.length = inners'.length →
      (∀ i (_ : i < inners.length) (_ : i < inners'.length), Reordered inners[i] inners'[i]) →
      Reordered (.tupleOf inners) (.tupleOf inners')
  | oneOf {inners inners' : List Validator} : inners.length = inners'.length →
      (∀ i (_ : i < inners.length) (_ : i < inners'.length), Reordered inners[i] inners'[i]) →
      Reordered (.oneOf inners) (.oneOf inners')
  | allOf {inners inners' : List Validator} : inners.length = inners'.length →
      (∀ i (_ : i < inners.length) (_ : i < inners'.length), Reordered inners[i] inners'[i]) →
      Reordered (.allOf inners) (.allOf inners')
  | satisfying {v w : Validator} (accept : Value → Bool) (rejection : Option Rejection) :
      Reordered v w → Reordered (.satisfying v accept rejection) (.satisfying w accept rejection)

/-- Two validators with the same set and the same literals to answer with, both regular or neither. -/
structure Alike (v w : Validator) : Prop where
  admits : ∀ x, v.Admits x ↔ w.Admits x
  answers : ∀ x, v.Answers x ↔ w.Answers x
  regular : v.Regular ↔ w.Regular

namespace ReorderingLemmas

variable {α : Type} {as bs : List α} {P Q : α → Prop}

theorem forall_mem_iff_of_pointwise (long : as.length = bs.length)
    (each : ∀ i (_ : i < as.length) (_ : i < bs.length), P as[i] ↔ Q bs[i]) :
    (∀ a ∈ as, P a) ↔ ∀ b ∈ bs, Q b := by
  constructor
  · intro all b member
    obtain ⟨i, below, rfl⟩ := List.getElem_of_mem member
    have below' : i < as.length := long ▸ below
    exact (each i below' below).mp (all _ (List.getElem_mem below'))
  · intro all a member
    obtain ⟨i, below, rfl⟩ := List.getElem_of_mem member
    have below' : i < bs.length := long ▸ below
    exact (each i below below').mpr (all _ (List.getElem_mem below'))

theorem exists_mem_iff_of_pointwise (long : as.length = bs.length)
    (each : ∀ i (_ : i < as.length) (_ : i < bs.length), P as[i] ↔ Q bs[i]) :
    (∃ a ∈ as, P a) ↔ ∃ b ∈ bs, Q b := by
  have none := forall_mem_iff_of_pointwise (P := (¬ P ·)) (Q := (¬ Q ·)) long fun i below below' =>
    not_congr (each i below below')
  simpa using not_congr none

theorem forall_mem_iff_of_perm (perm : as.Perm bs) : (∀ a ∈ as, P a) ↔ ∀ b ∈ bs, P b :=
  forall_congr' fun _ => imp_congr_left perm.mem_iff

theorem exists_mem_iff_of_perm (perm : as.Perm bs) : (∃ a ∈ as, P a) ↔ ∃ b ∈ bs, P b :=
  exists_congr fun _ => and_congr_left fun _ => perm.mem_iff

end ReorderingLemmas

open ReorderingLemmas

/-- Reordering keeps the set of a validator and the literals that it may answer with. -/
theorem Reordered.alike {v w : Validator} (reordered : v.Reordered w) : v.Alike w := by
  induction reordered with
  | refl v => exact ⟨fun _ => .rfl, fun _ => .rfl, .rfl⟩
  | trans _ _ first second =>
    exact ⟨fun x => (first.admits x).trans (second.admits x), fun x => (first.answers x).trans (second.answers x),
      first.regular.trans second.regular⟩
  | alternatives perm =>
    constructor
    · intro x
      rw [admits_oneOf, admits_oneOf, exists_mem_iff_of_perm perm]
    · intro x
      rw [answers_oneOf, answers_oneOf, exists_mem_iff_of_perm perm]
    · rw [regular_oneOf, regular_oneOf, forall_mem_iff_of_perm perm]
  | steps perm =>
    constructor
    · intro x
      rw [admits_allOf, admits_allOf, forall_mem_iff_of_perm perm]
    · exact fun _ => iff_of_false not_answers_allOf not_answers_allOf
    · rw [regular_allOf, regular_allOf, forall_mem_iff_of_perm perm]
  | keys perm =>
    constructor
    · intro x
      simp only [admits_record, forall_mem_iff_of_perm perm]
    · exact fun _ => iff_of_false not_answers_record not_answers_record
    · rw [regular_record, regular_record, forall_mem_iff_of_perm perm]
  | array _ ih =>
    constructor
    · intro x
      simp only [Admits, ih.admits]
    · exact fun _ => iff_of_false not_answers_array not_answers_array
    · rw [regular_array, regular_array, ih.regular]
  | record long keys _ ih =>
    constructor
    · intro x
      simp only [admits_record]
      refine exists_congr fun entries => and_congr_right fun _ =>
        forall_mem_iff_of_pointwise long fun i below below' => ?_
      simp only [keys i below below', (ih i below below').admits]
    · exact fun _ => iff_of_false not_answers_record not_answers_record
    · rw [regular_record, regular_record]
      exact forall_mem_iff_of_pointwise long fun i below below' => (ih i below below').regular
  | tupleOf long _ ih =>
    constructor
    · intro x
      simp only [Admits]
      refine exists_congr fun items => and_congr_right fun _ => and_congr (by rw [long]) (forall_congr' fun i => ?_)
      constructor
      · exact fun each below' here => ((ih i (long ▸ below') below').admits _).mp (each (long ▸ below') here)
      · exact fun each below here => ((ih i below (long ▸ below)).admits _).mpr (each (long ▸ below) here)
    · exact fun _ => iff_of_false not_answers_tupleOf not_answers_tupleOf
    · rw [regular_tupleOf, regular_tupleOf]
      exact forall_mem_iff_of_pointwise long fun i below below' => (ih i below below').regular
  | oneOf long _ ih =>
    constructor
    · intro x
      rw [admits_oneOf, admits_oneOf]
      exact exists_mem_iff_of_pointwise long fun i below below' => (ih i below below').admits x
    · intro x
      rw [answers_oneOf, answers_oneOf]
      exact exists_mem_iff_of_pointwise long fun i below below' => (ih i below below').answers x
    · rw [regular_oneOf, regular_oneOf]
      exact forall_mem_iff_of_pointwise long fun i below below' => (ih i below below').regular
  | allOf long _ ih =>
    constructor
    · intro x
      rw [admits_allOf, admits_allOf]
      exact forall_mem_iff_of_pointwise long fun i below below' => (ih i below below').admits x
    · exact fun _ => iff_of_false not_answers_allOf not_answers_allOf
    · rw [regular_allOf, regular_allOf]
      exact forall_mem_iff_of_pointwise long fun i below below' => (ih i below below').regular
  | satisfying accept rejection _ ih =>
    constructor
    · intro x
      simp only [Admits, ih.admits]
    · intro x
      rw [answers_satisfying, answers_satisfying, ih.answers]
    · rw [regular_satisfying, regular_satisfying, ih.regular]

/-! ## 2. Checking -/

/-- What regular validators come to, for every value without long integers.

* Checking comes to a verdict; it is not cut short by a value that cannot be displayed.
* A value is rejected exactly if it is outside the set of the validator, and accepted exactly if it is in it.
* What comes back of an accepted value is that value, or an equal one that a literal gives.
* The same values are accepted and rejected by every reordering, at any depth. What comes back may be another one of the
  values above. -/
theorem check_denotes (v : Validator) (regular : v.Regular) (x : Value) (short : x.Short) :
    (∃ verdict, v.check x = .ok verdict) ∧
    ((∃ r, v.check x = .ok (.rejected r)) ↔ ¬ v.Admits x) ∧
    ((∃ w, v.check x = .ok (.accepted w)) ↔ v.Admits x) ∧
    (∀ w, v.check x = .ok (.accepted w) → w = x ∨ v.Answers w ∧ x.eq w = true) ∧
    ∀ v', v.Reordered v' →
      ((∃ r, v'.check x = .ok (.rejected r)) ↔ ∃ r, v.check x = .ok (.rejected r)) ∧
      ((∃ w, v'.check x = .ok (.accepted w)) ↔ ∃ w, v.check x = .ok (.accepted w)) ∧
      ∀ w, v'.check x = .ok (.accepted w) → w = x ∨ v.Answers w ∧ x.eq w = true := by
  have judged := check_judges regular short
  refine ⟨judged.settles, judged.rejected_iff, judged.accepted_iff, fun w accepted => (accepted ▸ judged).result,
    fun v' reordered => ?_⟩
  have alike := reordered.alike
  have judged' := check_judges (alike.regular.mp regular) short
  refine ⟨?_, ?_, fun w accepted => ?_⟩
  · rw [judged'.rejected_iff, judged.rejected_iff, alike.admits]
  · rw [judged'.accepted_iff, judged.accepted_iff, alike.admits]
  · rw [alike.answers]
    exact (accepted ▸ judged').result

namespace Sample

/-- The fractional number one. -/
def one : Value := .float (.ofDecimal false 1 0)

/-- At least two texts. -/
def tags : Validator := .satisfying (.array .string) (Condition.lengthAtLeast 2).holds none

/-- A dictionary with an identifier and tags. The identifier is a number, and given as a fractional one if it is one. -/
def tagged : Validator := .record [(text "id", .oneOf [.literal one, .number]), (text "tags", tags)]

/-- The keys of `tagged`, and the alternatives inside, the other way round. -/
def taggedReordered : Validator := .record [(text "tags", tags), (text "id", .oneOf [.number, .literal one])]

/-- A dictionary with the integer one, two tags and something else. -/
def document : Value :=
  .dict [(.str (text "id"), .int 1), (.str (text "tags"), .tuple [.str (text "a"), .str (text "b")]),
    (.str (text "more"), .none)]

theorem tagged_regular : tagged.Regular := by
  have ident : (Validator.oneOf [.literal one, .number]).Regular :=
    .oneOf (List.forall_mem_cons.mpr ⟨.literal (.float _), List.forall_mem_singleton.mpr .number⟩)
  have respects : ∀ a b : Value, a.eq b = true →
      (Condition.lengthAtLeast 2).holds a = (Condition.lengthAtLeast 2).holds b := by
    intro a b same
    show (a.length?.any fun k => (2 : Int) ≤ k) = b.length?.any fun k => (2 : Int) ≤ k
    rw [Value.length?_of_eq same]
  have tags : tags.Regular := .satisfying none (.array .string) respects
  exact .record (List.forall_mem_cons.mpr ⟨ident, List.forall_mem_singleton.mpr tags⟩)

theorem document_short : document.Short := by
  have both : (Value.tuple [.str (text "a"), .str (text "b")]).Short :=
    .tuple (List.forall_mem_cons.mpr ⟨.str _, List.forall_mem_singleton.mpr (.str _)⟩)
  refine .dict (fun entry member => ?_) fun entry member => ?_
  · rcases member with _ | ⟨_, _ | ⟨_, _ | ⟨_, ⟨⟩⟩⟩⟩ <;> exact .str _
  · rcases member with _ | ⟨_, _ | ⟨_, _ | ⟨_, ⟨⟩⟩⟩⟩
    · exact .int (by decide)
    · exact both
    · exact .none

theorem tagged_reordered : tagged.Reordered taggedReordered := by
  have inside : tagged.Reordered (.record [(text "id", .oneOf [.number, .literal one]), (text "tags", tags)]) := by
    refine .record rfl ?_ ?_
    · rintro (_ | _ | i) below _
      · rfl
      · rfl
      · exact absurd below (by simp)
    · rintro (_ | _ | i) below _
      · exact .alternatives (.swap ..)
      · exact .refl _
      · exact absurd below (by simp)
  exact inside.trans (.keys (.swap ..))

end Sample

open Sample

/-- A record accepts a dictionary in whatever order its keys and the alternatives inside are given. -/
theorem document_accepted :
    tagged.Regular ∧ document.Short ∧ tagged.Reordered taggedReordered ∧
    ∃ w, taggedReordered.check document = .ok (.accepted w) := by
  refine ⟨tagged_regular, document_short, tagged_reordered, ?_⟩
  have denotes := check_denotes tagged tagged_regular document document_short
  exact (denotes.2.2.2.2 taggedReordered tagged_reordered).2.1.mpr ⟨document, rfl⟩

-- The order decides which of two equal values comes back.
example : (oneOf [.literal one, .number]).check (.int 1) = .ok (.accepted one) ∧
    (oneOf [.number, .literal one]).check (.int 1) = .ok (.accepted (.int 1)) := ⟨rfl, rfl⟩

end Descent.Validator
