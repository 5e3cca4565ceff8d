import Descent.Proofs.Json.Soundness

/-!
# Balanced brackets

Whether a text that the parser reads is in RFC 8259 can be told from its square brackets alone: every array that is left
open has an opening bracket and no closing one, and everything else in a tree is balanced.

Results:
1. `Item.surplus`: the brackets of a written tree exceed the closing ones by its open arrays.
2. `read_denotes_iff_balanced`: a text that is read is in RFC 8259 with the value that is returned exactly if it has as
   many opening as closing square brackets outside strings.
3. `unclosedArray_read`: a text that is read and is not in RFC 8259.
-/

namespace Descent.Json

/-! ## Counting brackets -/

/-- Where a scan of a text stands. -/
inductive Scan
  | outside
  | inside
  | escaped

/-- Opening less closing square brackets outside strings, in the rest of a text. -/
def surplusFrom : Scan → Text → Int
  | _, [] => 0
  | .outside, c :: t =>
    if c = 0x22 then surplusFrom .inside t
    else if c = 0x5B then 1 + surplusFrom .outside t
    else if c = 0x5D then surplusFrom .outside t - 1
    else surplusFrom .outside t
  | .inside, c :: t =>
    if c = 0x22 then surplusFrom .outside t
    else if c = 0x5C then surplusFrom .escaped t
    else surplusFrom .inside t
  | .escaped, _ :: t => surplusFrom .inside t

/-- Opening less closing square brackets of a text outside its strings. -/
def bracketSurplus (t : Text) : Int := surplusFrom .outside t

namespace BalanceLemmas

/-- A code point that is no square bracket and starts no string. -/
def Neutral (c : CodePoint) : Prop := c ≠ 0x22 ∧ c ≠ 0x5B ∧ c ≠ 0x5D

theorem surplus_cons_neutral {c : CodePoint} (neutral : Neutral c) (rest : Text) :
    surplusFrom .outside (c :: rest) = surplusFrom .outside rest := by
  rw [surplusFrom, if_neg neutral.1, if_neg neutral.2.1, if_neg neutral.2.2]

theorem surplus_neutral {u : Text} (neutral : ∀ c ∈ u, Neutral c) (rest : Text) :
    surplusFrom .outside (u ++ rest) = surplusFrom .outside rest := by
  induction u with
  | nil => rfl
  | cons c u ih =>
    rw [List.cons_append, surplus_cons_neutral (neutral c (List.mem_cons_self ..))]
    exact ih fun d hd => neutral d (List.mem_cons_of_mem _ hd)

theorem surplus_cons_opening (rest : Text) :
    surplusFrom .outside (0x5B :: rest) = 1 + surplusFrom .outside rest := rfl

theorem surplus_cons_closing (rest : Text) :
    surplusFrom .outside (0x5D :: rest) = surplusFrom .outside rest - 1 := rfl

theorem neutral_comma : Neutral 0x2C := ⟨by decide, by decide, by decide⟩

theorem neutral_colon : Neutral 0x3A := ⟨by decide, by decide, by decide⟩

theorem neutral_openingBrace : Neutral 0x7B := ⟨by decide, by decide, by decide⟩

theorem neutral_closingBrace : Neutral 0x7D := ⟨by decide, by decide, by decide⟩

theorem surplus_blanks (b : Blanks) (rest : Text) :
    surplusFrom .outside (b.val ++ rest) = surplusFrom .outside rest := by
  refine surplus_neutral (fun c hc => ?_) rest
  rcases b.property c hc with rfl | rfl | rfl | rfl <;> exact ⟨by decide, by decide, by decide⟩

theorem surplus_cons_hexDigit (d : HexDigit) (rest : Text) :
    surplusFrom .inside (d.val :: rest) = surplusFrom .inside rest := by
  have noMark : d.val ≠ 0x22 := fun same => absurd (same ▸ d.property) (by decide)
  have noEscape : d.val ≠ 0x5C := fun same => absurd (same ▸ d.property) (by decide)
  rw [surplusFrom, if_neg noMark, if_neg noEscape]

/-- A character of a string, whatever it is, ends inside the string. -/
theorem surplus_spelling (p : Spelling) (rest : Text) :
    surplusFrom .inside (p.written ++ rest) = surplusFrom .inside rest := by
  cases p with
  | raw c legal =>
    rw [Spelling.written, List.singleton_append, surplusFrom, if_neg legal.1, if_neg legal.2.1]
  | short e => rfl
  | unit a b c d =>
    calc
      surplusFrom .inside ((Spelling.unit a b c d).written ++ rest)
          = surplusFrom .inside (a.val :: b.val :: c.val :: d.val :: rest) := rfl
      _ = surplusFrom .inside rest := by
        rw [surplus_cons_hexDigit, surplus_cons_hexDigit, surplus_cons_hexDigit, surplus_cons_hexDigit]

theorem surplus_string (parts : List Spelling) (rest : Text) :
    surplusFrom .outside (writtenString parts ++ rest) = surplusFrom .outside rest := by
  have characters : surplusFrom .inside (parts.flatMap Spelling.written ++ 0x22 :: rest) =
      surplusFrom .outside rest := by
    induction parts with
    | nil => rfl
    | cons p parts ih => rw [List.flatMap_cons, List.append_assoc, surplus_spelling, ih]
  rw [← characters, writtenString, List.cons_append, List.append_assoc]
  rfl

theorem neutral_of_isDigit {c : CodePoint} (h : c.isDigit = true) : Neutral c :=
  ⟨fun same => absurd (same ▸ h) (by decide), fun same => absurd (same ▸ h) (by decide),
    fun same => absurd (same ▸ h) (by decide)⟩

theorem surplus_digits (d : Digits) (rest : Text) :
    surplusFrom .outside (d.val ++ rest) = surplusFrom .outside rest :=
  surplus_neutral (fun c hc => neutral_of_isDigit (d.property.2 c hc)) rest

theorem surplus_number (n : Number) (rest : Text) :
    surplusFrom .outside (n.written ++ rest) = surplusFrom .outside rest := by
  obtain ⟨negative, integral, leading, fraction, exponent⟩ := n
  have scale : ∀ e, surplusFrom .outside (Number.writtenExponent e ++ rest) = surplusFrom .outside rest := by
    rintro (_ | ⟨capital, sign, d⟩)
    · rfl
    · have digits := surplus_digits d rest
      cases capital <;> cases sign <;> exact digits
  have places : ∀ f u, surplusFrom .outside (Number.writtenFraction f ++ u) = surplusFrom .outside u := by
    rintro (_ | d) u
    · rfl
    · exact surplus_digits d u
  have sign : ∀ u, surplusFrom .outside (Number.writtenSign negative ++ u) = surplusFrom .outside u := by
    intro u
    cases negative <;> rfl
  rw [Number.written, List.append_assoc, List.append_assoc, List.append_assoc, sign, surplus_digits, places, scale]

theorem surplus_scalar (x : Scalar) (rest : Text) :
    surplusFrom .outside (x.written ++ rest) = surplusFrom .outside rest := by
  cases x with
  | string parts => exact surplus_string parts rest
  | number n => exact surplus_number n rest
  | bool b => cases b <;> rfl
  | null => rfl

end BalanceLemmas

open BalanceLemmas

/-! ## Trees -/

mutual
theorem Tree.surplus : ∀ (tree : Tree) (rest : Text),
    surplusFrom .outside (tree.written ++ rest) = tree.openArrays + surplusFrom .outside rest
  | .scalar x, rest => by
    rw [Tree.written, Tree.openArrays, surplus_scalar]
    omega
  | .emptyArray inside, rest => by
    simp only [Tree.written, Tree.openArrays, List.cons_append, List.append_assoc, List.nil_append,
      surplus_cons_opening, surplus_blanks, surplus_cons_closing]
    omega
  | .array first others, rest => by
    simp only [Tree.written, Tree.openArrays, List.cons_append, List.append_assoc, List.nil_append,
      surplus_cons_opening, Item.surplus first, Items.surplus others, surplus_cons_closing]
    omega
  | .object o, rest => Object.surplus o rest
  | .unclosed first others o, rest => by
    simp only [Tree.written, Tree.openArrays, List.cons_append, List.append_assoc, surplus_cons_opening,
      Item.surplus first, Items.surplus others, Object.surplus o]
    omega

/-- The opening brackets of a written tree exceed the closing ones by its open arrays. -/
theorem Item.surplus : ∀ (item : Item) (rest : Text),
    surplusFrom .outside (item.written ++ rest) = item.openArrays + surplusFrom .outside rest
  | .padded before tree after, rest => by
    rw [Item.written, List.append_assoc, List.append_assoc, surplus_blanks, Tree.surplus tree, surplus_blanks]
    rfl

theorem Items.surplus : ∀ (items : Items) (rest : Text),
    surplusFrom .outside (items.written ++ rest) = items.openArrays + surplusFrom .outside rest
  | .nil, rest => by
    simp only [Items.written, Items.openArrays, List.nil_append]
    omega
  | .cons item others, rest => by
    simp only [Items.written, Items.openArrays, List.cons_append, List.append_assoc,
      surplus_cons_neutral neutral_comma, Item.surplus item, Items.surplus others]
    omega

theorem Object.surplus : ∀ (o : Object) (rest : Text),
    surplusFrom .outside (o.written ++ rest) = o.openArrays + surplusFrom .outside rest
  | .empty inside, rest => by
    simp only [Object.written, Object.openArrays, List.cons_append, List.append_assoc, List.nil_append,
      surplus_cons_neutral neutral_openingBrace, surplus_blanks, surplus_cons_neutral neutral_closingBrace]
    omega
  | .members first others, rest => by
    simp only [Object.written, Object.openArrays, List.cons_append, List.append_assoc, List.nil_append,
      surplus_cons_neutral neutral_openingBrace, Member.surplus first, Members.surplus others,
      surplus_cons_neutral neutral_closingBrace]
    omega

theorem Member.surplus : ∀ (m : Member) (rest : Text),
    surplusFrom .outside (m.written ++ rest) = m.openArrays + surplusFrom .outside rest
  | .keyed before key after item, rest => by
    simp only [Member.written, Member.openArrays, List.cons_append, List.append_assoc, surplus_blanks, surplus_string,
      surplus_cons_neutral neutral_colon, Item.surplus item]

theorem Members.surplus : ∀ (members : Members) (rest : Text),
    surplusFrom .outside (members.written ++ rest) = members.openArrays + surplusFrom .outside rest
  | .nil, rest => by
    simp only [Members.written, Members.openArrays, List.nil_append]
    omega
  | .cons m others, rest => by
    simp only [Members.written, Members.openArrays, List.cons_append, List.append_assoc,
      surplus_cons_neutral neutral_comma, Member.surplus m, Members.surplus others]
    omega
end

/-- The surplus of a written tree is the number of its open arrays. -/
theorem bracketSurplus_written (item : Item) : bracketSurplus item.written = item.openArrays := by
  have surplus := item.surplus []
  rwa [List.append_nil, surplusFrom, Int.add_zero] at surplus

/-! ## Documents -/

/-- The brackets of every text in RFC 8259 balance. -/
theorem bracketSurplus_of_denotes {t : Text} {v : Value} (h : Denotes t v) : bracketSurplus t = 0 := by
  obtain ⟨item, noneOpen, rfl, -⟩ := h
  rw [bracketSurplus_written, noneOpen]
  rfl

/-- A text that is read is the written form of a tree with the value that is returned. It is in RFC 8259, and the value
the one that it denotes, exactly if no square bracket outside its strings is left open. -/
theorem read_denotes_iff_balanced (limits : Limits) (s : Source) (v : Value)
    (h : (read limits (.source s)).value = .ok v) :
    (∃ item : Item, item.written = s.toText ∧ item.value = v) ∧
      (Denotes s.toText v ↔ bracketSurplus s.toText = 0) ∧
      ((∃ w, Denotes s.toText w) ↔ bracketSurplus s.toText = 0) := by
  obtain ⟨item, written, value⟩ := exists_item_of_read h
  have denotes_of_balanced : bracketSurplus s.toText = 0 → Denotes s.toText v := by
    intro balanced
    rw [← written, bracketSurplus_written] at balanced
    exact ⟨item, Int.ofNat_eq_zero.mp balanced, written, value⟩
  exact ⟨⟨item, written, value⟩, ⟨bracketSurplus_of_denotes, denotes_of_balanced⟩,
    fun ⟨_, denotes⟩ => bracketSurplus_of_denotes denotes, fun balanced => ⟨v, denotes_of_balanced balanced⟩⟩

/-- An array of a number and an object. -/
def closedArray : Text := text "[1, \x7b\x7d]"

/-- The same array broken off in front of the object, without the comma. -/
def unclosedArray : Text := text "[1 \x7b\x7d"

/-- A text that is read and is in RFC 8259. -/
theorem closedArray_denotes :
    (read {} (.source (.ofText closedArray))).value = .ok (.list [.int 1, .dict []]) ∧
      Denotes (Source.ofText closedArray).toText (.list [.int 1, .dict []]) := by
  have accepted : (read {} (.source (.ofText closedArray))).value = .ok (.list [.int 1, .dict []]) := by
    decide +kernel
  exact ⟨accepted, (read_denotes_iff_balanced _ _ _ accepted).2.1.mpr (by decide +kernel)⟩

/-- A text that is read, as the object behind its open bracket, and is not in RFC 8259. -/
theorem unclosedArray_read :
    (read {} (.source (.ofText unclosedArray))).value = .ok (.dict []) ∧ ¬ ∃ w, Denotes unclosedArray w := by
  refine ⟨by decide +kernel, ?_⟩
  rintro ⟨w, denotes⟩
  exact absurd (bracketSurplus_of_denotes denotes) (by decide +kernel)

end Descent.Json
