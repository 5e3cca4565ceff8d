import Descent.Value.Basic

/-!
# JSON texts as concrete syntax trees

A tree records every choice that RFC 8259 leaves to the writer: the white space around each token, the spelling of each
string character and of each number. `written` gives back the text and `value` the value that it denotes, so a text of
the grammar is one that some tree is written as.

The trees have one form that is not in RFC 8259: an array that is left open and goes on with an object. The parser
reads these as well, and `openArrays` counts them. `Denotes` is RFC 8259 proper, where there are none.
-/

namespace Descent.Json

/-- White space: spaces, tabs, carriage returns and line feeds. -/
abbrev Blanks := {t : Text // ∀ c ∈ t, c = 0x20 ∨ c = 0x09 ∨ c = 0x0D ∨ c = 0x0A}

/-! ## Strings -/

/-- The escapes of two characters. -/
inductive ShortEscape
  | quotationMark
  | backslash
  | slash
  | backspace
  | formFeed
  | lineFeed
  | carriageReturn
  | tab

namespace ShortEscape

/-- The letter behind the backslash. -/
def letter : ShortEscape → CodePoint
  | quotationMark => 0x22
  | backslash => 0x5C
  | slash => 0x2F
  | backspace => 0x62
  | formFeed => 0x66
  | lineFeed => 0x6E
  | carriageReturn => 0x72
  | tab => 0x74

/-- The code point that is meant. -/
def meaning : ShortEscape → CodePoint
  | quotationMark => 0x22
  | backslash => 0x5C
  | slash => 0x2F
  | backspace => 0x08
  | formFeed => 0x0C
  | lineFeed => 0x0A
  | carriageReturn => 0x0D
  | tab => 0x09

end ShortEscape

/-- A hexadecimal digit of either case. -/
abbrev HexDigit := {c : CodePoint // c.isHexDigit = true}

/-- How one character of a string is spelled. -/
inductive Spelling
  /-- The code point itself, unless it ends the string, starts an escape or is a control character. -/
  | raw (c : CodePoint) (legal : c ≠ 0x22 ∧ c ≠ 0x5C ∧ 0x20 ≤ c)
  | short (e : ShortEscape)
  /-- A UTF-16 unit by its four digits. -/
  | unit (a b c d : HexDigit)

namespace Spelling

def written : Spelling → Text
  | raw c _ => [c]
  | short e => [0x5C, e.letter]
  | unit a b c d => [0x5C, 0x75, a.val, b.val, c.val, d.val]

/-- The number that four digits denote. -/
def unitOf (a b c d : HexDigit) : Nat := Text.hexNumber [a.val, b.val, c.val, d.val]

/-- The code point of a spelling on its own. -/
def meaning : Spelling → CodePoint
  | raw c _ => c
  | short e => e.meaning
  | unit a b c d => unitOf a b c d

/-- The text of some spellings. A high surrogate unit and a low one right behind it are one code point; a surrogate unit
without its other half stands for itself. -/
def decode : List Spelling → Text
  | [] => []
  | unit a b c d :: unit a' b' c' d' :: rest =>
    if CodePoint.isHighSurrogate (unitOf a b c d) && CodePoint.isLowSurrogate (unitOf a' b' c' d') then
      CodePoint.ofSurrogates (unitOf a b c d) (unitOf a' b' c' d') :: decode rest
    else unitOf a b c d :: decode (unit a' b' c' d' :: rest)
  | p :: rest => p.meaning :: decode rest

/-- Whether a spelling is a UTF-16 unit, which its neighbour may be the other half of. -/
def isUnit : Spelling → Bool
  | unit _ _ _ _ => true
  | _ => false

/-- A spelling that is no half of a pair with the next one stands for itself. -/
theorem decode_cons {p : Spelling} {rest : List Spelling}
    (apart : p.isUnit = true → CodePoint.isHighSurrogate p.meaning = true →
      ∀ q ∈ rest.head?, q.isUnit = true → CodePoint.isLowSurrogate q.meaning = false) :
    decode (p :: rest) = p.meaning :: decode rest := by
  cases p with
  | raw c legal => rfl
  | short e => rfl
  | unit a b c d =>
    cases rest with
    | nil => rfl
    | cons q rest =>
      cases q with
      | raw c' legal => rfl
      | short e => rfl
      | unit a' b' c' d' =>
        have single : ¬ (CodePoint.isHighSurrogate (unitOf a b c d) &&
            CodePoint.isLowSurrogate (unitOf a' b' c' d')) = true := by
          rw [Bool.and_eq_true]
          rintro ⟨high, low⟩
          exact Bool.false_ne_true ((apart rfl high _ rfl rfl).symm.trans low)
        rw [decode, if_neg single]
        rfl

end Spelling

/-- A string between its quotation marks. -/
def writtenString (parts : List Spelling) : Text := 0x22 :: (parts.flatMap Spelling.written ++ [0x22])

/-! ## Numbers -/

/-- One decimal digit or more. -/
abbrev Digits := {t : Text // t ≠ [] ∧ ∀ c ∈ t, c.isDigit = true}

/-- The sign of an exponent. -/
inductive Sign
  | implicit
  | plus
  | minus

def Sign.written : Sign → Text
  | implicit => []
  | plus => [0x2B]
  | minus => [0x2D]

/-- An exponent with its mark, a small or a capital letter. -/
structure Exponent where
  capital : Bool
  sign : Sign
  digits : Digits

namespace Exponent

def mark (e : Exponent) : CodePoint := if e.capital then 0x45 else 0x65

def written (e : Exponent) : Text := e.mark :: (e.sign.written ++ e.digits.val)

def value (e : Exponent) : Int :=
  match e.sign with
  | .minus => -(Decimal.toNat e.digits.val : Int)
  | _ => Decimal.toNat e.digits.val

end Exponent

/-- A number. Its integer part is zero alone or does not start with zero. -/
structure Number where
  negative : Bool
  integral : Digits
  leading : integral.val = [0x30] ∨ integral.val.head? ≠ some 0x30
  fraction : Option Digits
  exponent : Option Exponent

namespace Number

/-- A minus sign, if there is one. -/
def writtenSign (negative : Bool) : Text := if negative then [0x2D] else []

/-- A fraction with its point, if there is one. -/
def writtenFraction : Option Digits → Text
  | none => []
  | some digits => 0x2E :: digits.val

/-- An exponent, if there is one. -/
def writtenExponent : Option Exponent → Text
  | none => []
  | some e => e.written

def written (n : Number) : Text :=
  writtenSign n.negative ++ (n.integral.val ++ (writtenFraction n.fraction ++ writtenExponent n.exponent))

/-- The digits behind the point. -/
def places (n : Number) : Text := (n.fraction.map Subtype.val).getD []

/-- The exponent, which is zero unless it is written. -/
def power (n : Number) : Int := (n.exponent.map Exponent.value).getD 0

/-- Without fraction and exponent an integer, otherwise the nearest binary64 number. -/
def value (n : Number) : Value :=
  match n.fraction, n.exponent with
  | none, none =>
    .int (if n.negative then -(Decimal.toNat n.integral.val : Int) else Decimal.toNat n.integral.val)
  | _, _ => .float (.ofDecimal n.negative (Decimal.toNat (n.integral.val ++ n.places)) (n.power - n.places.length))

/-- An integer has no more digits than may be converted. -/
def Fits (n : Number) : Prop :=
  n.fraction = none → n.exponent = none → n.integral.val.length ≤ Decimal.digitLimit

end Number

/-! ## Trees -/

/-- A token that is a value. -/
inductive Scalar
  | string (parts : List Spelling)
  | number (n : Number)
  | bool (b : Bool)
  | null

namespace Scalar

def written : Scalar → Text
  | string parts => writtenString parts
  | number n => n.written
  | bool true => text "true"
  | bool false => text "false"
  | null => text "null"

def value : Scalar → Value
  | string parts => .str (Spelling.decode parts)
  | number n => n.value
  | bool b => .bool b
  | null => .none

def Fits : Scalar → Prop
  | number n => n.Fits
  | _ => True

end Scalar

mutual
/-- A value as it is written, without the white space around it. -/
inductive Tree
  | scalar (x : Scalar)
  | emptyArray (inside : Blanks)
  | array (first : Item) (rest : Items)
  | object (o : Object)
  /-- Not in RFC 8259: an array without its closing bracket, and an object right behind it. -/
  | unclosed (first : Item) (rest : Items) (o : Object)

/-- A value with white space around it. -/
inductive Item
  | padded (before : Blanks) (tree : Tree) (after : Blanks)

/-- More items, each behind a comma. -/
inductive Items
  | nil
  | cons (item : Item) (rest : Items)

/-- An object. -/
inductive Object
  | empty (inside : Blanks)
  | members (first : Member) (rest : Members)

/-- A key with its value. -/
inductive Member
  | keyed (before : Blanks) (key : List Spelling) (after : Blanks) (item : Item)

/-- More members, each behind a comma. -/
inductive Members
  | nil
  | cons (member : Member) (rest : Members)
end

/-! ## Written form -/

mutual
def Tree.written : Tree → Text
  | .scalar x => x.written
  | .emptyArray inside => 0x5B :: (inside.val ++ [0x5D])
  | .array first rest => 0x5B :: (first.written ++ (rest.written ++ [0x5D]))
  | .object o => o.written
  | .unclosed first rest o => 0x5B :: (first.written ++ (rest.written ++ o.written))

def Item.written : Item → Text
  | .padded before tree after => before.val ++ (tree.written ++ after.val)

def Items.written : Items → Text
  | .nil => []
  | .cons item rest => 0x2C :: (item.written ++ rest.written)

def Object.written : Object → Text
  | .empty inside => 0x7B :: (inside.val ++ [0x7D])
  | .members first rest => 0x7B :: (first.written ++ (rest.written ++ [0x7D]))

def Member.written : Member → Text
  | .keyed before key after item => before.val ++ (writtenString key ++ (after.val ++ 0x3A :: item.written))

def Members.written : Members → Text
  | .nil => []
  | .cons member rest => 0x2C :: (member.written ++ rest.written)
end

/-! What stands in front of more text, with the brackets and commas parted off. -/

section Behind

variable (rest : Text)

theorem Tree.emptyArray_append (inside : Blanks) :
    (Tree.emptyArray inside).written ++ rest = 0x5B :: (inside.val ++ 0x5D :: rest) := by
  simp [Tree.written]

theorem Tree.array_append (first : Item) (others : Items) :
    (Tree.array first others).written ++ rest = 0x5B :: (first.written ++ (others.written ++ 0x5D :: rest)) := by
  simp [Tree.written]

theorem Item.padded_append (before : Blanks) (tree : Tree) (after : Blanks) :
    (Item.padded before tree after).written ++ rest = before.val ++ (tree.written ++ (after.val ++ rest)) := by
  simp [Item.written]

theorem Items.cons_append (item : Item) (others : Items) :
    (Items.cons item others).written ++ rest = 0x2C :: (item.written ++ (others.written ++ rest)) := by
  simp [Items.written]

theorem Object.empty_append (inside : Blanks) :
    (Object.empty inside).written ++ rest = 0x7B :: (inside.val ++ 0x7D :: rest) := by
  simp [Object.written]

theorem Object.members_append (first : Member) (others : Members) :
    (Object.members first others).written ++ rest =
      0x7B :: (first.written ++ (others.written ++ 0x7D :: rest)) := by
  simp [Object.written]

theorem Member.keyed_append (before : Blanks) (key : List Spelling) (after : Blanks) (item : Item) :
    (Member.keyed before key after item).written ++ rest =
      before.val ++ (writtenString key ++ (after.val ++ 0x3A :: (item.written ++ rest))) := by
  simp [Member.written]

theorem Members.cons_append (m : Member) (others : Members) :
    (Members.cons m others).written ++ rest = 0x2C :: (m.written ++ (others.written ++ rest)) := by
  simp [Members.written]

end Behind

/-! ## Denoted value -/

/-- The entry of each key with its last value, in the order in which the keys come first. -/
def lastWins (entries : List (Text × Value)) : List (Value × Value) :=
  (entries.map Prod.fst).eraseDups.map fun key => (.str key, (entries.reverse.lookup key).getD .none)

namespace EntryLemmas

theorem nodup_eraseDups (keys : List Text) : keys.eraseDups.Nodup := by
  induction hlen : keys.length using Nat.strongRecOn generalizing keys with
  | ind n ih =>
    cases keys with
    | nil => exact List.nodup_nil
    | cons key keys =>
      rw [List.eraseDups_cons, List.nodup_cons, List.mem_eraseDups]
      refine ⟨by simp, ih _ ?_ _ rfl⟩
      have shorter := List.length_filter_le (fun other => !other == key) keys
      rw [List.length_cons] at hlen
      omega

variable {f : Text → Value} {key : Text} {v : Value}

theorem insertEntry_of_notMem {keys : List Text} (new : key ∉ keys) :
    Value.insertEntry (.str key) v (keys.map fun k => (.str k, f k)) =
      keys.map (fun k => (.str k, f k)) ++ [(.str key, v)] := by
  induction keys with
  | nil => rfl
  | cons k keys ih =>
    obtain ⟨other, new⟩ := not_or.mp (fun h => new (List.mem_cons.mpr h))
    have different : (k == key) = false := beq_eq_false_iff_ne.mpr (Ne.symm other)
    simp only [List.map_cons, Value.insertEntry, Value.eq, different, Bool.false_eq_true, if_false, ih new,
      List.cons_append]

theorem insertEntry_of_mem {keys : List Text} (known : key ∈ keys) (distinct : keys.Nodup) :
    Value.insertEntry (.str key) v (keys.map fun k => (.str k, f k)) =
      keys.map fun k => (.str k, if k = key then v else f k) := by
  induction keys with
  | nil => cases known
  | cons k keys ih =>
    obtain ⟨first, distinct⟩ := List.nodup_cons.mp distinct
    by_cases here : k = key
    · subst here
      have others : keys.map (fun j => (Value.str j, if j = k then v else f j)) = keys.map fun j => (.str j, f j) :=
        List.map_congr_left fun j hj => by rw [if_neg fun (same : j = k) => first (same ▸ hj)]
      simp only [List.map_cons, Value.insertEntry, Value.eq, BEq.rfl, if_true, others]
    · have different : (k == key) = false := beq_eq_false_iff_ne.mpr here
      have later : key ∈ keys := (List.mem_cons.mp known).resolve_left fun same => here same.symm
      simp only [List.map_cons, Value.insertEntry, Value.eq, different, Bool.false_eq_true, if_false, ih later distinct,
        if_neg here]

/-- One more entry at the end. -/
theorem insertEntry_lastWins (entries : List (Text × Value)) (key : Text) (v : Value) :
    Value.insertEntry (.str key) v (lastWins entries) = lastWins (entries ++ [(key, v)]) := by
  have lookups : ∀ k, (((entries ++ [(key, v)]).reverse.lookup k).getD .none) =
      if k = key then v else (entries.reverse.lookup k).getD .none := by
    intro k
    rw [List.reverse_append, List.reverse_singleton, List.singleton_append, List.lookup_cons]
    by_cases same : k = key
    · simp [same]
    · simp [same, beq_eq_false_iff_ne.mpr same]
  simp only [lastWins, lookups, List.map_append, List.map_cons, List.map_nil, List.eraseDups_append]
  -- A known key keeps its place and changes its value, a new one is put at the end.
  by_cases known : key ∈ entries.map Prod.fst
  · have none_left : [key].removeAll (entries.map Prod.fst) = [] := by simpa [List.removeAll] using known
    rw [none_left, List.eraseDups_nil, List.map_nil, List.append_nil]
    exact insertEntry_of_mem (List.mem_eraseDups.mpr known) (nodup_eraseDups _)
  · have one_left : [key].removeAll (entries.map Prod.fst) = [key] := by simpa [List.removeAll] using known
    have others : (entries.map Prod.fst).eraseDups.map
          (fun k => (Value.str k, if k = key then v else (entries.reverse.lookup k).getD .none)) =
        (entries.map Prod.fst).eraseDups.map fun k => (Value.str k, (entries.reverse.lookup k).getD .none) :=
      List.map_congr_left fun k hk => by
        rw [if_neg fun (same : k = key) => known (same ▸ List.mem_eraseDups.mp hk)]
    rw [one_left, insertEntry_of_notMem fun h => known (List.mem_eraseDups.mp h), others]
    simp [List.eraseDups_cons]

end EntryLemmas

open EntryLemmas

/-- Putting entries into a dictionary one by one keeps each key where it came first, with its last value. -/
theorem ofPairs_eq_lastWins (entries : List (Text × Value)) :
    Value.ofPairs (entries.map fun entry => (.str entry.1, entry.2)) = .dict (lastWins entries) := by
  have reversed : ∀ latest : List (Text × Value),
      latest.reverse.foldl (fun entries entry => Value.insertEntry (.str entry.1) entry.2 entries) [] =
        lastWins latest.reverse := by
    intro latest
    induction latest with
    | nil => rfl
    | cons entry latest ih =>
      rw [List.reverse_cons, List.foldl_append, ih]
      exact insertEntry_lastWins latest.reverse entry.1 entry.2
  have all := reversed entries.reverse
  rw [List.reverse_reverse] at all
  rw [Value.ofPairs, List.foldl_map]
  exact congrArg Value.dict all

mutual
def Tree.value : Tree → Value
  | .scalar x => x.value
  | .emptyArray _ => .list []
  | .array first rest => .list (first.value :: rest.values)
  | .object o => .dict (lastWins o.entries)
  | .unclosed _ _ o => .dict (lastWins o.entries)

def Item.value : Item → Value
  | .padded _ tree _ => tree.value

def Items.values : Items → List Value
  | .nil => []
  | .cons item rest => item.value :: rest.values

def Object.entries : Object → List (Text × Value)
  | .empty _ => []
  | .members first rest => first.entry :: rest.entries

def Member.entry : Member → Text × Value
  | .keyed _ key _ item => (Spelling.decode key, item.value)

def Members.entries : Members → List (Text × Value)
  | .nil => []
  | .cons member rest => member.entry :: rest.entries
end

/-! ## Measures -/

mutual
/-- The number of arrays that are left open. -/
def Tree.openArrays : Tree → Nat
  | .scalar _ => 0
  | .emptyArray _ => 0
  | .array first rest => first.openArrays + rest.openArrays
  | .object o => o.openArrays
  | .unclosed first rest o => 1 + (first.openArrays + rest.openArrays + o.openArrays)

def Item.openArrays : Item → Nat
  | .padded _ tree _ => tree.openArrays

def Items.openArrays : Items → Nat
  | .nil => 0
  | .cons item rest => item.openArrays + rest.openArrays

def Object.openArrays : Object → Nat
  | .empty _ => 0
  | .members first rest => first.openArrays + rest.openArrays

def Member.openArrays : Member → Nat
  | .keyed _ _ _ item => item.openArrays

def Members.openArrays : Members → Nat
  | .nil => 0
  | .cons member rest => member.openArrays + rest.openArrays
end

mutual
/-- How many arrays and objects are around the innermost value, itself included. -/
def Tree.nesting : Tree → Nat
  | .scalar _ => 0
  | .emptyArray _ => 1
  | .array first rest => 1 + max first.nesting rest.nesting
  | .object o => o.nesting
  | .unclosed first rest o => max (1 + max first.nesting rest.nesting) o.nesting

def Item.nesting : Item → Nat
  | .padded _ tree _ => tree.nesting

def Items.nesting : Items → Nat
  | .nil => 0
  | .cons item rest => max item.nesting rest.nesting

def Object.nesting : Object → Nat
  | .empty _ => 1
  | .members first rest => 1 + max first.nesting rest.nesting

def Member.nesting : Member → Nat
  | .keyed _ _ _ item => item.nesting

def Members.nesting : Members → Nat
  | .nil => 0
  | .cons member rest => max member.nesting rest.nesting
end

mutual
/-- How many levels of rule calls reading a value takes: as many as it nests, and one more for an empty array, where a
first item is tried in front of the closing bracket. -/
def Tree.levels : Tree → Nat
  | .scalar _ => 0
  | .emptyArray _ => 2
  | .array first rest => 1 + max first.levels rest.levels
  | .object o => o.levels
  | .unclosed first rest o => max (1 + max first.levels rest.levels) o.levels

def Item.levels : Item → Nat
  | .padded _ tree _ => tree.levels

def Items.levels : Items → Nat
  | .nil => 0
  | .cons item rest => max item.levels rest.levels

def Object.levels : Object → Nat
  | .empty _ => 1
  | .members first rest => 1 + max first.levels rest.levels

def Member.levels : Member → Nat
  | .keyed _ _ _ item => item.levels

def Members.levels : Members → Nat
  | .nil => 0
  | .cons member rest => max member.levels rest.levels
end

mutual
theorem Tree.levels_le : ∀ tree : Tree, tree.levels ≤ tree.nesting + 1
  | .scalar _ => Nat.zero_le _
  | .emptyArray _ => Nat.le_refl 2
  | .array first rest => by
    have := first.levels_le
    have := rest.levels_le
    rw [Tree.levels, Tree.nesting]
    omega
  | .object o => o.levels_le
  | .unclosed first rest o => by
    have := first.levels_le
    have := rest.levels_le
    have := o.levels_le
    rw [Tree.levels, Tree.nesting]
    omega

/-- Reading takes at most one level more than there is nesting. -/
theorem Item.levels_le : ∀ item : Item, item.levels ≤ item.nesting + 1
  | .padded _ tree _ => tree.levels_le

theorem Items.levels_le : ∀ items : Items, items.levels ≤ items.nesting + 1
  | .nil => Nat.zero_le _
  | .cons item rest => by
    have := item.levels_le
    have := rest.levels_le
    rw [Items.levels, Items.nesting]
    omega

theorem Object.levels_le : ∀ o : Object, o.levels ≤ o.nesting + 1
  | .empty _ => Nat.le_succ 1
  | .members first rest => by
    have := first.levels_le
    have := rest.levels_le
    rw [Object.levels, Object.nesting]
    omega

theorem Member.levels_le : ∀ m : Member, m.levels ≤ m.nesting + 1
  | .keyed _ _ _ item => item.levels_le

theorem Members.levels_le : ∀ members : Members, members.levels ≤ members.nesting + 1
  | .nil => Nat.zero_le _
  | .cons m rest => by
    have := m.levels_le
    have := rest.levels_le
    rw [Members.levels, Members.nesting]
    omega
end

/-- An object takes a level of its own. -/
theorem Object.levels_pos (o : Object) : 0 < o.levels := by
  cases o with
  | empty inside => exact Nat.one_pos
  | members first rest => exact Nat.add_pos_left Nat.one_pos _

mutual
/-- Every integer has no more digits than may be converted. -/
def Tree.Fits : Tree → Prop
  | .scalar x => x.Fits
  | .emptyArray _ => True
  | .array first rest => first.Fits ∧ rest.Fits
  | .object o => o.Fits
  | .unclosed first rest o => first.Fits ∧ rest.Fits ∧ o.Fits

def Item.Fits : Item → Prop
  | .padded _ tree _ => tree.Fits

def Items.Fits : Items → Prop
  | .nil => True
  | .cons item rest => item.Fits ∧ rest.Fits

def Object.Fits : Object → Prop
  | .empty _ => True
  | .members first rest => first.Fits ∧ rest.Fits

def Member.Fits : Member → Prop
  | .keyed _ _ _ item => item.Fits

def Members.Fits : Members → Prop
  | .nil => True
  | .cons member rest => member.Fits ∧ rest.Fits
end

/-- RFC 8259: the text is in the grammar and denotes the value. -/
def Denotes (t : Text) (v : Value) : Prop :=
  ∃ item : Item, item.openArrays = 0 ∧ item.written = t ∧ item.value = v

end Descent.Json
