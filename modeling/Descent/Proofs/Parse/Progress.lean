import Descent.Parse.Run

/-!
# Where a cursor can get to

Whatever a parser comes to, it leaves the cursor in a place that is reached by reading on: the guard counts as many
levels as before, the offset has not moved back and lies inside the source, and the log has only grown.

Results:
1. `Parser.step_follows`: what one parser does, given that rule calls do so.
2. `Grammar.call_follows`, `Grammar.parse_follows`: rule calls, and with them every parser over every set of rules.
-/

namespace Descent

variable {ρ : Type} {s : Source}

/-! ## Offsets inside a source -/

namespace Source

/-- A text that stands at an offset ends inside the source. -/
theorem add_length_le_of_holds {t : Text} {i : Nat} (h : s.holds i t = true) : i + t.length ≤ s.size := by
  induction t generalizing i with
  | nil => simpa [holds] using h
  | cons c rest ih =>
    rw [holds, Bool.and_eq_true] at h
    have tail := ih h.2
    rw [List.length_cons]
    omega

theorem le_runEnd (accept : CodePoint → Bool) (most i : Nat) : i ≤ s.runEnd accept most i := by
  induction most generalizing i with
  | zero => exact Nat.le_refl i
  | succ most ih =>
    rw [runEnd]
    split
    · split
      · exact Nat.le_of_succ_le (ih (i + 1))
      · exact Nat.le_refl i
    · exact Nat.le_refl i

theorem runEnd_le (accept : CodePoint → Bool) (most i : Nat) : s.runEnd accept most i ≤ i + most := by
  induction most generalizing i with
  | zero => exact Nat.le_refl i
  | succ most ih =>
    rw [runEnd]
    split
    · split
      · have tail := ih (i + 1)
        omega
      · omega
    · omega

theorem le_spanEnd (accept : CodePoint → Bool) (i : Nat) : i ≤ s.spanEnd accept i :=
  s.le_runEnd accept (s.size - i) i

theorem spanEnd_le (accept : CodePoint → Bool) (i : Nat) : s.spanEnd accept i ≤ max i s.size := by
  have most := s.runEnd_le accept (s.size - i) i
  rw [spanEnd]
  omega

end Source

/-! ## Cursors in order -/

/-- `c.Follows s c'`: the cursor `c'` is reached from `c` by reading on in `s`. -/
structure Cursor.Follows (s : Source) (c c' : Cursor ρ) : Prop where
  guard : c'.guard = c.guard
  start_le : c.index ≤ c'.index
  /-- A cursor inside the source stays inside it. One that was put behind its end does not move. -/
  le_end : c'.index ≤ max c.index s.size
  events : c.events <:+ c'.events

namespace Cursor.Follows

theorem refl (c : Cursor ρ) : c.Follows s c := ⟨rfl, Nat.le_refl _, Nat.le_max_left _ _, List.suffix_refl _⟩

theorem trans {a b c : Cursor ρ} (hab : a.Follows s b) (hbc : b.Follows s c) : a.Follows s c where
  guard := hbc.guard.trans hab.guard
  start_le := Nat.le_trans hab.start_le hbc.start_le
  le_end := by
    have first := hab.le_end
    have second := hbc.le_end
    omega
  events := hab.events.trans hbc.events

/-- Moving back to where a parser started. -/
theorem rewind {a b : Cursor ρ} (h : a.Follows s b) : a.Follows s (b.moveTo a.index) :=
  ⟨h.guard, Nat.le_refl _, Nat.le_max_left _ _, h.events⟩

theorem note {a b : Cursor ρ} (h : a.Follows s b) (e : Event ρ) : a.Follows s (b.note e) :=
  ⟨h.guard, h.start_le, h.le_end, h.events.trans (List.suffix_cons e _)⟩

/-- A cursor that started inside the source is still there. -/
theorem le_size {a b : Cursor ρ} (h : a.Follows s b) (inside : a.index ≤ s.size) : b.index ≤ s.size := by
  have ends := h.le_end
  omega

end Cursor.Follows

/-! ## Parsers -/

namespace Parser

/-- Repetition leads no further back than its steps do. -/
theorem repeatWhile_follows {step : Cursor ρ → Reply ρ} (hstep : ∀ c : Cursor ρ, c.Follows s (step c).2)
    (most : Nat) (values : List Value) (c : Cursor ρ) : c.Follows s (repeatWhile step most values c).2 := by
  induction most generalizing values c with
  | zero => exact .refl c
  | succ most ih =>
    have first := hstep c
    rw [repeatWhile]
    split
    · next reached =>
      rw [reached] at first
      split
      · exact first
      · exact first.trans (ih _ _)
    · next reached => rwa [reached] at first
    · exact first

/-- Every parser leads on, if rule calls do. -/
theorem step_follows {enter : ρ → Cursor ρ → Reply ρ} (henter : ∀ r (c : Cursor ρ), c.Follows s (enter r c).2)
    (p : Parser ρ) (c : Cursor ρ) : c.Follows s (p.step s enter c).2 := by
  induction p generalizing c with
  | satisfy accept =>
    rw [step]
    split
    · next x found =>
      split
      · have inside : c.index < s.size := by
          rw [Source.get?, Array.getElem?_eq_some_iff] at found
          exact found.1
        exact ⟨rfl, Nat.le_succ _, by simp only [Cursor.moveTo]; omega, List.suffix_refl _⟩
      · exact .refl c
    · exact .refl c
  | literal t =>
    rw [step]
    split
    · next found =>
      have ends := Source.add_length_le_of_holds found
      exact ⟨rfl, Nat.le_add_right _ _, by simp only [Cursor.moveTo]; omega, List.suffix_refl _⟩
    · exact .refl c
  | span accept =>
    exact ⟨rfl, s.le_spanEnd accept c.index, s.spanEnd_le accept c.index, List.suffix_refl _⟩
  | eof => exact .refl c
  | offset => exact .refl c
  | pure v => exact .refl c
  | fault e => exact .refl c
  | bind p next ihp ihnext =>
    have first := ihp c
    rw [step]
    split
    · next v c' reached =>
      rw [reached] at first
      exact first.trans (ihnext v c')
    · exact first
  | orElse p q ihp ihq =>
    have first := ihp c
    rw [step]
    split
    · next f c' reached =>
      rw [reached] at first
      have second := ihq c'
      split
      · next again =>
        rw [again] at second
        exact first.trans second
      · exact first.trans second
    · exact first
  | attempt p ih =>
    have first := ih c
    rw [step]
    split
    · next reached =>
      rw [reached] at first
      exact first.rewind
    · exact first
  | suchThat p accept rejection ih =>
    have first := ih c
    rw [step]
    split
    · next reached =>
      rw [reached] at first
      split
      · exact first
      · exact first.rewind
    · exact first
  | recover p fallback ih =>
    have first := ih c
    rw [step]
    split
    · next reached => rwa [reached] at first
    · exact first
  | expecting p description ih =>
    have first := ih c
    rw [step]
    split
    · next reached => rwa [reached] at first
    · exact first
  | many p ih => exact repeatWhile_follows ih _ _ c
  | trace p label ih =>
    have first := ih c
    rw [step]
    split
    · next reached =>
      rw [reached] at first
      exact first.note _
    · next reached =>
      rw [reached] at first
      exact first.note _
    · exact first
  | rule r => exact henter r c

end Parser

/-! ## Rules -/

namespace Grammar

variable {g : Grammar ρ}

/-- A rule call leads on and leaves the guard as it found it, entered or not. -/
theorem call_follows (levels : Nat) (r : ρ) (c : Cursor ρ) : c.Follows s (g.call s levels r c).2 := by
  induction levels generalizing r c with
  | zero => exact (Cursor.Follows.refl c).note _
  | succ levels ih =>
    rw [call]
    split
    · exact (Cursor.Follows.refl c).note _
    · next guard entered =>
      -- The body runs one level deeper, and leaving takes exactly that level back.
      have body : ∀ reply : Reply ρ, ({ c with guard }.note (.entered r)).Follows s reply.2 →
          c.Follows s { reply.2 with guard := reply.2.guard.leave } := fun reply h =>
        ⟨by rw [h.guard]; exact Guard.leave_enter entered, h.start_le, h.le_end,
          (List.suffix_cons _ _).trans h.events⟩
      apply body
      split
      · exact Parser.step_follows ih _ _
      · exact .refl _

/-- Every parser over every set of rules leads on, whatever it comes to. -/
theorem parse_follows (p : Parser ρ) (c : Cursor ρ) : c.Follows s (g.parse s p c).2 :=
  Parser.step_follows (call_follows _) p c

end Grammar
end Descent
