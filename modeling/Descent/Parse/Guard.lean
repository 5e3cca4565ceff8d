import Descent.Text.Basic

/-!
# The nesting guard

A guard counts the rules that are being run inside one another and refuses to go deeper than its limit. Entering is
refused before the count changes, so a refused entry needs no leaving.
-/
namespace Descent

/-- A limit on nesting and the depth reached. -/
structure Guard where
  limit : Int
  depth : Int
deriving DecidableEq, Repr

namespace Guard

/-- The nesting that is allowed unless another limit is asked for. -/
def defaultLimit : Int := 100

/-- The calls that an interpreter lets be open at once unless it is set to another number. -/
def defaultCallLimit : Int := 10000

/-- The calls that are kept free below the call limit. -/
def reserve : Int := 50

/-- The limit that is granted where `requested` is asked for, if the interpreter lets `callLimit` calls be open at once
and `reserved` of them are kept free. -/
def clamp (requested reserved : Int) (callLimit : Int := defaultCallLimit) : Int :=
  min requested (callLimit - reserved)

/-- An unused guard for a requested limit. -/
def ofRequest (requested : Int) (callLimit : Int := defaultCallLimit) : Guard :=
  ⟨clamp requested reserve callLimit, 0⟩

/-- Whether one more level would be too many. -/
def isExceeded (g : Guard) : Bool := g.limit ≤ g.depth

/-- The guard one level deeper, unless that is too deep. -/
def enter (g : Guard) : Option Guard := if g.isExceeded then none else some { g with depth := g.depth + 1 }

def leave (g : Guard) : Guard := { g with depth := g.depth - 1 }

/-- How many more levels can be entered. -/
def room (g : Guard) : Nat := (g.limit - g.depth).toNat

/-- Leaving undoes entering. -/
theorem leave_enter {g h : Guard} (entered : g.enter = some h) : h.leave = g := by
  unfold enter at entered
  split at entered
  · cases entered
  · cases entered
    simp [leave]

/-- Entering is refused exactly where there is no room. -/
theorem enter_eq_none_iff {g : Guard} : g.enter = none ↔ g.room = 0 := by
  unfold enter isExceeded room
  by_cases h : g.limit ≤ g.depth
  · have full : (g.limit - g.depth).toNat = 0 := by omega
    simp only [h, decide_true, if_true, full]
  · have free : (g.limit - g.depth).toNat ≠ 0 := by omega
    simp only [h, decide_false, Bool.false_eq_true, if_false, reduceCtorEq, free]

/-- Entering takes up one level of room. -/
theorem room_of_enter {g h : Guard} (entered : g.enter = some h) : g.room = h.room + 1 := by
  unfold enter isExceeded at entered
  split at entered
  · cases entered
  · rename_i below
    cases entered
    simp only [decide_eq_true_eq] at below
    simp only [room]
    omega

end Guard
end Descent
