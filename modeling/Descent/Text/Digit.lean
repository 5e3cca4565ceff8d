import Descent.Text.Basic

/-!
# Decimal digits

The decimal digits of all scripts. The ten digits of a script follow each other from zero to nine, so that the table
holds the zeros alone. It is that of Unicode 15.1. The main statement says that the ASCII digits have their usual values.
-/
namespace Descent.CodePoint

/-- The zeros of the scripts, in increasing order. -/
def zeros : List CodePoint := [
  0x30, 0x660, 0x6F0, 0x7C0, 0x966, 0x9E6, 0xA66, 0xAE6, 0xB66, 0xBE6, 0xC66, 0xCE6, 0xD66, 0xDE6, 0xE50,
  0xED0, 0xF20, 0x1040, 0x1090, 0x17E0, 0x1810, 0x1946, 0x19D0, 0x1A80, 0x1A90, 0x1B50, 0x1BB0, 0x1C40,
  0x1C50, 0xA620, 0xA8D0, 0xA900, 0xA9D0, 0xA9F0, 0xAA50, 0xABF0, 0xFF10, 0x104A0, 0x10D30, 0x11066,
  0x110F0, 0x11136, 0x111D0, 0x112F0, 0x11450, 0x114D0, 0x11650, 0x116C0, 0x11730, 0x118E0, 0x11950,
  0x11C50, 0x11D50, 0x11DA0, 0x11F50, 0x16A60, 0x16AC0, 0x16B50, 0x1D7CE, 0x1D7D8, 0x1D7E2, 0x1D7EC,
  0x1D7F6, 0x1E140, 0x1E2F0, 0x1E4F0, 0x1E950, 0x1FBF0]

def digitValue? (c : CodePoint) : Option Nat :=
  (zeros.find? fun least => least ≤ c && c < least + 10).map (c - ·)

/-- The ASCII digits are the digits of the first script. -/
theorem digitValue?_of_isDigit {c : Nat} (h : isDigit c = true) : digitValue? c = some (c - 0x30) := by
  have bounds : 0x30 ≤ c ∧ c ≤ 0x39 := by simpa [isDigit] using h
  have first : (decide (0x30 ≤ c) && decide (c < 0x30 + 10)) = true := by
    rw [Bool.and_eq_true, decide_eq_true_eq, decide_eq_true_eq]
    omega
  simp only [digitValue?, zeros, List.find?_cons, first, Option.map_some]

end Descent.CodePoint
