import Descent.Tour

/-!
# Command line

Prints the tour of the library.
-/
namespace Descent

/-- A text as a string. A code point that is no scalar value becomes the null character. -/
def Text.toString (t : Text) : String := String.ofList (t.map Char.ofNat)

end Descent

def main : IO Unit := IO.print (Descent.Text.toString (Descent.Tour.printed Descent.Tour.whole.lines))
