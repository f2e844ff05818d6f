/-!
# Character classes of the Unicode standard

A class is a list of ranges of code points in ascending order, ends included.
-/

namespace TapeLang.Text

/-- Ranges of code points in ascending order, ends included. -/
abbrev CharClass := List (Nat × Nat)

/-- Whether a character is in one of the ranges.  None behind a range that starts above it can hold it. -/
def CharClass.mem : CharClass → Char → Bool
  | [], _ => false
  | (first, last) :: rest, c => first ≤ c.toNat && (c.toNat ≤ last || CharClass.mem rest c)

end TapeLang.Text
