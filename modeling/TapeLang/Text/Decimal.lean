/-!
# Decimal numerals

How counts and signed words are written: no leading zeros unless a width asks for them, a minus sign in front.
-/

namespace TapeLang.Text

/-- The decimal digits of a count. -/
def decimal (n : Nat) : List Char := Nat.toDigits 10 n

/-- The decimal digits of a signed number, a minus sign in front of a negative one. -/
def signedDecimal (v : Int) : List Char :=
  if v < 0 then '-' :: decimal v.natAbs else decimal v.natAbs

/-- A text widened on the left with `fill`. -/
def padLeft (width : Nat) (fill : Char) (cs : List Char) : List Char :=
  List.replicate (width - cs.length) fill ++ cs

/-- A text widened on the right with blanks. -/
def padRight (width : Nat) (cs : List Char) : List Char :=
  cs ++ List.replicate (width - cs.length) ' '

/-- A count in at least five digits. -/
def fiveDigits (n : Nat) : List Char := padLeft 5 '0' (decimal n)

/-- The value of a digit character. -/
def digit? (c : Char) : Option Nat := if c.isDigit then some (c.toNat - '0'.toNat) else none

/-- The number that a non-empty run of digits denotes. -/
def readDigits (cs : List Char) : Option Nat :=
  if cs.isEmpty then none else cs.foldlM (fun n c => (digit? c).map (10 * n + ·)) 0

end TapeLang.Text
