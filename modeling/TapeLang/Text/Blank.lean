/-!
# Blanks

The characters with the Unicode property `White_Space`, and what is cut at them: the ends of a text and its first
word.  Everything works on lists of characters, so that the laws are laws of lists.
-/

namespace TapeLang.Text

/-- The 25 characters with the property `White_Space`. -/
def isBlank (c : Char) : Bool :=
  let n := c.toNat
  (0x09 ≤ n && n ≤ 0x0D) || n == 0x20 || n == 0x85 || n == 0xA0 || n == 0x1680 || (0x2000 ≤ n && n ≤ 0x200A) ||
    n == 0x2028 || n == 0x2029 || n == 0x202F || n == 0x205F || n == 0x3000

/-- A text without its leading blanks. -/
def trimStart (cs : List Char) : List Char := cs.dropWhile isBlank

/-- A text without its trailing blanks. -/
def trimEnd (cs : List Char) : List Char := (cs.reverse.dropWhile isBlank).reverse

/-- A text without the blanks at its two ends. -/
def trim (cs : List Char) : List Char := trimEnd (trimStart cs)

/-- The characters before the first blank, and those after it if there is a blank. -/
def cutAtBlank (cs : List Char) : List Char × Option (List Char) :=
  (cs.takeWhile (!isBlank ·), (cs.dropWhile (!isBlank ·)).tail?)

/-- `trim` on strings. -/
def trimString (s : String) : String := String.ofList (trim s.toList)

end TapeLang.Text
