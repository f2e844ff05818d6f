/-!
# Styled text

Colour and weight as terminal escape sequences: a style stands in front of a text and is taken back behind it.
-/

namespace TapeLang.Text

/-- The colours in use. -/
inductive Colour where
  | red
  | green
  | yellow
  | magenta
  | cyan
  | white
  | brightYellow
  | brightCyan

/-- The number of a colour in an escape sequence. -/
def Colour.code : Colour → String
  | red => "31"
  | green => "32"
  | yellow => "33"
  | magenta => "35"
  | cyan => "36"
  | white => "37"
  | brightYellow => "93"
  | brightCyan => "96"

/-- The character that starts an escape sequence. -/
def escapeChar : Char := '\x1b'

/-- The escape sequence with a number. -/
def sequence (code : String) : List Char := escapeChar :: '[' :: code.toList ++ ['m']

/-- A text in a colour. -/
def colour (c : Colour) (cs : List Char) : List Char := sequence c.code ++ cs ++ sequence "39"

/-- A text in bold. -/
def bold (cs : List Char) : List Char := sequence "1" ++ cs ++ sequence "0"

/-- A dimmed text. -/
def dim (cs : List Char) : List Char := sequence "2" ++ cs ++ sequence "0"

/-- `colour` on strings. -/
def paint (c : Colour) (s : String) : String := String.ofList (colour c s.toList)

/-- `bold` over `colour` on strings. -/
def paintBold (c : Colour) (s : String) : String := String.ofList (bold (colour c s.toList))

/-- `dim` on strings. -/
def fade (s : String) : String := String.ofList (dim s.toList)

end TapeLang.Text
