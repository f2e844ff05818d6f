import TapeLang.Json

/-!
# TapeLang.Proofs.JsonGrammar — how values are written

All the ways to write a JSON value, said without a reader.  The same value may be written with blanks around its parts, with
escapes in its strings, and with a fraction or an exponent behind a number; what the value keeps of these is little.

* `Blanks`: what may stand between the parts of a value.
* `NumberText cs n`: a sign, digits without leading zeros, a fraction and an exponent of any length.
* `PointsText cs ns`: the inside of a string, where each code point stands for itself or is escaped.  `Joined ns text`: code
  points make up a text, where the two halves of a pair make up one character.  `StringText cs text`: a string, with its text
  if there is one.
* `Spelled cs v`: the text `cs` is a way to write the value `v`.
-/

namespace TapeLang.Json

/-- Spaces, tabs and line ends. -/
structure Blanks where
  /-- The blanks. -/
  text : List Char
  /-- They are nothing else. -/
  only : ∀ c ∈ text, c = ' ' ∨ c = '\t' ∨ c = '\n' ∨ c = '\r'

/-- No blanks. -/
def Blanks.nothing : Blanks := ⟨[], fun _ h => by cases h⟩

/-! ## Numbers -/

/-- At least one digit. -/
structure IsDigits (ds : List Char) : Prop where
  nonempty : ds ≠ []
  digit : ∀ c ∈ ds, c.isDigit = true

/-- What may stand behind the digits of a number: a point and digits, or nothing. -/
inductive FractionText : List Char → Prop
  | absent : FractionText []
  | present {ds : List Char} : IsDigits ds → FractionText ('.' :: ds)

/-- What may stand behind that: a power of ten, or nothing. -/
inductive ExponentText : List Char → Prop
  | absent : ExponentText []
  | present {e : Char} {sign ds : List Char} : e = 'e' ∨ e = 'E' → sign = [] ∨ sign = ['+'] ∨ sign = ['-'] → IsDigits ds →
      ExponentText (e :: (sign ++ ds))

/-- The sign of a number. -/
def signText : Bool → List Char
  | true => ['-']
  | false => []

/-- How a number is written.  It is whole if it has neither a fraction nor an exponent. -/
inductive NumberText : List Char → Numeral → Prop
  | intro (negative : Bool) (n : Nat) {f e : List Char} : FractionText f → ExponentText e →
      NumberText (signText negative ++ (Text.decimal n ++ (f ++ e))) ⟨negative, n, f.isEmpty && e.isEmpty⟩

/-! ## Strings -/

/-- A hexadecimal digit, small or capital. -/
def IsHexDigit (c : Char) (n : Nat) : Prop := n < 16 ∧ (c = n.digitChar ∨ c = n.digitChar.toUpper)

/-- The escapes of one letter, and the characters that they stand for. -/
def escapes : List (Char × Char) :=
  [('"', '"'), ('\\', '\\'), ('/', '/'), ('b', '\x08'), ('f', '\x0c'), ('n', '\n'), ('r', '\r'), ('t', '\t')]

/-- How a code point is written in a string. -/
inductive PointText : List Char → Nat → Prop
  /-- Most characters stand for themselves. -/
  | plain {c : Char} : 0x20 ≤ c.toNat → c ≠ '"' → c ≠ '\\' → PointText [c] c.toNat
  /-- Some have an escape of one letter. -/
  | short {letter c : Char} : (letter, c) ∈ escapes → PointText ['\\', letter] c.toNat
  /-- Any code point of four hexadecimal digits may be given by these, also a half of a pair. -/
  | long {a b c d : Char} {i j k l : Nat} : IsHexDigit a i → IsHexDigit b j → IsHexDigit c k → IsHexDigit d l →
      PointText ['\\', 'u', a, b, c, d] (((i * 16 + j) * 16 + k) * 16 + l)

/-- How code points are written in a string. -/
inductive PointsText : List Char → List Nat → Prop
  | nil : PointsText [] []
  | cons {cs ds : List Char} {n : Nat} {ns : List Nat} : PointText cs n → PointsText ds ns →
      PointsText (cs ++ ds) (n :: ns)

/-- Code points that make up a text. -/
inductive Joined : List Nat → List Char → Prop
  | nil : Joined [] []
  | char (c : Char) {ns : List Nat} {text : List Char} : Joined ns text → Joined (c.toNat :: ns) (c :: text)
  /-- The first half of a pair, and the second. -/
  | pair {c : Char} {high low : Nat} {ns : List Nat} {text : List Char} : 0xD800 ≤ high → high < 0xDC00 →
      0xDC00 ≤ low → low < 0xE000 → c.toNat = 0x10000 + (high - 0xD800) * 0x400 + (low - 0xDC00) → Joined ns text →
      Joined (high :: low :: ns) (c :: text)

/-- How a string is written.  One with half a pair in it has no text. -/
inductive StringText : List Char → Option (List Char) → Prop
  | text {cs : List Char} {ns : List Nat} {text : List Char} : PointsText cs ns → Joined ns text →
      StringText ('"' :: (cs ++ ['"'])) (some text)
  | broken {cs : List Char} {ns : List Nat} : PointsText cs ns → (∀ text, ¬Joined ns text) →
      StringText ('"' :: (cs ++ ['"'])) none

/-! ## Values -/

/-- A value with blanks around it. -/
structure Element where
  before : Blanks
  /-- The value as it is written. -/
  text : List Char
  value : Value
  after : Blanks

/-- The text of an element. -/
def Element.written (x : Element) : List Char := x.before.text ++ (x.text ++ x.after.text)

/-- A member of an object, with blanks around its name and its value. -/
structure Member where
  before : Blanks
  /-- The name as it is written. -/
  keyText : List Char
  key : Option (List Char)
  after : Blanks
  element : Element

/-- The text of a member. -/
def Member.written (x : Member) : List Char :=
  x.before.text ++ (x.keyText ++ (x.after.text ++ ':' :: x.element.written))

/-- How a value is written. -/
inductive Spelled : List Char → Value → Prop
  | null : Spelled ['n', 'u', 'l', 'l'] .null
  | true : Spelled ['t', 'r', 'u', 'e'] (.bool true)
  | false : Spelled ['f', 'a', 'l', 's', 'e'] (.bool false)
  | number {cs : List Char} {n : Numeral} : NumberText cs n → Spelled cs (.number n)
  | string {cs : List Char} {text : Option (List Char)} : StringText cs text → Spelled cs (.string text)
  | emptyArray (b : Blanks) : Spelled ('[' :: (b.text ++ [']'])) (.array [])
  | array {xs : List Element} : xs ≠ [] → (∀ x ∈ xs, Spelled x.text x.value) →
      Spelled ('[' :: ([','].intercalate (xs.map Element.written) ++ [']'])) (.array (xs.map (·.value)))
  | emptyObject (b : Blanks) : Spelled ('\x7b' :: (b.text ++ ['\x7d'])) (.object [])
  | object {xs : List Member} : xs ≠ [] → (∀ x ∈ xs, StringText x.keyText x.key) →
      (∀ x ∈ xs, Spelled x.element.text x.element.value) →
      Spelled ('\x7b' :: ([','].intercalate (xs.map Member.written) ++ ['\x7d']))
        (.object (xs.map fun x => (x.key, x.element.value)))

end TapeLang.Json
