/-!
# Program text

A program is its text, kept character by character; the eight operator characters act and all others are comments.
Positions are character positions, so comments count.
-/

namespace TapeLang

/-- The eight operators. -/
inductive Op where
  | right
  | left
  | increment
  | decrement
  | output
  | input
  | loopOpen
  | loopClose
deriving DecidableEq

namespace Op

/-- The operator that a character stands for; any other character is a comment. -/
def ofChar? : Char → Option Op
  | '>' => some right
  | '<' => some left
  | '+' => some increment
  | '-' => some decrement
  | '.' => some output
  | ',' => some input
  | '[' => some loopOpen
  | ']' => some loopClose
  | _ => none

/-- The character of an operator. -/
def symbol : Op → Char
  | right => '>'
  | left => '<'
  | increment => '+'
  | decrement => '-'
  | output => '.'
  | input => ','
  | loopOpen => '['
  | loopClose => ']'

@[simp] theorem ofChar?_symbol (op : Op) : ofChar? op.symbol = some op := by cases op <;> rfl

end Op

/-- A program text. -/
structure Program where
  /-- The characters, comments included. -/
  chars : Array Char
deriving DecidableEq

namespace Program

/-- The empty text. -/
def empty : Program := ⟨#[]⟩

/-- The program with the given text. -/
def ofString (source : String) : Program := ⟨source.toList.toArray⟩

/-- The number of characters. -/
def size (p : Program) : Nat := p.chars.size

/-- The operator at a position, if one stands there. -/
def op? (p : Program) (i : Nat) : Option Op := p.chars[i]?.bind Op.ofChar?

/-- The operators with their positions, in source order. -/
def ops (p : Program) : List (Nat × Op) :=
  p.chars.toList.zipIdx.filterMap fun (c, i) => (Op.ofChar? c).map (i, ·)

end Program
end TapeLang
