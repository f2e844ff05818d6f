import TapeLang.Shell.Command
import TapeLang.Text.Style

/-!
# Help while typing

Completion, hints and colours for the line that is being typed, and whether it is complete.  Positions in a line are
counted in bytes of its UTF-8 form.
-/

namespace TapeLang.Shell

/-- The characters of a text up to a byte position behind `done`; none if no character ends there. -/
def bytePrefix (done : List Char) : Nat → List Char → Option (List Char)
  | 0, _ => some done.reverse
  | _ + 1, [] => none
  | n + 1, c :: cs => if c.utf8Size ≤ n + 1 then bytePrefix (c :: done) (n + 1 - c.utf8Size) cs else none

/-- A way to go on from what is typed. -/
structure Candidate where
  /-- The whole name. -/
  display : String
  /-- What is still to be typed. -/
  replacement : String
deriving DecidableEq

/-- The command names that start with a text. -/
def candidates (word : List Char) : List Candidate :=
  (Command.all.map Command.name).filter (word.isPrefixOf ·) |>.map fun name =>
    ⟨String.ofList name, String.ofList (name.drop word.length)⟩

/-- What is offered at a position of a line. -/
structure Completion where
  /-- The byte position at which a replacement is put in. -/
  start : Nat
  /-- The ways to go on. -/
  candidates : List Candidate
deriving DecidableEq

/-- What is offered at a byte position; none if the position is not between two characters of the line. -/
def complete (line : String) (pos : Nat) : Option Completion := do
  let word ← bytePrefix [] pos line.toList
  if word.head? = some '!' ∧ !word.any Text.isBlank then return ⟨pos, candidates word⟩ else return ⟨pos, []⟩

/-- What is still to be typed of the first command name that goes on from a whole line of at least two bytes. -/
def continuation? (line : List Char) : Option (List Char) :=
  (Command.all.map Command.name).find? (fun name => line.isPrefixOf name && line.length < name.length)
    |>.map (·.drop line.length)

/-- The hint shown behind the line, if the cursor is at its end. -/
def hint (line : String) (pos : Nat) : Option String :=
  if pos < line.utf8ByteSize ∨ line.utf8ByteSize < 2 ∨ line.toList.head? ≠ some '!' then none
  else (continuation? line.toList).map fun rest => String.ofList (Text.dim rest)

/-- Whether a line is a command. -/
def isCommand (line : List Char) : Bool := (Text.trimStart line).head? == some '!'

/-- A character of program text in its colour. -/
def highlightChar (c : Char) : List Char :=
  match c with
  | '>' | '<' => Text.colour .cyan [c]
  | '+' | '-' => Text.colour .green [c]
  | '.' | ',' => Text.bold (Text.colour .yellow [c])
  | '[' | ']' => Text.bold (Text.colour .magenta [c])
  | c => Text.dim [c]

/-- A line in colours. -/
def highlight (line : String) : String :=
  let cs := line.toList
  String.ofList (if isCommand cs then Text.colour .magenta cs else cs.flatMap highlightChar)

/-- Whether every loop is closed, when `depth` loops are open.  A closing bracket too many ends the search: more text
would not help. -/
def balancedFrom : Nat → List Char → Bool
  | depth, [] => depth == 0
  | depth, '[' :: cs => balancedFrom (depth + 1) cs
  | 0, ']' :: _ => true
  | depth + 1, ']' :: cs => balancedFrom depth cs
  | depth, _ :: cs => balancedFrom depth cs

/-- Whether a text need not be continued. -/
def isBalanced (line : List Char) : Bool := balancedFrom 0 line

/-- Whether what is typed so far can be taken as it is. -/
def isComplete (text : List Char) : Bool := isCommand text || isBalanced text

end TapeLang.Shell
