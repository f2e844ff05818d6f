import TapeLang.Text.ClusterData

/-!
# Clusters of characters

What a reader sees as one character may be several: a letter with its marks, a syllable in parts, joined pictographs, a
flag.  A text is cut into such clusters by the rules of the Unicode standard, which look at the class of the next
character and at a little of what came before.
-/

namespace TapeLang.Text

/-- What a character is to the rules. -/
inductive ClusterClass where
  | carriageReturn
  | lineFeed
  | control
  | extending
  | joiner
  | spacing
  | prepended
  | regional
  | lead
  | vowel
  | trail
  | leadVowel
  | leadVowelTrail
  | pictographic
  | other
deriving DecidableEq

namespace ClusterClass

/-- The class of a character. -/
def of (c : Char) : ClusterClass :=
  let n := c.toNat
  if n = 0x0D then carriageReturn
  else if n = 0x0A then lineFeed
  else if Text.control.mem c then control
  else if n < 0xA9 then other
  else if n = 0x200D then joiner
  else if Text.extending.mem c then extending
  else if Text.spacing.mem c then spacing
  else if Text.prepended.mem c then prepended
  else if 0x1F1E6 ≤ n ∧ n ≤ 0x1F1FF then regional
  else if (0x1100 ≤ n ∧ n ≤ 0x115F) ∨ (0xA960 ≤ n ∧ n ≤ 0xA97C) then lead
  else if (0x1160 ≤ n ∧ n ≤ 0x11A7) ∨ (0xD7B0 ≤ n ∧ n ≤ 0xD7C6) then vowel
  else if n = 0x16D63 ∨ (0x16D67 ≤ n ∧ n ≤ 0x16D6A) then vowel
  else if (0x11A8 ≤ n ∧ n ≤ 0x11FF) ∨ (0xD7CB ≤ n ∧ n ≤ 0xD7FB) then trail
  else if 0xAC00 ≤ n ∧ n ≤ 0xD7A3 then if (n - 0xAC00) % 28 = 0 then leadVowel else leadVowelTrail
  else if Text.pictographic.mem c then pictographic
  else other

/-- Whether a class stands alone. -/
def isBreak : ClusterClass → Bool
  | carriageReturn | lineFeed | control => true
  | _ => false

/-- Whether two parts of a syllable belong together. -/
def joinsSyllable : ClusterClass → ClusterClass → Bool
  | lead, lead | lead, vowel | lead, leadVowel | lead, leadVowelTrail => true
  | leadVowel, vowel | leadVowel, trail | vowel, vowel | vowel, trail => true
  | leadVowelTrail, trail | trail, trail => true
  | _, _ => false

end ClusterClass

/-- The mark that keeps its neighbours apart: no linker reaches over it. -/
def nonJoiner : Char := Char.ofNat 0x200C

/-- What the rules remember of the text before a character. -/
structure ClusterContext where
  /-- The class of the last character. -/
  last : ClusterClass := .control
  /-- Whether the last characters are half of a flag. -/
  halfFlag : Bool := false
  /-- Whether they are a pictograph with its marks. -/
  pictograph : Bool := false
  /-- Whether they are such a pictograph and a joiner. -/
  joinedPictograph : Bool := false
  /-- Whether they are a consonant with its marks. -/
  consonant : Bool := false
  /-- Whether a linker is among these marks. -/
  linked : Bool := false

namespace ClusterContext

/-- Whether a character belongs to the cluster before it. -/
def joins (s : ClusterContext) (c : Char) : Bool :=
  let next := ClusterClass.of c
  if s.last = .carriageReturn ∧ next = .lineFeed then true
  else if s.last.isBreak || next.isBreak then false
  else
    s.last.joinsSyllable next || next = .extending || next = .joiner || next = .spacing || s.last = .prepended ||
      (s.consonant && s.linked && conjunctConsonant.mem c) || (s.joinedPictograph && next = .pictographic) ||
      (s.halfFlag && next = .regional)

/-- What is remembered after a character. -/
def after (s : ClusterContext) (c : Char) : ClusterContext :=
  let next := ClusterClass.of c
  let mark := (next = .extending && c != nonJoiner) || next = .joiner
  { last := next
    halfFlag := next = .regional && !s.halfFlag
    pictograph := next = .pictographic || (s.pictograph && next = .extending)
    joinedPictograph := s.pictograph && next = .joiner
    consonant := conjunctConsonant.mem c || (s.consonant && mark)
    linked := !conjunctConsonant.mem c && s.consonant && mark && (s.linked || conjunctLinker.mem c) }

end ClusterContext

/-! ## Backspaces -/

/-- The character that takes back the cluster before it. -/
def backspace : Char := '\x08'

/-- A text that is being typed. -/
structure Typed where
  /-- Its characters, last one first. -/
  chars : List Char := []
  /-- The sizes of its clusters in bytes, last one first.  A size is kept in a byte, hence known modulo 256. -/
  sizes : List UInt8 := []
  /-- What the rules remember, backspaces included. -/
  context : ClusterContext := {}

/-- Takes a number of bytes from the front; none if that would cut a character in two. -/
def dropBytes : Nat → List Char → Option (List Char)
  | 0, cs => some cs
  | _ + 1, [] => none
  | n + 1, c :: cs => if c.utf8Size ≤ n + 1 then dropBytes (n + 1 - c.utf8Size) cs else none

namespace Typed

/-- The sizes when one more character is typed. -/
def grow (t : Typed) (c : Char) : List UInt8 :=
  let size := UInt8.ofNat c.utf8Size
  match t.sizes with
  | last :: rest => if t.context.joins c then (last + size) :: rest else size :: last :: rest
  | [] => [size]

/-- Types one more character.  A backspace takes as many bytes from the end as the last cluster has, as far as its size
is known; none if that would cut a character in two. -/
def press (t : Typed) (c : Char) : Option Typed :=
  let context := t.context.after c
  if c = backspace then
    match t.sizes with
    | size :: rest => (dropBytes size.toNat t.chars).map fun chars => ⟨chars, rest, context⟩
    | [] => some { t with context := context }
  else some ⟨c :: t.chars, t.grow c, context⟩

end Typed

/-- What is left of a text when every backspace has done its work; none if one would cut a character in two. -/
def applyBackspaces (cs : List Char) : Option (List Char) :=
  if cs.contains backspace then (cs.foldlM Typed.press {}).map fun t => t.chars.reverse else some cs

end TapeLang.Text
