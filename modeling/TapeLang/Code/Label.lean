import TapeLang.Error

/-!
# Labels

Names for places in code that are used before they are known.  A label is a number; it is defined first and marked with
an instruction index later.
-/

namespace TapeLang

/-- The labels defined so far, each with its place once it is marked. -/
structure Labels where
  /-- The place of each label. -/
  marks : Array (Option Nat)
deriving DecidableEq

namespace Labels

/-- No labels. -/
def empty : Labels := ⟨#[]⟩

/-- The number of labels. -/
def size (ls : Labels) : Nat := ls.marks.size

/-- A new label and the labels with it. -/
def define (ls : Labels) : Nat × Labels := (ls.size, ⟨ls.marks.push none⟩)

/-- Several new labels. -/
def defineMany (ls : Labels) (n : Nat) : Labels := ⟨ls.marks ++ Array.replicate n none⟩

/-- Places a label; one that was never defined is left alone. -/
def mark (ls : Labels) (label place : Nat) : Labels := ⟨ls.marks.setIfInBounds label (some place)⟩

/-- Places a label that is defined. -/
def mark? (ls : Labels) (label place : Nat) : Option Labels :=
  if label < ls.size then some (ls.mark label place) else none

/-- The place of a label. -/
def resolve (ls : Labels) (label : Nat) : Except Error Nat :=
  match ls.marks[label]? with
  | some (some place) => .ok place
  | _ => .error (.unresolved label)

end Labels
end TapeLang
