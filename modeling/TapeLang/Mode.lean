import TapeLang.Text.Blank
import TapeLang.Text.Lower

/-!
# Modes

Which of the two engines runs a program, and how users name them.
-/

namespace TapeLang

/-- The two engines. -/
inductive Mode where
  /-- The interpreter. -/
  | interpret
  /-- The stack machine, on compiled code. -/
  | translate
deriving DecidableEq

namespace Mode

/-- The name of a mode. -/
def name : Mode → String
  | interpret => "interpret"
  | translate => "translate"

/-- The engine used when none is named. -/
def default : Mode := translate

/-- The mode that a user names, in any case and with blanks around it; the error is the name as it was understood. -/
def parse (text : String) : Except String Mode :=
  let name := String.ofList (Text.lower (Text.trim text.toList))
  if name ∈ ["0", "i", "interpret", "interpreter"] then .ok interpret
  else if name ∈ ["1", "t", "translate", "translator"] then .ok translate
  else .error name

/-- The wording of the error of `parse`. -/
def unknown (name : String) : String := "unknown mode '" ++ name ++ "'"

end Mode
end TapeLang
