import TapeLang.Code.Instruction
import TapeLang.Text.Decimal

/-!
# Listings

How code is shown: a line per instruction with its index in five digits, and an operand in a column of its own.
-/

namespace TapeLang

open Text (decimal signedDecimal fiveDigits padRight)

/-- An operand as shown in listings: a label behind `L`, a target behind `@` in five digits. -/
def Operand.show : Operand → List Char
  | int v => signedDecimal v.toInt
  | size n => decimal n
  | label n => 'L' :: decimal n
  | jump n => '@' :: fiveDigits n

/-- An instruction as shown in listings; the operand starts in column 12. -/
def Instr.show (i : Instr) : List Char :=
  match i.operand with
  | none => i.opcode.name.toList
  | some operand => padRight 11 i.opcode.name.toList ++ ' ' :: operand.show

/-- A line of a listing, without its end. -/
def Instr.showLine (i : Instr) (index : Nat) : List Char := fiveDigits index ++ ' ' :: ' ' :: i.show

namespace Code

/-- The lines of a listing. -/
def listingLines (c : Code) : List (List Char) := c.instrs.toList.zipIdx.map fun (i, index) => i.showLine index

/-- The listing: every line ends with a newline. -/
def listing (c : Code) : String := String.ofList (c.listingLines.flatMap (· ++ ['\n']))

end Code
end TapeLang
