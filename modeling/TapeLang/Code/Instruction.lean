/-!
# Instructions of the stack machine

An instruction is an operation with at most one operand.  Which operand an operation wants is not part of the type:
code read from outside may pair them freely, and it is the machine and the image reader that refuse a bad pair.
-/

namespace TapeLang

/-- The operations of the stack machine. -/
inductive Opcode where
  /-- Allocates a blank tape. -/
  | newTape
  /-- Pushes the pointer. -/
  | loadPtr
  /-- Pops into the pointer. -/
  | storePtr
  /-- Pushes the current cell. -/
  | loadCell
  /-- Pops into the current cell. -/
  | storeCell
  /-- Pushes a constant. -/
  | const
  /-- Pushes the top value again. -/
  | dup
  /-- Adds the two top values. -/
  | add
  /-- Takes the top value from the one below it. -/
  | sub
  /-- Pushes 1 if the two top values are equal and 0 if not. -/
  | eq
  /-- Pops a value and writes it as a byte. -/
  | write
  /-- Reads a byte; a cancellation is read as -1. -/
  | read
  /-- Goes to a target. -/
  | jump
  /-- Pops a value and goes to a target unless it is zero. -/
  | jumpIfTrue
  /-- Ends the run. -/
  | ret
deriving DecidableEq

namespace Opcode

/-- All operations. -/
def all : List Opcode :=
  [newTape, loadPtr, storePtr, loadCell, storeCell, const, dup, add, sub, eq, write, read, jump, jumpIfTrue, ret]

/-- The name of an operation, in listings, images and messages. -/
def name : Opcode → String
  | newTape => "NewTape"
  | loadPtr => "LoadPtr"
  | storePtr => "StorePtr"
  | loadCell => "LoadCell"
  | storeCell => "StoreCell"
  | const => "Const"
  | dup => "Dup"
  | add => "Add"
  | sub => "Sub"
  | eq => "Eq"
  | write => "Write"
  | read => "Read"
  | jump => "Jump"
  | jumpIfTrue => "JumpIfTrue"
  | ret => "Return"

/-- The operation with a given name; names are case-sensitive. -/
def ofName? (s : String) : Option Opcode := all.find? (·.name == s)

/-- Whether an operation may go elsewhere than to the next instruction. -/
def isBranch : Opcode → Bool
  | jump | jumpIfTrue => true
  | _ => false

end Opcode

/-- What an operation is applied to.  Constants are machine words; the other operands are counts. -/
inductive Operand where
  /-- A constant. -/
  | int (value : Int64)
  /-- A number of cells. -/
  | size (cells : Nat)
  /-- A branch target that is not yet placed. -/
  | label (number : Nat)
  /-- A branch target: the index of an instruction. -/
  | jump (target : Nat)
deriving DecidableEq

/-- One instruction. -/
structure Instr where
  /-- The operation. -/
  opcode : Opcode
  /-- Its operand. -/
  operand : Option Operand
deriving DecidableEq

namespace Instr

/-- An operation without operand. -/
def plain (opcode : Opcode) : Instr := ⟨opcode, none⟩

/-- Pushes a constant. -/
def constant (value : Int64) : Instr := ⟨.const, some (.int value)⟩

/-- Goes to a label. -/
def branch (opcode : Opcode) (label : Nat) : Instr := ⟨opcode, some (.label label)⟩

end Instr

/-- A sequence of instructions, numbered from 0. -/
structure Code where
  /-- The instructions. -/
  instrs : Array Instr
deriving DecidableEq

namespace Code

/-- No instructions. -/
def empty : Code := ⟨#[]⟩

/-- The number of instructions. -/
def size (c : Code) : Nat := c.instrs.size

/-- Adds an instruction at the end. -/
def push (c : Code) (i : Instr) : Code := ⟨c.instrs.push i⟩

/-- The number of cells that the first instruction allocates, if it allocates any. -/
def tapeSize? (c : Code) : Option Nat :=
  match (c.instrs[0]? : Option Instr) with
  | some ⟨.newTape, some (.size n)⟩ => some n
  | _ => none

end Code
end TapeLang
