import TapeLang.Code.Instruction

/-!
# Strides

Instructions that a machine with an empty stack can take in one stride: together they change the pointer or a cell by a
constant, or choose the next instruction, and leave the stack empty again.
-/

namespace TapeLang

/-- What the instructions from some index on do together, when the stack is empty. -/
inductive Stride where
  /-- Four instructions that add to the pointer. -/
  | pointer (delta : Int64)
  /-- Four instructions that add to the current cell. -/
  | cell (delta : Int64)
  /-- Four instructions that go to a target if the current cell has a value. -/
  | test (value : Int64) (target : Nat)
  /-- One instruction that goes to a target. -/
  | jump (target : Nat)
  /-- No stride begins here. -/
  | none

namespace Code

/-- The stride that begins with an instruction that is `first`, before `second`, `third` and `fourth`. -/
def strideOf (size : Nat) (first second third fourth : Option Instr) : Stride :=
  match first with
  | some ⟨.loadPtr, _⟩ =>
    match second, third, fourth with
    | some ⟨.const, some (.int v)⟩, some ⟨.add, _⟩, some ⟨.storePtr, _⟩ => .pointer v
    | some ⟨.const, some (.int v)⟩, some ⟨.sub, _⟩, some ⟨.storePtr, _⟩ => .pointer (-v)
    | _, _, _ => .none
  | some ⟨.loadCell, _⟩ =>
    match second, third, fourth with
    | some ⟨.const, some (.int v)⟩, some ⟨.add, _⟩, some ⟨.storeCell, _⟩ => .cell v
    | some ⟨.const, some (.int v)⟩, some ⟨.sub, _⟩, some ⟨.storeCell, _⟩ => .cell (-v)
    | some ⟨.const, some (.int v)⟩, some ⟨.eq, _⟩, some ⟨.jumpIfTrue, some (.jump t)⟩ =>
      if t < size then .test v t else .none
    | _, _, _ => .none
  | some ⟨.jump, some (.jump t)⟩ => if t < size then .jump t else .none
  | _ => .none

/-- The stride that begins at an index. -/
def strideAt (c : Code) (ip : Nat) : Stride :=
  strideOf c.size c.instrs[ip]? c.instrs[ip + 1]? c.instrs[ip + 2]? c.instrs[ip + 3]?

/-- The strides that begin at the instructions of some code. -/
def strides (c : Code) : Array Stride := .ofFn fun i : Fin c.size => c.strideAt i

end Code
end TapeLang
