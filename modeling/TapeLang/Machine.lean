import TapeLang.Action
import TapeLang.Code.Assembler
import TapeLang.Tape

/-!
# The stack machine

Runs code from its first instruction, with an empty stack and no tape, until a `ret` or the end of the code.  Code may
be any sequence of instructions: a bad operand, a missing tape, or a stack that runs over or dry ends the run with an
error.
-/

namespace TapeLang

/-- A stack machine in the middle of a run. -/
structure Machine where
  /-- The index of the next instruction. -/
  ip : Nat
  /-- The stack, top first. -/
  stack : List Int64
  /-- The tape, once one is allocated. -/
  tape : Option Tape
  /-- Whether a read was cancelled. -/
  cancelled : Bool

namespace Machine

/-- The deepest stack. -/
def maxDepth : Nat := 1024

/-- A machine before its first instruction. -/
def start : Machine := ⟨0, [], none, false⟩

/-- Ends the run with an error. -/
def fail (m : Machine) (why : MachineFault) : Action Machine := .stop m (.error (.internal why))

/-- Pushes a value and goes on. -/
def push (m : Machine) (value : Int64) : Action Machine :=
  if maxDepth ≤ m.stack.length then m.fail .stackOverflow else .move { m with stack := value :: m.stack }

/-- Replaces the two top values by one. -/
def binary (m : Machine) (f : Int64 → Int64 → Int64) : Action Machine :=
  match m.stack with
  | b :: a :: rest => push { m with stack := rest } (f a b)
  | _ => fail { m with stack := [] } .stackUnderflow

/-- Where a branch of code with `size` instructions goes. -/
def target? (size : Nat) : Option Operand → Option Nat
  | some (.jump t) => if t < size then some t else none
  | _ => none

/-- The size of a tape that may be allocated. -/
def tapeSize? : Option Operand → Option Nat
  | some (.size n) => if 0 < n ∧ n ≤ sizeLimit then some n else none
  | _ => none

/-- Flushes and ends the run. -/
def finish (m : Machine) : Action Machine := .flush m (.stop m (.ok (if m.cancelled then .cancelled else .halted)))

/-- What an instruction does, when the machine already points to the next one. -/
def exec (size : Nat) (i : Instr) (m : Machine) : Action Machine :=
  match i.opcode with
  | .newTape =>
    match tapeSize? i.operand with
    | some n => .move { m with tape := some (.blank n) }
    | none => m.fail (.badOperand i)
  | .loadPtr =>
    match m.tape with
    | some t => m.push (Int64.ofNat t.pointer)
    | none => m.fail .noTape
  | .storePtr =>
    match m with
    | ⟨ip, v :: rest, some t, c⟩ => .move ⟨ip, rest, some (t.moveTo v.toInt), c⟩
    | ⟨ip, _ :: rest, none, c⟩ => fail ⟨ip, rest, none, c⟩ .noTape
    | ⟨_, [], _, _⟩ => m.fail .stackUnderflow
  | .loadCell =>
    match m.tape with
    | some t => m.push (Int64.ofNat t.cell.toNat)
    | none => m.fail .noTape
  | .storeCell =>
    match m with
    | ⟨ip, v :: rest, some t, c⟩ => .move ⟨ip, rest, some (t.store v.toInt), c⟩
    | ⟨ip, _ :: rest, none, c⟩ => fail ⟨ip, rest, none, c⟩ .noTape
    | ⟨_, [], _, _⟩ => m.fail .stackUnderflow
  | .const =>
    match i.operand with
    | some (.int v) => m.push v
    | _ => m.fail (.badOperand i)
  | .dup =>
    match m.stack with
    | v :: _ => m.push v
    | [] => m.fail .stackUnderflow
  | .add => m.binary (· + ·)
  | .sub => m.binary (· - ·)
  | .eq => m.binary fun a b => if a = b then 1 else 0
  | .write =>
    match m.stack with
    | v :: rest => .write (wrapCell v.toInt) { m with stack := rest } { m with stack := rest }
    | [] => m.fail .stackUnderflow
  | .read =>
    .flush m <| .read m fun
      | .byte b => m.push (Int64.ofNat b.toNat)
      | .cancel => push { m with cancelled := true } cancelledValue
  | .jump =>
    match target? size i.operand with
    | some t => .move { m with ip := t }
    | none => m.fail (.badOperand i)
  | .jumpIfTrue =>
    match target? size i.operand with
    | some t =>
      match m.stack with
      | v :: rest => .move { m with stack := rest, ip := if v = 0 then m.ip else t }
      | [] => m.fail .stackUnderflow
    | none => m.fail (.badOperand i)
  | .ret => m.finish

/-- One step: the instruction that the machine points to, or the end of the code. -/
def step (code : Code) (m : Machine) : Action Machine :=
  match code.instrs[m.ip]? with
  | some i => exec code.size i { m with ip := m.ip + 1 }
  | none => m.finish

end Machine
end TapeLang
