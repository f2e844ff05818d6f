import TapeLang.Code.Label

/-!
# From programs to code

Every operator becomes a fixed sequence of instructions.  Each bracket has a label of its own, placed where its partner
wants to go to: the opening one at the test of its loop, the closing one behind the loop.  Cancelled input goes to the
exit label at the final `ret`.  When all is placed, labels are replaced by instruction indices.
-/

namespace TapeLang

/-- An assembler: the code written so far and the labels used in it. -/
structure Assembler where
  /-- The number of cells that finished code allocates. -/
  tapeSize : Nat
  /-- The code written so far. -/
  pending : Code
  /-- The labels. -/
  labels : Labels

/-- The value that a cancelled read pushes. -/
def cancelledValue : Int64 := -1

namespace Assembler

/-- An assembler that has written nothing. -/
def new (tapeSize : Nat) : Assembler := ⟨tapeSize, .empty, .empty⟩

/-- Writes an instruction. -/
def emit (a : Assembler) (i : Instr) : Assembler := { a with pending := a.pending.push i }

/-- Writes several instructions. -/
def emitAll (a : Assembler) (is : List Instr) : Assembler := is.foldl emit a

/-- Places a label at the next instruction. -/
def mark (a : Assembler) (label : Nat) : Assembler := { a with labels := a.labels.mark label a.pending.size }

/-- Places a label that is defined. -/
def mark? (a : Assembler) (label : Nat) : Option Assembler :=
  (a.labels.mark? label a.pending.size).map ({ a with labels := · })

/-- What the assembler knows of a bracket: its own label and the position of its partner. -/
structure Marker where
  /-- The label. -/
  label : Nat
  /-- The position of the partner. -/
  partner : Nat

/-- Adds the marker of the next position; the second component is the next label. -/
def addMarker : Array (Option Marker) × Nat → Option Nat → Array (Option Marker) × Nat
  | (ms, label), none => (ms.push none, label)
  | (ms, label), some partner => (ms.push (some ⟨label, partner⟩), label + 1)

/-- For every position the marker of the bracket there; labels are numbered in source order. -/
def markers (m : Matching) : Array (Option Marker) := (m.partners.foldl addMarker (#[], 0)).1

/-- The marker at a position. -/
def markerAt (ms : Array (Option Marker)) (i : Nat) : Except Error Marker :=
  match ms[i]? with
  | some (some marker) => .ok marker
  | _ => .error (.internal (.noMarker i))

/-- Adds to (or takes from) the pointer. -/
def pointerStep (opcode : Opcode) : List Instr := [.plain .loadPtr, .constant 1, .plain opcode, .plain .storePtr]

/-- Adds to (or takes from) the current cell. -/
def cellStep (opcode : Opcode) : List Instr := [.plain .loadCell, .constant 1, .plain opcode, .plain .storeCell]

/-- Writes the code of one operator. -/
def emitOp (ms : Array (Option Marker)) (exit : Nat) (a : Assembler) : Nat × Op → Except Error Assembler
  | (_, .right) => .ok (a.emitAll (pointerStep .add))
  | (_, .left) => .ok (a.emitAll (pointerStep .sub))
  | (_, .increment) => .ok (a.emitAll (cellStep .add))
  | (_, .decrement) => .ok (a.emitAll (cellStep .sub))
  | (_, .output) => .ok (a.emitAll [.plain .loadCell, .plain .write])
  | (_, .input) =>
    .ok (a.emitAll [.plain .read, .plain .dup, .constant cancelledValue, .plain .eq, .branch .jumpIfTrue exit,
      .plain .storeCell])
  | (i, .loopOpen) => do
    let here ← markerAt ms i
    let close ← markerAt ms here.partner
    return (a.mark here.label).emitAll
      [.plain .loadCell, .constant 0, .plain .eq, .branch .jumpIfTrue close.label]
  | (i, .loopClose) => do
    let here ← markerAt ms i
    let start ← markerAt ms here.partner
    return (a.emit (.branch .jump start.label)).mark here.label

/-- An instruction with its label replaced by a place. -/
def linkInstr (ls : Labels) (i : Instr) : Except Error Instr :=
  match i.operand with
  | some (.label l) => do return ⟨i.opcode, some (.jump (← ls.resolve l))⟩
  | _ => .ok i

/-- Code with every label replaced by its place. -/
def link (ls : Labels) (c : Code) : Except Error Code := do
  return ⟨(← c.instrs.toList.mapM (linkInstr ls)).toArray⟩

/-- Instructions with their labels replaced, up to the first label without a place. -/
def linkUntil (ls : Labels) : List Instr → List Instr
  | [] => []
  | i :: rest =>
    match linkInstr ls i with
    | .ok linked => linked :: linkUntil ls rest
    | .error _ => i :: rest

/-- An assembler at the start of a program: the labels are defined, and the tape is allocated. -/
def start (tapeSize : Nat) (m : Matching) : Assembler :=
  emit ⟨tapeSize, .empty, Labels.empty.defineMany (m.count + 1)⟩ ⟨.newTape, some (.size tapeSize)⟩

/-- Writes the code of operators up to the first one whose marker is missing. -/
def emitUntil (ms : Array (Option Marker)) (exit : Nat) (a : Assembler) : List (Nat × Op) → Assembler
  | [] => a
  | x :: rest =>
    match emitOp ms exit a x with
    | .ok b => emitUntil ms exit b rest
    | .error _ => a

/-- Writes the code of a program whose brackets match, up to the final `ret`. -/
def assemble (tapeSize : Nat) (m : Matching) (p : Program) : Except Error Assembler := do
  let body ← p.ops.foldlM (emitOp (markers m) m.count) (start tapeSize m)
  return (body.mark m.count).emit (.plain .ret)

/-- Compiles a program.  Unmatched brackets leave the assembler as it was.  Otherwise what it held is given up first: at
the end it keeps the labels of this program and nothing is pending, and an error on the way leaves what is written by
then. -/
def compile (a : Assembler) (p : Program) : Except Error Code × Assembler :=
  match Matching.ofProgram p with
  | .error u => (.error (.malformed u), a)
  | .ok m =>
    match assemble a.tapeSize m p with
    | .error e => (.error e, emitUntil (markers m) m.count (start a.tapeSize m) p.ops)
    | .ok done =>
      match link done.labels done.pending with
      | .error e => (.error e, { done with pending := ⟨(linkUntil done.labels done.pending.instrs.toList).toArray⟩ })
      | .ok code => (.ok code, { done with pending := .empty })

end Assembler

/-- The code of a program on a tape of a given size. -/
def compile (tapeSize : Nat) (p : Program) : Except Error Code := ((Assembler.new tapeSize).compile p).1

end TapeLang
