import TapeLang.Action
import TapeLang.Config
import TapeLang.Tape

/-!
# The interpreter

Runs program text directly.  A program is loaded, then executed from the current position until the text ends or input
is cancelled; a run that was cut short may be taken up again where it stopped.  Loops are followed by looking for the
partner of a bracket in the text.
-/

namespace TapeLang

/-- Where an interpreter is in its life. -/
inductive Phase where
  /-- No program. -/
  | idle
  /-- A program that can be run, or run on. -/
  | loaded
  /-- In the middle of a run. -/
  | running
  /-- The program came to its end. -/
  | halted
  /-- Input was cancelled at an input operator. -/
  | cancelled
deriving DecidableEq

/-- An interpreter with its tape and its program. -/
structure Interpreter where
  /-- Its sizes. -/
  config : Config
  /-- The tape. -/
  tape : Tape
  /-- The program text. -/
  program : Program
  /-- The position of the next character. -/
  ip : Nat
  /-- Where it is in its life. -/
  phase : Phase

namespace Interpreter

/-- An idle interpreter, whatever the sizes. -/
def idle (config : Config) : Interpreter := ⟨config, .blank config.tapeSize, .empty, 0, .idle⟩

/-- An idle interpreter with good sizes. -/
def new (config : Config) : Except Error Interpreter := do
  config.validate.mapError .config
  return idle config

/-- Forgets program and tape. -/
def reset (m : Interpreter) : Interpreter :=
  { m with tape := m.tape.clear, program := .empty, ip := 0, phase := .idle }

/-- Takes a program that fits the buffer and has matched brackets. -/
def load (m : Interpreter) (source : String) : Except Error Interpreter := do
  let program := Program.ofString source
  if m.config.bufferSize < program.size then throw (.tooLarge program.size m.config.bufferSize)
  program.check.mapError .malformed
  return { m.reset with program := program, phase := .loaded }

/-- One step: what the character at the current position calls for. -/
def step : Interpreter → Action Interpreter
  | ⟨config, tape, program, ip, phase⟩ =>
    if h : ip < program.chars.size then
      match Op.ofChar? program.chars[ip] with
      | some .right => .move ⟨config, tape.right, program, ip + 1, phase⟩
      | some .left => .move ⟨config, tape.left, program, ip + 1, phase⟩
      | some .increment => .move ⟨config, tape.increment, program, ip + 1, phase⟩
      | some .decrement => .move ⟨config, tape.decrement, program, ip + 1, phase⟩
      | some .output =>
        .write tape.cell ⟨config, tape, program, ip, phase⟩ ⟨config, tape, program, ip + 1, phase⟩
      | some .input =>
        .flush ⟨config, tape, program, ip, phase⟩ <| .read ⟨config, tape, program, ip, phase⟩ fun
          | .byte b => .move ⟨config, tape.set b, program, ip + 1, phase⟩
          | .cancel => .stop ⟨config, tape, program, ip, phase⟩ (.ok .cancelled)
      | some .loopOpen =>
        if tape.cell = 0 then
          match program.closeOf? ip with
          | some j => .move ⟨config, tape, program, j + 1, phase⟩
          | none => .stop ⟨config, tape, program, ip, phase⟩ (.error (.malformed ⟨ip, .opening⟩))
        else .move ⟨config, tape, program, ip + 1, phase⟩
      | some .loopClose =>
        if tape.cell = 0 then .move ⟨config, tape, program, ip + 1, phase⟩
        else
          match program.openOf? ip with
          | some j => .move ⟨config, tape, program, j + 1, phase⟩
          | none => .stop ⟨config, tape, program, ip, phase⟩ (.error (.malformed ⟨ip, .closing⟩))
      | none => .move ⟨config, tape, program, ip + 1, phase⟩
    else .flush ⟨config, tape, program, ip, phase⟩ (.stop ⟨config, tape, program, ip, phase⟩ (.ok .halted))

end Interpreter
end TapeLang
