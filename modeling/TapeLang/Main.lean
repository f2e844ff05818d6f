import TapeLang.CommandLine
import TapeLang.Text.Duration

/-!
# The program

The command line on the machine at hand: files, terminal and clock are those of the system.
-/

namespace TapeLang.Terminal

/-- The number of lines that a shell takes at most: more than anyone types. -/
def lineLimit : Nat := 4611686018427387904

/-- The number of a refusal, which some calls give with its sign changed. -/
def refusalNumber (code : UInt32) : UInt32 := if code < 0x80000000 then code else 0 - code

/-- What the system refuses. -/
def faultOf : IO.Error → Fault
  | .noFileOrDirectory _ _ _ => .notFound
  | .inappropriateType _ code _ => if refusalNumber code = 20 then .notDirectory else .isDirectory
  | .permissionDenied _ code details => .other (details ++ " (os error " ++ toString (refusalNumber code) ++ ")")
  | .invalidArgument _ code details => .other (details ++ " (os error " ++ toString (refusalNumber code) ++ ")")
  | e => .other (toString e)

/-- Does something that the system may refuse. -/
def attempt {α : Type} (x : IO α) : IO (Except Fault α) :=
  try return .ok (← x) catch e => return .error (faultOf e)

/-- Does something with the file at a path. -/
def onFile {α : Type} (path : String) (x : IO α) : IO (Except Fault α) :=
  if path.contains '\x00' then return .error .nulInName else attempt x

/-- One byte of the input; none at its end. -/
def readByte : IO (Option UInt8) := do
  let bytes ← (← IO.getStdin).read 1
  return bytes[0]?

/-- The bytes up to and including a line end, behind those in `done`. -/
partial def readLine (done : List UInt8) : IO (List UInt8) := do
  match ← readByte with
  | none => return done.reverse
  | some b => if b = newline then return (b :: done).reverse else readLine (b :: done)

/-- The next event; `midLine` holds whether the last byte taken was not the end of a line. -/
def nextEvent (midLine : IO.Ref Bool) : IO Event := do
  match ← readByte with
  | none => midLine.set false; return .cancel
  | some b => midLine.set (b != newline); return .ofByte b

/-- Carries out an action on the terminal. -/
def perform {σ : Type} (midLine : IO.Ref Bool) : Action σ → IO (Sum σ (Except Error Outcome × σ))
  | .move next => return .inl next
  | .write byte here next => do
    match ← attempt (do (← IO.getStdout).write ⟨#[byte]⟩) with
    | .ok () => return .inl next
    | .error f => return .inr (.error (.io f), here)
  | .flush here rest => do
    match ← attempt (do (← IO.getStdout).flush) with
    | .ok () => perform midLine rest
    | .error f => return .inr (.error (.io f), here)
  | .read here next => do
    match ← attempt (nextEvent midLine) with
    | .ok e => perform midLine (next e)
    | .error f => return .inr (.error (.io f), here)
  | .stop here result => return .inr (result, here)

/-- The number of moves that are made at once at most. -/
def moveLimit : Nat := 1000000

/-- Runs a machine to its end, gliding where it can. -/
partial def cruise {σ : Type} (midLine : IO.Ref Bool) (glide : Glide σ) (step : σ → Action σ) (s : σ) :
    IO (Except Error Outcome × σ) := do
  let (_, s) := glide moveLimit s
  match ← perform midLine (step s) with
  | .inl s => cruise midLine glide step s
  | .inr finish => return finish

/-- Runs code on a machine of its own. -/
def runCode (midLine : IO.Ref Bool) (code : Code) : IO (Except Error Outcome) := do
  return (← cruise midLine (Machine.glide code code.strides) (Machine.step code) Machine.start).1

/-- Runs a program with an engine. -/
def runEngine (midLine : IO.Ref Bool) (e : Engine) (source : String) : IO (Except Error Outcome × Engine) := do
  match e.mode with
  | .interpret =>
    match e.interpreter.load source with
    | .error why => return (.error why, e)
    | .ok loaded =>
      let (result, stopped) ← cruise midLine Interpreter.glide Interpreter.step { loaded with phase := .running }
      return (result, { e with interpreter := { stopped with phase := Interpreter.phaseAfter result } })
  | .translate =>
    match e.translator.emit source with
    | .error why => return (.error why, e)
    | .ok code => return (← runCode midLine code, e)

instance : Host IO where
  lookup? name := IO.getEnv name
  home? := try return (← IO.appPath).parent.map (·.toString) catch _ => return none
  pathExists path := do return (← onFile path (IO.FS.realPath path)).isOk
  readText path := do
    match ← onFile path (IO.FS.readBinFile path) with
    | .error f => return .error f
    | .ok data =>
      match String.fromUTF8? data with
      | some text => return .ok text
      | none => return .error .notText
  writeText path text := onFile path (IO.FS.writeFile path text)
  makeExecutable path :=
    onFile path (IO.setAccessRights path ⟨⟨true, true, true⟩, ⟨true, false, true⟩, ⟨true, false, true⟩⟩)
  canonical path := onFile path (do return (← IO.FS.realPath path).toString)
  print text := do
    let out ← IO.getStdout
    out.putStr text
    out.flush
  warn text := do (← IO.getStderr).putStr text
  readLine := attempt (readLine [])
  runEngine feed e source := do
    let midLine ← IO.mkRef false
    let finish ← runEngine midLine e source
    if feed = .lines then
      if ← midLine.get then discard (attempt (readLine []))
    return finish
  runCode code := do runCode (← IO.mkRef false) code
  turns := return []
  timed x := do
    let start ← IO.monoNanosNow
    let a ← x
    return (a, Text.duration ((← IO.monoNanosNow) - start))
  giveUp := throw (IO.userError "too many lines")

end TapeLang.Terminal

/-- Does what the words of the command line ask for. -/
def main (words : List String) : IO UInt32 := TapeLang.CommandLine.execute TapeLang.Terminal.lineLimit words
