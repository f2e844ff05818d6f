import TapeLang.Disk
import TapeLang.Engine

/-!
# Hosts

What the command line and the shell need of the machine that they run on, as operations of a monad: the
environment, files, a terminal, and the running of programs on that terminal.  `Sim` is a host that is a value: a disk, the
bytes to come as input, and what was printed so far.
-/

namespace TapeLang

/-- How a running program takes its input. -/
inductive Feed where
  /-- As a stream of its own. -/
  | stream
  /-- From a terminal that is read by line between runs: the rest of a line that was begun is dropped. -/
  | lines
deriving DecidableEq

/-- What a program can ask of its surroundings. -/
class Host (m : Type → Type) where
  /-- The value of a variable of the environment. -/
  lookup? : String → m (Option String)
  /-- The directory that the program itself is in. -/
  home? : m (Option String)
  /-- Whether a path leads somewhere. -/
  pathExists : String → m Bool
  /-- The text of a file. -/
  readText : String → m (Except Fault String)
  /-- Fills a file. -/
  writeText : String → String → m (Except Fault Unit)
  /-- Lets everyone execute a file. -/
  makeExecutable : String → m (Except Fault Unit)
  /-- The path of a file from the root. -/
  canonical : String → m (Except Fault String)
  /-- Prints on the terminal. -/
  print : String → m Unit
  /-- Prints beside the output. -/
  warn : String → m Unit
  /-- The bytes of the next line of input with its end; none at the end of the input. -/
  readLine : m (Except Fault (List UInt8))
  /-- Runs a program with an engine. -/
  runEngine : Feed → Engine → String → m (Except Error Outcome × Engine)
  /-- Runs code. -/
  runCode : Code → m (Except Error Outcome)
  /-- Where several errands are under way at the same time: which of them goes on next, by number, again and again. -/
  turns : m (List Nat)
  /-- Does something and says how long it took. -/
  timed {α : Type} : m α → m (α × String)
  /-- Stops when a bound on the number of steps is reached. -/
  giveUp {α : Type} : m α

/-! ## Lines of a stream -/

namespace LineInput

/-- The bytes of a stream up to and including a line end, behind those in `done`, and the stream after them. -/
def takeLine (done : List UInt8) : List Item → Except Fault (List UInt8) × List Item
  | [] => (.ok done.reverse, [])
  | .byte b :: rest => if b = newline then (.ok (b :: done).reverse, rest) else takeLine (b :: done) rest
  | .eof :: rest => (.ok done.reverse, rest)
  | .interrupted :: rest => takeLine done rest
  | .fail text :: rest => (.error (.other text), rest)

end LineInput

/-! ## A host as a value -/

/-- A host at one moment. -/
structure World where
  /-- The files. -/
  disk : Disk := {}
  /-- The working directory. -/
  here : Place := []
  /-- The environment. -/
  environment : List (String × String) := []
  /-- The input to come. -/
  input : List Item := []
  /-- What was printed. -/
  output : Sink := {}
  /-- What was printed beside the output, last text first. -/
  warnings : List String := []
  /-- Which of the errands under way goes on next, again and again. -/
  turns : List Nat := []
  /-- How long everything takes. -/
  duration : String := ""
  /-- How many steps a run may take. -/
  patience : Nat

/-- Computations on a world; none if it was not patient enough. -/
abbrev Sim := StateT World Option

namespace World

/-- The text of a file. -/
def readText (w : World) (path : String) : Except Fault String := do
  match String.fromUTF8? (← w.disk.read w.here path.toList) with
  | some text => return text
  | none => throw .notText

/-- Takes a disk that an operation gives. -/
def update (w : World) (disk : Except Fault Disk) : Except Fault Unit × World :=
  match disk with
  | .ok disk => (.ok (), { w with disk := disk })
  | .error f => (.error f, w)

/-- Prints a text. -/
def print (w : World) (text : String) : World :=
  { w with output := { w.output with accepted := text.toUTF8.foldl Array.push w.output.accepted } }

/-- Runs a program. -/
def runEngine (w : World) (feed : Feed) (e : Engine) (source : String) :
    Option ((Except Error Outcome × Engine) × World) :=
  match feed with
  | .stream =>
    (e.run w.patience source ((⟨w.input⟩ : Reader), w.output)).map fun ⟨result, e, (r, out)⟩ =>
      ((result, e), { w with input := r.items, output := out })
  | .lines =>
    (e.run w.patience source ((⟨w.input, false⟩ : LineInput), w.output)).map fun ⟨result, e, (l, out)⟩ =>
      ((result, e), { w with input := l.finish.2, output := out })

/-- Runs code. -/
def runCode (w : World) (c : Code) : Option (Except Error Outcome × World) :=
  (c.run w.patience ((⟨w.input⟩ : Reader), w.output)).map fun ⟨result, _, (r, out)⟩ =>
    (result, { w with input := r.items, output := out })

end World

instance : Host Sim where
  lookup? name w := some (w.environment.lookup name, w)
  home? w := some (none, w)
  pathExists path w := some (w.disk.contains w.here path.toList, w)
  readText path w := some (w.readText path, w)
  writeText path text w := some (w.update (w.disk.write w.here path.toList text.toUTF8))
  makeExecutable path w := some (w.update (w.disk.makeExecutable w.here path.toList))
  canonical path w := some (String.ofList <$> w.disk.canonical w.here path.toList, w)
  print text w := some ((), w.print text)
  warn text w := some ((), { w with warnings := text :: w.warnings })
  readLine w := let (line, rest) := LineInput.takeLine [] w.input; some (line, { w with input := rest })
  runEngine feed e source w := w.runEngine feed e source
  runCode c w := w.runCode c
  turns w := some (w.turns, w)
  timed x w := (x w).map fun (a, w) => ((a, w.duration), w)
  giveUp _ := none

end TapeLang
