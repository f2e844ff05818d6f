import TapeLang.Shell.Editor
import TapeLang.Storage
import TapeLang.Text.Cluster

/-!
# The shell

Reads a line at a time: commands, which start with `!`, and programs, which go on to the next line until their loops are
closed.  A running program reads from the same input.
-/

namespace TapeLang

/-- The name of the program. -/
def programName : String := "tapeworm"

/-- The version of the program. -/
def version : String := "0.1.0"

section Host

variable {m : Type → Type} [Monad m] [Host m]

/-- Prints a line. -/
def printLine (text : String) : m Unit := Host.print (text ++ "\n")

/-- Prints a line beside the output. -/
def warnLine (text : String) : m Unit := Host.warn (text ++ "\n")

/-- The mark in front of a complaint. -/
def errorMark : String := Text.paintBold .red "Error" ++ ": "

/-- Complains. -/
def complain (text : String) : m Unit := warnLine (errorMark ++ text)

/-- A path as the user means it: one that leads nowhere may be meant from the program's own directory. -/
def locate (path : String) : m String := do
  if Path.isAbsolute path.toList then return path
  if ← Host.pathExists path then return path
  match ← Host.home? with
  | none => return path
  | some home =>
    let candidate := String.ofList (Path.join home.toList path.toList)
    return if ← Host.pathExists candidate then candidate else path

/-- The complaint about a file that cannot be read. -/
def unreadable (path : String) (why : Fault) : String := "failed to read '" ++ path ++ "': " ++ why.message

end Host

namespace Shell

/-- What the shell remembers. -/
structure Session where
  /-- The engines. -/
  engine : Engine
  /-- Whether the time of a run is told. -/
  showTime : Bool := true
  /-- The program that was run last. -/
  last : Option String := none

/-! ## Entries -/

/-- What a user enters. -/
inductive Entry where
  /-- A text. -/
  | text (typed : List Char)
  /-- The end of the input. -/
  | done
  /-- Input that cannot be read. -/
  | broken (why : Fault)
  /-- A text with a backspace that would cut a character in two. -/
  | torn

/-- A text without its line end, and that line end. -/
def splitEnding (cs : List Char) : List Char × List Char :=
  match cs.reverse with
  | '\n' :: '\r' :: rest => (rest.reverse, ['\r', '\n'])
  | '\n' :: rest => (rest.reverse, ['\n'])
  | _ => (cs, [])

section Host

variable {m : Type → Type} [Monad m] [Host m]

/-- Reads lines, at most `fuel` of them, until they make up a complete text together with `typed`. -/
def readEntry : Nat → List Char → m Entry
  | 0, _ => Host.giveUp
  | fuel + 1, typed => do
    match ← Host.readLine with
    | .error why => return .broken why
    | .ok [] => return .done
    | .ok bytes =>
      match String.fromUTF8? ⟨bytes.toArray⟩ with
      | none => return .broken .notText
      | some line =>
        let (text, ending) := splitEnding (typed ++ line.toList)
        match Text.applyBackspaces text with
        | none => return .torn
        | some text => if isComplete text then return .text text else readEntry fuel (text ++ ending)

/-! ## Commands -/

/-- Prints an error with its kind marked. -/
def reportError (e : Error) : m Unit :=
  let text := e.message.toList
  let kind := Text.colour .red (text.takeWhile (· != ':'))
  match text.dropWhile (· != ':') with
  | [] => warnLine (String.ofList kind)
  | rest => warnLine (String.ofList (Text.bold kind ++ rest))

/-- Complains about a command without its argument. -/
def missingArgument (command what : String) : m Unit :=
  complain (Text.paint .cyan command ++ " " ++ Text.fade ("requires " ++ what))

/-- A row of a table: a name in its colour and what it does. -/
def helpRow (c : Text.Colour) (name description : String) : String :=
  "  " ++ String.ofList (Text.colour c (Text.padRight 24 name.toList)) ++ " " ++ Text.fade description

/-- The lines of the help text. -/
def helpLines : List String :=
  ["", Text.paintBold .white "Shell Commands:", ""] ++
  Command.all.map (fun c => helpRow .cyan c.usage c.description) ++
  ["", Text.paintBold .white "Program Text:", "",
    "  " ++ Text.fade "Any other line runs with the current engine; unclosed loops continue on the next line.",
    "  " ++ Text.fade "Characters other than > < + - . , [ ] are comments.",
    "", Text.paintBold .white "Keyboard Shortcuts:", "",
    helpRow .yellow "Ctrl+C" "Cancel current input",
    helpRow .yellow "Ctrl+D" "Leave the shell",
    helpRow .yellow "Tab" "Complete a command",
    helpRow .yellow "ESC, Enter" "Cancel program input",
    ""]

/-- The lines that the shell starts with. -/
def bannerLines (mode : Mode) : List String :=
  ["",
    "  " ++ Text.paintBold .brightCyan programName ++ " " ++ Text.fade "v" ++ " " ++ Text.paint .brightYellow version,
    "  " ++ Text.fade "Eight instructions, two engines. Program input ends with ESC or EOF.",
    "  " ++ Text.fade "Mode:" ++ " " ++ Text.paint .green mode.name ++ " " ++ Text.fade "Type" ++ " " ++
      Text.paint .cyan "!help",
    ""]

namespace Session

/-- Runs a program and tells how it went. -/
def runProgram (s : Session) (source : String) : m Session := do
  let ((result, engine), elapsed) ← Host.timed (Host.runEngine .lines s.engine source)
  printLine ""
  match result with
  | .ok .halted => pure ()
  | .ok .cancelled => printLine (Text.fade "input cancelled")
  | .error e => reportError e
  if s.showTime then printLine (Text.fade "elapsed" ++ " " ++ elapsed)
  return { s with engine := engine, last := some source }

/-- Shows the mode, or sets it. -/
def setMode (s : Session) (argument : Option String) : m Session := do
  let tell (mode : Mode) : m Unit := printLine (Text.fade "mode" ++ " " ++ Text.paint .green mode.name)
  match argument.map Mode.parse with
  | none => tell s.engine.mode; return s
  | some (.ok mode) => tell mode; return { s with engine := { s.engine with mode := mode } }
  | some (.error name) => complain (Mode.unknown name); return s

/-- Runs a program file. -/
def loadFile (s : Session) (path : String) : m Session := do
  let path ← locate path
  match ← Host.readText path with
  | .ok source => s.runProgram source
  | .error why => complain (unreadable path why); return s

/-- Compiles a program file into an image; the argument holds the names of both. -/
def compileFile (s : Session) (argument : Option String) : m Unit := do
  if s.engine.mode ≠ .translate then
    complain (Text.paint .cyan "!compile" ++ " needs translate mode (" ++ Text.paint .cyan "!mode 1" ++ ")")
  else
    match argument.map fun a => Text.cutAtBlank a.toList with
    | some (file, some name) =>
      let path ← locate (String.ofList file)
      match ← Host.readText path with
      | .error why => complain (unreadable path why)
      | .ok source =>
        match ← (s.engine.translator.translateTo source (String.ofList (Text.trim name))).run with
        | .ok image => printLine (Text.paintBold .green "Wrote" ++ " " ++ Text.paint .cyan image)
        | .error e => reportError e
    | _ => missingArgument "!compile" "a file and an artifact name"

/-- Shows the code of the last program. -/
def showListing (s : Session) : m Unit :=
  match s.last with
  | none => printLine (Text.fade "no program has run yet")
  | some source =>
    match s.engine.translator.emit source with
    | .ok code => Host.print code.listing
    | .error e => reportError e

/-- Carries out a command; none if it is the last one. -/
def command (s : Session) (c : Command) (argument : Option String) : m (Option Session) := do
  match c with
  | .help => helpLines.forM printLine; return some s
  | .quit => return none
  | .clear => Host.print "\x1b[2J\x1b[H"; return some s
  | .mode => some <$> s.setMode argument
  | .load =>
    match argument with
    | some path => some <$> s.loadFile path
    | none => missingArgument "!load" "a file path"; return some s
  | .compile => s.compileFile argument; return some s
  | .listing => s.showListing; return some s
  | .time =>
    let shown := !s.showTime
    printLine (Text.fade "timing" ++ " " ++ Text.paint .yellow (if shown then "on" else "off"))
    return some { s with showTime := shown }

/-- Does what an entered text asks for; none if that is to leave. -/
def enter (s : Session) (typed : List Char) : m (Option Session) := do
  let line := Text.trim typed
  match line with
  | [] => return some s
  | '!' :: _ =>
    match Command.parse (String.ofList line) with
    | some (c, argument) => s.command c argument
    | none =>
      complain ("unknown command '" ++ String.ofList line ++ "', try " ++ Text.paint .cyan "!help")
      return some s
  | line => some <$> s.runProgram (String.ofList line)

/-- Does what is entered, at most `fuel` times, until the user leaves or the input ends.  Says whether it came to that;
a text that is torn breaks the shell off. -/
def loop : Nat → Session → m Bool
  | 0, _ => Host.giveUp
  | fuel + 1, s => do
    match ← readEntry (fuel + 1) [] with
    | .done => printLine (Text.fade "^D"); return true
    | .broken why =>
      complain ("Io(Error \x7b kind: InvalidData, message: \"" ++ why.message ++ "\" \x7d)")
      return true
    | .torn => warnLine "a backspace would cut a character in two"; return false
    | .text typed =>
      match ← s.enter typed with
      | some s => loop fuel s
      | none => return true

/-- The shell from its first line to its last.  Says whether it was left in order. -/
def run (fuel : Nat) (s : Session) : m Bool := do
  (bannerLines s.engine.mode).forM printLine
  let inOrder ← s.loop fuel
  if inOrder then
    printLine ""
    printLine (Text.paint .brightCyan "Goodbye!")
  return inOrder

end Session
end Host
end Shell
end TapeLang
