import TapeLang.Arguments
import TapeLang.Settings
import TapeLang.Shell.Session

/-!
# The command line

From words to an exit code: settings are collected, checked, and a task is done with them.
-/

namespace TapeLang.CommandLine

open Arguments (Request Task)

/-- Why a task is not done. -/
inductive Failure where
  /-- An engine refuses. -/
  | engine (why : Error)
  /-- A program or an image cannot be read. -/
  | unreadable (path : String) (why : Fault)
  /-- The settings cannot be read. -/
  | settingsUnreadable (path : String) (why : Fault)
  /-- The settings are not understood. -/
  | badSettings (path : String)
  /-- Several images are to have one name. -/
  | oneName
  /-- A path has no name that an image could have. -/
  | noName (path : String)

/-- The wording of a failure. -/
def Failure.message : Failure → String
  | engine why => why.message
  | unreadable path why => TapeLang.unreadable path why
  | settingsUnreadable path why => "failed to read " ++ path ++ ": " ++ why.message
  | badSettings path => "invalid settings in " ++ path
  | oneName => "--output names a single artifact; pass one input file or omit it"
  | noName path => "cannot derive an artifact name from '" ++ path ++ "'"

/-- The exit code of success. -/
def success : UInt32 := 0

/-- The exit code of failure. -/
def failure : UInt32 := 1

/-- The exit code of arguments that are not understood. -/
def misuse : UInt32 := 2

/-- The exit code of a shell that broke off. -/
def breakdown : UInt32 := 101

variable {m : Type → Type} [Monad m] [Host m]

/-- An engine's error is a failure. -/
def check {α : Type} (r : Except Error α) : ExceptT Failure m α := ExceptT.mk (pure (r.mapError .engine))

/-! ## Settings -/

/-- The directory for settings of all programs: a variable names it, or the user's own directory holds it. -/
def settingsDirectory? : m (Option (List Char)) := do
  match (← Host.lookup? "XDG_CONFIG_HOME").map String.toList |>.filter Path.isAbsolute with
  | some directory => return some directory
  | none =>
    match (← Host.lookup? "HOME").map String.toList |>.filter (! ·.isEmpty) with
    | some home => return some (Path.join home ".config".toList)
    | none => return none

/-- The path of the settings file. -/
def settingsPath? : m (Option String) := do
  return (← settingsDirectory?).map fun directory =>
    String.ofList (Path.join (Path.join directory "tapeworm".toList) "tapeworm.toml".toList)

/-- The settings in a file. -/
def readSettings (path : String) : ExceptT Failure m Settings := do
  match ← (Host.readText path : m _) with
  | .error why => throw (.settingsUnreadable path why)
  | .ok text =>
    match Settings.parse text with
    | some settings => return settings
    | none => throw (.badSettings path)

/-- The settings in the settings file, if there is one. -/
def fileSettings : ExceptT Failure m Settings := do
  match ← (settingsPath? : m _) with
  | none => return {}
  | some path => if ← (Host.pathExists path : m _) then readSettings path else return {}

/-- The settings of the file and of the environment. -/
def loadSettings : ExceptT Failure m Settings := do
  let settings ← fileSettings
  let mode ← (Host.lookup? "TAPEWORM_MODE" : m _)
  let directory ← (Host.lookup? "TAPEWORM_OUT_DIR" : m _)
  return settings.override (.ofEnvironment mode directory)

/-! ## Tasks -/

/-- The text of a file that a user names, and its path. -/
def readSource (path : String) : ExceptT Failure m String := do
  match ← (Host.readText path : m _) with
  | .ok text => return text
  | .error why => throw (.unreadable path why)

/-- Tells how a run ended. -/
def report (outcome : Outcome) (elapsed : String) (time : Bool) : m Unit := do
  if outcome = .cancelled then warnLine (Text.fade "input cancelled")
  if time then warnLine (Text.fade "elapsed" ++ " " ++ elapsed)

/-- Runs a program. -/
def runSource (settings : Settings) (source : String) (time : Bool) : ExceptT Failure m UInt32 := do
  let engine ← check (Engine.new settings.mode settings.engine settings.outputDir)
  let ((result, _), elapsed) ← (Host.timed (Host.runEngine .stream engine source) : m _)
  let outcome ← check result
  (report outcome elapsed time : m _)
  return success

/-- The name of the image of a program file. -/
def imageName (file : String) : Except Failure String :=
  match Path.stem? file.toList with
  | some name => .ok (String.ofList name)
  | none => .error (.noName file)

/-- The program in a file and the name of its image. -/
def jobOf (output : Option String) (file : String) : ExceptT Failure m (String × String) := do
  let source ← readSource (← (locate file : m _))
  match output with
  | some name => return (source, name)
  | none => return (source, ← ExceptT.mk (pure (imageName file)))

/-- The news that a file was compiled into an image. -/
def compiledNote (file image : String) : String :=
  Text.paintBold .green "Compiled" ++ " " ++ file ++ " " ++ Text.fade "->" ++ " " ++ Text.paint .cyan image

/-- Tells what became of a file. -/
def reportImage (file : String) (result : Except Error String) : m Unit :=
  match result with
  | .ok image => printLine (compiledNote file image)
  | .error e => complain (file ++ ": " ++ e.message)

/-- Compiles program files into images. -/
def compileFiles (settings : Settings) (files : List String) (output : Option String) :
    ExceptT Failure m UInt32 := do
  if output.isSome ∧ 1 < files.length then throw .oneName
  let jobs ← files.mapM (jobOf output)
  let translator ← check settings.translator
  let results ← (translator.translateAllTo jobs : m _)
  (files.zip results).forM fun (file, result) => (reportImage file result : m _)
  return if results.all (·.isOk) then success else failure

/-- Runs an image. -/
def execImage (path : String) (time : Bool) : ExceptT Failure m UInt32 := do
  let text ← readSource path
  let code ← check (Image.decode text path)
  let (result, elapsed) ← (Host.timed (Host.runCode code) : m _)
  let outcome ← check result
  (report outcome elapsed time : m _)
  return success

/-- Does what is asked for; the shell takes at most `fuel` lines. -/
def dispatch (fuel : Nat) (request : Request) : ExceptT Failure m UInt32 := do
  let o := request.options
  let settings := (← loadSettings).override ⟨o.mode, o.tapeSize, o.bufferSize, o.outDir⟩
  check (settings.engine.validate.mapError .config)
  match request.task with
  | .shell =>
    let engine ← check (Engine.new settings.mode settings.engine settings.outputDir)
    return if ← (Shell.Session.run fuel { engine := engine } : m _) then success else breakdown
  | .run file => runSource settings (← readSource (← (locate file : m _))) o.time
  | .eval source => runSource settings source o.time
  | .compile files output => compileFiles settings files output
  | .exec image => execImage image o.time

/-- How the program is called. -/
def usage : String :=
  "Usage: " ++ programName ++ " [OPTIONS] [COMMAND]\n\n" ++
  "Commands:\n" ++
  "  run      Run a source file\n" ++
  "  eval     Run program text given on the command line\n" ++
  "  compile  Translate source files into runnable artifacts\n" ++
  "  exec     Execute a persisted artifact\n\n" ++
  "Options:\n" ++
  "      --verbose              Enable verbose logging\n" ++
  "      --time                 Print the elapsed time after each run\n" ++
  "      --tape-size <CELLS>    Number of tape cells\n" ++
  "      --buffer-size <CHARS>  Largest program the interpreter accepts, in characters\n" ++
  "      --out-dir <DIR>        Directory for artifacts with relative names\n" ++
  "  -h, --help                 Print help\n" ++
  "  -V, --version              Print version\n"

/-- The whole program: the exit code for the words of a command line. -/
def execute (fuel : Nat) (words : List String) : m UInt32 := do
  match Arguments.parse words with
  | .error .version => printLine (programName ++ " " ++ version); return success
  | .error .help => Host.print usage; return success
  | .error .usage => Host.warn usage; return misuse
  | .ok request =>
    match ← (dispatch fuel request).run with
    | .ok code => return code
    | .error why => complain why.message; return failure

end TapeLang.CommandLine
