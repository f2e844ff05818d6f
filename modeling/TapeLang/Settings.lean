import TapeLang.Engine
import TapeLang.Toml.Document

/-!
# Settings

What a user can choose: the engine, its sizes, and where images go.  Settings come from a file, then from the environment,
then from options; what comes later counts.
-/

namespace TapeLang

/-- The choices of a user. -/
structure Settings where
  /-- The engine that runs programs. -/
  mode : Mode := .default
  /-- The directory for images with relative names. -/
  outputDir : Option String := none
  /-- The sizes of the engine. -/
  engine : Config := {}
deriving DecidableEq

namespace Settings

/-! ## From a file -/

open Toml (Value Entries)

/-- A size: a number that is not negative. -/
def size? : Value → Option Nat
  | .integer v => if 0 ≤ v then some v.toNat else none
  | _ => none

/-- Whether a value has nothing in it. -/
def isEmpty : Value → Bool
  | .array items => items.isEmpty
  | .table _ entries => entries.isEmpty
  | .tables items => items.isEmpty
  | _ => false

/-- The mode with exactly this name. -/
def modeNamed? (name : String) : Option Mode := [Mode.interpret, .translate].find? (·.name = name)

/-- A mode: its name, or a table with the name as its only key and nothing in it. -/
def mode? : Value → Option Mode
  | .string name => modeNamed? (String.ofList name)
  | .table _ [(name, v)] => if isEmpty v then modeNamed? name else none
  | _ => none

/-- The size of a key, or what it is otherwise. -/
def sizeOr (otherwise : Nat) (v : Option Value) : Option Nat :=
  match v with
  | some v => size? v
  | none => some otherwise

/-- Sizes: a table that names them, or an array that starts with them.  A point in time names none. -/
def engine? : Value → Option Config
  | .table _ entries => do
    return ⟨← sizeOr ({} : Config).tapeSize (Entries.get? entries "tape_size"),
      ← sizeOr ({} : Config).bufferSize (Entries.get? entries "program_buffer_size")⟩
  | .array items => do
    return ⟨← sizeOr ({} : Config).tapeSize items[0]?, ← sizeOr ({} : Config).bufferSize items[1]?⟩
  | .time => some {}
  | _ => none

/-- A directory. -/
def directory? : Value → Option String
  | .string text => some (String.ofList text)
  | _ => none

/-- Settings from the entries of a document.  Keys with other names do not count. -/
def ofEntries? (entries : Entries) : Option Settings := do
  let mode ← match entries.get? "mode" with
    | some v => mode? v
    | none => some Mode.default
  let outputDir ← match entries.get? "output_dir" with
    | some v => (directory? v).map some
    | none => some none
  let engine ← match entries.get? "engine" with
    | some v => engine? v
    | none => some {}
  return { mode := mode, outputDir := outputDir, engine := engine }

/-- Settings from the text of a file. -/
def parse (text : String) : Option Settings := Toml.parse text.toList >>= ofEntries?

/-! ## From elsewhere -/

/-- Choices that go before others. -/
structure Overrides where
  mode : Option Mode := none
  tapeSize : Option Nat := none
  bufferSize : Option Nat := none
  outputDir : Option String := none

/-- Settings with some choices made anew. -/
def override (s : Settings) (o : Overrides) : Settings where
  mode := o.mode.getD s.mode
  outputDir := o.outputDir.or s.outputDir
  engine := ⟨o.tapeSize.getD s.engine.tapeSize, o.bufferSize.getD s.engine.bufferSize⟩

/-- The choices of an environment with these two variables.  A mode that is not understood does not count. -/
def Overrides.ofEnvironment (mode directory : Option String) : Overrides where
  mode := mode.bind fun m => (Mode.parse m).toOption
  outputDir := directory

/-- A translator of these settings. -/
def translator (s : Settings) : Except Error Translator := Translator.new s.engine.tapeSize s.outputDir

end Settings
end TapeLang
