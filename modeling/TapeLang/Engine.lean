import TapeLang.Image
import TapeLang.Interpreter.Run
import TapeLang.Machine.Run
import TapeLang.Mode
import TapeLang.Path

/-!
# Engines

A translator compiles programs for one tape size and knows where their images go.  An engine holds an interpreter and a
translator of the same configuration and runs programs with one of them.
-/

namespace TapeLang

/-- Compiles programs, and names the files of their images. -/
structure Translator where
  /-- The number of cells that its code allocates. -/
  tapeSize : Nat
  /-- The directory for images with relative names. -/
  directory : String

namespace Translator

/-- The directory used when none is named. -/
def here : String := "."

/-- A translator for tapes of a good size. -/
def new (tapeSize : Nat) (directory : Option String) : Except Error Translator := do
  ({ tapeSize := tapeSize } : Config).validate.mapError .config
  return ⟨tapeSize, directory.getD here⟩

/-- The code of a program. -/
def emit (t : Translator) (source : String) : Except Error Code := compile t.tapeSize (.ofString source)

/-- The path of the image named `destination`. -/
def resolve (t : Translator) (destination : String) : String :=
  String.ofList <|
    Path.withDefaultExtension (Path.join t.directory.toList destination.toList) Image.extension.toList

end Translator

/-- Both ways of running programs, one of them chosen. -/
structure Engine where
  /-- The one that is used. -/
  mode : Mode
  /-- The interpreter. -/
  interpreter : Interpreter
  /-- The translator. -/
  translator : Translator

namespace Engine

/-- An engine of the default sizes. -/
def default (mode : Mode) : Engine := ⟨mode, .idle {}, ⟨({} : Config).tapeSize, Translator.here⟩⟩

/-- An engine of a good configuration. -/
def new (mode : Mode) (config : Config) (directory : Option String) : Except Error Engine := do
  return ⟨mode, ← Interpreter.new config, ← Translator.new config.tapeSize directory⟩

/-- Runs a program for at most `fuel` steps. -/
def run {κ : Type} [Console κ] (fuel : Nat) (e : Engine) (source : String) (k : κ) : Option (Finish Engine κ) :=
  match e.mode with
  | .interpret => (e.interpreter.run fuel source k).map fun f => ⟨f.result, { e with interpreter := f.state }, f.console⟩
  | .translate =>
    match e.translator.emit source with
    | .error why => some ⟨.error why, e, k⟩
    | .ok code => (code.run fuel k).map fun f => ⟨f.result, e, f.console⟩

end Engine
end TapeLang
