import TapeLang.Host

/-!
# Stored images

Images are written as executable files and read back.  Nothing is written for a program that cannot be compiled.  Several
images are written at the same time: each is an errand, a few operations on files in their order, and the host says how the
operations of different errands come one after another.
-/

namespace TapeLang

/-! ## Errands -/

/-- Something to be done with files, one operation after another, that comes to a result. -/
inductive Errand (α : Type) where
  /-- Nothing is left to do. -/
  | done (result : α)
  /-- Fills a file. -/
  | write (path text : String) (next : Except Fault Unit → Errand α)
  /-- Lets everyone execute a file. -/
  | makeExecutable (path : String) (next : Except Fault Unit → Errand α)
  /-- Asks for the path of a file from the root. -/
  | canonical (path : String) (next : Except Fault String → Errand α)

namespace Errand

/-- Goes on unless the host refused. -/
def unlessRefused {α β : Type} (next : β → Errand (Except Error α)) : Except Fault β → Errand (Except Error α)
  | .ok b => next b
  | .error f => .done (.error (.io f))

variable {m : Type → Type} [Monad m] [Host m] {α : Type}

/-- Does one operation. -/
def advance : Errand α → m (Errand α)
  | done result => return .done result
  | write path text next => return next (← Host.writeText path text)
  | makeExecutable path next => return next (← Host.makeExecutable path)
  | canonical path next => return next (← Host.canonical path)

/-- Does all there is to do. -/
def run : Errand α → m α
  | done result => return result
  | write path text next => do (next (← Host.writeText path text)).run
  | makeExecutable path next => do (next (← Host.makeExecutable path)).run
  | canonical path next => do (next (← Host.canonical path)).run

/-- Does one operation at each turn, of the errand with that number. -/
def interleave : List Nat → List (Errand α) → m (List (Errand α))
  | [], errands => return errands
  | i :: turns, errands =>
    match errands[i]? with
    | some errand => do interleave turns (errands.set i (← errand.advance))
    | none => interleave turns errands

/-- Does errands at the same time: as long as the host says which of them goes on next, and then each of them to its end. -/
def together (errands : List (Errand α)) : m (List α) := do
  (← interleave (← Host.turns) errands).mapM run

end Errand

/-! ## Images in files -/

/-- Writes the image of code to a file and gives the path of that file from the root. -/
def Image.saving (code : Code) (path : String) : Errand (Except Error String) :=
  .write path (encode code) <| .unlessRefused fun _ =>
    .makeExecutable path <| .unlessRefused fun _ =>
      .canonical path <| .unlessRefused fun name => .done (.ok name)

variable {m : Type → Type} [Monad m] [Host m]

/-- What a host refuses is an error. -/
def refusal {α : Type} (x : m (Except Fault α)) : ExceptT Error m α :=
  ExceptT.mk ((fun r => r.mapError Error.io) <$> x)

/-- Writes the image of code to a file and gives the path of that file from the root. -/
def Image.save (code : Code) (path : String) : ExceptT Error m String := ExceptT.mk (saving code path).run

/-- The code of an image in a file. -/
def Image.load (path : String) : ExceptT Error m Code := do
  let text ← refusal (Host.readText path)
  ExceptT.mk (pure (decode text path))

namespace Translator

/-- Compiles a program into the image named `destination`. -/
def translating (t : Translator) (source destination : String) : Errand (Except Error String) :=
  match t.emit source with
  | .ok code => Image.saving code (t.resolve destination)
  | .error why => .done (.error why)

/-- Compiles a program into the image named `destination`. -/
def translateTo (t : Translator) (source destination : String) : ExceptT Error m String :=
  ExceptT.mk (t.translating source destination).run

/-- Compiles programs into images, all at the same time.  Each has a result of its own. -/
def translateAllTo (t : Translator) (jobs : List (String × String)) : m (List (Except Error String)) :=
  Errand.together (jobs.map fun job => t.translating job.1 job.2)

end Translator
end TapeLang
