import TapeLang.Mode
import TapeLang.Text.Decimal

/-!
# Arguments

The words of a command line.  Options that concern everything may stand before or after the name of the task, once on
each side; where both sides have one, the inner side counts.  Behind `--` every word is taken as it is.
-/

namespace TapeLang.Arguments

/-- What can be asked for by name. -/
inductive Verb where
  | run
  | eval
  | compile
  | exec
deriving DecidableEq

/-- The verb with a name. -/
def Verb.ofName? : String → Option Verb
  | "run" => some run
  | "eval" => some eval
  | "compile" => some compile
  | "exec" => some exec
  | _ => none

/-- Why arguments do not name a task. -/
inductive Stop where
  /-- They are not understood. -/
  | usage
  /-- They ask for the version. -/
  | version
  /-- They ask for help. -/
  | help
deriving DecidableEq

/-- Options without a value. -/
inductive Switch where
  | verbose
  | time
  | help
  | version
deriving DecidableEq

/-- Options with a value. -/
inductive Setting where
  | tapeSize
  | bufferSize
  | outDir
  | mode
  | output
deriving DecidableEq

/-- An option, with or without a value. -/
inductive Flag where
  | switch (which : Switch)
  | setting (which : Setting)

/-- The options given on one side of a verb. -/
structure Options where
  verbose : Bool := false
  time : Bool := false
  tapeSize : Option Nat := none
  bufferSize : Option Nat := none
  outDir : Option String := none
  mode : Option Mode := none
  output : Option String := none
deriving DecidableEq

/-- The option with a long name, before any verb or behind one. -/
def longFlag? (verb : Option Verb) (name : List Char) : Option Flag :=
  match String.ofList name, verb with
  | "verbose", _ => some (.switch .verbose)
  | "time", _ => some (.switch .time)
  | "help", _ => some (.switch .help)
  | "version", none => some (.switch .version)
  | "tape-size", _ => some (.setting .tapeSize)
  | "buffer-size", _ => some (.setting .bufferSize)
  | "out-dir", _ => some (.setting .outDir)
  | "mode", some .run => some (.setting .mode)
  | "mode", some .eval => some (.setting .mode)
  | "output", some .compile => some (.setting .output)
  | _, _ => none

/-- The option with a short name. -/
def shortFlag? (verb : Option Verb) (name : Char) : Option Flag :=
  match name, verb with
  | 'h', _ => some (.switch .help)
  | 'V', none => some (.switch .version)
  | 'm', some .run => some (.setting .mode)
  | 'm', some .eval => some (.setting .mode)
  | 'o', some .compile => some (.setting .output)
  | _, _ => none

/-! ## Values -/

/-- Sizes are written in 64 bits. -/
def sizeBound : Nat := 18446744073709551616

/-- A size: digits, perhaps with a plus sign. -/
def size? (cs : List Char) : Option Nat :=
  let digits := match cs with
    | '+' :: rest => rest
    | _ => cs
  (Text.readDigits digits).filter (· < sizeBound)

/-- A path: any text but the empty one. -/
def path? (cs : List Char) : Option String := if cs = [] then none else some (String.ofList cs)

/-- Gives an option a value that it must not have yet. -/
def fresh {α : Type} (old value : Option α) : Except Stop (Option α) :=
  match old, value with
  | none, some v => .ok (some v)
  | _, _ => .error .usage

namespace Options

/-- Takes an option without a value. -/
def switch (o : Options) : Switch → Except Stop Options
  | .verbose => if o.verbose then .error .usage else .ok { o with verbose := true }
  | .time => if o.time then .error .usage else .ok { o with time := true }
  | .help => .error .help
  | .version => .error .version

/-- Takes an option with its value. -/
def set (o : Options) (which : Setting) (value : List Char) : Except Stop Options :=
  match which with
  | .tapeSize => do return { o with tapeSize := ← fresh o.tapeSize (size? value) }
  | .bufferSize => do return { o with bufferSize := ← fresh o.bufferSize (size? value) }
  | .outDir => do return { o with outDir := ← fresh o.outDir (path? value) }
  | .mode => do return { o with mode := ← fresh o.mode (Mode.parse (String.ofList value)).toOption }
  | .output => do return { o with output := ← fresh o.output (path? value) }

/-- The options of both sides of a verb together. -/
def within (inner outer : Options) : Options where
  verbose := inner.verbose || outer.verbose
  time := inner.time || outer.time
  tapeSize := inner.tapeSize.or outer.tapeSize
  bufferSize := inner.bufferSize.or outer.bufferSize
  outDir := inner.outDir.or outer.outDir
  mode := inner.mode
  output := inner.output

end Options

/-! ## Words -/

/-- What a word looks like. -/
inductive Word where
  /-- The mark behind which words are taken as they are. -/
  | escape
  /-- A long option, perhaps with a value. -/
  | long (name : List Char) (value : Option (List Char))
  /-- Short options, perhaps with a value. -/
  | short (letters : List Char)
  /-- Any other word. -/
  | plain (text : List Char)

/-- The look of a word.  A dash alone is a word like any other. -/
def Word.of : List Char → Word
  | ['-', '-'] => .escape
  | '-' :: '-' :: rest => .long (rest.takeWhile (· != '=')) (rest.dropWhile (· != '=')).tail?
  | '-' :: c :: rest => .short (c :: rest)
  | cs => .plain cs

/-- Short options in one word.  If the last one wants a value that the word does not have, it is given back. -/
def cluster (verb : Option Verb) (o : Options) : List Char → Except Stop (Options × Option Setting)
  | [] => .ok (o, none)
  | c :: cs =>
    match shortFlag? verb c with
    | none => .error .usage
    | some (.switch which) =>
      match o.switch which with
      | .ok o => cluster verb o cs
      | .error stop => .error stop
    | some (.setting which) =>
      match cs with
      | [] => .ok (o, some which)
      | '=' :: value => do return (← o.set which value, none)
      | value => do return (← o.set which value, none)

/-- Takes an option whose value is the next word, which must not look like an option. -/
def Options.setNext (o : Options) (which : Setting) (next : Option (List Char)) : Except Stop (Options × Bool) :=
  match next.map Word.of with
  | some (.plain value) => do return (← o.set which value, true)
  | _ => .error .usage

/-- Takes the options in a word; whether the next word was taken too, as a value. -/
def Options.take (verb : Option Verb) (o : Options) (next : Option (List Char)) : Word → Except Stop (Options × Bool)
  | .long name value =>
    match longFlag? verb name, value with
    | some (.switch which), none => do return (← o.switch which, false)
    | some (.setting which), some value => do return (← o.set which value, false)
    | some (.setting which), none => o.setNext which next
    | _, _ => .error .usage
  | .short letters => do
    match ← cluster verb o letters with
    | (o, none) => return (o, false)
    | (o, some which) => o.setNext which next
  | _ => .error .usage

/-- What the words before a verb lead to. -/
inductive Start where
  /-- No verb follows. -/
  | alone (options : Options)
  /-- A verb and the words behind it. -/
  | verb (options : Options) (verb : Verb) (rest : List (List Char))

/-- Help on a verb, or on all. -/
def helpOn : List (List Char) → Stop
  | [] => .help
  | [word] => if word = "help".toList ∨ (Verb.ofName? (String.ofList word)).isSome then .help else .usage
  | _ => .usage

/-- Reads the words before a verb. -/
def before (o : Options) : List (List Char) → Except Stop Start
  | [] => .ok (.alone o)
  | word :: rest =>
    match Word.of word with
    | .escape => if rest = [] then .ok (.alone o) else .error .usage
    | .plain text =>
      if text = "help".toList then .error (helpOn rest)
      else
        match Verb.ofName? (String.ofList text) with
        | some verb => .ok (.verb o verb rest)
        | none => .error .usage
    | option =>
      match o.take none rest.head? option, rest with
      | .error stop, _ => .error stop
      | .ok (o, true), _ :: rest => before o rest
      | .ok (o, _), rest => before o rest

/-- What stands behind a verb. -/
structure Given where
  /-- The options. -/
  options : Options := {}
  /-- The other words, last one first. -/
  words : List (List Char) := []

/-- Takes a word that is no option.  Only one verb takes several; program text may be empty. -/
def Given.take (verb : Verb) (given : Given) (word : List Char) : Except Stop Given :=
  if (verb ≠ .compile ∧ given.words ≠ []) ∨ (verb ≠ .eval ∧ word = []) then .error .usage
  else .ok { given with words := word :: given.words }

/-- Reads the words behind a verb. -/
def behind (verb : Verb) (given : Given) : List (List Char) → Except Stop Given
  | [] => .ok given
  | word :: rest =>
    match Word.of word with
    | .escape => rest.foldlM (Given.take verb) given
    | .plain text =>
      match given.take verb text with
      | .error stop => .error stop
      | .ok given => behind verb given rest
    | option =>
      match given.options.take (some verb) rest.head? option, rest with
      | .error stop, _ => .error stop
      | .ok (o, true), _ :: rest => behind verb { given with options := o } rest
      | .ok (o, _), rest => behind verb { given with options := o } rest

/-! ## Tasks -/

/-- What is to be done. -/
inductive Task where
  /-- The shell. -/
  | shell
  /-- Runs a program file. -/
  | run (file : String)
  /-- Runs a program text. -/
  | eval (source : String)
  /-- Compiles program files. -/
  | compile (files : List String) (output : Option String)
  /-- Runs an image. -/
  | exec (image : String)
deriving DecidableEq

/-- A task with its options. -/
structure Request where
  task : Task
  options : Options
deriving DecidableEq

/-- The task of a verb and the words behind it. -/
def taskOf (verb : Verb) (words : List String) (output : Option String) : Except Stop Task :=
  match verb, words with
  | .run, [file] => .ok (.run file)
  | .eval, [source] => .ok (.eval source)
  | .exec, [image] => .ok (.exec image)
  | .compile, file :: files => .ok (.compile (file :: files) output)
  | _, _ => .error .usage

/-- The request that the words of a command line make. -/
def parse (words : List String) : Except Stop Request := do
  match ← before {} (words.map String.toList) with
  | .alone options => return ⟨.shell, options⟩
  | .verb outer verb rest =>
    let given ← behind verb {} rest
    let task ← taskOf verb (given.words.reverse.map String.ofList) given.options.output
    return ⟨task, given.options.within outer⟩

end TapeLang.Arguments
