import TapeLang.Bracket
import TapeLang.Code.Listing

/-!
# What can go wrong

Each failure is a cause with its data; its wording is in one function per type.
-/

namespace TapeLang

/-- A refusal by the surroundings: a file system, a reader or a sink. -/
inductive Fault where
  | notFound
  | notDirectory
  | isDirectory
  | nameTooLong
  | nulInName
  | notText
  | sinkFull
  | other (text : String)
deriving DecidableEq

/-- The wording of a refusal. -/
def Fault.message : Fault → String
  | notFound => "No such file or directory (os error 2)"
  | notDirectory => "Not a directory (os error 20)"
  | isDirectory => "Is a directory (os error 21)"
  | nameTooLong => "File name too long (os error 36)"
  | nulInName => "file name contained an unexpected NUL byte"
  | notText => "stream did not contain valid UTF-8"
  | sinkFull => "failed to write whole buffer"
  | other text => text

/-- The two sizes that a configuration sets. -/
inductive Quantity where
  | tape
  | buffer
deriving DecidableEq

/-- The wording of a quantity. -/
def Quantity.label : Quantity → String
  | tape => "tape size"
  | buffer => "program buffer size"

/-- The largest size a configuration may ask for, of either quantity. -/
def sizeLimit : Nat := 16777216

/-- A refused configuration. -/
inductive ConfigFault where
  | zero (what : Quantity)
  | tooLarge (what : Quantity) (size : Nat)
deriving DecidableEq

/-- The wording of a refused configuration. -/
def ConfigFault.message : ConfigFault → String
  | zero what => what.label ++ " must be at least 1"
  | tooLarge what size => what.label ++ " " ++ toString size ++ " exceeds the limit of " ++ toString sizeLimit

/-- Why a text is not an image. -/
inductive ImageFault where
  | noDirective
  | unknownFormat
  | corrupt
  | tapeTooLarge (size : Nat)
  | noTape
  | badInstruction (index : Nat) (instruction : Instr)
deriving DecidableEq

/-- The wording of a refused image. -/
def ImageFault.message : ImageFault → String
  | noDirective => "missing run directive"
  | unknownFormat => "unrecognized image format"
  | corrupt => "corrupt image"
  | tapeTooLarge size => "tape size " ++ toString size ++ " exceeds the limit of " ++ toString sizeLimit
  | noTape => "entry code does not allocate a tape"
  | badInstruction index instruction =>
    "bad instruction at " ++ toString index ++ ": " ++ String.ofList instruction.show

/-- Code that the stack machine cannot go on with, or a label that the assembler does not know. -/
inductive MachineFault where
  | stackUnderflow
  | stackOverflow
  | noTape
  | badOperand (instruction : Instr)
  | noMarker (position : Nat)
deriving DecidableEq

/-- An operand as shown in messages. -/
def Operand.describe : Operand → String
  | int v => "Int(" ++ String.ofList (Text.signedDecimal v.toInt) ++ ")"
  | size n => "Size(" ++ toString n ++ ")"
  | label n => "Label(" ++ toString n ++ ")"
  | jump n => "Jump(" ++ toString n ++ ")"

/-- The wording of a machine fault. -/
def MachineFault.message : MachineFault → String
  | stackUnderflow => "Stack underflow"
  | stackOverflow => "Stack overflow"
  | noTape => "tape accessed before NewTape"
  | badOperand ⟨opcode, none⟩ => "invalid operand None for " ++ opcode.name
  | badOperand ⟨opcode, some operand⟩ => "invalid operand Some(" ++ operand.describe ++ ") for " ++ opcode.name
  | noMarker position => "no jump marker at position " ++ toString position

/-- Everything an engine may answer instead of an outcome. -/
inductive Error where
  | malformed (bracket : Unmatched)
  | tooLarge (length capacity : Nat)
  | notLoaded
  | config (why : ConfigFault)
  | unresolved (label : Nat)
  | image (path : String) (why : ImageFault)
  | internal (why : MachineFault)
  | io (why : Fault)
deriving DecidableEq

/-- The wording of an error: its kind, a colon and the details. -/
def Error.message : Error → String
  | malformed ⟨position, side⟩ =>
    "MalformedProgram: unmatched '" ++ side.symbol.toString ++ "' at position " ++ toString position
  | tooLarge length capacity =>
    "ProgramTooLarge: program has " ++ toString length ++ " characters, buffer holds " ++ toString capacity
  | notLoaded => "NotLoaded: no program loaded"
  | config why => "InvalidConfig: " ++ why.message
  | unresolved label => "UnresolvedLabel: label " ++ toString label ++ " was never marked"
  | image path why => "InvalidArtifact: " ++ path ++ ": " ++ why.message
  | internal why => "InternalError: " ++ why.message
  | io why => "IOError: " ++ why.message

end TapeLang
