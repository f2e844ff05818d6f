import TapeLang.Config
import TapeLang.Json
import TapeLang.Text.Blank

/-!
# Images

Code as a text file that can be run: a line that names the interpreter of the file, a line that names the format, and the
code in JSON.  Reading is forgiving about blanks and unknown members and strict about everything else; what is read must
pass `validate` before it is run.
-/

namespace TapeLang.Image

/-- The extension of image files. -/
def extension : String := "twx"

/-- The first line of an image. -/
def directive : String := "#!/usr/bin/env -S tapeworm exec"

/-- The second line of an image. -/
def format : String := "tapeworm-image v1"

/-! ## Writing -/

open Text (decimal signedDecimal)

/-- An operand in JSON: one member, named for the kind of operand. -/
def showOperand : Option Operand → List Char
  | none => "null".toList
  | some (.int v) => "\x7b\"Int\":".toList ++ signedDecimal v.toInt ++ ['\x7d']
  | some (.size n) => "\x7b\"Size\":".toList ++ decimal n ++ ['\x7d']
  | some (.label n) => "\x7b\"Label\":".toList ++ decimal n ++ ['\x7d']
  | some (.jump n) => "\x7b\"Jump\":".toList ++ decimal n ++ ['\x7d']

/-- An instruction in JSON. -/
def showInstr (i : Instr) : List Char :=
  "\x7b\"opcode\":\"".toList ++ i.opcode.name.toList ++ "\",\"operand\":".toList ++ showOperand i.operand ++ ['\x7d']

/-- Code in JSON, without blanks. -/
def showCode (c : Code) : List Char :=
  "\x7b\"instructions\":[".toList ++ [','].intercalate (c.instrs.toList.map showInstr) ++ "]\x7d".toList

/-- The image of code. -/
def encode (c : Code) : String :=
  String.ofList (directive.toList ++ '\n' :: format.toList ++ '\n' :: showCode c ++ ['\n'])

/-! ## Reading -/

/-- An operation: its name, or an object with the name as its only member and nothing in it. -/
def opcode? : Json.Value → Option Opcode
  | .string (some name) => Opcode.ofName? (String.ofList name)
  | .object [(some name, .null)] => Opcode.ofName? (String.ofList name)
  | _ => none

/-- An operand: an object with one member, named for the kind of operand. -/
def operand? : Json.Value → Option (Option Operand)
  | .null => some none
  | .object [(some kind, v)] =>
    if kind = "Int".toList then v.word?.map (some <| .int ·)
    else if kind = "Size".toList then v.count?.map (some <| .size ·)
    else if kind = "Label".toList then v.count?.map (some <| .label ·)
    else if kind = "Jump".toList then v.count?.map (some <| .jump ·)
    else none
  | _ => none

/-- An instruction: an object that names operation and operand, or a list of the two. -/
def instr? : Json.Value → Option Instr
  | .array [opcode, operand] => do return ⟨← opcode? opcode, ← operand? operand⟩
  | v => do
    let fields ← v.fields?
    let opcode ← opcode? (← ← Json.field? "opcode" fields)
    match ← Json.field? "operand" fields with
    | some operand => return ⟨opcode, ← operand? operand⟩
    | none => return ⟨opcode, none⟩

/-- Instructions in order. -/
def instrs? : Json.Value → Option Code
  | .array items => do return ⟨(← items.mapM instr?).toArray⟩
  | _ => none

/-- Code: an object that names its instructions, or a list of one element. -/
def code? : Json.Value → Option Code
  | .array [items] => instrs? items
  | v => do instrs? (← ← Json.field? "instructions" (← v.fields?))

/-- Whether an instruction has the operand that its operation wants, in code of `size` instructions. -/
def instrOk (size : Nat) (i : Instr) : Bool :=
  match i.opcode, i.operand with
  | .jump, some (.jump t) => t < size
  | .jumpIfTrue, some (.jump t) => t < size
  | .const, some (.int _) => true
  | .newTape, some (.size n) => 0 < n && n ≤ sizeLimit
  | .jump, _ => false
  | .jumpIfTrue, _ => false
  | .const, _ => false
  | .newTape, _ => false
  | _, operand => operand.isNone

/-- Whether code may be run: it starts by allocating a tape, and every operand is as it should be. -/
def validate (c : Code) : Except ImageFault Unit := do
  match c.tapeSize? with
  | some n =>
    if sizeLimit < n then throw (.tapeTooLarge n)
    if n = 0 then throw .noTape
  | none => throw .noTape
  match c.instrs.toList.zipIdx.find? fun (i, _) => !instrOk c.size i with
  | some (i, index) => throw (.badInstruction index i)
  | none => return

/-- A text cut at its first line end. -/
def cutLine (cs : List Char) : List Char × Option (List Char) :=
  (cs.takeWhile (· != '\n'), (cs.dropWhile (· != '\n')).tail?)

/-- The code of an image. -/
def decodeText (cs : List Char) : Except ImageFault Code := do
  let (first, rest) := cutLine cs
  if Text.trimEnd first ≠ directive.toList then throw .noDirective
  let some rest := rest | throw .unknownFormat
  let (second, rest) := cutLine rest
  if Text.trimEnd second ≠ format.toList then throw .unknownFormat
  let some code := Json.parse (rest.getD []) >>= code? | throw .corrupt
  validate code
  return code

/-- The code of an image that was found at a path. -/
def decode (text path : String) : Except Error Code := (decodeText text.toList).mapError (.image path)

end TapeLang.Image

namespace TapeLang

/-- A configuration in JSON: an object that names its sizes, or a list of at most two sizes. -/
def Config.ofJson? (text : String) : Option Config := do
  let base : Config := {}
  match ← Json.parse text.toList with
  | .array [] => return base
  | .array [tape] => return ⟨← tape.count?, base.bufferSize⟩
  | .array [tape, buffer] => return ⟨← tape.count?, ← buffer.count?⟩
  | v =>
    let fields ← v.fields?
    let size (name : String) (default : Nat) : Option Nat := do
      match ← Json.field? name fields with
      | some v => v.count?
      | none => return default
    return ⟨← size "tape_size" base.tapeSize, ← size "program_buffer_size" base.bufferSize⟩

end TapeLang
