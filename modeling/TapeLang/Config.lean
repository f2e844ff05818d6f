import TapeLang.Error

/-!
# Configuration

The size of the tape and of the program buffer, with their limits.
-/

namespace TapeLang

/-- The sizes that an engine works with. -/
structure Config where
  /-- The number of cells of a tape. -/
  tapeSize : Nat := 30000
  /-- The largest number of characters that the interpreter takes as a program. -/
  bufferSize : Nat := 50000
deriving DecidableEq

namespace Config

/-- A size is good if it is neither zero nor above the limit. -/
def checkSize (what : Quantity) (size : Nat) : Except ConfigFault Unit :=
  if size = 0 then .error (.zero what)
  else if sizeLimit < size then .error (.tooLarge what size)
  else .ok ()

/-- Checks the tape size, then the buffer size. -/
def validate (c : Config) : Except ConfigFault Unit := do
  checkSize .tape c.tapeSize
  checkSize .buffer c.bufferSize

end Config
end TapeLang
