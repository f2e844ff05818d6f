import TapeLang.Machine.Registers
import TapeLang.Machine.Stride

/-!
# Running code

A machine that runs code takes strides where it can, goes on in registers where it cannot, and makes single steps only
where the console is asked or something goes wrong.  These are quicker ways to make the same steps: `execute_eq_drive`.
-/

namespace TapeLang
namespace Machine

/-- Goes on as long as nothing is asked of the console and nothing goes wrong. -/
@[inline] def glide (code : Code) (strides : Array Stride) : Glide Machine :=
  (glideByStrides strides).andThen (glideInRegisters code)

theorem glide_follows (code : Code) : (glide code code.strides).Follows (step code) :=
  (glideByStrides_follows code).andThen (glideInRegisters_follows code)

/-- Runs code from its first instruction for at most `fuel` steps, whatever the machine did before. -/
def execute {κ : Type} [Console κ] (fuel : Nat) (m : Machine) (code : Code) (k : κ) : Option (Finish Machine κ) :=
  cruise (glide code code.strides) (step code) fuel { m with ip := 0, stack := [], tape := none, cancelled := false } k

theorem execute_eq_drive {κ : Type} [Console κ] (fuel : Nat) (m : Machine) (code : Code) (k : κ) :
    m.execute fuel code k = drive (step code) fuel start k :=
  cruise_eq_drive (glide_follows code) fuel start k

end Machine

/-- Runs code on a machine of its own. -/
def Code.run {κ : Type} [Console κ] (fuel : Nat) (code : Code) (k : κ) : Option (Finish Machine κ) :=
  Machine.start.execute fuel code k

end TapeLang
