import TapeLang.Cruise
import TapeLang.Interpreter

/-!
# Running program text

Between input and output only the position and the tape of an interpreter change, so a glide carries nothing else along.
This is only a quicker way to make the same steps: `cruise_glide`.
-/

namespace TapeLang.Interpreter

/-! ## Runs of moves -/

/-- Goes on from a position of a text as long as nothing is asked of the console: the steps left, the position and the
tape. -/
def glideFrom (program : Program) : Nat → Nat → Tape → Nat × Nat × Tape
  | 0, ip, tape => (0, ip, tape)
  | fuel + 1, ip, tape =>
    if h : ip < program.chars.size then
      match Op.ofChar? program.chars[ip] with
      | some .right => glideFrom program fuel (ip + 1) tape.right
      | some .left => glideFrom program fuel (ip + 1) tape.left
      | some .increment => glideFrom program fuel (ip + 1) tape.increment
      | some .decrement => glideFrom program fuel (ip + 1) tape.decrement
      | some .output | some .input => (fuel + 1, ip, tape)
      | some .loopOpen =>
        if tape.cell = 0 then
          match program.closeOf? ip with
          | some j => glideFrom program fuel (j + 1) tape
          | none => (fuel + 1, ip, tape)
        else glideFrom program fuel (ip + 1) tape
      | some .loopClose =>
        if tape.cell = 0 then glideFrom program fuel (ip + 1) tape
        else
          match program.openOf? ip with
          | some j => glideFrom program fuel (j + 1) tape
          | none => (fuel + 1, ip, tape)
      | none => glideFrom program fuel (ip + 1) tape
    else (fuel + 1, ip, tape)

/-- Goes on as long as nothing is asked of the console. -/
def glide : Glide Interpreter
  | fuel, ⟨config, tape, program, ip, phase⟩ =>
    let (left, ip, tape) := glideFrom program fuel ip tape
    (left, ⟨config, tape, program, ip, phase⟩)

theorem reaches_glideFrom (config : Config) (program : Program) (phase : Phase) (fuel ip : Nat) (tape : Tape) :
    Reaches step fuel ⟨config, tape, program, ip, phase⟩
      ((glideFrom program fuel ip tape).1,
        ⟨config, (glideFrom program fuel ip tape).2.2, program, (glideFrom program fuel ip tape).2.1, phase⟩) := by
  induction fuel generalizing ip tape with
  | zero => exact .refl
  | succ fuel ih =>
    rw [glideFrom]
    split
    next inside =>
      split
      next op => exact .move (by simp only [step, inside, ↓reduceDIte, op]) (ih ..)
      next op => exact .move (by simp only [step, inside, ↓reduceDIte, op]) (ih ..)
      next op => exact .move (by simp only [step, inside, ↓reduceDIte, op]) (ih ..)
      next op => exact .move (by simp only [step, inside, ↓reduceDIte, op]) (ih ..)
      next => exact .refl
      next => exact .refl
      next op =>
        split
        next zero =>
          split
          next partner => exact .move (by simp only [step, inside, ↓reduceDIte, op, zero, partner, if_true]) (ih ..)
          next => exact .refl
        next zero => exact .move (by simp only [step, inside, ↓reduceDIte, op, zero, if_false]) (ih ..)
      next op =>
        split
        next zero => exact .move (by simp only [step, inside, ↓reduceDIte, op, zero, if_true]) (ih ..)
        next zero =>
          split
          next partner =>
            exact .move (by simp only [step, inside, ↓reduceDIte, op, zero, partner, if_false]) (ih ..)
          next => exact .refl
      next op => exact .move (by simp only [step, inside, ↓reduceDIte, op]) (ih ..)
    next => exact .refl

theorem glide_follows : glide.Follows step := fun fuel m => reaches_glideFrom m.config m.program m.phase fuel m.ip m.tape

theorem cruise_glide {κ : Type} [Console κ] (fuel : Nat) (m : Interpreter) (k : κ) :
    cruise glide step fuel m k = drive step fuel m k :=
  cruise_eq_drive glide_follows fuel m k

/-! ## Runs -/

/-- The phase that a run leaves behind. -/
def phaseAfter : Except Error Outcome → Phase
  | .ok .halted => .halted
  | .ok .cancelled => .cancelled
  | .error _ => .loaded

/-- Runs from the current position for at most `fuel` steps. -/
def execute {κ : Type} [Console κ] (fuel : Nat) (m : Interpreter) (k : κ) : Option (Finish Interpreter κ) :=
  if m.phase = .idle then some ⟨.error .notLoaded, m, k⟩
  else
    match cruise glide step fuel { m with phase := .running } k with
    | none => none
    | some ⟨result, m, k⟩ => some ⟨result, { m with phase := phaseAfter result }, k⟩

/-- Loads a program and runs it from its start. -/
def run {κ : Type} [Console κ] (fuel : Nat) (m : Interpreter) (source : String) (k : κ) :
    Option (Finish Interpreter κ) :=
  match m.load source with
  | .error e => some ⟨.error e, m, k⟩
  | .ok m => m.execute fuel k

end TapeLang.Interpreter
