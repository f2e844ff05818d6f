import TapeLang.Action

/-!
# Cruising

Most steps of a machine are moves.  A glide makes many of them at once, in whatever form is quick, and says how many
steps are left; `cruise` glides before every single step.  When a glide makes the machine's own moves and no others,
cruising is driving: `cruise_eq_drive`.
-/

namespace TapeLang

variable {σ κ : Type} [Console κ]

/-- Makes moves: from a number of steps and a state to the number of steps left and the state reached. -/
abbrev Glide (σ : Type) := Nat → σ → Nat × σ

/-- Runs a machine for at most `fuel` steps with at most `turns` glides. -/
@[specialize] def cruiseFor (glide : Glide σ) (step : σ → Action σ) : Nat → Nat → σ → κ → Option (Finish σ κ)
  | 0, _, _, _ => none
  | turns + 1, fuel, s, k =>
    match glide fuel s with
    | (0, _) => none
    | (fuel + 1, s) => (step s).proceed k (cruiseFor glide step turns fuel)

/-- Runs a machine for at most `fuel` steps, gliding where it can.  There is a step after every glide. -/
@[inline] def cruise (glide : Glide σ) (step : σ → Action σ) (fuel : Nat) (s : σ) (k : κ) : Option (Finish σ κ) :=
  cruiseFor glide step fuel fuel s k

/-- A number of moves leads from one state to another. -/
inductive Moves (step : σ → Action σ) : Nat → σ → σ → Prop
  | refl (s : σ) : Moves step 0 s s
  | move {n : Nat} {s t u : σ} : step s = .move t → Moves step n t u → Moves step (n + 1) s u

/-- Moves lead from a state with `fuel` steps to go to another, and those that are left are counted. -/
def Reaches (step : σ → Action σ) (fuel : Nat) (s : σ) (reached : Nat × σ) : Prop :=
  ∃ n, reached.1 + n = fuel ∧ Moves step n s reached.2

namespace Glide

/-- A glide makes moves of a machine and counts them. -/
def Follows (glide : Glide σ) (step : σ → Action σ) : Prop := ∀ fuel s, Reaches step fuel s (glide fuel s)

/-- One glide after another. -/
@[inline] def andThen (first second : Glide σ) : Glide σ
  | fuel, s =>
    let (fuel, s) := first fuel s
    second fuel s

end Glide

namespace Moves

variable {step : σ → Action σ}

theorem single {s t : σ} (h : step s = .move t) : Moves step 1 s t := .move h (.refl t)

theorem trans {n m : Nat} {s t u : σ} (h : Moves step n s t) (h' : Moves step m t u) : Moves step (n + m) s u := by
  induction h with
  | refl => simpa using h'
  | move hs _ ih => rw [Nat.add_right_comm]; exact .move hs (ih h')

/-- Moves are steps of a run. -/
theorem drive_eq {n : Nat} {s t : σ} (h : Moves step n s t) (fuel : Nat) (k : κ) :
    drive step (fuel + n) s k = drive step fuel t k := by
  induction h with
  | refl => rfl
  | move hs _ ih => rw [← ih, ← Nat.add_assoc, drive, hs, Action.proceed]

end Moves

namespace Reaches

variable {step : σ → Action σ} {fuel : Nat} {s t : σ} {reached : Nat × σ}

theorem refl : Reaches step fuel s (fuel, s) := ⟨0, rfl, .refl s⟩

theorem moves {n : Nat} (h : Moves step n s t) (h' : Reaches step fuel t reached) :
    Reaches step (fuel + n) s reached := by
  obtain ⟨m, counted, moves⟩ := h'
  exact ⟨n + m, by omega, h.trans moves⟩

theorem move (h : step s = .move t) (h' : Reaches step fuel t reached) : Reaches step (fuel + 1) s reached :=
  .moves (.single h) h'

theorem trans {left : Nat} (h : Reaches step fuel s (left, t)) (h' : Reaches step left t reached) :
    Reaches step fuel s reached := by
  obtain ⟨n, counted, moves⟩ := h
  exact counted ▸ h'.moves moves

end Reaches

theorem Glide.Follows.andThen {first second : Glide σ} {step : σ → Action σ} (h : first.Follows step)
    (h' : second.Follows step) : (first.andThen second).Follows step :=
  fun fuel s => (h fuel s).trans (h' _ _)

/-- Gliding along a machine does not change where a run ends. -/
theorem cruiseFor_eq_drive {glide : Glide σ} {step : σ → Action σ} (h : glide.Follows step) {turns fuel : Nat}
    (enough : fuel ≤ turns) (s : σ) (k : κ) : cruiseFor glide step turns fuel s k = drive step fuel s k := by
  induction turns generalizing fuel s k with
  | zero => rw [Nat.le_zero.1 enough]; rfl
  | succ turns ih =>
    obtain ⟨n, counted, moves⟩ := h fuel s
    rw [cruiseFor]
    split
    next t glided =>
      rw [glided] at counted moves
      rw [← counted, moves.drive_eq, drive]
    next left t glided =>
      rw [glided] at counted moves
      have le : left ≤ turns := by simp only at counted; omega
      have onward : (cruiseFor glide step turns left : σ → κ → Option (Finish σ κ)) = drive step left := by
        funext s k
        exact ih le s k
      rw [← counted, moves.drive_eq, drive, onward]

/-- A run that glides is a run. -/
theorem cruise_eq_drive {glide : Glide σ} {step : σ → Action σ} (h : glide.Follows step) (fuel : Nat) (s : σ) (k : κ) :
    cruise glide step fuel s k = drive step fuel s k :=
  cruiseFor_eq_drive h (Nat.le_refl fuel) s k

end TapeLang
