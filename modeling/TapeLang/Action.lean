import TapeLang.Console

/-!
# Actions and runs

A machine is a step function: from a state it says what it does next.  Most steps only change the state; the others ask
something of the console, and say where the machine stands if the console refuses.  `drive` runs a machine on a console
for a bounded number of steps; `none` says that the bound was too small.
-/

namespace TapeLang

/-- How a run ends when nothing goes wrong. -/
inductive Outcome where
  /-- The program came to its end. -/
  | halted
  /-- Input was cancelled. -/
  | cancelled
deriving DecidableEq

/-- What a machine does in one step. -/
inductive Action (σ : Type) where
  /-- Goes on without the console. -/
  | move (next : σ)
  /-- Writes a byte and goes on. -/
  | write (byte : UInt8) (here next : σ)
  /-- Flushes the output, then does the rest. -/
  | flush (here : σ) (rest : Action σ)
  /-- Reads an event and does what it calls for. -/
  | read (here : σ) (next : Event → Action σ)
  /-- Ends the run. -/
  | stop (here : σ) (result : Except Error Outcome)

/-- A machine and its console after one step. -/
inductive Turn (σ κ : Type) where
  /-- The machine goes on. -/
  | going (state : σ) (console : κ)
  /-- The run is over. -/
  | over (result : Except Error Outcome) (state : σ) (console : κ)

/-- Carries out an action.  A refusal ends the run where the action says. -/
def Action.perform {σ κ : Type} [Console κ] : Action σ → κ → Turn σ κ
  | move next, k => .going next k
  | write byte here next, k =>
    match Console.write byte k with
    | (.ok (), k) => .going next k
    | (.error f, k) => .over (.error (.io f)) here k
  | flush here rest, k =>
    match Console.flush k with
    | (.ok (), k) => rest.perform k
    | (.error f, k) => .over (.error (.io f)) here k
  | read here next, k =>
    match Console.read k with
    | (.ok e, k) => (next e).perform k
    | (.error f, k) => .over (.error (.io f)) here k
  | stop here result, k => .over result here k

/-- A finished run. -/
structure Finish (σ κ : Type) where
  /-- Its result. -/
  result : Except Error Outcome
  /-- The state that the machine stopped in. -/
  state : σ
  /-- What is left of the console. -/
  console : κ

/-- Carries out an action and goes on with `next`, if the machine goes on. -/
@[inline] def Action.proceed {σ κ : Type} [Console κ] (action : Action σ) (k : κ) (next : σ → κ → Option (Finish σ κ)) :
    Option (Finish σ κ) :=
  match action with
  | move s => next s k
  | action =>
    match action.perform k with
    | .going s k => next s k
    | .over result s k => some ⟨result, s, k⟩

/-- Runs a machine for at most `fuel` steps. -/
@[specialize] def drive {σ κ : Type} [Console κ] (step : σ → Action σ) : Nat → σ → κ → Option (Finish σ κ)
  | 0, _, _ => none
  | fuel + 1, s, k => (step s).proceed k (drive step fuel)

end TapeLang
