import TapeLang.Engine
import TapeLang.Proofs.Lifecycle

/-!
# TapeLang.Proofs.History — runs after other runs

Several clients use one engine, or one interpreter behind a lock.  The lock is held for a whole request, so what happens is a
list of requests, each with the client that made it, and every order in which the clients can come is such a list.  Some of
the requests fail, and some leave a program half run.

* `Served serves start history s`: requests of any clients, one after another, lead from `start` to `s`.
* `Interpreter.Request`, `Engine.Request`: what clients ask for.  `Interpreter.Serves`, `Engine.Serves`: what comes of it.
* `Interpreter.RunsAsNew`, `Engine.RunsAsNew`: a run that is just like the same run on something new.
* **`Engine.runs_as_new`**: after every history every run is like that, on engines, on shared interpreters, and on stack
  machines, whatever state they are in.
-/

namespace TapeLang

/-! ## Requests in some order -/

section Requests

/-- Requests of any number of clients, served one after another. -/
inductive Served {σ : Type} {ρ : Type 1} (serves : σ → ρ → σ → Prop) (start : σ) : List (Nat × ρ) → σ → Prop
  | nil : Served serves start [] start
  | next {history : List (Nat × ρ)} {s s' : σ} {request : ρ} (client : Nat) : Served serves start history s →
      serves s request s' → Served serves start (history ++ [(client, request)]) s'

theorem Served.keeps {σ : Type} {ρ : Type 1} {serves : σ → ρ → σ → Prop} {start s : σ} {history : List (Nat × ρ)}
    {P : σ → Prop} (h : Served serves start history s) (hstart : P start)
    (hkeeps : ∀ s request s', P s → serves s request s' → P s') : P s := by
  induction h with
  | nil => exact hstart
  | next client _ hserves ih => exact hkeeps _ _ _ ih hserves

end Requests

/-- What whoever asked for a run gets: how it ended, and what is left of the console. -/
def Finish.answer {σ κ : Type} (f : Finish σ κ) : Except Error Outcome × κ := (f.result, f.console)

/-! ## Interpreters -/

namespace Interpreter

variable {κ : Type} [Console κ] {config : Config} {m m' m₀ : Interpreter} {history : List (Nat × Request)}

/-- What a client asks of an interpreter that it shares with others. -/
inductive Request : Type 1 where
  /-- Load a program and execute it. -/
  | run (source : String) {κ : Type} [Console κ] (k : κ)
  /-- Load a program. -/
  | load (source : String)
  /-- Execute what is loaded. -/
  | execute {κ : Type} [Console κ] (k : κ)
  /-- Forget everything. -/
  | reset

/-- A request that comes back, and the interpreter after it. -/
inductive Serves : Interpreter → Request → Interpreter → Prop
  | run {m : Interpreter} {source : String} {κ : Type} [Console κ] {k : κ} {fuel : Nat} {f : Finish Interpreter κ} :
      m.run fuel source k = some f → Serves m (.run source k) f.state
  | load {m m' : Interpreter} {source : String} : m.load source = .ok m' → Serves m (.load source) m'
  | refuse {m : Interpreter} {source : String} {e : Error} : m.load source = .error e → Serves m (.load source) m
  | execute {m : Interpreter} {κ : Type} [Console κ] {k : κ} {fuel : Nat} {f : Finish Interpreter κ} :
      m.execute fuel k = some f → Serves m (.execute k) f.state
  | reset {m : Interpreter} : Serves m .reset m.reset

/-- A run that is just like the one on `new`.  The console is of any kind, so this is about every byte, flush and event. -/
structure RunsAsNew (m new : Interpreter) (fuel : Nat) (source : String) (k : κ) : Prop where
  /-- The answer is the same. -/
  answer_eq : (m.run fuel source k).map Finish.answer = (new.run fuel source k).map Finish.answer
  /-- If the program loads, the interpreter is the same after it. -/
  of_loaded : ∀ m', m.load source = .ok m' → m.run fuel source k = new.run fuel source k
  /-- Otherwise it is as it was. -/
  of_refused : ∀ e, m.load source = .error e → m.run fuel source k = some ⟨.error e, m, k⟩

theorem run_of_load {source : String} (h : m.load source = .ok m') (fuel : Nat) (k : κ) :
    m.run fuel source k = m'.execute fuel k := by
  rw [run, h]

theorem run_of_refusal {source : String} {e : Error} (h : m.load source = .error e) (fuel : Nat) (k : κ) :
    m.run fuel source k = some ⟨.error e, m, k⟩ := by
  rw [run, h]

/-- All that `load` sees of an interpreter is its configuration and what a reset makes of it. -/
theorem load_congr (hconfig : m.config = m'.config) (hreset : m.reset = m'.reset) (source : String) :
    m.load source = m'.load source := by
  unfold load
  rw [hconfig, hreset]

theorem WellFormed.load_eq (hm : m.WellFormed config) (hm' : m'.WellFormed config) (source : String) :
    m.load source = m'.load source :=
  load_congr (hm.config_eq.trans hm'.config_eq.symm) (hm.reset_eq.trans hm'.reset_eq.symm) source

/-- Every well-formed interpreter runs a program like every other of its configuration. -/
theorem WellFormed.runsAsNew (hm : m.WellFormed config) (hm' : m'.WellFormed config) (fuel : Nat) (source : String)
    (k : κ) : m.RunsAsNew m' fuel source k := by
  have hload : m.load source = m'.load source := hm.load_eq hm' source
  cases h : m.load source with
  | ok loaded =>
    have hrun : m.run fuel source k = m'.run fuel source k := by
      rw [run_of_load h, run_of_load (hload ▸ h)]
    exact ⟨by rw [hrun], fun _ _ => hrun, fun e he => by rw [h] at he; cases he⟩
  | error why =>
    have hrun : m.run fuel source k = some ⟨.error why, m, k⟩ := run_of_refusal h fuel k
    have hrun' : m'.run fuel source k = some ⟨.error why, m', k⟩ := run_of_refusal (hload ▸ h) fuel k
    refine ⟨?_, fun loaded hl => ?_, fun e he => ?_⟩
    · rw [hrun, hrun']
      rfl
    · rw [h] at hl
      cases hl
    · rw [h] at he
      cases he
      exact hrun

theorem Lives.run (h : Lives config m) {fuel : Nat} {source : String} {k : κ} {f : Finish Interpreter κ}
    (hrun : m.run fuel source k = some f) : Lives config f.state := by
  cases hload : m.load source with
  | ok loaded =>
    rw [run_of_load hload] at hrun
    exact (h.call (.load hload)).call (.execute hrun)
  | error why =>
    rw [run_of_refusal hload] at hrun
    cases hrun
    exact h

theorem Lives.serves {request : Request} (h : Lives config m) (hserves : Serves m request m') : Lives config m' := by
  cases hserves with
  | run hrun => exact h.run hrun
  | load hload => exact h.call (.load hload)
  | refuse hload => exact h.call (.refuse hload)
  | execute hexecute => exact h.call (.execute hexecute)
  | reset => exact h.call .reset

theorem lives_of_served (hnew : Interpreter.new config = .ok m₀) (h : Served Serves m₀ history m) : Lives config m :=
  h.keeps (.new hnew) fun _ _ _ => Lives.serves

end Interpreter

/-! ## Engines -/

namespace Engine

variable {κ : Type} [Console κ] {mode : Mode} {config : Config} {directory : Option String} {e e' e₀ : Engine}
  {history : List (Nat × Request)}

/-- What a client asks of an engine. -/
inductive Request : Type 1 where
  /-- Run a program. -/
  | run (source : String) {κ : Type} [Console κ] (k : κ)
  /-- Use this mode from now on. -/
  | switch (mode : Mode)
  /-- Compile a program. -/
  | emit (source : String)

/-- A request that comes back, and the engine after it. -/
inductive Serves : Engine → Request → Engine → Prop
  | run {e : Engine} {source : String} {κ : Type} [Console κ] {k : κ} {fuel : Nat} {f : Finish Engine κ} :
      e.run fuel source k = some f → Serves e (.run source k) f.state
  | switch {e : Engine} (mode : Mode) : Serves e (.switch mode) { e with mode := mode }
  | emit {e : Engine} (source : String) : Serves e (.emit source) e

/-- A run that is just like the one on `new`. -/
structure RunsAsNew (e new : Engine) (fuel : Nat) (source : String) (k : κ) : Prop where
  /-- The answer is the same. -/
  answer_eq : (e.run fuel source k).map Finish.answer = (new.run fuel source k).map Finish.answer
  /-- If the interpreter loads the program, the engine is the same after it. -/
  of_loaded : e.mode = .interpret → ∀ m', e.interpreter.load source = .ok m' → e.run fuel source k = new.run fuel source k
  /-- If the interpreter refuses it, the engine is as it was. -/
  of_refused : e.mode = .interpret → ∀ why, e.interpreter.load source = .error why →
    e.run fuel source k = some ⟨.error why, e, k⟩
  /-- A program that is compiled leaves the engine as it was in any case. -/
  of_translated : e.mode = .translate → ∀ f, e.run fuel source k = some f → f.state = e

/-- What is known of an engine after any history. -/
structure Lives (config : Config) (directory : Option String) (e : Engine) : Prop where
  interpreter : e.interpreter.Lives config
  translator : Translator.new config.tapeSize directory = .ok e.translator

theorem run_interpret (h : e.mode = .interpret) (fuel : Nat) (source : String) (k : κ) :
    e.run fuel source k = (e.interpreter.run fuel source k).map fun f =>
      ⟨f.result, { e with interpreter := f.state }, f.console⟩ := by
  rw [run, h]

theorem run_of_emit_error (h : e.mode = .translate) {source : String} {why : Error}
    (hemit : e.translator.emit source = .error why) (fuel : Nat) (k : κ) :
    e.run fuel source k = some ⟨.error why, e, k⟩ := by
  simp only [run, h, hemit]

theorem run_of_emit_ok (h : e.mode = .translate) {source : String} {code : Code}
    (hemit : e.translator.emit source = .ok code) (fuel : Nat) (k : κ) :
    e.run fuel source k = (code.run fuel k).map fun f => ⟨f.result, e, f.console⟩ := by
  simp only [run, h, hemit]

/-- Compiled programs run outside the engine. -/
theorem state_of_run_translate (h : e.mode = .translate) {fuel : Nat} {source : String} {k : κ} {f : Finish Engine κ}
    (hrun : e.run fuel source k = some f) : f.state = e := by
  cases hemit : e.translator.emit source with
  | error why =>
    rw [run_of_emit_error h hemit] at hrun
    cases hrun
    rfl
  | ok code =>
    rw [run_of_emit_ok h hemit] at hrun
    obtain ⟨g, -, rfl⟩ := Option.map_eq_some_iff.mp hrun
    rfl

theorem new_eq_ok (mode : Mode) {m : Interpreter} {t : Translator} (hm : Interpreter.new config = .ok m)
    (ht : Translator.new config.tapeSize directory = .ok t) : Engine.new mode config directory = .ok ⟨mode, m, t⟩ := by
  rw [Engine.new, hm, ht]
  rfl

theorem of_new (h : Engine.new mode config directory = .ok e) :
    Interpreter.new config = .ok e.interpreter ∧ Translator.new config.tapeSize directory = .ok e.translator := by
  cases hm : Interpreter.new config with
  | error why =>
    rw [Engine.new, hm] at h
    cases h
  | ok m =>
    cases ht : Translator.new config.tapeSize directory with
    | error why =>
      rw [Engine.new, hm, ht] at h
      cases h
    | ok t =>
      rw [new_eq_ok mode hm ht] at h
      cases h
      exact ⟨rfl, rfl⟩

/-- An engine of the default sizes is a new one, too. -/
theorem new_default (mode : Mode) : Engine.new mode {} none = .ok (.default mode) := rfl

theorem Lives.serves {request : Request} (h : Lives config directory e) (hserves : Serves e request e') :
    Lives config directory e' := by
  cases hserves with
  | switch => exact ⟨h.interpreter, h.translator⟩
  | emit => exact h
  | @run source κ _ k fuel f hrun =>
    cases hmode : e.mode with
    | interpret =>
      rw [run_interpret hmode] at hrun
      obtain ⟨g, hg, rfl⟩ := Option.map_eq_some_iff.mp hrun
      exact ⟨h.interpreter.run hg, h.translator⟩
    | translate =>
      rw [state_of_run_translate hmode hrun]
      exact h

theorem lives_of_served (hnew : Engine.new mode config directory = .ok e₀) (h : Served Serves e₀ history e) :
    Lives config directory e := by
  obtain ⟨hm, ht⟩ := of_new hnew
  exact h.keeps ⟨.new hm, ht⟩ fun _ _ _ => Lives.serves

/-- Two engines with the same mode, the same translator, and interpreters of the same configuration. -/
theorem Lives.runsAsNew (h : Lives config directory e) (h' : Lives config directory e') (hmode : e.mode = e'.mode)
    (fuel : Nat) (source : String) (k : κ) : e.RunsAsNew e' fuel source k := by
  have htranslator : e.translator = e'.translator := Except.ok.inj (h.translator.symm.trans h'.translator)
  cases hm : e.mode with
  | interpret =>
    have hm' : e'.mode = .interpret := hmode ▸ hm
    have hruns : e.interpreter.RunsAsNew e'.interpreter fuel source k :=
      h.interpreter.rests.runsAsNew h'.interpreter.rests.toWellFormed fuel source k
    have hne : e.mode ≠ .translate := by
      rw [hm]
      decide
    refine ⟨?_, fun _ m' hload => ?_, fun _ why hrefused => ?_, fun ht => absurd ht hne⟩
    · rw [run_interpret hm, run_interpret hm', Option.map_map, Option.map_map]
      exact hruns.answer_eq
    · rw [run_interpret hm, run_interpret hm', hruns.of_loaded m' hload, hmode, htranslator]
    · rw [run_interpret hm, hruns.of_refused why hrefused]
      rfl
  | translate =>
    have hm' : e'.mode = .translate := hmode ▸ hm
    have hne : e.mode ≠ .interpret := by
      rw [hm]
      decide
    refine ⟨?_, fun hi => absurd hi hne, fun hi => absurd hi hne, fun ht f => state_of_run_translate ht⟩
    cases hemit : e.translator.emit source with
    | error why =>
      rw [run_of_emit_error hm hemit, run_of_emit_error hm' (htranslator ▸ hemit)]
      rfl
    | ok code =>
      rw [run_of_emit_ok hm hemit, run_of_emit_ok hm' (htranslator ▸ hemit), Option.map_map, Option.map_map]
      rfl

/-- **Runs do not depend on what was done before.**  On an engine, whatever its clients have run, switched and compiled; on an
interpreter that is shared, whatever its clients have run, loaded, executed and reset: a run comes to what it comes to on a
new one.  A run of a program that does not load, and any run that compiles, leaves the interpreter as it was.  On a stack
machine, in whatever state it is, code runs as on a new one. -/
theorem runs_as_new :
    (∀ (mode : Mode) (config : Config) (directory : Option String) (e₀ e : Engine) (history : List (Nat × Request)),
      Engine.new mode config directory = .ok e₀ → Served Serves e₀ history e →
        ∃ new, Engine.new e.mode config directory = .ok new ∧
          ∀ {κ : Type} [Console κ] (fuel : Nat) (source : String) (k : κ), e.RunsAsNew new fuel source k) ∧
    (∀ (config : Config) (m₀ m : Interpreter) (history : List (Nat × Interpreter.Request)),
      Interpreter.new config = .ok m₀ → Served Interpreter.Serves m₀ history m →
        ∀ {κ : Type} [Console κ] (fuel : Nat) (source : String) (k : κ), m.RunsAsNew m₀ fuel source k) ∧
    ∀ (m : Machine) (code : Code) {κ : Type} [Console κ] (fuel : Nat) (k : κ),
      m.execute fuel code k = Machine.start.execute fuel code k := by
  refine ⟨?_, ?_, ?_⟩
  · intro mode config directory e₀ e history hnew hserved
    have hlives : Lives config directory e := lives_of_served hnew hserved
    obtain ⟨hm, ht⟩ := of_new hnew
    have hnew' : Engine.new e.mode config directory = .ok { e₀ with mode := e.mode } := new_eq_ok e.mode hm ht
    have hlives' : Lives config directory { e₀ with mode := e.mode } := lives_of_served hnew' .nil
    exact ⟨_, hnew', fun fuel source k => hlives.runsAsNew hlives' rfl fuel source k⟩
  · intro config m₀ m history hnew hserved κ _ fuel source k
    have hlives : m.Lives config := Interpreter.lives_of_served hnew hserved
    have hnew' : m₀.Lives config := .new hnew
    exact hlives.rests.runsAsNew hnew'.rests.toWellFormed fuel source k
  · intro m code κ _ fuel k
    rw [Machine.execute_eq_drive, Machine.execute_eq_drive]

/-- One client's input is cancelled behind a used cell, another's program is refused, a third compiles one and runs it; then
the used cell is not seen by a fourth.  The same on an interpreter that was left before its end and not reset. -/
theorem runs_as_new_dirty :
    (∃ e₀ e history, Engine.new .interpret ⟨4, 16⟩ none = .ok e₀ ∧ Served Serves e₀ history e ∧
      history.map Prod.fst = [0, 1, 2, 2, 3] ∧ e.interpreter.phase = .cancelled ∧ e.interpreter.tape.cell = 1 ∧
      e.run 9 (String.ofList ['.']) (Script.ofBytes [], ({} : Sink)) =
        e₀.run 9 (String.ofList ['.']) (Script.ofBytes [], ({} : Sink))) ∧
    ∃ m₀ m history, Interpreter.new ⟨4, 16⟩ = .ok m₀ ∧ Served Interpreter.Serves m₀ history m ∧
      history.map Prod.fst = [1, 0] ∧ m.tape.cell = 1 ∧
      m.RunsAsNew m₀ 9 (String.ofList ['.']) (Script.ofBytes [], ({} : Sink)) := by
  have hnew : Engine.new .interpret ⟨4, 16⟩ none = .ok ⟨.interpret, .idle ⟨4, 16⟩, ⟨4, "."⟩⟩ := rfl
  have hcancel : Engine.run 9 ⟨.interpret, .idle ⟨4, 16⟩, ⟨4, "."⟩⟩ (String.ofList ['+', ','])
      (Script.ofBytes [], ({} : Sink)) =
        some ⟨.ok .cancelled, ⟨.interpret, ⟨⟨4, 16⟩, (Tape.blank 4).set 1, ⟨#['+', ',']⟩, 1, .cancelled⟩, ⟨4, "."⟩⟩, _⟩ := rfl
  have hrefuse : Engine.run 9 ⟨.interpret, ⟨⟨4, 16⟩, (Tape.blank 4).set 1, ⟨#['+', ',']⟩, 1, .cancelled⟩, ⟨4, "."⟩⟩
      (String.ofList ['[']) (Script.ofBytes [], ({} : Sink)) = some _ := rfl
  have hserved := ((((Served.nil.next 0 (Serves.run hcancel)).next 1 (.run hrefuse)).next 2
    (.switch .translate)).next 2 (.emit (String.ofList ['+']))).next 3 (.switch .interpret)
  obtain ⟨_, hnew', hruns⟩ := runs_as_new.1 _ _ _ _ _ _ hnew hserved
  cases hnew'
  have hidle : Interpreter.new ⟨4, 16⟩ = .ok (.idle ⟨4, 16⟩) := rfl
  have hload : (Interpreter.idle ⟨4, 16⟩).load (String.ofList ['+', '.']) =
      .ok ⟨⟨4, 16⟩, .blank 4, ⟨#['+', '.']⟩, 0, .loaded⟩ := rfl
  have hleft : Interpreter.execute 9 ⟨⟨4, 16⟩, .blank 4, ⟨#['+', '.']⟩, 0, .loaded⟩
      (Script.ofBytes [], ({ faults := ⟨some (0, ""), none, none⟩ } : Sink)) = some _ := rfl
  have hshared := (Served.nil.next 1 (Interpreter.Serves.load hload)).next 0 (.execute hleft)
  exact ⟨⟨_, _, _, hnew, hserved, rfl, rfl, rfl, (hruns 9 _ _).of_loaded rfl _ rfl⟩,
    ⟨_, _, _, hidle, hshared, rfl, rfl, runs_as_new.2.1 _ _ _ _ hidle hshared 9 _ _⟩⟩

end Engine
end TapeLang
