import TapeLang.Machine.Run
import TapeLang.Proofs.Lifecycle

/-!
# TapeLang.Proofs.Flushing — output is flushed before input is asked for

Someone who is asked for input has seen all output so far, and when a run ends well nothing is left behind.  Both machines
keep to this, and the stack machine does so with any code at all.

* `Flushed log`: a flush succeeded and nothing was written since.  `ReadsFlushed log`: it was so before every read.
* `Action.Careful`, `Action.Writes`: what can be told of a single step.  Every step of an interpreter and of a stack machine
  is careful, and writes one byte or none.
* `Visits`: a number of turns with the states that they start from; `KeepsFlushed`: what then holds all along a run and at
  its end.
* **`execute_keepsFlushed`**: it holds of every run of either machine.
-/

namespace TapeLang

open Recorded

variable {σ κ : Type} {log : List Entry}

/-! ## Logs -/

section Logs

/-- All output is flushed: a flush has succeeded and no byte was written since. -/
def Flushed (log : List Entry) : Prop :=
  ∃ before since, log = before ++ .flush (.ok ()) :: since ∧ ∀ b answer, Entry.write b answer ∉ since

/-- All output was flushed whenever input was asked for. -/
def ReadsFlushed (log : List Entry) : Prop :=
  ∀ before answer since, log = before ++ .read answer :: since → Flushed before

theorem flushed_flush (log : List Entry) : Flushed (log ++ [.flush (.ok ())]) := ⟨log, [], rfl, by simp⟩

theorem Flushed.append_read (h : Flushed log) (answer : Except Fault Event) : Flushed (log ++ [.read answer]) := by
  obtain ⟨before, since, rfl, hsince⟩ := h
  refine ⟨before, since ++ [.read answer], by simp, fun b a hmem => ?_⟩
  rcases List.mem_append.mp hmem with h | h
  · exact hsince b a h
  · cases List.mem_singleton.mp h

theorem readsFlushed_nil : ReadsFlushed [] := by
  intro before answer since h
  cases before <;> cases h

theorem ReadsFlushed.append {e : Entry} (h : ReadsFlushed log) (he : ∀ answer, e = .read answer → Flushed log) :
    ReadsFlushed (log ++ [e]) := by
  intro before answer since heq
  -- the read is the new entry, or it was there before
  rcases List.eq_nil_or_concat since with rfl | ⟨since, last, rfl⟩
  · obtain ⟨rfl, hlast⟩ := List.append_inj' heq rfl
    exact he answer (List.singleton_inj.mp hlast)
  · rw [List.concat_eq_append, ← List.cons_append, ← List.append_assoc] at heq
    exact h before answer since (List.append_inj' heq rfl).1

theorem ReadsFlushed.append_flush (h : ReadsFlushed log) (answer : Except Fault Unit) :
    ReadsFlushed (log ++ [.flush answer]) :=
  h.append nofun

theorem ReadsFlushed.append_write (h : ReadsFlushed log) (b : UInt8) (answer : Except Fault Unit) :
    ReadsFlushed (log ++ [.write b answer]) :=
  h.append nofun

theorem acceptedBy_eq_none {e : Entry} (h : ∀ b answer, e ≠ .write b answer) : acceptedBy e = none := by
  cases e with
  | write b answer => exact absurd rfl (h b answer)
  | read answer => rfl
  | flush answer => rfl

theorem mem_flushesFrom (n : Nat) (before since : List Entry) :
    (n + (before.filterMap acceptedBy).length, .ok ()) ∈ flushesFrom n (before ++ .flush (.ok ()) :: since) := by
  induction before generalizing n with
  | nil => exact List.mem_cons_self
  | cons e before ih =>
    cases e with
    | flush answer => exact List.mem_cons_of_mem _ (ih n)
    | read answer => exact ih n
    | write b answer =>
      cases answer with
      | error why => exact ih n
      | ok =>
        have hmem := ih (n + 1)
        rw [Nat.add_right_comm] at hmem
        exact hmem

/-- Where all output is flushed, a flush has succeeded when all bytes had been taken. -/
theorem Flushed.mem_flushes {r : Recorded κ} (h : Flushed r.log) : (r.accepted.length, .ok ()) ∈ r.flushes := by
  obtain ⟨before, since, hlog, hsince⟩ := h
  have hnone : since.filterMap acceptedBy = [] := by
    refine List.filterMap_eq_nil_iff.mpr fun e he => acceptedBy_eq_none ?_
    rintro b answer rfl
    exact hsince b answer he
  have haccepted : r.accepted.length = 0 + (before.filterMap acceptedBy).length := by
    rw [accepted, hlog, List.filterMap_append, List.filterMap_cons, hnone]
    simp [acceptedBy]
  rw [haccepted, flushes, hlog]
  exact mem_flushesFrom 0 before since

end Logs

/-! ## One step -/

section OneStep

/-- Input is asked for, and the run ends well, only where all output is flushed; `flushed` says whether it is so at the
start. -/
def Action.Careful : Action σ → Bool → Prop
  | move _, _ => True
  | write _ _ _, _ => True
  | flush _ rest, _ => rest.Careful true
  | read _ next, flushed => flushed = true ∧ ∀ e, (next e).Careful flushed
  | stop _ result, flushed => ∀ o, result = .ok o → flushed = true

/-- Where the machine goes on, this was written: one byte or none. -/
def Action.Writes : Action σ → Option UInt8 → Prop
  | move _, b? => b? = none
  | write b _ _, b? => b? = some b
  | flush _ rest, b? => rest.Writes b?
  | read _ next, b? => ∀ e, (next e).Writes b?
  | stop _ _, _ => True

theorem Action.Careful.ensures {a : Action σ} {flushed : Bool} (h : a.Careful flushed)
    (hflushed : flushed = true → Flushed log) (hreads : ReadsFlushed log) :
    a.Ensures (fun _ log => ReadsFlushed log) (fun r _ log => ReadsFlushed log ∧ ∀ o, r = .ok o → Flushed log) log := by
  induction a generalizing flushed log with
  | move s => exact hreads
  | write b s s' => exact ⟨hreads.append_write b _, fun w => ⟨hreads.append_write b _, nofun⟩⟩
  | flush s a ih =>
    exact ⟨ih h (fun _ => flushed_flush log) (hreads.append_flush _), fun w => ⟨hreads.append_flush _, nofun⟩⟩
  | read s next ih =>
    obtain ⟨hf, hnext⟩ := h
    have hlog : Flushed log := hflushed hf
    have happend : ∀ answer, ReadsFlushed (log ++ [.read answer]) := fun _ => hreads.append fun _ _ => hlog
    exact ⟨fun e => ih e (hnext e) (fun _ => hlog.append_read _) (happend _), fun w => ⟨happend _, nofun⟩⟩
  | stop s r => exact ⟨hreads, fun o ho => hflushed (h o ho)⟩

theorem Action.Writes.ensures {a : Action σ} {b? : Option UInt8} {bytes : List UInt8} (h : a.Writes b?)
    (hlog : log.filterMap acceptedBy = bytes) :
    a.Ensures (fun _ log => log.filterMap acceptedBy = bytes ++ b?.toList)
      (fun _ _ log => log.filterMap acceptedBy = bytes) log := by
  have hsilent : ∀ e, acceptedBy e = none → (log ++ [e]).filterMap acceptedBy = bytes := by
    intro e he
    rw [List.filterMap_append, List.filterMap_cons, he, hlog]
    simp
  induction a generalizing log with
  | move s =>
    subst h
    simpa [Ensures] using hlog
  | write b s s' =>
    subst h
    refine ⟨?_, fun w => hsilent _ rfl⟩
    show (log ++ [Entry.write b (.ok ())]).filterMap acceptedBy = _
    rw [List.filterMap_append, hlog]
    rfl
  | flush s a ih =>
    refine ⟨ih h (hsilent _ rfl) fun e he => ?_, fun w => hsilent _ rfl⟩
    rw [List.filterMap_append, hsilent _ rfl, List.filterMap_cons, he]
    simp
  | read s next ih =>
    refine ⟨fun x => ih x (h x) (hsilent _ rfl) fun e he => ?_, fun w => hsilent _ rfl⟩
    rw [List.filterMap_append, hsilent _ rfl, List.filterMap_cons, he]
    simp
  | stop s r => exact hlog

/-- Neither asks the console for anything nor ends the run well. -/
def Action.Quiet : Action σ → Prop
  | move _ => True
  | stop _ (.error _) => True
  | _ => False

theorem Action.Quiet.careful {a : Action σ} (h : a.Quiet) (flushed : Bool) : a.Careful flushed ∧ a.Writes none := by
  cases a with
  | move s => exact ⟨trivial, rfl⟩
  | stop s r =>
    cases r with
    | ok o => exact h.elim
    | error e => exact ⟨nofun, trivial⟩
  | write b s s' => exact h.elim
  | flush s a => exact h.elim
  | read s next => exact h.elim

end OneStep

/-! ## Whole runs -/

section Runs

variable [Console κ] {step : σ → Action σ} {emits : σ → Option UInt8} {states : List σ} {s t u : σ} {k k₁ k₂ : κ}
  {n : Nat}

/-- Turns that go on, one after another, with the states that they start from. -/
inductive Visits (step : σ → Action σ) : List σ → σ → κ → σ → κ → Prop
  | refl (s : σ) (k : κ) : Visits step [] s k s k
  | turn {states : List σ} {s t u : σ} {k k₁ k₂ : κ} : (step s).perform k = .going t k₁ → Visits step states t k₁ u k₂ →
      Visits step (s :: states) s k u k₂

theorem Steps.visits (h : Steps step n s k t k₁) : ∃ states, states.length = n ∧ Visits step states s k t k₁ := by
  induction h with
  | refl s k => exact ⟨[], rfl, .refl s k⟩
  | turn hturn _ ih =>
    obtain ⟨states, hlength, hvisits⟩ := ih
    exact ⟨_ :: states, congrArg (· + 1) hlength, .turn hturn hvisits⟩

/-- What holds all along a run from `s` on a console and at its end, when `emits` tells what a state writes in its next step
and `run` makes that run with some fuel. -/
structure KeepsFlushed (step : σ → Action σ) (emits : σ → Option UInt8) (s : σ) (k : κ)
    (run : Nat → Option (Finish σ (Recorded κ))) : Prop where
  /-- So far input was asked for only behind a flush, and every byte is from one step. -/
  along : ∀ states t r, Visits step states s (record k) t r →
    ReadsFlushed r.log ∧ r.accepted = states.filterMap emits
  /-- A run that has not come to its end is on its way. -/
  underway : ∀ fuel, run fuel = none → ∃ states t r, states.length = fuel ∧ Visits step states s (record k) t r
  /-- A run that has come to its end made one more step, in which it wrote nothing.  If it ended well, then all output is
  flushed. -/
  ended : ∀ fuel f, run fuel = some f →
    (∃ states t r here, Visits step states s (record k) t r ∧ (step t).perform r = .over f.result here f.console ∧
      f.console.accepted = states.filterMap emits) ∧
    ReadsFlushed f.console.log ∧
    ∀ o, f.result = .ok o → Flushed f.console.log ∧ (f.console.accepted.length, .ok ()) ∈ f.console.flushes

/-- What a machine keeps that takes only careful steps. -/
theorem Visits.readsFlushed (hcareful : ∀ s, (step s).Careful false) {r r' : Recorded κ} (h : Visits step states s r t r')
    (hr : ReadsFlushed r.log) : ReadsFlushed r'.log := by
  induction h with
  | refl s r => exact hr
  | @turn states s t u r r₁ r₂ hturn _ ih =>
    have hmeets := ((hcareful s).ensures nofun hr).perform
    rw [hturn] at hmeets
    exact ih hmeets

theorem Visits.accepted_eq (hwrites : ∀ s, (step s).Writes (emits s)) {r r' : Recorded κ}
    (h : Visits step states s r t r') : r'.accepted = r.accepted ++ states.filterMap emits := by
  induction h with
  | refl s r => simp
  | @turn states s t u r r₁ r₂ hturn _ ih =>
    have hmeets := ((hwrites s).ensures rfl).perform (r := r)
    rw [hturn] at hmeets
    have hfirst : r₁.accepted = r.accepted ++ (emits s).toList := hmeets
    rw [ih, hfirst, List.append_assoc]
    cases he : emits s <;> simp [he]

/-- **Careful machines keep their output flushed.** -/
theorem keepsFlushed_of_careful (hcareful : ∀ s, (step s).Careful false) (hwrites : ∀ s, (step s).Writes (emits s)) (s : σ)
    (k : κ) : KeepsFlushed step emits s k fun fuel => drive step fuel s (record k) where
  along states t r h := ⟨h.readsFlushed hcareful readsFlushed_nil, h.accepted_eq hwrites⟩
  underway fuel h := by
    obtain ⟨t, r, hsteps⟩ := steps_of_drive_eq_none h
    obtain ⟨states, hlength, hvisits⟩ := hsteps.visits
    exact ⟨states, t, r, hlength, hvisits⟩
  ended fuel f h := by
    obtain ⟨n, t, r, -, hsteps, hlast⟩ := steps_of_drive_eq_some h
    obtain ⟨states, -, hvisits⟩ := hsteps.visits
    have hreads := ((hcareful t).ensures nofun (hvisits.readsFlushed hcareful readsFlushed_nil)).perform
    have haccepted := ((hwrites t).ensures (hvisits.accepted_eq hwrites)).perform
    rw [hlast] at hreads haccepted
    obtain ⟨hlog, hflushed⟩ := hreads
    exact ⟨⟨states, t, r, f.state, hvisits, hlast, haccepted⟩, hlog,
      fun o ho => ⟨hflushed o ho, (hflushed o ho).mem_flushes⟩⟩

end Runs

/-! ## The interpreter -/

namespace Interpreter

/-- The byte that an interpreter writes in its next step: that of the current cell, at an output operator. -/
def emits (m : Interpreter) : Option UInt8 :=
  if m.program.op? m.ip = some .output then some m.tape.cell else none

variable {m : Interpreter}

/-- Where nothing is asked of the console, an interpreter moves, or a bracket has no partner. -/
theorem quiet_step (hlt : m.ip < m.program.size) (ho : m.program.op? m.ip ≠ some .output)
    (hi : m.program.op? m.ip ≠ some .input) : m.step.Quiet := by
  obtain ⟨config, tape, program, ip, phase⟩ := m
  cases h : program.op? ip with
  | none =>
    have hmove : step ⟨config, tape, program, ip, phase⟩ = .move ⟨config, tape, program, ip + 1, phase⟩ :=
      step_comment (m := ⟨config, tape, program, ip, phase⟩) hlt h
    rw [hmove]
    trivial
  | some o =>
    obtain ⟨hlt', hchar⟩ := ofChar?_of_op? h
    simp only [step, dif_pos hlt', hchar]
    cases o with
    | output => exact absurd h ho
    | input => exact absurd h hi
    | right | left | increment | decrement => trivial
    | loopOpen =>
      by_cases hz : tape.cell = 0
      · simp only [hz, if_true]
        cases program.closeOf? ip <;> trivial
      · simp only [hz, if_false]
        trivial
    | loopClose =>
      by_cases hz : tape.cell = 0
      · simp only [hz, if_true]
        trivial
      · simp only [hz, if_false]
        cases program.openOf? ip <;> trivial

/-- Every step is careful and writes what `emits` says, whatever the program is. -/
theorem careful_step (m : Interpreter) : m.step.Careful false ∧ m.step.Writes m.emits := by
  rcases Nat.lt_or_ge m.ip m.program.size with hlt | hge
  · by_cases ho : m.program.op? m.ip = some .output
    · rw [step_output ho, emits, if_pos ho]
      exact ⟨trivial, rfl⟩
    · rw [emits, if_neg ho]
      by_cases hi : m.program.op? m.ip = some .input
      · rw [step_input hi]
        refine ⟨⟨rfl, fun e => ?_⟩, fun e => ?_⟩
        · cases e with
          | byte b => trivial
          | cancel => exact fun _ _ => rfl
        · cases e with
          | byte b => exact rfl
          | cancel => trivial
      · exact (quiet_step hlt ho hi).careful false
  · rw [step_finish hge]
    exact ⟨fun _ _ => rfl, trivial⟩

end Interpreter

/-! ## The stack machine -/

namespace Machine

/-- The byte that a stack machine writes in its next step: the top of the stack, at a write. -/
def emits (code : Code) (m : Machine) : Option UInt8 :=
  if code.instrs[m.ip]?.map Instr.opcode = some .write then m.stack.head?.map fun v => wrapCell v.toInt else none

variable (m : Machine)

theorem quiet_push (value : Int64) : (m.push value).Quiet := by
  rw [push]
  split <;> trivial

theorem quiet_binary (f : Int64 → Int64 → Int64) : (m.binary f).Quiet := by
  rw [binary]
  split
  · exact quiet_push _ _
  · trivial

/-- Every instruction but three is quiet. -/
theorem quiet_exec (size : Nat) (i : Instr) (hw : i.opcode ≠ .write) (hr : i.opcode ≠ .read) (he : i.opcode ≠ .ret) :
    (exec size i m).Quiet := by
  obtain ⟨opcode, operand⟩ := i
  cases opcode with
  | write => exact absurd rfl hw
  | read => exact absurd rfl hr
  | ret => exact absurd rfl he
  | add | sub | eq => exact quiet_binary _ _
  | loadPtr | loadCell | const | dup =>
    simp only [exec]
    split
    · exact quiet_push _ _
    · trivial
  | newTape | storePtr | storeCell | jump =>
    simp only [exec]
    split <;> trivial
  | jumpIfTrue =>
    simp only [exec]
    split
    · split <;> trivial
    · trivial

/-- Every step is careful and writes what `emits` says, whatever the code is. -/
theorem careful_step (code : Code) : (step code m).Careful false ∧ (step code m).Writes (emits code m) := by
  cases hi : code.instrs[m.ip]? with
  | none =>
    simp only [step, hi, finish]
    exact ⟨fun _ _ => rfl, trivial⟩
  | some i =>
    simp only [step, emits, hi, Option.map_some, Option.some.injEq]
    by_cases hw : i.opcode = .write
    · cases hstack : m.stack with
      | nil =>
        simp only [exec, hw]
        refine ⟨?_, trivial⟩
        intro _ h
        cases h
      | cons v rest =>
        simp only [exec, hw]
        exact ⟨trivial, rfl⟩
    · rw [if_neg hw]
      by_cases hr : i.opcode = .read
      · simp only [exec, hr]
        refine ⟨⟨rfl, fun e => ?_⟩, fun e => ?_⟩
        · cases e with
          | byte b => exact ((quiet_push _ _).careful true).1
          | cancel => exact ((quiet_push _ _).careful true).1
        · cases e with
          | byte b => exact ((quiet_push _ _).careful true).2
          | cancel => exact ((quiet_push _ _).careful true).2
      · by_cases he : i.opcode = .ret
        · simp only [exec, he, finish]
          exact ⟨fun _ _ => rfl, trivial⟩
        · exact (quiet_exec _ code.size i hw hr he).careful false

/-- Recording changes nothing. -/
theorem execute_record {κ : Type} [Console κ] (fuel : Nat) (code : Code) (k : κ) :
    m.execute fuel code k = (m.execute fuel code (record k)).map eraseFinish := by
  rw [execute_eq_drive, execute_eq_drive]
  exact drive_record (step code) fuel start (record k)

end Machine

/-- **Output is flushed before input is asked for.**  Take any interpreter with a program, or any code, and run it on any
console, with a record of what the console is asked; recording changes nothing.  Whenever the run has asked for input, a
flush had succeeded since the last byte was written, and so it is when the run ends well: no byte that was taken is left
unflushed.  The bytes taken are those of the output operators, or of the writes, that were passed, one each and in order. -/
theorem execute_keepsFlushed {κ : Type} [Console κ] (k : κ) :
    (∀ m : Interpreter, m.phase ≠ .idle →
      (∀ fuel, m.execute fuel k = (m.execute fuel (record k)).map eraseFinish) ∧
      KeepsFlushed Interpreter.step Interpreter.emits { m with phase := .running } k fun fuel =>
        m.execute fuel (record k)) ∧
    ∀ (m : Machine) (code : Code),
      (∀ fuel, m.execute fuel code k = (m.execute fuel code (record k)).map eraseFinish) ∧
      KeepsFlushed (Machine.step code) (Machine.emits code) Machine.start k fun fuel =>
        m.execute fuel code (record k) := by
  constructor
  · intro m hphase
    have hkeeps := keepsFlushed_of_careful (fun s => (Interpreter.careful_step s).1)
      (fun s => (Interpreter.careful_step s).2) { m with phase := .running } k
    refine ⟨fun fuel => m.execute_record fuel k, hkeeps.along, fun fuel h => ?_, fun fuel f h => ?_⟩
    · rw [Interpreter.execute_eq_map hphase] at h
      exact hkeeps.underway fuel (Option.map_eq_none_iff.mp h)
    · rw [Interpreter.execute_eq_map hphase] at h
      obtain ⟨g, hg, rfl⟩ := Option.map_eq_some_iff.mp h
      exact hkeeps.ended fuel g hg
  · intro m code
    have hkeeps := keepsFlushed_of_careful (fun s => (Machine.careful_step s code).1)
      (fun s => (Machine.careful_step s code).2) Machine.start k
    refine ⟨fun fuel => m.execute_record fuel code k, ?_⟩
    simp only [Machine.execute_eq_drive]
    exact hkeeps

/-- A byte is read and written. -/
theorem execute_keepsFlushed_echo : ∃ (m : Interpreter) (f : Finish Interpreter (Recorded (Script × Sink))),
    m.phase ≠ .idle ∧ m.execute 9 (record (Script.ofBytes [65], {})) = some f ∧ f.result = .ok .halted ∧
      f.console.accepted = [65] ∧ ReadsFlushed f.console.log ∧ Flushed f.console.log := by
  let m : Interpreter := ⟨⟨4, 16⟩, .blank 4, ⟨#[',', '.']⟩, 0, .loaded⟩
  have hphase : m.phase ≠ .idle := nofun
  have hrun : m.execute 9 (record (Script.ofBytes [65], ({} : Sink))) = some _ := rfl
  have hkeeps := ((execute_keepsFlushed (Script.ofBytes [65], ({} : Sink))).1 m hphase).2.ended 9 _ hrun
  exact ⟨m, _, hphase, hrun, rfl, rfl, hkeeps.2.1, (hkeeps.2.2 _ rfl).1⟩

end TapeLang
