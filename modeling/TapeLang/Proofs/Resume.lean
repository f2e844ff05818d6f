import TapeLang.Proofs.Lifecycle

/-!
# TapeLang.Proofs.Resume — runs that are taken up again

A run ends early when input is cancelled or the console refuses something, and the next call of `execute` takes it up where
it stopped, on a console of its own.  Nothing is lost in between and nothing is done twice: the calls together are one run.

* `Interpreter.Resumes`: calls of `execute` one after another, with the bytes they read and wrote in all.
* `Interpreter.Passes`: what one run does on a script of bytes and a sink that refuses nothing.
* `Interpreter.keeps_passed`: what a run on any console has read and written so far takes a single run to the same state.
* **`Interpreter.resumes_as_one`**: so do any number of calls, since an end leaves the state as it was.
-/

namespace TapeLang

/-! ## Sinks that refuse nothing -/

section Faultless

variable {sink : Sink}

theorem Sink.refusal?_faultless (h : sink.faults = {}) : sink.refusal? = none := by
  simp [refusal?, refusal?.full?, h]

theorem Sink.flushRefusal?_faultless (h : sink.faults = {}) : sink.flushRefusal? = none := by
  simp [flushRefusal?, h]

variable {ς : Type} [Source ς] {source : ς}

theorem write_faultless (h : sink.faults = {}) (b : UInt8) :
    Console.write b (source, sink) = (.ok (), (source, { sink with accepted := sink.accepted.push b })) := by
  simp only [Console.write, Drain.write, Sink.write, Sink.refusal?_faultless h]

theorem flush_faultless (h : sink.faults = {}) :
    Console.flush (source, sink) = (.ok (), (source, { sink with flushes := sink.flushes.push sink.accepted.size })) := by
  simp only [Console.flush, Drain.flush, Sink.flush, Sink.flushRefusal?_faultless h]

end Faultless

namespace Interpreter

open Program Recorded

variable {κ : Type} [Console κ] {m m' s s₀ s₁ s₂ : Interpreter} {inp inp' out out' : List UInt8} {log : List Entry}

/-! ## One run -/

section OneRun

/-- From one state to another a run reads `inp`, and nothing of what comes behind, and writes `out`, when no byte and no
flush is refused. -/
def Passes (s : Interpreter) (inp out : List UInt8) (s' : Interpreter) : Prop :=
  ∀ (rest : List UInt8) (sink : Sink), sink.faults = {} →
    ∃ n sink', Steps step n s (Script.ofBytes (inp ++ rest), sink) s' (Script.ofBytes rest, sink') ∧
      sink'.faults = {} ∧ sink'.accepted.toList = sink.accepted.toList ++ out

theorem Passes.refl (s : Interpreter) : Passes s [] [] s := by
  intro rest sink hsink
  exact ⟨0, sink, .refl _ _, hsink, by simp⟩

theorem Passes.trans (h : Passes s₀ inp out s₁) (h' : Passes s₁ inp' out' s₂) :
    Passes s₀ (inp ++ inp') (out ++ out') s₂ := by
  intro rest sink hsink
  obtain ⟨n, sink₁, hsteps, hsink₁, hout⟩ := h (inp' ++ rest) sink hsink
  obtain ⟨n', sink₂, hsteps', hsink₂, hout'⟩ := h' rest sink₁ hsink₁
  rw [← List.append_assoc] at hsteps
  refine ⟨n + n', sink₂, hsteps.trans hsteps', hsink₂, ?_⟩
  rw [hout', hout, List.append_assoc]

theorem passes_move (h : s.step = .move s₁) : Passes s [] [] s₁ := by
  intro rest sink hsink
  refine ⟨1, sink, .single ?_, hsink, by simp⟩
  rw [h]
  rfl

theorem passes_output (h : s.program.op? s.ip = some .output) :
    Passes s [] [s.tape.cell] (s.goTo (s.ip + 1) s.tape) := by
  intro rest sink hsink
  refine ⟨1, { sink with accepted := sink.accepted.push s.tape.cell }, .single ?_, hsink, by simp⟩
  rw [step_output h, Action.perform, write_faultless hsink]
  rfl

theorem passes_input (h : s.program.op? s.ip = some .input) (b : UInt8) :
    Passes s [b] [] (s.goTo (s.ip + 1) (s.tape.set b)) := by
  intro rest sink hsink
  refine ⟨1, { sink with flushes := sink.flushes.push sink.accepted.size }, .single ?_, hsink, by simp⟩
  rw [step_input h, Action.perform, flush_faultless hsink]
  rfl

/-- What a run from `s₀` has read and written so far takes a single run to the same state. -/
structure Passed (s₀ s : Interpreter) (log : List Entry) : Prop where
  check : s.program.check = .ok ()
  running : s.phase = .running
  passes : Passes s₀ (log.filterMap dataBy) (log.filterMap acceptedBy) s

theorem Passed.append (h : Passed s₀ s log) {e : Entry} (hp : Passes s (dataBy e).toList (acceptedBy e).toList s₁)
    (hprogram : s₁.program = s.program) (hphase : s₁.phase = s.phase) : Passed s₀ s₁ (log ++ [e]) := by
  refine ⟨hprogram ▸ h.check, hphase.trans h.running, ?_⟩
  have htrans := h.passes.trans hp
  rw [List.filterMap_append, List.filterMap_append]
  cases hd : dataBy e <;> cases ha : acceptedBy e <;> simpa [hd, ha] using htrans

/-- Questions that move no byte leave all as it was. -/
theorem Passed.silent (h : Passed s₀ s log) {e : Entry} (hd : dataBy e = none) (ha : acceptedBy e = none) :
    Passed s₀ s (log ++ [e]) := by
  refine h.append ?_ rfl rfl
  rw [hd, ha]
  exact .refl s

/-- **A run on any console is a run on a script of the bytes it reads.**  Where the run is over, the last step has changed
nothing. -/
theorem keeps_passed (s₀ : Interpreter) : Keeps step (Passed s₀)
    (fun r s log => Passed s₀ s log ∧ (r = .ok .halted → s.program.size ≤ s.ip)) := by
  intro s log hs
  have hdoes : s.Does s.step := does_step hs.check
  generalize hstep : s.step = action at hdoes
  cases hdoes with
  | @move i t hi ht =>
    have htrans := hs.passes.trans (passes_move hstep)
    rw [List.append_nil, List.append_nil] at htrans
    exact ⟨hs.check, hs.running, htrans⟩
  | output ho =>
    exact ⟨hs.append (passes_output ho) rfl rfl, fun why => ⟨hs.silent rfl rfl, nofun⟩⟩
  | input ho =>
    have hflushed : Passed s₀ s (log ++ [.flush (.ok ())]) := hs.silent rfl rfl
    refine ⟨⟨fun e => ?_, fun why => ⟨hflushed.silent rfl rfl, nofun⟩⟩, fun why => ⟨hs.silent rfl rfl, nofun⟩⟩
    cases e with
    | byte b => exact hflushed.append (passes_input ho b) rfl rfl
    | cancel => exact ⟨hflushed.silent rfl rfl, nofun⟩
  | finish hge => exact ⟨⟨hs.silent rfl rfl, fun _ => hge⟩, fun why => ⟨hs.silent rfl rfl, nofun⟩⟩

end OneRun

/-! ## Calls one after another -/

section Calls

/-- Calls of `execute` one after another, each on a console of its own, and however each of them ended; with the data bytes
that they read, the bytes that their consoles took, the last result and the interpreter after it. -/
inductive Resumes : Interpreter → List UInt8 → List UInt8 → Except Error Outcome → Interpreter → Prop
  | last {m : Interpreter} {κ : Type} [Console κ] {k : κ} {fuel : Nat} {f : Finish Interpreter (Recorded κ)} :
      m.execute fuel (record k) = some f → Resumes m f.console.data f.console.accepted f.result f.state
  | again {m m' : Interpreter} {κ : Type} [Console κ] {k : κ} {fuel : Nat} {f : Finish Interpreter (Recorded κ)}
      {inp out : List UInt8} {r : Except Error Outcome} : m.execute fuel (record k) = some f →
      Resumes f.state inp out r m' → Resumes m (f.console.data ++ inp) (f.console.accepted ++ out) r m'

/-- What one run can do that starts where a call started, up to where the call stopped. -/
structure Continues (m : Interpreter) (inp out : List UInt8) (r : Except Error Outcome) (m' : Interpreter) : Prop where
  check : m'.program.check = .ok ()
  phase_eq : m'.phase = phaseAfter r
  passes : Passes { m with phase := .running } inp out { m' with phase := .running }
  of_halted : r = .ok .halted → m'.program.size ≤ m'.ip

theorem phaseAfter_ne_idle (r : Except Error Outcome) : phaseAfter r ≠ .idle := by
  rcases r with _ | _ | _ <;> nofun

theorem continues_of_execute (hcheck : m.program.check = .ok ()) (hphase : m.phase ≠ .idle) {k : κ} {fuel : Nat}
    {f : Finish Interpreter (Recorded κ)} (hf : m.execute fuel (record k) = some f) :
    m.Continues f.console.data f.console.accepted f.result f.state := by
  rw [execute_eq_map hphase] at hf
  obtain ⟨g, hg, rfl⟩ := Option.map_eq_some_iff.mp hf
  have hstart : Passed { m with phase := .running } { m with phase := .running } [] := ⟨hcheck, rfl, .refl _⟩
  obtain ⟨hpassed, hhalted⟩ := (keeps_passed { m with phase := .running }).ends ⟨fuel, hg⟩ hstart
  have hsame : { g.state with phase := .running } = g.state := by rw [← hpassed.running]
  refine ⟨hpassed.check, rfl, ?_, hhalted⟩
  show Passes _ _ _ { g.state with phase := .running }
  rw [hsame]
  exact hpassed.passes

theorem Resumes.continues {r : Except Error Outcome} (h : Resumes m inp out r m') (hcheck : m.program.check = .ok ())
    (hphase : m.phase ≠ .idle) : m.Continues inp out r m' := by
  induction h with
  | last hf => exact continues_of_execute hcheck hphase hf
  | again hf _ ih =>
    have hfirst := continues_of_execute hcheck hphase hf
    have hrest := ih hfirst.check (hfirst.phase_eq ▸ phaseAfter_ne_idle _)
    exact { hrest with passes := hfirst.passes.trans hrest.passes }

theorem finalFlush_record (k : κ) : Block.finalFlush (record k) =
    ((Block.finalFlush k).1, ⟨(Block.finalFlush k).2, [.flush (Console.flush k).1]⟩) := by
  have hflush : Console.flush (record k) =
      ((Console.flush k).1, ⟨(Console.flush k).2, [.flush (Console.flush k).1]⟩) := rfl
  rw [Block.finalFlush, Block.finalFlush, hflush]
  rcases Console.flush k with ⟨_ | _, k'⟩ <;> rfl

/-- At the end of the text there is nothing left but a flush. -/
theorem execute_end (hphase : m.phase ≠ .idle) (hend : m.program.size ≤ m.ip) (fuel : Nat) (k : κ) :
    m.execute (fuel + 1) k = some ⟨(Block.finalFlush k).1, { m with phase := phaseAfter (Block.finalFlush k).1 },
      (Block.finalFlush k).2⟩ := by
  have hturn : (step { m with phase := .running }).perform k =
      .over (Block.finalFlush k).1 { m with phase := .running } (Block.finalFlush k).2 :=
    perform_end (m := { m with phase := .running }) (t := m.tape) hend k
  rw [execute_eq_map hphase, drive_of_over hturn]
  rfl

/-- **Interrupted runs resume without loss or duplication.**  A program is loaded and then executed any number of times, on
one console after another.  A single execution of the loaded program that is fed the bytes read by all these calls, and is
refused nothing, comes to the same state when it has read them.  It has then written just what the consoles took in all, and
it goes on there as one more call would.  If the last call came to the end of the program, so does the single one, with the
same output, and a further call on any console asks for a flush and nothing else. -/
theorem resumes_as_one {m m₀ m' : Interpreter} {source : String} (hload : m.load source = .ok m₀) {inp out : List UInt8}
    {r : Except Error Outcome} (h : Resumes m₀ inp out r m') :
    (∃ n sink, Steps step n { m₀ with phase := .running } (Script.ofBytes inp, ({} : Sink))
        { m' with phase := .running } (Script.ofBytes [], sink) ∧ sink.accepted.toList = out ∧
        ∀ fuel, m₀.execute (fuel + n) (Script.ofBytes inp, ({} : Sink)) = m'.execute fuel (Script.ofBytes [], sink)) ∧
      (r = .ok .halted →
        (∃ fuel sink, m₀.execute fuel (Script.ofBytes inp, ({} : Sink)) =
          some ⟨.ok .halted, m', Script.ofBytes [], sink⟩ ∧ sink.accepted.toList = out) ∧
        ∀ {κ : Type} [Console κ] (fuel : Nat) (k : κ), m'.execute (fuel + 1) (record k) =
          some ⟨(Block.finalFlush k).1, { m' with phase := phaseAfter (Block.finalFlush k).1 },
            (Block.finalFlush k).2, [.flush (Console.flush k).1]⟩) := by
  obtain ⟨-, hcheck, hm₀⟩ := of_load hload
  have hcheck₀ : m₀.program.check = .ok () := by rw [hm₀]; exact hcheck
  have hphase₀ : m₀.phase ≠ .idle := by rw [hm₀]; nofun
  obtain ⟨-, hphase, hpasses, hhalted⟩ := h.continues hcheck₀ hphase₀
  have hphase' : m'.phase ≠ .idle := hphase ▸ phaseAfter_ne_idle r
  obtain ⟨n, sink, hsteps, hsink, hout⟩ := hpasses [] {} rfl
  rw [List.append_nil] at hsteps
  have hexecute : ∀ fuel, m₀.execute (fuel + n) (Script.ofBytes inp, ({} : Sink)) =
      m'.execute fuel (Script.ofBytes [], sink) := by
    intro fuel
    rw [execute_eq_map hphase₀, execute_eq_map hphase', hsteps.drive_eq]
  refine ⟨⟨n, sink, hsteps, hout, hexecute⟩, ?_⟩
  rintro rfl
  have hend : m'.program.size ≤ m'.ip := hhalted rfl
  have hsame : { m' with phase := .halted } = m' := by
    rw [show Phase.halted = m'.phase from hphase.symm]
  constructor
  · refine ⟨1 + n, { sink with flushes := sink.flushes.push sink.accepted.size }, ?_, hout⟩
    rw [hexecute, execute_end hphase' hend 0, Block.finalFlush, flush_faultless hsink]
    exact congrArg (fun m => some (Finish.mk _ m _)) hsame
  · intro κ _ fuel k
    rw [execute_end hphase' hend, finalFlush_record]

/-- A byte is read and refused, then it is written and input is cancelled, and then the program comes to its end. -/
theorem resumes_as_one_thrice : ∃ m₀ m', (idle ⟨4, 16⟩).load (String.ofList [',', '.', ',', '.']) = .ok m₀ ∧
    Resumes m₀ [65, 66] [65, 66] (.ok .halted) m' ∧
    ∃ fuel sink, m₀.execute fuel (Script.ofBytes [65, 66], ({} : Sink)) =
      some ⟨.ok .halted, m', Script.ofBytes [], sink⟩ ∧ sink.accepted.toList = [65, 66] := by
  have hload : (idle ⟨4, 16⟩).load (String.ofList [',', '.', ',', '.']) =
      .ok ⟨⟨4, 16⟩, .blank 4, ⟨#[',', '.', ',', '.']⟩, 0, .loaded⟩ := rfl
  have hfirst : execute 9 ⟨⟨4, 16⟩, .blank 4, ⟨#[',', '.', ',', '.']⟩, 0, .loaded⟩
      (record (Script.ofBytes [65], ({ faults := ⟨some (0, ""), none, none⟩ } : Sink))) = some _ := rfl
  have hsecond : execute 9 ⟨⟨4, 16⟩, (Tape.blank 4).set 65, ⟨#[',', '.', ',', '.']⟩, 1, .loaded⟩
      (record (Script.ofBytes [], ({} : Sink))) = some _ := rfl
  have hthird : execute 9 ⟨⟨4, 16⟩, (Tape.blank 4).set 65, ⟨#[',', '.', ',', '.']⟩, 2, .cancelled⟩
      (record (Script.ofBytes [66], ({} : Sink))) = some _ := rfl
  have hcalls := Resumes.again hfirst (.again hsecond (.last hthird))
  exact ⟨_, _, hload, hcalls, ((resumes_as_one hload hcalls).2 rfl).1⟩

end Calls
end Interpreter
end TapeLang
