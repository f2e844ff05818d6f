import TapeLang.Proofs.Ensures
import TapeLang.Proofs.Structured
import TapeLang.Proofs.Words

/-!
# TapeLang.Proofs.Lifecycle — an interpreter from call to call

An interpreter lives through calls of `load`, `execute` and `reset`, in any order, and each of them may fail.  A run may be
left in the middle of any loop, where the console refuses something, and be taken up again there.

* `Interpreter.Does m a`: what an interpreter can do in one step, when its brackets match.
* `Interpreter.WellFormed`: what holds all along a run.  `Interpreter.Stopped` says where each kind of end can be.
* `Interpreter.Rests`: what holds between calls.
* `Interpreter.Call`, `Interpreter.Lives`: one call, and all that calls can lead to.
* **`Interpreter.lifecycle`**: an interpreter is at rest after every call, and how a run ends tells where it stands.
-/

namespace TapeLang.Interpreter

open Program Recorded

variable {κ : Type} [Console κ] {config : Config} {m m' : Interpreter} {t : Tape} {i : Nat} {log : List Entry}

/-! ## One step -/

section OneStep

/-- What is done with an event. -/
def afterRead (m : Interpreter) : Event → Action Interpreter
  | .byte b => .move (m.goTo (m.ip + 1) (m.tape.set b))
  | .cancel => .stop m (.ok .cancelled)

/-- What an interpreter can do in one step: it moves, or it stands at an operator that asks the console for something, or
at the end of the text. -/
inductive Does (m : Interpreter) : Action Interpreter → Prop
  | move {i : Nat} {t : Tape} : i ≤ m.program.size → t.capacity = m.tape.capacity → Does m (.move (m.goTo i t))
  | output : m.program.op? m.ip = some .output → Does m (.write m.tape.cell m (m.goTo (m.ip + 1) m.tape))
  | input : m.program.op? m.ip = some .input → Does m (.flush m (.read m m.afterRead))
  | finish : m.program.size ≤ m.ip → Does m (.flush m (.stop m (.ok .halted)))

theorem step_output (h : m.program.op? m.ip = some .output) :
    m.step = .write m.tape.cell m (m.goTo (m.ip + 1) m.tape) := by
  obtain ⟨config, tape, program, ip, phase⟩ := m
  obtain ⟨hlt, ho⟩ := ofChar?_of_op? h
  simp only [step, dif_pos hlt, ho, goTo]

theorem step_input (h : m.program.op? m.ip = some .input) : m.step = .flush m (.read m m.afterRead) := by
  obtain ⟨config, tape, program, ip, phase⟩ := m
  obtain ⟨hlt, ho⟩ := ofChar?_of_op? h
  simp only [step, dif_pos hlt, ho]
  rfl

theorem step_finish (h : m.program.size ≤ m.ip) : m.step = .flush m (.stop m (.ok .halted)) := by
  obtain ⟨config, tape, program, ip, phase⟩ := m
  have hge : ¬ ip < program.chars.size := Nat.not_lt.mpr h
  simp only [step, dif_neg hge]

/-- Everything else is a move. -/
theorem step_move (hcheck : m.program.check = .ok ()) (hlt : m.ip < m.program.size)
    (ho : m.program.op? m.ip ≠ some .output) (hi : m.program.op? m.ip ≠ some .input) :
    ∃ i t, m.step = .move (m.goTo i t) ∧ i ≤ m.program.size ∧ t.capacity = m.tape.capacity := by
  obtain ⟨config, tape, program, ip, phase⟩ := m
  cases h : program.op? ip with
  | none =>
    refine ⟨ip + 1, tape, ?_, hlt, rfl⟩
    exact step_comment (m := ⟨config, tape, program, ip, phase⟩) hlt h
  | some o =>
    obtain ⟨hlt', hchar⟩ := ofChar?_of_op? h
    cases o with
    | output => exact absurd h ho
    | input => exact absurd h hi
    | right => exact ⟨ip + 1, tape.right, by simp only [step, dif_pos hlt', hchar, goTo], hlt, tape.capacity_right⟩
    | left => exact ⟨ip + 1, tape.left, by simp only [step, dif_pos hlt', hchar, goTo], hlt, tape.capacity_left⟩
    | increment =>
      exact ⟨ip + 1, tape.increment, by simp only [step, dif_pos hlt', hchar, goTo], hlt, tape.capacity_set _⟩
    | decrement =>
      exact ⟨ip + 1, tape.decrement, by simp only [step, dif_pos hlt', hchar, goTo], hlt, tape.capacity_set _⟩
    | loopOpen =>
      obtain ⟨q, he⟩ := exists_close hcheck h
      have hq : q + 1 ≤ program.size := lt_size_of_op? he.closes
      by_cases hz : tape.cell = 0
      · exact ⟨q + 1, tape, by simp only [step, dif_pos hlt', hchar, hz, if_true, he.closeOf?_eq, goTo], hq, rfl⟩
      · exact ⟨ip + 1, tape, by simp only [step, dif_pos hlt', hchar, hz, if_false, goTo], hlt, rfl⟩
    | loopClose =>
      obtain ⟨q, he⟩ := exists_open hcheck h
      have hq : q + 1 ≤ program.size := lt_size_of_op? he.opens
      by_cases hz : tape.cell = 0
      · exact ⟨ip + 1, tape, by simp only [step, dif_pos hlt', hchar, hz, if_true, goTo], hlt, rfl⟩
      · exact ⟨q + 1, tape, by simp only [step, dif_pos hlt', hchar, hz, if_false, he.openOf?_eq, goTo], hq, rfl⟩

/-- **What a step does**, when the brackets match: a partner is always found. -/
theorem does_step (hcheck : m.program.check = .ok ()) : m.Does m.step := by
  rcases Nat.lt_or_ge m.ip m.program.size with hlt | hge
  · by_cases ho : m.program.op? m.ip = some .output
    · rw [step_output ho]
      exact .output ho
    · by_cases hi : m.program.op? m.ip = some .input
      · rw [step_input hi]
        exact .input hi
      · obtain ⟨i, t, hstep, hle, ht⟩ := step_move hcheck hlt ho hi
        rw [hstep]
        exact .move hle ht
  · rw [step_finish hge]
    exact .finish hge

end OneStep

/-! ## Runs -/

section Runs

/-- What holds of an interpreter all along a run: its sizes, and a program that matches its brackets and fits. -/
structure WellFormed (config : Config) (m : Interpreter) : Prop where
  config_eq : m.config = config
  capacity_eq : m.tape.capacity = config.tapeSize
  pointer_lt : m.tape.pointer < config.tapeSize
  balanced : Balanced m.program.chars.toList
  size_le : m.program.size ≤ config.bufferSize
  ip_le : m.ip ≤ m.program.size

theorem WellFormed.goTo (hm : m.WellFormed config) (hi : i ≤ m.program.size) (ht : t.capacity = m.tape.capacity) :
    (m.goTo i t).WellFormed config := by
  have hcapacity : t.capacity = config.tapeSize := ht.trans hm.capacity_eq
  have hpointer : t.pointer < config.tapeSize := hcapacity ▸ t.pointer_lt
  exact ⟨hm.config_eq, hcapacity, hpointer, hm.balanced, hm.size_le, hi⟩

/-- An interpreter that was refused something stands where it asked: an output operator asks for a write, an input operator
for a flush and then for a read, and the end of the text for a flush. -/
def RefusedAt (m : Interpreter) (why : Fault) : Entry → Prop
  | .write b answer => answer = .error why ∧ b = m.tape.cell ∧ m.program.chars[m.ip]? = some '.'
  | .read answer => answer = .error why ∧ m.program.chars[m.ip]? = some ','
  | .flush answer => answer = .error why ∧ (m.program.chars[m.ip]? = some ',' ∨ m.ip = m.program.size)

/-- Where each kind of end can be.  There is no other kind. -/
def Stopped (m : Interpreter) (log : List Entry) : Except Error Outcome → Prop
  | .ok .halted => m.ip = m.program.size
  | .ok .cancelled => m.program.chars[m.ip]? = some ','
  | .error (.io why) => ∃ e, log.getLast? = some e ∧ m.RefusedAt why e
  | .error _ => False

theorem stopped_of_refused {why : Fault} {e : Entry} (h : m.RefusedAt why e) :
    m.Stopped (log ++ [e]) (.error (.io why)) :=
  ⟨e, List.getLast?_concat .., h⟩

/-- **Every run keeps an interpreter well formed**, and ends at a place that fits its result. -/
theorem keeps_wellFormed (config : Config) :
    Keeps step (fun m _ => m.WellFormed config) (fun r m log => m.WellFormed config ∧ m.Stopped log r) := by
  intro m log hm
  have hdoes : m.Does m.step := does_step (check_eq_ok_iff_balanced.mpr hm.balanced)
  generalize m.step = action at hdoes
  cases hdoes with
  | move hi ht => exact hm.goTo hi ht
  | output ho =>
    have hchar : m.program.chars[m.ip]? = some '.' := getElem?_of_op? ho
    exact ⟨hm.goTo (lt_size_of_op? ho) rfl, fun why => ⟨hm, stopped_of_refused ⟨rfl, rfl, hchar⟩⟩⟩
  | input ho =>
    have hchar : m.program.chars[m.ip]? = some ',' := getElem?_of_op? ho
    refine ⟨⟨fun e => ?_, fun why => ⟨hm, stopped_of_refused ⟨rfl, hchar⟩⟩⟩,
      fun why => ⟨hm, stopped_of_refused ⟨rfl, .inl hchar⟩⟩⟩
    cases e with
    | byte b => exact hm.goTo (lt_size_of_op? ho) (m.tape.capacity_set b)
    | cancel => exact ⟨hm, hchar⟩
  | finish hge =>
    have hend : m.ip = m.program.size := Nat.le_antisymm hm.ip_le hge
    exact ⟨⟨hm, hend⟩, fun why => ⟨hm, stopped_of_refused ⟨rfl, .inr hend⟩⟩⟩

end Runs

/-! ## Calls -/

section Calls

/-- What holds of an interpreter between calls. -/
structure Rests (config : Config) (m : Interpreter) : Prop extends m.WellFormed config where
  not_running : m.phase ≠ .running
  of_idle : m.phase = .idle → m.program = .empty ∧ m.tape = .blank config.tapeSize ∧ m.tape.pointer = 0 ∧ m.ip = 0
  of_halted : m.phase = .halted → m.ip = m.program.size
  of_cancelled : m.phase = .cancelled → m.program.chars[m.ip]? = some ','

/-- One call of an interpreter that comes back, and the interpreter after it.  What `load` refuses is not loaded, and leaves
the interpreter as it was. -/
inductive Call : Interpreter → Interpreter → Prop
  | load {m m' : Interpreter} {source : String} : m.load source = .ok m' → Call m m'
  | refuse {m : Interpreter} {source : String} {e : Error} : m.load source = .error e → Call m m
  | execute {m : Interpreter} {κ : Type} [Console κ] {k : κ} {fuel : Nat} {f : Finish Interpreter κ} :
      m.execute fuel k = some f → Call m f.state
  | reset {m : Interpreter} : Call m m.reset

/-- What becomes of a new interpreter by any number of calls. -/
inductive Lives (config : Config) : Interpreter → Prop
  | new {m : Interpreter} : Interpreter.new config = .ok m → Lives config m
  | call {m m' : Interpreter} : Lives config m → Call m m' → Lives config m'

theorem of_load {source : String} (h : m.load source = .ok m') :
    (Program.ofString source).size ≤ m.config.bufferSize ∧ (Program.ofString source).check = .ok () ∧
      m' = { m.started source with phase := .loaded } := by
  rcases Nat.lt_or_ge m.config.bufferSize (Program.ofString source).size with hlt | hle
  · simp only [load, if_pos hlt] at h
    cases h
  · cases hcheck : (Program.ofString source).check with
    | error u =>
      simp only [load, if_neg (Nat.not_lt.mpr hle), hcheck] at h
      cases h
    | ok =>
      rw [load_eq_ok hle hcheck] at h
      cases h
      exact ⟨hle, rfl, rfl⟩

theorem of_new (h : Interpreter.new config = .ok m) : 0 < config.tapeSize ∧ m = .idle config := by
  rcases Nat.eq_zero_or_pos config.tapeSize with hz | hpos
  · have hfault : config.validate = .error (.zero .tape) := by
      simp only [Config.validate, Config.checkSize, hz, if_true]
      rfl
    rw [new, hfault] at h
    cases h
  · cases hvalid : config.validate with
    | error e =>
      rw [new, hvalid] at h
      cases h
    | ok =>
      rw [new, hvalid] at h
      cases h
      exact ⟨hpos, rfl⟩

theorem rests_idle (hpos : 0 < config.tapeSize) : (Interpreter.idle config).Rests config where
  config_eq := rfl
  capacity_eq := Tape.capacity_blank hpos
  pointer_lt := hpos
  balanced := .nil
  size_le := Nat.zero_le _
  ip_le := Nat.le_refl 0
  not_running := nofun
  of_idle _ := ⟨rfl, rfl, rfl, rfl⟩
  of_halted := nofun
  of_cancelled := nofun

theorem WellFormed.reset_eq (hm : m.WellFormed config) : m.reset = .idle config := by
  simp only [Interpreter.reset, idle, Tape.clear, hm.capacity_eq, hm.config_eq]

theorem Rests.reset (hm : m.Rests config) : m.reset.Rests config := by
  have hpos : 0 < config.tapeSize := Nat.lt_of_le_of_lt (Nat.zero_le _) hm.pointer_lt
  rw [hm.reset_eq]
  exact rests_idle hpos

theorem Rests.load {source : String} (hm : m.Rests config) (h : m.load source = .ok m') : m'.Rests config := by
  obtain ⟨hle, hcheck, rfl⟩ := of_load h
  have hpos : 0 < config.tapeSize := Nat.lt_of_le_of_lt (Nat.zero_le _) hm.pointer_lt
  have hblank : (Tape.blank m.tape.capacity).capacity = config.tapeSize := by
    rw [hm.capacity_eq, Tape.capacity_blank hpos]
  exact {
    config_eq := hm.config_eq
    capacity_eq := hblank
    pointer_lt := hpos
    balanced := check_eq_ok_iff_balanced.mp hcheck
    size_le := hm.config_eq ▸ hle
    ip_le := Nat.zero_le _
    not_running := nofun
    of_idle := nofun
    of_halted := nofun
    of_cancelled := nofun }

/-- The end of a run, where it is left. -/
theorem Stopped.rests {r : Except Error Outcome} (hm : m.WellFormed config) (h : m.Stopped log r)
    (hphase : m.phase = phaseAfter r) : m.Rests config := by
  refine ⟨hm, ?_, ?_, ?_, ?_⟩
  · rw [hphase]
    rcases r with _ | _ | _ <;> nofun
  · rw [hphase]
    rcases r with _ | _ | _ <;> nofun
  · rw [hphase]
    intro hhalted
    rcases r with _ | _ | _
    · cases hhalted
    · exact h
    · cases hhalted
  · rw [hphase]
    intro hcancelled
    rcases r with _ | _ | _
    · cases hcancelled
    · cases hcancelled
    · exact h

theorem execute_idle (h : m.phase = .idle) (fuel : Nat) (k : κ) :
    m.execute fuel k = some ⟨.error .notLoaded, m, k⟩ := by
  rw [execute, if_pos h]

/-- Recording changes nothing. -/
theorem execute_record (m : Interpreter) (fuel : Nat) (k : κ) :
    m.execute fuel k = (m.execute fuel (record k)).map eraseFinish := by
  by_cases h : m.phase = .idle
  · rw [execute_idle h, execute_idle h]
    rfl
  · have hdrive := drive_record step fuel { m with phase := .running } (record k)
    rw [execute_eq_map h, execute_eq_map h, Option.map_map]
    rw [show (record k).console = k from rfl] at hdrive
    rw [hdrive, Option.map_map]
    rfl

theorem WellFormed.execute (hm : m.WellFormed config) (h : m.phase ≠ .idle) {fuel : Nat} {k : κ}
    {f : Finish Interpreter (Recorded κ)} (hf : m.execute fuel (record k) = some f) :
    f.state.WellFormed config ∧ f.state.Stopped f.console.log f.result ∧ f.state.phase = phaseAfter f.result := by
  rw [execute_eq_map h] at hf
  obtain ⟨g, hg, rfl⟩ := Option.map_eq_some_iff.mp hf
  have hstart : WellFormed config { m with phase := .running } := ⟨hm.1, hm.2, hm.3, hm.4, hm.5, hm.6⟩
  obtain ⟨hend, hstopped⟩ := (keeps_wellFormed config).ends ⟨fuel, hg⟩ hstart
  exact ⟨⟨hend.1, hend.2, hend.3, hend.4, hend.5, hend.6⟩, hstopped, rfl⟩

theorem Rests.call (hm : m.Rests config) (h : Call m m') : m'.Rests config := by
  cases h with
  | load h => exact hm.load h
  | refuse => exact hm
  | reset => exact hm.reset
  | execute h =>
    by_cases hidle : m.phase = .idle
    · rw [execute_idle hidle] at h
      cases h
      exact hm
    · rw [execute_record] at h
      obtain ⟨g, hg, rfl⟩ := Option.map_eq_some_iff.mp h
      obtain ⟨hend, hstopped, hphase⟩ := hm.toWellFormed.execute hidle hg
      exact hstopped.rests hend hphase

theorem Lives.rests (h : Lives config m) : m.Rests config := by
  induction h with
  | new h =>
    obtain ⟨hpos, rfl⟩ := of_new h
    exact rests_idle hpos
  | call _ h ih => exact ih.call h

/-- **The life of an interpreter.**  Whatever is called in whatever order, an interpreter is at rest after every call.  When
it is then executed on any console, the answer is that nothing is loaded just where it is idle, no bracket is ever found
without a partner, and where the console refused something, the interpreter can go on and stands where it was refused. -/
theorem lifecycle (h : Lives config m) :
    m.Rests config ∧ ∀ {κ : Type} [Console κ] (fuel : Nat) (k : κ),
      (m.phase = .idle → m.execute fuel k = some ⟨.error .notLoaded, m, k⟩) ∧
      ∀ f, m.execute fuel k = some f →
        (f.result = .error .notLoaded ↔ m.phase = .idle) ∧ (∀ u, f.result ≠ .error (.malformed u)) ∧
        ∃ log, m.execute fuel (record k) = some ⟨f.result, f.state, f.console, log⟩ ∧
          ∀ why, f.result = .error (.io why) →
            f.state.phase = .loaded ∧ ∃ e, log.getLast? = some e ∧ f.state.RefusedAt why e := by
  have hm : m.Rests config := h.rests
  refine ⟨hm, fun {κ} _ fuel k => ⟨fun hidle => execute_idle hidle fuel k, fun f hf => ?_⟩⟩
  rw [execute_record] at hf
  obtain ⟨g, hg, rfl⟩ := Option.map_eq_some_iff.mp hf
  by_cases hidle : m.phase = .idle
  · rw [execute_idle hidle] at hg
    cases hg
    exact ⟨⟨fun _ => hidle, fun _ => rfl⟩, nofun, [], execute_idle hidle fuel _, nofun⟩
  · obtain ⟨-, hstopped, hphase⟩ := hm.toWellFormed.execute hidle hg
    refine ⟨⟨fun hr => ?_, fun h => absurd h hidle⟩, fun u hr => ?_, g.console.log, hg, fun why hr => ?_⟩
    · rw [show g.result = .error .notLoaded from hr] at hstopped
      exact hstopped.elim
    · rw [show g.result = .error (.malformed u) from hr] at hstopped
      exact hstopped.elim
    · rw [show g.result = .error (.io why) from hr] at hstopped hphase
      exact ⟨hphase, hstopped⟩

/-- Input is cancelled, another program is refused, and then the run goes on until a byte is refused. -/
theorem lifecycle_refused :
    ∃ m f, Lives ⟨4, 16⟩ m ∧ m.phase = .cancelled ∧ m.program.chars[m.ip]? = some ',' ∧
      m.execute 9 (Script.ofBytes [65], ({ faults := ⟨some (0, ""), none, none⟩ } : Sink)) = some f ∧
      f.result = .error (.io (.other "")) ∧ f.state.phase = .loaded ∧ (f.state.tape.cell, f.state.ip) = (65, 2) := by
  have hload : (idle ⟨4, 16⟩).load (String.ofList [',', '#', '.']) =
      .ok ⟨⟨4, 16⟩, .blank 4, ⟨#[',', '#', '.']⟩, 0, .loaded⟩ := rfl
  have hcancel : Interpreter.execute 9 ⟨⟨4, 16⟩, .blank 4, ⟨#[',', '#', '.']⟩, 0, .loaded⟩
      (Script.ofBytes [], ({} : Sink)) =
        some ⟨.ok .cancelled, ⟨⟨4, 16⟩, .blank 4, ⟨#[',', '#', '.']⟩, 0, .cancelled⟩, _⟩ := rfl
  have hrefuse : Interpreter.load ⟨⟨4, 16⟩, .blank 4, ⟨#[',', '#', '.']⟩, 0, .cancelled⟩ (String.ofList [']']) =
      .error (.malformed ⟨0, .closing⟩) := rfl
  have hnew : Lives ⟨4, 16⟩ (idle ⟨4, 16⟩) := .new rfl
  have hlives := ((hnew.call (.load hload)).call (.execute hcancel)).call (.refuse hrefuse)
  obtain ⟨hrests, hruns⟩ := lifecycle hlives
  obtain ⟨-, -, log, -, hio⟩ := (hruns 9 (Script.ofBytes [65], ({ faults := ⟨some (0, ""), none, none⟩ } : Sink))).2 _ rfl
  exact ⟨_, _, hlives, rfl, hrests.of_cancelled rfl, rfl, rfl, (hio _ rfl).1, rfl⟩

end Calls
end TapeLang.Interpreter
