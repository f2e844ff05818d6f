import TapeLang.Proofs.CompiledFiles
import TapeLang.Proofs.Lockstep
import TapeLang.Proofs.Resume

/-!
# TapeLang.Proofs.CommandPaths — three ways to run a program file

A program file can be run by the interpreter, be compiled and run at once, or be compiled into an image that is run later.

* `Verdict`: what is seen of a command, i.e. its exit code, the bytes it wrote and whether it said that input was cancelled.
* `ComesTo words w v`: the command ends if it is given enough steps, and whenever it ends it shows `v`.
* `Performs`: a command is a run on the input and the output of its world, and then `settled`.
* `Yields`: what a run comes to on an empty sink.  Where the output refuses nothing, that is all that counts of the sink
  (`lockstep_sink`), so runs behind different outputs can be compared.
* **`command_paths_agree`**: if one of the three commands ends, all three come to one verdict.
-/

namespace TapeLang.CommandLine

open Arguments (Task Request)

/-! ## Verdicts -/

section Verdicts

/-- What is printed beside the output when input was cancelled. -/
def cancelNotice : String := Text.fade "input cancelled" ++ "\n"

/-- What is printed beside the output when time is taken. -/
def timeNotice (elapsed : String) : String := Text.fade "elapsed" ++ " " ++ elapsed ++ "\n"

/-- What is seen of a command. -/
structure Verdict where
  /-- Its exit code. -/
  code : UInt32
  /-- The bytes that it wrote. -/
  written : List UInt8
  /-- Whether it said that input was cancelled. -/
  noticed : Bool

/-- A command that started in `w` and ended in `w'` shows a verdict. -/
structure Shows (w : World) (code : UInt32) (w' : World) (v : Verdict) : Prop where
  code_eq : code = v.code
  written : w'.output.accepted.toList = w.output.accepted.toList ++ v.written
  noticed : ∃ warnings, w'.warnings = warnings ++ w.warnings ∧ (cancelNotice ∈ warnings ↔ v.noticed = true)

/-- The command ends, if it is given enough steps. -/
def Terminates (words : List String) (w : World) : Prop :=
  ∃ fuel n r, (execute fuel words : Sim UInt32) { w with patience := n } = some r

/-- The command ends, if it is given enough steps, and whenever it ends it shows the verdict. -/
structure ComesTo (words : List String) (w : World) (v : Verdict) : Prop where
  terminates : Terminates words w
  shows_of_ends : ∀ fuel n code w', (execute fuel words : Sim UInt32) { w with patience := n } = some (code, w') →
    Shows w code w' v

/-- The exit code for a result, and the world that was told of it. -/
def settled (time : Bool) (result : Except Error Outcome) (w : World) : UInt32 × World :=
  match result with
  | .ok outcome =>
    (success, { w with warnings :=
      (if time then [timeNotice w.duration] else []) ++
        ((if outcome = .cancelled then [cancelNotice] else []) ++ w.warnings) })
  | .error why => (failure, { w with warnings := (errorMark ++ why.message ++ "\n") :: w.warnings })

/-- What a result and the bytes that were written come to. -/
def Verdict.of (result : Except Error Outcome) (written : List UInt8) : Verdict :=
  match result with
  | .ok .halted => ⟨success, written, false⟩
  | .ok .cancelled => ⟨success, written, true⟩
  | .error _ => ⟨failure, written, false⟩

theorem take_cancelNotice : cancelNotice.toList.take 5 = ['\x1b', '[', '2', 'm', 'i'] := by
  simp only [cancelNotice, Text.fade, String.toList_append, String.toList_ofList]
  decide

theorem timeNotice_ne_cancelNotice (elapsed : String) : timeNotice elapsed ≠ cancelNotice := by
  have htake : (timeNotice elapsed).toList.take 5 = ['\x1b', '[', '2', 'm', 'e'] := by
    simp only [timeNotice, Text.fade, String.toList_append, String.toList_ofList, List.append_assoc]
    rw [List.take_append_of_le_length (by decide)]
    decide
  intro h
  rw [h, take_cancelNotice] at htake
  exact absurd htake (by decide)

theorem complaint_ne_cancelNotice (text : String) : errorMark ++ text ++ "\n" ≠ cancelNotice := by
  have htake : (errorMark ++ text ++ "\n").toList.take 5 = ['\x1b', '[', '1', 'm', '\x1b'] := by
    simp only [errorMark, Text.paintBold, String.toList_append, String.toList_ofList, List.append_assoc]
    rw [List.take_append_of_le_length (by decide)]
    decide
  intro h
  rw [h, take_cancelNotice] at htake
  exact absurd htake (by decide)

/-- Being told of a result shows the verdict for it. -/
theorem shows_settled {w w' : World} {written : List UInt8} (time : Bool) (result : Except Error Outcome)
    (hwritten : w'.output.accepted.toList = w.output.accepted.toList ++ written) (hwarnings : w'.warnings = w.warnings) :
    Shows w (settled time result w').1 (settled time result w').2 (.of result written) := by
  have htimed : ∀ text ∈ (if time then [timeNotice w'.duration] else []), text ≠ cancelNotice := by
    cases time with
    | false => exact nofun
    | true =>
      intro text htext
      rw [List.mem_singleton.mp htext]
      exact timeNotice_ne_cancelNotice _
  cases result with
  | error why =>
    refine ⟨rfl, hwritten, [errorMark ++ why.message ++ "\n"], by rw [← hwarnings]; rfl, ?_⟩
    simp [Verdict.of, (complaint_ne_cancelNotice why.message).symm]
  | ok outcome =>
    cases outcome with
    | halted =>
      refine ⟨rfl, hwritten, if time then [timeNotice w'.duration] else [], by rw [← hwarnings]; rfl, ?_⟩
      simpa [Verdict.of] using fun h => htimed _ h rfl
    | cancelled =>
      refine ⟨rfl, hwritten, (if time then [timeNotice w'.duration] else []) ++ [cancelNotice], ?_, ?_⟩
      · rw [← hwarnings, List.append_assoc]
        rfl
      · simp [Verdict.of]

end Verdicts

/-! ## Commands that run programs -/

section Performing

variable {σ α : Type} {w : World} {words : List String} {request : Request} {settings : Settings}

/-- The words ask for a task, and it is done with these settings. -/
def Asks (words : List String) (w : World) (task : Task) (settings : Settings) : Prop :=
  ∃ request, Arguments.parse words = .ok request ∧ request.task = task ∧ Configures request w settings

theorem Asks.valid {task : Task} (h : Asks words w task settings) : settings.engine.validate = .ok () := by
  obtain ⟨request, -, -, hsettings⟩ := h
  exact hsettings.valid

theorem Configures.unique {settings' : Settings} (h : Configures request w settings)
    (h' : Configures request w settings') : settings = settings' := by
  obtain ⟨loaded, hloaded, rfl⟩ := h.loaded
  obtain ⟨loaded', hloaded', rfl⟩ := h'.loaded
  cases hloaded.symm.trans hloaded'
  rfl

theorem Configures.patient (h : Configures request w settings) (n : Nat) :
    Configures request { w with patience := n } settings := by
  obtain ⟨loaded, hloaded, rfl⟩ := h.loaded
  obtain ⟨r, hload, hpatient⟩ := observes_loadSettings w n
  cases hload.symm.trans hloaded
  exact ⟨⟨loaded, hpatient, rfl⟩, h.valid⟩

/-- What is left of a task when its run has ended. -/
def concluded (time : Bool) (result : Except Error Outcome) (w : World) : Except Failure UInt32 × World :=
  match result with
  | .ok outcome => (.ok success, (settled time (.ok outcome) w).2)
  | .error why => (.error (.engine why), w)

theorem run_conclude (time : Bool) (result : Except Error Outcome) (w : World) :
    (do
      let outcome ← check result
      (report outcome w.duration time : Sim Unit)
      return success : ExceptT Failure Sim UInt32).run w = some (concluded time result w) := by
  cases result with
  | error why => rfl
  | ok outcome => cases outcome <;> cases time <;> rfl

/-- A run is timed, and then the task is concluded with its result. -/
theorem run_timed (x : Sim α) (result : α → Except Error Outcome) (time : Bool) (w : World) :
    (do
      let r ← (Host.timed x : Sim _)
      let outcome ← check (result r.1)
      (report outcome r.2 time : Sim Unit)
      return success : ExceptT Failure Sim UInt32).run w = (x w).map fun r => concluded time (result r.1) r.2 := by
  have htimed : (Host.timed x : Sim _) w = (x w).map fun r => ((r.1, r.2.duration), r.2) := rfl
  cases hx : x w with
  | none =>
    rw [hx] at htimed
    have hlift : (monadLift (Host.timed x : Sim _) : ExceptT Failure Sim _).run w = none := by
      show (Host.timed x >>= fun a => pure (Except.ok a)) w = _
      simp only [Bind.bind, StateT.bind, htimed]
      rfl
    rw [ExceptT.run_bind]
    simp only [Bind.bind, StateT.bind]
    exact congrArg (Option.bind · _) hlift
  | some r =>
    rw [hx] at htimed
    exact (run_bind_ok (run_lift htimed) _).trans (run_conclude time (result r.1) r.2)

theorem run_runSource {e : Engine} (hnew : Engine.new settings.mode settings.engine settings.outputDir = .ok e)
    (source : String) (time : Bool) (w : World) :
    (runSource settings source time : ExceptT Failure Sim UInt32).run w =
      (e.run w.patience source ((⟨w.input⟩ : Reader), w.output)).map fun f =>
        concluded time f.result { w with input := f.console.1.items, output := f.console.2 } := by
  have hcheck : (check (Engine.new settings.mode settings.engine settings.outputDir) : ExceptT Failure Sim Engine).run w =
      some (.ok e, w) := by
    rw [hnew]
    rfl
  unfold runSource
  rw [run_bind_ok hcheck]
  refine (run_timed (Host.runEngine .stream e source) Prod.fst time w).trans ?_
  exact Option.map_map ..

theorem run_execImage {image text : String} {code : Code} (htext : w.readText image = .ok text)
    (hdecode : Image.decode text image = .ok code) (time : Bool) :
    (execImage image time : ExceptT Failure Sim UInt32).run w =
      (code.run w.patience ((⟨w.input⟩ : Reader), w.output)).map fun f =>
        concluded time f.result { w with input := f.console.1.items, output := f.console.2 } := by
  have hread : (readSource image : ExceptT Failure Sim String).run w = some (.ok text, w) := by
    rw [run_readSource, htext]
    rfl
  have hcheck : (check (Image.decode text image) : ExceptT Failure Sim Code).run w = some (.ok code, w) := by
    rw [hdecode]
    rfl
  unfold execImage
  rw [run_bind_ok hread, run_bind_ok hcheck]
  refine (run_timed (Host.runCode code) id time w).trans ?_
  exact Option.map_map ..

theorem run_dispatch_run {file source : String} (h : Configures request w settings) (htask : request.task = .run file)
    (hsource : w.readText file = .ok source) (fuel : Nat) :
    (dispatch fuel request : ExceptT Failure Sim UInt32).run w =
      (runSource settings source request.options.time : ExceptT Failure Sim UInt32).run w := by
  obtain ⟨loaded, hload, rfl⟩ := h.loaded
  have hcheck := congrArg (fun r => (check (r.mapError .config) : ExceptT Failure Sim Unit).run w) h.valid
  have hread : (readSource file : ExceptT Failure Sim String).run w = some (.ok source, w) := by
    rw [run_readSource, hsource]
    rfl
  unfold dispatch
  rw [run_bind_ok hload, run_bind_ok hcheck, htask]
  exact (run_bind_ok (run_lift (run_locate file w)) _).trans (run_bind_ok hread _)

theorem run_dispatch_exec {image : String} (h : Configures request w settings) (htask : request.task = .exec image)
    (fuel : Nat) :
    (dispatch fuel request : ExceptT Failure Sim UInt32).run w =
      (execImage image request.options.time : ExceptT Failure Sim UInt32).run w := by
  obtain ⟨loaded, hload, rfl⟩ := h.loaded
  have hcheck := congrArg (fun r => (check (r.mapError .config) : ExceptT Failure Sim Unit).run w) h.valid
  unfold dispatch
  rw [run_bind_ok hload, run_bind_ok hcheck, htask]

/-- The command is a run on the input and the output of the world, of which the world is told. -/
def Performs (words : List String) (w : World) (run : Nat → Runner σ) : Prop :=
  ∃ time, ∀ fuel n, (execute fuel words : Sim UInt32) { w with patience := n } =
    (run n (Reader × Sink) (⟨w.input⟩, w.output)).map fun f =>
      settled time f.result { w with patience := n, input := f.console.1.items, output := f.console.2 }

/-- What a task has come to is what the world is told. -/
theorem execute_of_dispatch {fuel : Nat} (hparse : Arguments.parse words = .ok request) (time : Bool)
    {o : Option (Finish σ (Reader × Sink))} {told : Finish σ (Reader × Sink) → World}
    (h : (dispatch fuel request : ExceptT Failure Sim UInt32).run w = o.map fun f => concluded time f.result (told f)) :
    (execute fuel words : Sim UInt32) w = o.map fun f => settled time f.result (told f) := by
  unfold execute
  rw [hparse]
  simp only [Bind.bind, StateT.bind, h]
  cases o with
  | none => rfl
  | some f =>
    obtain ⟨result, s, k⟩ := f
    cases result <;> rfl

theorem performs_run {file source : String} {e : Engine} (h : Asks words w (.run file) settings)
    (hsource : w.readText file = .ok source)
    (hnew : Engine.new settings.mode settings.engine settings.outputDir = .ok e) :
    Performs words w fun n _ _ k => e.run n source k := by
  obtain ⟨request, hparse, htask, hsettings⟩ := h
  refine ⟨request.options.time, fun fuel n => execute_of_dispatch hparse _ ?_⟩
  rw [run_dispatch_run (hsettings.patient n) htask hsource]
  exact run_runSource hnew source _ _

theorem performs_exec {image text : String} {code : Code} (h : Asks words w (.exec image) settings)
    (htext : w.readText image = .ok text) (hdecode : Image.decode text image = .ok code) :
    Performs words w fun n _ _ k => code.run n k := by
  obtain ⟨request, hparse, htask, hsettings⟩ := h
  refine ⟨request.options.time, fun fuel n => execute_of_dispatch hparse _ ?_⟩
  rw [run_dispatch_exec (hsettings.patient n) htask]
  exact run_execImage (w := { w with patience := n }) htext hdecode _

end Performing

/-! ## Runs behind any output -/

section Yielding

variable {σ : Type} {w : World} {words : List String} {run : Nat → Runner σ} {input : List Item}

/-- A stream and an empty sink. -/
def fresh (input : List Item) : Reader × Sink := (⟨input⟩, {})

/-- What a run comes to on a stream and an empty sink. -/
structure Yields (run : Nat → Runner σ) (input : List Item) (result : Except Error Outcome) (written : List UInt8) :
    Prop where
  ends : ∃ n f, run n _ (fresh input) = some f
  eq_of_ends : ∀ n f, run n _ (fresh input) = some f → f.result = result ∧ f.console.2.accepted.toList = written

/-- Two runs on a stream and an empty sink end together, with the same result and the same bytes. -/
structure SameRuns {σ' : Type} (run : Nat → Runner σ) (run' : Nat → Runner σ') (input : List Item) : Prop where
  forth : ∀ n f, run n _ (fresh input) = some f →
    ∃ n' g, run' n' _ (fresh input) = some g ∧ f.result = g.result ∧ f.console.2.accepted = g.console.2.accepted
  back : ∀ n' g, run' n' _ (fresh input) = some g → ∃ n f, run n _ (fresh input) = some f

theorem SameRuns.yields {σ' : Type} {run' : Nat → Runner σ'} (h : SameRuns run run' input) {result : Except Error Outcome}
    {written : List UInt8} (hyields : Yields run' input result written) : Yields run input result written := by
  refine ⟨?_, fun n f hf => ?_⟩
  · obtain ⟨n', g, hg⟩ := hyields.ends
    exact h.back n' g hg
  · obtain ⟨n', g, hg, hresult, haccepted⟩ := h.forth n f hf
    rw [hresult, haccepted]
    exact hyields.eq_of_ends n' g hg

/-- Behind what was written before, a sink that refuses nothing is as good as an empty one. -/
structure Behind (before : List UInt8) (k k' : Reader × Sink) : Prop where
  source : k.1 = k'.1
  faults : k.2.faults = {}
  faults' : k'.2.faults = {}
  accepted : k.2.accepted.toList = before ++ k'.2.accepted.toList

theorem lockstep_sink (before : List UInt8) : Lockstep (Behind before) Never := by
  refine ⟨?_, ?_, ?_⟩
  · rintro ⟨r, out⟩ ⟨_, out'⟩ ⟨rfl, hfaults, hfaults', haccepted⟩
    exact .inl ⟨rfl, rfl, hfaults, hfaults', haccepted⟩
  · rintro ⟨r, out⟩ ⟨_, out'⟩ b ⟨rfl, hfaults, hfaults', (haccepted : out.accepted.toList = _ ++ out'.accepted.toList)⟩
    rw [write_faultless hfaults, write_faultless hfaults']
    refine .inl ⟨rfl, rfl, hfaults, hfaults', ?_⟩
    simp only [Array.toList_push, haccepted, List.append_assoc]
  · rintro ⟨r, out⟩ ⟨_, out'⟩ ⟨rfl, hfaults, hfaults', haccepted⟩
    rw [flush_faultless hfaults, flush_faultless hfaults']
    exact .inl ⟨rfl, rfl, hfaults, hfaults', haccepted⟩

theorem alike_sink (huniform : ∀ n, (run n).Uniform) (hfaults : w.output.faults = {}) (n : Nat) :
    Alike (Behind w.output.accepted.toList) Never (run n (Reader × Sink) (⟨w.input⟩, w.output)) (run n _ (fresh w.input)) :=
  (huniform n).alike (lockstep_sink _) ⟨rfl, hfaults, rfl, (List.append_nil _).symm⟩

theorem Performs.ends_of_terminates (h : Performs words w run) (huniform : ∀ n, (run n).Uniform)
    (hfaults : w.output.faults = {}) (hends : Terminates words w) : ∃ n f, run n _ (fresh w.input) = some f := by
  obtain ⟨time, hexecute⟩ := h
  obtain ⟨fuel, n, r, hr⟩ := hends
  have halike := alike_sink huniform hfaults n
  rw [hexecute] at hr
  obtain ⟨f, hf, -⟩ := Option.map_eq_some_iff.mp hr
  rw [hf] at halike
  generalize hother : run n _ (fresh w.input) = other at halike
  cases halike with
  | ended result s hR => exact ⟨n, _, hother⟩
  | broken s _ hnever => exact hnever.elim

/-- **A command shows what its run yields.** -/
theorem Performs.comesTo (h : Performs words w run) (huniform : ∀ n, (run n).Uniform) (hfaults : w.output.faults = {})
    {result : Except Error Outcome} {written : List UInt8} (hyields : Yields run w.input result written) :
    ComesTo words w (.of result written) := by
  obtain ⟨time, hexecute⟩ := h
  constructor
  · obtain ⟨n, f, hf⟩ := hyields.ends
    have halike := alike_sink huniform hfaults n
    rw [hf] at halike
    generalize hother : run n (Reader × Sink) (⟨w.input⟩, w.output) = other at halike
    cases halike with
    | ended result s hR => exact ⟨0, n, _, by rw [hexecute, hother]; rfl⟩
    | broken s _ hnever => exact hnever.elim
  · intro fuel n code w' hend
    have halike := alike_sink huniform hfaults n
    rw [hexecute] at hend
    obtain ⟨f, hf, heq⟩ := Option.map_eq_some_iff.mp hend
    obtain ⟨rfl, rfl⟩ := Prod.ext_iff.mp heq
    rw [hf] at halike
    generalize hother : run n _ (fresh w.input) = other at halike
    cases halike with
    | ended result' s hR =>
      obtain ⟨hresult, hwritten⟩ := hyields.eq_of_ends n _ hother
      rw [← hresult, ← hwritten]
      exact shows_settled time result' hR.accepted rfl
    | broken s _ hnever => exact hnever.elim

end Yielding

/-! ## The three runs of a program -/

section Engines

variable {config : Config} {source : String} {input : List Item} {code : Code}

theorem checkSize_eq_ok_iff {what : Quantity} {size : Nat} :
    Config.checkSize what size = .ok () ↔ 0 < size ∧ size ≤ sizeLimit := by
  unfold Config.checkSize
  by_cases hzero : size = 0
  · simp [hzero]
  · by_cases hlarge : sizeLimit < size
    · simp [hzero, hlarge]
    · simp [hzero, hlarge]
      omega

theorem of_validate (h : config.validate = .ok ()) :
    (0 < config.tapeSize ∧ config.tapeSize ≤ sizeLimit) ∧ config.bufferSize ≤ sizeLimit := by
  unfold Config.validate at h
  cases htape : Config.checkSize .tape config.tapeSize with
  | error f =>
    rw [htape] at h
    cases h
  | ok _ =>
    rw [htape] at h
    exact ⟨checkSize_eq_ok_iff.mp htape, (checkSize_eq_ok_iff.mp h).2⟩

theorem translator_of_validate (h : config.validate = .ok ()) (directory : Option String) :
    Translator.new config.tapeSize directory = .ok ⟨config.tapeSize, directory.getD Translator.here⟩ := by
  unfold Translator.new Config.validate
  rw [checkSize_eq_ok_iff.mpr (of_validate h).1]
  rfl

/-- The engine of a valid configuration. -/
def engineOf (mode : Mode) (config : Config) (directory : Option String) : Engine :=
  ⟨mode, .idle config, ⟨config.tapeSize, directory.getD Translator.here⟩⟩

theorem new_of_validate (h : config.validate = .ok ()) (mode : Mode) (directory : Option String) :
    Engine.new mode config directory = .ok (engineOf mode config directory) := by
  have hinterpreter : Interpreter.new config = .ok (.idle config) := by
    unfold Interpreter.new
    rw [h]
    rfl
  exact Engine.new_eq_ok mode hinterpreter (translator_of_validate h directory)

theorem yields_code {n : Nat} {g : Finish Machine (Reader × Sink)} (hg : code.run n (fresh input) = some g) :
    Yields (fun n _ _ k => code.run n k) input g.result g.console.2.accepted.toList := by
  refine ⟨⟨n, g, hg⟩, fun n' f hf => ?_⟩
  rw [Code.run_eq_drive] at hf hg
  cases Ends.unique ⟨n', hf⟩ ⟨n, hg⟩
  exact ⟨rfl, rfl⟩

/-- Compiling at once is running the code. -/
theorem sameRuns_translate (hbalanced : Balanced source.toList) (directory : Option String) (input : List Item) :
    SameRuns (fun n _ _ k => (engineOf .translate config directory).run n source k)
      (fun n _ _ k => ((Program.ofString source).code config.tapeSize).run n k) input := by
  have hemit := Translator.emit_eq_ok (engineOf .translate config directory).translator hbalanced
  constructor
  · intro n f hf
    rw [Engine.run_of_emit_ok rfl hemit] at hf
    obtain ⟨g, hg, rfl⟩ := Option.map_eq_some_iff.mp hf
    exact ⟨n, g, hg, rfl, rfl⟩
  · intro n g hg
    refine ⟨n, ⟨g.result, engineOf .translate config directory, g.console⟩, ?_⟩
    rw [Engine.run_of_emit_ok rfl hemit]
    exact congrArg (Option.map _) hg

/-- One more flush changes nothing where nothing is refused. -/
theorem flushCancelled_faultless {k : Reader × Sink} (h : k.2.faults = {}) (result : Except Error Outcome) :
    (flushCancelled result k).1 = result ∧ (flushCancelled result k).2.2.accepted = k.2.accepted := by
  cases result with
  | error why => exact ⟨rfl, rfl⟩
  | ok outcome =>
    cases outcome with
    | halted => exact ⟨rfl, rfl⟩
    | cancelled =>
      have hflush : Console.flush (k.1, k.2) = _ := flush_faultless h
      simp [flushCancelled, hflush]

theorem invariant_faultless : Invariant fun k : Reader × Sink => k.2.faults = {} := by
  refine ⟨fun hk => hk, ?_, ?_⟩
  · rintro ⟨r, out⟩ b hk
    rw [write_faultless hk]
    exact hk
  · rintro ⟨r, out⟩ hk
    rw [flush_faultless hk]
    exact hk

/-- The ends of an interpreter and of a machine show the same. -/
theorem shown_of_sameEnd {k : Reader × Sink} {s : Interpreter} {f : Finish Interpreter (Reader × Sink)}
    {g : Finish Machine (Reader × Sink)} (h : SameEnd f g) (hfaults : k.2.faults = {})
    (hf : Ends Interpreter.step s k f) : f.result = g.result ∧ f.console.2.accepted = g.console.2.accepted := by
  obtain ⟨fuel, hf⟩ := hf
  have hfaults' : f.console.2.faults = {} := (uniform_drive Interpreter.step fuel s).keeps invariant_faultless hfaults hf
  obtain ⟨hresult, haccepted⟩ := flushCancelled_faultless hfaults' f.result
  rw [← h.2.1] at hresult haccepted
  exact ⟨hresult.symm, haccepted.symm⟩

/-- Interpreting is running the code, too. -/
theorem sameRuns_interpret (hbalanced : Balanced source.toList) (hfit : (Program.ofString source).size ≤ config.bufferSize)
    (hvalid : config.validate = .ok ()) (directory : Option String) (input : List Item) :
    SameRuns (fun n _ _ k => (engineOf .interpret config directory).run n source k)
      (fun n _ _ k => ((Program.ofString source).code config.tapeSize).run n k) input := by
  obtain ⟨⟨hpos, hlimit⟩, -⟩ := of_validate hvalid
  have hcheck : (Program.ofString source).check = .ok () := check_eq_ok_iff_balanced.mpr hbalanced
  have hcapacity : (Interpreter.idle config).tape.capacity = config.tapeSize := Tape.capacity_blank hpos
  have hrun (n : Nat) (k : Reader × Sink) : (engineOf .interpret config directory).run n source k =
      (drive Interpreter.step n ((Interpreter.idle config).started source) k).map fun f =>
        ⟨f.result, { engineOf .interpret config directory with interpreter := (Interpreter.settle f).state }, f.console⟩ := by
    rw [Engine.run_interpret rfl, engineOf, Interpreter.run_eq_map hfit hcheck, Option.map_map]
    rfl
  obtain ⟨hforward, hback⟩ := ends_start_iff (m := .idle config) hcheck (by rw [hcapacity]; exact hlimit)
    (fresh input)
  rw [hcapacity] at hforward hback
  constructor
  · intro n f hf
    rw [hrun] at hf
    obtain ⟨f', hf', rfl⟩ := Option.map_eq_some_iff.mp hf
    obtain ⟨g, ⟨n', hg⟩, hsame⟩ := hforward f' ⟨n, hf'⟩
    exact ⟨n', g, by rw [Code.run_eq_drive, hg], shown_of_sameEnd hsame rfl ⟨n, hf'⟩⟩
  · intro n g hg
    rw [Code.run_eq_drive] at hg
    obtain ⟨f, ⟨n', hf⟩, -⟩ := hback g ⟨n, hg⟩
    exact ⟨n', _, by rw [hrun, hf, Option.map_some]⟩

end Engines

/-! ## The three commands -/

section Commands

variable {w w' : World} {words : List String} {file source : String} {config : Config} {output : Option String}

/-- The command is a run that comes to what running the code comes to. -/
def RunsCode (words : List String) (w : World) (code : Code) : Prop :=
  ∃ (σ : Type) (run : Nat → Runner σ), (∀ n, (run n).Uniform) ∧ Performs words w run ∧
    SameRuns run (fun n _ _ k => code.run n k) w.input

theorem RunsCode.ends_of_terminates {code : Code} (h : RunsCode words w code) (hfaults : w.output.faults = {})
    (hends : Terminates words w) : ∃ n g, code.run n (fresh w.input) = some g := by
  obtain ⟨σ, run, huniform, hperforms, hsame⟩ := h
  obtain ⟨n, f, hf⟩ := hperforms.ends_of_terminates huniform hfaults hends
  obtain ⟨n', g, hg, -⟩ := hsame.forth n f hf
  exact ⟨n', g, hg⟩

theorem RunsCode.comesTo {code : Code} (h : RunsCode words w code) (hfaults : w.output.faults = {}) {n : Nat}
    {g : Finish Machine (Reader × Sink)} (hg : code.run n (fresh w.input) = some g) :
    ComesTo words w (.of g.result g.console.2.accepted.toList) := by
  obtain ⟨σ, run, huniform, hperforms, hsame⟩ := h
  exact hperforms.comesTo huniform hfaults (hsame.yields (yields_code hg))

theorem runsCode_interpret {directory : Option String} (h : Asks words w (.run file) ⟨.interpret, directory, config⟩)
    (hsource : w.readText file = .ok source) (hbalanced : Balanced source.toList)
    (hfit : (Program.ofString source).size ≤ config.bufferSize) :
    RunsCode words w ((Program.ofString source).code config.tapeSize) :=
  ⟨_, _, fun n => Engine.uniform_run _ n source, performs_run h hsource (new_of_validate h.valid .interpret directory),
    sameRuns_interpret hbalanced hfit h.valid directory w.input⟩

theorem runsCode_translate {directory : Option String} (h : Asks words w (.run file) ⟨.translate, directory, config⟩)
    (hsource : w.readText file = .ok source) (hbalanced : Balanced source.toList) :
    RunsCode words w ((Program.ofString source).code config.tapeSize) :=
  ⟨_, _, fun n => Engine.uniform_run _ n source, performs_run h hsource (new_of_validate h.valid .translate directory),
    sameRuns_translate hbalanced directory w.input⟩

theorem runsCode_exec {code : Code} {image text : String} {settings : Settings} (h : Asks words w (.exec image) settings)
    (htext : w.readText image = .ok text) (hdecode : Image.decode text image = .ok code) : RunsCode words w code :=
  ⟨_, _, fun n => code.uniform_run n, performs_exec h htext hdecode,
    fun n f hf => ⟨n, f, hf, rfl, rfl⟩, fun n g hg => ⟨n, g, hg⟩⟩

theorem size_code_le_maxCount (hvalid : config.validate = .ok ())
    (hfit : (Program.ofString source).size ≤ config.bufferSize) (cells : Nat) :
    ((Program.ofString source).code cells).size ≤ Json.maxCount := by
  have hsize := (Program.ofString source).size_code_le cells
  have hlimit := (of_validate hvalid).2
  have hcount : 6 * sizeLimit + 2 ≤ Json.maxCount := by decide
  omega

/-- Where a file was compiled and what is found there. -/
theorem readText_of_compile {fuel : Nat} {mode : Mode} {directory : Option String}
    (h : Asks words w (.compile [file] output) ⟨mode, directory, config⟩) (hw : w.disk.IsTree)
    (hsource : w.readText file = .ok source) (hbalanced : Balanced source.toList)
    (hcompiled : (execute fuel words : Sim UInt32) w = some (success, w')) :
    ∃ path, w'.output = (w.print (compiledNote file path ++ "\n")).output ∧
      w'.readText path = .ok (Image.encode ((Program.ofString source).code config.tapeSize)) := by
  obtain ⟨request, hparse, htask, hsettings⟩ := h
  obtain ⟨code, w₁, hrun, hdelivers⟩ := run_execute fuel hparse htask hw
  cases hcompiled.symm.trans hrun
  obtain ⟨made, settings, t, hsettings', hmade⟩ := hdelivers.done_iff.mp rfl
  have hleaves := hdelivers.leaves made ⟨settings, t, hsettings', hmade⟩
  cases hsettings.unique hsettings'
  obtain ⟨a, rfl, rfl⟩ := List.map_eq_singleton_iff.mp hmade.files_eq
  obtain ⟨b, hb, -, place, executable, hne, hname, hfile⟩ := hleaves.holds a (.head _)
  cases List.mem_singleton.mp hb
  obtain ⟨source', name, _, hsource', -, hmakes⟩ := hmade.compiled a (.head _)
  cases hsource.symm.trans hsource'
  cases hmade.translator.symm.trans (translator_of_validate hsettings.valid directory)
  have hcode := hmakes.emit.symm.trans (Translator.emit_eq_ok _ hbalanced)
  refine ⟨a.path, hleaves.reports, ?_⟩
  rw [← Except.ok.inj hcode]
  exact Image.readText_of_file hleaves.tree hne hfile hname

/-- **Three ways to run a program file come to the same.**  A file whose brackets match and that fits the buffer is run by
the interpreter, is compiled and run at once, and is compiled into an image, all with the sizes of one valid configuration.
The image is then run in any world that has it somewhere, with any other settings, on the same input.  Outputs refuse
nothing.  If one of the three commands ends when it is given enough steps, then all three do, and whenever one ends, its
exit code, the bytes it wrote and whether it said that input was cancelled are those of the others. -/
theorem command_paths_agree {interpret translate compile : List String} {mode : Mode} {d₁ d₂ d₃ : Option String} {fuel : Nat}
    (hw : w.disk.IsTree) (hfaults : w.output.faults = {}) (hsource : w.readText file = .ok source)
    (hbalanced : Balanced source.toList) (hfit : (Program.ofString source).size ≤ config.bufferSize)
    (hinterpret : Asks interpret w (.run file) ⟨.interpret, d₁, config⟩)
    (htranslate : Asks translate w (.run file) ⟨.translate, d₂, config⟩)
    (hcompile : Asks compile w (.compile [file] output) ⟨mode, d₃, config⟩)
    (hcompiled : (execute fuel compile : Sim UInt32) w = some (success, w')) :
    ∃ path text, w'.output = (w.print (compiledNote file path ++ "\n")).output ∧ w'.readText path = .ok text ∧
      ∀ (v : World) (image : String) (exec : List String) (settings : Settings), v.readText image = .ok text →
        v.input = w.input → v.output.faults = {} → Asks exec v (.exec image) settings →
        Terminates interpret w ∨ Terminates translate w ∨ Terminates exec v →
        ∃ verdict, ComesTo interpret w verdict ∧ ComesTo translate w verdict ∧ ComesTo exec v verdict := by
  have hvalid : config.validate = .ok () := hinterpret.valid
  obtain ⟨⟨hpos, hlimit⟩, -⟩ := of_validate hvalid
  obtain ⟨path, hreport, htext⟩ := readText_of_compile hcompile hw hsource hbalanced hcompiled
  refine ⟨path, _, hreport, htext, fun v image exec settings himage hinput hfaults' hexec hends => ?_⟩
  have hdecode := Image.decode_of_validate (Program.validate_code (.ofString source) hpos hlimit)
    (size_code_le_maxCount hvalid hfit config.tapeSize) image
  have hruns₁ := runsCode_interpret hinterpret hsource hbalanced hfit
  have hruns₂ := runsCode_translate htranslate hsource hbalanced
  have hruns₃ := runsCode_exec hexec himage hdecode
  -- whichever command ends, the code does, and then all three show what it comes to
  have hcode : ∃ n g, ((Program.ofString source).code config.tapeSize).run n (fresh w.input) = some g := by
    rcases hends with hends | hends | hends
    · exact hruns₁.ends_of_terminates hfaults hends
    · exact hruns₂.ends_of_terminates hfaults hends
    · rw [← hinput]
      exact hruns₃.ends_of_terminates hfaults' hends
  obtain ⟨n, g, hg⟩ := hcode
  refine ⟨_, hruns₁.comesTo hfaults hg, hruns₂.comesTo hfaults hg, ?_⟩
  rw [← hinput] at hg
  exact hruns₃.comesTo hfaults' hg

end Commands

/-! ## A program that copies a byte -/

section Copying

/-- A directory with a program that reads a byte, writes it and reads again, and one byte of input. -/
def copyPlace : World where
  disk := ⟨[([['w']], .directory), ([['w'], ['c', '.', 't', 'w']], .file (String.ofList [',', '.', ',']).toUTF8 false)]⟩
  here := [['w']]
  input := [.byte 104]
  patience := 0

/-- Another world with the same input, where an image lies at the root. -/
def imagePlace (text : String) : World where
  disk := ⟨[([['c', '.', 't', 'w', 'x']], .file text.toUTF8 false)]⟩
  input := [.byte 104]
  patience := 0

theorem copyPlace_isTree : copyPlace.disk.IsTree := by
  intro n hn
  simp only [copyPlace, List.mem_cons, List.not_mem_nil, or_false] at hn
  rcases hn with rfl | rfl
  · exact ⟨[], ['w'], rfl, by decide, rfl⟩
  · exact ⟨[['w']], ['c', '.', 't', 'w'], rfl, by decide, rfl⟩

theorem balanced_copy : Balanced (String.ofList [',', '.', ',']).toList := by
  rw [String.toList_ofList]
  exact .other (by decide) (by decide) (.other (by decide) (by decide) (.other (by decide) (by decide) .nil))

theorem readText_copyPlace : copyPlace.readText "c.tw" = .ok (String.ofList [',', '.', ',']) :=
  World.readText_of_read rfl

theorem asks_compile : Asks ["compile", "c.tw", "--tape-size", "4"] copyPlace (.compile ["c.tw"] none)
    ⟨.default, none, ⟨4, 50000⟩⟩ :=
  ⟨⟨.compile ["c.tw"] none, { tapeSize := some 4 }⟩, rfl, rfl, ⟨{}, rfl, rfl⟩, rfl⟩

theorem compiles_copyPlace :
    ∃ w', (execute 0 ["compile", "c.tw", "--tape-size", "4"] : Sim UInt32) copyPlace = some (success, w') := by
  have hpath : (Translator.resolve ⟨4, Translator.here⟩ (String.ofList ['c'])).toList =
      ['.', '/', 'c', '.', 't', 'w', 'x'] := by
    unfold Translator.resolve
    rw [String.toList_ofList, String.toList_ofList]
    decide
  have hslot : Translator.slotOf ⟨4, Translator.here⟩ copyPlace (String.ofList [',', '.', ','], String.ofList ['c']) =
      .ok [['w'], ['c', '.', 't', 'w', 'x']] := by
    unfold Translator.slotOf
    rw [hpath]
    rfl
  have hname : destinationOf none "c.tw" = .ok (String.ofList ['c']) := by
    have hstem : Path.stem? "c.tw".toList = some ['c'] := by decide
    unfold destinationOf imageName
    rw [hstem]
  have hmade : Artifact.Compiled ⟨"c.tw", _, _⟩ ⟨4, Translator.here⟩ copyPlace none :=
    ⟨_, _, _, readText_copyPlace, hname, Translator.emit_eq_ok _ balanced_copy, hslot, rfl⟩
  obtain ⟨request, hparse, htask, hsettings⟩ := asks_compile
  obtain ⟨code, w', hrun, hdelivers⟩ := run_execute 0 hparse htask copyPlace_isTree
  have hcode := hdelivers.done_iff.mpr ⟨[_], _, _, hsettings, by simp, rfl, rfl, by simpa using hmade⟩
  exact ⟨w', by rw [hrun, hcode]⟩

/-- The byte is copied and input is cancelled on each of the three ways; the image is run elsewhere, with another tape
size. -/
theorem command_paths_agree_copy : ∃ w' path text verdict,
    (execute 0 ["compile", "c.tw", "--tape-size", "4"] : Sim UInt32) copyPlace = some (success, w') ∧
    w'.readText path = .ok text ∧
    ComesTo ["run", "c.tw", "--mode", "interpret", "--tape-size", "4"] copyPlace verdict ∧
    ComesTo ["run", "c.tw", "--mode", "translate", "--tape-size", "4"] copyPlace verdict ∧
    ComesTo ["exec", "c.twx", "--tape-size", "9"] (imagePlace text) verdict ∧
    verdict.code = success ∧ verdict.written = [104] ∧ verdict.noticed = true := by
  have hinterpret : Asks ["run", "c.tw", "--mode", "interpret", "--tape-size", "4"] copyPlace (.run "c.tw")
      ⟨.interpret, none, ⟨4, 50000⟩⟩ :=
    ⟨⟨.run "c.tw", { mode := some .interpret, tapeSize := some 4 }⟩, rfl, rfl, ⟨{}, rfl, rfl⟩, rfl⟩
  have htranslate : Asks ["run", "c.tw", "--mode", "translate", "--tape-size", "4"] copyPlace (.run "c.tw")
      ⟨.translate, none, ⟨4, 50000⟩⟩ :=
    ⟨⟨.run "c.tw", { mode := some .translate, tapeSize := some 4 }⟩, rfl, rfl, ⟨{}, rfl, rfl⟩, rfl⟩
  obtain ⟨w', hcompiled⟩ := compiles_copyPlace
  obtain ⟨path, text, -, htext, hagree⟩ := command_paths_agree copyPlace_isTree rfl readText_copyPlace balanced_copy
    (by decide) hinterpret htranslate asks_compile hcompiled
  have hexec : Asks ["exec", "c.twx", "--tape-size", "9"] (imagePlace text) (.exec "c.twx") ⟨.default, none, ⟨9, 50000⟩⟩ :=
    ⟨⟨.exec "c.twx", { tapeSize := some 9 }⟩, rfl, rfl, ⟨{}, rfl, rfl⟩, rfl⟩
  have hend : (execute 0 ["run", "c.tw", "--mode", "interpret", "--tape-size", "4"] : Sim UInt32)
      { copyPlace with patience := 20 } = some (success, _) := rfl
  obtain ⟨verdict, h₁, h₂, h₃⟩ := hagree (imagePlace text) "c.twx" _ _ (World.readText_of_read rfl) rfl rfl hexec
    (.inl ⟨0, 20, _, hend⟩)
  have hshows := h₁.shows_of_ends 0 20 _ _ hend
  have hnoticed : verdict.noticed = true := by
    obtain ⟨warnings, hwarnings, hiff⟩ := hshows.noticed
    have hmem : cancelNotice ∈ warnings ++ copyPlace.warnings := hwarnings ▸ List.mem_singleton_self _
    exact hiff.mp ((List.mem_append.mp hmem).resolve_right nofun)
  exact ⟨w', path, text, verdict, hcompiled, htext, h₁, h₂, h₃, hshows.code_eq.symm, hshows.written.symm, hnoticed⟩

end Copying
end TapeLang.CommandLine
