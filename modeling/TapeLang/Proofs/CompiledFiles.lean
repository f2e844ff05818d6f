import TapeLang.CommandLine
import TapeLang.Proofs.Together

/-!
# TapeLang.Proofs.CompiledFiles — the command that compiles files

Program files are read one after another, compiled at the same time, and reported in their order.  The name of an image
comes from the name of its program alone, so two programs can have one image.

* `Artifact.Compiled`: what a file comes to, with the translator and in the world that the command starts with.
* `Fulfils`: all files compile, with the settings of the request.  `Leaves`: what the command then leaves.
* `run_compileFiles`, `run_dispatch`, `run_execute`: the command succeeds just where all files compile (`Delivers`).
* **`compile_keeps_artifacts`**: no artifact is lost just where files with one path have one code.
* `compile_loses_artifact`: two programs of one name.
-/

namespace TapeLang.CommandLine

/-! ## What only looks at the world -/

section Observing

variable {α β ε : Type}

/-- A computation that leaves every world as it is and comes to an end, and does not see the patience. -/
def Observes (x : Sim α) : Prop :=
  ∀ w n, ∃ a, x w = some (a, w) ∧ x { w with patience := n } = some (a, { w with patience := n })

theorem observes_pure (a : α) : Observes (pure a) := fun _ _ => ⟨a, rfl, rfl⟩

theorem Observes.bind {x : Sim α} {f : α → Sim β} (hx : Observes x) (hf : ∀ a, Observes (f a)) : Observes (x >>= f) := by
  intro w n
  obtain ⟨a, ha, ha'⟩ := hx w n
  obtain ⟨b, hb, hb'⟩ := hf a w n
  refine ⟨b, ?_, ?_⟩
  · simp only [Bind.bind, StateT.bind, ha]
    exact hb
  · simp only [Bind.bind, StateT.bind, ha']
    exact hb'

theorem Observes.bindExcept {x : ExceptT ε Sim α} {f : α → ExceptT ε Sim β} (hx : Observes x.run)
    (hf : ∀ a, Observes (f a).run) : Observes (x >>= f).run := by
  rw [ExceptT.run_bind]
  refine hx.bind fun r => ?_
  cases r with
  | ok a => exact hf a
  | error e => exact observes_pure _

theorem Observes.lift {x : Sim α} (hx : Observes x) : Observes (monadLift x : ExceptT ε Sim α).run := by
  exact hx.bind fun a => observes_pure (Except.ok a)

theorem observes_settingsPath? : Observes (settingsPath? : Sim (Option String)) := by
  have hlookup (name : String) : Observes (Host.lookup? name : Sim _) := fun w n => ⟨_, rfl, rfl⟩
  unfold settingsPath? settingsDirectory?
  refine Observes.bind (Observes.bind (hlookup _) fun found => ?_) fun _ => observes_pure _
  cases Option.filter Path.isAbsolute (found.map String.toList) with
  | some directory => exact observes_pure _
  | none =>
    refine (hlookup _).bind fun home => ?_
    cases Option.filter (fun x => !x.isEmpty) (home.map String.toList) <;> exact observes_pure _

theorem observes_loadSettings : Observes (loadSettings : ExceptT Failure Sim Settings).run := by
  have hlookup (name : String) : Observes (Host.lookup? name : Sim _) := fun w n => ⟨_, rfl, rfl⟩
  have hread (path : String) : Observes (readSettings path : ExceptT Failure Sim Settings).run := by
    unfold readSettings
    refine Observes.bindExcept (Observes.lift fun w n => ⟨_, rfl, rfl⟩) fun r => ?_
    cases r with
    | error why => exact observes_pure _
    | ok text =>
      cases hparse : Settings.parse text with
      | none => simp only [hparse]; exact observes_pure _
      | some settings => simp only [hparse]; exact observes_pure _
  unfold loadSettings fileSettings
  refine Observes.bindExcept (Observes.bindExcept observes_settingsPath?.lift fun path => ?_) fun settings =>
    Observes.bindExcept (hlookup _).lift fun mode => Observes.bindExcept (hlookup _).lift fun directory => observes_pure _
  cases path with
  | none => exact observes_pure _
  | some path =>
    refine Observes.bindExcept (Observes.lift fun w n => ⟨_, rfl, rfl⟩) fun found => ?_
    cases found with
    | true => exact hread path
    | false => exact observes_pure _

end Observing

/-! ## Steps of the command -/

section Steps

variable {α β ε : Type} {w w' : World} {files : List String} {output : Option String}

theorem run_bind_ok {x : ExceptT ε Sim α} {a : α} (h : x.run w = some (.ok a, w')) (f : α → ExceptT ε Sim β) :
    (x >>= f).run w = (f a).run w' := by
  rw [ExceptT.run_bind]
  simp only [Bind.bind, StateT.bind, h]
  rfl

theorem run_bind_error {x : ExceptT ε Sim α} {e : ε} (h : x.run w = some (.error e, w')) (f : α → ExceptT ε Sim β) :
    (x >>= f).run w = some (.error e, w') := by
  rw [ExceptT.run_bind]
  simp only [Bind.bind, StateT.bind, h]
  rfl

theorem run_lift {x : Sim α} {a : α} (h : x w = some (a, w')) :
    (monadLift x : ExceptT ε Sim α).run w = some (.ok a, w') := by
  show (x >>= fun a => pure (Except.ok a)) w = _
  simp only [Bind.bind, StateT.bind, h]
  rfl

theorem run_locate (file : String) (w : World) : (locate file : Sim String) w = some (file, w) := by
  unfold locate
  split
  · rfl
  · show (if w.disk.contains w.here file.toList then pure file else _ : Sim String) w = _
    split <;> rfl

/-- The name of the image of a program file, with or without one that is asked for. -/
def destinationOf (output : Option String) (file : String) : Except Failure String :=
  match output with
  | some name => .ok name
  | none => imageName file

/-- The program in a file and the name of its image. -/
def jobIn (w : World) (output : Option String) (file : String) : Except Failure (String × String) := do
  let source ← (w.readText file).mapError (.unreadable file)
  return (source, ← destinationOf output file)

theorem run_readSource (path : String) (w : World) :
    (readSource path : ExceptT Failure Sim String).run w = some ((w.readText path).mapError (.unreadable path), w) := by
  have hread : (Host.readText path : Sim _) w = some (w.readText path, w) := rfl
  unfold readSource
  rw [run_bind_ok (run_lift hread)]
  cases w.readText path <;> rfl

theorem run_jobOf (output : Option String) (file : String) (w : World) :
    (jobOf output file : ExceptT Failure Sim _).run w = some (jobIn w output file, w) := by
  have hread := run_readSource file w
  unfold jobOf jobIn
  rw [run_bind_ok (run_lift (run_locate file w))]
  cases htext : w.readText file with
  | error why =>
    rw [htext] at hread
    exact run_bind_error hread _
  | ok source =>
    rw [htext] at hread
    rw [run_bind_ok hread]
    cases output with
    | some name => rfl
    | none =>
      unfold destinationOf
      cases imageName file <;> rfl

theorem run_jobs (output : Option String) (files : List String) (w : World) :
    (files.mapM (jobOf output) : ExceptT Failure Sim _).run w = some (files.mapM (jobIn w output), w) := by
  induction files with
  | nil => rfl
  | cons file files ih =>
    rw [List.mapM_cons, List.mapM_cons]
    have hjob := run_jobOf output file w
    cases hfile : jobIn w output file with
    | error why =>
      rw [hfile] at hjob
      exact run_bind_error hjob _
    | ok job =>
      rw [hfile] at hjob
      rw [run_bind_ok hjob]
      cases hfiles : files.mapM (jobIn w output) with
      | error why =>
        rw [hfiles] at ih
        exact run_bind_error ih _
      | ok jobs =>
        rw [hfiles] at ih
        rw [run_bind_ok ih]
        rfl

/-- The world after it was told what became of a file. -/
def reported (w : World) (x : String × Except Error String) : World :=
  match x.2 with
  | .ok image => w.print (compiledNote x.1 image ++ "\n")
  | .error e => { w with warnings := (errorMark ++ (x.1 ++ ": " ++ e.message) ++ "\n") :: w.warnings }

theorem run_reports (xs : List (String × Except Error String)) (w : World) :
    (xs.forM fun (file, result) => (reportImage file result : Sim Unit) : ExceptT Failure Sim Unit).run w =
      some (.ok (), xs.foldl reported w) := by
  induction xs generalizing w with
  | nil => rfl
  | cons x xs ih =>
    obtain ⟨file, result⟩ := x
    have hreport : (reportImage file result : Sim Unit) w = some ((), reported w (file, result)) := by
      cases result <;> rfl
    exact (run_bind_ok (run_lift hreport) _).trans (ih _)

end Steps

/-! ## Artifacts -/

section Artifacts

variable {t : Translator} {w w' : World} {settings : Settings} {files : List String} {output : Option String}
  {jobs : List (String × String)} {rs : List (Except Error String)}

open Translator (Makes Holds)

/-- A program file, its code, and the path that is reported for it. -/
structure Artifact where
  file : String
  code : Code
  path : String

/-- The code is that of the program in the file, and the path that of the place where its image goes. -/
def Artifact.Compiled (a : Artifact) (t : Translator) (w : World) (output : Option String) : Prop :=
  ∃ source name place, w.readText a.file = .ok source ∧ destinationOf output a.file = .ok name ∧
    Makes t w (source, name) a.code place a.path

theorem jobIn_eq_ok_iff {file : String} {job : String × String} :
    jobIn w output file = .ok job ↔ w.readText file = .ok job.1 ∧ destinationOf output file = .ok job.2 := by
  obtain ⟨source, name⟩ := job
  unfold jobIn
  cases w.readText file with
  | error why =>
    constructor
    · intro h
      cases h
    · rintro ⟨hsource, -⟩
      cases hsource
  | ok text =>
    cases destinationOf output file with
    | error why =>
      constructor
      · intro h
        cases h
      · rintro ⟨-, hname⟩
        cases hname
    | ok name' =>
      constructor
      · intro h
        cases h
        exact ⟨rfl, rfl⟩
      · rintro ⟨hsource, hname⟩
        cases hsource
        cases hname
        rfl

theorem compiled_iff {a : Artifact} :
    a.Compiled t w output ↔ ∃ job place, jobIn w output a.file = .ok job ∧ Makes t w job a.code place a.path := by
  constructor
  · rintro ⟨source, name, place, hsource, hname, hmakes⟩
    exact ⟨(source, name), place, jobIn_eq_ok_iff.mpr ⟨hsource, hname⟩, hmakes⟩
  · rintro ⟨⟨source, name⟩, place, hjob, hmakes⟩
    obtain ⟨hsource, hname⟩ := jobIn_eq_ok_iff.mp hjob
    exact ⟨source, name, place, hsource, hname, hmakes⟩

/-- Images of one name have one path. -/
theorem Artifact.Compiled.path_eq {a b : Artifact} (ha : a.Compiled t w output) (hb : b.Compiled t w output)
    (hname : destinationOf output a.file = destinationOf output b.file) : a.path = b.path := by
  obtain ⟨_, name, place, -, hna, hmakes⟩ := ha
  obtain ⟨_, name', place', -, hnb, hmakes'⟩ := hb
  rw [hna, hnb] at hname
  cases hname
  cases hmakes.slot.symm.trans hmakes'.slot
  exact Except.ok.inj (hmakes.answer.symm.trans hmakes'.answer)

theorem mapM_eq_ok_iff {α β ε : Type} {f : α → Except ε β} {xs : List α} {ys : List β} :
    xs.mapM f = .ok ys ↔ xs.map f = ys.map .ok := by
  induction xs generalizing ys with
  | nil => cases ys <;> simp [Pure.pure, Except.pure]
  | cons x xs ih =>
    rw [List.mapM_cons]
    cases ys with
    | nil => cases f x <;> cases xs.mapM f <;> simp [Bind.bind, Except.bind, Pure.pure, Except.pure]
    | cons y ys =>
      rw [List.map_cons, List.map_cons, List.cons.injEq, ← ih]
      cases f x <;> cases xs.mapM f <;> simp [Bind.bind, Except.bind, Pure.pure, Except.pure]

/-- If every result is a path, there are artifacts with these paths. -/
theorem exists_artifacts (hjobs : files.map (jobIn w output) = jobs.map .ok) (hlength : rs.length = jobs.length)
    (hok : ∀ r ∈ rs, r.isOk) (hrs : ∀ x ∈ jobs.zip rs, ∀ p, x.2 = .ok p → ∃ code place, Makes t w x.1 code place p) :
    ∃ made : List Artifact, made.map (·.file) = files ∧ ∀ a ∈ made, a.Compiled t w output := by
  induction files generalizing jobs rs with
  | nil => exact ⟨[], rfl, by simp⟩
  | cons file files ih =>
    cases jobs with
    | nil => cases hjobs
    | cons job jobs =>
      cases rs with
      | nil => cases hlength
      | cons r rs =>
        obtain ⟨hjob, hjobs⟩ := List.cons.inj hjobs
        obtain ⟨made, hfiles, hmade⟩ := ih hjobs (Nat.succ.inj hlength) (fun r hr => hok r (.tail _ hr))
          fun x hx => hrs x (.tail _ hx)
        cases r with
        | error e => cases hok (.error e) (.head _)
        | ok p =>
          obtain ⟨code, place, hmakes⟩ := hrs (job, .ok p) (.head _) p rfl
          refine ⟨⟨file, code, p⟩ :: made, by rw [List.map_cons, hfiles], ?_⟩
          intro a ha
          rcases List.mem_cons.mp ha with rfl | ha
          · exact compiled_iff.mpr ⟨job, place, hjob, hmakes⟩
          · exact hmade a ha

/-- Artifacts have the paths that are the results. -/
theorem results_eq {made : List Artifact} (hjobs : made.map (fun a => jobIn w output a.file) = jobs.map .ok)
    (hlength : rs.length = jobs.length) (hmade : ∀ a ∈ made, a.Compiled t w output)
    (hrs : ∀ x ∈ jobs.zip rs, ∀ p code place, Makes t w x.1 code place p → x.2 = .ok p) :
    rs = made.map fun a => .ok a.path := by
  induction made generalizing jobs rs with
  | nil =>
    cases List.map_eq_nil_iff.mp hjobs.symm
    exact List.eq_nil_of_length_eq_zero hlength
  | cons a made ih =>
    cases jobs with
    | nil => cases hjobs
    | cons job jobs =>
      cases rs with
      | nil => cases hlength
      | cons r rs =>
        obtain ⟨hjob, hjobs⟩ := List.cons.inj hjobs
        obtain ⟨job', place, hjob', hmakes⟩ := compiled_iff.mp (hmade a (.head _))
        cases hjob.symm.trans hjob'
        have hr : r = .ok a.path := hrs (job, r) (.head _) a.path a.code place hmakes
        have hrest := ih hjobs (Nat.succ.inj hlength) (fun b hb => hmade b (.tail _ hb)) fun x hx => hrs x (.tail _ hx)
        rw [hr, hrest, List.map_cons]

/-- All files are compiled with these settings, and these are the artifacts. -/
structure Compiles (settings : Settings) (files : List String) (output : Option String) (w : World) (t : Translator)
    (made : List Artifact) : Prop where
  /-- A name is asked for only where there is one file. -/
  named : ¬(output.isSome ∧ 1 < files.length)
  translator : settings.translator = .ok t
  files_eq : made.map (·.file) = files
  compiled : ∀ a ∈ made, a.Compiled t w output

theorem Compiles.map_jobIn {made : List Artifact} (h : Compiles settings files output w t made) :
    files.map (jobIn w output) = made.map fun a => jobIn w output a.file := by
  rw [← h.files_eq, List.map_map]
  rfl

/-- What is left when all files were compiled. -/
structure Leaves (made : List Artifact) (w w' : World) : Prop where
  tree : w'.disk.IsTree
  /-- Each path is reported, in the order of the files. -/
  reports : w'.output = (made.foldl (fun v a => v.print (compiledNote a.file a.path ++ "\n")) w).output
  /-- At each path is the image of an artifact with that path. -/
  holds : ∀ a ∈ made, ∃ b ∈ made, b.path = a.path ∧ ∃ place executable, place ≠ [] ∧ Image.answer place = .ok a.path ∧
    w'.disk.get? place = some (.file (Image.encode b.code).toUTF8 executable)

theorem disk_print (w : World) (text : String) : (w.print text).disk = w.disk := rfl

theorem output_print (h : w.output = w'.output) (text : String) : (w.print text).output = (w'.print text).output := by
  unfold World.print
  rw [h]

theorem foldl_reported_disk (xs : List (String × Except Error String)) (w : World) :
    (xs.foldl reported w).disk = w.disk := by
  induction xs generalizing w with
  | nil => rfl
  | cons x xs ih =>
    rw [List.foldl_cons, ih]
    unfold reported
    split
    · exact disk_print w _
    · rfl

theorem foldl_reported_output (made : List Artifact) (h : w.output = w'.output) :
    ((made.map fun a => (a.file, (.ok a.path : Except Error String))).foldl reported w).output =
      (made.foldl (fun v a => v.print (compiledNote a.file a.path ++ "\n")) w').output := by
  induction made generalizing w w' with
  | nil => exact h
  | cons a made ih =>
    have hreported : reported w (a.file, .ok a.path) = w.print (compiledNote a.file a.path ++ "\n") := rfl
    rw [List.map_cons, List.foldl_cons, List.foldl_cons, hreported]
    exact ih (output_print h _)

theorem exists_jobs {made : List Artifact} (hmade : ∀ a ∈ made, a.Compiled t w output) :
    ∃ jobs : List (String × String), made.map (fun a => jobIn w output a.file) = jobs.map .ok := by
  induction made with
  | nil => exact ⟨[], rfl⟩
  | cons a made ih =>
    obtain ⟨jobs, hjobs⟩ := ih fun b hb => hmade b (.tail _ hb)
    obtain ⟨job, -, hjob, -⟩ := compiled_iff.mp (hmade a (.head _))
    exact ⟨job :: jobs, by rw [List.map_cons, List.map_cons, hjob, hjobs]⟩

/-- What is left after several images were written at the same time and reported. -/
theorem leaves_of_makes {made : List Artifact} (hjobs : made.map (fun a => jobIn w output a.file) = jobs.map .ok)
    (hmade : ∀ a ∈ made, a.Compiled t w output) (hrest : w' = { w with disk := w'.disk }) (htree : w'.disk.IsTree)
    (hholds : ∀ job ∈ jobs, ∀ code place p, Makes t w job code place p → Holds t jobs w w'.disk place) :
    Leaves made w ((made.map fun a => (a.file, (.ok a.path : Except Error String))).foldl reported w') := by
  have hdisk := foldl_reported_disk (made.map fun a => (a.file, (.ok a.path : Except Error String))) w'
  refine ⟨by rw [hdisk]; exact htree, foldl_reported_output made (by rw [hrest]), ?_⟩
  intro a ha
  obtain ⟨job, place, hjob, hmakes⟩ := compiled_iff.mp (hmade a ha)
  have hmem : job ∈ jobs := by
    have hok : (.ok job : Except Failure _) ∈ jobs.map .ok := by
      rw [← hjobs, ← hjob]
      exact List.mem_map_of_mem ha
    simpa using hok
  obtain ⟨job', hmem', code, executable, hemit, hslot, hfile⟩ := hholds job hmem a.code place a.path hmakes
  -- the job whose image is there is the job of an artifact, and has the same path
  obtain ⟨b, hb, hjob'⟩ : ∃ b ∈ made, jobIn w output b.file = .ok job' := by
    have hok : (.ok job' : Except Failure _) ∈ made.map fun a => jobIn w output a.file := by
      rw [hjobs]
      exact List.mem_map_of_mem hmem'
    exact List.mem_map.mp hok
  obtain ⟨job'', place', hjob'', hmakes'⟩ := compiled_iff.mp (hmade b hb)
  cases hjob'.symm.trans hjob''
  cases hslot.symm.trans hmakes'.slot
  cases hemit.symm.trans hmakes'.emit
  have hpath : b.path = a.path := by
    have heq := hmakes'.answer.symm.trans hmakes.answer
    exact Except.ok.inj heq
  rw [hdisk]
  exact ⟨b, hb, hpath, place, executable, Disk.slot_ne_nil hmakes.slot, hmakes.answer, hfile⟩

/-- A command is `done` just where some artifacts are as it should make them, and then it leaves these. -/
structure Delivers (Makes : List Artifact → Prop) (w : World) (done : Prop) (w' : World) : Prop where
  done_iff : done ↔ ∃ made, Makes made
  leaves : ∀ made, Makes made → Leaves made w w'

theorem delivers_nothing {Makes : List Artifact → Prop} {done : Prop} (hdone : ¬done) (hnone : ∀ made, ¬Makes made) :
    Delivers Makes w done w' :=
  ⟨⟨fun h => absurd h hdone, fun ⟨made, h⟩ => absurd h (hnone made)⟩, fun made h => absurd h (hnone made)⟩

/-- Once the programs are read: the images are written at the same time and reported. -/
theorem delivers_results (hnamed : ¬(output.isSome ∧ 1 < files.length)) (ht : settings.translator = .ok t)
    (hjobs : files.map (jobIn w output) = jobs.map .ok) (hw : w.disk.IsTree) :
    ∃ rs w', (t.translateAllTo jobs : Sim _) w = some (rs, w') ∧
      Delivers (fun made => ∃ t, Compiles settings files output w t made) w (rs.all (·.isOk) = true)
        ((files.zip rs).foldl reported w') := by
  obtain ⟨rs, w', hrun, hrest, htree, -, hlength, hresults, hholds⟩ := Translator.translateAllTo_makes t jobs hw
  refine ⟨rs, w', hrun, ⟨fun hall => ?_, ?_⟩, ?_⟩
  · obtain ⟨made, hfiles, hmade⟩ := exists_artifacts hjobs hlength (List.all_eq_true.mp hall)
      fun x hx p hp => (hresults x hx p).mp hp
    exact ⟨made, t, hnamed, ht, hfiles, hmade⟩
  · rintro ⟨made, t', hmade⟩
    cases ht.symm.trans hmade.translator
    rw [results_eq (hmade.map_jobIn.symm.trans hjobs) hlength hmade.compiled fun x hx p code place hmakes =>
      (hresults x hx p).mpr ⟨code, place, hmakes⟩]
    simp [Except.isOk, Except.toBool]
  · rintro made ⟨t', hmade⟩
    cases ht.symm.trans hmade.translator
    have hrs := results_eq (hmade.map_jobIn.symm.trans hjobs) hlength hmade.compiled fun x hx p code place hmakes =>
      (hresults x hx p).mpr ⟨code, place, hmakes⟩
    rw [hrs, ← hmade.files_eq, List.zip_map']
    exact leaves_of_makes (hmade.map_jobIn.symm.trans hjobs) hmade.compiled hrest htree hholds

/-- **The command on any world.**  It succeeds just where all files compile, and then leaves their artifacts. -/
theorem run_compileFiles (settings : Settings) (files : List String) (output : Option String) (hw : w.disk.IsTree) :
    ∃ r w', (compileFiles settings files output : ExceptT Failure Sim UInt32).run w = some (r, w') ∧
      Delivers (fun made => ∃ t, Compiles settings files output w t made) w (r = .ok success) w' := by
  have hread := run_jobs output files w
  unfold compileFiles
  by_cases hnamed : output.isSome ∧ 1 < files.length
  · rw [if_pos hnamed]
    refine ⟨_, w, rfl, delivers_nothing nofun ?_⟩
    rintro made ⟨t, hmade⟩
    exact hmade.named hnamed
  · rw [if_neg hnamed]
    cases hjobs : files.mapM (jobIn w output) with
    | error why =>
      rw [hjobs] at hread
      refine ⟨_, w, run_bind_error hread _, delivers_nothing nofun ?_⟩
      rintro made ⟨t, hmade⟩
      obtain ⟨jobs, hmap⟩ := exists_jobs hmade.compiled
      cases hjobs.symm.trans (mapM_eq_ok_iff.mpr (hmade.map_jobIn.trans hmap))
    | ok jobs =>
      rw [hjobs] at hread
      rw [run_bind_ok hread]
      cases ht : settings.translator with
      | error why =>
        have hcheck : (check (.error why) : ExceptT Failure Sim Translator).run w = some (.error (.engine why), w) := rfl
        refine ⟨_, w, run_bind_error hcheck _, delivers_nothing nofun ?_⟩
        rintro made ⟨t, hmade⟩
        cases ht.symm.trans hmade.translator
      | ok t =>
        have hcheck : (check (.ok t) : ExceptT Failure Sim Translator).run w = some (.ok t, w) := rfl
        obtain ⟨rs, w', hrun, hdelivers⟩ := delivers_results hnamed ht (mapM_eq_ok_iff.mp hjobs) hw
        rw [run_bind_ok hcheck, run_bind_ok (run_lift hrun), run_bind_ok (run_reports _ _)]
        refine ⟨_, _, rfl, ?_, hdelivers.leaves⟩
        rw [← hdelivers.done_iff]
        by_cases hall : rs.all (·.isOk) <;> simp [hall, success, failure]

/-- The code that is loaded from the path of an artifact. -/
theorem Leaves.loads {made : List Artifact} (h : Leaves made w w') (hmade : Compiles settings files output w t made)
    (hsize : ∀ a ∈ made, a.code.size ≤ Json.maxCount) :
    ∀ a ∈ made, ∃ b ∈ made, b.path = a.path ∧
      (Image.load a.path : ExceptT Error Sim Code).run w' = some (.ok b.code, w') := by
  intro a ha
  obtain ⟨b, hb, hpath, place, executable, hne, hname, hfile⟩ := h.holds a ha
  obtain ⟨source, name, place', -, -, hmakes⟩ := hmade.compiled b hb
  have hvalid := Translator.validate_of_emit hmade.translator hmakes.emit
  exact ⟨b, hb, hpath, Image.load_of_file h.tree hvalid (hsize b hb) hne hfile hname⟩

/-- No artifact is lost just where artifacts with one path have one code. -/
theorem kept_iff {made : List Artifact}
    (h : ∀ a ∈ made, ∃ b ∈ made, b.path = a.path ∧
      (Image.load a.path : ExceptT Error Sim Code).run w' = some (.ok b.code, w')) :
    (∀ a ∈ made, (Image.load a.path : ExceptT Error Sim Code).run w' = some (.ok a.code, w')) ↔
      ∀ a ∈ made, ∀ b ∈ made, a.path = b.path → a.code = b.code := by
  constructor
  · intro hkept a ha b hb hpath
    have hload := hkept a ha
    rw [hpath, hkept b hb] at hload
    simp only [Option.some.injEq, Prod.mk.injEq, Except.ok.injEq, and_true] at hload
    exact hload.symm
  · intro hsame a ha
    obtain ⟨b, hb, hpath, hload⟩ := h a ha
    rw [hload, hsame a ha b hb hpath.symm]

end Artifacts

/-! ## From words to artifacts -/

section Words

variable {w : World} {words files : List String} {output : Option String} {request : Arguments.Request} {t : Translator}

/-- The settings that a request is carried out with. -/
structure Configures (request : Arguments.Request) (w : World) (settings : Settings) : Prop where
  loaded : ∃ loaded, (loadSettings : ExceptT Failure Sim Settings).run w = some (.ok loaded, w) ∧
    settings = loaded.override
      ⟨request.options.mode, request.options.tapeSize, request.options.bufferSize, request.options.outDir⟩
  valid : settings.engine.validate = .ok ()

/-- The settings are those of the request, and with them all files are compiled into these artifacts. -/
def Fulfils (request : Arguments.Request) (files : List String) (output : Option String) (w : World)
    (made : List Artifact) : Prop :=
  ∃ settings t, Configures request w settings ∧ Compiles settings files output w t made

theorem run_dispatch (fuel : Nat) (htask : request.task = .compile files output) (hw : w.disk.IsTree) :
    ∃ r w', (dispatch fuel request : ExceptT Failure Sim UInt32).run w = some (r, w') ∧
      Delivers (Fulfils request files output w) w (r = .ok success) w' := by
  unfold dispatch
  obtain ⟨r, hload, -⟩ := observes_loadSettings w w.patience
  cases r with
  | error why =>
    refine ⟨_, w, run_bind_error hload _, delivers_nothing nofun ?_⟩
    rintro made ⟨settings, t, hsettings, -⟩
    obtain ⟨loaded, hloaded, -⟩ := hsettings.loaded
    cases hload.symm.trans hloaded
  | ok loaded =>
    rw [run_bind_ok hload]
    let settings := loaded.override
      ⟨request.options.mode, request.options.tapeSize, request.options.bufferSize, request.options.outDir⟩
    have hunique {settings' : Settings} (h : Configures request w settings') : settings' = settings := by
      obtain ⟨loaded', hloaded, rfl⟩ := h.loaded
      cases hload.symm.trans hloaded
      rfl
    cases hvalid : settings.engine.validate with
    | error fault =>
      have hcheck : (check (settings.engine.validate.mapError .config) : ExceptT Failure Sim Unit).run w =
          some (.error (.engine (.config fault)), w) := by rw [hvalid]; rfl
      refine ⟨_, w, run_bind_error hcheck _, delivers_nothing nofun ?_⟩
      rintro made ⟨settings', t, hsettings, -⟩
      cases hunique hsettings
      cases hvalid.symm.trans hsettings.valid
    | ok _ =>
      have hcheck : (check (settings.engine.validate.mapError .config) : ExceptT Failure Sim Unit).run w =
          some (.ok (), w) := by rw [hvalid]; rfl
      have hfulfils (made : List Artifact) :
          Fulfils request files output w made ↔ ∃ t, Compiles settings files output w t made := by
        constructor
        · rintro ⟨settings', t, hsettings, hmade⟩
          cases hunique hsettings
          exact ⟨t, hmade⟩
        · rintro ⟨t, hmade⟩
          exact ⟨settings, t, ⟨⟨loaded, hload, rfl⟩, hvalid⟩, hmade⟩
      obtain ⟨r, w', hrun, hdelivers⟩ := run_compileFiles settings files output hw
      refine ⟨r, w', ?_, ?_, ?_⟩
      · rw [run_bind_ok hcheck, htask]
        exact hrun
      · rw [hdelivers.done_iff]
        exact exists_congr fun made => (hfulfils made).symm
      · intro made hmade
        exact hdelivers.leaves made ((hfulfils made).mp hmade)

theorem run_execute (fuel : Nat) (hparse : Arguments.parse words = .ok request)
    (htask : request.task = .compile files output) (hw : w.disk.IsTree) :
    ∃ code w', (execute fuel words : Sim UInt32) w = some (code, w') ∧
      Delivers (Fulfils request files output w) w (code = success) w' := by
  obtain ⟨r, w', hrun, hdelivers⟩ := run_dispatch fuel htask hw
  unfold execute
  rw [hparse]
  simp only [Bind.bind, StateT.bind, hrun]
  cases r with
  | ok code =>
    refine ⟨code, w', rfl, ?_, hdelivers.leaves⟩
    rw [← hdelivers.done_iff]
    exact ⟨fun h => congrArg _ h, Except.ok.inj⟩
  | error why =>
    refine ⟨failure, _, rfl, delivers_nothing (by simp [success, failure]) ?_⟩
    intro made hmade
    cases hdelivers.done_iff.mpr ⟨made, hmade⟩

end Words

/-! ## A workplace -/

section Workplace

/-- A directory with two programs of one name in directories of their own, and a third program beside these. -/
def workplace (turns : List Nat) : World where
  disk := ⟨[([['w']], .directory), ([['w'], ['a']], .directory), ([['w'], ['b']], .directory),
    ([['w'], ['a'], ['x', '.', 't', 'w']], .file (String.ofList ['+', '.']).toUTF8 false),
    ([['w'], ['b'], ['x', '.', 't', 'w']], .file (String.ofList ['-', '.']).toUTF8 false),
    ([['w'], ['y', '.', 't', 'w']], .file (String.ofList ['-', '.']).toUTF8 false)]⟩
  here := [['w']]
  turns := turns
  patience := 0

theorem workplace_isTree (turns : List Nat) : (workplace turns).disk.IsTree := by
  intro n hn
  simp only [workplace, List.mem_cons, List.not_mem_nil, or_false] at hn
  rcases hn with rfl | rfl | rfl | rfl | rfl | rfl
  · exact ⟨[], ['w'], rfl, by decide, rfl⟩
  · exact ⟨[['w']], ['a'], rfl, by decide, rfl⟩
  · exact ⟨[['w']], ['b'], rfl, by decide, rfl⟩
  · exact ⟨[['w'], ['a']], ['x', '.', 't', 'w'], rfl, by decide, rfl⟩
  · exact ⟨[['w'], ['b']], ['x', '.', 't', 'w'], rfl, by decide, rfl⟩
  · exact ⟨[['w']], ['y', '.', 't', 'w'], rfl, by decide, rfl⟩

/-- The artifact of a program in the workplace. -/
def workplaceArtifact (file : String) (op stem : Char) : Artifact :=
  ⟨file, (Program.ofString (String.ofList [op, '.'])).code 30000,
    String.ofList (Disk.pathTo [['w'], [stem, '.', 't', 'w', 'x']])⟩

theorem compiled_workplaceArtifact (turns : List Nat) {file : String} {op stem : Char}
    (hread : (workplace turns).disk.read [['w']] file.toList = .ok (String.ofList [op, '.']).toUTF8)
    (hstem : Path.stem? file.toList = some [stem]) (hop : op = '+' ∨ op = '-') (hname : stem = 'x' ∨ stem = 'y') :
    (workplaceArtifact file op stem).Compiled ⟨30000, Translator.here⟩ (workplace turns) none := by
  have hb : Balanced (String.ofList [op, '.']).toList := by
    rw [String.toList_ofList]
    rcases hop with rfl | rfl
    · exact .other (by decide) (by decide) (.other (by decide) (by decide) .nil)
    · exact .other (by decide) (by decide) (.other (by decide) (by decide) .nil)
  have hdestination : destinationOf none file = .ok (String.ofList [stem]) := by
    unfold destinationOf imageName
    rw [hstem]
  have hpath : (Translator.resolve ⟨30000, Translator.here⟩ (String.ofList [stem])).toList =
      ['.', '/', stem, '.', 't', 'w', 'x'] := by
    unfold Translator.resolve
    rw [String.toList_ofList, String.toList_ofList]
    rcases hname with rfl | rfl <;> decide
  have hslot : (workplace turns).disk.slot [['w']] ['.', '/', stem, '.', 't', 'w', 'x'] =
      .ok [['w'], [stem, '.', 't', 'w', 'x']] := by
    rcases hname with rfl | rfl <;> rfl
  have hanswer : Image.answer [['w'], [stem, '.', 't', 'w', 'x']] =
      .ok (String.ofList (Disk.pathTo [['w'], [stem, '.', 't', 'w', 'x']])) := by
    rcases hname with rfl | rfl <;> rfl
  refine ⟨_, _, _, World.readText_of_read hread, hdestination, Translator.emit_eq_ok _ hb, ?_, hanswer⟩
  unfold Translator.slotOf
  rw [hpath]
  exact hslot

theorem compiles_workplace {turns : List Nat} {files : List String} {a b : Artifact} (hfiles : [a.file, b.file] = files)
    (ha : a.Compiled ⟨30000, Translator.here⟩ (workplace turns) none)
    (hb : b.Compiled ⟨30000, Translator.here⟩ (workplace turns) none) :
    Configures ⟨.compile files none, {}⟩ (workplace turns) {} ∧
      Compiles {} files none (workplace turns) ⟨30000, Translator.here⟩ [a, b] := by
  refine ⟨⟨⟨{}, rfl, rfl⟩, rfl⟩, by simp, rfl, hfiles, ?_⟩
  intro c hc
  simp only [List.mem_cons, List.not_mem_nil, or_false] at hc
  rcases hc with rfl | rfl
  · exact ha
  · exact hb

theorem code_increment_ne_code_decrement : (Program.ofString (String.ofList ['+', '.'])).code 30000 ≠
    (Program.ofString (String.ofList ['-', '.'])).code 30000 := by
  intro h
  have hthird := congrArg (fun c => c.instrs[3]?) h
  revert hthird
  decide

/-- Two programs of one name have one path, so whatever the order in which their images are written, one is lost. -/
theorem workplace_loses_artifact (turns : List Nat) :
    ∃ (t : Translator) (a b : Artifact) (w' : World),
      a.file = "a/x.tw" ∧ b.file = "b/x.tw" ∧ a.Compiled t (workplace turns) none ∧
      b.Compiled t (workplace turns) none ∧ a.path = b.path ∧
      (execute 0 ["compile", "a/x.tw", "b/x.tw"] : Sim UInt32) (workplace turns) = some (success, w') ∧
      ¬((Image.load a.path : ExceptT Error Sim Code).run w' = some (.ok a.code, w') ∧
        (Image.load b.path : ExceptT Error Sim Code).run w' = some (.ok b.code, w')) := by
  have hparse : Arguments.parse ["compile", "a/x.tw", "b/x.tw"] = .ok ⟨.compile ["a/x.tw", "b/x.tw"] none, {}⟩ := rfl
  have ha : (workplaceArtifact "a/x.tw" '+' 'x').Compiled ⟨30000, Translator.here⟩ (workplace turns) none :=
    compiled_workplaceArtifact turns rfl (by decide) (.inl rfl) (.inl rfl)
  have hb : (workplaceArtifact "b/x.tw" '-' 'x').Compiled ⟨30000, Translator.here⟩ (workplace turns) none :=
    compiled_workplaceArtifact turns rfl (by decide) (.inr rfl) (.inl rfl)
  obtain ⟨code, w', hrun, hdelivers⟩ := run_execute 0 hparse rfl (workplace_isTree turns)
  cases hdelivers.done_iff.mpr ⟨_, _, _, compiles_workplace rfl ha hb⟩
  refine ⟨_, _, _, w', rfl, rfl, ha, hb, rfl, hrun, ?_⟩
  rintro ⟨hload, hload'⟩
  have heq := hload.symm.trans hload'
  simp only [Option.some.injEq, Prod.mk.injEq, Except.ok.injEq, and_true] at heq
  exact code_increment_ne_code_decrement heq

end Workplace

/-! ## Artifacts that are kept and lost -/

section Kept

variable {w : World} {words files : List String} {output : Option String} {request : Arguments.Request}

/-- **What compiling files keeps.**  Files are given to the command in any world whose disk is a tree, with any settings,
and the operations of the jobs come in any order.  The command succeeds just where all files compile, and then reports a
path for each.  At each path is the image of one of the files with that path.  Files whose images have one name have one
path.  So no artifact is lost just where files with one path have one code. -/
theorem compile_keeps_artifacts (fuel : Nat) (hparse : Arguments.parse words = .ok request)
    (htask : request.task = .compile files output) (hw : w.disk.IsTree) :
    ∃ code w', (execute fuel words : Sim UInt32) w = some (code, w') ∧
      (code = success ↔ ∃ settings t made, Configures request w settings ∧ Compiles settings files output w t made) ∧
      ∀ settings t made, Configures request w settings → Compiles settings files output w t made →
        w'.output = (made.foldl (fun v a => v.print (compiledNote a.file a.path ++ "\n")) w).output ∧
        (∀ a ∈ made, ∀ b ∈ made, destinationOf output a.file = destinationOf output b.file → a.path = b.path) ∧
        ((∀ a ∈ made, a.code.size ≤ Json.maxCount) →
          (∀ a ∈ made, ∃ b ∈ made, b.path = a.path ∧
            (Image.load a.path : ExceptT Error Sim Code).run w' = some (.ok b.code, w')) ∧
          ((∀ a ∈ made, (Image.load a.path : ExceptT Error Sim Code).run w' = some (.ok a.code, w')) ↔
            ∀ a ∈ made, ∀ b ∈ made, a.path = b.path → a.code = b.code)) := by
  obtain ⟨code, w', hrun, hdelivers⟩ := run_execute fuel hparse htask hw
  refine ⟨code, w', hrun, ?_, fun settings t made hsettings hmade => ?_⟩
  · rw [hdelivers.done_iff]
    constructor
    · rintro ⟨made, settings, t, hfulfils⟩
      exact ⟨settings, t, made, hfulfils⟩
    · rintro ⟨settings, t, made, hfulfils⟩
      exact ⟨made, settings, t, hfulfils⟩
  · have hleaves := hdelivers.leaves made ⟨settings, t, hsettings, hmade⟩
    refine ⟨hleaves.reports, ?_, fun hsize => ?_⟩
    · intro a ha b hb hname
      exact (hmade.compiled a ha).path_eq (hmade.compiled b hb) hname
    · have hloads := hleaves.loads hmade hsize
      exact ⟨hloads, kept_iff hloads⟩

/-- Two programs of two names, written turn about, are both kept. -/
theorem compile_keeps_artifacts_turnabout :
    ∃ (t : Translator) (a b : Artifact) (w' : World),
      a.file = "a/x.tw" ∧ b.file = "y.tw" ∧ a.Compiled t (workplace [1, 0, 0, 1, 0]) none ∧
      b.Compiled t (workplace [1, 0, 0, 1, 0]) none ∧ a.code ≠ b.code ∧
      (execute 0 ["compile", "a/x.tw", "y.tw"] : Sim UInt32) (workplace [1, 0, 0, 1, 0]) = some (success, w') ∧
      (Image.load a.path : ExceptT Error Sim Code).run w' = some (.ok a.code, w') ∧
      (Image.load b.path : ExceptT Error Sim Code).run w' = some (.ok b.code, w') := by
  have hparse : Arguments.parse ["compile", "a/x.tw", "y.tw"] = .ok ⟨.compile ["a/x.tw", "y.tw"] none, {}⟩ := rfl
  have ha : (workplaceArtifact "a/x.tw" '+' 'x').Compiled ⟨30000, Translator.here⟩ (workplace [1, 0, 0, 1, 0]) none :=
    compiled_workplaceArtifact _ rfl (by decide) (.inl rfl) (.inl rfl)
  have hb : (workplaceArtifact "y.tw" '-' 'y').Compiled ⟨30000, Translator.here⟩ (workplace [1, 0, 0, 1, 0]) none :=
    compiled_workplaceArtifact _ rfl (by decide) (.inr rfl) (.inr rfl)
  obtain ⟨hsettings, hmade⟩ := compiles_workplace rfl ha hb
  obtain ⟨code, w', hrun, hiff, hkeeps⟩ := compile_keeps_artifacts 0 hparse rfl (workplace_isTree _)
  cases hiff.mpr ⟨_, _, _, hsettings, hmade⟩
  have hpath : (workplaceArtifact "a/x.tw" '+' 'x').path ≠ (workplaceArtifact "y.tw" '-' 'y').path := by
    intro h
    have htext := congrArg String.toList h
    unfold workplaceArtifact at htext
    rw [String.toList_ofList, String.toList_ofList] at htext
    revert htext
    decide
  have hsize : ∀ a ∈ [workplaceArtifact "a/x.tw" '+' 'x', workplaceArtifact "y.tw" '-' 'y'], a.code.size ≤ Json.maxCount := by
    intro a ha
    simp only [List.mem_cons, List.not_mem_nil, or_false] at ha
    rcases ha with rfl | rfl <;> decide
  have hall := ((hkeeps _ _ _ hsettings hmade).2.2 hsize).2.mpr (by
    intro a ha b hb heq
    simp only [List.mem_cons, List.not_mem_nil, or_false] at ha hb
    rcases ha with rfl | rfl <;> rcases hb with rfl | rfl
    · rfl
    · exact absurd heq hpath
    · exact absurd heq.symm hpath
    · rfl)
  exact ⟨_, _, _, w', rfl, rfl, ha, hb, code_increment_ne_code_decrement, hrun, hall _ (by simp), hall _ (by simp)⟩

/-- Of two programs of one name in two directories, one is lost: the command succeeds and reports one path for both. -/
theorem compile_loses_artifact :
    ∃ (t : Translator) (a b : Artifact) (w' : World),
      a.file = "a/x.tw" ∧ b.file = "b/x.tw" ∧ a.Compiled t (workplace []) none ∧ b.Compiled t (workplace []) none ∧
      a.path = b.path ∧ (execute 0 ["compile", "a/x.tw", "b/x.tw"] : Sim UInt32) (workplace []) = some (success, w') ∧
      ¬((Image.load a.path : ExceptT Error Sim Code).run w' = some (.ok a.code, w') ∧
        (Image.load b.path : ExceptT Error Sim Code).run w' = some (.ok b.code, w')) :=
  workplace_loses_artifact []

end Kept

end TapeLang.CommandLine
