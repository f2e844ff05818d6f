import TapeLang.Interpreter.Run
import TapeLang.Proofs.Partner
import TapeLang.Proofs.Steps

/-!
# TapeLang.Proofs.Structured — loops as loops

The interpreter knows no loops: it has a position in a text, and where a bracket is taken it looks for the partner.
Here is what a program means when it is read as a tree, and the proof that the interpreter does just that.

* `Command.eval`, `Block.Eval`: a big-step semantics over a tape and a console.  A loop runs its body while the current
  cell is not zero.  A cancellation or a refusal ends the evaluation at once, however deep the loops are nested.
* `Block.Runs`: an evaluation, with a flush at the end when nothing ended it before.
* `Interpreter.perform_command` and the lemmas after it: every turn the interpreter can take.
* `Interpreter.run_ends_iff`: a run of the interpreter ends in some way if and only if the tree does.

A run gives an evaluation by induction on its steps.  A loop's two brackets make the same test and go to the same two
places (`perform_close_eq_open`), so behind the body of a loop the run is one of the same loop, with fewer steps.
-/

namespace TapeLang

/-! ## The meaning of trees -/

/-- How an evaluation ends. -/
inductive Ending where
  /-- There is no more to do. -/
  | through
  /-- Something ended it, with this result. -/
  | early (result : Except Error Outcome)

/-- What a command does: how it ends, and the tape and the console afterwards. -/
def Command.eval {κ : Type} [Console κ] : Command → Tape → κ → Ending × Tape × κ
  | right, t, k => (.through, t.right, k)
  | left, t, k => (.through, t.left, k)
  | increment, t, k => (.through, t.increment, k)
  | decrement, t, k => (.through, t.decrement, k)
  | output, t, k =>
    match Console.write t.cell k with
    | (.ok (), k) => (.through, t, k)
    | (.error f, k) => (.early (.error (.io f)), t, k)
  | input, t, k =>
    match Console.flush k with
    | (.error f, k) => (.early (.error (.io f)), t, k)
    | (.ok (), k) =>
      match Console.read k with
      | (.error f, k) => (.early (.error (.io f)), t, k)
      | (.ok .cancel, k) => (.early (.ok .cancelled), t, k)
      | (.ok (.byte b), k) => (.through, t.set b, k)

namespace Block

variable {κ : Type} [Console κ]

/-- From a tape and a console a block ends in some way, and leaves a tape and a console. -/
inductive Eval : Block → Tape → κ → Ending → Tape → κ → Prop
  | done {t : Tape} {k : κ} : Eval .done t k .through t k
  | run {c : Command} {b : Block} {t t₁ t₂ : Tape} {k k₁ k₂ : κ} {e : Ending} :
      c.eval t k = (.through, t₁, k₁) → Eval b t₁ k₁ e t₂ k₂ → Eval (.run c b) t k e t₂ k₂
  | stop {c : Command} {b : Block} {t t₁ : Tape} {k k₁ : κ} {r : Except Error Outcome} :
      c.eval t k = (.early r, t₁, k₁) → Eval (.run c b) t k (.early r) t₁ k₁
  | skip {body b : Block} {t t₁ : Tape} {k k₁ : κ} {e : Ending} :
      t.cell = 0 → Eval b t k e t₁ k₁ → Eval (.loop body b) t k e t₁ k₁
  | again {body b : Block} {t t₁ t₂ : Tape} {k k₁ k₂ : κ} {e : Ending} :
      t.cell ≠ 0 → Eval body t k .through t₁ k₁ → Eval (.loop body b) t₁ k₁ e t₂ k₂ →
      Eval (.loop body b) t k e t₂ k₂
  | leave {body b : Block} {t t₁ : Tape} {k k₁ : κ} {r : Except Error Outcome} :
      t.cell ≠ 0 → Eval body t k (.early r) t₁ k₁ → Eval (.loop body b) t k (.early r) t₁ k₁

/-- The flush at the end of a program, and what the run comes to. -/
def finalFlush (k : κ) : Except Error Outcome × κ :=
  match Console.flush k with
  | (.ok (), k) => (.ok .halted, k)
  | (.error f, k) => (.error (.io f), k)

/-- A block as a whole program: its evaluation, and a flush when there is no more to do. -/
def Runs (b : Block) (t : Tape) (k : κ) (r : Except Error Outcome) (t' : Tape) (k' : κ) : Prop :=
  b.Eval t k (.early r) t' k' ∨ ∃ k₁, b.Eval t k .through t' k₁ ∧ finalFlush k₁ = (r, k')

end Block

/-! ## Turns of the interpreter -/

namespace Interpreter

/-- The interpreter at another position, with another tape. -/
def goTo (m : Interpreter) (i : Nat) (t : Tape) : Interpreter := { m with tape := t, ip := i }

variable {κ : Type} [Console κ] {m : Interpreter} {t : Tape} {i q : Nat}

theorem ofChar?_of_op? {p : Program} {o : Op} (h : p.op? i = some o) :
    ∃ hlt : i < p.chars.size, Op.ofChar? p.chars[i] = some o := by
  have hlt := Program.lt_size_of_op? h
  refine ⟨hlt, ?_⟩
  rw [Program.op?, Array.getElem?_eq_getElem hlt] at h
  exact h

theorem step_comment (hlt : i < m.program.size) (h : m.program.op? i = none) :
    step (m.goTo i t) = .move (m.goTo (i + 1) t) := by
  have hlt' : i < m.program.chars.size := hlt
  rw [Program.op?, Array.getElem?_eq_getElem hlt'] at h
  have h' : Op.ofChar? m.program.chars[i] = none := h
  simp only [goTo, step, dif_pos hlt', h']

theorem perform_command {c : Command} (h : m.program.op? i = some c.op) (k : κ) :
    (step (m.goTo i t)).perform k = match c.eval t k with
      | (.through, t', k') => .going (m.goTo (i + 1) t') k'
      | (.early r, t', k') => .over r (m.goTo i t') k' := by
  obtain ⟨hlt, ho⟩ := ofChar?_of_op? h
  cases c with
  | output =>
    have ho' : Op.ofChar? m.program.chars[i] = some .output := ho
    simp only [goTo, step, dif_pos hlt, ho', Action.perform, Command.eval]
    rcases Console.write t.cell k with ⟨_ | _, k₁⟩ <;> rfl
  | input =>
    have ho' : Op.ofChar? m.program.chars[i] = some .input := ho
    simp only [goTo, step, dif_pos hlt, ho', Action.perform, Command.eval]
    rcases Console.flush k with ⟨_ | _, k₁⟩
    · rfl
    · simp only
      rcases Console.read k₁ with ⟨_ | _ | _, k₂⟩ <;> rfl
  | _ =>
    simp only [Command.op] at ho
    simp only [goTo, step, dif_pos hlt, ho, Action.perform, Command.eval]

theorem perform_open (h : m.program.Encloses i q) (k : κ) :
    (step (m.goTo i t)).perform k = .going (m.goTo (if t.cell = 0 then q + 1 else i + 1) t) k := by
  obtain ⟨hlt, ho⟩ := ofChar?_of_op? h.opens
  by_cases hz : t.cell = 0
  · simp only [goTo, step, dif_pos hlt, ho, hz, if_true, h.closeOf?_eq, Action.perform]
  · simp only [goTo, step, dif_pos hlt, ho, hz, if_false, Action.perform]

theorem perform_close (h : m.program.Encloses i q) (k : κ) :
    (step (m.goTo q t)).perform k = .going (m.goTo (if t.cell = 0 then q + 1 else i + 1) t) k := by
  obtain ⟨hlt, ho⟩ := ofChar?_of_op? h.closes
  by_cases hz : t.cell = 0
  · simp only [goTo, step, dif_pos hlt, ho, hz, if_true, Action.perform]
  · simp only [goTo, step, dif_pos hlt, ho, hz, if_false, h.openOf?_eq, Action.perform]

/-- The two ends of a loop lead to the same place. -/
theorem perform_close_eq_open (h : m.program.Encloses i q) (k : κ) :
    (step (m.goTo q t)).perform k = (step (m.goTo i t)).perform k := by
  rw [perform_open h, perform_close h]

theorem perform_end (h : m.program.size ≤ i) (k : κ) :
    (step (m.goTo i t)).perform k = .over (Block.finalFlush k).1 (m.goTo i t) (Block.finalFlush k).2 := by
  have hge : ¬ i < m.program.chars.size := Nat.not_lt.mpr h
  simp only [goTo, step, hge, ↓reduceDIte, Action.perform, Block.finalFlush]
  rcases Console.flush k with ⟨_ | _, k₁⟩ <;> rfl

theorem steps_of_skips {j : Nat} (h : m.program.Skips i j) (t : Tape) (k : κ) :
    ∃ n, Steps step n (m.goTo i t) k (m.goTo j t) k := by
  induction h with
  | refl i => exact ⟨0, .refl _ k⟩
  | comment h1 h2 _ ih =>
    obtain ⟨n, hn⟩ := ih
    exact ⟨n + 1, .turn (by rw [step_comment h1 h2]; rfl) hn⟩

/-! ## From evaluations to runs -/

section Forward

/-- The run that an evaluation describes: it comes to the end of the block's text, or it ends. -/
def Follows (m : Interpreter) (i j : Nat) (t : Tape) (k : κ) (e : Ending) (t' : Tape) (k' : κ) : Prop :=
  match e with
  | .through => ∃ n, Steps step n (m.goTo i t) k (m.goTo j t') k'
  | .early r => ∃ s, Ends step (m.goTo i t) k ⟨r, s, k'⟩ ∧ s.tape = t'

variable {j n : Nat} {t₁ t' : Tape} {k k₁ k' : κ} {e : Ending}

theorem Follows.after (h : Steps step n (m.goTo i t) k (m.goTo q t₁) k₁) (h' : Follows m q j t₁ k₁ e t' k') :
    Follows m i j t k e t' k' := by
  cases e with
  | through =>
    obtain ⟨n', hn'⟩ := h'
    exact ⟨n + n', h.trans hn'⟩
  | early r =>
    obtain ⟨s, hs, hs'⟩ := h'
    exact ⟨s, h.ends_iff.mpr hs, hs'⟩

/-- Behind the body of a loop the run is the one from its opening bracket. -/
theorem Follows.of_close (he : m.program.Encloses i q) (hj : q < j) (h : Follows m i j t k e t' k') :
    Follows m q j t k e t' k' := by
  have hturn := perform_close_eq_open (t := t) he k
  have hlt := he.lt
  cases e with
  | through =>
    obtain ⟨n, hn⟩ := h
    cases hn with
    | refl => omega
    | turn h1 h2 => exact ⟨_, .turn (hturn.trans h1) h2⟩
  | early r =>
    obtain ⟨s, ⟨fuel, hs⟩, hs'⟩ := h
    exact ⟨s, ⟨fuel, by rw [drive_congr hturn, hs]⟩, hs'⟩

theorem follows_of_eval {b : Block} (h : b.Eval t k e t' k') (hb : m.program.Spans i b j) :
    Follows m i j t k e t' k' := by
  induction h generalizing i j with
  | done => exact steps_of_skips hb.skips_of_done _ _
  | @run c b t t₁ t₂ k k₁ k₂ e heval _ ih =>
    obtain ⟨x, hx, hop, hrest⟩ := hb.skips_of_run
    obtain ⟨n, hn⟩ := steps_of_skips hx t k
    have hturn := perform_command (t := t) hop k
    rw [heval] at hturn
    exact .after (hn.trans (.single hturn)) (ih hrest)
  | @stop c b t t₁ k k₁ r heval =>
    obtain ⟨x, hx, hop, hrest⟩ := hb.skips_of_run
    obtain ⟨n, hn⟩ := steps_of_skips hx t k
    have hturn := perform_command (t := t) hop k
    rw [heval] at hturn
    exact .after hn ⟨_, .of_over hturn, rfl⟩
  | @skip body b t t₁ k k₁ e hz _ ih =>
    obtain ⟨x, q, hx, hop, hbody, hcl, hrest⟩ := hb.skips_of_loop
    obtain ⟨n, hn⟩ := steps_of_skips hx t k
    have hturn := perform_open (t := t) ⟨hop, hcl, body, hbody⟩ k
    rw [if_pos hz] at hturn
    exact .after (hn.trans (.single hturn)) (ih hrest)
  | @again body b t t₁ t₂ k k₁ k₂ e hz _ _ ih1 ih2 =>
    obtain ⟨x, q, hx, hop, hbody, hcl, hrest⟩ := hb.skips_of_loop
    obtain ⟨n, hn⟩ := steps_of_skips hx t k
    have hturn := perform_open (t := t) ⟨hop, hcl, body, hbody⟩ k
    rw [if_neg hz] at hturn
    obtain ⟨n', hn'⟩ := ih1 hbody
    have hloop := ih2 (.loop hop hbody hcl hrest)
    exact .after (hn.trans ((Steps.single hturn).trans hn')) (.of_close ⟨hop, hcl, body, hbody⟩ hrest.le hloop)
  | @leave body b t t₁ k k₁ r hz _ ih =>
    obtain ⟨x, q, hx, hop, hbody, hcl, hrest⟩ := hb.skips_of_loop
    obtain ⟨n, hn⟩ := steps_of_skips hx t k
    have hturn := perform_open (t := t) ⟨hop, hcl, body, hbody⟩ k
    rw [if_neg hz] at hturn
    exact .after (j := q) (hn.trans (.single hturn)) (ih hbody)

end Forward

/-! ## From runs to evaluations -/

section Backward

variable {j : Nat} {k : κ}

/-- What a run from the start of a block's text that ends shows: an evaluation of the block, and a run from behind its
text unless that was the end. -/
def Evaluates (m : Interpreter) (b : Block) (j fuel : Nat) (t : Tape) (k : κ) (f : Finish Interpreter κ) : Prop :=
  (∃ t' k' fuel', fuel' ≤ fuel ∧ b.Eval t k .through t' k' ∧ drive step fuel' (m.goTo j t') k' = some f) ∨
    b.Eval t k (.early f.result) f.state.tape f.console

theorem evaluates_of_drive {fuel : Nat} {b : Block} (hb : m.program.Spans i b j) {f : Finish Interpreter κ}
    (h : drive step fuel (m.goTo i t) k = some f) : Evaluates m b j fuel t k f := by
  induction fuel using Nat.strongRecOn generalizing i j b t k with
  | _ fuel ih =>
    cases b with
    | done =>
      obtain ⟨n, hn⟩ := steps_of_skips hb.skips_of_done t k
      obtain ⟨hlt, h⟩ := hn.drive_sub h
      exact .inl ⟨t, k, fuel - n, by omega, .done, h⟩
    | run c b =>
      obtain ⟨x, hx, hop, hrest⟩ := hb.skips_of_run
      obtain ⟨n, hn⟩ := steps_of_skips hx t k
      obtain ⟨hlt, h⟩ := hn.drive_sub h
      have hturn := perform_command (t := t) hop k
      rcases heval : c.eval t k with ⟨_ | r, t₁, k₁⟩
      · rw [heval] at hturn
        obtain ⟨hlt', h⟩ := (Steps.single hturn).drive_sub h
        rcases ih _ (by omega) hrest h with ⟨t', k', fuel', hle, he, hd⟩ | he
        · exact .inl ⟨t', k', fuel', by omega, .run heval he, hd⟩
        · exact .inr (.run heval he)
      · rw [heval] at hturn
        obtain ⟨fuel', hf⟩ : ∃ fuel', fuel - n = fuel' + 1 := ⟨fuel - n - 1, by omega⟩
        rw [hf, drive_of_over hturn] at h
        cases h
        exact .inr (.stop heval)
    | loop body b =>
      obtain ⟨x, q, hx, hop, hbody, hcl, hrest⟩ := hb.skips_of_loop
      have henc : m.program.Encloses x q := ⟨hop, hcl, body, hbody⟩
      obtain ⟨n, hn⟩ := steps_of_skips hx t k
      obtain ⟨hlt, h⟩ := hn.drive_sub h
      have hturn := perform_open (t := t) henc k
      obtain ⟨hlt', h⟩ := (Steps.single hturn).drive_sub h
      by_cases hz : t.cell = 0
      · rw [if_pos hz] at h
        rcases ih _ (by omega) hrest h with ⟨t', k', fuel', hle, he, hd⟩ | he
        · exact .inl ⟨t', k', fuel', by omega, .skip hz he, hd⟩
        · exact .inr (.skip hz he)
      · rw [if_neg hz] at h
        rcases ih _ (by omega) hbody h with ⟨t₁, k₁, fuel₁, hle₁, he₁, hd₁⟩ | he
        · -- behind the body: the run from the opening bracket, with fewer steps
          rw [drive_congr (perform_close_eq_open henc k₁)] at hd₁
          rcases ih fuel₁ (by omega) (.loop hop hbody hcl hrest) hd₁ with ⟨t', k', fuel', hle, he, hd⟩ | he
          · exact .inl ⟨t', k', fuel', by omega, .again hz he₁ he, hd⟩
          · exact .inr (.again hz he₁ he)
        · exact .inr (.leave hz he)

end Backward

/-! ## Whole runs -/

section Whole

/-- The interpreter that a program is loaded into, when it starts to run. -/
def started (m : Interpreter) (source : String) : Interpreter :=
  ⟨m.config, .blank m.tape.capacity, .ofString source, 0, .running⟩

theorem load_eq_ok {source : String} (hfit : (Program.ofString source).size ≤ m.config.bufferSize)
    (hcheck : (Program.ofString source).check = .ok ()) :
    m.load source = .ok { m.started source with phase := .loaded } := by
  simp only [load, Nat.not_lt.mpr hfit, if_false, hcheck]
  rfl

/-- The end of a run, with the phase that it leaves behind. -/
def settle (f : Finish Interpreter κ) : Finish Interpreter κ :=
  ⟨f.result, { f.state with phase := phaseAfter f.result }, f.console⟩

theorem execute_eq_map (h : m.phase ≠ .idle) (fuel : Nat) (k : κ) :
    m.execute fuel k = (drive step fuel { m with phase := .running } k).map settle := by
  rw [execute, if_neg h, cruise_glide]
  generalize drive step fuel { m with phase := .running } k = end?
  cases end? <;> rfl

/-- A program that loads is run from a blank tape. -/
theorem run_eq_map {source : String} (hfit : (Program.ofString source).size ≤ m.config.bufferSize)
    (hcheck : (Program.ofString source).check = .ok ()) (fuel : Nat) (k : κ) :
    m.run fuel source k = (drive step fuel (m.started source) k).map settle := by
  rw [run, load_eq_ok hfit hcheck]
  exact execute_eq_map (by simp) fuel k

/-- A run from the start of a program ends as its tree does. -/
theorem ends_iff_runs {b : Block} (hb : m.program.Spans 0 b m.program.size) {t t' : Tape} {k k' : κ}
    {r : Except Error Outcome} :
    (∃ s, Ends step (m.goTo 0 t) k ⟨r, s, k'⟩ ∧ s.tape = t') ↔ b.Runs t k r t' k' := by
  constructor
  · rintro ⟨s, ⟨fuel, h⟩, rfl⟩
    rcases evaluates_of_drive hb h with ⟨t₁, k₁, fuel₁, -, he, hd⟩ | he
    · have hend := (Ends.of_over (perform_end (t := t₁) (Nat.le_refl m.program.size) k₁)).unique ⟨fuel₁, hd⟩
      cases hend
      exact .inr ⟨k₁, he, rfl⟩
    · exact .inl he
  · rintro (he | ⟨k₁, he, hflush⟩)
    · exact follows_of_eval he hb
    · obtain ⟨n, hn⟩ := follows_of_eval he hb
      have hend := Ends.of_over (perform_end (t := t') (Nat.le_refl m.program.size) k₁)
      rw [hflush] at hend
      exact ⟨_, hn.ends_iff.mpr hend, rfl⟩

/-- **The interpreter implements structured loops.**  A text whose brackets match and that fits the buffer has a tree, and
on every console loading and running the text ends with some result, tape and console if and only if the tree does, from
the blank tape of the interpreter's size. -/
theorem run_ends_iff (m : Interpreter) {source : String} (hb : Balanced source.toList)
    (hfit : (Program.ofString source).size ≤ m.config.bufferSize) :
    ∃ b, Block.parse source.toList = some b ∧
      ∀ {κ : Type} [Console κ] (k : κ) (r : Except Error Outcome) (t : Tape) (k' : κ),
        (∃ fuel m', m.run fuel source k = some ⟨r, m', k'⟩ ∧ m'.tape = t) ↔
          b.Runs (.blank m.tape.capacity) k r t k' := by
  obtain ⟨b, hspans⟩ := spans_ofString hb
  refine ⟨b, parse_eq_some_iff.mpr hspans, ?_⟩
  intro κ _ k r t k'
  have hrun := run_eq_map (κ := κ) hfit (check_eq_ok_iff.mpr ⟨b, hspans⟩)
  rw [← ends_iff_runs (m := m.started source) hspans]
  constructor
  · rintro ⟨fuel, m', h, rfl⟩
    rw [hrun] at h
    obtain ⟨f, hf, hsettle⟩ := Option.map_eq_some_iff.mp h
    cases hsettle
    exact ⟨f.state, ⟨fuel, hf⟩, rfl⟩
  · rintro ⟨s, ⟨fuel, hs⟩, rfl⟩
    refine ⟨fuel, { s with phase := phaseAfter r }, ?_, rfl⟩
    rw [hrun]
    exact Option.map_eq_some_iff.mpr ⟨_, hs, rfl⟩

theorem run_ends_iff_echo :
    ∃ b, Block.parse (String.ofList [',', '[', '#', '.', ',', ']']).toList = some b ∧
      ∃ t k', b.Runs (.blank 4) (Script.ofBytes [104, 105], ({} : Sink)) (.ok .cancelled) t k' ∧
        k'.2.accepted = #[104, 105] ∧ k'.2.flushes = #[0, 1, 2] := by
  have hbody : Balanced ['#', '.', ','] :=
    .other (by decide) (by decide) (.other (by decide) (by decide) (.other (by decide) (by decide) .nil))
  have hb : Balanced (String.ofList [',', '[', '#', '.', ',', ']']).toList := by
    rw [String.toList_ofList]
    exact .other (by decide) (by decide) (.loop hbody .nil)
  obtain ⟨b, hparse, hruns⟩ := run_ends_iff (idle ⟨4, 16⟩) hb (by decide)
  exact ⟨b, hparse, _, _, (hruns _ _ _ _).mp ⟨30, _, rfl, rfl⟩, rfl, rfl⟩

end Whole
end Interpreter
end TapeLang
