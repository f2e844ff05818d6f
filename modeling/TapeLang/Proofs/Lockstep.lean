import TapeLang.Proofs.Agreement
import TapeLang.Proofs.History

/-!
# TapeLang.Proofs.Lockstep — runs see of a console only its answers

Consoles can be made of different things and still give the same answers.  A run cannot tell such consoles apart: whatever
kind of console it is on, it comes to the same result in the same state.

* `Lockstep R Bad`: consoles in `R` give the same answers and stay in `R`, until the first one refuses something and is `Bad`.
* `Alike R Bad`: what two runs on such consoles come to.
* `Runner`: a run on consoles of every kind; `Runner.Uniform`: it comes to alike ends on consoles in lockstep.
* **`uniform_drive`**, and with it `Interpreter.uniform_run`, `Code.uniform_run`, `Engine.uniform_run`.

What follows needs nothing else of a run: recording changes nothing (`Uniform.recorded`), what no operation of a console
breaks is kept (`Uniform.keeps`), and a refused read is the end (`Uniform.refused`).  Where consoles differ in their sources
only, `lockstep_of_next` and `invariant_of_next` ask about one read.
-/

namespace TapeLang

variable {σ σ' κ κ' : Type}

/-! ## Consoles in lockstep -/

section Consoles

/-- The first answer is the second one, with consoles in `R` behind it; or it is a refusal, with a `Bad` console behind it. -/
def Answers {α : Type} (R : κ → κ' → Prop) (Bad : Fault → κ → Prop) (x : Except Fault α × κ) (y : Except Fault α × κ') :
    Prop :=
  (x.1 = y.1 ∧ R x.2 y.2) ∨ ∃ w, x.1 = .error w ∧ Bad w x.2

/-- Consoles in `R` give the same answers and stay in `R`, until the first one refuses something and is `Bad`. -/
structure Lockstep [Console κ] [Console κ'] (R : κ → κ' → Prop) (Bad : Fault → κ → Prop) : Prop where
  read : ∀ {k k'}, R k k' → Answers R Bad (Console.read k) (Console.read k')
  write : ∀ {k k'} (b : UInt8), R k k' → Answers R Bad (Console.write b k) (Console.write b k')
  flush : ∀ {k k'}, R k k' → Answers R Bad (Console.flush k) (Console.flush k')

/-- No console is bad. -/
def Never : Fault → κ → Prop := fun _ _ => False

/-- What two runs come to: both are underway, or both ended with one result in one state; or the first one met a refusal
that the second one did not. -/
inductive Alike (R : κ → κ' → Prop) (Bad : Fault → κ → Prop) : Option (Finish σ κ) → Option (Finish σ κ') → Prop
  | underway : Alike R Bad none none
  | ended {k : κ} {k' : κ'} (result : Except Error Outcome) (s : σ) : R k k' →
      Alike R Bad (some ⟨result, s, k⟩) (some ⟨result, s, k'⟩)
  | broken {w : Fault} {k : κ} (s : σ) (other : Option (Finish σ κ')) : Bad w k →
      Alike R Bad (some ⟨.error (.io w), s, k⟩) other

/-- What two turns come to. -/
inductive Turn.Alike (R : κ → κ' → Prop) (Bad : Fault → κ → Prop) : Turn σ κ → Turn σ κ' → Prop
  | going {k : κ} {k' : κ'} (s : σ) : R k k' → Turn.Alike R Bad (.going s k) (.going s k')
  | ended {k : κ} {k' : κ'} (result : Except Error Outcome) (s : σ) : R k k' →
      Turn.Alike R Bad (.over result s k) (.over result s k')
  | broken {w : Fault} {k : κ} (s : σ) (other : Turn σ κ') : Bad w k → Turn.Alike R Bad (.over (.error (.io w)) s k) other

variable {R : κ → κ' → Prop} {Bad : Fault → κ → Prop}

/-- Where nothing breaks, what looks the same at consoles in `R` is the same. -/
theorem Alike.map_eq {α : Type} {o : Option (Finish σ κ)} {o' : Option (Finish σ κ')} (h : Alike R Bad o o')
    (hBad : ∀ w k, ¬Bad w k) {f : Finish σ κ → α} {f' : Finish σ κ' → α}
    (hf : ∀ result s k k', R k k' → f ⟨result, s, k⟩ = f' ⟨result, s, k'⟩) : o.map f = o'.map f' := by
  cases h with
  | underway => rfl
  | ended result s hR => exact congrArg some (hf result s _ _ hR)
  | broken s other hbad => exact absurd hbad (hBad _ _)

/-- A change of the state that depends on the result. -/
theorem Alike.map {o : Option (Finish σ κ)} {o' : Option (Finish σ κ')} (h : Alike R Bad o o')
    (f : Except Error Outcome → σ → σ') :
    Alike R Bad (o.map fun x => ⟨x.result, f x.result x.state, x.console⟩)
      (o'.map fun x => ⟨x.result, f x.result x.state, x.console⟩) := by
  cases h with
  | underway => exact .underway
  | ended result s hR => exact .ended result (f result s) hR
  | broken s other hbad => exact .broken _ _ hbad

/-- Answers in lockstep are one answer, or one refusal, or a refusal that only the first console makes. -/
theorem Answers.cases {α : Type} {x : Except Fault α × κ} {y : Except Fault α × κ'} (h : Answers R Bad x y) :
    (∃ a k k', x = (.ok a, k) ∧ y = (.ok a, k') ∧ R k k') ∨
      (∃ w k k', x = (.error w, k) ∧ y = (.error w, k') ∧ R k k') ∨ ∃ w k, x = (.error w, k) ∧ Bad w k := by
  obtain ⟨answer, k⟩ := x
  obtain ⟨answer', k'⟩ := y
  rcases h with ⟨heq, hR⟩ | ⟨w, heq, hbad⟩
  · cases heq
    cases answer with
    | ok a => exact .inl ⟨a, k, k', rfl, rfl, hR⟩
    | error w => exact .inr (.inl ⟨w, k, k', rfl, rfl, hR⟩)
  · cases heq
    exact .inr (.inr ⟨w, k, rfl, hbad⟩)

variable [Console κ] [Console κ']

/-- **One turn** on consoles in lockstep. -/
theorem Lockstep.perform (h : Lockstep R Bad) (a : Action σ) {k : κ} {k' : κ'} (hR : R k k') :
    Turn.Alike R Bad (a.perform k) (a.perform k') := by
  induction a generalizing k k' with
  | move s => exact .going s hR
  | stop s result => exact .ended result s hR
  | write b s s' =>
    rw [Action.perform, Action.perform]
    rcases (h.write b hR).cases with ⟨_, k₁, k₁', hk, hk', hR'⟩ | ⟨w, k₁, k₁', hk, hk', hR'⟩ | ⟨w, k₁, hk, hbad⟩
    · rw [hk, hk']
      exact .going s' hR'
    · rw [hk, hk']
      exact .ended _ s hR'
    · rw [hk]
      exact .broken s _ hbad
  | flush s a ih =>
    rw [Action.perform, Action.perform]
    rcases (h.flush hR).cases with ⟨_, k₁, k₁', hk, hk', hR'⟩ | ⟨w, k₁, k₁', hk, hk', hR'⟩ | ⟨w, k₁, hk, hbad⟩
    · rw [hk, hk']
      exact ih hR'
    · rw [hk, hk']
      exact .ended _ s hR'
    · rw [hk]
      exact .broken s _ hbad
  | read s next ih =>
    rw [Action.perform, Action.perform]
    rcases (h.read hR).cases with ⟨e, k₁, k₁', hk, hk', hR'⟩ | ⟨w, k₁, k₁', hk, hk', hR'⟩ | ⟨w, k₁, hk, hbad⟩
    · rw [hk, hk']
      exact ih e hR'
    · rw [hk, hk']
      exact .ended _ s hR'
    · rw [hk]
      exact .broken s _ hbad

end Consoles

/-! ## Uniform runs -/

section Runners

/-- A run on consoles of every kind. -/
abbrev Runner (σ : Type) := (κ : Type) → [Console κ] → κ → Option (Finish σ κ)

/-- On consoles in lockstep a run comes to alike ends. -/
structure Runner.Uniform (run : Runner σ) : Prop where
  alike : ∀ {κ κ' : Type} [Console κ] [Console κ'] {R : κ → κ' → Prop} {Bad : Fault → κ → Prop}, Lockstep R Bad →
    ∀ {k : κ} {k' : κ'}, R k k' → Alike R Bad (run κ k) (run κ' k')

/-- **Every machine runs alike on consoles in lockstep.** -/
theorem uniform_drive (step : σ → Action σ) (fuel : Nat) (s : σ) : Runner.Uniform fun _ _ k => drive step fuel s k := by
  refine ⟨fun {κ κ'} _ _ {R Bad} h {k k'} hR => ?_⟩
  induction fuel generalizing s k k' with
  | zero => exact .underway
  | succ fuel ih =>
    have hturn := h.perform (step s) hR
    simp only [drive, Action.proceed_eq]
    generalize (step s).perform k = turn at hturn ⊢
    generalize (step s).perform k' = turn' at hturn ⊢
    cases hturn with
    | going t hR' => exact ih t hR'
    | ended result t hR' => exact .ended result t hR'
    | broken t _ hbad => exact .broken t _ hbad

/-- A run that is over before it asks for anything. -/
theorem uniform_stop (result : Except Error Outcome) (s : σ) : Runner.Uniform fun _ _ k => some ⟨result, s, k⟩ :=
  ⟨fun _ _ _ hR => .ended result s hR⟩

theorem Runner.Uniform.map {run : Runner σ} (h : run.Uniform) (f : Except Error Outcome → σ → σ') :
    Runner.Uniform fun κ _ k => (run κ k).map fun x => ⟨x.result, f x.result x.state, x.console⟩ :=
  ⟨fun hlockstep _ _ hR => (h.alike hlockstep hR).map f⟩

theorem Interpreter.uniform_run (m : Interpreter) (fuel : Nat) (source : String) :
    Runner.Uniform fun _ _ k => m.run fuel source k := by
  cases hload : m.load source with
  | error e =>
    simp only [run_of_refusal hload]
    exact uniform_stop (.error e) m
  | ok m' =>
    have hphase : m'.phase ≠ .idle := by
      obtain ⟨-, -, rfl⟩ := of_load hload
      simp
    simp only [run_of_load hload, execute_eq_map hphase]
    exact (uniform_drive step fuel _).map fun result s => { s with phase := phaseAfter result }

theorem Code.uniform_run (code : Code) (fuel : Nat) : Runner.Uniform fun _ _ k => code.run fuel k := by
  simp only [Code.run_eq_drive]
  exact uniform_drive (Machine.step code) fuel Machine.start

theorem Engine.uniform_run (e : Engine) (fuel : Nat) (source : String) :
    Runner.Uniform fun _ _ k => e.run fuel source k := by
  cases hmode : e.mode with
  | interpret =>
    simp only [run_interpret hmode]
    exact (e.interpreter.uniform_run fuel source).map fun _ m => { e with interpreter := m }
  | translate =>
    cases hemit : e.translator.emit source with
    | error why =>
      simp only [run_of_emit_error hmode hemit]
      exact uniform_stop (.error why) e
    | ok code =>
      simp only [run_of_emit_ok hmode hemit]
      exact (code.uniform_run fuel).map fun _ _ => e

end Runners

/-! ## What holds of every uniform run -/

section Consequences

open Recorded (record eraseFinish)

/-- What no operation of a console breaks, whatever its answer. -/
structure Invariant [Console κ] (P : κ → Prop) : Prop where
  read : ∀ {k}, P k → P (Console.read k).2
  write : ∀ {k} (b : UInt8), P k → P (Console.write b k).2
  flush : ∀ {k}, P k → P (Console.flush k).2

variable {run : Runner σ} [Console κ]

/-- **Recording changes nothing.** -/
theorem Runner.Uniform.recorded (h : run.Uniform) (k : κ) :
    run κ k = (run (Recorded κ) (record k)).map eraseFinish := by
  have hsame : Lockstep (fun (r : Recorded κ) (k : κ) => r.console = k) Never := by
    refine ⟨?_, ?_, ?_⟩
    · rintro r _ rfl
      exact .inl ⟨rfl, rfl⟩
    · rintro r _ b rfl
      exact .inl ⟨rfl, rfl⟩
    · rintro r _ rfl
      exact .inl ⟨rfl, rfl⟩
  have halike := h.alike hsame (show (record k).console = k from rfl)
  have hmap : (run (Recorded κ) (record k)).map eraseFinish = (run κ k).map id :=
    halike.map_eq (fun _ _ => id) fun result s r _ hR => congrArg (Finish.mk result s) hR
  rw [hmap, Option.map_id, id]

/-- A console with an invariant is in lockstep with itself. -/
theorem Invariant.lockstep {P : κ → Prop} (hP : Invariant P) : Lockstep (fun k k' => P k ∧ k = k') Never := by
  refine ⟨?_, ?_, ?_⟩
  · rintro k _ ⟨hk, rfl⟩
    exact .inl ⟨rfl, hP.read hk, rfl⟩
  · rintro k _ b ⟨hk, rfl⟩
    exact .inl ⟨rfl, hP.write b hk, rfl⟩
  · rintro k _ ⟨hk, rfl⟩
    exact .inl ⟨rfl, hP.flush hk, rfl⟩

/-- What holds of the console at first holds of it at the end. -/
theorem Runner.Uniform.keeps (h : run.Uniform) {P : κ → Prop} (hP : Invariant P) {k : κ} (hk : P k) {f : Finish σ κ}
    (hf : run κ k = some f) : P f.console := by
  have halike := h.alike hP.lockstep ⟨hk, (rfl : k = k)⟩
  rw [hf] at halike
  cases halike with
  | ended result s hR => exact hR.1
  | broken s _ hnever => exact hnever.elim

/-- **A refused read is the last thing that a run asks.** -/
theorem Runner.Uniform.refused (h : run.Uniform) {k : κ} {f : Finish σ (Recorded κ)}
    (hf : run (Recorded κ) (record k) = some f) {w : Fault} (hw : .error w ∈ f.console.received) :
    f.result = .error (.io w) ∧ ∃ before, f.console.received = before ++ [.error w] ∧ ∀ w', .error w' ∉ before := by
  have hself : Lockstep (fun r r' : Recorded κ => (∀ w, .error w ∉ r.received) ∧ r = r')
      fun w r => ∃ before, r.received = before ++ [.error w] ∧ ∀ w', .error w' ∉ before := by
    refine ⟨?_, ?_, ?_⟩
    · rintro r _ ⟨hr, rfl⟩
      cases hread : (Console.read r).1 with
      | ok e =>
        refine .inl ⟨rfl, fun w hmem => ?_, rfl⟩
        rw [Recorded.received_read, hread] at hmem
        rcases List.mem_append.mp hmem with hmem | hmem
        · exact hr w hmem
        · cases List.mem_singleton.mp hmem
      | error w => exact .inr ⟨w, hread, r.received, by rw [Recorded.received_read, hread], hr⟩
    · rintro r _ b ⟨hr, rfl⟩
      exact .inl ⟨rfl, by rwa [Recorded.received_write], rfl⟩
    · rintro r _ ⟨hr, rfl⟩
      exact .inl ⟨rfl, by rwa [Recorded.received_flush], rfl⟩
  have halike := h.alike hself ⟨(nofun : ∀ w, .error w ∉ (record k).received), rfl⟩
  rw [hf] at halike
  cases halike with
  | ended result s hR => exact absurd hw (hR.1 w)
  | broken s _ hbad =>
    obtain ⟨before, hreceived, hbefore⟩ := hbad
    rw [hreceived] at hw
    rcases List.mem_append.mp hw with hmem | hmem
    · exact absurd hmem (hbefore w)
    · cases List.mem_singleton.mp hmem
      exact ⟨rfl, before, hreceived, hbefore⟩

end Consequences

/-! ## Sources side by side -/

section Sources

variable {ς ς' τ : Type} [Source ς] [Source ς'] [Drain τ]

/-- Recorded consoles with sources in `S`, the same drain and the same record. -/
structure Recorded.Beside (S : ς → ς' → Prop) (r : Recorded (ς × τ)) (r' : Recorded (ς' × τ)) : Prop where
  source : S r.console.1 r'.console.1
  drain : r.console.2 = r'.console.2
  log : r.log = r'.log

/-- Sources that give the same answers, until the first one refuses and is bad. -/
theorem lockstep_of_next {S : ς → ς' → Prop} {Bad : Fault → ς → Prop}
    (hnext : ∀ s s', S s s' → Answers S Bad (Source.next s) (Source.next s')) :
    Lockstep (fun (r : Recorded (ς × τ)) (r' : Recorded (ς' × τ)) => r.Beside S r')
      fun w r => Bad w r.console.1 ∧ .error w ∈ r.received := by
  refine ⟨?_, ?_, ?_⟩
  · rintro ⟨⟨s, t⟩, log⟩ ⟨⟨s', t'⟩, log'⟩ ⟨hsource, hdrain, hlog⟩
    rcases hnext s s' hsource with ⟨hanswer, hsource'⟩ | ⟨w, hw, hbad⟩
    · exact .inl ⟨hanswer, hsource', hdrain, congr (congrArg _ hlog) (congrArg (fun a => [Entry.read a]) hanswer)⟩
    · refine .inr ⟨w, hw, hbad, ?_⟩
      rw [Recorded.received_read]
      exact List.mem_append_right _ (List.mem_singleton.mpr hw.symm)
  · rintro ⟨⟨s, t⟩, log⟩ ⟨⟨s', _⟩, _⟩ b ⟨hsource, rfl, rfl⟩
    exact .inl ⟨rfl, hsource, rfl, rfl⟩
  · rintro ⟨⟨s, t⟩, log⟩ ⟨⟨s', _⟩, _⟩ ⟨hsource, rfl, rfl⟩
    exact .inl ⟨rfl, hsource, rfl, rfl⟩

/-- What reading keeps between a source and the answers that it gave. -/
theorem invariant_of_next {P : ς → List (Except Fault Event) → Prop}
    (hnext : ∀ s seen, P s seen → P (Source.next s).2 (seen ++ [(Source.next s).1])) :
    Invariant fun r : Recorded (ς × τ) => P r.console.1 r.received := by
  refine ⟨fun {r} hr => ?_, fun {r} b hr => ?_, fun {r} hr => ?_⟩
  · rw [Recorded.received_read]
    exact hnext r.console.1 r.received hr
  · rwa [Recorded.received_write]
  · rwa [Recorded.received_flush]

end Sources
end TapeLang
