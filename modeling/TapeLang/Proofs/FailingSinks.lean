import TapeLang.Proofs.Lockstep
import TapeLang.Proofs.Resume

/-!
# TapeLang.Proofs.FailingSinks — a sink that fails leaves a prefix

Compare a run on a sink that never refuses anything with the run on a sink that refuses the byte behind the first `n`.  Up to
that byte the two runs are one.  If the byte comes, the second run ends there, and whatever the first one does afterwards, it
has already done all that the second one did.  This holds for runs that never end, too, so it is said of moments.

* `SinkFaults.CutAt n w`: the ways in which a sink refuses the byte behind the first `n`, and nothing else.
* `Moment step s k k'`: the console at some moment of a run, on its way or at its end.
* `Turn.Cut`: what one turn comes to on both sinks; `perform_cut` says so of every action, and `Steps.cut` of any number of
  turns.
* `CutShort`: what then holds of a whole run.  **`failing_sinks_cut`**: of every run of an interpreter, of code and of an
  engine.
-/

namespace TapeLang

open Recorded (record eraseFinish)

variable {σ σ' κ ς : Type}

/-! ## Moments of a run -/

section Moments

variable [Console κ] {step : σ → Action σ} {s t : σ} {k k₁ k₂ : κ} {P : κ → Prop} {j : Nat}

/-- The console at some moment of the run from a state: on its way, or at its end. -/
inductive Moment (step : σ → Action σ) (s : σ) (k : κ) : κ → Prop
  | underway {j : Nat} {t : σ} {k' : κ} : Steps step j s k t k' → Moment step s k k'
  | ended {f : Finish σ κ} : Ends step s k f → Moment step s k f.console

/-- The console after a turn. -/
def Turn.console : Turn σ κ → κ
  | .going _ k => k
  | .over _ _ k => k

theorem Invariant.perform (hP : Invariant P) (a : Action σ) (hk : P k) : P (a.perform k).console := by
  have halike := hP.lockstep.perform a ⟨hk, (rfl : k = k)⟩
  generalize a.perform k = turn at halike ⊢
  cases halike with
  | going s hR => exact hR.1
  | ended result s hR => exact hR.1
  | broken s _ hnever => exact hnever.elim

theorem Invariant.steps (hP : Invariant P) (h : Steps step j s k t k₁) (hk : P k) : P k₁ := by
  induction h with
  | refl s k => exact hk
  | @turn j s t u k k₁ k₂ hturn _ ih =>
    have hnext := hP.perform (step s) hk
    rw [hturn] at hnext
    exact ih hnext

/-- What no operation of a console breaks holds at every moment. -/
theorem Invariant.moment (hP : Invariant P) (h : Moment step s k k₁) (hk : P k) : P k₁ := by
  cases h with
  | underway hsteps => exact hP.steps hsteps hk
  | ended hends =>
    obtain ⟨fuel, hdrive⟩ := hends
    exact (uniform_drive step fuel s).keeps hP hk hdrive

end Moments

/-! ## Consoles that go on from one another -/

section Growth

/-- One console has become another: what was taken, flushed and read is still there, in front of what came later. -/
structure Grown (r r' : Recorded (ς × Sink)) : Prop where
  accepted : r.console.2.accepted.toList <+: r'.console.2.accepted.toList
  flushes : r.console.2.flushes.toList <+: r'.console.2.flushes.toList
  received : r.received <+: r'.received

theorem Grown.refl (r : Recorded (ς × Sink)) : Grown r r :=
  ⟨List.prefix_refl _, List.prefix_refl _, List.prefix_refl _⟩

theorem Sink.write_grows (b : UInt8) (t : Sink) :
    t.accepted.toList <+: (t.write b).2.accepted.toList ∧ (t.write b).2.flushes = t.flushes := by
  rw [Sink.write]
  cases t.refusal? with
  | some f => exact ⟨List.prefix_refl _, rfl⟩
  | none => exact ⟨by rw [Array.toList_push]; exact List.prefix_append _ _, rfl⟩

theorem Sink.flush_grows (t : Sink) :
    t.flushes.toList <+: t.flush.2.flushes.toList ∧ t.flush.2.accepted = t.accepted := by
  rw [Sink.flush]
  cases t.flushRefusal? with
  | some f => exact ⟨List.prefix_refl _, rfl⟩
  | none => exact ⟨by rw [Array.toList_push]; exact List.prefix_append _ _, rfl⟩

variable [Source ς]

theorem invariant_grown (r : Recorded (ς × Sink)) : Invariant (Grown r) := by
  refine ⟨fun {r'} h => ?_, fun {r'} b h => ?_, fun {r'} h => ?_⟩
  · refine ⟨h.accepted, h.flushes, ?_⟩
    rw [Recorded.received_read]
    exact h.received.trans (List.prefix_append _ _)
  · obtain ⟨haccepted, hflushes⟩ := Sink.write_grows b r'.console.2
    refine ⟨h.accepted.trans haccepted, ?_, by rw [Recorded.received_write]; exact h.received⟩
    show _ <+: (r'.console.2.write b).2.flushes.toList
    rw [hflushes]
    exact h.flushes
  · obtain ⟨hflushes, haccepted⟩ := Sink.flush_grows r'.console.2
    refine ⟨?_, h.flushes.trans hflushes, by rw [Recorded.received_flush]; exact h.received⟩
    show _ <+: r'.console.2.flush.2.accepted.toList
    rw [haccepted]
    exact h.accepted

/-- A source after a number of reads. -/
def Source.after (source : ς) : Nat → ς
  | 0 => source
  | n + 1 => (Source.next (after source n)).2

/-- What a source has become is told by the number of answers that it gave. -/
theorem invariant_after (source : ς) :
    Invariant fun r : Recorded (ς × Sink) => r.console.1 = Source.after source r.received.length :=
  invariant_of_next fun s seen (h : s = Source.after source seen.length) => by
    rw [List.length_append, List.length_singleton, Source.after, ← h]

end Growth

/-! ## Two sinks -/

section Sinks

/-- A sink refuses the byte behind the first `n` with `w`, and nothing else: it fails, or it takes no byte of what it is
given. -/
inductive SinkFaults.CutAt (n : Nat) : SinkFaults → Fault → Prop
  | fails (text : String) : CutAt n { failAt := some (n, text) } (.other text)
  | full : CutAt n { fullAt := some n } .sinkFull

/-- The same console with a sink of other faults. -/
def refit (faults : SinkFaults) (r : Recorded (ς × Sink)) : Recorded (ς × Sink) :=
  ⟨(r.console.1, { r.console.2 with faults := faults }), r.log⟩

/-- A console whose sink never refuses anything and has taken no more than `n` bytes. -/
structure Within (n : Nat) (r : Recorded (ς × Sink)) : Prop where
  faultless : r.console.2.faults = {}
  size_le : r.console.2.accepted.size ≤ n

variable {n : Nat} {faults : SinkFaults} {w : Fault} {sink : Sink}

theorem SinkFaults.CutAt.refusal?_of_lt (h : faults.CutAt n w) (hlt : sink.accepted.size < n) :
    ({ sink with faults := faults } : Sink).refusal? = none := by
  have hne : ¬sink.accepted.size = n := Nat.ne_of_lt hlt
  cases h with
  | fails text => simp [Sink.refusal?, Sink.refusal?.full?, hne]
  | full => simp [Sink.refusal?, Sink.refusal?.full?, Ne.symm hne]

theorem SinkFaults.CutAt.refusal?_of_eq (h : faults.CutAt n w) (heq : sink.accepted.size = n) :
    ({ sink with faults := faults } : Sink).refusal? = some w := by
  cases h with
  | fails text => simp [Sink.refusal?, heq]
  | full => simp [Sink.refusal?, Sink.refusal?.full?, heq]

theorem SinkFaults.CutAt.flushRefusal? (h : faults.CutAt n w) :
    ({ sink with faults := faults } : Sink).flushRefusal? = none := by
  cases h <;> rfl

/-- The first console has taken more than `n` bytes.  The second one has taken only the first `n` of them, and what it was
asked besides, the first one was asked, too. -/
structure CutOff (n : Nat) (r r' : Recorded (ς × Sink)) : Prop where
  lt_size : n < r.console.2.accepted.size
  accepted : r'.console.2.accepted.toList = r.console.2.accepted.toList.take n
  flushes : r'.console.2.flushes.toList <+: r.console.2.flushes.toList
  received : r'.received <+: r.received

theorem CutOff.grown {r r' r₁ : Recorded (ς × Sink)} (h : CutOff n r r') (hgrown : Grown r r₁) : CutOff n r₁ r' := by
  obtain ⟨more, hmore⟩ := hgrown.accepted
  have hlt : n < r.console.2.accepted.toList.length := h.lt_size
  refine ⟨?_, ?_, h.flushes.trans hgrown.flushes, h.received.trans hgrown.received⟩
  · rw [← Array.length_toList, ← hmore, List.length_append]
    omega
  · rw [h.accepted, ← hmore, List.take_append_of_le_length (Nat.le_of_lt hlt)]

variable [Source ς] {r : Recorded (ς × Sink)}

theorem Within.read (h : Within n r) : Within n (Console.read r).2 := ⟨h.faultless, h.size_le⟩

theorem read_refit (faults : SinkFaults) (r : Recorded (ς × Sink)) :
    Console.read (refit faults r) = ((Console.read r).1, refit faults (Console.read r).2) := rfl

/-- A flush is never refused. -/
theorem Within.flush (h : Within n r) (hcut : faults.CutAt n w) :
    Console.flush r = (.ok (), (Console.flush r).2) ∧
      Console.flush (refit faults r) = (.ok (), refit faults (Console.flush r).2) ∧ Within n (Console.flush r).2 := by
  obtain ⟨⟨source, sink⟩, log⟩ := r
  obtain ⟨hfaults, hsize⟩ := h
  have hfirst : sink.flushRefusal? = none := Sink.flushRefusal?_faultless hfaults
  have hsecond : ({ sink with faults := faults } : Sink).flushRefusal? = none := hcut.flushRefusal?
  refine ⟨?_, ?_, ?_⟩
  · simp only [Console.flush, Drain.flush, Sink.flush, hfirst]
  · simp only [Console.flush, Drain.flush, Sink.flush, refit, hfirst, hsecond]
  · simp only [Console.flush, Drain.flush, Sink.flush, hfirst]
    exact ⟨hfaults, hsize⟩

/-- A byte that is not behind the first `n` is taken by both. -/
theorem Within.write (h : Within n r) (hcut : faults.CutAt n w) (hlt : r.console.2.accepted.size < n) (b : UInt8) :
    Console.write b r = (.ok (), (Console.write b r).2) ∧
      Console.write b (refit faults r) = (.ok (), refit faults (Console.write b r).2) ∧ Within n (Console.write b r).2 := by
  obtain ⟨⟨source, sink⟩, log⟩ := r
  have hfirst : sink.refusal? = none := Sink.refusal?_faultless h.faultless
  have hsecond : ({ sink with faults := faults } : Sink).refusal? = none := hcut.refusal?_of_lt hlt
  refine ⟨?_, ?_, ?_⟩
  · simp only [Console.write, Drain.write, Sink.write, hfirst]
  · simp only [Console.write, Drain.write, Sink.write, refit, hfirst, hsecond]
  · simp only [Console.write, Drain.write, Sink.write, hfirst]
    exact ⟨h.faultless, by rw [Array.size_push]; exact hlt⟩

/-- The byte behind the first `n` is taken by the first and refused by the second. -/
theorem Within.write_last (h : Within n r) (hcut : faults.CutAt n w) (heq : r.console.2.accepted.size = n) (b : UInt8) :
    Console.write b r = (.ok (), (Console.write b r).2) ∧
      Console.write b (refit faults r) = (.error w, (Console.write b (refit faults r)).2) ∧
      CutOff n (Console.write b r).2 (Console.write b (refit faults r)).2 := by
  obtain ⟨⟨source, sink⟩, log⟩ := r
  have hsize : sink.accepted.size = n := heq
  have hfirst : sink.refusal? = none := Sink.refusal?_faultless h.faultless
  have hsecond : ({ sink with faults := faults } : Sink).refusal? = some w := hcut.refusal?_of_eq heq
  refine ⟨?_, ?_, ?_, ?_, ?_, ?_⟩
  · simp only [Console.write, Drain.write, Sink.write, hfirst]
  · simp only [Console.write, Drain.write, Sink.write, refit, hsecond]
  · simp only [Console.write, Drain.write, Sink.write, hfirst, Array.size_push]
    omega
  · -- the refused byte is the last one of the first sink
    simp only [Console.write, Drain.write, Sink.write, refit, hfirst, hsecond, Array.toList_push]
    rw [← hsize, ← Array.length_toList, List.take_left]
  · simp only [Console.write, Drain.write, Sink.write, refit, hfirst, hsecond]
    exact List.prefix_refl _
  · rw [Recorded.received_write, Recorded.received_write]
    exact List.prefix_refl _

end Sinks

/-! ## Two runs -/

section Runs

variable [Source ς] {n : Nat} {faults : SinkFaults} {w : Fault} {r r' r₁ : Recorded (ς × Sink)}

/-- What a turn comes to on the two consoles: the same, as long as there are no more than `n` bytes; or the second run is
over and the first one goes on. -/
inductive Turn.Cut (n : Nat) (faults : SinkFaults) (w : Fault) :
    Turn σ (Recorded (ς × Sink)) → Turn σ (Recorded (ς × Sink)) → Prop
  | going {r : Recorded (ς × Sink)} (s : σ) : Within n r → Turn.Cut n faults w (.going s r) (.going s (refit faults r))
  | ended {r : Recorded (ς × Sink)} (result : Except Error Outcome) (s : σ) : Within n r →
      Turn.Cut n faults w (.over result s r) (.over result s (refit faults r))
  | parted {r r' : Recorded (ς × Sink)} (s t : σ) : CutOff n r r' →
      Turn.Cut n faults w (.going t r) (.over (.error (.io w)) s r')

/-- **One turn** on the two consoles. -/
theorem Action.perform_cut (a : Action σ) (hcut : faults.CutAt n w) (h : Within n r) :
    Turn.Cut n faults w (a.perform r) (a.perform (refit faults r)) := by
  induction a generalizing r with
  | move s => exact .going s h
  | stop s result => exact .ended result s h
  | write b s s' =>
    rw [Action.perform, Action.perform]
    rcases Nat.lt_or_eq_of_le h.size_le with hlt | heq
    · obtain ⟨hfirst, hsecond, hwithin⟩ := h.write hcut hlt b
      rw [hfirst, hsecond]
      exact .going s' hwithin
    · obtain ⟨hfirst, hsecond, hoff⟩ := h.write_last hcut heq b
      rw [hfirst, hsecond]
      exact .parted s s' hoff
  | flush s a ih =>
    obtain ⟨hfirst, hsecond, hwithin⟩ := h.flush hcut
    rw [Action.perform, Action.perform, hfirst, hsecond]
    exact ih hwithin
  | read s next ih =>
    rw [Action.perform, Action.perform, read_refit]
    have hwithin := h.read
    generalize Console.read r = reply at hwithin ⊢
    obtain ⟨answer, r₁⟩ := reply
    cases answer with
    | ok e => exact ih e hwithin
    | error w => exact .ended _ s hwithin

variable {step : σ → Action σ} {s t : σ} {j : Nat}

/-- **Any number of turns** on the two consoles. -/
theorem Steps.cut (h : Steps step j s r t r₁) (hcut : faults.CutAt n w) (hr : Within n r) :
    (Within n r₁ ∧ Steps step j s (refit faults r) t (refit faults r₁)) ∨
      ∃ u r', Ends step s (refit faults r) ⟨.error (.io w), u, r'⟩ ∧ CutOff n r₁ r' := by
  induction h with
  | refl s r => exact .inl ⟨hr, .refl s _⟩
  | @turn j s t u r r₁ r₂ hfirst hrest ih =>
    have hturn := (step s).perform_cut hcut hr
    rw [hfirst] at hturn
    generalize hsecond : (step s).perform (refit faults r) = turn at hturn
    cases hturn with
    | going _ hwithin =>
      rcases ih hwithin with ⟨hwithin', hsteps⟩ | ⟨v, r', hends, hoff⟩
      · exact .inl ⟨hwithin', .turn hsecond hsteps⟩
      · exact .inr ⟨v, r', (Steps.single hsecond).ends_iff.mpr hends, hoff⟩
    | parted _ _ hoff =>
      -- from here on the first run is alone, and only adds to its console
      exact .inr ⟨_, _, .of_over hsecond, hoff.grown ((invariant_grown r₁).steps hrest (.refl r₁))⟩

/-- If the first run has put out more than `n` bytes at some moment, then the second one is over. -/
theorem Moment.cut (h : Moment step s r r₁) (hcut : faults.CutAt n w) (hr : Within n r)
    (hlt : n < r₁.console.2.accepted.size) :
    ∃ u r', Ends step s (refit faults r) ⟨.error (.io w), u, r'⟩ ∧ CutOff n r₁ r' := by
  cases h with
  | underway hsteps =>
    rcases hsteps.cut hcut hr with ⟨hwithin, -⟩ | hcutoff
    · exact absurd hwithin.size_le (Nat.not_le_of_lt hlt)
    · exact hcutoff
  | @ended f hends =>
    obtain ⟨fuel, hdrive⟩ := hends
    obtain ⟨j, t, r₀, -, hsteps, hlast⟩ := steps_of_drive_eq_some hdrive
    rcases hsteps.cut hcut hr with ⟨hwithin, -⟩ | ⟨u, r', hends, hoff⟩
    · -- a turn that ends the first run has no write in it that only the second sink refuses
      have hturn := (step t).perform_cut hcut hwithin
      rw [hlast] at hturn
      generalize (step t).perform (refit faults r₀) = turn at hturn
      cases hturn with
      | ended _ _ hwithin' => exact absurd hwithin'.size_le (Nat.not_le_of_lt hlt)
    · have hgrown := (invariant_grown r₀).perform (step t) (.refl r₀)
      rw [hlast] at hgrown
      exact ⟨u, r', hends, hoff.grown hgrown⟩

/-- The end of a run goes on from all its moments. -/
theorem Moment.grown {f : Finish σ (Recorded (ς × Sink))} (h : Moment step s r r₁) (hends : Ends step s r f) :
    Grown r₁ f.console := by
  cases h with
  | underway hsteps =>
    obtain ⟨fuel, hdrive⟩ := hsteps.ends_iff.mp hends
    exact (uniform_drive step fuel _).keeps (invariant_grown r₁) (.refl r₁) hdrive
  | ended hends' =>
    cases hends.unique hends'
    exact .refl _

/-- The same end with a sink of other faults. -/
def refitFinish (faults : SinkFaults) (f : Finish σ (Recorded (ς × Sink))) : Finish σ (Recorded (ς × Sink)) :=
  ⟨f.result, f.state, refit faults f.console⟩

/-- If the first run never puts out more than `n` bytes, then the second one is the same. -/
theorem drive_refit (hcut : faults.CutAt n w) (hr : Within n r)
    (hle : ∀ r₁, Moment step s r r₁ → r₁.console.2.accepted.size ≤ n) (fuel : Nat) :
    drive step fuel s (refit faults r) = (drive step fuel s r).map (refitFinish faults) := by
  induction fuel generalizing s r with
  | zero => rfl
  | succ fuel ih =>
    have hturn := (step s).perform_cut hcut hr
    generalize hfirst : (step s).perform r = turn at hturn
    generalize hsecond : (step s).perform (refit faults r) = turn' at hturn
    cases hturn with
    | going t hwithin =>
      rw [drive_of_going hfirst, drive_of_going hsecond]
      refine ih hwithin fun r₁ hmoment => hle r₁ ?_
      cases hmoment with
      | underway hsteps => exact .underway (.turn hfirst hsteps)
      | ended hends => exact .ended ((Steps.single hfirst).ends_iff.mpr hends)
    | ended result t hwithin => rw [drive_of_over hfirst, drive_of_over hsecond]; rfl
    | parted _ _ hoff => exact absurd (hle _ (.underway (.single hfirst))) (Nat.not_le_of_lt hoff.lt_size)

end Runs

/-! ## Every engine -/

section Engines

/-- The console at some moment of the run of a text. -/
def Interpreter.AtMoment [Console κ] (m : Interpreter) (source : String) (k : κ) : κ → Prop :=
  match m.load source with
  | .error _ => (k = ·)
  | .ok m' => Moment step { m' with phase := .running } k

/-- The console at some moment of the run of code. -/
def Code.AtMoment [Console κ] (code : Code) (k : κ) : κ → Prop := Moment (Machine.step code) Machine.start k

/-- The console at some moment of the run of a text. -/
def Engine.AtMoment [Console κ] (e : Engine) (source : String) (k : κ) : κ → Prop :=
  match e.mode with
  | .interpret => e.interpreter.AtMoment source k
  | .translate =>
    match e.translator.emit source with
    | .error _ => (k = ·)
    | .ok code => code.AtMoment k

/-- A source and an empty sink, with a record of what they are asked. -/
def fresh (source : ς) (faults : SinkFaults) : Recorded (ς × Sink) := record (source, { faults := faults })

variable [Source ς] {source : ς} {n : Nat} {faults : SinkFaults} {w : Fault} {run : Nat → Runner σ}
  {moment : Recorded (ς × Sink) → Prop}

/-- What holds of a run on a sink without faults, with its moments, and of the same run on a sink with the given ones.  Both
start on the same source. -/
structure CutShort (run : Nat → Runner σ) (moment : Recorded (ς × Sink) → Prop) (source : ς) (n : Nat)
    (faults : SinkFaults) (w : Fault) : Prop where
  /-- Recording changes nothing. -/
  recorded : ∀ fuel (sink : Sink), run fuel _ (source, sink) = (run fuel _ (record (source, sink))).map eraseFinish
  /-- The end of the first run is one of its moments. -/
  last : ∀ fuel f, run fuel _ (fresh source {}) = some f → moment f.console
  /-- If the first run ends and has put out no more than `n` bytes, then the second one is the same. -/
  same : ∀ fuel f, run fuel _ (fresh source {}) = some f → f.console.console.2.accepted.size ≤ n →
    run fuel _ (fresh source faults) = some (refitFinish faults f)
  /-- If the first run goes on and never puts out more than `n` bytes, then the second one goes on. -/
  endless : ∀ fuel, run fuel _ (fresh source {}) = none → (∀ r, moment r → r.console.2.accepted.size ≤ n) →
    run fuel _ (fresh source faults) = none
  /-- If the first run has put out more than `n` bytes at some moment, then the second one ends with the refusal.  What it
  wrote are the first `n` bytes, and what it flushed and read comes first in what the first run flushed and read.  Each
  source has been moved on by as many reads as the record shows. -/
  beyond : ∀ r, moment r → n < r.console.2.accepted.size →
    ∃ fuel f, run fuel _ (fresh source faults) = some f ∧ f.result = .error (.io w) ∧
      f.console.console.2.accepted.toList = r.console.2.accepted.toList.take n ∧
      f.console.console.2.flushes.toList <+: r.console.2.flushes.toList ∧
      f.console.received <+: r.received ∧
      r.console.1 = Source.after source r.received.length ∧
      f.console.console.1 = Source.after source f.console.received.length

/-- **Every machine is cut short** by a sink that refuses. -/
theorem cutShort_drive (step : σ → Action σ) (s : σ) (source : ς) (hcut : faults.CutAt n w) :
    CutShort (fun fuel _ _ k => drive step fuel s k) (Moment step s (fresh source {})) source n faults w := by
  have hwithin : Within n (fresh source {}) := ⟨rfl, Nat.zero_le n⟩
  refine ⟨fun fuel sink => (uniform_drive step fuel s).recorded (source, sink), fun fuel f hf => .ended ⟨fuel, hf⟩,
    fun fuel f hf hle => ?_, fun fuel hf hle => ?_, fun r hr hlt => ?_⟩
  · have hall : ∀ r, Moment step s (fresh source {}) r → r.console.2.accepted.size ≤ n := fun r hr =>
      Nat.le_trans (hr.grown ⟨fuel, hf⟩).accepted.length_le hle
    have hsame := drive_refit hcut hwithin hall fuel
    rw [hf] at hsame
    exact hsame
  · have hsame := drive_refit hcut hwithin hle fuel
    rw [hf] at hsame
    exact hsame
  · obtain ⟨u, r', hends, hoff⟩ := hr.cut hcut hwithin hlt
    have hsource := (invariant_after source).moment hr rfl
    have hsource' := (invariant_after source).moment (.ended hends) rfl
    obtain ⟨fuel, hf⟩ := hends
    exact ⟨fuel, _, hf, rfl, hoff.accepted, hoff.flushes, hoff.received, hsource, hsource'⟩

/-- A run that is over before it asks for anything. -/
theorem cutShort_stop (result : Except Error Outcome) (s : σ) (source : ς) (n : Nat) (faults : SinkFaults) (w : Fault) :
    CutShort (fun _ _ _ k => some ⟨result, s, k⟩) (fresh source {} = ·) source n faults w := by
  refine ⟨fun _ _ => rfl, ?_, ?_, ?_, ?_⟩
  · rintro - f hf
    cases hf
    rfl
  · rintro - f hf -
    cases hf
    rfl
  · rintro - hf -
    cases hf
  · rintro r rfl hlt
    exact absurd hlt (Nat.not_lt_zero n)

theorem CutShort.map (h : CutShort run moment source n faults w) (g : Except Error Outcome → σ → σ') :
    CutShort (fun fuel κ _ k => (run fuel κ k).map fun f => ⟨f.result, g f.result f.state, f.console⟩) moment source n faults
      w := by
  refine ⟨fun fuel sink => ?_, fun fuel f hf => ?_, fun fuel f hf hle => ?_, fun fuel hf hle => ?_, fun r hr hlt => ?_⟩
  · simp only [h.recorded fuel sink, Option.map_map]
    rfl
  · obtain ⟨f', hf', rfl⟩ := Option.map_eq_some_iff.mp hf
    exact h.last fuel f' hf'
  · obtain ⟨f', hf', rfl⟩ := Option.map_eq_some_iff.mp hf
    simp only [h.same fuel f' hf' hle]
    rfl
  · simp only [h.endless fuel (Option.map_eq_none_iff.mp hf) hle]
    rfl
  · obtain ⟨fuel, f, hf, hresult, hbytes⟩ := h.beyond r hr hlt
    exact ⟨fuel, _, congrArg (Option.map _) hf, hresult, hbytes⟩

theorem Interpreter.cutShort_execute {m : Interpreter} (h : m.phase ≠ .idle) (source : ς) (hcut : faults.CutAt n w) :
    CutShort (fun fuel _ _ k => m.execute fuel k) (Moment step { m with phase := .running } (fresh source {})) source n
      faults w := by
  simp only [execute_eq_map h]
  exact (cutShort_drive step _ source hcut).map fun result s => { s with phase := phaseAfter result }

theorem Interpreter.cutShort_run (m : Interpreter) (text : String) (source : ς) (hcut : faults.CutAt n w) :
    CutShort (fun fuel _ _ k => m.run fuel text k) (m.AtMoment text (fresh source {})) source n faults w := by
  unfold AtMoment
  cases hload : m.load text with
  | error e =>
    simp only [run_of_refusal hload]
    exact cutShort_stop (.error e) m source n faults w
  | ok m' =>
    have hphase : m'.phase ≠ .idle := by
      obtain ⟨-, -, rfl⟩ := of_load hload
      simp
    simp only [run_of_load hload]
    exact cutShort_execute hphase source hcut

theorem Code.cutShort_run (code : Code) (source : ς) (hcut : faults.CutAt n w) :
    CutShort (fun fuel _ _ k => code.run fuel k) (code.AtMoment (fresh source {})) source n faults w := by
  simp only [Code.run_eq_drive]
  exact cutShort_drive (Machine.step code) Machine.start source hcut

theorem Engine.cutShort_run (e : Engine) (text : String) (source : ς) (hcut : faults.CutAt n w) :
    CutShort (fun fuel _ _ k => e.run fuel text k) (e.AtMoment text (fresh source {})) source n faults w := by
  unfold AtMoment
  cases hmode : e.mode with
  | interpret =>
    simp only [run_interpret hmode]
    exact (e.interpreter.cutShort_run text source hcut).map fun _ m => { e with interpreter := m }
  | translate =>
    cases hemit : e.translator.emit text with
    | error why =>
      simp only [run_of_emit_error hmode hemit]
      exact cutShort_stop (.error why) e source n faults w
    | ok code =>
      simp only [run_of_emit_ok hmode hemit]
      exact (code.cutShort_run source hcut).map fun _ _ => e

/-- **A sink that fails leaves a prefix.**  Take a sink that never refuses anything and one that refuses the byte behind the
first `n`.  On them every run is cut short there: that of an interpreter with a program in any state, that of a text, that of
any code, and that of an engine in either mode. -/
theorem failing_sinks_cut (source : ς) (hcut : faults.CutAt n w) :
    (∀ m : Interpreter, m.phase ≠ .idle →
      CutShort (fun fuel _ _ k => m.execute fuel k)
        (Moment Interpreter.step { m with phase := .running } (fresh source {})) source n faults w) ∧
    (∀ (m : Interpreter) (text : String),
      CutShort (fun fuel _ _ k => m.run fuel text k) (m.AtMoment text (fresh source {})) source n faults w) ∧
    (∀ code : Code,
      CutShort (fun fuel _ _ k => code.run fuel k) (code.AtMoment (fresh source {})) source n faults w) ∧
    ∀ (e : Engine) (text : String),
      CutShort (fun fuel _ _ k => e.run fuel text k) (e.AtMoment text (fresh source {})) source n faults w :=
  ⟨fun _ hphase => Interpreter.cutShort_execute hphase source hcut, fun m text => m.cutShort_run text source hcut,
    fun code => code.cutShort_run source hcut, fun e text => e.cutShort_run text source hcut⟩

/-- A program that would write forever, on a sink that is full after two bytes. -/
theorem failing_sinks_cut_endless : ∃ (m : Interpreter) (r : Recorded (Script × Sink)) (fuel : Nat)
    (f : Finish Interpreter (Recorded (Script × Sink))),
    SinkFaults.CutAt 2 { fullAt := some 2 } .sinkFull ∧ m.phase ≠ .idle ∧
      Moment Interpreter.step { m with phase := .running } (fresh (Script.ofBytes []) {}) r ∧
      r.console.2.accepted = #[1, 1, 1] ∧ m.execute fuel (fresh (Script.ofBytes []) { fullAt := some 2 }) = some f ∧
      f.result = .error (.io .sinkFull) ∧ f.console.console.2.accepted.toList = [1, 1] := by
  let m : Interpreter := ⟨⟨4, 16⟩, .blank 4, ⟨#['+', '[', '.', ']']⟩, 0, .loaded⟩
  have hcut : SinkFaults.CutAt 2 { fullAt := some 2 } .sinkFull := .full
  have hphase : m.phase ≠ .idle := nofun
  have hsteps : Steps Interpreter.step 7 { m with phase := .running } (fresh (Script.ofBytes []) {}) _ _ :=
    .turn rfl <| .turn rfl <| .turn rfl <| .turn rfl <| .turn rfl <| .turn rfl <| .turn rfl <| .refl _ _
  have hshort := (failing_sinks_cut (Script.ofBytes []) hcut).1 m hphase
  obtain ⟨fuel, f, hf, hresult, hbytes, -⟩ := hshort.beyond _ (.underway hsteps) (by decide)
  exact ⟨m, _, fuel, f, hcut, hphase, .underway hsteps, rfl, hf, hresult, hbytes⟩

end Engines
end TapeLang
