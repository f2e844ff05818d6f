import TapeLang.Proofs.Steps

/-!
# TapeLang.Proofs.Record — what a run asked of its console

A console is only known by its answers.  A recorded console gives the answers of another one and keeps a list of
everything it was asked, so that two runs on consoles of one and the same type can be compared question by question.

* `Entry`, `Recorded`: one question with its answer, and a console with the entries so far.
* `Recorded.accepted`, `Recorded.received`, `Recorded.data`, `Recorded.flushes`: the bytes that were taken, the answers to
  reads, the bytes among them, and the flushes, each with the number of bytes taken before it.
* `drive_record`: recording changes nothing; a run on a recorded console is the run on the console itself.
-/

namespace TapeLang

/-- Something that a console was asked, and its answer. -/
inductive Entry where
  | read (answer : Except Fault Event)
  | write (byte : UInt8) (answer : Except Fault Unit)
  | flush (answer : Except Fault Unit)

/-- A console and what it was asked so far. -/
structure Recorded (κ : Type) where
  /-- The console. -/
  console : κ
  /-- What it was asked, in order. -/
  log : List Entry

namespace Recorded

variable {σ κ : Type}

instance [Console κ] : Console (Recorded κ) where
  read r := ((Console.read r.console).1, ⟨(Console.read r.console).2, r.log ++ [.read (Console.read r.console).1]⟩)
  write b r :=
    ((Console.write b r.console).1, ⟨(Console.write b r.console).2, r.log ++ [.write b (Console.write b r.console).1]⟩)
  flush r := ((Console.flush r.console).1, ⟨(Console.flush r.console).2, r.log ++ [.flush (Console.flush r.console).1]⟩)

/-- A console that was not asked anything yet. -/
def record (k : κ) : Recorded κ := ⟨k, []⟩

/-! ## Reading a record -/

/-- The byte that an entry says was taken. -/
def acceptedBy : Entry → Option UInt8
  | .write b (.ok ()) => some b
  | _ => none

/-- The answer to a read. -/
def receivedBy : Entry → Option (Except Fault Event)
  | .read answer => some answer
  | _ => none

/-- The data byte that an entry says was read. -/
def dataBy : Entry → Option UInt8
  | .read (.ok (.byte b)) => some b
  | _ => none

/-- The bytes taken, in order. -/
def accepted (r : Recorded κ) : List UInt8 := r.log.filterMap acceptedBy

/-- The answers to reads, in order. -/
def received (r : Recorded κ) : List (Except Fault Event) := r.log.filterMap receivedBy

/-- The data bytes read, in order. -/
def data (r : Recorded κ) : List UInt8 := r.log.filterMap dataBy

/-- The flushes in a list of entries, when `n` bytes were taken before. -/
def flushesFrom : Nat → List Entry → List (Nat × Except Fault Unit)
  | _, [] => []
  | n, .flush answer :: log => (n, answer) :: flushesFrom n log
  | n, e :: log => flushesFrom (n + (acceptedBy e).toList.length) log

/-- The flushes in order, each with the number of bytes taken before it and its answer. -/
def flushes (r : Recorded κ) : List (Nat × Except Fault Unit) := flushesFrom 0 r.log

theorem flushesFrom_append (n : Nat) (log : List Entry) (answer : Except Fault Unit) :
    flushesFrom n (log ++ [.flush answer]) =
      flushesFrom n log ++ [(n + (log.filterMap acceptedBy).length, answer)] := by
  induction log generalizing n with
  | nil => rfl
  | cons e log ih =>
    cases e with
    | flush a => simp [flushesFrom, ih, List.filterMap_cons, acceptedBy]
    | read a => simp [flushesFrom, ih, List.filterMap_cons, acceptedBy]
    | write b a => cases a <;> simp [flushesFrom, ih, List.filterMap_cons, acceptedBy, Nat.add_comm, Nat.add_left_comm]

section Asked

variable [Console κ] (r : Recorded κ)

theorem received_read : (Console.read r).2.received = r.received ++ [(Console.read r).1] := by
  simp [received, Console.read, receivedBy]

theorem received_write (b : UInt8) : (Console.write b r).2.received = r.received := by
  simp [received, Console.write, receivedBy]

theorem accepted_flush : (Console.flush r).2.accepted = r.accepted := by
  simp [accepted, Console.flush, acceptedBy]

theorem received_flush : (Console.flush r).2.received = r.received := by
  simp [received, Console.flush, receivedBy]

theorem flushes_flush : (Console.flush r).2.flushes = r.flushes ++ [(r.accepted.length, (Console.flush r).1)] := by
  rw [flushes, flushes, accepted, ← Nat.zero_add (r.log.filterMap acceptedBy).length]
  exact flushesFrom_append 0 r.log _

end Asked

/-! ## Recording changes nothing -/

/-- A turn without its record. -/
def eraseTurn : Turn σ (Recorded κ) → Turn σ κ
  | .going s r => .going s r.console
  | .over result s r => .over result s r.console

/-- A finished run without its record. -/
def eraseFinish (f : Finish σ (Recorded κ)) : Finish σ κ := ⟨f.result, f.state, f.console.console⟩

variable [Console κ]

theorem perform_record (a : Action σ) (r : Recorded κ) : a.perform r.console = eraseTurn (a.perform r) := by
  induction a generalizing r with
  | move s => rfl
  | stop s result => rfl
  | write b s s' =>
    simp only [Action.perform, Console.write]
    rcases Console.write b r.console with ⟨_ | _, k⟩ <;> rfl
  | flush s a ih =>
    have hrest := ih (Console.flush r).2
    simp only [Action.perform, Console.flush] at hrest ⊢
    rcases hk : Console.flush r.console with ⟨_ | _, k⟩
    · rfl
    · rw [hk] at hrest
      exact hrest
  | read s next ih =>
    simp only [Action.perform, Console.read]
    rcases hk : Console.read r.console with ⟨_ | e, k⟩
    · rfl
    · exact ih e ⟨k, r.log ++ [.read (.ok e)]⟩

/-- **A run on a recorded console is the run on the console.** -/
theorem drive_record (step : σ → Action σ) (fuel : Nat) (s : σ) (r : Recorded κ) :
    drive step fuel s r.console = (drive step fuel s r).map eraseFinish := by
  induction fuel generalizing s r with
  | zero => rfl
  | succ fuel ih =>
    have hturn := perform_record (step s) r
    rw [drive, drive, Action.proceed_eq, Action.proceed_eq, hturn]
    rcases (step s).perform r with ⟨s', r'⟩ | ⟨result, s', r'⟩
    · exact ih s' r'
    · rfl

end Recorded
end TapeLang
