import TapeLang.Machine.Run
import TapeLang.Proofs.Layout
import TapeLang.Proofs.Record
import TapeLang.Proofs.Structured
import TapeLang.Proofs.Words

/-!
# TapeLang.Proofs.Agreement — two ways to run a program

A program can be interpreted, and it can be compiled and run by the stack machine.  Both ask the same of the console and
leave the same tape.  Only where input is cancelled they differ: the interpreter stops at once, and code goes to its end
and flushes once more.

* `Program.machineAt`: the machine that is about to run the code of the operator at a position, on a given tape.
* `Machine.moves_open`, `Machine.moves_close`, `Machine.matches_command`: what the code of a bracket or a command does,
  in the words of the interpreter's turns.
* `simulation`: every turn of the interpreter is a number of turns of the machine; comments are none.
* `Interpreter.agrees_with_code`: the two runs agree, question by question.
-/

namespace TapeLang

/-- The machine about to run the code of the operator at a position. -/
def Program.machineAt (p : Program) (i : Nat) (t : Tape) : Machine := ⟨p.address i, [], some t, false⟩

/-- What code comes to, where the interpreter comes to a result on a console: behind a cancellation there is one more
flush. -/
def flushCancelled {κ : Type} [Console κ] : Except Error Outcome → κ → Except Error Outcome × κ
  | .ok .cancelled, k =>
    match Console.flush k with
    | (.ok (), k) => (.ok .cancelled, k)
    | (.error f, k) => (.error (.io f), k)
  | r, k => (r, k)

namespace Machine

open Program

variable {κ : Type} [Console κ] {p : Program} {i q n cells : Nat} {o : Op} {t : Tape}

/-! ## Moves -/

section Moves

theorem strideAt_address (cells : Nat) (ho : p.op? i = some o) (hw : o.width = 4) :
    (p.code cells).strideAt (p.address i) = Code.strideOf (p.exit + 1) (p.linkedCode (i, o))[0]?
      (p.linkedCode (i, o))[1]? (p.linkedCode (i, o))[2]? (p.linkedCode (i, o))[3]? := by
  rw [Code.strideAt, size_code, getElem?_code_address cells ho, getElem?_code ho (by omega),
    getElem?_code ho (by omega), getElem?_code ho (by omega)]

/-- The test of a loop. -/
theorem moves_open (h : p.Encloses i q) :
    Moves (step (p.code cells)) 4 (p.machineAt i t) (p.machineAt (if t.cell = 0 then q + 1 else i + 1) t) := by
  have htarget : p.place (p.partner i) = p.address (q + 1) := by
    rw [partner, h.partner?_open, Option.getD_some, place, h.closes, address_of_op? h.closes]
    rfl
  have hlt : p.address (q + 1) < p.exit + 1 := Nat.lt_succ_of_le (address_mono (lt_size_of_op? h.closes))
  have hstride : (p.code cells).strideAt (p.address i) = .test 0 (p.address (q + 1)) := by
    rw [strideAt_address cells h.opens rfl]
    simp only [linkedCode, codeOf, htarget]
    exact if_pos hlt
  have hmoves := moves_test hstride t false
  simp only [ofNat_toNat_eq_zero_iff] at hmoves
  rw [machineAt, machineAt, apply_ite p.address, address_of_op? h.opens]
  exact hmoves

/-- The end of a loop: back to the test. -/
theorem step_close (h : p.Encloses i q) : step (p.code cells) (p.machineAt q t) = .move (p.machineAt i t) := by
  have hlt : p.address i < p.exit + 1 := Nat.lt_succ_of_le (address_mono (Nat.le_of_lt (lt_size_of_op? h.opens)))
  refine (step_eq_exec (getElem?_code_loopClose h) ..).trans ?_
  simp only [exec, target?, size_code, if_pos hlt]
  rfl

theorem moves_close (h : p.Encloses i q) :
    Moves (step (p.code cells)) 5 (p.machineAt q t) (p.machineAt (if t.cell = 0 then q + 1 else i + 1) t) :=
  .move (step_close h) (moves_open h)

end Moves

/-! ## Questions -/

section Questions

/-- What code does where the interpreter ends in some way with some tape and console: it goes on behind the operator, or
it ends too. -/
def Matches (p : Program) (cells i : Nat) (t : Tape) (k : κ) (e : Ending) (t' : Tape) (k' : κ) : Prop :=
  match e with
  | .through => ∃ n, Steps (step (p.code cells)) (n + 1) (p.machineAt i t) k (p.machineAt (i + 1) t') k'
  | .early r => ∃ g, Ends (step (p.code cells)) (p.machineAt i t) k g ∧ g.state.tape = some t' ∧
      (g.result, g.console) = flushCancelled r k'

theorem matches_moves {t' : Tape} (ho : p.op? i = some o) (hw : o.width = 4)
    (h : Moves (step (p.code cells)) 4 ⟨p.address i, [], some t, false⟩ ⟨p.address i + 4, [], some t', false⟩) (k : κ) :
    Matches p cells i t k .through t' k := by
  refine ⟨3, .of_moves ?_ k⟩
  rw [machineAt, machineAt, address_of_op? ho, hw]
  exact h

/-- The second instruction of an output operator. -/
theorem step_write (cells : Nat) (ho : p.op? i = some .output) (t : Tape) :
    step (p.code cells) ⟨p.address i + 1, [Int64.ofNat t.cell.toNat], some t, false⟩ =
      .write t.cell (p.machineAt (i + 1) t) (p.machineAt (i + 1) t) := by
  refine (step_eq_exec (getElem?_code ho (by decide)) ..).trans ?_
  show Action.write (wrapCell (Int64.ofNat t.cell.toNat).toInt) _ _ = _
  rw [toInt_ofNat (toNat_le_sizeLimit _), wrapCell_toNat, machineAt, address_of_op? ho]
  rfl

theorem matches_output (ho : p.op? i = some .output) (t : Tape) (k : κ) :
    Matches p cells i t k (Command.output.eval t k).1 (Command.output.eval t k).2.1 (Command.output.eval t k).2.2 := by
  have hload : Moves (step (p.code cells)) 1 (p.machineAt i t)
      ⟨p.address i + 1, [Int64.ofNat t.cell.toNat], some t, false⟩ :=
    .single (step_eq_exec (getElem?_code_address cells ho) ..)
  have hturn := congrArg (Action.perform · k) (step_write cells ho t)
  simp only [Action.perform, Command.eval] at hturn ⊢
  rcases hk : Console.write t.cell k with ⟨_ | _, k'⟩
  · rw [hk] at hturn
    exact ⟨_, (Steps.of_moves hload k).ends_iff.mpr (.of_over hturn), rfl, rfl⟩
  · rw [hk] at hturn
    exact ⟨1, (Steps.of_moves hload k).trans (.single hturn)⟩

/-- The branch of an input operator: to the end if the word is the one that stands for a cancellation. -/
theorem step_branch (cells : Nat) (ho : p.op? i = some .input) (w : Int64) (t : Tape) (c : Bool) :
    step (p.code cells) ⟨p.address i + 4, [if w = -1 then 1 else 0, w], some t, c⟩ =
      .move ⟨if w = -1 then p.exit else p.address i + 5, [w], some t, c⟩ := by
  have hinstr : (p.code cells).instrs[p.address i + 4]? = some ⟨.jumpIfTrue, some (.jump p.exit)⟩ :=
    getElem?_code ho (by decide)
  refine (step_eq_exec hinstr ..).trans ?_
  simp only [exec, target?, size_code, Nat.lt_succ_self, if_true]
  by_cases hw : w = -1 <;> simp [hw]

/-- Behind a read: the word is compared with the one that stands for a cancellation. -/
theorem moves_compare (cells : Nat) (ho : p.op? i = some .input) (w : Int64) (t : Tape) (c : Bool) :
    Moves (step (p.code cells)) 4 ⟨p.address i + 1, [w], some t, c⟩
      ⟨if w = -1 then p.exit else p.address i + 5, [w], some t, c⟩ := by
  have h1 : (p.code cells).instrs[p.address i + 1]? = some (.plain .dup) := getElem?_code ho (by decide)
  have h2 : (p.code cells).instrs[p.address i + 2]? = some (.constant (-1)) := getElem?_code ho (by decide)
  have h3 : (p.code cells).instrs[p.address i + 3]? = some (.plain .eq) := getElem?_code ho (by decide)
  exact .move (step_eq_exec h1 ..) <| .move (step_eq_exec h2 ..) <| .move (step_eq_exec h3 ..) <|
    .single (step_branch cells ho w t c)

theorem moves_store (cells : Nat) (ho : p.op? i = some .input) (b : UInt8) (t : Tape) :
    Moves (step (p.code cells)) 5 ⟨p.address i + 1, [Int64.ofNat b.toNat], some t, false⟩
      (p.machineAt (i + 1) (t.set b)) := by
  have hcompare := moves_compare cells ho (Int64.ofNat b.toNat) t false
  rw [if_neg (ofNat_toNat_ne_neg_one b)] at hcompare
  have h5 : (p.code cells).instrs[p.address i + 5]? = some (.plain .storeCell) := getElem?_code ho (by decide)
  refine hcompare.trans (.single ((step_eq_exec h5 ..).trans ?_))
  rw [← Tape.store_ofNat, machineAt, address_of_op? ho]
  rfl

/-- The final `ret` of code that read a cancellation. -/
theorem ends_cancelled (p : Program) (cells : Nat) (w : Int64) (t : Tape) (k : κ) :
    ∃ g, Ends (step (p.code cells)) ⟨p.exit, [w], some t, true⟩ k g ∧ g.state.tape = some t ∧
      (g.result, g.console) = flushCancelled (.ok .cancelled) k := by
  have hret : step (p.code cells) ⟨p.exit, [w], some t, true⟩ = finish ⟨p.exit + 1, [w], some t, true⟩ :=
    step_eq_exec (getElem?_code_exit p cells) ..
  have hturn := congrArg (Action.perform · k) hret
  simp only [finish, Action.perform, flushCancelled] at hturn ⊢
  rcases hk : Console.flush k with ⟨_ | _, k'⟩ <;> rw [hk] at hturn <;> exact ⟨_, .of_over hturn, rfl, rfl⟩

theorem matches_input (ho : p.op? i = some .input) (t : Tape) (k : κ) :
    Matches p cells i t k (Command.input.eval t k).1 (Command.input.eval t k).2.1 (Command.input.eval t k).2.2 := by
  have hread : step (p.code cells) (p.machineAt i t) =
      exec (p.code cells).size (.plain .read) ⟨p.address i + 1, [], some t, false⟩ :=
    step_eq_exec (getElem?_code_address cells ho) ..
  have hturn := congrArg (Action.perform · k) hread
  simp only [exec, Instr.plain, Action.perform, Command.eval] at hturn ⊢
  rcases hk : Console.flush k with ⟨_ | _, k₁⟩
  · rw [hk] at hturn
    exact ⟨_, .of_over hturn, rfl, rfl⟩
  · rw [hk] at hturn
    simp only at hturn ⊢
    rcases hk' : Console.read k₁ with ⟨_ | _ | _, k₂⟩
    · rw [hk'] at hturn
      exact ⟨_, .of_over hturn, rfl, rfl⟩
    · rename_i b
      rw [hk'] at hturn
      exact ⟨5, (Steps.single hturn).trans (.of_moves (moves_store cells ho b t) k₂)⟩
    · rw [hk'] at hturn
      have hexit := (Steps.single hturn).trans (.of_moves (moves_compare cells ho cancelledValue t true) k₂)
      rw [if_pos (show cancelledValue = -1 from rfl)] at hexit
      obtain ⟨g, hg, htape, hresult⟩ := ends_cancelled p cells cancelledValue t k₂
      exact ⟨g, hexit.ends_iff.mpr hg, htape, hresult⟩

/-- **The code of a command does what the command does.** -/
theorem matches_command (cells : Nat) {c : Command} (ho : p.op? i = some c.op) (ht : t.capacity ≤ sizeLimit) (k : κ) :
    Matches p cells i t k (c.eval t k).1 (c.eval t k).2.1 (c.eval t k).2.2 := by
  cases c with
  | right =>
    have h := moves_pointer (strideAt_address cells ho rfl) t false
    rw [Tape.moveTo_add_one ht] at h
    exact matches_moves ho rfl h k
  | left =>
    have h := moves_pointer (strideAt_address cells ho rfl) t false
    rw [← Int64.sub_eq_add_neg, Tape.moveTo_sub_one ht] at h
    exact matches_moves ho rfl h k
  | increment =>
    have h := moves_cell (strideAt_address cells ho rfl) t false
    rw [Tape.store_add_one] at h
    exact matches_moves ho rfl h k
  | decrement =>
    have h := moves_cell (strideAt_address cells ho rfl) t false
    rw [← Int64.sub_eq_add_neg, Tape.store_sub_one] at h
    exact matches_moves ho rfl h k
  | output => exact matches_output ho t k
  | input => exact matches_input ho t k

theorem ends_exit (cells : Nat) (hi : p.size ≤ i) (t : Tape) (k : κ) :
    ∃ g, Ends (step (p.code cells)) (p.machineAt i t) k g ∧ g.state.tape = some t ∧
      (g.result, g.console) = Block.finalFlush k := by
  have hret : step (p.code cells) (p.machineAt i t) = finish ⟨p.exit + 1, [], some t, false⟩ := by
    rw [machineAt, address_of_le hi]
    exact step_eq_exec (getElem?_code_exit p cells) ..
  have hturn := congrArg (Action.perform · k) hret
  simp only [finish, Action.perform, Block.finalFlush] at hturn ⊢
  rcases hk : Console.flush k with ⟨_ | _, k'⟩ <;> rw [hk] at hturn <;> exact ⟨_, .of_over hturn, rfl, rfl⟩

end Questions
end Machine

/-! ## Simulation -/

section Simulation

open Program

variable {κ : Type} [Console κ]

theorem Command.capacity_eval (c : Command) (t : Tape) (k : κ) : (c.eval t k).2.1.capacity = t.capacity := by
  cases c with
  | right => exact t.capacity_right
  | left => exact t.capacity_left
  | increment => exact t.capacity_set _
  | decrement => exact t.capacity_set _
  | output =>
    simp only [Command.eval]
    rcases Console.write t.cell k with ⟨_ | _, k'⟩ <;> rfl
  | input =>
    simp only [Command.eval]
    rcases Console.flush k with ⟨_ | _, k₁⟩
    · rfl
    · simp only
      rcases Console.read k₁ with ⟨_ | _ | _, k₂⟩
      · rfl
      · exact t.capacity_set _
      · rfl

/-- The results that a run may come to. -/
def Expected (r : Except Error Outcome) : Prop := r = .ok .halted ∨ r = .ok .cancelled ∨ ∃ f, r = .error (.io f)

theorem Command.expected_eval {c : Command} {t t' : Tape} {k k' : κ} {r : Except Error Outcome}
    (h : c.eval t k = (.early r, t', k')) : Expected r := by
  cases c with
  | output =>
    simp only [Command.eval] at h
    rcases hk : Console.write t.cell k with ⟨f | _, k₁⟩ <;> rw [hk] at h <;> cases h
    exact .inr (.inr ⟨f, rfl⟩)
  | input =>
    simp only [Command.eval] at h
    rcases hk : Console.flush k with ⟨f | _, k₁⟩ <;> rw [hk] at h
    · cases h
      exact .inr (.inr ⟨f, rfl⟩)
    · simp only at h
      rcases hk' : Console.read k₁ with ⟨f | _ | _, k₂⟩ <;> rw [hk'] at h <;> cases h
      · exact .inr (.inr ⟨f, rfl⟩)
      · exact .inr (.inl rfl)
  | _ => cases h

theorem expected_finalFlush (k : κ) : Expected (Block.finalFlush k).1 := by
  rw [Block.finalFlush]
  rcases Console.flush k with ⟨f | _, k₁⟩
  · exact .inr (.inr ⟨f, rfl⟩)
  · exact .inl rfl

theorem flushCancelled_finalFlush (k : κ) :
    flushCancelled (Block.finalFlush k).1 (Block.finalFlush k).2 = Block.finalFlush k := by
  rw [Block.finalFlush]
  rcases Console.flush k with ⟨f | _, k₁⟩ <;> rfl

/-- An interpreter and a machine at the same place of a program, with the same tape. -/
def SamePlace (m s : Interpreter) (u : Machine) : Prop :=
  ∃ i t, s = m.goTo i t ∧ u = m.program.machineAt i t ∧ i ≤ m.program.size ∧ t.capacity ≤ sizeLimit

/-- An end of an interpreter's run and one of a machine's run that go together. -/
def SameEnd (f : Finish Interpreter κ) (g : Finish Machine κ) : Prop :=
  g.state.tape = some f.state.tape ∧ (g.result, g.console) = flushCancelled f.result f.console ∧ Expected f.result

variable {m : Interpreter} {cells i q : Nat} {t : Tape} {k : κ}

theorem going_command (cells : Nat) {c : Command} (ho : m.program.op? i = some c.op) (ht : t.capacity ≤ sizeLimit)
    {s : Interpreter} {k' : κ} (hp : (Interpreter.step (m.goTo i t)).perform k = .going s k') :
    ∃ n u, Steps (Machine.step (m.program.code cells)) (n + 1) (m.program.machineAt i t) k u k' ∧ SamePlace m s u := by
  have hcode := Machine.matches_command cells ho ht k
  have hcapacity := c.capacity_eval t k
  rw [Interpreter.perform_command ho] at hp
  rcases heval : c.eval t k with ⟨_ | r, t', k₁⟩ <;> rw [heval] at hp hcode hcapacity <;> cases hp
  obtain ⟨n, hn⟩ := hcode
  exact ⟨n, _, hn, i + 1, t', rfl, rfl, lt_size_of_op? ho, Nat.le_trans (Nat.le_of_eq hcapacity) ht⟩

theorem over_command {c : Command} (ho : m.program.op? i = some c.op) (ht : t.capacity ≤ sizeLimit)
    {s : Interpreter} {r : Except Error Outcome} {k' : κ}
    (hp : (Interpreter.step (m.goTo i t)).perform k = .over r s k') :
    ∃ g, Ends (Machine.step (m.program.code cells)) (m.program.machineAt i t) k g ∧ SameEnd ⟨r, s, k'⟩ g := by
  have hcode := Machine.matches_command cells ho ht k
  rw [Interpreter.perform_command ho] at hp
  rcases heval : c.eval t k with ⟨_ | r', t', k₁⟩ <;> rw [heval] at hp hcode <;> cases hp
  obtain ⟨g, hg, htape, hresult⟩ := hcode
  exact ⟨g, hg, htape, hresult, Command.expected_eval heval⟩

theorem samePlace_loop (he : m.program.Encloses i q) (ht : t.capacity ≤ sizeLimit) :
    SamePlace m (m.goTo (if t.cell = 0 then q + 1 else i + 1) t)
      (m.program.machineAt (if t.cell = 0 then q + 1 else i + 1) t) := by
  refine ⟨_, t, rfl, rfl, ?_, ht⟩
  have hi := lt_size_of_op? he.opens
  have hq := lt_size_of_op? he.closes
  split <;> omega

/-- **Every turn of the interpreter is a number of turns of the machine.**  A comment is no turn at all, and there the
text still to come gets shorter. -/
theorem simulation (hcheck : m.program.check = .ok ()) (cells : Nat) :
    Simulation κ Interpreter.step (Machine.step (m.program.code cells)) (SamePlace m)
      (fun s => m.program.size - s.ip) SameEnd where
  going := by
    rintro s s' u k k' ⟨i, t, rfl, rfl, hi, ht⟩ hp
    rcases op?_cases m.program i with hend | ⟨hlt, ho⟩ | ⟨c, ho⟩ | ho | ho
    · rw [Interpreter.perform_end hend] at hp
      cases hp
    · rw [Interpreter.step_comment hlt ho] at hp
      cases hp
      refine ⟨0, _, .refl _ k, ⟨i + 1, t, rfl, ?_, hlt, ht⟩, fun _ => ?_⟩
      · rw [machineAt, machineAt, address_of_comment hlt ho]
      · show m.program.size - (i + 1) < m.program.size - i
        omega
    · obtain ⟨n, u, hn, hsame⟩ := going_command cells ho ht hp
      exact ⟨n + 1, u, hn, hsame, fun h => absurd h (Nat.succ_ne_zero n)⟩
    · obtain ⟨q, he⟩ := exists_close hcheck ho
      rw [Interpreter.perform_open he] at hp
      cases hp
      exact ⟨4, _, .of_moves (Machine.moves_open he) k, samePlace_loop he ht, fun h => absurd h (by decide)⟩
    · obtain ⟨q, he⟩ := exists_open hcheck ho
      rw [Interpreter.perform_close he] at hp
      cases hp
      exact ⟨5, _, .of_moves (Machine.moves_close he) k, samePlace_loop he ht, fun h => absurd h (by decide)⟩
  ending := by
    rintro s s' u k k' r ⟨i, t, rfl, rfl, hi, ht⟩ hp
    rcases op?_cases m.program i with hend | ⟨hlt, ho⟩ | ⟨c, ho⟩ | ho | ho
    · rw [Interpreter.perform_end hend] at hp
      cases hp
      obtain ⟨g, hg, htape, hresult⟩ := Machine.ends_exit cells hend t k
      exact ⟨g, hg, htape, hresult.trans (flushCancelled_finalFlush k).symm, expected_finalFlush k⟩
    · rw [Interpreter.step_comment hlt ho] at hp
      cases hp
    · exact over_command ho ht hp
    · obtain ⟨q, he⟩ := exists_close hcheck ho
      rw [Interpreter.perform_open he] at hp
      cases hp
    · obtain ⟨q, he⟩ := exists_open hcheck ho
      rw [Interpreter.perform_close he] at hp
      cases hp

end Simulation

/-! ## Whole runs -/

section Whole

open Recorded (record)

variable {κ : Type} [Console κ]

/-- The first instruction allocates the tape. -/
theorem Machine.step_entry (p : Program) {cells : Nat} (h1 : 0 < cells) (h2 : cells ≤ sizeLimit) :
    Machine.step (p.code cells) Machine.start = .move (p.machineAt 0 (.blank cells)) := by
  refine (Machine.step_eq_exec (Program.getElem?_code_zero p cells) ..).trans ?_
  simp only [Machine.exec, Machine.tapeSize?, if_pos (And.intro h1 h2), Program.machineAt, Program.address_zero]

theorem Machine.steps_start (p : Program) {cells : Nat} (h1 : 0 < cells) (h2 : cells ≤ sizeLimit) (k : κ) :
    Steps (Machine.step (p.code cells)) 1 Machine.start k (p.machineAt 0 (.blank cells)) k :=
  .of_moves (.single (Machine.step_entry p h1 h2)) k

theorem Code.run_eq_drive (code : Code) (fuel : Nat) (k : κ) :
    code.run fuel k = drive (Machine.step code) fuel Machine.start k :=
  Machine.execute_eq_drive fuel Machine.start code k

/-- How the ends of two recorded runs agree. -/
structure Agrees (f : Finish Interpreter (Recorded κ)) (g : Finish Machine (Recorded κ)) : Prop where
  /-- The same bytes were taken. -/
  accepted : g.console.accepted = f.console.accepted
  /-- The same answers were read. -/
  received : g.console.received = f.console.received
  /-- The tapes are the same, cells and pointer. -/
  tape : g.state.tape = some f.state.tape
  /-- The interpreter halted, was cancelled, or the console refused something. -/
  expected : Expected f.result
  /-- Without a cancellation the results are the same, and the whole records. -/
  uncancelled : f.result ≠ .ok .cancelled →
    g.result = f.result ∧ g.console = f.console ∧ g.console.flushes = f.console.flushes
  /-- Behind a cancellation there is one more flush, and the result says how it went. -/
  cancelled : f.result = .ok .cancelled → ∃ answer, g.console.log = f.console.log ++ [.flush answer] ∧
    g.console.flushes = f.console.flushes ++ [(f.console.accepted.length, answer)] ∧
    g.result = match answer with
      | .ok () => .ok .cancelled
      | .error why => .error (.io why)

theorem agrees_of_sameEnd {f : Finish Interpreter (Recorded κ)} {g : Finish Machine (Recorded κ)} (h : SameEnd f g) :
    Agrees f g := by
  obtain ⟨r, s, k⟩ := f
  obtain ⟨r', u, k'⟩ := g
  obtain ⟨htape, hresult, hexpected⟩ := h
  by_cases hr : r = .ok .cancelled
  · subst hr
    have hk : k' = (Console.flush k).2 ∧ r' = match (Console.flush k).1 with
        | .ok () => .ok .cancelled
        | .error why => .error (.io why) := by
      simp only [flushCancelled] at hresult
      rcases hk : Console.flush k with ⟨_ | _, k₁⟩ <;> rw [hk] at hresult <;> cases hresult <;> exact ⟨rfl, rfl⟩
    obtain ⟨rfl, rfl⟩ := hk
    exact ⟨k.accepted_flush, k.received_flush, htape, hexpected, fun hne => absurd rfl hne,
      fun _ => ⟨(Console.flush k).1, rfl, k.flushes_flush, rfl⟩⟩
  · have hsame : (r', k') = (r, k) := by
      rcases hexpected with rfl | rfl | ⟨w, rfl⟩
      · exact hresult
      · exact absurd rfl hr
      · exact hresult
    cases hsame
    exact ⟨rfl, rfl, htape, hexpected, fun _ => ⟨rfl, rfl, rfl⟩, fun h => absurd h hr⟩

/-- A machine's run ends just where the interpreter's does. -/
theorem ends_start_iff {m : Interpreter} {source : String} (hcheck : (Program.ofString source).check = .ok ())
    (hsize : m.tape.capacity ≤ sizeLimit) (k : κ) :
    let code := (Program.ofString source).code m.tape.capacity
    (∀ f, Ends Interpreter.step (m.started source) k f →
      ∃ g, Ends (Machine.step code) Machine.start k g ∧ SameEnd f g) ∧
    ∀ g, Ends (Machine.step code) Machine.start k g →
      ∃ f, Ends Interpreter.step (m.started source) k f ∧ SameEnd f g := by
  intro code
  have hsim := simulation (κ := κ) (m := m.started source) hcheck m.tape.capacity
  have hstart := Machine.steps_start (.ofString source) m.tape.capacity_pos hsize k
  have hplace : SamePlace (m.started source) (m.started source)
      ((Program.ofString source).machineAt 0 (.blank m.tape.capacity)) :=
    ⟨0, .blank m.tape.capacity, rfl, rfl, Nat.zero_le _, by rw [Tape.capacity_blank m.tape.capacity_pos]; exact hsize⟩
  constructor
  · intro f hf
    obtain ⟨g, hg, hsame⟩ := hsim.ends hplace hf
    exact ⟨g, hstart.ends_iff.mpr hg, hsame⟩
  · intro g hg
    exact hsim.ends_back hplace (hstart.ends_iff.mp hg)

/-- **The interpreter and compiled code agree.**  A text whose brackets match and that fits the buffer is compiled for
the interpreter's tape.  On every console one run ends if and only if the other does, and the recorded runs, which are
the same runs, agree. -/
theorem Interpreter.agrees_with_code (m : Interpreter) {source : String} (hb : Balanced source.toList)
    (hfit : (Program.ofString source).size ≤ m.config.bufferSize) (hsize : m.tape.capacity ≤ sizeLimit) :
    ∃ code, compile m.tape.capacity (.ofString source) = .ok code ∧
      ∀ {κ : Type} [Console κ] (k : κ),
        ((∃ fuel f, m.run fuel source k = some f) ↔ ∃ fuel g, code.run fuel k = some g) ∧
        (∀ fuel, m.run fuel source k = (m.run fuel source (record k)).map Recorded.eraseFinish) ∧
        (∀ fuel, code.run fuel k = (code.run fuel (record k)).map Recorded.eraseFinish) ∧
        ∀ fuel fuel' f g, m.run fuel source (record k) = some f → code.run fuel' (record k) = some g → Agrees f g := by
  obtain ⟨b, hspans⟩ := spans_ofString hb
  have hcheck := check_eq_ok_iff.mpr ⟨b, hspans⟩
  refine ⟨(Program.ofString source).code m.tape.capacity, Assembler.compile_eq_ok hcheck _, ?_⟩
  intro κ _ k
  refine ⟨?_, fun fuel => ?_, fun fuel => ?_, fun fuel fuel' f g hf hg => ?_⟩
  · obtain ⟨hforward, hback⟩ := ends_start_iff hcheck hsize k
    constructor
    · rintro ⟨fuel, f, hf⟩
      rw [run_eq_map hfit hcheck] at hf
      obtain ⟨f', hf', -⟩ := Option.map_eq_some_iff.mp hf
      obtain ⟨g, ⟨fuel', hg⟩, -⟩ := hforward f' ⟨fuel, hf'⟩
      exact ⟨fuel', g, by rw [Code.run_eq_drive, hg]⟩
    · rintro ⟨fuel, g, hg⟩
      rw [Code.run_eq_drive] at hg
      obtain ⟨f, ⟨fuel', hf⟩, -⟩ := hback g ⟨fuel, hg⟩
      exact ⟨fuel', settle f, by rw [run_eq_map hfit hcheck, hf, Option.map_some]⟩
  · rw [run_eq_map hfit hcheck, run_eq_map hfit hcheck, Option.map_map,
      show k = (record k).console from rfl, Recorded.drive_record, Option.map_map]
    rfl
  · rw [Code.run_eq_drive, Code.run_eq_drive]
    exact Recorded.drive_record _ fuel _ (record k)
  · rw [run_eq_map hfit hcheck] at hf
    rw [Code.run_eq_drive] at hg
    obtain ⟨f', hf', rfl⟩ := Option.map_eq_some_iff.mp hf
    obtain ⟨g', hg', hsame⟩ := (ends_start_iff hcheck hsize (record k)).1 f' ⟨fuel, hf'⟩
    have heq : g' = g := hg'.unique ⟨fuel', hg⟩
    subst heq
    -- settling changes only the phase
    have hsettled : SameEnd (settle f') g' := hsame
    exact agrees_of_sameEnd hsettled

theorem Interpreter.agrees_with_code_echo :
    ∃ code, compile 4 (.ofString (String.ofList [',', '[', '#', '.', ',', ']'])) = .ok code ∧
      ∃ fuel fuel' f g,
        (idle ⟨4, 16⟩).run fuel (String.ofList [',', '[', '#', '.', ',', ']'])
          (record (Script.ofBytes [104, 105], ({} : Sink))) = some f ∧
        code.run fuel' (record (Script.ofBytes [104, 105], ({} : Sink))) = some g ∧
        f.result = .ok .cancelled ∧ Agrees f g := by
  have hbody : Balanced ['#', '.', ','] :=
    .other (by decide) (by decide) (.other (by decide) (by decide) (.other (by decide) (by decide) .nil))
  have hb : Balanced (String.ofList [',', '[', '#', '.', ',', ']']).toList := by
    rw [String.toList_ofList]
    exact .other (by decide) (by decide) (.loop hbody .nil)
  obtain ⟨code, hcompile, hagree⟩ := agrees_with_code (idle ⟨4, 16⟩) hb (by decide) (by decide)
  have hrun : ((idle ⟨4, 16⟩).run 30 (String.ofList [',', '[', '#', '.', ',', ']'])
      (record (Script.ofBytes [104, 105], ({} : Sink)))).map (·.result) = some (.ok .cancelled) := rfl
  obtain ⟨f, hf, hresult⟩ := Option.map_eq_some_iff.mp hrun
  obtain ⟨fuel', g, hg⟩ := (hagree (record (Script.ofBytes [104, 105], ({} : Sink)))).1.mp ⟨30, f, hf⟩
  exact ⟨code, hcompile, 30, fuel', f, g, hf, hg, hresult, (hagree _).2.2.2 _ _ _ _ hf hg⟩

end Whole
end TapeLang
