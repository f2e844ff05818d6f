import TapeLang.Machine.Run
import TapeLang.Proofs.Ensures
import TapeLang.Proofs.ImageText
import TapeLang.Proofs.Words

/-!
# TapeLang.Proofs.Safety — code from outside

An image may hold any code that passes validation: any jumps, any order of pushes and pops, and any number of
allocations.  On every console such code runs safely.

* `instrOk_newTape`, `instrOk_jump`, `instrOk_const`: validation refuses just the operands that the machine would refuse.
* `Image.Valid`: what validation says of single instructions.
* `Machine.Safe`: what holds before and behind every instruction but the first.  `Machine.ensures_exec` shows it for one
  instruction of any kind.
* **`Image.decode_runs_safely`**: so it holds all along a run, and the run can only end with an error if the console
  refuses something or the stack runs over or dry.
-/

namespace TapeLang

/-! ## Valid code -/

namespace Image

section Valid

variable {size : Nat} {operand : Option Operand} {code : Code}

theorem instrOk_newTape : instrOk size ⟨.newTape, operand⟩ = (Machine.tapeSize? operand).isSome := by
  rcases operand with _ | o
  · rfl
  · cases o with
    | size n =>
      simp only [instrOk, Machine.tapeSize?]
      by_cases h : 0 < n ∧ n ≤ sizeLimit
      · simp [h]
      · rw [if_neg h]
        simpa using h
    | _ => rfl

theorem instrOk_jump : instrOk size ⟨.jump, operand⟩ = (Machine.target? size operand).isSome := by
  rcases operand with _ | o
  · rfl
  · cases o with
    | jump t =>
      simp only [instrOk, Machine.target?]
      by_cases h : t < size <;> simp [h]
    | _ => rfl

theorem instrOk_jumpIfTrue : instrOk size ⟨.jumpIfTrue, operand⟩ = (Machine.target? size operand).isSome := by
  rw [← instrOk_jump]
  rcases operand with _ | o
  · rfl
  · cases o <;> rfl

theorem instrOk_const : instrOk size ⟨.const, operand⟩ = true ↔ ∃ v, operand = some (.int v) := by
  rcases operand with _ | o
  · simp [instrOk]
  · cases o <;> simp [instrOk]

/-- Code whose first instruction allocates a tape, and whose instructions have the operands that they want. -/
structure Valid (code : Code) : Prop where
  entry : ∃ operand, code.instrs[0]? = some ⟨.newTape, operand⟩
  operands : ∀ (i : Nat) (x : Instr), code.instrs[i]? = some x → instrOk code.size x = true

theorem valid_of_validate (h : validate code = .ok ()) : Valid code := by
  unfold validate at h
  simp only [bind, Except.bind, pure, Except.pure, throw, throwThe, MonadExceptOf.throw] at h
  split at h
  next n hsize =>
    have hentry : ∃ operand, code.instrs[0]? = some ⟨.newTape, operand⟩ := by
      unfold Code.tapeSize? at hsize
      split at hsize
      next heq => exact ⟨_, heq⟩
      next => cases hsize
    split at h
    · cases h
    · split at h
      · cases h
      · split at h
        · cases h
        · rename_i hnone
          refine ⟨hentry, fun i x hx => ?_⟩
          have hmem : (x, i) ∈ code.instrs.toList.zipIdx := by
            rw [List.mem_zipIdx_iff_getElem?, Array.getElem?_toList]
            exact hx
          simpa using List.find?_eq_none.mp hnone (x, i) hmem
  next => cases h

end Valid
end Image

/-! ## One instruction -/

namespace Machine

section OneInstruction

/-- A machine with a tape of a valid size, a stack that is not too deep, and an instruction to go to. -/
structure Safe (size : Nat) (m : Machine) : Prop where
  ip_le : m.ip ≤ size
  depth_le : m.stack.length ≤ maxDepth
  tape : ∃ t, m.tape = some t ∧ 1 ≤ t.capacity ∧ t.capacity ≤ sizeLimit ∧ t.pointer < t.capacity

/-- Only these errors are left: a refusal of the console, and a stack that runs over or dry. -/
def Tolerated (e : Error) : Prop :=
  (∃ w, e = .io w) ∨ ∃ w, e = .internal w ∧ (w.message = "Stack underflow" ∨ w.message = "Stack overflow")

/-- A safe machine that has stopped with an outcome or a tolerated error. -/
def SafeEnd (size : Nat) (result : Except Error Outcome) (m : Machine) : Prop :=
  Safe size m ∧ ∀ e, result = .error e → Tolerated e

/-- Whatever the console answers, the machine stays safe. -/
def StaysSafe (size : Nat) (a : Action Machine) (log : List Entry) : Prop :=
  a.Ensures (fun m _ => Safe size m) (fun result m _ => SafeEnd size result m) log

variable {size : Nat} {m : Machine} {log : List Entry}

theorem lt_of_target? {operand : Option Operand} {t : Nat} (h : target? size operand = some t) : t < size := by
  unfold target? at h
  split at h
  · split at h
    next hlt => cases h; exact hlt
    next => cases h
  · cases h

theorem of_tapeSize? {operand : Option Operand} {n : Nat} (h : tapeSize? operand = some n) :
    0 < n ∧ n ≤ sizeLimit := by
  unfold tapeSize? at h
  split at h
  · split at h
    next hlimits => cases h; exact hlimits
    next => cases h
  · cases h

theorem Safe.refused (hm : Safe size m) (w : Fault) : SafeEnd size (.error (.io w)) m := by
  refine ⟨hm, fun e he => ?_⟩
  cases he
  exact .inl ⟨w, rfl⟩

theorem Safe.underflow (hm : Safe size m) : StaysSafe size (m.fail .stackUnderflow) log := by
  refine ⟨hm, fun e he => ?_⟩
  cases he
  exact .inr ⟨_, rfl, .inl rfl⟩

theorem Safe.finish (hm : Safe size m) : StaysSafe size m.finish log :=
  ⟨⟨hm, fun _ he => (nomatch he)⟩, hm.refused⟩

theorem Safe.push (hm : Safe size m) (v : Int64) : StaysSafe size (m.push v) log := by
  unfold Machine.push
  split
  next hfull =>
    refine ⟨hm, fun e he => ?_⟩
    cases he
    exact .inr ⟨_, rfl, .inr rfl⟩
  next hroom =>
    have hdepth : (v :: m.stack).length ≤ maxDepth := Nat.lt_of_not_le hroom
    exact ⟨hm.ip_le, hdepth, hm.tape⟩

/-- Values may be taken from the stack. -/
theorem Safe.drop (hm : Safe size m) {rest : List Int64} (h : rest.length ≤ m.stack.length) :
    Safe size { m with stack := rest } :=
  ⟨hm.ip_le, Nat.le_trans h hm.depth_le, hm.tape⟩

theorem Safe.binary (hm : Safe size m) (f : Int64 → Int64 → Int64) : StaysSafe size (m.binary f) log := by
  unfold Machine.binary
  split
  next b a rest hstack =>
    have hle : rest.length ≤ m.stack.length := by rw [hstack]; simp only [List.length_cons]; omega
    exact (hm.drop hle).push (f a b)
  next =>
    have hle : ([] : List Int64).length ≤ m.stack.length := Nat.zero_le _
    exact (hm.drop hle).underflow

/-- Another tape may be taken, of a valid size. -/
theorem Safe.withTape (hm : Safe size m) {t : Tape} (ht : t.capacity ≤ sizeLimit) :
    Safe size { m with tape := some t } :=
  ⟨hm.ip_le, hm.depth_le, t, rfl, t.capacity_pos, ht, t.pointer_lt⟩

theorem Safe.goTo (hm : Safe size m) {ip : Nat} (h : ip ≤ size) : Safe size { m with ip := ip } :=
  ⟨h, hm.depth_le, hm.tape⟩

/-- **One instruction** of any kind, whose operand is as it should be. -/
theorem ensures_exec (hm : Safe size m) {x : Instr} (hx : Image.instrOk size x = true) :
    StaysSafe size (exec size x m) log := by
  obtain ⟨t, htape, -, hsize, -⟩ := hm.tape
  have hpop {v : Int64} {rest : List Int64} (hstack : m.stack = v :: rest) : Safe size { m with stack := rest } :=
    hm.drop (by rw [hstack]; exact Nat.le_succ _)
  obtain ⟨opcode, operand⟩ := x
  cases opcode with
  | newTape =>
    rw [Image.instrOk_newTape] at hx
    obtain ⟨n, hn⟩ := Option.isSome_iff_exists.mp hx
    obtain ⟨hpos, hlimit⟩ := of_tapeSize? hn
    simp only [exec, hn]
    exact hm.withTape (by rw [Tape.capacity_blank hpos]; exact hlimit)
  | loadPtr =>
    simp only [exec, htape]
    exact hm.push _
  | storePtr =>
    obtain ⟨ip, stack, tape, c⟩ := m
    cases htape
    rcases stack with _ | ⟨v, rest⟩
    · exact hm.underflow
    · exact (hpop rfl).withTape hsize
  | loadCell =>
    simp only [exec, htape]
    exact hm.push _
  | storeCell =>
    obtain ⟨ip, stack, tape, c⟩ := m
    cases htape
    rcases stack with _ | ⟨v, rest⟩
    · exact hm.underflow
    · exact (hpop rfl).withTape (by rw [Tape.store, Tape.capacity_set]; exact hsize)
  | const =>
    obtain ⟨v, rfl⟩ := Image.instrOk_const.mp hx
    exact hm.push v
  | dup =>
    simp only [exec]
    split
    · exact hm.push _
    · exact hm.underflow
  | add => exact hm.binary _
  | sub => exact hm.binary _
  | eq => exact hm.binary _
  | write =>
    simp only [exec]
    split
    next v rest hstack => exact ⟨hpop hstack, (hpop hstack).refused⟩
    next => exact hm.underflow
  | read =>
    refine ⟨⟨fun e => ?_, hm.refused⟩, hm.refused⟩
    cases e with
    | byte b => exact hm.push _
    | cancel => exact Safe.push (m := { m with cancelled := true }) ⟨hm.ip_le, hm.depth_le, hm.tape⟩ _
  | jump =>
    rw [Image.instrOk_jump] at hx
    obtain ⟨i, hi⟩ := Option.isSome_iff_exists.mp hx
    simp only [exec, hi]
    exact hm.goTo (Nat.le_of_lt (lt_of_target? hi))
  | jumpIfTrue =>
    rw [Image.instrOk_jumpIfTrue] at hx
    obtain ⟨i, hi⟩ := Option.isSome_iff_exists.mp hx
    simp only [exec, hi]
    split
    next v rest hstack =>
      refine (hpop hstack).goTo ?_
      split
      · exact hm.ip_le
      · exact Nat.le_of_lt (lt_of_target? hi)
    next => exact hm.underflow
  | ret => exact hm.finish

end OneInstruction

/-! ## Whole runs -/

section Runs

variable {code : Code}

theorem keeps_safe (hvalid : Image.Valid code) :
    Keeps (step code) (fun m _ => Safe code.size m) fun result m _ => SafeEnd code.size result m := by
  intro m log hm
  unfold step
  split
  next x hx =>
    have hlt : m.ip < code.size := (Array.getElem?_eq_some_iff.mp hx).1
    exact ensures_exec (hm.goTo hlt) (hvalid.operands m.ip x hx)
  next => exact hm.finish

/-- The first instruction allocates a tape. -/
theorem step_start (hvalid : Image.Valid code) : ∃ m, step code start = .move m ∧ Safe code.size m := by
  obtain ⟨operand, hentry⟩ := hvalid.entry
  have hok := hvalid.operands 0 _ hentry
  rw [Image.instrOk_newTape] at hok
  obtain ⟨n, hn⟩ := Option.isSome_iff_exists.mp hok
  obtain ⟨hpos, hlimit⟩ := of_tapeSize? hn
  have hlt : 0 < code.size := (Array.getElem?_eq_some_iff.mp hentry).1
  refine ⟨⟨1, [], some (.blank n), false⟩, ?_, hlt, Nat.zero_le _, .blank n, rfl, Tape.capacity_pos _, ?_,
    (Tape.blank n).pointer_lt⟩
  · rw [start, step_eq_exec hentry]
    simp only [exec, hn]
  · rw [Tape.capacity_blank hpos]
    exact hlimit

variable {κ : Type} [Console κ] {k k' : κ} {m : Machine} {n : Nat}

theorem safe_of_steps (hvalid : Image.Valid code) (h : Steps (step code) (n + 1) start k m k') : Safe code.size m := by
  obtain ⟨m₁, hfirst, hsafe⟩ := step_start hvalid
  cases h with
  | turn hturn hrest =>
    rw [hfirst] at hturn
    cases hturn
    obtain ⟨r, hrest, -⟩ := Steps.recorded (r := Recorded.record k) hrest
    exact (keeps_safe hvalid).steps hrest hsafe

theorem safeEnd_of_ends (hvalid : Image.Valid code) {f : Finish Machine κ} (h : Ends (step code) start k f) :
    SafeEnd code.size f.result f.state := by
  obtain ⟨m₁, hfirst, hsafe⟩ := step_start hvalid
  have hturn : (step code start).perform k = .going m₁ k := by rw [hfirst]; rfl
  obtain ⟨f', hf', rfl⟩ := Ends.recorded (r := Recorded.record k) ((Steps.single hturn).ends_iff.mp h)
  exact (keeps_safe hvalid).ends hf' hsafe

end Runs
end Machine

/-! ## Images -/

namespace Image

theorem valid_of_decode {text path : String} {code : Code} (h : decode text path = .ok code) : Valid code := by
  unfold decode at h
  cases hd : decodeText text.toList with
  | error why => rw [hd] at h; cases h
  | ok c =>
    rw [hd] at h
    cases h
    exact valid_of_validate (of_decodeText hd).2

/-- **Code from an image runs safely.**  Take any text that is read as code, and run the code on any console, on a machine
in any state.  From the first step on there is a tape of a valid size with its pointer on it, and never is the stack too
deep or the next instruction behind the end.  If the run ends with an error, then the console refused something, or the
stack ran over or dry. -/
theorem decode_runs_safely {text path : String} {code : Code} (h : decode text path = .ok code) (m₀ : Machine)
    {κ : Type} [Console κ] (k : κ) :
    (∀ n m k', Steps (Machine.step code) n Machine.start k m k' →
      m.ip ≤ code.size ∧ m.stack.length ≤ Machine.maxDepth ∧ (1 ≤ n → Machine.Safe code.size m)) ∧
    (∀ fuel, m₀.execute fuel code k = none → ∃ m k', Steps (Machine.step code) fuel Machine.start k m k') ∧
    ∀ fuel f, m₀.execute fuel code k = some f →
      (∃ n m k', Steps (Machine.step code) n Machine.start k m k' ∧
        (Machine.step code m).perform k' = .over f.result f.state f.console) ∧
      Machine.Safe code.size f.state ∧ ∀ e, f.result = .error e → Machine.Tolerated e := by
  have hvalid := valid_of_decode h
  refine ⟨fun n m k' hsteps => ?_, fun fuel hnone => ?_, fun fuel f hsome => ?_⟩
  · cases n with
    | zero =>
      cases hsteps
      exact ⟨Nat.zero_le _, Nat.zero_le _, fun hn => absurd hn (by decide)⟩
    | succ n =>
      have hsafe := Machine.safe_of_steps hvalid hsteps
      exact ⟨hsafe.ip_le, hsafe.depth_le, fun _ => hsafe⟩
  · rw [Machine.execute_eq_drive] at hnone
    exact steps_of_drive_eq_none hnone
  · rw [Machine.execute_eq_drive] at hsome
    obtain ⟨n, m, k', -, hsteps, hover⟩ := steps_of_drive_eq_some hsome
    exact ⟨⟨n, m, k', hsteps, hover⟩, Machine.safeEnd_of_ends hvalid ⟨fuel, hsome⟩⟩

/-- Code that goes back to its start, allocates another tape there, and runs dry. -/
theorem decode_runs_safely_underflow :
    ∃ (code : Code) (f : Finish Machine (Script × Sink)),
      code = ⟨#[⟨.newTape, some (.size 3)⟩, .plain .read, ⟨.jumpIfTrue, some (.jump 0)⟩, .plain .storePtr]⟩ ∧
      decode (encode code) "a.twx" = .ok code ∧
      Machine.start.execute 20 code (Script.ofBytes [5, 0], {}) = some f ∧
      f.result = .error (.internal .stackUnderflow) ∧ Machine.Safe code.size f.state ∧
      Machine.Tolerated (.internal .stackUnderflow) := by
  let code : Code := ⟨#[⟨.newTape, some (.size 3)⟩, .plain .read, ⟨.jumpIfTrue, some (.jump 0)⟩, .plain .storePtr]⟩
  have hfits : code.Fits := by
    intro x hx o ho
    simp only [code, List.mem_cons, List.not_mem_nil, or_false] at hx
    rcases hx with rfl | rfl | rfl | rfl
    · cases ho; exact (by decide : 3 < Json.maxCount)
    · cases ho
    · cases ho; exact (by decide : 0 < Json.maxCount)
    · cases ho
  have hdecode : decode (encode code) "a.twx" = .ok code := by
    rw [decode, decodeText_encode hfits]
    rfl
  have hrun : (Machine.start.execute 20 code (Script.ofBytes [5, 0], ({} : Sink))).map (·.result) =
      some (.error (.internal .stackUnderflow)) := by
    rw [Machine.execute_eq_drive]
    rfl
  obtain ⟨f, hf, hresult⟩ := Option.map_eq_some_iff.mp hrun
  obtain ⟨-, hsafe, herror⟩ := (decode_runs_safely hdecode Machine.start (Script.ofBytes [5, 0], ({} : Sink))).2.2 20 f hf
  exact ⟨code, f, rfl, hdecode, hf, hresult, hsafe, herror _ hresult⟩

end Image
end TapeLang
