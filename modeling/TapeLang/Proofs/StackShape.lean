import TapeLang.Proofs.Agreement
import TapeLang.Proofs.Ensures

/-!
# TapeLang.Proofs.StackShape — the stack of compiled code

Code may use the stack as it likes, but the code of a program uses it in one way only.  What is on the stack is told by
the next instruction, the tape and the last word read.

* `Op.stacks`: the stacks before the instructions of one operator.
* `Program.InCode`: a machine that is somewhere in the code of a program, with the stack that belongs there.  It stays so
  (`keeps_sound`): from one instruction of an operator to the next (`step_inner`), and from the last one to the first one
  of another operator, or to the end.
* `Program.Disciplined`: what that says of the depth of the stack, of its values, and of a cancelled run.
* **`Program.compiled_disciplined`**: it holds of every state in every run of compiled code, and no such run ends with an
  internal error.
-/

namespace TapeLang

/-! ## Stacks inside of operators -/

/-- The stacks before the instructions of an operator, on a tape; an input operator has read the word `w`. -/
def Op.stacks (t : Tape) (w : Int64) : Op → List (List Int64)
  | right => [[], [.ofNat t.pointer], [1, .ofNat t.pointer], [.ofNat t.pointer + 1]]
  | left => [[], [.ofNat t.pointer], [1, .ofNat t.pointer], [.ofNat t.pointer - 1]]
  | increment => [[], [.ofNat t.cell.toNat], [1, .ofNat t.cell.toNat], [.ofNat t.cell.toNat + 1]]
  | decrement => [[], [.ofNat t.cell.toNat], [1, .ofNat t.cell.toNat], [.ofNat t.cell.toNat - 1]]
  | output => [[], [.ofNat t.cell.toNat]]
  | input => [[], [w], [w, w], [-1, w, w], [if w = -1 then 1 else 0, w], [w]]
  | loopOpen =>
    [[], [.ofNat t.cell.toNat], [0, .ofNat t.cell.toNat], [if Int64.ofNat t.cell.toNat = 0 then 1 else 0]]
  | loopClose => [[]]

/-- The stack before one instruction of an operator. -/
def Op.stackAt (o : Op) (t : Tape) (w : Int64) (n : Nat) : List Int64 := (o.stacks t w)[n]?.getD []

/-- A read was answered with a cancellation. -/
def Cancelled (log : List Entry) : Prop := .read (.ok .cancel) ∈ log

namespace Program

variable {p : Program} {i n cells : Nat} {o : Op} {t : Tape} {w : Int64} {c : Bool} {log : List Entry}

/-- What the word that was read, if any, has to do with a cancellation: behind one the machine is still in the code of the
input operator, in front of the store. -/
def Observed (o : Op) (n : Nat) (w : Int64) (c : Bool) : Prop :=
  (c = true ∧ o = .input ∧ 0 < n ∧ n < 5 ∧ w = -1) ∨ (c = false ∧ ∃ b : UInt8, w = .ofNat b.toNat)

/-- A machine in the code of a program, with the stack that belongs there. -/
inductive InCode (p : Program) (cells : Nat) : Machine → Prop
  | entry : InCode p cells .start
  | amid {i n : Nat} {o : Op} {t : Tape} {w : Int64} {c : Bool} : p.op? i = some o → n < o.width →
      t.capacity = cells → Observed o n w c → InCode p cells ⟨p.address i + n, o.stackAt t w n, some t, c⟩
  | exit {t : Tape} {c : Bool} : t.capacity = cells → InCode p cells ⟨p.exit, if c then [-1] else [], some t, c⟩

/-- From one instruction of an operator to the next one. -/
theorem step_inner (ho : p.op? i = some o) (hn : n + 1 < o.width) (hinput : o = .input → n ≠ 0 ∧ n ≠ 4) :
    Machine.step (p.code cells) ⟨p.address i + n, o.stackAt t w n, some t, c⟩ =
      .move ⟨p.address i + (n + 1), o.stackAt t w (n + 1), some t, c⟩ := by
  have hinstr : (p.code cells).instrs[p.address i + n]? = (p.linkedCode (i, o))[n]? :=
    getElem?_code ho (Nat.lt_of_succ_lt hn)
  cases o with
  | right | left | increment | decrement | loopOpen =>
    simp only [Op.width] at hn
    rcases n with _ | _ | _ | n
    · exact Machine.step_eq_exec hinstr ..
    · exact Machine.step_eq_exec hinstr ..
    · exact Machine.step_eq_exec hinstr ..
    · omega
  | output =>
    simp only [Op.width] at hn
    rcases n with _ | n
    · exact Machine.step_eq_exec hinstr ..
    · omega
  | input =>
    simp only [Op.width] at hn
    rcases n with _ | _ | _ | _ | _ | n
    · exact absurd rfl (hinput rfl).1
    · exact Machine.step_eq_exec hinstr ..
    · exact Machine.step_eq_exec hinstr ..
    · exact Machine.step_eq_exec hinstr ..
    · exact absurd rfl (hinput rfl).2
    · omega
  | loopClose =>
    simp only [Op.width] at hn
    omega

/-- The last instruction of an operator that stores something: to the code behind. -/
theorem step_store (cells : Nat) (t : Tape) (w : Int64) (c : Bool) (ho : p.op? i = some o) (hn : n + 1 = o.width)
    (hstore : o ≠ .output ∧ o ≠ .loopOpen ∧ o ≠ .loopClose) :
    ∃ t' : Tape, t'.capacity = t.capacity ∧
      Machine.step (p.code cells) ⟨p.address i + n, o.stackAt t w n, some t, c⟩ =
        .move ⟨p.address (i + 1), [], some t', c⟩ := by
  have hinstr : (p.code cells).instrs[p.address i + n]? = (p.linkedCode (i, o))[n]? :=
    getElem?_code ho (Nat.lt_of_succ_le (Nat.le_of_eq hn))
  rw [address_of_op? ho, ← hn]
  cases o with
  | right | left =>
    obtain rfl : n = 3 := Nat.succ.inj hn
    exact ⟨t.moveTo _, rfl, Machine.step_eq_exec hinstr ..⟩
  | increment | decrement =>
    obtain rfl : n = 3 := Nat.succ.inj hn
    exact ⟨t.store _, t.capacity_set _, Machine.step_eq_exec hinstr ..⟩
  | input =>
    obtain rfl : n = 5 := Nat.succ.inj hn
    exact ⟨t.store _, t.capacity_set _, Machine.step_eq_exec hinstr ..⟩
  | output => exact absurd rfl hstore.1
  | loopOpen => exact absurd rfl hstore.2.1
  | loopClose => exact absurd rfl hstore.2.2

/-- The branch at the test of a loop. -/
theorem step_test (cells : Nat) (t : Tape) (w : Int64) (c : Bool) {q : Nat} (h : p.Encloses i q) :
    ∃ j, Machine.step (p.code cells) ⟨p.address i + 3, Op.loopOpen.stackAt t w 3, some t, c⟩ =
      .move ⟨p.address j, [], some t, c⟩ := by
  have hlt : p.address q + 1 < p.exit + 1 := Nat.succ_lt_succ (address_add_width_le_exit h.closes)
  refine ⟨if Int64.ofNat t.cell.toNat = 0 then q + 1 else i + 1, ?_⟩
  rw [Machine.step_eq_exec (getElem?_code_loopOpen h)]
  simp only [Machine.exec, Machine.target?, size_code, if_pos hlt]
  by_cases hz : Int64.ofNat t.cell.toNat = 0
  · simp [Op.stackAt, Op.stacks, hz, address_of_op? h.closes, Op.width]
  · simp [Op.stackAt, Op.stacks, hz, address_of_op? h.opens, Op.width]

/-! ## Every step -/

section Steps

/-- A machine in the code of a program that has noted a cancellation just if there was one. -/
def Sound (p : Program) (cells : Nat) (m : Machine) (log : List Entry) : Prop :=
  InCode p cells m ∧ (m.cancelled = true ↔ Cancelled log)

theorem Observed.eq_false (h : Observed o n w c) (hn : o = .input → n = 0 ∨ 5 ≤ n) : c = false := by
  rcases h with ⟨-, ho, hpos, hlt, -⟩ | ⟨hc, -⟩
  · have houtside := hn ho
    omega
  · exact hc

theorem Observed.next (h : Observed o n w c) (hn : o = .input → n ≠ 4) : Observed o (n + 1) w c := by
  rcases h with ⟨hc, ho, hpos, hlt, hw⟩ | h
  · have hne := hn ho
    exact .inl ⟨hc, ho, by omega, by omega, hw⟩
  · exact .inr h

theorem Observed.first (o : Op) (n : Nat) : Observed o n 0 false := .inr ⟨rfl, 0, rfl⟩

/-- At the code of any position the stack is empty.  A comment has no code, so the next operator is looked for. -/
theorem inCode_machineAt (ht : t.capacity = cells) (i : Nat) : InCode p cells (p.machineAt i t) := by
  have hop {j : Nat} {o : Op} (ho : p.op? j = some o) : InCode p cells (p.machineAt j t) := by
    have hpos : 0 < o.width := by cases o <;> decide
    have hempty : o.stackAt t 0 0 = [] := by cases o <;> rfl
    have hin := InCode.amid ho hpos ht (Observed.first o 0)
    rw [hempty] at hin
    exact hin
  induction hi : p.size - i generalizing i with
  | zero =>
    rw [machineAt, address_of_le (by omega)]
    exact InCode.exit (c := false) ht
  | succ d ih =>
    cases ho : p.op? i with
    | some o => exact hop ho
    | none =>
      have hnext := ih (i + 1) (by omega)
      rw [machineAt, address_of_comment (by omega) ho] at hnext
      exact hnext

theorem sound_machineAt (ht : t.capacity = cells) (i : Nat) (hlog : ¬ Cancelled log) :
    Sound p cells (p.machineAt i t) log :=
  ⟨inCode_machineAt ht i, ⟨fun hc => (nomatch hc), fun hc => absurd hc hlog⟩⟩

theorem cancelled_append {e : Entry} (he : e ≠ .read (.ok .cancel)) : Cancelled (log ++ [e]) ↔ Cancelled log := by
  unfold Cancelled
  rw [List.mem_append, List.mem_singleton]
  exact or_iff_left he.symm

theorem not_cancelled (h : false = true ↔ Cancelled log) : ¬ Cancelled log := fun hc => Bool.noConfusion (h.mpr hc)

theorem not_cancelled_append {e : Entry} (hlog : ¬ Cancelled log) (he : e ≠ .read (.ok .cancel)) :
    ¬ Cancelled (log ++ [e]) :=
  fun hc => hlog ((cancelled_append he).mp hc)

end Steps

/-! ## Depth, values and cancellation -/

section Discipline

/-- A value that compiled code may have on its stack. -/
def Bounded (cells : Nat) (v : Int64) : Prop := -1 ≤ v.toInt ∧ v.toInt ≤ max 256 (cells : Int)

/-- How code of a program uses the stack, in one state of a run. -/
structure Disciplined (p : Program) (cells : Nat) (code : Code) (m : Machine) (log : List Entry) : Prop where
  depth_le : m.stack.length ≤ 3
  /-- At the first instruction of an operator the stack is empty. -/
  fresh : ∀ i o, p.op? i = some o → m.ip = p.address i → m.stack = []
  /-- At the final `ret` it is empty, or holds the word for a cancellation if there was one. -/
  ret : m.ip + 1 = code.size → (m.stack = [] ∧ ¬ Cancelled log) ∨ (m.stack = [-1] ∧ Cancelled log)
  bounded : ∀ v ∈ m.stack, Bounded cells v
  /-- Sum and difference of the two top values are those of whole numbers. -/
  no_wrap : ∀ a b rest, m.stack = b :: a :: rest →
    (a + b).toInt = a.toInt + b.toInt ∧ (a - b).toInt = a.toInt - b.toInt
  /-- Behind a cancellation nothing more is read, written or stored. -/
  quiet : Cancelled log → ∀ x, code.instrs[m.ip]? = some x →
    x.opcode ≠ .read ∧ x.opcode ≠ .write ∧ x.opcode ≠ .storePtr ∧ x.opcode ≠ .storeCell

theorem no_wrap_of_bounded {a b : Int64} (hsize : cells ≤ sizeLimit) (ha : Bounded cells a) (hb : Bounded cells b) :
    (a + b).toInt = a.toInt + b.toInt ∧ (a - b).toInt = a.toInt - b.toInt := by
  unfold Bounded at ha hb
  simp only [sizeLimit] at hsize
  constructor
  · rw [Int64.toInt_add]
    exact Int.bmod_eq_of_le (by omega) (by omega)
  · rw [Int64.toInt_sub]
    exact Int.bmod_eq_of_le (by omega) (by omega)

theorem Observed.bounded (h : Observed o n w c) : Bounded cells w := by
  rcases h with ⟨-, -, -, -, rfl⟩ | ⟨-, b, rfl⟩
  · have hneg : (-1 : Int64).toInt = -1 := by decide
    rw [Bounded, hneg]
    omega
  · have hlt := b.toNat_lt
    rw [Bounded, toInt_ofNat (toNat_le_sizeLimit b)]
    omega

theorem stacks_bounded (ht : t.capacity = cells) (hsize : cells ≤ sizeLimit) (hw : Bounded cells w) (o : Op) :
    ∀ stack ∈ o.stacks t w, stack.length ≤ 3 ∧ ∀ v ∈ stack, Bounded cells v := by
  have hpointer : t.pointer < cells := Nat.lt_of_lt_of_le t.pointer_lt (Nat.le_of_eq ht)
  have hle : t.pointer ≤ sizeLimit := by omega
  have hcell := t.cell.toNat_lt
  have hle' := toNat_le_sizeLimit t.cell
  have h0 : Bounded cells 0 := by rw [Bounded, Int64.toInt_zero]; omega
  have h1 : Bounded cells 1 := by rw [Bounded, Int64.toInt_one]; omega
  have hneg : Bounded cells (-1) := by rw [Bounded, show (-1 : Int64).toInt = -1 by decide]; omega
  have hp : Bounded cells (.ofNat t.pointer) := by rw [Bounded, toInt_ofNat hle]; omega
  have hp1 : Bounded cells (.ofNat t.pointer + 1) := by rw [Bounded, toInt_ofNat_add_one hle]; omega
  have hp2 : Bounded cells (.ofNat t.pointer - 1) := by rw [Bounded, toInt_ofNat_sub_one hle]; omega
  have hc : Bounded cells (.ofNat t.cell.toNat) := by rw [Bounded, toInt_ofNat hle']; omega
  have hc1 : Bounded cells (.ofNat t.cell.toNat + 1) := by rw [Bounded, toInt_ofNat_add_one hle']; omega
  have hc2 : Bounded cells (.ofNat t.cell.toNat - 1) := by rw [Bounded, toInt_ofNat_sub_one hle']; omega
  have hite (q : Prop) [Decidable q] : Bounded cells (if q then 1 else 0) := by
    split
    · exact h1
    · exact h0
  cases o <;> simp [Op.stacks, h0, h1, hneg, hp, hp1, hp2, hc, hc1, hc2, hw, hite]

variable {m : Machine}

theorem disciplined_of_empty (hstack : m.stack = []) (hlog : ¬ Cancelled log) (code : Code) :
    p.Disciplined cells code m log where
  depth_le := by rw [hstack]; exact Nat.zero_le _
  fresh _ _ _ _ := hstack
  ret _ := .inl ⟨hstack, hlog⟩
  bounded v hv := by rw [hstack] at hv; cases hv
  no_wrap a b rest h := by rw [hstack] at h; cases h
  quiet hc := absurd hc hlog

/-- Inside of the code of an operator no other operator begins. -/
theorem eq_zero_of_address_add {j : Nat} {o' : Op} (ho : p.op? i = some o) (hn : n < o.width)
    (ho' : p.op? j = some o') (h : p.address i + n = p.address j) : n = 0 := by
  have hi := address_of_op? ho
  have hj := address_of_op? ho'
  rcases Nat.lt_trichotomy i j with hlt | rfl | hgt
  · have hle : p.address (i + 1) ≤ p.address j := address_mono hlt
    omega
  · omega
  · have hle : p.address (j + 1) ≤ p.address i := address_mono hgt
    have hpos : 0 < o'.width := by cases o' <;> decide
    omega

theorem disciplined_amid (hsize : cells ≤ sizeLimit) (ho : p.op? i = some o) (hn : n < o.width)
    (ht : t.capacity = cells) (hobs : Observed o n w c) (hlog : c = true ↔ Cancelled log) :
    p.Disciplined cells (p.code cells) ⟨p.address i + n, o.stackAt t w n, some t, c⟩ log := by
  have hstack : (o.stackAt t w n).length ≤ 3 ∧ ∀ v ∈ o.stackAt t w n, Bounded cells v := by
    unfold Op.stackAt
    cases hget : (o.stacks t w)[n]? with
    | none => exact ⟨Nat.zero_le _, fun v hv => (nomatch hv)⟩
    | some stack => exact stacks_bounded ht hsize hobs.bounded o stack (List.mem_of_getElem? hget)
  have hexit := address_add_width_le_exit ho
  refine ⟨hstack.1, fun j o' ho' heq => ?_, fun heq => ?_, hstack.2, fun a b rest heq => ?_, fun hc x hx => ?_⟩
  · obtain rfl : n = 0 := eq_zero_of_address_add ho hn ho' heq
    cases o <;> rfl
  · rw [size_code] at heq
    simp only at heq
    omega
  · have hab := hstack.2
    simp only at heq
    rw [heq] at hab
    exact no_wrap_of_bounded hsize (hab a (by simp)) (hab b (by simp))
  · -- a cancellation is only known between the read and the branch of an input operator
    rcases hobs with ⟨-, rfl, hpos, hlt, -⟩ | ⟨hfalse, -⟩
    · simp only at hx
      rw [getElem?_code ho hn] at hx
      rcases n with _ | _ | _ | _ | _ | n
      · omega
      · cases hx; exact ⟨nofun, nofun, nofun, nofun⟩
      · cases hx; exact ⟨nofun, nofun, nofun, nofun⟩
      · cases hx; exact ⟨nofun, nofun, nofun, nofun⟩
      · cases hx; exact ⟨nofun, nofun, nofun, nofun⟩
      · omega
    · subst hfalse
      exact absurd hc (not_cancelled hlog)

/-- The stack at the end of the code. -/
theorem disciplined_end (hlog : c = true ↔ Cancelled log) {ip : Nat} (hip : p.exit ≤ ip) (tape : Option Tape) :
    p.Disciplined cells (p.code cells) ⟨ip, if c then [-1] else [], tape, c⟩ log := by
  have hneg : Bounded cells (-1) := Observed.bounded (.inl ⟨rfl, rfl, Nat.zero_lt_one, by decide, rfl⟩)
  refine ⟨?_, fun j o' ho' heq => ?_, fun _ => ?_, fun v hv => ?_, fun a b rest heq => ?_, fun _ x hx => ?_⟩
  · cases c with
    | true => exact (by decide : 1 ≤ 3)
    | false => exact Nat.zero_le 3
  · have hlt := address_add_width_le_exit ho'
    have hpos : 0 < o'.width := by cases o' <;> decide
    simp only at heq
    omega
  · cases c with
    | true => exact .inr ⟨rfl, hlog.mp rfl⟩
    | false => exact .inl ⟨rfl, not_cancelled hlog⟩
  · cases c with
    | true => rw [List.mem_singleton.mp hv]; exact hneg
    | false => cases hv
  · cases c <;> cases heq
  · have hret : x.opcode = .ret := by
      have hlt : ip < (p.code cells).size := (Array.getElem?_eq_some_iff.mp hx).1
      refine (opcode_eq_ret_iff hx).mpr ?_
      rw [size_code] at hlt ⊢
      simp only
      omega
    rw [hret]
    decide

theorem Sound.disciplined (hsize : cells ≤ sizeLimit) (h : Sound p cells m log) :
    p.Disciplined cells (p.code cells) m log := by
  obtain ⟨hin, hlog⟩ := h
  cases hin with
  | entry => exact disciplined_of_empty rfl (not_cancelled hlog) _
  | amid ho hn ht hobs => exact disciplined_amid hsize ho hn ht hobs hlog
  | exit ht => exact disciplined_end hlog (Nat.le_refl _) _

end Discipline

/-! ## Whole runs -/

section Runs

/-- How a run of compiled code may end: with anything but an internal error. -/
def SoundEnd (p : Program) (cells : Nat) (result : Except Error Outcome) (m : Machine) (log : List Entry) : Prop :=
  (∀ why, result ≠ .error (.internal why)) ∧ p.Disciplined cells (p.code cells) m log

theorem soundEnd_refused {m : Machine} (hstack : m.stack = []) (hlog : ¬ Cancelled log) (why : Fault) {e : Entry}
    (he : e ≠ .read (.ok .cancel)) : SoundEnd p cells (.error (.io why)) m (log ++ [e]) :=
  ⟨fun _ h => (nomatch h), disciplined_of_empty hstack (not_cancelled_append hlog he) _⟩

theorem ensures_read (ho : p.op? i = some .input) (ht : t.capacity = cells) (hlog : ¬ Cancelled log) :
    (Machine.step (p.code cells) (p.machineAt i t)).Ensures (Sound p cells) (SoundEnd p cells) log := by
  have hin {w : Int64} {c : Bool} (hobs : Observed .input 1 w c) : InCode p cells ⟨p.address i + 1, [w], some t, c⟩ :=
    InCode.amid (n := 1) ho (by decide) ht hobs
  have hflushed : ¬ Cancelled (log ++ [.flush (.ok ())]) := not_cancelled_append hlog nofun
  have hstep : Machine.step (p.code cells) (p.machineAt i t) = Machine.exec (p.code cells).size (.plain .read)
      ⟨p.address i + 1, [], some t, false⟩ :=
    Machine.step_eq_exec (getElem?_code_address cells ho) ..
  rw [hstep]
  refine ⟨⟨fun e => ?_, fun why => soundEnd_refused rfl hflushed why nofun⟩,
    fun why => soundEnd_refused rfl hlog why nofun⟩
  cases e with
  | byte b =>
    have hread : ¬ Cancelled (log ++ [.flush (.ok ())] ++ [.read (.ok (.byte b))]) := not_cancelled_append hflushed nofun
    exact ⟨hin (.inr ⟨rfl, b, rfl⟩), fun hc => (nomatch hc), fun hc => absurd hc hread⟩
  | cancel =>
    refine ⟨hin (.inl ⟨rfl, rfl, Nat.zero_lt_one, by decide, rfl⟩), fun _ => ?_, fun _ => rfl⟩
    exact List.mem_append_right _ (List.mem_singleton.mpr rfl)

theorem ensures_branch (ho : p.op? i = some .input) (ht : t.capacity = cells) (hobs : Observed .input 4 w c)
    (hlog : c = true ↔ Cancelled log) :
    (Machine.step (p.code cells) ⟨p.address i + 4, Op.input.stackAt t w 4, some t, c⟩).Ensures (Sound p cells)
      (SoundEnd p cells) log := by
  have hstep := Machine.step_branch cells ho w t c
  rw [show Op.input.stackAt t w 4 = [if w = -1 then 1 else 0, w] from rfl, hstep]
  refine ⟨?_, hlog⟩
  rcases hobs with ⟨rfl, -, -, -, rfl⟩ | ⟨rfl, b, rfl⟩
  · rw [if_pos rfl]
    exact InCode.exit (c := true) ht
  · rw [if_neg (ofNat_toNat_ne_neg_one b)]
    exact InCode.amid (n := 5) ho (by decide) ht (.inr ⟨rfl, b, rfl⟩)

theorem ensures_finish (t : Tape) (hlog : c = true ↔ Cancelled log) :
    (Machine.step (p.code cells) ⟨p.exit, if c then [-1] else [], some t, c⟩).Ensures (Sound p cells)
      (SoundEnd p cells) log := by
  have hend {e : Entry} (he : e ≠ .read (.ok .cancel)) : p.Disciplined cells (p.code cells)
      ⟨p.exit + 1, if c then [-1] else [], some t, c⟩ (log ++ [e]) :=
    disciplined_end (hlog.trans (cancelled_append he).symm) (Nat.le_succ _) _
  rw [Machine.step_eq_exec (getElem?_code_exit p cells)]
  exact ⟨⟨fun _ h => (nomatch h), hend nofun⟩, fun why => ⟨fun _ h => (nomatch h), hend nofun⟩⟩

/-- The last instruction of an operator leads to the code of some position. -/
theorem ensures_last (hcheck : p.check = .ok ()) (ho : p.op? i = some o) (hlast : n + 1 = o.width)
    (ht : t.capacity = cells) (hlog : ¬ Cancelled log) :
    (Machine.step (p.code cells) ⟨p.address i + n, o.stackAt t w n, some t, false⟩).Ensures (Sound p cells)
      (SoundEnd p cells) log := by
  have hstored (hstore : o ≠ .output ∧ o ≠ .loopOpen ∧ o ≠ .loopClose) :
      (Machine.step (p.code cells) ⟨p.address i + n, o.stackAt t w n, some t, false⟩).Ensures (Sound p cells)
        (SoundEnd p cells) log := by
    obtain ⟨t', ht', hstep⟩ := step_store cells t w false ho hlast hstore
    rw [hstep]
    exact sound_machineAt (ht'.trans ht) (i + 1) hlog
  cases o with
  | right | left | increment | decrement | input => exact hstored ⟨nofun, nofun, nofun⟩
  | output =>
    obtain rfl : n = 1 := Nat.succ.inj hlast
    rw [show Op.output.stackAt t w 1 = [.ofNat t.cell.toNat] from rfl, Machine.step_write cells ho t]
    exact ⟨sound_machineAt ht (i + 1) (not_cancelled_append hlog nofun), fun why => soundEnd_refused rfl hlog why nofun⟩
  | loopOpen =>
    obtain rfl : n = 3 := Nat.succ.inj hlast
    obtain ⟨q, he⟩ := exists_close hcheck ho
    obtain ⟨j, hstep⟩ := step_test cells t w false he
    rw [hstep]
    exact sound_machineAt ht j hlog
  | loopClose =>
    obtain rfl : n = 0 := Nat.succ.inj hlast
    obtain ⟨q, he⟩ := exists_open hcheck ho
    have hstep : Machine.step (p.code cells) (p.machineAt i t) = .move (p.machineAt q t) := Machine.step_close he
    rw [machineAt] at hstep
    rw [Nat.add_zero, show Op.loopClose.stackAt t w 0 = [] from rfl, hstep]
    exact sound_machineAt ht q hlog

/-- **Every instruction of compiled code** finds the stack that belongs to it, and leaves the one for the next. -/
theorem ensures_amid (hcheck : p.check = .ok ()) (ho : p.op? i = some o) (hn : n < o.width) (ht : t.capacity = cells)
    (hobs : Observed o n w c) (hlog : c = true ↔ Cancelled log) :
    (Machine.step (p.code cells) ⟨p.address i + n, o.stackAt t w n, some t, c⟩).Ensures (Sound p cells)
      (SoundEnd p cells) log := by
  by_cases hask : o = .input ∧ (n = 0 ∨ n = 4)
  · -- the two instructions of an input operator that ask the console or branch
    obtain ⟨rfl, rfl | rfl⟩ := hask
    · obtain rfl : c = false := hobs.eq_false fun _ => .inl rfl
      exact ensures_read ho ht (not_cancelled hlog)
    · exact ensures_branch ho ht hobs hlog
  · by_cases hlast : n + 1 = o.width
    · have hstores (h : o = .input) : 5 ≤ n := by
        rw [h, Op.width] at hlast
        omega
      obtain rfl : c = false := hobs.eq_false fun h => .inr (hstores h)
      exact ensures_last hcheck ho hlast ht (not_cancelled hlog)
    · have hinput : o = .input → n ≠ 0 ∧ n ≠ 4 := fun h => ⟨fun h0 => hask ⟨h, .inl h0⟩, fun h4 => hask ⟨h, .inr h4⟩⟩
      have hlt : n + 1 < o.width := by omega
      rw [step_inner ho hlt hinput]
      exact ⟨.amid ho hlt ht (hobs.next fun h => (hinput h).2), hlog⟩

theorem keeps_sound (hcheck : p.check = .ok ()) (hpos : 0 < cells) (hsize : cells ≤ sizeLimit) :
    Keeps (Machine.step (p.code cells)) (Sound p cells) (SoundEnd p cells) := by
  rintro m log ⟨hin, hlog⟩
  cases hin with
  | entry =>
    rw [Machine.step_entry p hpos hsize]
    exact sound_machineAt (Tape.capacity_blank hpos) 0 (not_cancelled hlog)
  | amid ho hn ht hobs => exact ensures_amid hcheck ho hn ht hobs hlog
  | exit ht => exact ensures_finish _ hlog

theorem sound_start (p : Program) (cells : Nat) : Sound p cells .start [] :=
  ⟨.entry, fun hc => (nomatch hc), fun hc => (nomatch hc)⟩

/-- **Compiled code never goes wrong.**  A program whose brackets match is compiled for any valid size of the tape, and on
every console the code uses the stack as it should in every state, the last one included, and does not end with an internal
error. -/
theorem compiled_disciplined {p : Program} (hb : Balanced p.chars.toList) {cells : Nat} (hpos : 1 ≤ cells)
    (hsize : cells ≤ sizeLimit) :
    ∃ code, compile cells p = .ok code ∧ ∀ {κ : Type} [Console κ] (k : κ),
      (∀ n m r, Steps (Machine.step code) n Machine.start (Recorded.record k) m r →
        p.Disciplined cells code m r.log) ∧
      ∀ (m₀ : Machine) fuel,
        (m₀.execute fuel code k = (m₀.execute fuel code (Recorded.record k)).map Recorded.eraseFinish) ∧
        ∀ f, m₀.execute fuel code (Recorded.record k) = some f →
          (∀ why, f.result ≠ .error (.internal why)) ∧ p.Disciplined cells code f.state f.console.log := by
  have hcheck : p.check = .ok () := check_eq_ok_iff_balanced.mpr hb
  refine ⟨p.code cells, Assembler.compile_eq_ok hcheck _, ?_⟩
  intro κ _ k
  have hkeeps := keeps_sound hcheck hpos hsize
  refine ⟨fun n m r hsteps => ?_, fun m₀ fuel => ⟨?_, fun f hf => ?_⟩⟩
  · exact (hkeeps.steps hsteps (sound_start p cells)).disciplined hsize
  · rw [Machine.execute_eq_drive, Machine.execute_eq_drive]
    exact Recorded.drive_record _ fuel _ (Recorded.record k)
  · rw [Machine.execute_eq_drive] at hf
    exact hkeeps.ends ⟨fuel, hf⟩ (sound_start p cells)

/-- One byte is echoed, and then input is cancelled in the middle of the loop. -/
theorem compiled_disciplined_echo :
    ∃ code f, compile 4 ⟨#[',', '[', '#', '.', ',', ']']⟩ = .ok code ∧
      Machine.start.execute 40 code (Recorded.record (Script.ofBytes [104], ({} : Sink))) = some f ∧
      (f.result, f.state.stack) = (.ok .cancelled, [-1]) ∧
      Disciplined ⟨#[',', '[', '#', '.', ',', ']']⟩ 4 code f.state f.console.log := by
  have hbody : Balanced ['#', '.', ','] :=
    .other (by decide) (by decide) (.other (by decide) (by decide) (.other (by decide) (by decide) .nil))
  obtain ⟨code, hcompile, hruns⟩ := compiled_disciplined (p := ⟨#[',', '[', '#', '.', ',', ']']⟩)
    (.other (by decide) (by decide) (.loop hbody .nil)) (show 1 ≤ 4 by decide) (by decide)
  have hrun : ((compile 4 ⟨#[',', '[', '#', '.', ',', ']']⟩).toOption.bind fun code =>
      (Machine.start.execute 40 code (Recorded.record (Script.ofBytes [104], ({} : Sink)))).map
        fun f => (f.result, f.state.stack)) = some (.ok .cancelled, [-1]) := rfl
  rw [hcompile] at hrun
  obtain ⟨f, hf, hend⟩ := Option.map_eq_some_iff.mp hrun
  exact ⟨code, f, hcompile, hf, hend, ((hruns _).2 Machine.start 40).2 f hf |>.2⟩

end Runs
end Program
end TapeLang
