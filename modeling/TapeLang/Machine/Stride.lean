import TapeLang.Code.Stride
import TapeLang.Cruise
import TapeLang.Machine

/-!
# A machine that takes strides

Where a stride begins and the stack is empty, a machine can take it at once.
-/

namespace TapeLang.Machine

/-- Takes at most `n` strides: the steps taken, with those taken before, the index of the next instruction and the
tape. -/
def glideByStridesFrom (strides : Array Stride) : Nat → Nat → Nat → Tape → Nat × Nat × Tape
  | 0, taken, ip, t => (taken, ip, t)
  | n + 1, taken, ip, t =>
    if h : ip < strides.size then
      match strides[ip] with
      | .pointer delta =>
        glideByStridesFrom strides n (taken + 4) (ip + 4) (t.moveTo (Int64.ofNat t.pointer + delta).toInt)
      | .cell delta =>
        glideByStridesFrom strides n (taken + 4) (ip + 4) (t.store (Int64.ofNat t.cell.toNat + delta).toInt)
      | .test value target =>
        glideByStridesFrom strides n (taken + 4) (if Int64.ofNat t.cell.toNat = value then target else ip + 4) t
      | .jump target => glideByStridesFrom strides n (taken + 1) target t
      | .none => (taken, ip, t)
    else (taken, ip, t)

/-- Takes strides as long as there are any.  A stride takes four steps at most. -/
def glideByStrides (strides : Array Stride) : Glide Machine
  | fuel, ⟨ip, [], some t, cancelled⟩ =>
    let (taken, ip, t) := glideByStridesFrom strides (fuel / 4) 0 ip t
    (fuel - taken, ⟨ip, [], some t, cancelled⟩)
  | fuel, m => (fuel, m)

theorem step_eq_exec {code : Code} {ip : Nat} {i : Instr} (h : code.instrs[ip]? = some i) (stack : List Int64)
    (tape : Option Tape) (cancelled : Bool) :
    step code ⟨ip, stack, tape, cancelled⟩ = exec code.size i ⟨ip + 1, stack, tape, cancelled⟩ := by
  simp only [step, h]

theorem moves_pointer {code : Code} {ip : Nat} {delta : Int64} (h : code.strideAt ip = .pointer delta) (t : Tape)
    (cancelled : Bool) :
    Moves (step code) 4 ⟨ip, [], some t, cancelled⟩
      ⟨ip + 4, [], some (t.moveTo (Int64.ofNat t.pointer + delta).toInt), cancelled⟩ := by
  unfold Code.strideAt Code.strideOf at h
  split at h
  next first =>
    split at h
    next second third fourth =>
      cases h
      exact .move (step_eq_exec first ..) <| .move (step_eq_exec second ..) <| .move (step_eq_exec third ..) <|
        .single (step_eq_exec fourth ..)
    next second third fourth =>
      cases h
      rw [← Int64.sub_eq_add_neg]
      exact .move (step_eq_exec first ..) <| .move (step_eq_exec second ..) <| .move (step_eq_exec third ..) <|
        .single (step_eq_exec fourth ..)
    next => cases h
  next => split at h <;> (try split at h) <;> cases h
  next => split at h <;> cases h
  next => cases h

theorem moves_cell {code : Code} {ip : Nat} {delta : Int64} (h : code.strideAt ip = .cell delta) (t : Tape)
    (cancelled : Bool) :
    Moves (step code) 4 ⟨ip, [], some t, cancelled⟩
      ⟨ip + 4, [], some (t.store (Int64.ofNat t.cell.toNat + delta).toInt), cancelled⟩ := by
  unfold Code.strideAt Code.strideOf at h
  split at h
  next => split at h <;> cases h
  next first =>
    split at h
    next second third fourth =>
      cases h
      exact .move (step_eq_exec first ..) <| .move (step_eq_exec second ..) <| .move (step_eq_exec third ..) <|
        .single (step_eq_exec fourth ..)
    next second third fourth =>
      cases h
      rw [← Int64.sub_eq_add_neg]
      exact .move (step_eq_exec first ..) <| .move (step_eq_exec second ..) <| .move (step_eq_exec third ..) <|
        .single (step_eq_exec fourth ..)
    next => split at h <;> cases h
    next => cases h
  next => split at h <;> cases h
  next => cases h

theorem moves_test {code : Code} {ip : Nat} {value : Int64} {target : Nat} (h : code.strideAt ip = .test value target)
    (t : Tape) (cancelled : Bool) :
    Moves (step code) 4 ⟨ip, [], some t, cancelled⟩
      ⟨if Int64.ofNat t.cell.toNat = value then target else ip + 4, [], some t, cancelled⟩ := by
  unfold Code.strideAt Code.strideOf at h
  split at h
  next => split at h <;> cases h
  next first =>
    split at h
    next => cases h
    next => cases h
    next second third fourth =>
      split at h
      next inside =>
        cases h
        refine .move (step_eq_exec first ..) <| .move (step_eq_exec second ..) <| .move (step_eq_exec third ..) <|
          .single ((step_eq_exec fourth ..).trans ?_)
        simp only [exec, target?, if_pos inside]
        by_cases same : Int64.ofNat t.cell.toNat = value <;> simp [same]
      next => cases h
    next => cases h
  next => split at h <;> cases h
  next => cases h

theorem moves_jump {code : Code} {ip target : Nat} (h : code.strideAt ip = .jump target) (t : Tape)
    (cancelled : Bool) :
    Moves (step code) 1 ⟨ip, [], some t, cancelled⟩ ⟨target, [], some t, cancelled⟩ := by
  unfold Code.strideAt Code.strideOf at h
  split at h
  next => split at h <;> cases h
  next => split at h <;> (try split at h) <;> cases h
  next first =>
    split at h
    next inside =>
      cases h
      refine .single ((step_eq_exec first ..).trans ?_)
      simp only [exec, target?, if_pos inside]
    next => cases h
  next => cases h

theorem moves_glideByStridesFrom (code : Code) (cancelled : Bool) (n taken ip : Nat) (t : Tape) :
    ∃ m, (glideByStridesFrom code.strides n taken ip t).1 = taken + m ∧ m ≤ 4 * n ∧
      Moves (step code) m ⟨ip, [], some t, cancelled⟩
        ⟨(glideByStridesFrom code.strides n taken ip t).2.1, [],
          some (glideByStridesFrom code.strides n taken ip t).2.2, cancelled⟩ := by
  induction n generalizing taken ip t with
  | zero => exact ⟨0, rfl, Nat.le_refl _, .refl _⟩
  | succ n ih =>
    have go {steps ip' : Nat} {t' : Tape} (few : steps ≤ 4)
        (stride : Moves (step code) steps ⟨ip, [], some t, cancelled⟩ ⟨ip', [], some t', cancelled⟩) :
        ∃ m, (glideByStridesFrom code.strides n (taken + steps) ip' t').1 = taken + m ∧ m ≤ 4 * (n + 1) ∧
          Moves (step code) m ⟨ip, [], some t, cancelled⟩
            ⟨(glideByStridesFrom code.strides n (taken + steps) ip' t').2.1, [],
              some (glideByStridesFrom code.strides n (taken + steps) ip' t').2.2, cancelled⟩ := by
      obtain ⟨m, counted, bound, moves⟩ := ih (taken + steps) ip' t'
      exact ⟨steps + m, by omega, by omega, stride.trans moves⟩
    have at_ip (h : ip < code.strides.size) : code.strides[ip] = code.strideAt ip := by simp [Code.strides]
    rw [glideByStridesFrom]
    split
    next h =>
      rw [at_ip h]
      split
      next stride => exact go (Nat.le_refl _) (moves_pointer stride t cancelled)
      next stride => exact go (Nat.le_refl _) (moves_cell stride t cancelled)
      next stride => exact go (Nat.le_refl _) (moves_test stride t cancelled)
      next stride => exact go (by decide) (moves_jump stride t cancelled)
      next => exact ⟨0, rfl, Nat.zero_le _, .refl _⟩
    next => exact ⟨0, rfl, Nat.zero_le _, .refl _⟩

theorem glideByStrides_follows (code : Code) : (glideByStrides code.strides).Follows (step code) := by
  intro fuel m
  unfold glideByStrides
  split
  next ip t cancelled =>
    obtain ⟨n, counted, bound, moves⟩ := moves_glideByStridesFrom code cancelled (fuel / 4) 0 ip t
    exact ⟨n, by simp only [counted]; omega, moves⟩
  next => exact .refl

end TapeLang.Machine
