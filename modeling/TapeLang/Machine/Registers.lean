import TapeLang.Cruise
import TapeLang.Machine

/-!
# A machine with registers

The top values of a stack, two of them at most, can be kept in registers, apart from the rest; then few instructions
touch a list.  Here a machine of that kind goes on as long as nothing is asked of the console and nothing goes wrong.
-/

namespace TapeLang.Machine

/-- How many values are in registers. -/
inductive Held where
  | none
  | one
  | two

/-- The stack with some of its values in registers. -/
def stackOf : Held → Int64 → Int64 → List Int64 → List Int64
  | .none, _, _, rest => rest
  | .one, top, _, rest => top :: rest
  | .two, top, second, rest => top :: second :: rest

/-- The depth of the stack. -/
def depthOf : Held → List Int64 → Nat
  | .none, rest => rest.length
  | .one, rest => rest.length + 1
  | .two, rest => rest.length + 2

theorem length_stackOf (held : Held) (top second : Int64) (rest : List Int64) :
    (stackOf held top second rest).length = depthOf held rest := by
  cases held <;> rfl

/-- Goes on with a value more, if there is room. -/
@[inline] def pushed {α : Type} (held : Held) (top second : Int64) (rest : List Int64) (value : Int64) (full : Unit → α)
    (next : Held → Int64 → Int64 → List Int64 → α) : α :=
  if maxDepth ≤ depthOf held rest then full ()
  else
    match held with
    | .none => next .one value second rest
    | .one => next .two value top rest
    | .two => next .two value top (second :: rest)

/-- Goes on with the top value and the others, if there is one. -/
@[inline] def popped {α : Type} (held : Held) (top second : Int64) (rest : List Int64) (empty : Unit → α)
    (next : Int64 → Held → Int64 → Int64 → List Int64 → α) : α :=
  match held with
  | .two => next top .one second second rest
  | .one => next top .none top second rest
  | .none =>
    match rest with
    | value :: rest => next value .none top second rest
    | [] => empty ()

theorem pushed_cases {α : Type} {P : α → Prop} {held : Held} {top second : Int64} {rest : List Int64} {value : Int64}
    {full : Unit → α} {next : Held → Int64 → Int64 → List Int64 → α} (atLimit : P (full ()))
    (below : ∀ h t s r, (stackOf held top second rest).length < maxDepth →
      stackOf h t s r = value :: stackOf held top second rest → P (next h t s r)) :
    P (pushed held top second rest value full next) := by
  unfold pushed
  split
  next => exact atLimit
  next room =>
    rw [← length_stackOf held top second rest, Nat.not_le] at room
    cases held <;> exact below _ _ _ _ room rfl

theorem popped_cases {α : Type} {P : α → Prop} {held : Held} {top second : Int64} {rest : List Int64}
    {empty : Unit → α} {next : Int64 → Held → Int64 → Int64 → List Int64 → α} (atEnd : P (empty ()))
    (filled : ∀ v h t s r, stackOf held top second rest = v :: stackOf h t s r → P (next v h t s r)) :
    P (popped held top second rest empty next) := by
  unfold popped
  split
  next => exact filled _ _ _ _ _ rfl
  next => exact filled _ _ _ _ _ rfl
  next =>
    split
    next => exact filled _ _ _ _ _ rfl
    next => exact atEnd

/-- Goes on with the two top values replaced by one. -/
@[inline] def combined {α : Type} (held : Held) (top second : Int64) (rest : List Int64)
    (f : Int64 → Int64 → Int64) (bad : Unit → α) (next : Held → Int64 → Int64 → List Int64 → α) : α :=
  popped held top second rest bad fun b held top second rest =>
    popped held top second rest bad fun a held top second rest => pushed held top second rest (f a b) bad next

theorem combined_cases {α : Type} {P : α → Prop} {held : Held} {top second : Int64} {rest : List Int64}
    {f : Int64 → Int64 → Int64} {bad : Unit → α} {next : Held → Int64 → Int64 → List Int64 → α} (otherwise : P (bad ()))
    (good : ∀ a b rest' h t s r, stackOf held top second rest = b :: a :: rest' → rest'.length < maxDepth →
      stackOf h t s r = f a b :: rest' → P (next h t s r)) :
    P (combined held top second rest f bad next) :=
  popped_cases otherwise fun _ _ _ _ _ first =>
    popped_cases otherwise fun _ _ _ _ _ second =>
      pushed_cases otherwise fun _ _ _ _ room pushed => good _ _ _ _ _ _ _ (second ▸ first) room pushed

/-- Where the machine is when no more moves are made. -/
@[noinline] def put (fuel ip : Nat) (held : Held) (top second : Int64) (rest : List Int64) (tape : Option Tape)
    (cancelled : Bool) : Nat × Machine :=
  (fuel, ⟨ip, stackOf held top second rest, tape, cancelled⟩)

/-- Goes on from an instruction as long as nothing is asked of the console and nothing goes wrong. -/
def glideInRegistersFrom (code : Code) (cancelled : Bool) :
    Nat → Nat → Held → Int64 → Int64 → List Int64 → Option Tape → Nat × Machine
  | 0, ip, held, top, second, rest, tape => put 0 ip held top second rest tape cancelled
  | fuel + 1, ip, held, top, second, rest, tape =>
    if h : ip < code.instrs.size then
      let stay := fun (_ : Unit) => put (fuel + 1) ip held top second rest tape cancelled
      match code.instrs[ip].opcode with
      | .loadPtr =>
        match tape with
        | some t =>
          pushed held top second rest (Int64.ofNat t.pointer) stay fun held top second rest =>
            glideInRegistersFrom code cancelled fuel (ip + 1) held top second rest tape
        | none => stay ()
      | .storePtr =>
        match tape with
        | some t =>
          popped held top second rest stay fun value held top second rest =>
            glideInRegistersFrom code cancelled fuel (ip + 1) held top second rest (some (t.moveTo value.toInt))
        | none => stay ()
      | .loadCell =>
        match tape with
        | some t =>
          pushed held top second rest (Int64.ofNat t.cell.toNat) stay fun held top second rest =>
            glideInRegistersFrom code cancelled fuel (ip + 1) held top second rest tape
        | none => stay ()
      | .storeCell =>
        match tape with
        | some t =>
          popped held top second rest stay fun value held top second rest =>
            glideInRegistersFrom code cancelled fuel (ip + 1) held top second rest (some (t.store value.toInt))
        | none => stay ()
      | .const =>
        match code.instrs[ip].operand with
        | some (.int value) =>
          pushed held top second rest value stay fun held top second rest =>
            glideInRegistersFrom code cancelled fuel (ip + 1) held top second rest tape
        | _ => stay ()
      | .dup =>
        popped held top second rest stay fun value _ _ _ _ =>
          pushed held top second rest value stay fun held top second rest =>
            glideInRegistersFrom code cancelled fuel (ip + 1) held top second rest tape
      | .add =>
        combined held top second rest (· + ·) stay fun held top second rest =>
          glideInRegistersFrom code cancelled fuel (ip + 1) held top second rest tape
      | .sub =>
        combined held top second rest (· - ·) stay fun held top second rest =>
          glideInRegistersFrom code cancelled fuel (ip + 1) held top second rest tape
      | .eq =>
        combined held top second rest (fun a b => if a = b then 1 else 0) stay fun held top second rest =>
          glideInRegistersFrom code cancelled fuel (ip + 1) held top second rest tape
      | .jump =>
        match target? code.size code.instrs[ip].operand with
        | some target => glideInRegistersFrom code cancelled fuel target held top second rest tape
        | none => stay ()
      | .jumpIfTrue =>
        match target? code.size code.instrs[ip].operand with
        | some target =>
          popped held top second rest stay fun value held top second rest =>
            glideInRegistersFrom code cancelled fuel (if value = 0 then ip + 1 else target) held top second rest tape
        | none => stay ()
      | _ => stay ()
    else put (fuel + 1) ip held top second rest tape cancelled

/-- Goes on as long as nothing is asked of the console and nothing goes wrong. -/
def glideInRegisters (code : Code) : Glide Machine
  | fuel, ⟨ip, stack, tape, cancelled⟩ => glideInRegistersFrom code cancelled fuel ip .none 0 0 stack tape

theorem push_of_lt {ip : Nat} {stack stack' : List Int64} {tape : Option Tape} {cancelled : Bool} {value : Int64}
    (room : stack.length < maxDepth) (pushed : stack' = value :: stack) :
    push ⟨ip, stack, tape, cancelled⟩ value = .move ⟨ip, stack', tape, cancelled⟩ := by
  rw [pushed]
  exact if_neg (Nat.not_le.2 room)

theorem reaches_glideInRegistersFrom (code : Code) (cancelled : Bool) (fuel ip : Nat) (held : Held) (top second : Int64)
    (rest : List Int64) (tape : Option Tape) :
    Reaches (step code) fuel ⟨ip, stackOf held top second rest, tape, cancelled⟩
      (glideInRegistersFrom code cancelled fuel ip held top second rest tape) := by
  induction fuel generalizing ip held top second rest tape with
  | zero => exact .refl
  | succ fuel ih =>
    have stay : Reaches (step code) (fuel + 1) ⟨ip, stackOf held top second rest, tape, cancelled⟩
        (put (fuel + 1) ip held top second rest tape cancelled) := .refl
    rw [glideInRegistersFrom]
    split
    next inside =>
      have go {ip' : Nat} {tape' : Option Tape} {h : Held} {t s : Int64} {r : List Int64}
          (move : exec code.size code.instrs[ip] ⟨ip + 1, stackOf held top second rest, tape, cancelled⟩ =
            .move ⟨ip', stackOf h t s r, tape', cancelled⟩) :
          Reaches (step code) (fuel + 1) ⟨ip, stackOf held top second rest, tape, cancelled⟩
            (glideInRegistersFrom code cancelled fuel ip' h t s r tape') :=
        .move (by simp only [step, Array.getElem?_eq_getElem inside, move]) (ih ..)
      generalize code.instrs[ip] = i at go ⊢
      obtain ⟨opcode, operand⟩ := i
      cases opcode <;> simp only [exec] at go ⊢
      case loadPtr =>
        split
        next t =>
          exact pushed_cases stay fun _ _ _ _ room pushed => go (push_of_lt room pushed)
        next => exact stay
      case loadCell =>
        split
        next t =>
          exact pushed_cases stay fun _ _ _ _ room pushed => go (push_of_lt room pushed)
        next => exact stay
      case storePtr =>
        split
        next t =>
          refine popped_cases stay fun _ _ _ _ _ popped => go ?_
          simp only [popped]
        next => exact stay
      case storeCell =>
        split
        next t =>
          refine popped_cases stay fun _ _ _ _ _ popped => go ?_
          simp only [popped]
        next => exact stay
      case const =>
        split
        next v =>
          exact pushed_cases stay fun _ _ _ _ room pushed => go (push_of_lt room pushed)
        next => exact stay
      case dup =>
        refine popped_cases stay fun _ _ _ _ _ popped => pushed_cases stay fun _ _ _ _ room pushed => go ?_
        simp only [popped] at room pushed ⊢
        exact push_of_lt room pushed
      case add =>
        refine combined_cases stay fun _ _ _ _ _ _ _ popped room pushed => go ?_
        simp only [binary, popped]
        exact push_of_lt room pushed
      case sub =>
        refine combined_cases stay fun _ _ _ _ _ _ _ popped room pushed => go ?_
        simp only [binary, popped]
        exact push_of_lt room pushed
      case eq =>
        refine combined_cases stay fun _ _ _ _ _ _ _ popped room pushed => go ?_
        simp only [binary, popped]
        exact push_of_lt room pushed
      case jump =>
        split
        next target found => exact go (by rw [found])
        next => exact stay
      case jumpIfTrue =>
        split
        next target found =>
          refine popped_cases stay fun _ _ _ _ _ popped => go ?_
          simp only [found, popped]
        next => exact stay
      all_goals exact stay
    next => exact stay

theorem glideInRegisters_follows (code : Code) : (glideInRegisters code).Follows (step code) := fun fuel m =>
  reaches_glideInRegistersFrom code m.cancelled fuel m.ip .none 0 0 m.stack m.tape

end TapeLang.Machine
