import TapeLang.Program

/-!
# Bracket matching

Three views of one relation.  `Program.check` reads the text once and names the leftmost bracket without a partner.
`Program.closeOf?` and `Program.openOf?` look for the partner of one bracket by counting the loops passed on the way.
`Matching` holds the partner of every bracket of a text that passes, found in one reading.
-/

namespace TapeLang

/-- The two sides of a loop. -/
inductive Side where
  | opening
  | closing
deriving DecidableEq

/-- The character of a side. -/
def Side.symbol : Side → Char
  | opening => '['
  | closing => ']'

/-- A bracket without a partner. -/
structure Unmatched where
  /-- Its position in the text. -/
  position : Nat
  /-- Its side. -/
  side : Side
deriving DecidableEq

namespace Program

/-- Reads operators with a stack of the loops that are open, innermost first.  At the end the outermost open loop is at
fault. -/
def checkFrom : List Nat → List (Nat × Op) → Except Unmatched Unit
  | stack, [] =>
    match stack.getLast? with
    | some i => .error ⟨i, .opening⟩
    | none => .ok ()
  | stack, (i, .loopOpen) :: rest => checkFrom (i :: stack) rest
  | [], (i, .loopClose) :: _ => .error ⟨i, .closing⟩
  | _ :: stack, (_, .loopClose) :: rest => checkFrom stack rest
  | stack, _ :: rest => checkFrom stack rest

/-- Whether every bracket has a partner; if not, the leftmost one without. -/
def check (p : Program) : Except Unmatched Unit := checkFrom [] p.ops

/-- The first `]` at or after position `i` that closes a loop opened before `i`, when `depth` loops opened on the way
are still open. -/
def closeFrom (p : Program) (depth i : Nat) : Option Nat :=
  if h : i < p.chars.size then
    match p.chars[i] with
    | '[' => closeFrom p (depth + 1) (i + 1)
    | ']' => if depth = 0 then some i else closeFrom p (depth - 1) (i + 1)
    | _ => closeFrom p depth (i + 1)
  else none
termination_by p.chars.size - i

/-- The position of the `]` that closes the `[` at position `i`. -/
def closeOf? (p : Program) (i : Nat) : Option Nat := p.closeFrom 0 (i + 1)

/-- The last `[` before position `i` that opens a loop closed at or after `i`, when `depth` loops closed on the way are
still to be opened. -/
def openBefore (p : Program) : Nat → Nat → Option Nat
  | _, 0 => none
  | depth, i + 1 =>
    match p.chars[i]? with
    | some ']' => p.openBefore (depth + 1) i
    | some '[' => if depth = 0 then some i else p.openBefore (depth - 1) i
    | _ => p.openBefore depth i

/-- The position of the `[` that opens the loop closed by the `]` at position `i`. -/
def openOf? (p : Program) (i : Nat) : Option Nat := p.openBefore 0 i

end Program

/-- The partner of every bracket of a text. -/
structure Matching where
  /-- For every position the partner of the bracket there. -/
  partners : Array (Option Nat)
deriving DecidableEq

namespace Matching

/-- Notes that the brackets at two positions are partners. -/
def join (partners : Array (Option Nat)) (i j : Nat) : Array (Option Nat) :=
  (partners.setIfInBounds i (some j)).setIfInBounds j (some i)

/-- Reads operators with a stack of the loops that are open, innermost first, and joins each closing bracket to the
innermost one.  At the end the outermost open loop is at fault. -/
def joinFrom : Array (Option Nat) → List Nat → List (Nat × Op) → Except Unmatched (Array (Option Nat))
  | partners, stack, [] =>
    match stack.getLast? with
    | some i => .error ⟨i, .opening⟩
    | none => .ok partners
  | partners, stack, (i, .loopOpen) :: rest => joinFrom partners (i :: stack) rest
  | _, [], (i, .loopClose) :: _ => .error ⟨i, .closing⟩
  | partners, j :: stack, (i, .loopClose) :: rest => joinFrom (join partners j i) stack rest
  | partners, stack, _ :: rest => joinFrom partners stack rest

/-- Finds the partner of every bracket; the leftmost bracket without one is the error. -/
def ofProgram (p : Program) : Except Unmatched Matching := do
  return ⟨← joinFrom (Array.replicate p.size none) [] p.ops⟩

/-- The partner of the bracket at a position. -/
def get? (m : Matching) (i : Nat) : Option Nat := m.partners[i]?.join

/-- The brackets with their partners, in ascending order. -/
def pairs (m : Matching) : List (Nat × Nat) :=
  m.partners.toList.zipIdx.filterMap fun (partner, i) => partner.map (i, ·)

/-- The number of brackets. -/
def count (m : Matching) : Nat := m.pairs.length

end Matching
end TapeLang
