/-!
# The tape

A ring of byte cells with a pointer.  The pointer always names a cell, so reading and writing never fail; moving
past an end comes out at the other end, and cell arithmetic is modulo 256.
-/

namespace TapeLang

/-- A whole number reduced to a cell value. -/
def wrapCell (value : Int) : UInt8 := UInt8.ofNat (value % 256).toNat

/-- A whole number reduced to a position on a ring of `capacity` cells. -/
def wrapPointer (value : Int) (capacity : Nat) : Nat := (value % capacity).toNat

/-- `wrapPointer` where the ring has cells at all. -/
def wrapPointer? (value : Int) (capacity : Nat) : Option Nat :=
  if capacity = 0 then none else some (wrapPointer value capacity)

theorem wrapPointer_lt (value : Int) {capacity : Nat} (h : 0 < capacity) : wrapPointer value capacity < capacity := by
  unfold wrapPointer
  have h₁ := Int.emod_nonneg value (show (capacity : Int) ≠ 0 by omega)
  have h₂ := Int.emod_lt_of_pos value (show (0 : Int) < capacity by omega)
  omega

/-- A ring of cells and the position of the current one. -/
structure Tape where
  /-- The cells, from position 0 on. -/
  cells : Array UInt8
  /-- The position of the current cell. -/
  pointer : Nat
  /-- The pointer names a cell. -/
  pointer_lt : pointer < cells.size
deriving DecidableEq

namespace Tape

/-- A tape of zeros with the pointer at 0.  A tape has at least one cell. -/
def blank (capacity : Nat) : Tape where
  cells := Array.replicate (max capacity 1) 0
  pointer := 0
  pointer_lt := by simp only [Array.size_replicate]; omega

/-- The number of cells. -/
def capacity (t : Tape) : Nat := t.cells.size

/-- The current cell. -/
def cell (t : Tape) : UInt8 :=
  have h := t.pointer_lt
  t.cells[t.pointer]

/-- Overwrites the current cell. -/
def set (t : Tape) (value : UInt8) : Tape :=
  match t with
  | ⟨cells, pointer, h⟩ => ⟨cells.set pointer value h, pointer, by simpa using h⟩

/-- Puts a whole number, reduced modulo 256, into the current cell. -/
def store (t : Tape) (value : Int) : Tape := t.set (wrapCell value)

/-- Moves the pointer to a position, counted around the ring in either direction. -/
def moveTo (t : Tape) (value : Int) : Tape where
  cells := t.cells
  pointer := wrapPointer value t.cells.size
  pointer_lt := wrapPointer_lt value (Nat.lt_of_le_of_lt (Nat.zero_le _) t.pointer_lt)

/-- One cell to the right; the last cell's neighbour is the first. -/
def right (t : Tape) : Tape :=
  match t with
  | ⟨cells, pointer, h⟩ =>
    if h' : pointer + 1 = cells.size then ⟨cells, 0, by omega⟩ else ⟨cells, pointer + 1, by omega⟩

/-- One cell to the left; the first cell's neighbour is the last. -/
def left (t : Tape) : Tape :=
  match t with
  | ⟨cells, pointer, h⟩ =>
    if pointer = 0 then ⟨cells, cells.size - 1, by omega⟩ else ⟨cells, pointer - 1, by omega⟩

/-- Adds one to the current cell. -/
def increment (t : Tape) : Tape :=
  let value := t.cell
  t.set (value + 1)

/-- Takes one from the current cell. -/
def decrement (t : Tape) : Tape :=
  let value := t.cell
  t.set (value - 1)

/-- The blank tape of the same capacity. -/
def clear (t : Tape) : Tape := blank t.capacity

/-- Whether every cell is zero. -/
def isBlank (t : Tape) : Bool := t.cells.all (· == 0)

/-- The cells below position `n` that are not zero, with their positions, in front of `rest`. -/
def nonzeroBelow (t : Tape) : Nat → List (Nat × UInt8) → List (Nat × UInt8)
  | 0, rest => rest
  | n + 1, rest =>
    let value := t.cells[n]?.getD 0
    t.nonzeroBelow n (if value = 0 then rest else (n, value) :: rest)

/-- The cells that are not zero, with their positions, in ascending order. -/
def nonzero (t : Tape) : List (Nat × UInt8) := t.nonzeroBelow t.capacity []

end Tape
end TapeLang
