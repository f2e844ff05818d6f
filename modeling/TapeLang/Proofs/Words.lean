import TapeLang.Error
import TapeLang.Tape

/-!
# TapeLang.Proofs.Words — the tape in machine words

The stack machine loads a pointer or a cell as a machine word, adds one or takes one, and stores the word.  On a tape
of a valid size no such word wraps, so what is stored is what the tape operation of that name gives.

* `Tape.moveTo_pointer_add_one`, `Tape.moveTo_pointer_sub_one`, `Tape.store_cell_add_one`, `Tape.store_cell_sub_one`: the
  same over whole numbers, on any tape.
* `Tape.moveTo_add_one`, `Tape.moveTo_sub_one`: the pointer.
* `Tape.store_add_one`, `Tape.store_sub_one`, `Tape.store_ofNat`: the cell.
* `ofNat_toNat_eq_zero_iff`, `ofNat_toNat_ne_neg_one`: what comparisons of such words say.
-/

namespace TapeLang

/-! ## Words -/

section Words

variable {n : Nat}

theorem toInt_ofNat_of_le (h : (n : Int) ≤ Int64.maxValue.toInt) : (Int64.ofNat n).toInt = n := by
  rw [Int64.toInt_maxValue] at h
  exact Int64.toInt_ofNat_of_lt (by omega)

theorem toInt_ofNat_add_one_of_lt (h : (n : Int) < Int64.maxValue.toInt) : (Int64.ofNat n + 1).toInt = n + 1 := by
  rw [Int64.toInt_add, toInt_ofNat_of_le (Int.le_of_lt h), Int64.toInt_one]
  rw [Int64.toInt_maxValue] at h
  exact Int.bmod_eq_of_le (by omega) (by omega)

theorem toInt_ofNat_sub_one_of_le (h : (n : Int) ≤ Int64.maxValue.toInt) : (Int64.ofNat n - 1).toInt = n - 1 := by
  rw [Int64.toInt_sub, toInt_ofNat_of_le h, Int64.toInt_one]
  rw [Int64.toInt_maxValue] at h
  exact Int.bmod_eq_of_le (by omega) (by omega)

/-- A valid size is far from the greatest word. -/
theorem lt_maxValue (h : n ≤ sizeLimit) : (n : Int) < Int64.maxValue.toInt := by
  rw [Int64.toInt_maxValue]
  simp only [sizeLimit] at h
  omega

theorem toInt_ofNat (h : n ≤ sizeLimit) : (Int64.ofNat n).toInt = n :=
  toInt_ofNat_of_le (Int.le_of_lt (lt_maxValue h))

theorem toInt_ofNat_add_one (h : n ≤ sizeLimit) : (Int64.ofNat n + 1).toInt = n + 1 :=
  toInt_ofNat_add_one_of_lt (lt_maxValue h)

theorem toInt_ofNat_sub_one (h : n ≤ sizeLimit) : (Int64.ofNat n - 1).toInt = n - 1 :=
  toInt_ofNat_sub_one_of_le (Int.le_of_lt (lt_maxValue h))

theorem toNat_le_sizeLimit (b : UInt8) : b.toNat ≤ sizeLimit :=
  Nat.le_trans (Nat.le_of_lt b.toNat_lt) (by decide)

theorem ofNat_toNat_eq_zero_iff (b : UInt8) : Int64.ofNat b.toNat = 0 ↔ b = 0 := by
  rw [← Int64.toInt_inj, toInt_ofNat (toNat_le_sizeLimit b), Int64.toInt_zero, ← UInt8.toNat_inj]
  exact Int.natCast_inj

/-- No byte is read as a cancellation. -/
theorem ofNat_toNat_ne_neg_one (b : UInt8) : Int64.ofNat b.toNat ≠ -1 := by
  intro h
  have h1 := congrArg Int64.toInt h
  rw [toInt_ofNat (toNat_le_sizeLimit b), show (-1 : Int64).toInt = -1 by decide] at h1
  omega

end Words

/-! ## Cells -/

section Cells

theorem toNat_wrapCell (v : Int) : ((wrapCell v).toNat : Int) = v % 256 := by
  rw [wrapCell, UInt8.toNat_ofNat']
  omega

/-- A sum may be wrapped on the way. -/
theorem wrapCell_toNat_wrapCell (v w : Int) : wrapCell ((wrapCell v).toNat + w) = wrapCell (v + w) := by
  rw [toNat_wrapCell, wrapCell, Int.emod_add_emod, wrapCell]

theorem wrapCell_toNat (b : UInt8) : wrapCell b.toNat = b := by
  rw [wrapCell, ← UInt8.toNat_inj, UInt8.toNat_ofNat']
  have := b.toNat_lt
  omega

theorem wrapCell_toNat_add_one (b : UInt8) : wrapCell (b.toNat + 1) = b + 1 := by
  rw [wrapCell, ← UInt8.toNat_inj, UInt8.toNat_ofNat', UInt8.toNat_add, show (1 : UInt8).toNat = 1 from rfl]
  omega

theorem wrapCell_toNat_sub_one (b : UInt8) : wrapCell (b.toNat - 1) = b - 1 := by
  rw [wrapCell, ← UInt8.toNat_inj, UInt8.toNat_ofNat', UInt8.toNat_sub, show (1 : UInt8).toNat = 1 from rfl]
  have := b.toNat_lt
  omega

namespace Tape

theorem store_ofNat (t : Tape) (b : UInt8) : t.store (Int64.ofNat b.toNat).toInt = t.set b := by
  rw [store, toInt_ofNat (toNat_le_sizeLimit b), wrapCell_toNat]

theorem store_cell_add_one (t : Tape) : t.store (t.cell.toNat + 1) = t.increment := by
  rw [store, wrapCell_toNat_add_one, increment]

theorem store_cell_sub_one (t : Tape) : t.store (t.cell.toNat - 1) = t.decrement := by
  rw [store, wrapCell_toNat_sub_one, decrement]

theorem store_add_one (t : Tape) : t.store (Int64.ofNat t.cell.toNat + 1).toInt = t.increment := by
  rw [toInt_ofNat_add_one (toNat_le_sizeLimit _), store_cell_add_one]

theorem store_sub_one (t : Tape) : t.store (Int64.ofNat t.cell.toNat - 1).toInt = t.decrement := by
  rw [toInt_ofNat_sub_one (toNat_le_sizeLimit _), store_cell_sub_one]

end Tape
end Cells

/-! ## Pointers and sizes -/

namespace Tape

theorem capacity_pos (t : Tape) : 0 < t.capacity := Nat.lt_of_le_of_lt (Nat.zero_le _) t.pointer_lt

theorem capacity_blank {n : Nat} (h : 0 < n) : (blank n).capacity = n := by
  simp only [capacity, blank, Array.size_replicate]
  omega

theorem capacity_set (t : Tape) (b : UInt8) : (t.set b).capacity = t.capacity := by
  obtain ⟨cells, pointer, hlt⟩ := t
  exact Array.size_set hlt

theorem capacity_right (t : Tape) : t.right.capacity = t.capacity := by
  obtain ⟨cells, pointer, hlt⟩ := t
  simp only [right, capacity]
  split <;> rfl

theorem capacity_left (t : Tape) : t.left.capacity = t.capacity := by
  obtain ⟨cells, pointer, hlt⟩ := t
  simp only [left, capacity]
  split <;> rfl

/-- One more, counted around the ring, is the cell to the right. -/
theorem moveTo_pointer_add_one (t : Tape) : t.moveTo (t.pointer + 1) = t.right := by
  obtain ⟨cells, pointer, hlt⟩ := t
  simp only [moveTo, right, wrapPointer]
  split
  · rename_i heq
    have hz : ((pointer : Int) + 1) % cells.size = 0 := by rw [← heq]; exact Int.emod_self
    simp [hz]
  · have hz : ((pointer : Int) + 1) % cells.size = pointer + 1 := Int.emod_eq_of_lt (by omega) (by omega)
    simp only [hz, mk.injEq, true_and]
    omega

/-- One less, counted around the ring, is the cell to the left. -/
theorem moveTo_pointer_sub_one (t : Tape) : t.moveTo (t.pointer - 1) = t.left := by
  obtain ⟨cells, pointer, hlt⟩ := t
  simp only [moveTo, left, wrapPointer]
  split
  · rename_i heq
    have hz : ((pointer : Int) - 1) % cells.size = cells.size - 1 := by
      rw [heq, ← Int.add_emod_right]
      exact Int.emod_eq_of_lt (by omega) (by omega)
    simp only [hz, mk.injEq, true_and]
    omega
  · have hz : ((pointer : Int) - 1) % cells.size = pointer - 1 := Int.emod_eq_of_lt (by omega) (by omega)
    simp only [hz, mk.injEq, true_and]
    omega

theorem moveTo_add_one {t : Tape} (h : t.capacity ≤ sizeLimit) :
    t.moveTo (Int64.ofNat t.pointer + 1).toInt = t.right := by
  have hle : t.pointer ≤ sizeLimit := Nat.le_of_lt (Nat.lt_of_lt_of_le t.pointer_lt h)
  rw [toInt_ofNat_add_one hle, moveTo_pointer_add_one]

theorem moveTo_sub_one {t : Tape} (h : t.capacity ≤ sizeLimit) :
    t.moveTo (Int64.ofNat t.pointer - 1).toInt = t.left := by
  have hle : t.pointer ≤ sizeLimit := Nat.le_of_lt (Nat.lt_of_lt_of_le t.pointer_lt h)
  rw [toInt_ofNat_sub_one hle, moveTo_pointer_sub_one]

end Tape
end TapeLang
