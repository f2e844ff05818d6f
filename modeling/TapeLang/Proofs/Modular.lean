import TapeLang.Proofs.Words

/-!
# TapeLang.Proofs.Modular — the tape counts around its ring

A step on the tape compares the pointer with an end, or is byte arithmetic on a cell.  A whole number that is put into the
pointer or into a cell is divided by the capacity or by 256.  The interpreter does the one and the stack machine the other.

* `Tape.Step`, `Tape.Edit`: the four steps, and everything that is done to a tape.  `Tape.run` does one after another.
* `Tape.inWords`: the same edits with a word that is computed and put in instead of each step.
* `Tape.exact_of_le`: no such word overflows on a tape whose capacity is a word.  `Tape.Exact.apply_inWords`: so the one edit
  gives what the other gives.
* `Tape.pointer_run`, `Tape.getElem?_cells_run`: where steps lead from any tape, and what they leave in each cell.
* **`Tape.edits_are_modular`** puts this together for every tape that starts out blank.
-/

namespace TapeLang

/-! ## Edits -/

namespace Tape

/-- What is done to a tape without a number. -/
inductive Step where
  | right
  | left
  | increment
  | decrement
deriving DecidableEq

/-- What is done to a tape. -/
inductive Edit where
  | step (s : Step)
  | set (value : UInt8)
  | store (value : Int64)
  | moveTo (value : Int64)
  | clear

namespace Step

def apply : Step → Tape → Tape
  | right, t => t.right
  | left, t => t.left
  | increment, t => t.increment
  | decrement, t => t.decrement

/-- What the pointer or the cell comes to, before it is wrapped. -/
def result : Step → Tape → Int
  | right, t => t.pointer + 1
  | left, t => t.pointer - 1
  | increment, t => t.cell.toNat + 1
  | decrement, t => t.cell.toNat - 1

/-- The result as the machine computes it. -/
def word : Step → Tape → Int64
  | right, t => Int64.ofNat t.pointer + 1
  | left, t => Int64.ofNat t.pointer - 1
  | increment, t => Int64.ofNat t.cell.toNat + 1
  | decrement, t => Int64.ofNat t.cell.toNat - 1

/-- The edit that puts the computed word in. -/
def inWords (s : Step) (t : Tape) : Edit :=
  match s with
  | right | left => .moveTo (s.word t)
  | increment | decrement => .store (s.word t)

/-- How far the pointer goes. -/
def shift : Step → Int
  | right => 1
  | left => -1
  | increment | decrement => 0

/-- What the current cell gains. -/
def gain : Step → Int
  | increment => 1
  | decrement => -1
  | right | left => 0

/-- How often a step is made while the pointer is at position `i`. -/
def timesAt (s : Step) (i : Nat) : List Step → Tape → Nat
  | [], _ => 0
  | r :: rs, t => (if r = s ∧ t.pointer = i then 1 else 0) + timesAt s i rs (r.apply t)

end Step

namespace Edit

def apply : Edit → Tape → Tape
  | step s, t => s.apply t
  | set v, t => t.set v
  | store v, t => t.store v.toInt
  | moveTo v, t => t.moveTo v.toInt
  | clear, t => t.clear

/-- A step by a word, and any other edit as it is. -/
def inWords : Edit → Tape → Edit
  | step s, t => s.inWords t
  | e, _ => e

end Edit

/-- The tape after edits. -/
def run : List Edit → Tape → Tape
  | [], t => t
  | e :: es, t => run es (e.apply t)

/-- Edits without steps.  Each word is computed from the tape that the edits before it have left. -/
def inWords : List Edit → Tape → List Edit
  | [], _ => []
  | e :: es, t => e.inWords t :: inWords es ((e.inWords t).apply t)

/-! ## Words for steps -/

section Replaced

variable {t : Tape}

theorem capacity_clear (t : Tape) : t.clear.capacity = t.capacity := capacity_blank t.capacity_pos

theorem capacity_apply (e : Edit) (t : Tape) : (e.apply t).capacity = t.capacity := by
  cases e with
  | step s =>
    cases s with
    | right => exact capacity_right t
    | left => exact capacity_left t
    | increment => exact capacity_set t _
    | decrement => exact capacity_set t _
  | set v => exact capacity_set t v
  | store v => exact capacity_set t _
  | moveTo v => rfl
  | clear => exact capacity_clear t

theorem capacity_run (es : List Edit) (t : Tape) : (run es t).capacity = t.capacity := by
  induction es generalizing t with
  | nil => rfl
  | cons e es ih => rw [run, ih, capacity_apply]

/-- Words are as good as whole numbers at this tape. -/
structure Exact (t : Tape) : Prop where
  /-- The number to divide by is the capacity. -/
  capacity : (Int64.ofNat t.capacity).toInt = t.capacity
  /-- No result overflows. -/
  word : ∀ s : Step, (s.word t).toInt = s.result t

theorem exact_of_le (h : (t.capacity : Int) ≤ Int64.maxValue.toInt) : t.Exact := by
  -- the pointer is below the capacity, so there is room for one more even on the longest tape
  have hpointer : (t.pointer : Int) < Int64.maxValue.toInt := by
    have hlt : t.pointer < t.capacity := t.pointer_lt
    omega
  refine ⟨toInt_ofNat_of_le h, ?_⟩
  intro s
  cases s with
  | right => exact toInt_ofNat_add_one_of_lt hpointer
  | left => exact toInt_ofNat_sub_one_of_le (Int.le_of_lt hpointer)
  | increment => exact toInt_ofNat_add_one (toNat_le_sizeLimit _)
  | decrement => exact toInt_ofNat_sub_one (toNat_le_sizeLimit _)

theorem Exact.apply_inWords (h : t.Exact) (e : Edit) : (e.inWords t).apply t = e.apply t := by
  cases e with
  | step s =>
    have hword := h.word s
    cases s with
    | right =>
      show t.moveTo (Step.right.word t).toInt = t.right
      rw [hword]
      exact moveTo_pointer_add_one t
    | left =>
      show t.moveTo (Step.left.word t).toInt = t.left
      rw [hword]
      exact moveTo_pointer_sub_one t
    | increment =>
      show t.store (Step.increment.word t).toInt = t.increment
      rw [hword]
      exact store_cell_add_one t
    | decrement =>
      show t.store (Step.decrement.word t).toInt = t.decrement
      rw [hword]
      exact store_cell_sub_one t
  | set | store | moveTo | clear => rfl

theorem step_ne_inWords (s : Step) (e : Edit) (t : Tape) : .step s ≠ e.inWords t := by
  cases e with
  | step r => cases r <;> exact Edit.noConfusion
  | set | store | moveTo | clear => exact Edit.noConfusion

theorem step_not_mem_inWords (s : Step) (es : List Edit) (t : Tape) : .step s ∉ inWords es t := by
  induction es generalizing t with
  | nil => exact List.not_mem_nil
  | cons e es ih =>
    intro hmem
    rcases List.mem_cons.mp hmem with heq | hrest
    · exact step_ne_inWords s e t heq
    · exact ih _ hrest

/-- The tapes are the same after every edit. -/
theorem run_take_inWords (es : List Edit) (n : Nat) (h : (t.capacity : Int) ≤ Int64.maxValue.toInt) :
    run ((inWords es t).take n) t = run (es.take n) t := by
  -- by induction on the edits: the tape changes, but not its capacity, and exactness asks for no more
  induction es generalizing t n with
  | nil => rfl
  | cons e es ih =>
    cases n with
    | zero => rfl
    | succ n =>
      have hsame := (exact_of_le h).apply_inWords e
      simp only [inWords, List.take_succ_cons, run, hsame]
      apply ih
      rw [capacity_apply]
      exact h

end Replaced

/-! ## Steps, counted -/

section Counting

theorem pointer_moveTo (t : Tape) (v : Int) : ((t.moveTo v).pointer : Int) = v % t.capacity := by
  have hne : (t.capacity : Int) ≠ 0 := by
    have hpos := t.capacity_pos
    omega
  exact Int.toNat_of_nonneg (Int.emod_nonneg v hne)

theorem pointer_set (t : Tape) (b : UInt8) : (t.set b).pointer = t.pointer := rfl

/-- The pointer is in range, so it is its own remainder. -/
theorem pointer_emod (t : Tape) : (t.pointer : Int) % t.capacity = t.pointer := by
  have hlt : t.pointer < t.capacity := t.pointer_lt
  exact Int.emod_eq_of_lt (by omega) (by omega)

theorem pointer_apply (s : Step) (t : Tape) : ((s.apply t).pointer : Int) = (t.pointer + s.shift) % t.capacity := by
  cases s with
  | right =>
    rw [Step.apply, ← moveTo_pointer_add_one, pointer_moveTo]
    rfl
  | left =>
    rw [Step.apply, ← moveTo_pointer_sub_one, pointer_moveTo]
    rfl
  | increment =>
    rw [Step.apply, increment, pointer_set, Step.shift, Int.add_zero, pointer_emod]
  | decrement =>
    rw [Step.apply, decrement, pointer_set, Step.shift, Int.add_zero, pointer_emod]

theorem count_cons_shift (s : Step) (ss : List Step) :
    ((s :: ss).count .right : Int) - (s :: ss).count .left = s.shift + (ss.count .right - ss.count .left) := by
  cases s <;> simp [Step.shift] <;> omega

theorem pointer_run (ss : List Step) (t : Tape) :
    ((run (ss.map .step) t).pointer : Int) = (t.pointer + (ss.count .right - ss.count .left)) % t.capacity := by
  induction ss generalizing t with
  | nil =>
    show (t.pointer : Int) = (t.pointer + 0) % t.capacity
    rw [Int.add_zero, pointer_emod]
  | cons s ss ih =>
    have hcapacity : (s.apply t).capacity = t.capacity := capacity_apply (.step s) t
    calc ((run ((s :: ss).map .step) t).pointer : Int)
        = ((s.apply t).pointer + (ss.count .right - ss.count .left)) % t.capacity := by
          rw [← hcapacity]
          exact ih (s.apply t)
      _ = (t.pointer + s.shift + (ss.count .right - ss.count .left)) % t.capacity := by
          rw [pointer_apply, Int.emod_add_emod]
      _ = _ := by rw [count_cons_shift, Int.add_assoc]

theorem getElem?_cells_set (t : Tape) (b : UInt8) (i : Nat) :
    (t.set b).cells[i]? = if t.pointer = i then some b else t.cells[i]? := by
  obtain ⟨cells, pointer, hlt⟩ := t
  exact Array.getElem?_set hlt

theorem getElem?_cells_pointer (t : Tape) : t.cells[t.pointer]? = some t.cell :=
  Array.getElem?_eq_getElem t.pointer_lt

theorem cells_right (t : Tape) : t.right.cells = t.cells := by
  rw [← moveTo_pointer_add_one]
  rfl

theorem cells_left (t : Tape) : t.left.cells = t.cells := by
  rw [← moveTo_pointer_sub_one]
  rfl

/-- A cell that gains nothing is as it was. -/
theorem map_wrapCell_add_zero (b? : Option UInt8) : (b?.map fun b => wrapCell (b.toNat + 0)) = b? := by
  cases b? with
  | none => rfl
  | some b => rw [Option.map_some, Int.add_zero, wrapCell_toNat]

/-- What is stored in place of the current cell counts for that cell alone. -/
theorem getElem?_cells_store (t : Tape) (d : Int) (i : Nat) :
    (t.store (t.cell.toNat + d)).cells[i]? =
      t.cells[i]?.map fun b => wrapCell (b.toNat + if t.pointer = i then d else 0) := by
  rw [store, getElem?_cells_set]
  by_cases h : t.pointer = i
  · subst h
    rw [if_pos rfl, getElem?_cells_pointer, Option.map_some, if_pos rfl]
  · simp only [if_neg h, map_wrapCell_add_zero]

theorem getElem?_cells_apply (s : Step) (t : Tape) (i : Nat) :
    (s.apply t).cells[i]? = t.cells[i]?.map fun b => wrapCell (b.toNat + if t.pointer = i then s.gain else 0) := by
  cases s with
  | right => simp only [Step.apply, Step.gain, cells_right, ite_self, map_wrapCell_add_zero]
  | left => simp only [Step.apply, Step.gain, cells_left, ite_self, map_wrapCell_add_zero]
  | increment =>
    rw [Step.apply, ← store_cell_add_one]
    exact getElem?_cells_store t 1 i
  | decrement =>
    rw [Step.apply, ← store_cell_sub_one, Int.sub_eq_add_neg]
    exact getElem?_cells_store t (-1) i

theorem timesAt_cons_gain (s : Step) (ss : List Step) (t : Tape) (i : Nat) :
    (Step.increment.timesAt i (s :: ss) t : Int) - Step.decrement.timesAt i (s :: ss) t =
      (if t.pointer = i then s.gain else 0) +
        (Step.increment.timesAt i ss (s.apply t) - Step.decrement.timesAt i ss (s.apply t)) := by
  by_cases h : t.pointer = i <;> cases s <;> simp [Step.timesAt, Step.gain, h] <;> omega

theorem getElem?_cells_run (ss : List Step) (t : Tape) (i : Nat) :
    (run (ss.map .step) t).cells[i]? = t.cells[i]?.map fun b =>
      wrapCell (b.toNat + (Step.increment.timesAt i ss t - Step.decrement.timesAt i ss t)) := by
  induction ss generalizing t with
  | nil => exact (map_wrapCell_add_zero _).symm
  | cons s ss ih =>
    show (run (ss.map .step) (s.apply t)).cells[i]? = _
    rw [ih, getElem?_cells_apply, Option.map_map]
    congr 1
    -- cell by cell: what was wrapped after the first step is wrapped again at the end
    funext b
    rw [Function.comp_apply, wrapCell_toNat_wrapCell, timesAt_cons_gain, Int.add_assoc]

end Counting

/-! ## Tapes that start out blank -/

/-- A tape of `c` cells under edits. -/
structure KeepsToRing (c : Nat) (es : List Edit) : Prop where
  capacity_eq : (run es (blank c)).capacity = c
  pointer_lt : (run es (blank c)).pointer < c
  /-- A step that comes next has an exact word. -/
  exact : (run es (blank c)).Exact
  /-- With words for steps, no step is left, -/
  replaced : ∀ s : Step, .step s ∉ inWords es (blank c)
  /-- and the tape is the same after every edit. -/
  same : ∀ n, run ((inWords es (blank c)).take n) (blank c) = run (es.take n) (blank c)

/-- What steps have made of a blank tape of `c` cells. -/
structure Counts (c : Nat) (ss : List Step) (t : Tape) : Prop where
  pointer : (t.pointer : Int) = (ss.count .right - ss.count .left) % c
  cell : ∀ i < c, ∃ b, t.cells[i]? = some b ∧
    (b.toNat : Int) = (Step.increment.timesAt i ss (blank c) - Step.decrement.timesAt i ss (blank c)) % 256

theorem getElem?_cells_blank {c i : Nat} (h : i < c) : (blank c).cells[i]? = some 0 := by
  rw [blank, Array.getElem?_replicate, if_pos (by omega)]

/-- **Steps and words are one arithmetic.**  On a tape whose capacity is a positive word, edits stay on the ring, and the word
that a step comes to may be put in instead of it.  Steps alone add up: the pointer modulo the capacity, each cell modulo 256. -/
theorem edits_are_modular {c : Nat} (hpos : 0 < c) (hmax : (c : Int) ≤ Int64.maxValue.toInt) :
    (∀ es : List Edit, KeepsToRing c es) ∧ ∀ ss : List Step, Counts c ss (run (ss.map .step) (blank c)) := by
  have hblank : (blank c).capacity = c := capacity_blank hpos
  constructor
  · intro es
    have hcapacity : (run es (blank c)).capacity = c := (capacity_run es (blank c)).trans hblank
    refine ⟨hcapacity, ?_, exact_of_le ?_, ?_, ?_⟩
    · have hlt : (run es (blank c)).pointer < (run es (blank c)).capacity := (run es (blank c)).pointer_lt
      rwa [hcapacity] at hlt
    · rwa [hcapacity]
    · intro s
      exact step_not_mem_inWords s es (blank c)
    · intro n
      apply run_take_inWords
      rwa [hblank]
  · intro ss
    constructor
    · have hpointer := pointer_run ss (blank c)
      rwa [hblank, show (blank c).pointer = 0 from rfl, Int.natCast_zero, Int.zero_add] at hpointer
    · intro i hi
      refine ⟨_, ?_, toNat_wrapCell _⟩
      rw [getElem?_cells_run, getElem?_cells_blank hi, Option.map_some, show (0 : UInt8).toNat = 0 from rfl,
        Int.natCast_zero, Int.zero_add]

/-- On the longest tape, one less than nothing is a full cell, and one less than the first position is the last. -/
theorem edits_are_modular_longest :
    0 < 9223372036854775807 ∧ (9223372036854775807 : Int) ≤ Int64.maxValue.toInt ∧
      run [.store (-1), .moveTo (-1)] (blank 9223372036854775807) =
        run [.step .decrement, .step .left] (blank 9223372036854775807) ∧
      (run [.step .decrement, .step .left] (blank 9223372036854775807)).pointer = 9223372036854775806 ∧
      (run [.step .decrement, .step .left] (blank 9223372036854775807)).cells[0]? = some 255 := by
  have hmax : (9223372036854775807 : Int) ≤ Int64.maxValue.toInt := by decide
  obtain ⟨hring, hcounts⟩ := edits_are_modular (c := 9223372036854775807) (by decide) hmax
  have hsame := (hring [.step .decrement, .step .left]).same 2
  obtain ⟨hpointer, hcell⟩ := hcounts [.decrement, .left]
  obtain ⟨b, hb, hvalue⟩ := hcell 0 (by decide)
  refine ⟨by decide, hmax, hsame, Int.natCast_inj.mp hpointer, ?_⟩
  have hfull : b = 255 := UInt8.toNat_inj.mp (Int.natCast_inj.mp hvalue)
  rw [← hfull]
  exact hb

end Tape
end TapeLang
