import TapeLang.Code.Assembler
import TapeLang.Image
import TapeLang.Proofs.Partner

/-!
# TapeLang.Proofs.Layout — where compiled code is

Compiling a program writes the instructions of its operators one after the other, between an instruction that allocates
the tape and a final `ret`.  So the code of the operator at position `i` starts at `p.address i`, whatever stands around
it.

* `Op.width`, `Program.address`: the lengths of the operators' code, and where each one starts.
* `Program.codeOf`: the code of one operator, for a way to write branch targets.  The assembler writes labels
  (`Assembler.Written`), linking replaces them by indices (`linkInstr_codeOf`).
* `Program.place`: the index that the label of a bracket stands for: the test of the loop, or the instruction behind it.
* `Assembler.compile_eq_ok`: a program with matched brackets is compiled, and `Program.code` is its code.
* `Program.Layout`: what that says of single instructions; `Assembler.compile_layout` states it of the compiler.

Labels are numbered in the order of the brackets (`labelling_markers`), so different brackets have different labels and
no mark is overwritten (`Written.extend`).
-/

namespace TapeLang

/-! ## Addresses -/

/-- The number of instructions of an operator. -/
def Op.width : Op → Nat
  | right | left | increment | decrement | loopOpen => 4
  | output => 2
  | input => 6
  | loopClose => 1

/-- The number of instructions of a list of operators. -/
def codeLength : List (Nat × Op) → Nat
  | [] => 0
  | (_, o) :: ops => o.width + codeLength ops

theorem codeLength_append (ops ops' : List (Nat × Op)) :
    codeLength (ops ++ ops') = codeLength ops + codeLength ops' := by
  induction ops with
  | nil => simp [codeLength]
  | cons o ops ih => rw [List.cons_append, codeLength, codeLength, ih, Nat.add_assoc]

namespace Program

variable {p : Program} {i j q : Nat} {o : Op}

/-- The operators before a position. -/
def opsBefore (p : Program) (i : Nat) : List (Nat × Op) := p.ops.filter (·.1 < i)

/-- Where the code of the operator at a position starts: behind the first instruction and the code of the operators
before. -/
def address (p : Program) (i : Nat) : Nat := 1 + codeLength (p.opsBefore i)

theorem le_of_mem_opsFrom {x : Nat × Op} (h : x ∈ p.opsFrom i) : i ≤ x.1 := by
  simp only [opsFrom, List.mem_filterMap, Option.map_eq_some_iff] at h
  obtain ⟨⟨c, j⟩, hmem, o, -, rfl⟩ := h
  exact List.le_snd_of_mem_zipIdx hmem

theorem mem_ops : (i, o) ∈ p.ops ↔ p.op? i = some o := by
  simp only [ops, op?, List.mem_filterMap, Option.map_eq_some_iff, Option.bind_eq_some_iff, Prod.exists,
    List.mem_zipIdx_iff_getElem?, Array.getElem?_toList]
  constructor
  · rintro ⟨c, j, hc, o', ho, heq⟩
    cases heq
    exact ⟨c, hc, ho⟩
  · rintro ⟨c, hc, ho⟩
    exact ⟨c, i, hc, o, ho, rfl⟩

theorem lt_of_mem_opsBefore {x : Nat × Op} (h : x ∈ p.opsBefore i) : x.1 < i := by
  simpa using (List.mem_filter.mp h).2

theorem opsBefore_eq_of_append {ops : List (Nat × Op)} (h : ops ++ p.opsFrom i = p.ops) (hlt : ∀ x ∈ ops, x.1 < i) :
    p.opsBefore i = ops := by
  have h1 : ops.filter (·.1 < i) = ops := List.filter_eq_self.mpr fun x hx => by simpa using hlt x hx
  have h2 : (p.opsFrom i).filter (·.1 < i) = [] :=
    List.filter_eq_nil_iff.mpr fun x hx => by simpa using le_of_mem_opsFrom hx
  rw [opsBefore, ← h, List.filter_append, h1, h2, List.append_nil]

theorem opsBefore_append_opsFrom (p : Program) (i : Nat) : p.opsBefore i ++ p.opsFrom i = p.ops := by
  induction i with
  | zero => simp [opsBefore, opsFrom_zero]
  | succ i ih =>
    cases h : p.op? i with
    | some o =>
      have hsplit : (p.opsBefore i ++ [(i, o)]) ++ p.opsFrom (i + 1) = p.ops := by
        rw [List.append_assoc, List.singleton_append, ← opsFrom_of_op? h, ih]
      rw [opsBefore_eq_of_append hsplit, hsplit]
      intro x hx
      rcases List.mem_append.mp hx with hx | hx
      · exact Nat.lt_succ_of_lt (lt_of_mem_opsBefore hx)
      · rw [List.mem_singleton.mp hx]; exact Nat.lt_succ_self i
    | none =>
      have hrest : p.opsFrom i = p.opsFrom (i + 1) := by
        rcases Nat.lt_or_ge i p.size with hlt | hge
        · exact opsFrom_of_comment hlt h
        · rw [opsFrom_of_le hge, opsFrom_of_le (Nat.le_succ_of_le hge)]
      rw [hrest] at ih
      rw [opsBefore_eq_of_append ih fun x hx => Nat.lt_succ_of_lt (lt_of_mem_opsBefore hx), ih]

theorem opsBefore_of_op? (h : p.op? i = some o) : p.opsBefore (i + 1) = p.opsBefore i ++ [(i, o)] := by
  refine (List.append_left_inj (p.opsFrom (i + 1))).mp ?_
  rw [List.append_assoc, List.singleton_append, ← opsFrom_of_op? h, opsBefore_append_opsFrom, opsBefore_append_opsFrom]

theorem opsBefore_of_comment (hi : i < p.size) (h : p.op? i = none) : p.opsBefore (i + 1) = p.opsBefore i := by
  refine (List.append_left_inj (p.opsFrom (i + 1))).mp ?_
  rw [opsBefore_append_opsFrom, ← opsFrom_of_comment hi h, opsBefore_append_opsFrom]

theorem opsBefore_of_le (h : p.size ≤ i) : p.opsBefore i = p.ops := by
  rw [← opsBefore_append_opsFrom p i, opsFrom_of_le h, List.append_nil]

theorem address_of_op? (h : p.op? i = some o) : p.address (i + 1) = p.address i + o.width := by
  simp [address, opsBefore_of_op? h, codeLength_append, codeLength, Nat.add_assoc]

theorem address_of_comment (hi : i < p.size) (h : p.op? i = none) : p.address (i + 1) = p.address i := by
  rw [address, opsBefore_of_comment hi h, address]

theorem opsBefore_zero (p : Program) : p.opsBefore 0 = [] :=
  opsBefore_eq_of_append (by rw [opsFrom_zero, List.nil_append]) (by simp)

theorem address_zero (p : Program) : p.address 0 = 1 := by
  rw [address, opsBefore_zero, codeLength]

/-! ## The code of one operator -/

/-- The code of one operator, where `exit` is written for the end of the code, and `other i` for the place that the
bracket at `i` may go to. -/
def codeOf (exit : Operand) (other : Nat → Operand) : Nat × Op → List Instr
  | (_, .right) => [.plain .loadPtr, .constant 1, .plain .add, .plain .storePtr]
  | (_, .left) => [.plain .loadPtr, .constant 1, .plain .sub, .plain .storePtr]
  | (_, .increment) => [.plain .loadCell, .constant 1, .plain .add, .plain .storeCell]
  | (_, .decrement) => [.plain .loadCell, .constant 1, .plain .sub, .plain .storeCell]
  | (_, .output) => [.plain .loadCell, .plain .write]
  | (_, .input) =>
    [.plain .read, .plain .dup, .constant (-1), .plain .eq, ⟨.jumpIfTrue, some exit⟩, .plain .storeCell]
  | (i, .loopOpen) => [.plain .loadCell, .constant 0, .plain .eq, ⟨.jumpIfTrue, some (other i)⟩]
  | (i, .loopClose) => [⟨.jump, some (other i)⟩]

theorem length_codeOf (exit : Operand) (other : Nat → Operand) (x : Nat × Op) :
    (codeOf exit other x).length = x.2.width := by
  obtain ⟨i, o⟩ := x
  cases o <;> rfl

theorem length_flatMap_codeOf (exit : Operand) (other : Nat → Operand) (ops : List (Nat × Op)) :
    (ops.flatMap (codeOf exit other)).length = codeLength ops := by
  induction ops with
  | nil => rfl
  | cons x ops ih => rw [List.flatMap_cons, List.length_append, length_codeOf, ih]; rfl

/-- The index that the label of a bracket stands for: the first instruction of an opening one, and the one behind the
code of a closing one. -/
def place (p : Program) (i : Nat) : Nat :=
  match p.op? i with
  | some .loopClose => p.address i + 1
  | _ => p.address i

/-- The partner of a bracket in a program whose brackets match. -/
def partner (p : Program) (i : Nat) : Nat := (p.partner? i).getD 0

/-- The index of the final instruction. -/
def exit (p : Program) : Nat := p.address p.size

theorem address_of_le (h : p.size ≤ i) : p.address i = p.exit := by
  rw [exit, address, address, opsBefore_of_le h, opsBefore_of_le (Nat.le_refl _)]

/-- The code of one operator with indices for targets. -/
def linkedCode (p : Program) : Nat × Op → List Instr :=
  codeOf (.jump p.exit) fun i => .jump (p.place (p.partner i))

/-- The code of a program. -/
def code (p : Program) (tapeSize : Nat) : Code :=
  ⟨(Instr.mk .newTape (some (.size tapeSize)) :: (p.ops.flatMap p.linkedCode ++ [.plain .ret])).toArray⟩

end Program

/-! ## Labels -/

namespace Assembler

open Program

section Labels

/-- The number of brackets before a position. -/
def rank (partners : List (Option Nat)) (i : Nat) : Nat := (partners.take i).countP Option.isSome

theorem rank_succ {partners : List (Option Nat)} {i : Nat} {o : Option Nat} (h : partners[i]? = some o) :
    rank partners (i + 1) = rank partners i + if o.isSome then 1 else 0 := by
  rw [rank, rank, List.take_add_one, h, List.countP_append]
  simp [List.countP_cons]

theorem rank_mono {partners : List (Option Nat)} {i j : Nat} (h : i ≤ j) : rank partners i ≤ rank partners j := by
  rw [rank, rank, ← List.take_append_drop i (partners.take j), List.countP_append, List.take_take, Nat.min_eq_left h]
  exact Nat.le_add_right _ _

theorem rank_lt_rank {partners : List (Option Nat)} {i j q : Nat} (hi : partners[i]? = some (some q)) (h : i < j) :
    rank partners i < rank partners j := by
  have h1 := rank_succ hi
  have h2 : rank partners (i + 1) ≤ rank partners j := rank_mono h
  simp only [Option.isSome_some, if_true] at h1
  omega

/-- Numbering puts a marker at every bracket, with the number of brackets before it. -/
theorem getElem?_foldl_addMarker (xs : List (Option Nat)) (ms : Array (Option Marker)) (l : Nat) :
    (∀ i, i < ms.size → (xs.foldl addMarker (ms, l)).1[i]? = ms[i]?) ∧
      ∀ i o, xs[i]? = some o → (xs.foldl addMarker (ms, l)).1[ms.size + i]? = some (o.map (⟨l + rank xs i, ·⟩)) := by
  induction xs generalizing ms l with
  | nil => exact ⟨fun _ _ => rfl, fun _ _ h => by simp at h⟩
  | cons x xs ih =>
    have hadd : addMarker (ms, l) x = (ms.push (x.map (⟨l, ·⟩)), l + if x.isSome then 1 else 0) := by cases x <;> rfl
    rw [List.foldl_cons, hadd]
    obtain ⟨ih1, ih2⟩ := ih (ms.push (x.map (⟨l, ·⟩))) (l + if x.isSome then 1 else 0)
    rw [Array.size_push] at ih1 ih2
    refine ⟨fun i hi => ?_, fun i o ho => ?_⟩
    · rw [ih1 i (by omega), Array.getElem?_push_lt hi, Array.getElem?_eq_getElem hi]
    · cases i with
      | zero =>
        cases ho
        rw [Nat.add_zero, ih1 ms.size (by omega), Array.getElem?_push_size]
        rfl
      | succ i =>
        have hrank : rank (x :: xs) (i + 1) = rank xs i + if x.isSome then 1 else 0 := by
          rw [rank, List.take_succ_cons, List.countP_cons, rank]
        rw [show ms.size + (i + 1) = ms.size + 1 + i by omega, ih2 i o ho, hrank, Nat.add_assoc,
          Nat.add_comm (rank xs i)]

/-- Brackets have markers: a label each, all different and before the exit label, and the position of the partner. -/
structure Labelling (p : Program) (ms : Array (Option Marker)) (label : Nat → Nat) (exit : Nat) : Prop where
  marker : ∀ {i q}, p.partner? i = some q → markerAt ms i = .ok ⟨label i, q⟩
  lt_exit : ∀ {i q}, p.partner? i = some q → label i < exit
  inj : ∀ {i j q r}, p.partner? i = some q → p.partner? j = some r → label i = label j → i = j

theorem length_filterMap_zipIdx (xs : List (Option Nat)) (n : Nat) :
    ((xs.zipIdx n).filterMap fun (partner, i) => partner.map (i, ·)).length = rank xs xs.length := by
  induction xs generalizing n with
  | nil => rfl
  | cons x xs ih =>
    have h := ih (n + 1)
    rw [rank, List.take_length] at h ⊢
    cases x <;> simp [h]

theorem lt_size_of_partner? {p : Program} {i q : Nat} (h : p.partner? i = some q) : i < p.size := by
  cases ho : p.op? i with
  | none => rw [partner?_of_comment ho] at h; cases h
  | some o => exact lt_size_of_op? ho

theorem labelling_markers {p : Program} {m : Matching} (hsize : m.partners.size = p.size)
    (hm : ∀ i, i < p.size → m.partners[i]? = some (p.partner? i)) :
    Labelling p (markers m) (rank m.partners.toList) m.count := by
  have hget {i q : Nat} (h : p.partner? i = some q) : m.partners.toList[i]? = some (some q) := by
    rw [Array.getElem?_toList, hm i (lt_size_of_partner? h), h]
  refine ⟨fun {i q} h => ?_, fun {i q} h => ?_, fun {i j q r} hi hj hij => ?_⟩
  · have hi := (getElem?_foldl_addMarker m.partners.toList #[] 0).2 i _ (hget h)
    rw [show (#[] : Array (Option Marker)).size + i = i from Nat.zero_add i, Nat.zero_add] at hi
    rw [markerAt, markers, ← Array.foldl_toList, hi]
    rfl
  · have hlen := lt_size_of_partner? h
    rw [Matching.count, Matching.pairs, length_filterMap_zipIdx]
    exact rank_lt_rank (hget h) (by rw [Array.length_toList, hsize]; exact hlen)
  · rcases Nat.lt_trichotomy i j with hlt | rfl | hgt
    · have := rank_lt_rank (hget hi) hlt
      omega
    · rfl
    · have := rank_lt_rank (hget hj) hgt
      omega

end Labels

/-! ## Writing -/

section Writing

theorem emitAll_eq (a : Assembler) (is : List Instr) :
    a.emitAll is = ⟨a.tapeSize, ⟨a.pending.instrs ++ is.toArray⟩, a.labels⟩ := by
  induction is generalizing a with
  | nil => simp [emitAll]
  | cons i is ih =>
    rw [emitAll, List.foldl_cons]
    refine (ih (a.emit i)).trans ?_
    simp [emit, Code.push]

/-- The code of one operator with labels for targets. -/
def labelledCode (p : Program) (label : Nat → Nat) (exit : Nat) : Nat × Op → List Instr :=
  codeOf (.label exit) fun i => .label (label (p.partner i))

/-- What an assembler has written when it comes to a position: the code of the operators before, and the places of the
brackets before. -/
structure Written (p : Program) (label : Nat → Nat) (exit cells i : Nat) (a : Assembler) : Prop where
  tapeSize : a.tapeSize = cells
  pending : a.pending.instrs.toList =
    Instr.mk .newTape (some (.size cells)) :: (p.opsBefore i).flatMap (labelledCode p label exit)
  size : a.labels.marks.size = exit + 1
  marked : ∀ {j q}, j < i → p.partner? j = some q → a.labels.marks[label j]? = some (some (p.place j))

variable {p : Program} {ms : Array (Option Marker)} {label : Nat → Nat} {exit cells i : Nat} {a b : Assembler}

theorem Written.pending_size (h : Written p label exit cells i a) : a.pending.size = p.address i := by
  rw [Code.size, ← Array.length_toList, h.pending, List.length_cons, labelledCode, length_flatMap_codeOf, address,
    Nat.add_comm]

/-- Behind a comment there is nothing more to write. -/
theorem Written.comment (hi : i < p.size) (ho : p.op? i = none) (h : Written p label exit cells i a) :
    Written p label exit cells (i + 1) a := by
  refine ⟨h.tapeSize, by rw [opsBefore_of_comment hi ho, h.pending], h.size, fun {j q} hj hq => ?_⟩
  rcases Nat.eq_or_lt_of_le (Nat.le_of_lt_succ hj) with rfl | hlt
  · rw [partner?_of_comment ho] at hq; cases hq
  · exact h.marked hlt hq

/-- Behind an operator its code is written, and its label is marked if it is a bracket. -/
theorem Written.extend {o : Op} (h : Written p label exit cells i a) (hl : Labelling p ms label exit)
    (ho : p.op? i = some o) (htape : b.tapeSize = a.tapeSize)
    (hcode : b.pending.instrs.toList = a.pending.instrs.toList ++ labelledCode p label exit (i, o))
    (hmarks : (p.partner? i = none ∧ b.labels = a.labels) ∨
      (∃ q, p.partner? i = some q) ∧ b.labels = a.labels.mark (label i) (p.place i)) :
    Written p label exit cells (i + 1) b := by
  refine ⟨htape.trans h.tapeSize, ?_, ?_, fun {j q} hj hq => ?_⟩
  · rw [hcode, h.pending, opsBefore_of_op? ho, List.flatMap_append, List.flatMap_singleton, List.cons_append]
  · rcases hmarks with ⟨-, hb⟩ | ⟨-, hb⟩
    · rw [hb, h.size]
    · rw [hb, Labels.mark, Array.size_setIfInBounds, h.size]
  · rcases hmarks with ⟨hnone, hb⟩ | ⟨⟨r, hr⟩, hb⟩
    · rw [hb]
      rcases Nat.eq_or_lt_of_le (Nat.le_of_lt_succ hj) with rfl | hlt
      · rw [hnone] at hq; cases hq
      · exact h.marked hlt hq
    · have hlt' := hl.lt_exit hr
      rw [hb, Labels.mark]
      rcases Nat.eq_or_lt_of_le (Nat.le_of_lt_succ hj) with rfl | hlt
      · rw [Array.getElem?_setIfInBounds_self_of_lt (by rw [h.size]; omega)]
      · rw [Array.getElem?_setIfInBounds_ne, h.marked hlt hq]
        intro heq
        have := hl.inj hr hq heq
        omega

/-- One operator: its code is written. -/
theorem Written.step {o : Op} (hcheck : p.check = .ok ()) (hl : Labelling p ms label exit)
    (h : Written p label exit cells i a) (ho : p.op? i = some o) :
    ∃ b, emitOp ms exit a (i, o) = .ok b ∧ Written p label exit cells (i + 1) b := by
  have hcommand {is : List Instr} {c : Command} (hc : p.op? i = some c.op)
      (hcode : labelledCode p label exit (i, o) = is) : Written p label exit cells (i + 1) (a.emitAll is) := by
    rw [emitAll_eq]
    exact h.extend hl ho rfl (by rw [hcode]; simp) (.inl ⟨partner?_of_command hc, rfl⟩)
  cases o with
  | right => exact ⟨_, rfl, hcommand (c := .right) ho rfl⟩
  | left => exact ⟨_, rfl, hcommand (c := .left) ho rfl⟩
  | increment => exact ⟨_, rfl, hcommand (c := .increment) ho rfl⟩
  | decrement => exact ⟨_, rfl, hcommand (c := .decrement) ho rfl⟩
  | output => exact ⟨_, rfl, hcommand (c := .output) ho rfl⟩
  | input => exact ⟨_, rfl, hcommand (c := .input) ho rfl⟩
  | loopOpen =>
    obtain ⟨q, he⟩ := exists_close hcheck ho
    have hpartner : p.partner i = q := by rw [partner, he.partner?_open, Option.getD_some]
    have hplace : p.place i = a.pending.size := by rw [place, ho, h.pending_size]
    refine ⟨(a.mark (label i)).emitAll
      [.plain .loadCell, .constant 0, .plain .eq, .branch .jumpIfTrue (label q)], ?_, ?_⟩
    · rw [emitOp, hl.marker he.partner?_open]
      simp only [bind, Except.bind, hl.marker he.partner?_close, pure, Except.pure]
    · rw [emitAll_eq]
      refine h.extend hl ho rfl ?_ (.inr ⟨⟨q, he.partner?_open⟩, by rw [hplace]; rfl⟩)
      simp [mark, labelledCode, codeOf, hpartner, Instr.branch]
  | loopClose =>
    obtain ⟨q, he⟩ := exists_open hcheck ho
    have hpartner : p.partner i = q := by rw [partner, he.partner?_close, Option.getD_some]
    have hplace : p.place i = (a.emit (.branch .jump (label q))).pending.size := by
      simp [place, ho, ← h.pending_size, emit, Code.push, Code.size]
    refine ⟨(a.emit (.branch .jump (label q))).mark (label i), ?_, ?_⟩
    · rw [emitOp, hl.marker he.partner?_close]
      simp only [bind, Except.bind, hl.marker he.partner?_open, pure, Except.pure]
    · refine h.extend hl ho rfl ?_ (.inr ⟨⟨q, he.partner?_close⟩, by rw [hplace]; rfl⟩)
      simp [mark, emit, Code.push, labelledCode, codeOf, hpartner, Instr.branch]

/-- All operators from a position on. -/
theorem Written.foldlM {n : Nat} (hn : p.size - i ≤ n) (hcheck : p.check = .ok ()) (hl : Labelling p ms label exit)
    (hi : i ≤ p.size) (h : Written p label exit cells i a) :
    ∃ b, (p.opsFrom i).foldlM (emitOp ms exit) a = .ok b ∧ Written p label exit cells p.size b := by
  induction n generalizing i a with
  | zero =>
    have heq : i = p.size := by omega
    subst heq
    exact ⟨a, by rw [opsFrom_of_le (Nat.le_refl _)]; rfl, h⟩
  | succ n ih =>
    rcases Nat.lt_or_ge i p.size with hlt | hge
    · cases ho : p.op? i with
      | none =>
        rw [opsFrom_of_comment hlt ho]
        exact ih (by omega) hlt (h.comment hlt ho)
      | some o =>
        obtain ⟨b, hb, hw⟩ := h.step hcheck hl ho
        rw [opsFrom_of_op? ho, List.foldlM_cons, hb]
        exact ih (by omega) hlt hw
    · have heq : i = p.size := by omega
      subst heq
      exact ⟨a, by rw [opsFrom_of_le (Nat.le_refl _)]; rfl, h⟩

end Writing

/-! ## Linking -/

section Linking

theorem mapM_append_ok {α β ε : Type} {f : α → Except ε β} {xs ys : List α} {xs' ys' : List β}
    (hx : xs.mapM f = .ok xs') (hy : ys.mapM f = .ok ys') : (xs ++ ys).mapM f = .ok (xs' ++ ys') := by
  rw [List.mapM_append, hx, hy]
  rfl

theorem mapM_flatMap_ok {α β γ ε : Type} {f : β → Except ε γ} {g : α → List β} {g' : α → List γ} {xs : List α}
    (h : ∀ x ∈ xs, (g x).mapM f = .ok (g' x)) : (xs.flatMap g).mapM f = .ok (xs.flatMap g') := by
  induction xs with
  | nil => rfl
  | cons x xs ih =>
    exact mapM_append_ok (h x (List.mem_cons_self ..)) (ih fun y hy => h y (List.mem_cons_of_mem x hy))

/-- Linking the code of one operator: the labels in it are replaced by the places they stand for. -/
theorem linkInstr_codeOf {ls : Labels} {exit exit' i : Nat} {o : Op} {other other' : Nat → Nat}
    (hexit : ls.resolve exit = .ok exit')
    (hother : o = .loopOpen ∨ o = .loopClose → ls.resolve (other i) = .ok (other' i)) :
    (codeOf (.label exit) (fun i => .label (other i)) (i, o)).mapM (linkInstr ls) =
      .ok (codeOf (.jump exit') (fun i => .jump (other' i)) (i, o)) := by
  cases o with
  | input => simp [codeOf, linkInstr, Instr.plain, Instr.constant, hexit, bind, Except.bind, pure, Except.pure]
  | loopOpen =>
    simp [codeOf, linkInstr, Instr.plain, Instr.constant, hother (.inl rfl), bind, Except.bind, pure, Except.pure]
  | loopClose =>
    simp [codeOf, linkInstr, hother (.inr rfl), bind, Except.bind, pure, Except.pure]
  | _ => rfl

end Linking

/-! ## Compiling -/

section Compiling

variable {p : Program}

/-- A finished assembly: the code with its labels, and a place for every label. -/
structure Assembled (p : Program) (label : Nat → Nat) (exit cells : Nat) (b : Assembler) : Prop where
  tapeSize : b.tapeSize = cells
  pending : b.pending.instrs.toList =
    Instr.mk .newTape (some (.size cells)) :: (p.ops.flatMap (labelledCode p label exit) ++ [.plain .ret])
  size : b.labels.marks.size = exit + 1
  marked_exit : b.labels.marks[exit]? = some (some p.exit)
  marked : ∀ {i q}, p.partner? i = some q → b.labels.marks[label i]? = some (some (p.place i))

theorem resolve_eq_ok {ls : Labels} {l n : Nat} (h : ls.marks[l]? = some (some n)) : ls.resolve l = .ok n := by
  rw [Labels.resolve, h]

theorem Written.finish {label : Nat → Nat} {exit cells : Nat} {a : Assembler} {ms : Array (Option Marker)}
    (hl : Labelling p ms label exit) (h : Written p label exit cells p.size a) :
    Assembled p label exit cells ((a.mark exit).emit (.plain .ret)) := by
  refine ⟨h.tapeSize, ?_, ?_, ?_, fun {i q} hq => ?_⟩
  · have hpending := h.pending
    rw [opsBefore_of_le (Nat.le_refl _)] at hpending
    simp [emit, mark, Code.push, hpending]
  · show (a.labels.mark exit a.pending.size).marks.size = exit + 1
    rw [Labels.mark, Array.size_setIfInBounds, h.size]
  · show (a.labels.mark exit a.pending.size).marks[exit]? = some (some p.exit)
    rw [Labels.mark, Array.getElem?_setIfInBounds_self_of_lt (by rw [h.size]; omega), h.pending_size, Program.exit]
  · have hlt := hl.lt_exit hq
    show (a.labels.mark exit a.pending.size).marks[label i]? = some (some (p.place i))
    rw [Labels.mark, Array.getElem?_setIfInBounds_ne (by omega), h.marked (lt_size_of_partner? hq) hq]

theorem assemble_eq_ok {m : Matching} (hcheck : p.check = .ok ()) (hsize : m.partners.size = p.size)
    (hm : ∀ i, i < p.size → m.partners[i]? = some (p.partner? i)) (cells : Nat) :
    ∃ b, assemble cells m p = .ok b ∧ Assembled p (rank m.partners.toList) m.count cells b := by
  have hl := labelling_markers hsize hm
  have hstart : Written p (rank m.partners.toList) m.count cells 0 (start cells m) := by
    refine ⟨rfl, ?_, ?_, fun hj => absurd hj (Nat.not_lt_zero _)⟩
    · rw [opsBefore_zero]
      rfl
    · simp [start, emit, Labels.defineMany, Labels.empty]
  obtain ⟨b, hb, hw⟩ := hstart.foldlM (Nat.le_refl _) hcheck hl (Nat.zero_le _)
  rw [opsFrom_zero] at hb
  refine ⟨_, ?_, hw.finish hl⟩
  rw [assemble]
  simp only [hb, bind, Except.bind, pure, Except.pure]

theorem link_eq_ok {label : Nat → Nat} {exit cells : Nat} {b : Assembler} (hcheck : p.check = .ok ())
    (h : Assembled p label exit cells b) : link b.labels b.pending = .ok (p.code cells) := by
  have hops : (p.ops.flatMap (labelledCode p label exit)).mapM (linkInstr b.labels) =
      .ok (p.ops.flatMap p.linkedCode) := by
    refine mapM_flatMap_ok fun x hx => ?_
    obtain ⟨i, o⟩ := x
    refine linkInstr_codeOf (resolve_eq_ok h.marked_exit) fun hbracket => ?_
    have ho := mem_ops.mp hx
    rcases hbracket with rfl | rfl
    · obtain ⟨q, he⟩ := exists_close hcheck ho
      rw [partner, he.partner?_open, Option.getD_some, resolve_eq_ok (h.marked he.partner?_close)]
    · obtain ⟨q, he⟩ := exists_open hcheck ho
      rw [partner, he.partner?_close, Option.getD_some, resolve_eq_ok (h.marked he.partner?_open)]
  have hall : b.pending.instrs.toList.mapM (linkInstr b.labels) =
      .ok (Instr.mk .newTape (some (.size cells)) :: (p.ops.flatMap p.linkedCode ++ [.plain .ret])) := by
    rw [h.pending]
    have hret : [Instr.plain .ret].mapM (linkInstr b.labels) = .ok [Instr.plain .ret] := rfl
    rw [List.mapM_cons, mapM_append_ok hops hret]
    rfl
  rw [link, hall]
  rfl

/-- A program whose brackets match is assembled and linked, and the labels are kept. -/
theorem exists_assembled (hcheck : p.check = .ok ()) (a : Assembler) :
    ∃ m b, Matching.ofProgram p = .ok m ∧ Assembled p (rank m.partners.toList) m.count a.tapeSize b ∧
      a.compile p = (.ok (p.code a.tapeSize), { b with pending := .empty }) := by
  obtain ⟨m, hm, hsize, hget⟩ := Matching.ofProgram_of_check hcheck
  obtain ⟨b, hb, hdone⟩ := assemble_eq_ok hcheck hsize hget a.tapeSize
  refine ⟨m, b, hm, hdone, ?_⟩
  rw [compile, hm]
  simp only [hb, link_eq_ok hcheck hdone]

/-- **What a program compiles to**, whatever the assembler did before. -/
theorem compile_eq_ok (hcheck : p.check = .ok ()) (a : Assembler) : (a.compile p).1 = .ok (p.code a.tapeSize) := by
  obtain ⟨m, b, -, -, hcompile⟩ := exists_assembled hcheck a
  rw [hcompile]

theorem compile_eq_error {u : Unmatched} (h : Matching.ofProgram p = .error u) (a : Assembler) :
    a.compile p = (.error (.malformed u), a) := by
  rw [compile, h]

end Compiling
end Assembler

/-! ## Reading the code -/

namespace Program

section Reading

variable {p : Program} {i j n cells : Nat} {o : Op} {x : Instr}

theorem address_le_succ (p : Program) (i : Nat) : p.address i ≤ p.address (i + 1) := by
  cases ho : p.op? i with
  | some o => rw [address_of_op? ho]; exact Nat.le_add_right _ _
  | none =>
    rcases Nat.lt_or_ge i p.size with hlt | hge
    · exact Nat.le_of_eq (address_of_comment hlt ho).symm
    · exact Nat.le_of_eq (by rw [address_of_le hge, address_of_le (Nat.le_succ_of_le hge)])

theorem address_mono (h : i ≤ j) : p.address i ≤ p.address j := by
  induction h with
  | refl => exact Nat.le_refl _
  | step _ ih => exact Nat.le_trans ih (address_le_succ p _)

theorem address_add_width_le_exit (h : p.op? i = some o) : p.address i + o.width ≤ p.exit := by
  rw [← address_of_op? h]
  exact address_mono (lt_size_of_op? h)

theorem place_le_exit (p : Program) (i : Nat) : p.place i ≤ p.exit := by
  have haddress : p.address i ≤ p.exit := by
    rcases Nat.le_total i p.size with hle | hge
    · exact address_mono hle
    · exact Nat.le_of_eq (address_of_le hge)
  rw [place]
  split
  · rename_i ho
    exact address_add_width_le_exit ho
  · exact haddress

theorem size_code (p : Program) (cells : Nat) : (p.code cells).size = p.exit + 1 := by
  simp only [Code.size, code, List.size_toArray, List.length_cons, List.length_append, linkedCode,
    length_flatMap_codeOf, exit, address, opsBefore_of_le (Nat.le_refl p.size), List.length_nil]
  omega

/-- No operator has more than six instructions. -/
theorem address_le (p : Program) (hi : i ≤ p.size) : p.address i ≤ 6 * i + 1 := by
  induction i with
  | zero => exact Nat.le_of_eq (address_zero p)
  | succ i ih =>
    have hle := ih (Nat.le_of_succ_le hi)
    cases ho : p.op? i with
    | some o =>
      have hwidth : o.width ≤ 6 := by cases o <;> decide
      rw [address_of_op? ho]
      omega
    | none =>
      rw [address_of_comment hi ho]
      omega

theorem size_code_le (p : Program) (cells : Nat) : (p.code cells).size ≤ 6 * p.size + 2 := by
  rw [size_code]
  exact Nat.succ_le_succ (address_le p (Nat.le_refl _))

/-- **The code of an operator is at its address.** -/
theorem getElem?_code (ho : p.op? i = some o) (hn : n < o.width) :
    (p.code cells).instrs[p.address i + n]? = (p.linkedCode (i, o))[n]? := by
  have hsplit : p.ops = p.opsBefore i ++ (i, o) :: p.opsFrom (i + 1) := by
    rw [← opsFrom_of_op? ho, opsBefore_append_opsFrom]
  have hbefore : ((p.opsBefore i).flatMap p.linkedCode).length = codeLength (p.opsBefore i) :=
    length_flatMap_codeOf ..
  have hlen : (p.linkedCode (i, o)).length = o.width := length_codeOf ..
  rw [code, List.getElem?_toArray, hsplit, List.flatMap_append, List.flatMap_cons, address,
    show 1 + codeLength (p.opsBefore i) + n = codeLength (p.opsBefore i) + n + 1 by omega, List.getElem?_cons_succ,
    List.append_assoc, List.getElem?_append_right (by omega), hbefore, Nat.add_sub_cancel_left, List.append_assoc,
    List.getElem?_append_left (by omega)]

theorem getElem?_code_address (cells : Nat) (ho : p.op? i = some o) :
    (p.code cells).instrs[p.address i]? = (p.linkedCode (i, o))[0]? := by
  have hpos : 0 < o.width := by cases o <;> decide
  exact getElem?_code (n := 0) ho hpos

theorem getElem?_code_zero (p : Program) (cells : Nat) :
    (p.code cells).instrs[0]? = some ⟨.newTape, some (.size cells)⟩ := rfl

theorem getElem?_code_exit (p : Program) (cells : Nat) : (p.code cells).instrs[p.exit]? = some (.plain .ret) := by
  have hlen : (p.ops.flatMap p.linkedCode).length = codeLength p.ops := length_flatMap_codeOf ..
  rw [code, List.getElem?_toArray, exit, address, opsBefore_of_le (Nat.le_refl _), Nat.add_comm,
    List.getElem?_cons_succ, List.getElem?_append_right (by omega), hlen, Nat.sub_self]
  rfl

theorem mem_code : x ∈ (p.code cells).instrs.toList ↔
    x = ⟨.newTape, some (.size cells)⟩ ∨ (∃ y ∈ p.ops, x ∈ p.linkedCode y) ∨ x = .plain .ret := by
  simp only [code, List.mem_cons, List.mem_append, List.mem_flatMap, List.not_mem_nil, or_false]

/-- The code of an operator has no `ret` and no label in it, and every operand is as it should be. -/
theorem instrOk_of_mem_linkedCode {y : Nat × Op} (h : x ∈ p.linkedCode y) :
    x.opcode ≠ .ret ∧ Image.instrOk (p.exit + 1) x = true := by
  have hplace := place_le_exit p (p.partner y.1)
  obtain ⟨i, o⟩ := y
  cases o <;> simp only [linkedCode, codeOf, List.mem_cons, List.not_mem_nil, or_false] at h <;>
    rcases h with rfl | rfl | rfl | rfl | rfl | rfl <;>
    simp [Image.instrOk, Instr.plain, Instr.constant, Nat.lt_succ_of_le hplace]

theorem operand_of_instrOk {size : Nat} (h : Image.instrOk size x = true) :
    (∀ l, x.operand ≠ some (.label l)) ∧ ∀ t, x.operand = some (.jump t) → t < size := by
  obtain ⟨opcode, operand⟩ := x
  refine ⟨fun l hl => ?_, fun t ht => ?_⟩
  · cases hl
    cases opcode <;> cases h
  · cases ht
    cases opcode with
    | jump | jumpIfTrue => exact of_decide_eq_true h
    | _ => cases h

end Reading

/-! ## The layout of compiled code -/

/-- How the code of a program is laid out. -/
structure Layout (p : Program) (cells : Nat) (code : Code) : Prop where
  /-- The tape is allocated, then the operators follow in source order, then the run ends. -/
  whole : code.instrs.toList = ⟨.newTape, some (.size cells)⟩ :: (p.ops.flatMap p.linkedCode ++ [.plain .ret])
  /-- The last instruction is the only `ret`. -/
  ret_iff : ∀ n x, code.instrs[n]? = some x → (x.opcode = .ret ↔ n + 1 = code.size)
  /-- Every operator has its number of instructions, and they are at its address. -/
  block : ∀ i o, p.op? i = some o → (p.linkedCode (i, o)).length = o.width ∧
    ∀ n, n < o.width → code.instrs[p.address i + n]? = (p.linkedCode (i, o))[n]?
  /-- Every opening bracket has its closing one, -/
  closed : ∀ i, p.op? i = some .loopOpen → ∃ q, p.Encloses i q
  /-- and every closing bracket its opening one. -/
  opened : ∀ q, p.op? q = some .loopClose → ∃ i, p.Encloses i q
  /-- A loop is left behind its last instruction, and gone on with at its first. -/
  loop : ∀ i q, p.Encloses i q →
    code.instrs[p.address i + 3]? = some ⟨.jumpIfTrue, some (.jump (p.address q + 1))⟩ ∧
      code.instrs[p.address q]? = some ⟨.jump, some (.jump (p.address i))⟩
  /-- Cancelled input goes to the final `ret`. -/
  cancel : ∀ i, p.op? i = some .input →
    code.instrs[p.address i + 4]? = some ⟨.jumpIfTrue, some (.jump (code.size - 1))⟩
  /-- No label is left. -/
  no_label : ∀ x ∈ code.instrs.toList, ∀ l, x.operand ≠ some (.label l)
  /-- Every target is the index of an instruction. -/
  target_lt : ∀ x ∈ code.instrs.toList, ∀ t, x.operand = some (.jump t) → t < code.size

variable {p : Program} {i q n cells : Nat} {o : Op}

theorem getElem?_code_loopOpen (h : p.Encloses i q) :
    (p.code cells).instrs[p.address i + 3]? = some ⟨.jumpIfTrue, some (.jump (p.address q + 1))⟩ := by
  rw [getElem?_code h.opens (by decide)]
  simp [linkedCode, codeOf, partner, h.partner?_open, place, h.closes]

theorem getElem?_code_loopClose (h : p.Encloses i q) :
    (p.code cells).instrs[p.address q]? = some ⟨.jump, some (.jump (p.address i))⟩ := by
  rw [getElem?_code_address cells h.closes]
  simp [linkedCode, codeOf, partner, h.partner?_close, place, h.opens]

theorem opcode_eq_ret_iff {x : Instr} (hx : (p.code cells).instrs[n]? = some x) :
    x.opcode = .ret ↔ n + 1 = (p.code cells).size := by
  have hlt : n < (p.code cells).size := (Array.getElem?_eq_some_iff.mp hx).1
  have hlen : (p.ops.flatMap p.linkedCode).length = codeLength p.ops := length_flatMap_codeOf ..
  have hexit : p.exit = 1 + codeLength p.ops := by rw [exit, address, opsBefore_of_le (Nat.le_refl _)]
  rw [size_code] at hlt ⊢
  rcases Nat.eq_or_lt_of_le (Nat.le_of_lt_succ hlt) with rfl | hbefore
  · rw [getElem?_code_exit] at hx
    cases hx
    exact ⟨fun _ => rfl, fun _ => rfl⟩
  · refine ⟨fun hret => ?_, fun heq => by omega⟩
    cases n with
    | zero => rw [getElem?_code_zero] at hx; cases hx; cases hret
    | succ n =>
      rw [code, List.getElem?_toArray, List.getElem?_cons_succ, List.getElem?_append_left (by omega)] at hx
      obtain ⟨y, -, hy⟩ := List.mem_flatMap.mp (List.mem_of_getElem? hx)
      exact absurd hret (instrOk_of_mem_linkedCode hy).1

theorem layout_code (hcheck : p.check = .ok ()) (cells : Nat) : p.Layout cells (p.code cells) where
  whole := rfl
  ret_iff _ _ hx := opcode_eq_ret_iff hx
  block _ _ ho := ⟨length_codeOf .., fun _ hn => getElem?_code ho hn⟩
  closed _ ho := exists_close hcheck ho
  opened _ ho := exists_open hcheck ho
  loop _ _ h := ⟨getElem?_code_loopOpen h, getElem?_code_loopClose h⟩
  cancel i ho := by
    rw [getElem?_code ho (by decide), size_code]
    rfl
  no_label x hx := by
    rcases mem_code.mp hx with rfl | ⟨y, -, hy⟩ | rfl
    · intro l hl; cases hl
    · exact (operand_of_instrOk (instrOk_of_mem_linkedCode hy).2).1
    · intro l hl; cases hl
  target_lt x hx := by
    rw [size_code]
    rcases mem_code.mp hx with rfl | ⟨y, -, hy⟩ | rfl
    · intro t ht; cases ht
    · exact (operand_of_instrOk (instrOk_of_mem_linkedCode hy).2).2
    · intro t ht; cases ht

/-- Code for a tape of a valid size may be run. -/
theorem validate_code (p : Program) (h1 : 1 ≤ cells) (h2 : cells ≤ sizeLimit) :
    Image.validate (p.code cells) = .ok () := by
  have hall : (p.code cells).instrs.toList.zipIdx.find? (fun y => !Image.instrOk (p.code cells).size y.1) = none := by
    refine List.find?_eq_none.mpr fun y hy => ?_
    have hok : Image.instrOk (p.exit + 1) y.1 = true := by
      rcases mem_code.mp (List.fst_mem_of_mem_zipIdx hy) with hx | ⟨z, -, hz⟩ | hx
      · rw [hx]
        simp [Image.instrOk, h2]
        omega
      · exact (instrOk_of_mem_linkedCode hz).2
      · rw [hx]; rfl
    simp [size_code, hok]
  have hsize : (p.code cells).tapeSize? = some cells := rfl
  simp only [Image.validate, hsize, hall, if_neg (Nat.not_lt.mpr h2), if_neg (show ¬cells = 0 by omega)]
  rfl

end Program

/-- **Compiling fails only on unmatched brackets, and otherwise the code is laid out as described** and passes
validation if the tape has a valid size. -/
theorem Assembler.compile_layout (a : Assembler) (p : Program) :
    (∀ e, (a.compile p).1 = .error e ↔ ∃ u, Matching.ofProgram p = .error u ∧ e = .malformed u) ∧
      ∀ code, (a.compile p).1 = .ok code → p.Layout a.tapeSize code ∧
        (1 ≤ a.tapeSize → a.tapeSize ≤ sizeLimit → Image.validate code = .ok ()) := by
  cases hm : Matching.ofProgram p with
  | error u =>
    rw [Assembler.compile_eq_error hm]
    refine ⟨fun e => ⟨?_, ?_⟩, fun code hcode => (nomatch hcode)⟩
    · rintro ⟨⟩
      exact ⟨u, rfl, rfl⟩
    · rintro ⟨_, ⟨⟩, rfl⟩
      rfl
  | ok m =>
    have hcheck := Matching.check_of_ofProgram hm
    rw [Assembler.compile_eq_ok hcheck]
    refine ⟨fun e => ⟨fun he => (nomatch he), ?_⟩, ?_⟩
    · rintro ⟨_, ⟨⟩, _⟩
    · rintro _ ⟨⟩
      exact ⟨Program.layout_code hcheck _, Program.validate_code p⟩

theorem Assembler.compile_layout_loop :
    ∃ code, ((Assembler.new 30).compile ⟨#[',', '[', '#', '.', ',', ']']⟩).1 = .ok code ∧
      Program.Layout ⟨#[',', '[', '#', '.', ',', ']']⟩ 30 code ∧ Image.validate code = .ok () := by
  have hok := Assembler.compile_eq_ok (p := ⟨#[',', '[', '#', '.', ',', ']']⟩) rfl (Assembler.new 30)
  obtain ⟨hlayout, hvalid⟩ := (Assembler.compile_layout (Assembler.new 30) _).2 _ hok
  exact ⟨_, hok, hlayout, hvalid (by decide) (by decide)⟩

end TapeLang
