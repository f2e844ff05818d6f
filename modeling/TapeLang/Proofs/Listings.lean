import TapeLang.Proofs.Layout
import TapeLang.Proofs.Safety

/-!
# TapeLang.Proofs.Listings — what a listing tells

A listing is made for the eye: indices are padded to five digits and grow beyond them, names are padded to a column, and a
constant looks like a number of cells.  Still it loses nothing but that last difference.

* `Operand.Reading`: what is left of an operand when constants and numbers of cells are not told apart.  `Code.readings` keeps
  the instructions in order, each with its operation and the reading of its operand.
* `Operand.Reading.show_inj`, `Instr.show_eq_iff`, `Instr.lines_eq_iff`: the texts of operands, of instructions and of lists
  of lines are equal just when the readings are.  Numerals are told apart by their value, names end at the first blank, and
  lines at the first line end (`flatMap_lines_inj`).
* `Instr.Definite`: an instruction whose operation says which of the two its number is.  Valid code and compiled code have no
  others.
* **`Code.listing_faithful`** puts this together.
-/

namespace TapeLang

/-! ## Numerals -/

namespace Text

theorem value_decimal (n : Nat) : Nat.ofDigitChars 10 (decimal n) 0 = n := Nat.ofDigitChars_ten_toDigits

theorem decimal_inj {n m : Nat} (h : decimal n = decimal m) : n = m := by
  rw [← value_decimal n, h, value_decimal]

/-- Leading zeros do not change the value. -/
theorem value_fiveDigits (n : Nat) : Nat.ofDigitChars 10 (fiveDigits n) 0 = n := by
  rw [fiveDigits, padLeft, Nat.ofDigitChars_append, Nat.ofDigitChars_replicate_zero, Nat.mul_zero, value_decimal]

theorem fiveDigits_inj {n m : Nat} (h : fiveDigits n = fiveDigits m) : n = m := by
  rw [← value_fiveDigits n, h, value_fiveDigits]

theorem isDigit_of_mem_decimal {n : Nat} {c : Char} (h : c ∈ decimal n) : c.isDigit = true :=
  (Json.isDigits_decimal n).digit c h

theorem isDigit_of_mem_fiveDigits {n : Nat} {c : Char} (h : c ∈ fiveDigits n) : c.isDigit = true := by
  rcases List.mem_append.mp h with h | h
  · rw [List.eq_of_mem_replicate h]
    rfl
  · exact isDigit_of_mem_decimal h

theorem signedDecimal_ofNat (n : Nat) : signedDecimal n = decimal n := by
  rw [signedDecimal, if_neg (Int.not_lt.mpr (Int.natCast_nonneg n)), Int.natAbs_natCast]

/-- A signed numeral is made of digits behind at most a minus sign. -/
theorem mem_signedDecimal {v : Int} {c : Char} (h : c ∈ signedDecimal v) : c = '-' ∨ c.isDigit = true := by
  rw [signedDecimal] at h
  split at h
  · rcases List.mem_cons.mp h with rfl | h
    · exact .inl rfl
    · exact .inr (isDigit_of_mem_decimal h)
  · exact .inr (isDigit_of_mem_decimal h)

theorem minus_not_mem_decimal (n : Nat) : '-' ∉ decimal n := by
  intro h
  cases isDigit_of_mem_decimal h

theorem signedDecimal_inj {v w : Int} (h : signedDecimal v = signedDecimal w) : v = w := by
  unfold signedDecimal at h
  split at h <;> split at h
  · have := decimal_inj (List.cons.inj h).2
    omega
  · exact absurd (h ▸ List.mem_cons_self ..) (minus_not_mem_decimal w.natAbs)
  · exact absurd (h.symm ▸ List.mem_cons_self ..) (minus_not_mem_decimal v.natAbs)
  · have := decimal_inj h
    omega

/-- A numeral is not taken for a text behind a letter or a sign of its own. -/
theorem signedDecimal_ne_cons {v : Int} {c : Char} {cs : List Char} (hminus : c ≠ '-') (hdigit : c.isDigit = false) :
    signedDecimal v ≠ c :: cs := by
  intro h
  rcases mem_signedDecimal (h ▸ List.mem_cons_self ..) with heq | hd
  · exact hminus heq
  · rw [hdigit] at hd
    cases hd

end Text

open Text (decimal signedDecimal fiveDigits padRight)

/-! ## Operands -/

/-- What an operand says when a constant and a number of cells of the same value are not told apart. -/
inductive Operand.Reading where
  /-- A constant or a number of cells. -/
  | number (value : Int)
  /-- A branch target that is not yet placed. -/
  | label (number : Nat)
  /-- A branch target. -/
  | jump (target : Nat)
deriving DecidableEq

namespace Operand

/-- The reading of an operand. -/
def reading : Operand → Reading
  | int v => .number v.toInt
  | size n => .number n
  | label n => .label n
  | jump n => .jump n

/-- A reading as it is shown. -/
def Reading.show : Reading → List Char
  | number v => signedDecimal v
  | label n => 'L' :: decimal n
  | jump n => '@' :: fiveDigits n

theorem show_eq (o : Operand) : o.show = o.reading.show := by
  cases o with
  | size n => exact (Text.signedDecimal_ofNat n).symm
  | _ => rfl

theorem Reading.show_inj {r s : Reading} (h : r.show = s.show) : r = s := by
  cases r with
  | number v =>
    cases s with
    | number w => rw [Text.signedDecimal_inj h]
    | label n => exact absurd h (Text.signedDecimal_ne_cons (by decide) (by decide))
    | jump n => exact absurd h (Text.signedDecimal_ne_cons (by decide) (by decide))
  | label n =>
    cases s with
    | number w => exact absurd h.symm (Text.signedDecimal_ne_cons (by decide) (by decide))
    | label m => rw [Text.decimal_inj (List.cons.inj h).2]
    | jump m => exact absurd (List.cons.inj h).1 (by decide)
  | jump n =>
    cases s with
    | number w => exact absurd h.symm (Text.signedDecimal_ne_cons (by decide) (by decide))
    | label m => exact absurd (List.cons.inj h).1 (by decide)
    | jump m => rw [Text.fiveDigits_inj (List.cons.inj h).2]

theorem Reading.newline_not_mem_show (r : Reading) : '\n' ∉ r.show := by
  intro h
  cases r with
  | number v =>
    rcases Text.mem_signedDecimal h with heq | hd
    · cases heq
    · cases hd
  | label n =>
    rcases List.mem_cons.mp h with heq | h
    · cases heq
    · cases Text.isDigit_of_mem_decimal h
  | jump n =>
    rcases List.mem_cons.mp h with heq | h
    · cases heq
    · cases Text.isDigit_of_mem_fiveDigits h

/-- Only a constant and a number of cells have the same reading without being the same operand. -/
theorem eq_of_reading {a b : Operand} (h : a.reading = b.reading) :
    a = b ∨ (∃ v n, a = int v ∧ b = size n) ∨ ∃ v n, a = size n ∧ b = int v := by
  cases a <;> cases b <;> simp only [reading, Reading.number.injEq, Reading.label.injEq, Reading.jump.injEq,
    reduceCtorEq] at h
  · exact .inl (congrArg int (Int64.toInt_inj.mp h))
  · exact .inr (.inl ⟨_, _, rfl, rfl⟩)
  · exact .inr (.inr ⟨_, _, rfl, rfl⟩)
  · exact .inl (congrArg size (Int.natCast_inj.mp h))
  · exact .inl (congrArg label h)
  · exact .inl (congrArg jump h)

end Operand

/-! ## Instructions -/

namespace Instr

open Operand (Reading)

variable {i j : Instr}

/-- The operation and the reading of the operand. -/
def reading (i : Instr) : Opcode × Option Reading := (i.opcode, i.operand.map Operand.reading)

/-- The text behind a name: nothing, or blanks up to the column of operands and the operand. -/
def column (name : List Char) : Option Reading → List Char
  | none => []
  | some r => List.replicate (11 - name.length) ' ' ++ ' ' :: r.show

theorem show_eq (i : Instr) : i.show = i.opcode.name.toList ++ column i.opcode.name.toList i.reading.2 := by
  obtain ⟨opcode, operand⟩ := i
  cases operand with
  | none => exact (List.append_nil _).symm
  | some operand => simp [Instr.show, Operand.show_eq, padRight, column, reading]

theorem column_inj {name : List Char} {r s : Option Reading} (h : column name r = column name s) : r = s := by
  cases r with
  | none =>
    cases s with
    | none => rfl
    | some s => simp [column] at h
  | some r =>
    cases s with
    | none => simp [column] at h
    | some s => rw [Operand.Reading.show_inj (List.cons.inj (List.append_cancel_left h)).2]

theorem name_plain (o : Opcode) : ∀ c ∈ o.name.toList, c ≠ ' ' ∧ c ≠ '\n' := by
  cases o <;> simp [Opcode.name]

/-- The name of the operation is what stands before the first blank. -/
theorem takeWhile_show (i : Instr) : i.show.takeWhile (· != ' ') = i.opcode.name.toList := by
  have hname : ∀ c ∈ i.opcode.name.toList, (c != ' ') = true :=
    fun c hc => bne_iff_ne.mpr (name_plain i.opcode c hc).1
  rw [show_eq, List.takeWhile_append_of_pos hname]
  cases i.reading.2 with
  | none => simp [column]
  | some r => cases hk : 11 - i.opcode.name.toList.length <;> simp [column, hk, List.replicate_succ]

theorem opcode_eq_of_show (h : i.show = j.show) : i.opcode = j.opcode := by
  have hname : i.opcode.name = j.opcode.name := by
    rw [← String.toList_inj, ← takeWhile_show i, h, takeWhile_show]
  have hsome := Image.ofName?_name i.opcode
  rw [hname, Image.ofName?_name] at hsome
  exact (Option.some.inj hsome).symm

theorem show_eq_iff : i.show = j.show ↔ i.reading = j.reading := by
  constructor
  · intro h
    -- the operations are the same, so the columns of operands start at the same place
    have hop := opcode_eq_of_show h
    rw [show_eq, show_eq, hop] at h
    exact Prod.ext hop (column_inj (List.append_cancel_left h))
  · intro h
    rw [show_eq, show_eq, show i.opcode = j.opcode from congrArg Prod.fst h, h]

theorem newline_not_mem_showLine (i : Instr) (index : Nat) : '\n' ∉ i.showLine index := by
  have hindex : '\n' ∉ fiveDigits index := fun h => by cases Text.isDigit_of_mem_fiveDigits h
  have hname : '\n' ∉ i.opcode.name.toList := fun h => (name_plain i.opcode _ h).2 rfl
  have hcolumn : '\n' ∉ column i.opcode.name.toList i.reading.2 := by
    cases i.reading.2 with
    | none => exact List.not_mem_nil
    | some r => simp [column, r.newline_not_mem_show]
  simp [showLine, show_eq, hindex, hname, hcolumn]

/-- Lines of instructions that are numbered from the same index on are equal just when the readings are. -/
theorem lines_eq_iff (is js : List Instr) (index : Nat) :
    ((is.zipIdx index).map fun x => x.1.showLine x.2) = ((js.zipIdx index).map fun x => x.1.showLine x.2) ↔
      is.map reading = js.map reading := by
  induction is generalizing js index with
  | nil => cases js <;> simp
  | cons i is ih =>
    cases js with
    | nil => simp
    | cons j js =>
      -- both lines start with the same index, however many digits it has
      have hline : i.showLine index = j.showLine index ↔ i.show = j.show := by simp [showLine]
      simp only [List.zipIdx_cons, List.map_cons, List.cons.injEq, hline, show_eq_iff, ih]

end Instr

/-! ## Listings -/

/-- Lines are told apart by their ends. -/
theorem flatMap_lines_inj {ls ms : List (List Char)} (hl : ∀ l ∈ ls, '\n' ∉ l) (hm : ∀ m ∈ ms, '\n' ∉ m)
    (h : ls.flatMap (· ++ ['\n']) = ms.flatMap (· ++ ['\n'])) : ls = ms := by
  induction ls generalizing ms with
  | nil =>
    cases ms with
    | nil => rfl
    | cons m ms => simp at h
  | cons l ls ih =>
    cases ms with
    | nil => simp at h
    | cons m ms =>
      obtain ⟨hl1, hl2⟩ := List.forall_mem_cons.mp hl
      obtain ⟨hm1, hm2⟩ := List.forall_mem_cons.mp hm
      have hcut : ∀ {line : List Char} (rest : List Char), '\n' ∉ line →
          Image.cutLine (line ++ '\n' :: rest) = (line, some rest) := by
        intro line rest hline
        exact Image.cutLine_append (fun c hc heq => hline (heq ▸ hc)) rest
      simp only [List.flatMap_cons, List.append_assoc, List.singleton_append] at h
      have hpair := hcut (ls.flatMap (· ++ ['\n'])) hl1
      rw [h, hcut _ hm1] at hpair
      obtain ⟨rfl, hrest⟩ := Prod.mk.inj hpair
      rw [ih hl2 hm2 (Option.some.inj hrest).symm]

namespace Code

variable {c c' : Code}

/-- The readings of the instructions in order. -/
def readings (c : Code) : List (Opcode × Option Operand.Reading) := c.instrs.toList.map Instr.reading

theorem listing_eq_iff : c.listing = c'.listing ↔ c.readings = c'.readings := by
  have hplain : ∀ c : Code, ∀ l ∈ c.listingLines, '\n' ∉ l := by
    intro c l hl
    obtain ⟨x, -, rfl⟩ := List.mem_map.mp hl
    exact Instr.newline_not_mem_showLine x.1 x.2
  have hlines : c.listing = c'.listing ↔ c.listingLines = c'.listingLines := by
    rw [listing, listing, String.ofList_inj]
    exact ⟨flatMap_lines_inj (hplain c) (hplain c'), fun h => by rw [h]⟩
  rw [hlines]
  exact Instr.lines_eq_iff c.instrs.toList c'.instrs.toList 0

end Code

/-! ## Code that a listing determines -/

/-- An instruction whose operation says whether its number is a constant or a number of cells. -/
structure Instr.Definite (i : Instr) : Prop where
  int : ∀ v, i.operand = some (.int v) → i.opcode = .const
  size : ∀ n, i.operand = some (.size n) → i.opcode = .newTape

/-- Code of such instructions. -/
def Code.Definite (c : Code) : Prop := ∀ i ∈ c.instrs.toList, i.Definite

namespace Instr

theorem Definite.eq_of_reading {i j : Instr} (hi : i.Definite) (hj : j.Definite) (h : i.reading = j.reading) : i = j := by
  obtain ⟨opcode, a⟩ := i
  obtain ⟨opcode', b⟩ := j
  obtain ⟨rfl, hab⟩ := Prod.mk.inj h
  cases a with
  | none =>
    cases b with
    | none => rfl
    | some b => cases hab
  | some a =>
    cases b with
    | none => cases hab
    | some b =>
      rcases Operand.eq_of_reading (Option.some.inj hab) with rfl | ⟨v, n, rfl, rfl⟩ | ⟨v, n, rfl, rfl⟩
      · rfl
      · cases (hi.int v rfl).symm.trans (hj.size n rfl)
      · cases (hi.size n rfl).symm.trans (hj.int v rfl)

theorem definite_of_instrOk {size : Nat} {i : Instr} (h : Image.instrOk size i = true) : i.Definite := by
  obtain ⟨opcode, operand⟩ := i
  constructor
  · rintro v rfl
    cases opcode with
    | const => rfl
    | _ => cases h
  · rintro n rfl
    cases opcode with
    | newTape => rfl
    | _ => cases h

end Instr

namespace Code

variable {c c' : Code}

theorem Definite.eq_of_readings (hc : c.Definite) (hc' : c'.Definite) (h : c.readings = c'.readings) : c = c' := by
  obtain ⟨⟨is⟩⟩ := c
  obtain ⟨⟨js⟩⟩ := c'
  have hlists : is = js := by
    unfold readings at h
    induction is generalizing js with
    | nil => cases js <;> simp_all
    | cons i is ih =>
      cases js with
      | nil => simp at h
      | cons j js =>
        obtain ⟨hi, his⟩ := List.forall_mem_cons.mp hc
        obtain ⟨hj, hjs⟩ := List.forall_mem_cons.mp hc'
        obtain ⟨hhead, htail⟩ := List.cons.inj h
        rw [hi.eq_of_reading hj hhead, ih his js hjs htail]
  rw [hlists]

theorem definite_of_validate (h : Image.validate c = .ok ()) : c.Definite := by
  intro i hi
  obtain ⟨n, hn⟩ := List.getElem?_of_mem hi
  exact Instr.definite_of_instrOk ((Image.valid_of_validate h).operands n i (by rwa [← Array.getElem?_toList]))

/-- Compiled code for a tape of any size, also of one that validation refuses. -/
theorem definite_code (p : Program) (cells : Nat) : (p.code cells).Definite := by
  intro i hi
  rcases Program.mem_code.mp hi with rfl | ⟨y, -, hy⟩ | rfl
  · exact ⟨fun v hv => (by cases hv), fun n hn => rfl⟩
  · exact Instr.definite_of_instrOk (Program.instrOk_of_mem_linkedCode hy).2
  · exact Instr.definite_of_instrOk (show Image.instrOk 0 (.plain .ret) = true from rfl)

theorem definite_of_compile {a : Assembler} {p : Program} (h : (a.compile p).1 = .ok c) : c.Definite := by
  cases hm : Matching.ofProgram p with
  | error u =>
    rw [Assembler.compile_eq_error hm] at h
    cases h
  | ok m =>
    rw [Assembler.compile_eq_ok (Matching.check_of_ofProgram hm)] at h
    cases h
    exact definite_code p a.tapeSize

end Code

/-- **Listings are faithful.**  Two listings are equal just when the instructions are, up to a constant that stands in the
place of a number of cells with the same value.  Codes that pass validation, and codes that were compiled for tapes of any
size, are equal if their listings are. -/
theorem Code.listing_faithful (c c' : Code) :
    (c.listing = c'.listing ↔ c.readings = c'.readings) ∧
      (Image.validate c = .ok () → Image.validate c' = .ok () → c.listing = c'.listing → c = c') ∧
      ∀ (a a' : Assembler) (p p' : Program), (a.compile p).1 = .ok c → (a'.compile p').1 = .ok c' →
        c.listing = c'.listing → c = c' := by
  refine ⟨Code.listing_eq_iff, fun hc hc' h => ?_, fun a a' p p' hc hc' h => ?_⟩
  · exact (Code.definite_of_validate hc).eq_of_readings (Code.definite_of_validate hc') (Code.listing_eq_iff.mp h)
  · exact (Code.definite_of_compile hc).eq_of_readings (Code.definite_of_compile hc') (Code.listing_eq_iff.mp h)

/-- A program with a comment and one without, and a pair of codes that only a listing takes for the same. -/
theorem Code.listing_faithful_comment :
    (Image.validate (Program.code ⟨#['+', '#', '.']⟩ 7) = .ok () ∧ Image.validate (Program.code ⟨#['+', '.']⟩ 7) = .ok () ∧
        Program.code ⟨#['+', '#', '.']⟩ 7 = Program.code ⟨#['+', '.']⟩ 7) ∧
      (compile 0 ⟨#['+', '#', '.']⟩ = .ok (Program.code ⟨#['+', '#', '.']⟩ 0) ∧
        compile 0 ⟨#['+', '.']⟩ = .ok (Program.code ⟨#['+', '.']⟩ 0) ∧
        Program.code ⟨#['+', '#', '.']⟩ 0 = Program.code ⟨#['+', '.']⟩ 0) ∧
      (Code.mk #[⟨.ret, some (.int 5)⟩]).listing = (Code.mk #[⟨.ret, some (.size 5)⟩]).listing ∧
      Code.mk #[⟨.ret, some (.int 5)⟩] ≠ Code.mk #[⟨.ret, some (.size 5)⟩] := by
  have hvalid : ∀ p : Program, Image.validate (p.code 7) = .ok () := fun p => Program.validate_code p (by decide) (by decide)
  refine ⟨⟨hvalid _, hvalid _, ?_⟩, ⟨rfl, rfl, ?_⟩, ?_, by decide⟩
  · exact (Code.listing_faithful _ _).2.1 (hvalid _) (hvalid _) rfl
  · exact (Code.listing_faithful _ _).2.2 (.new 0) (.new 0) ⟨#['+', '#', '.']⟩ ⟨#['+', '.']⟩ rfl rfl rfl
  · exact (Code.listing_faithful _ _).1.mpr rfl

end TapeLang
