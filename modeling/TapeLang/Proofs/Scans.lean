import TapeLang.Engine
import TapeLang.Proofs.Nesting
import TapeLang.Proofs.Structured

/-!
# TapeLang.Proofs.Scans — what scans find and where they fail

There are several ways to look for the partner of a bracket, and to say that there is none.  They name the same brackets.

* `Program.Paired i q`: the brackets at two positions belong together, by the grammar alone.  `Program.FirstUnpaired u`: the
  leftmost bracket that belongs to no other.
* **`engines_refuse_alike`**: the check, the table and the scans from all brackets fail at the first unpaired bracket, and so
  do loading and compiling.
* `scanOn`, `scanBack`: scans as a machine makes them, with a word for the depth and with reads that can miss the text.  How
  a text is looked at is a `View`: by characters (`byChar`) or by operators (`byOp`).
* `scanOn_eq`, `scanBack_eq`: where the word has room for the text, these are the scans with numbers.
* **`scans_find_partners`**: in texts that pass the check they find what the table holds.
-/

namespace TapeLang

/-! ## Brackets that belong together -/

theorem Side.eq_of_symbol {side side' : Side} (h : side.symbol = side'.symbol) : side = side' := by
  cases side <;> cases side' <;> simp_all [symbol]

namespace Program

section Pairs

variable {p : Program} {i q : Nat} {side : Side} {u u' : Unmatched}

/-- The brackets at two positions belong together: an opening one, and behind balanced text a closing one. -/
structure Paired (p : Program) (i q : Nat) : Prop where
  lt : i < q
  opens : p.chars[i]? = some '['
  closes : p.chars[q]? = some ']'
  between : Balanced ((p.rest (i + 1)).take (q - (i + 1)))

/-- The bracket at a position belongs to another one. -/
def HasPair (p : Program) (i : Nat) : Side → Prop
  | .opening => ∃ q, p.Paired i q
  | .closing => ∃ q, p.Paired q i

/-- Every bracket belongs to another one. -/
def AllPaired (p : Program) : Prop := ∀ i side, p.chars[i]? = some side.symbol → p.HasPair i side

/-- The leftmost bracket that belongs to no other. -/
structure FirstUnpaired (p : Program) (u : Unmatched) : Prop where
  bracket : p.chars[u.position]? = some u.side.symbol
  unpaired : ¬p.HasPair u.position u.side
  leftmost : ∀ i side, i < u.position → p.chars[i]? = some side.symbol → p.HasPair i side

theorem op?_of_bracket (h : p.chars[i]? = some side.symbol) : p.op? i = some side.op := by
  cases side with
  | opening => exact Matching.op?_of_char (o := .loopOpen) h
  | closing => exact Matching.op?_of_char (o := .loopClose) h

theorem bracket_of_op? (h : p.op? i = some side.op) : p.chars[i]? = some side.symbol := by
  cases side with
  | opening => exact char_of_open h
  | closing => exact char_of_close h

theorem Encloses.paired (h : p.Encloses i q) : p.Paired i q :=
  ⟨h.lt, char_of_open h.opens, char_of_close h.closes, h.balanced⟩

theorem Paired.encloses (h : p.Paired i q) : p.Encloses i q := by
  have hopens : p.op? i = some Side.opening.op := op?_of_bracket h.opens
  have hcloses : p.op? q = some Side.closing.op := op?_of_bracket h.closes
  have hlt : q < p.chars.toList.length := lt_size_of_op? hcloses
  have hle := h.lt
  have hbefore : (p.chars.toList.take (i + 1)).length = i + 1 := by
    rw [List.length_take]
    omega
  have hinside : ((p.rest (i + 1)).take (q - (i + 1))).length = q - (i + 1) := by
    rw [List.length_take, rest, List.length_drop]
    omega
  have hsplit : p.chars.toList = p.chars.toList.take (i + 1) ++
      ((p.rest (i + 1)).take (q - (i + 1)) ++ (p.rest (i + 1)).drop (q - (i + 1))) := by
    rw [List.take_append_drop, rest, List.take_append_drop]
  obtain ⟨b, hb⟩ := spans_of_balanced h.between _ _ hsplit
  rw [hbefore, hinside, show i + 1 + (q - (i + 1)) = q by omega] at hb
  exact ⟨hopens, hcloses, b, hb⟩

theorem HasPair.scan_isSome (h : p.HasPair i side) : (p.scan i side).isSome := by
  cases side with
  | opening =>
    obtain ⟨q, hq⟩ := h
    rw [scan, hq.encloses.closeOf?_eq]
    rfl
  | closing =>
    obtain ⟨q, hq⟩ := h
    rw [scan, hq.encloses.openOf?_eq]
    rfl

/-- In balanced text every bracket belongs to another one. -/
theorem Spans.hasPair {b : Block} {j k : Nat} (h : p.Spans j b k) (hj : j ≤ i) (hk : i < k)
    (hc : p.chars[i]? = some side.symbol) : p.HasPair i side := by
  cases side with
  | opening =>
    obtain ⟨q, hq, -⟩ := h.exists_close hj hk (op?_of_bracket hc)
    exact ⟨q, hq.paired⟩
  | closing =>
    obtain ⟨q, hq, -⟩ := h.exists_open hj hk (op?_of_bracket hc)
    exact ⟨q, hq.paired⟩

theorem allPaired_of_check (h : p.check = .ok ()) : p.AllPaired := by
  obtain ⟨b, hb⟩ := check_eq_ok_iff.mp h
  intro i side hc
  exact hb.hasPair (Nat.zero_le _) (lt_size_of_op? (op?_of_bracket hc)) hc

theorem firstUnpaired_of_check (h : p.check = .error u) : p.FirstUnpaired u := by
  obtain ⟨hbracket, ⟨b, hb⟩, hscan⟩ := unpartnered_of_check h
  refine ⟨bracket_of_op? hbracket, fun hpair => ?_, fun i side hlt hc => hb.hasPair (Nat.zero_le _) hlt hc⟩
  have hfound := hpair.scan_isSome
  rw [hscan] at hfound
  cases hfound

theorem FirstUnpaired.not_allPaired (h : p.FirstUnpaired u) : ¬p.AllPaired :=
  fun hall => h.unpaired (hall _ _ h.bracket)

/-- There is only one leftmost bracket. -/
theorem FirstUnpaired.unique (h : p.FirstUnpaired u) (h' : p.FirstUnpaired u') : u = u' := by
  obtain ⟨i, side⟩ := u
  obtain ⟨i', side'⟩ := u'
  rcases Nat.lt_trichotomy i i' with hlt | rfl | hgt
  · exact absurd (h'.leftmost i side hlt h.bracket) h.unpaired
  · have hsides : side.symbol = side'.symbol := Option.some.inj (h.bracket.symm.trans h'.bracket)
    rw [Side.eq_of_symbol hsides]
  · exact absurd (h.leftmost i' side' hgt h'.bracket) h'.unpaired

/-- **The check fails at the first unpaired bracket.** -/
theorem check_eq_error_iff : p.check = .error u ↔ p.FirstUnpaired u := by
  constructor
  · exact firstUnpaired_of_check
  · intro h
    cases hcheck : p.check with
    | ok _ => exact absurd (allPaired_of_check hcheck) h.not_allPaired
    | error u' => rw [h.unique (firstUnpaired_of_check hcheck)]

theorem check_eq_ok_iff_allPaired : p.check = .ok () ↔ p.AllPaired := by
  constructor
  · exact allPaired_of_check
  · intro hall
    cases hcheck : p.check with
    | ok _ => rfl
    | error u => exact absurd hall (firstUnpaired_of_check hcheck).not_allPaired

end Pairs
end Program

/-! ## Programs that are refused -/

section Refusal

open Program

variable {p : Program} {source : String}

theorem map_ofProgram (p : Program) : (Matching.ofProgram p).map (fun _ => ()) = p.check := by
  cases hcheck : p.check with
  | ok _ =>
    obtain ⟨m, hm, -⟩ := Matching.ofProgram_of_check hcheck
    rw [hm]
    rfl
  | error u =>
    rw [Matching.ofProgram_eq_error_iff.mpr hcheck]
    rfl

theorem map_scanned (p : Program) : (Matching.scanned p).map (fun _ => ()) = p.check := by
  rw [← Matching.pairs_ofProgram, ← map_ofProgram]
  cases Matching.ofProgram p <;> rfl

/-- What an engine says to a program that fits: nothing, or the bracket that the check names. -/
def Program.verdict (p : Program) : Except Error Unit :=
  match p.check with
  | .ok () => .ok ()
  | .error u => .error (.malformed u)

theorem Program.verdict_eq_error_iff {e : Error} :
    p.verdict = .error e ↔ ∃ u, p.FirstUnpaired u ∧ e = .malformed u := by
  cases hcheck : p.check with
  | ok _ =>
    rw [verdict, hcheck]
    constructor
    · intro h
      cases h
    · rintro ⟨u, hu, -⟩
      exact absurd (allPaired_of_check hcheck) hu.not_allPaired
  | error u =>
    have hu := firstUnpaired_of_check hcheck
    rw [verdict, hcheck]
    constructor
    · intro h
      cases h
      exact ⟨u, hu, rfl⟩
    · rintro ⟨u', hu', rfl⟩
      rw [hu.unique hu']

theorem Interpreter.map_load (m : Interpreter) (hfit : (Program.ofString source).size ≤ m.config.bufferSize) :
    (m.load source).map (fun _ => ()) = (Program.ofString source).verdict := by
  cases hcheck : (Program.ofString source).check with
  | ok _ =>
    rw [load_eq_ok hfit hcheck, verdict, hcheck]
    rfl
  | error u =>
    rw [verdict, hcheck]
    simp only [load, if_neg (Nat.not_lt.mpr hfit), hcheck]
    rfl

theorem Translator.map_emit (t : Translator) (source : String) :
    (t.emit source).map (fun _ => ()) = (Program.ofString source).verdict := by
  unfold emit compile
  cases hcheck : (Program.ofString source).check with
  | ok _ =>
    rw [Assembler.compile_eq_ok hcheck, verdict, hcheck]
    rfl
  | error u =>
    rw [Assembler.compile_eq_error (Matching.ofProgram_eq_error_iff.mpr hcheck), verdict, hcheck]
    rfl

theorem map_eq_error_iff {α ε : Type} {x : Except ε α} {e : ε} : x.map (fun _ => ()) = .error e ↔ x = .error e := by
  cases x with
  | ok a => exact ⟨nofun, nofun⟩
  | error e' => exact ⟨fun h => by cases h; rfl, fun h => by cases h; rfl⟩

/-- **Both engines refuse the same programs, for the same bracket.**  The check, which reads a text once, the table, and
scans from all brackets one after another come to the same verdict.  They accept a text if all its brackets are paired, and
otherwise name the first one that is not.  So an interpreter loads the programs that a translator compiles, as far as they
fit its buffer, and the others are refused by both with the same error. -/
theorem engines_refuse_alike :
    (∀ p : Program, (Matching.ofProgram p).map (fun _ => ()) = p.check ∧ (Matching.scanned p).map (fun _ => ()) = p.check ∧
      (p.check = .ok () ↔ p.AllPaired) ∧ ∀ u, p.check = .error u ↔ p.FirstUnpaired u) ∧
    ∀ (m : Interpreter) (t : Translator) (source : String), (Program.ofString source).size ≤ m.config.bufferSize →
      (m.load source).map (fun _ => ()) = (t.emit source).map (fun _ => ()) ∧
      ∀ e, (m.load source = .error e ↔ t.emit source = .error e) ∧
        (m.load source = .error e ↔ ∃ u, (Program.ofString source).FirstUnpaired u ∧ e = .malformed u) := by
  refine ⟨fun p => ⟨map_ofProgram p, map_scanned p, check_eq_ok_iff_allPaired, fun u => check_eq_error_iff⟩, ?_⟩
  intro m t source hfit
  have hload := m.map_load hfit
  have hemit := t.map_emit source
  refine ⟨hload.trans hemit.symm, fun e => ⟨?_, ?_⟩⟩
  · rw [← map_eq_error_iff, hload, ← hemit, map_eq_error_iff]
  · rw [← map_eq_error_iff, hload, verdict_eq_error_iff]

/-- Two closing brackets too many, then two opening ones; the first of the four is named. -/
theorem engines_refuse_alike_several :
    (Interpreter.idle ⟨4, 16⟩).load (String.ofList ['[', ']', ']', '#', ']', '[', '[', '[', ']']) =
        .error (.malformed ⟨2, .closing⟩) ∧
      (⟨4, "."⟩ : Translator).emit (String.ofList ['[', ']', ']', '#', ']', '[', '[', '[', ']']) =
        .error (.malformed ⟨2, .closing⟩) ∧
      (ofString (String.ofList ['[', ']', ']', '#', ']', '[', '[', '[', ']'])).FirstUnpaired ⟨2, .closing⟩ := by
  have hload : (Interpreter.idle ⟨4, 16⟩).load (String.ofList ['[', ']', ']', '#', ']', '[', '[', '[', ']']) =
      .error (.malformed ⟨2, .closing⟩) := rfl
  obtain ⟨-, hsame⟩ := engines_refuse_alike.2 (.idle ⟨4, 16⟩) ⟨4, "."⟩
    (String.ofList ['[', ']', ']', '#', ']', '[', '[', '[', ']']) (by decide)
  obtain ⟨hemit, hfirst⟩ := hsame (.malformed ⟨2, .closing⟩)
  obtain ⟨u, hu, heq⟩ := hfirst.mp hload
  cases heq
  exact ⟨hload, hemit.mp hload, hu⟩

end Refusal

/-! ## Scans with machine words -/

/-- Why a scan does not come to a partner. -/
inductive ScanFault where
  /-- The text ended first. -/
  | unmatched
  /-- The text was read where it is not. -/
  | outside
  /-- The depth did not fit its word. -/
  | overflow
deriving DecidableEq

/-- How a text is looked at: what stands at a position, and nothing from its end on. -/
structure View (p : Program) where
  /-- What stands at a position, a bracket or something else. -/
  look : Nat → Option (Option Side)
  /-- The end of the text is seen. -/
  ends : ∀ i, p.size ≤ i → look i = none

namespace View

variable {p : Program} {i : Nat}

theorem lt_size (v : View p) {seen : Option Side} (h : v.look i = some seen) : i < p.size := by
  rcases Nat.lt_or_ge i p.size with hlt | hge
  · exact hlt
  · rw [v.ends i hge] at h
    cases h

/-- Characters are compared, and there is none behind the end. -/
def byChar (p : Program) : View p where
  look i := p.chars[i]?.map fun c => if c = '[' then some .opening else if c = ']' then some .closing else none
  ends i h := by rw [Array.getElem?_eq_none h]; rfl

/-- Operators are compared, and where no bracket stands the position tells whether the text is at its end. -/
def byOp (p : Program) : View p where
  look i :=
    match (p.op? i).bind Op.side? with
    | some side => some (some side)
    | none => if p.size ≤ i then none else some none
  ends i h := by
    have hnone : p.op? i = none := by rw [Program.op?, Array.getElem?_eq_none h]; rfl
    simp only [hnone, Option.bind_none, if_pos h]

theorem look_plain (h : p.Plain i) : (byChar p).look i = some none := by
  obtain ⟨c, hc, hopen, hclose⟩ := h
  simp only [byChar, hc, Option.map_some, if_neg hopen, if_neg hclose]

theorem look_open (h : p.op? i = some .loopOpen) : (byChar p).look i = some (some .opening) := by
  simp only [byChar, Program.char_of_open h, Option.map_some, if_true]

theorem look_close (h : p.op? i = some .loopClose) : (byChar p).look i = some (some .closing) := by
  have hne : (']' : Char) ≠ '[' := by decide
  simp only [byChar, Program.char_of_close h, Option.map_some, if_true, if_neg hne]

/-- **A text is the same by its characters and by its operators.** -/
theorem byOp_eq_byChar (p : Program) : byOp p = byChar p := by
  have hlook : (byOp p).look = (byChar p).look := by
    funext i
    rcases Program.op?_cases p i with hge | ⟨hlt, ho⟩ | ⟨c, ho⟩ | ho | ho
    · rw [(byOp p).ends i hge, (byChar p).ends i hge]
    · rw [look_plain (Program.plain_of_comment hlt ho)]
      simp only [byOp, ho, Option.bind_none, if_neg (Nat.not_le.mpr hlt)]
    · have hlt := Program.lt_size_of_op? ho
      have hside : c.op.side? = none := by cases c <;> rfl
      rw [look_plain (Program.plain_of_command ho)]
      simp only [byOp, ho, Option.bind_some, hside, if_neg (Nat.not_le.mpr hlt)]
    · rw [look_open ho]
      simp only [byOp, ho, Option.bind_some, Op.side?]
    · rw [look_close ho]
      simp only [byOp, ho, Option.bind_some, Op.side?]
  cases hv : byOp p
  cases hv' : byChar p
  simp only [hv, hv'] at hlook
  simp only [hlook]

end View

section Words

variable {p : Program} {w i : Nat} {depth : BitVec w}

/-- Scans onwards from a position for the bracket that closes the outermost of `depth` loops. -/
def scanOn (v : View p) (depth : BitVec w) (i : Nat) : Except ScanFault Nat :=
  match h : v.look i with
  | none => .error .unmatched
  | some (some .opening) =>
    have := v.lt_size h
    if depth = .allOnes w then .error .overflow else scanOn v (depth + 1#w) (i + 1)
  | some (some .closing) =>
    have := v.lt_size h
    if depth = 1#w then .ok i else scanOn v (depth - 1#w) (i + 1)
  | some none =>
    have := v.lt_size h
    scanOn v depth (i + 1)
termination_by p.size - i

/-- Scans back from a position for the bracket that opens the outermost of `depth` loops. -/
def scanBack (v : View p) : BitVec w → Nat → Except ScanFault Nat
  | _, 0 => .error .unmatched
  | depth, i + 1 =>
    match v.look i with
    | none => .error .outside
    | some (some .closing) => if depth = .allOnes w then .error .overflow else scanBack v (depth + 1#w) i
    | some (some .opening) => if depth = 1#w then .ok i else scanBack v (depth - 1#w) i
    | some none => scanBack v depth i

/-- What a scan with numbers finds, as the answer of a scan with words. -/
def found : Option Nat → Except ScanFault Nat
  | some q => .ok q
  | none => .error .unmatched

/-! ### Words with room -/

theorem width_pos (h : 0 < depth.toNat) : 0 < w := by
  rcases Nat.eq_zero_or_pos w with rfl | hpos
  · rw [BitVec.eq_nil depth] at h
    cases h
  · exact hpos

theorem eq_one_iff (h : 0 < depth.toNat) : depth = 1#w ↔ depth.toNat = 1 := by
  rw [← BitVec.toNat_inj, BitVec.toNat_one (width_pos h)]

theorem ne_allOnes (h : depth.toNat < (BitVec.allOnes w).toNat) : depth ≠ .allOnes w := by
  rintro rfl
  exact absurd h (Nat.lt_irrefl _)

theorem toNat_deeper (hpos : 0 < depth.toNat) (h : depth.toNat < (BitVec.allOnes w).toNat) :
    (depth + 1#w).toNat = depth.toNat + 1 := by
  have hone : (1#w).toNat = 1 := BitVec.toNat_one (width_pos hpos)
  rw [BitVec.toNat_allOnes] at h
  rw [BitVec.toNat_add_of_lt (by rw [hone]; omega), hone]

theorem toNat_shallower (hpos : 0 < depth.toNat) : (depth - 1#w).toNat = depth.toNat - 1 := by
  have hone : (1#w).toNat = 1 := BitVec.toNat_one (width_pos hpos)
  have hle : 1#w ≤ depth := by
    rw [BitVec.le_def, hone]
    exact hpos
  rw [BitVec.toNat_sub_of_le hle, hone]

/-! ### Scans with words are scans with numbers -/

theorem scanOn_plain {v : View p} (h : v.look i = some none) (depth : BitVec w) :
    scanOn v depth i = scanOn v depth (i + 1) := by
  rw [scanOn]
  split <;> simp_all

theorem scanOn_open {v : View p} (h : v.look i = some (some .opening)) (depth : BitVec w) :
    scanOn v depth i = if depth = .allOnes w then .error .overflow else scanOn v (depth + 1#w) (i + 1) := by
  rw [scanOn]
  split <;> simp_all

theorem scanOn_close {v : View p} (h : v.look i = some (some .closing)) (depth : BitVec w) :
    scanOn v depth i = if depth = 1#w then .ok i else scanOn v (depth - 1#w) (i + 1) := by
  rw [scanOn]
  split <;> simp_all

theorem scanOn_end {v : View p} (h : v.look i = none) (depth : BitVec w) : scanOn v depth i = .error .unmatched := by
  rw [scanOn]
  split <;> simp_all

open Program View

/-- **Onwards**: each character makes the depth greater by one at most, so a word with room for the text does not
overflow. -/
theorem scanOn_eq {n : Nat} (hn : p.size - i ≤ n) (hpos : 0 < depth.toNat)
    (hroom : depth.toNat + (p.size - i) ≤ (BitVec.allOnes w).toNat) :
    scanOn (byChar p) depth i = found (p.closeFrom (depth.toNat - 1) i) := by
  induction n generalizing i depth with
  | zero =>
    have hge : p.size ≤ i := by omega
    rw [scanOn_end ((byChar p).ends i hge), closeFrom_of_le hge]
    rfl
  | succ n ih =>
    have hplain : p.Plain i → i < p.size → scanOn (byChar p) depth i = found (p.closeFrom (depth.toNat - 1) i) := by
      intro h hlt
      rw [scanOn_plain (look_plain h), closeFrom_plain h, ih (by omega) hpos (by omega)]
    rcases op?_cases p i with hge | ⟨hlt, ho⟩ | ⟨c, ho⟩ | ho | ho
    · rw [scanOn_end ((byChar p).ends i hge), closeFrom_of_le hge]
      rfl
    · exact hplain (plain_of_comment hlt ho) hlt
    · exact hplain (plain_of_command ho) (lt_size_of_op? ho)
    · have hlt := lt_size_of_op? ho
      have hdeeper := toNat_deeper hpos (by omega)
      rw [scanOn_open (look_open ho), if_neg (ne_allOnes (by omega)), closeFrom_open ho,
        ih (by omega) (by omega) (by omega), hdeeper, Nat.add_sub_cancel, Nat.sub_add_cancel hpos]
    · have hlt := lt_size_of_op? ho
      rw [scanOn_close (look_close ho), closeFrom_close ho]
      by_cases hone : depth.toNat = 1
      · rw [if_pos ((eq_one_iff hpos).mpr hone), if_pos (by omega)]
        rfl
      · have hshallower := toNat_shallower hpos
        rw [if_neg (mt (eq_one_iff hpos).mp hone), if_neg (by omega), ih (by omega) (by omega) (by omega), hshallower]

/-- **Back**: the same, and no read is outside. -/
theorem scanBack_eq (hi : i ≤ p.size) (hpos : 0 < depth.toNat) (hroom : depth.toNat + i ≤ (BitVec.allOnes w).toNat) :
    scanBack (byChar p) depth i = found (p.openBefore (depth.toNat - 1) i) := by
  induction i generalizing depth with
  | zero => rfl
  | succ i ih =>
    have hplain : p.Plain i →
        scanBack (byChar p) depth (i + 1) = found (p.openBefore (depth.toNat - 1) (i + 1)) := by
      intro h
      simp only [scanBack, look_plain h]
      rw [openBefore_plain h, ih (by omega) hpos (by omega)]
    rcases op?_cases p i with hge | ⟨hlt, ho⟩ | ⟨c, ho⟩ | ho | ho
    · omega
    · exact hplain (plain_of_comment hlt ho)
    · exact hplain (plain_of_command ho)
    · simp only [scanBack, look_open ho, openBefore, char_of_open ho]
      by_cases hone : depth.toNat = 1
      · rw [if_pos ((eq_one_iff hpos).mpr hone), if_pos (by omega)]
        rfl
      · have hshallower := toNat_shallower hpos
        rw [if_neg (mt (eq_one_iff hpos).mp hone), if_neg (by omega), ih (by omega) (by omega) (by omega), hshallower]
    · have hdeeper := toNat_deeper hpos (by omega)
      simp only [scanBack, look_close ho, openBefore, char_of_close ho]
      rw [if_neg (ne_allOnes (by omega)), ih (by omega) (by omega) (by omega), hdeeper, Nat.add_sub_cancel,
        Nat.sub_add_cancel hpos]

end Words

/-! ## Scans and the table -/

namespace Program

section Partners

open View

variable {p : Program} {i q : Nat}

/-- The scans of a running interpreter: characters are compared, and the depth is a word of 32 bits. -/
def wordScan (p : Program) (i : Nat) : Side → Except ScanFault Nat
  | .opening => scanOn (byChar p) 1#32 (i + 1)
  | .closing => scanBack (byChar p) 1#32 i

/-- The scans that a table can be made with: operators are compared, and the depth is a word of 64 bits. -/
def longScan (p : Program) (i : Nat) : Side → Except ScanFault Nat
  | .opening => scanOn (byOp p) 1#64 (i + 1)
  | .closing => scanBack (byOp p) 1#64 i

/-- Programs of no more than the largest buffer leave room in both words. -/
theorem room (hsize : p.size ≤ sizeLimit) :
    1 + p.size ≤ (BitVec.allOnes 32).toNat ∧ 1 + p.size ≤ (BitVec.allOnes 64).toNat := by
  have h32 : 1 + sizeLimit ≤ (BitVec.allOnes 32).toNat := by decide
  have h64 : 1 + sizeLimit ≤ (BitVec.allOnes 64).toNat := by decide
  omega

theorem wordScan_eq (hsize : p.size ≤ sizeLimit) (hi : i ≤ p.size) (side : Side) :
    p.wordScan i side = found (p.scan i side) := by
  obtain ⟨hroom, -⟩ := room hsize
  cases side with
  | opening => exact scanOn_eq (Nat.le_refl _) (by decide) (Nat.le_trans (Nat.add_le_add_left (Nat.sub_le _ _) _) hroom)
  | closing => exact scanBack_eq hi (by decide) (Nat.le_trans (Nat.add_le_add_left hi _) hroom)

theorem longScan_eq (hsize : p.size ≤ sizeLimit) (hi : i ≤ p.size) (side : Side) :
    p.longScan i side = found (p.scan i side) := by
  obtain ⟨-, hroom⟩ := room hsize
  cases side with
  | opening =>
    rw [longScan, byOp_eq_byChar]
    exact scanOn_eq (Nat.le_refl _) (by decide) (Nat.le_trans (Nat.add_le_add_left (Nat.sub_le _ _) _) hroom)
  | closing =>
    rw [longScan, byOp_eq_byChar]
    exact scanBack_eq hi (by decide) (Nat.le_trans (Nat.add_le_add_left hi _) hroom)

end Partners
end Program

/-- **Scans at run time find what the table holds.**  Take a program that passes the check and fits the largest buffer.  It
has a table.  At every bracket the scan of the interpreter, onwards from an opening one and back from a closing one, finds the
partner in the table.  So do the scans with words, in 32 bits by characters and in 64 bits by operators: none of them comes
to an end of the text, reads outside of it, or has more loops to count than its word can hold. -/
theorem scans_find_partners {p : Program} (hcheck : p.check = .ok ()) (hsize : p.size ≤ sizeLimit) :
    ∃ m, Matching.ofProgram p = .ok m ∧
      (∀ i, p.chars[i]? = some '[' → ∃ q, m.get? i = some q ∧ q < p.size ∧ p.closeOf? i = some q ∧
        p.wordScan i .opening = .ok q ∧ p.longScan i .opening = .ok q) ∧
      ∀ i, p.chars[i]? = some ']' → ∃ q, m.get? i = some q ∧ q < p.size ∧ p.openOf? i = some q ∧
        p.wordScan i .closing = .ok q ∧ p.longScan i .closing = .ok q := by
  obtain ⟨m, hm, -⟩ := Matching.ofProgram_of_check hcheck
  refine ⟨m, hm, fun i hc => ?_, fun i hc => ?_⟩
  · have ho : p.op? i = some .loopOpen := Matching.op?_of_char (o := .loopOpen) hc
    have hi : i ≤ p.size := Nat.le_of_lt (Program.lt_size_of_op? ho)
    obtain ⟨q, hq⟩ := Program.exists_close hcheck ho
    have hscan : p.scan i .opening = some q := hq.closeOf?_eq
    refine ⟨q, ?_, Program.lt_size_of_op? hq.closes, hq.closeOf?_eq, ?_, ?_⟩
    · rw [Matching.get?_eq_partner? hm, hq.partner?_open]
    · rw [Program.wordScan_eq hsize hi, hscan, found]
    · rw [Program.longScan_eq hsize hi, hscan, found]
  · have ho : p.op? i = some .loopClose := Matching.op?_of_char (o := .loopClose) hc
    have hi : i ≤ p.size := Nat.le_of_lt (Program.lt_size_of_op? ho)
    obtain ⟨q, hq⟩ := Program.exists_open hcheck ho
    have hscan : p.scan i .closing = some q := hq.openOf?_eq
    refine ⟨q, ?_, Program.lt_size_of_op? hq.opens, hq.openOf?_eq, ?_, ?_⟩
    · rw [Matching.get?_eq_partner? hm, hq.partner?_close]
    · rw [Program.wordScan_eq hsize hi, hscan, found]
    · rw [Program.longScan_eq hsize hi, hscan, found]

/-- From the outer bracket over a loop and a comment to its end, and back. -/
theorem scans_find_partners_outer :
    ∃ m, Matching.ofProgram ⟨#['+', '[', '[', ']', '#', ']']⟩ = .ok m ∧ m.get? 1 = some 5 ∧ m.get? 5 = some 1 ∧
      Program.wordScan ⟨#['+', '[', '[', ']', '#', ']']⟩ 1 .opening = .ok 5 ∧
      Program.wordScan ⟨#['+', '[', '[', ']', '#', ']']⟩ 5 .closing = .ok 1 := by
  obtain ⟨m, hm, hopen, hclose⟩ := scans_find_partners (p := ⟨#['+', '[', '[', ']', '#', ']']⟩) rfl (by decide)
  cases hm
  obtain ⟨q, hq, -, -, hscan, -⟩ := hopen 1 rfl
  cases hq
  obtain ⟨q, hq, -, -, hback, -⟩ := hclose 5 rfl
  cases hq
  exact ⟨_, rfl, rfl, rfl, hscan, hback⟩

end TapeLang
