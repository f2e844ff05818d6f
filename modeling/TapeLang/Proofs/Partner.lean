import TapeLang.Proofs.Block

/-!
# TapeLang.Proofs.Partner — the partner of a bracket

`p.Encloses i q` says that the brackets at `i` and `q` are the two ends of a loop: what stands between them is a text of
a block.  In a program that passes the check every bracket is an end of a loop (`exists_close`, `exists_open`), and of
one loop only, since both ways to look for the partner of a bracket find the other end:

* counting brackets from one end on (`Encloses.closeOf?_eq`, `Encloses.openOf?_eq`), because a scan over a balanced part
  of the text changes nothing (`Spans.closeFrom_eq`, `Spans.openBefore_eq`);
* reading the text once with a stack (`ofProgram_of_check`), because reading a balanced part leaves the stack as it was
  and fills the table there (`joinFrom_of_spans`).
-/

namespace TapeLang
namespace Program

variable {p : Program} {i j q : Nat} {b : Block}

/-! ## One character of a scan -/

section Scan

theorem char_of_op? {o : Op} (h : p.op? i = some o) : ∃ c, p.chars[i]? = some c ∧ Op.ofChar? c = some o :=
  Option.bind_eq_some_iff.mp h

theorem getElem?_of_op? {o : Op} (h : p.op? i = some o) : p.chars[i]? = some o.symbol := by
  obtain ⟨c, hc, ho⟩ := char_of_op? h
  rw [hc, Op.ofChar?_eq_some_iff.mp ho]

theorem char_of_open (h : p.op? i = some .loopOpen) : p.chars[i]? = some '[' := getElem?_of_op? h

theorem char_of_close (h : p.op? i = some .loopClose) : p.chars[i]? = some ']' := getElem?_of_op? h

/-- No bracket stands at a position of the text. -/
def Plain (p : Program) (i : Nat) : Prop := ∃ c, p.chars[i]? = some c ∧ c ≠ '[' ∧ c ≠ ']'

theorem plain_of_comment (hi : i < p.size) (h : p.op? i = none) : Plain p i := by
  obtain ⟨c, hc, -⟩ := rest_of_lt hi
  rw [op?, hc] at h
  refine ⟨c, hc, ?_, ?_⟩
  · rintro rfl; cases h
  · rintro rfl; cases h

theorem plain_of_command {c : Command} (h : p.op? i = some c.op) : Plain p i := by
  obtain ⟨d, hd, ho⟩ := char_of_op? h
  refine ⟨d, hd, ?_, ?_⟩
  · rintro rfl; cases c <;> cases ho
  · rintro rfl; cases c <;> cases ho

theorem closeFrom_open (h : p.op? i = some .loopOpen) (depth : Nat) :
    p.closeFrom depth i = p.closeFrom (depth + 1) (i + 1) := by
  obtain ⟨hlt, hc⟩ := Array.getElem?_eq_some_iff.mp (char_of_open h)
  rw [closeFrom.eq_def p depth i, dif_pos hlt, hc]
  rfl

theorem closeFrom_close (h : p.op? i = some .loopClose) (depth : Nat) :
    p.closeFrom depth i = if depth = 0 then some i else p.closeFrom (depth - 1) (i + 1) := by
  obtain ⟨hlt, hc⟩ := Array.getElem?_eq_some_iff.mp (char_of_close h)
  rw [closeFrom.eq_def p depth i, dif_pos hlt, hc]
  rfl

theorem closeFrom_plain (h : Plain p i) (depth : Nat) : p.closeFrom depth i = p.closeFrom depth (i + 1) := by
  obtain ⟨c, hc, h1, h2⟩ := h
  obtain ⟨hlt, rfl⟩ := Array.getElem?_eq_some_iff.mp hc
  rw [closeFrom.eq_def p depth i, dif_pos hlt]
  split
  next h3 => exact absurd h3 h1
  next h3 => exact absurd h3 h2
  next => rfl

theorem openBefore_plain (h : Plain p i) (depth : Nat) : p.openBefore depth (i + 1) = p.openBefore depth i := by
  obtain ⟨c, hc, h1, h2⟩ := h
  rw [openBefore, hc]
  split
  next h3 => cases h3; exact absurd rfl h2
  next h3 => cases h3; exact absurd rfl h1
  next => rfl

end Scan

/-! ## Scans over balanced parts -/

section Balanced

theorem Spans.closeFrom_eq (h : p.Spans i b j) (depth : Nat) : p.closeFrom depth i = p.closeFrom depth j := by
  induction h generalizing depth with
  | done => rfl
  | comment h1 h2 _ ih => rw [closeFrom_plain (plain_of_comment h1 h2), ih]
  | run h1 _ ih => rw [closeFrom_plain (plain_of_command h1), ih]
  | loop h1 _ h3 _ ih1 ih2 =>
    rw [closeFrom_open h1, ih1, closeFrom_close h3, if_neg (Nat.succ_ne_zero depth), Nat.add_sub_cancel, ih2]

theorem Spans.openBefore_eq (h : p.Spans i b j) (depth : Nat) : p.openBefore depth j = p.openBefore depth i := by
  induction h generalizing depth with
  | done => rfl
  | comment h1 h2 _ ih => rw [ih, openBefore_plain (plain_of_comment h1 h2)]
  | run h1 _ ih => rw [ih, openBefore_plain (plain_of_command h1)]
  | loop h1 _ h3 _ ih1 ih2 => simp [ih2, openBefore, char_of_close h3, ih1, char_of_open h1]

end Balanced

/-! ## Loops -/

/-- The brackets at two positions are the ends of a loop. -/
structure Encloses (p : Program) (i q : Nat) : Prop where
  opens : p.op? i = some .loopOpen
  closes : p.op? q = some .loopClose
  body : ∃ b, p.Spans (i + 1) b q

namespace Encloses

theorem lt (h : p.Encloses i q) : i < q := by
  obtain ⟨b, hb⟩ := h.body
  exact hb.le

theorem closeOf?_eq (h : p.Encloses i q) : p.closeOf? i = some q := by
  obtain ⟨b, hb⟩ := h.body
  rw [closeOf?, hb.closeFrom_eq, closeFrom_close h.closes, if_pos rfl]

theorem openOf?_eq (h : p.Encloses i q) : p.openOf? q = some i := by
  obtain ⟨b, hb⟩ := h.body
  rw [openOf?, hb.openBefore_eq, openBefore, char_of_open h.opens]
  rfl

end Encloses

theorem Spans.exists_close (h : p.Spans i b j) {x : Nat} (hx : i ≤ x) (hxj : x < j) (ho : p.op? x = some .loopOpen) :
    ∃ q, p.Encloses x q ∧ q < j := by
  induction h with
  | done => omega
  | @comment i j b h1 h2 _ ih =>
    rcases Nat.eq_or_lt_of_le hx with rfl | hlt
    · rw [h2] at ho; cases ho
    · exact ih hlt hxj
  | @run i j c b h1 _ ih =>
    rcases Nat.eq_or_lt_of_le hx with rfl | hlt
    · rw [h1] at ho; cases c <;> cases ho
    · exact ih hlt hxj
  | @loop i q j body b h1 h2 h3 h4 ih1 ih2 =>
    have hle := h4.le
    rcases Nat.eq_or_lt_of_le hx with rfl | hlt
    · exact ⟨q, ⟨h1, h3, body, h2⟩, by omega⟩
    · rcases Nat.lt_trichotomy x q with hlq | rfl | hgq
      · obtain ⟨q', hq', hlt'⟩ := ih1 hlt hlq
        exact ⟨q', hq', by omega⟩
      · rw [h3] at ho; cases ho
      · exact ih2 hgq hxj

theorem Spans.exists_open (h : p.Spans i b j) {x : Nat} (hx : i ≤ x) (hxj : x < j) (ho : p.op? x = some .loopClose) :
    ∃ o, p.Encloses o x ∧ i ≤ o := by
  induction h with
  | done => omega
  | @comment i j b h1 h2 _ ih =>
    rcases Nat.eq_or_lt_of_le hx with rfl | hlt
    · rw [h2] at ho; cases ho
    · obtain ⟨o, ho, hle⟩ := ih hlt hxj
      exact ⟨o, ho, by omega⟩
  | @run i j c b h1 _ ih =>
    rcases Nat.eq_or_lt_of_le hx with rfl | hlt
    · rw [h1] at ho; cases c <;> cases ho
    · obtain ⟨o, ho, hle⟩ := ih hlt hxj
      exact ⟨o, ho, by omega⟩
  | @loop i q j body b h1 h2 h3 h4 ih1 ih2 =>
    have hle := h2.le
    rcases Nat.eq_or_lt_of_le hx with rfl | hlt
    · rw [h1] at ho; cases ho
    · rcases Nat.lt_trichotomy x q with hlq | rfl | hgq
      · obtain ⟨o, ho, hle'⟩ := ih1 hlt hlq
        exact ⟨o, ho, by omega⟩
      · exact ⟨i, ⟨h1, h3, body, h2⟩, Nat.le_refl _⟩
      · obtain ⟨o, ho, hle'⟩ := ih2 hgq hxj
        exact ⟨o, ho, by omega⟩

/-- In a program that passes the check every opening bracket opens a loop. -/
theorem exists_close (h : p.check = .ok ()) (ho : p.op? i = some .loopOpen) : ∃ q, p.Encloses i q := by
  obtain ⟨b, hb⟩ := check_eq_ok_iff.mp h
  obtain ⟨q, hq, -⟩ := hb.exists_close (Nat.zero_le _) (lt_size_of_op? ho) ho
  exact ⟨q, hq⟩

/-- In a program that passes the check every closing bracket closes a loop. -/
theorem exists_open (h : p.check = .ok ()) (ho : p.op? q = some .loopClose) : ∃ i, p.Encloses i q := by
  obtain ⟨b, hb⟩ := check_eq_ok_iff.mp h
  obtain ⟨i, hi, -⟩ := hb.exists_open (Nat.zero_le _) (lt_size_of_op? ho) ho
  exact ⟨i, hi⟩

/-! ## The table of partners -/

/-- The partner that a scan from a bracket finds. -/
def partner? (p : Program) (i : Nat) : Option Nat :=
  match p.op? i with
  | some .loopOpen => p.closeOf? i
  | some .loopClose => p.openOf? i
  | _ => none

theorem Encloses.partner?_open (h : p.Encloses i q) : p.partner? i = some q := by
  rw [partner?, h.opens]
  exact h.closeOf?_eq

theorem Encloses.partner?_close (h : p.Encloses i q) : p.partner? q = some i := by
  rw [partner?, h.closes]
  exact h.openOf?_eq

theorem partner?_of_comment (h : p.op? i = none) : p.partner? i = none := by rw [partner?, h]

theorem partner?_of_command {c : Command} (h : p.op? i = some c.op) : p.partner? i = none := by
  rw [partner?, h]
  cases c <;> rfl

end Program

namespace Matching

open Program

variable {p : Program} {i j q : Nat} {b : Block}

theorem joinFrom_command (partners : Array (Option Nat)) (stack : List Nat) (c : Command) (ops : List (Nat × Op)) :
    joinFrom partners stack ((i, c.op) :: ops) = joinFrom partners stack ops := by
  cases c <;> cases stack <;> rfl

theorem size_join (partners : Array (Option Nat)) : (join partners i q).size = partners.size := by simp [join]

theorem getElem?_join_ne (partners : Array (Option Nat)) {x : Nat} (hi : x ≠ i) (hq : x ≠ q) :
    (join partners i q)[x]? = partners[x]? := by
  rw [join, Array.getElem?_setIfInBounds_ne hq.symm, Array.getElem?_setIfInBounds_ne hi.symm]

theorem getElem?_join_left {partners : Array (Option Nat)} (hi : i < partners.size) (hne : i ≠ q) :
    (join partners i q)[i]? = some (some q) := by
  rw [join, Array.getElem?_setIfInBounds_ne hne.symm, Array.getElem?_setIfInBounds_self_of_lt hi]

theorem getElem?_join_right {partners : Array (Option Nat)} (hq : q < partners.size) :
    (join partners i q)[q]? = some (some i) := by
  rw [join, Array.getElem?_setIfInBounds_self_of_lt (by simpa using hq)]

/-- A table made from another: between two positions it holds the partners, and elsewhere nothing has changed. -/
structure Filled (p : Program) (i j : Nat) (partners partners' : Array (Option Nat)) : Prop where
  size : partners'.size = partners.size
  inside : ∀ x, i ≤ x → x < j → partners'[x]? = some (p.partner? x)
  outside : ∀ x, x < i ∨ j ≤ x → partners'[x]? = partners[x]?

theorem Filled.refl (p : Program) (i : Nat) (partners : Array (Option Nat)) : Filled p i i partners partners :=
  ⟨rfl, fun _ _ _ => by omega, fun _ _ => rfl⟩

/-- A position without partner keeps its entry. -/
theorem Filled.cons {partners partners' : Array (Option Nat)} (hi : partners[i]? = some none) (h : p.partner? i = none)
    (hf : Filled p (i + 1) j partners partners') : Filled p i j partners partners' := by
  refine ⟨hf.size, fun x hx hxj => ?_, fun x hx => hf.outside x (by omega)⟩
  rcases Nat.eq_or_lt_of_le hx with rfl | hlt
  · rw [hf.outside i (by omega), hi, h]
  · exact hf.inside x hlt hxj

/-- The tables of a loop and of what follows it. -/
theorem Filled.loop {ps ps₁ ps₂ : Array (Option Nat)} (he : p.Encloses i q) (hq : q < ps.size) (hqj : q < j)
    (h1 : Filled p (i + 1) q ps ps₁) (h2 : Filled p (q + 1) j (join ps₁ i q) ps₂) : Filled p i j ps ps₂ := by
  have hlt := he.lt
  refine ⟨by rw [h2.size, size_join, h1.size], fun x hx hxj => ?_, fun x hx => ?_⟩
  · rcases Nat.lt_trichotomy x q with hlq | rfl | hgq
    · rw [h2.outside x (by omega)]
      rcases Nat.eq_or_lt_of_le hx with rfl | hix
      · rw [getElem?_join_left (by rw [h1.size]; omega) (by omega), he.partner?_open]
      · rw [getElem?_join_ne _ (by omega) (by omega), h1.inside x hix hlq]
    · rw [h2.outside x (by omega), getElem?_join_right (by rw [h1.size]; omega), he.partner?_close]
    · exact h2.inside x hgq hxj
  · rw [h2.outside x (by omega), getElem?_join_ne _ (by omega) (by omega), h1.outside x (by omega)]

/-- Reading a balanced part of a text leaves the stack as it was and fills the table there. -/
theorem joinFrom_of_spans (h : p.Spans i b j) (partners : Array (Option Nat)) (hsize : j ≤ partners.size)
    (hblank : ∀ x, i ≤ x → x < j → partners[x]? = some none) (stack : List Nat) :
    ∃ partners', Filled p i j partners partners' ∧
      joinFrom partners stack (p.opsFrom i) = joinFrom partners' stack (p.opsFrom j) := by
  induction h generalizing partners stack with
  | done i => exact ⟨partners, .refl p i partners, rfl⟩
  | @comment i j b h1 h2 h3 ih =>
    have hle := h3.le
    obtain ⟨partners', hf, heq⟩ := ih partners hsize (fun x hx => hblank x (by omega)) stack
    refine ⟨partners', .cons (hblank i (by omega) (by omega)) (partner?_of_comment h2) hf, ?_⟩
    rw [opsFrom_of_comment h1 h2, heq]
  | @run i j c b h1 h2 ih =>
    have hle := h2.le
    obtain ⟨partners', hf, heq⟩ := ih partners hsize (fun x hx => hblank x (by omega)) stack
    refine ⟨partners', .cons (hblank i (by omega) (by omega)) (partner?_of_command h1) hf, ?_⟩
    rw [opsFrom_of_op? h1, joinFrom_command, heq]
  | @loop i q j body b h1 h2 h3 h4 ih1 ih2 =>
    have hle1 := h2.le
    have hle2 := h4.le
    obtain ⟨ps₁, hf₁, heq₁⟩ := ih1 partners (by omega) (fun x hx hxj => hblank x (by omega) (by omega)) (i :: stack)
    obtain ⟨ps₂, hf₂, heq₂⟩ := ih2 (join ps₁ i q) (by rw [size_join, hf₁.size]; exact hsize)
      (fun x hx hxj => by
        rw [getElem?_join_ne _ (by omega) (by omega), hf₁.outside x (by omega)]
        exact hblank x (by omega) hxj) stack
    refine ⟨ps₂, .loop ⟨h1, h3, body, h2⟩ (by omega) (by omega) hf₁ hf₂, ?_⟩
    rw [opsFrom_of_op? h1, joinFrom, heq₁, opsFrom_of_op? h3, joinFrom, heq₂]

/-- Where the check fails the table is refused, with the same bracket. -/
theorem map_joinFrom (partners : Array (Option Nat)) (stack : List Nat) (ops : List (Nat × Op)) :
    (joinFrom partners stack ops).map (fun _ => ()) = checkFrom stack ops := by
  induction ops generalizing partners stack with
  | nil =>
    rw [joinFrom, checkFrom]
    cases stack.getLast? <;> rfl
  | cons o ops ih =>
    obtain ⟨i, o⟩ := o
    cases o with
    | loopOpen => rw [joinFrom, checkFrom, ih]
    | loopClose =>
      cases stack with
      | nil => rfl
      | cons j stack => rw [joinFrom, checkFrom, ih]
    | _ => cases stack <;> exact ih ..

theorem ofProgram_eq_error_iff {u : Unmatched} : ofProgram p = .error u ↔ p.check = .error u := by
  have h := map_joinFrom (Array.replicate p.size none) [] p.ops
  rw [check, ← h, ofProgram]
  cases joinFrom (Array.replicate p.size none) [] p.ops <;> simp [Except.map, bind, Except.bind, pure, Except.pure]

theorem check_of_ofProgram {m : Matching} (h : ofProgram p = .ok m) : p.check = .ok () := by
  cases hc : p.check with
  | ok => rfl
  | error u =>
    rw [ofProgram_eq_error_iff.mpr hc] at h
    cases h

/-- A program that passes the check has a table, and the table holds what scans find. -/
theorem ofProgram_of_check (h : p.check = .ok ()) :
    ∃ m, ofProgram p = .ok m ∧ m.partners.size = p.size ∧ ∀ i, i < p.size → m.partners[i]? = some (p.partner? i) := by
  obtain ⟨b, hb⟩ := check_eq_ok_iff.mp h
  obtain ⟨partners, hf, heq⟩ := joinFrom_of_spans hb (Array.replicate p.size none) (by simp)
    (fun x _ hx => by simp [hx]) []
  rw [opsFrom_zero, opsFrom_of_le (Nat.le_refl _)] at heq
  refine ⟨⟨partners⟩, ?_, by simpa using hf.size, fun i hi => hf.inside i (Nat.zero_le _) hi⟩
  rw [ofProgram, heq]
  rfl

end Matching
end TapeLang
