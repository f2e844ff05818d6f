import TapeLang.Proofs.Layout

/-!
# TapeLang.Proofs.Nesting — the table of partners is the structure of loops

The table of partners is made in one reading with a stack.  Its entries could as well be found one by one, by a scan from each
bracket that counts depth, onwards from an opening one and backwards from a closing one.  Such scans know nothing of each
other.  That they find each other's brackets, and the ones in the table, comes from the structure of the text.

* `Program.Opened stack i`: in front of position `i` just the loops on the stack are open.
* `Program.Unpartnered u`: the text before a bracket is balanced, and a scan from it finds nothing.  So it is with the bracket
  that the check names (`unpartnered_of_check`), which makes it the leftmost one without a partner.
* `Matching.scanned`: all brackets with what scans from them find.  `Matching.pairs_ofProgram`: this is the table.
* `Matching.Nested`: partners are partners of each other, enclose balanced text, and do not cross.
* **`Matching.ofProgram_nests`**: a table is made for the texts of the grammar, and is nested.
-/

namespace TapeLang

/-! ## Brackets and their scans -/

section Sides

/-- The operator of a side. -/
def Side.op : Side → Op
  | opening => .loopOpen
  | closing => .loopClose

/-- The side that an operator is; a command is none. -/
def Op.side? : Op → Option Side
  | loopOpen => some .opening
  | loopClose => some .closing
  | _ => none

theorem Op.eq_of_side? {o : Op} {side : Side} (h : o.side? = some side) : o = side.op := by
  cases o <;> cases h <;> rfl

variable (p : Program)

/-- The brackets with their positions, in source order. -/
def Program.brackets : List (Nat × Side) := p.ops.filterMap fun x => x.2.side?.map (x.1, ·)

/-- What a scan from a bracket finds. -/
def Program.scan (i : Nat) : Side → Option Nat
  | .opening => p.closeOf? i
  | .closing => p.openOf? i

/-- A bracket with what a scan from it finds; a scan that runs off the text fails. -/
def Program.scanAt (x : Nat × Side) : Except Unmatched (Nat × Nat) :=
  match p.scan x.1 x.2 with
  | some j => .ok (x.1, j)
  | none => .error ⟨x.1, x.2⟩

/-- All brackets with what scans from them find, in source order; the first scan that fails is the error. -/
def Matching.scanned : Except Unmatched (List (Nat × Nat)) := p.brackets.mapM p.scanAt

end Sides

namespace Program

variable {p : Program} {i j k q i' q' : Nat} {b c : Block} {stack : List Nat} {u : Unmatched}

theorem partner?_eq_scan {side : Side} (h : p.op? i = some side.op) : p.partner? i = p.scan i side := by
  cases side with
  | opening => rw [partner?, h]; rfl
  | closing => rw [partner?, h]; rfl

/-! ## Open loops -/

section Opened

theorem Spans.trans (h : p.Spans i b j) (h' : p.Spans j c k) : p.Spans i (b.append c) k := by
  induction h with
  | done i => exact h'
  | comment hlt ho _ ih => exact .comment hlt ho (ih h')
  | run ho _ ih => exact .run ho (ih h')
  | loop ho hbody hc _ _ ih => exact .loop ho hbody hc (ih h')

/-- In front of a position just these loops are open, innermost first. -/
inductive Opened (p : Program) : List Nat → Nat → Prop
  | nil {i : Nat} {b : Block} : p.Spans 0 b i → Opened p [] i
  | cons {j i : Nat} {b : Block} {stack : List Nat} : Opened p stack j → p.op? j = some .loopOpen → p.Spans (j + 1) b i →
      Opened p (j :: stack) i

/-- Balanced text opens no loop and closes none. -/
theorem Opened.extend (h : p.Opened stack i) (hb : p.Spans i b j) : p.Opened stack j := by
  cases h with
  | nil hbefore => exact .nil (hbefore.trans hb)
  | cons hstack ho hbody => exact .cons hstack ho (hbody.trans hb)

theorem Opened.close (h : p.Opened (j :: stack) i) (hc : p.op? i = some .loopClose) : p.Opened stack (i + 1) := by
  cases h with
  | cons hstack ho hbody => exact hstack.extend (.loop ho hbody hc (.done (i + 1)))

/-- Where nothing more is closed, no open loop is closed. -/
theorem Opened.closeFrom_eq_none (h : p.Opened stack i) (hend : ∀ depth, p.closeFrom depth i = none) :
    ∀ j ∈ stack, ∀ depth, p.closeFrom depth (j + 1) = none := by
  induction h with
  | nil => simp
  | @cons j i b stack _ ho hbody ih =>
    have hinner : ∀ depth, p.closeFrom depth (j + 1) = none := fun depth => by rw [hbody.closeFrom_eq, hend]
    intro x hx depth
    rcases List.mem_cons.mp hx with rfl | hx
    · exact hinner depth
    · exact ih (fun depth => by rw [closeFrom_open ho, hinner]) x hx depth

theorem Opened.outermost (h : p.Opened stack i) (hlast : stack.getLast? = some j) :
    p.op? j = some .loopOpen ∧ ∃ b, p.Spans 0 b j := by
  induction h with
  | nil => cases hlast
  | @cons x i b stack hstack ho _ ih =>
    cases stack with
    | nil =>
      cases hlast
      cases hstack with
      | nil hbefore => exact ⟨ho, _, hbefore⟩
    | cons y stack =>
      rw [List.getLast?_cons_cons] at hlast
      exact ih hlast

theorem closeFrom_of_le (h : p.size ≤ i) (depth : Nat) : p.closeFrom depth i = none := by
  have hnot : ¬i < p.chars.size := Nat.not_lt.mpr h
  rw [closeFrom.eq_def, dif_neg hnot]

/-- A bracket without a partner, behind balanced text. -/
structure Unpartnered (p : Program) (u : Unmatched) : Prop where
  bracket : p.op? u.position = some u.side.op
  before : ∃ b, p.Spans 0 b u.position
  scan : p.scan u.position u.side = none

theorem Opened.unpartnered_end (h : p.Opened stack i) (hi : p.size ≤ i) (hc : checkFrom stack [] = .error u) :
    p.Unpartnered u := by
  rw [checkFrom] at hc
  cases hlast : stack.getLast? with
  | none => rw [hlast] at hc; cases hc
  | some j =>
    rw [hlast] at hc
    cases hc
    obtain ⟨ho, hbefore⟩ := h.outermost hlast
    exact ⟨ho, hbefore, h.closeFrom_eq_none (closeFrom_of_le hi) j (List.mem_of_getLast? hlast) 0⟩

/-- The bracket that the check names, when some loops are open. -/
theorem unpartnered_of_checkFrom {n : Nat} (hn : p.size - i ≤ n) (h : p.Opened stack i)
    (hc : checkFrom stack (p.opsFrom i) = .error u) : p.Unpartnered u := by
  induction n generalizing i stack with
  | zero =>
    have hge : p.size ≤ i := by omega
    rw [opsFrom_of_le hge] at hc
    exact h.unpartnered_end hge hc
  | succ n ih =>
    rcases op?_cases p i with hge | ⟨hlt, hnone⟩ | ⟨c, ho⟩ | ho | ho
    · rw [opsFrom_of_le hge] at hc
      exact h.unpartnered_end hge hc
    · rw [opsFrom_of_comment hlt hnone] at hc
      exact ih (by omega) (h.extend (.comment hlt hnone (.done (i + 1)))) hc
    · have hlt := lt_size_of_op? ho
      rw [opsFrom_of_op? ho, checkFrom_command] at hc
      exact ih (by omega) (h.extend (.run ho (.done (i + 1)))) hc
    · have hlt := lt_size_of_op? ho
      rw [opsFrom_of_op? ho, checkFrom] at hc
      exact ih (by omega) (.cons h ho (.done (i + 1))) hc
    · have hlt := lt_size_of_op? ho
      rw [opsFrom_of_op? ho] at hc
      cases stack with
      | nil =>
        rw [checkFrom] at hc
        cases hc
        cases h with
        | nil hbefore =>
          -- a scan backwards runs over the balanced text to its start
          exact ⟨ho, ⟨_, hbefore⟩, (hbefore.openBefore_eq 0).trans rfl⟩
      | cons j stack =>
        rw [checkFrom] at hc
        exact ih (by omega) (h.close ho) hc

/-- **The check names a bracket without a partner**, and all brackets before it have one. -/
theorem unpartnered_of_check (h : p.check = .error u) : p.Unpartnered u :=
  unpartnered_of_checkFrom (Nat.le_refl _) (.nil (.done 0)) h

end Opened

/-! ## Loops do not cross -/

section Crossing

/-- In balanced text every bracket has a partner. -/
theorem Spans.isSome_partner? (h : p.Spans i b j) {x : Nat} (hx : i ≤ x) (hxj : x < j) {side : Side}
    (ho : p.op? x = some side.op) : (p.partner? x).isSome := by
  cases side with
  | opening =>
    obtain ⟨q, hq, -⟩ := h.exists_close hx hxj ho
    rw [hq.partner?_open]
    rfl
  | closing =>
    obtain ⟨q, hq, -⟩ := h.exists_open hx hxj ho
    rw [hq.partner?_close]
    rfl

theorem Encloses.close_eq (h : p.Encloses i q) (h' : p.Encloses i q') : q = q' :=
  Option.some.inj (h.closeOf?_eq.symm.trans h'.closeOf?_eq)

/-- Of two loops the one that starts later is closed first, or starts when the other is closed. -/
theorem Encloses.nested_or_after (h : p.Encloses i q) (h' : p.Encloses i' q') (hlt : i < i') : q < i' ∨ q' < q := by
  rcases Nat.lt_or_ge q i' with hafter | hge
  · exact .inl hafter
  · have hne : i' ≠ q := by
      rintro rfl
      exact absurd (h.closes.symm.trans h'.opens) (by decide)
    obtain ⟨b, hb⟩ := h.body
    obtain ⟨x, hx, hxq⟩ := hb.exists_close hlt (by omega) h'.opens
    rw [h'.close_eq hx]
    exact .inr hxq

/-- The text of a loop is balanced. -/
theorem Encloses.balanced (h : p.Encloses i q) : Balanced ((p.rest (i + 1)).take (q - (i + 1))) := by
  obtain ⟨b, hb⟩ := h.body
  obtain ⟨cs, hcs, hrest⟩ := balanced_of_spans hb
  have hlt := lt_size_of_op? h.closes
  have hle := hb.le
  have hlength : cs.length = q - (i + 1) := by
    have hlen := congrArg List.length hrest
    simp only [rest, List.length_append, List.length_drop, Array.length_toList] at hlen
    simp only [size] at hlt
    omega
  rw [hrest, ← hlength, List.take_left]
  exact hcs

/-- Partners are the two ends of a loop. -/
theorem encloses_of_partner? (hcheck : p.check = .ok ()) (h : p.partner? i = some q) :
    p.Encloses i q ∨ p.Encloses q i := by
  rcases op?_cases p i with hge | ⟨-, hnone⟩ | ⟨c, ho⟩ | ho | ho
  · exact absurd (Assembler.lt_size_of_partner? h) (by omega)
  · rw [partner?_of_comment hnone] at h
    cases h
  · rw [partner?_of_command ho] at h
    cases h
  · obtain ⟨x, hx⟩ := exists_close hcheck ho
    cases hx.partner?_open.symm.trans h
    exact .inl hx
  · obtain ⟨x, hx⟩ := exists_open hcheck ho
    cases hx.partner?_close.symm.trans h
    exact .inr hx

end Crossing
end Program

/-! ## The table -/

namespace Matching

open Program

variable {p : Program} {m : Matching} {u : Unmatched}

section Scans

theorem mapM_scanAt {ops : List (Nat × Op)} (hops : ∀ x ∈ ops, p.op? x.1 = some x.2)
    (hfound : ∀ x ∈ ops, ∀ side, x.2.side? = some side → (p.partner? x.1).isSome) :
    (ops.filterMap fun x => x.2.side?.map (x.1, ·)).mapM p.scanAt =
      .ok (ops.filterMap fun x => (p.partner? x.1).map (x.1, ·)) := by
  induction ops with
  | nil => rfl
  | cons x ops ih =>
    obtain ⟨i, o⟩ := x
    have hi : p.op? i = some o := hops _ List.mem_cons_self
    have hrest := ih (fun x hx => hops x (.tail _ hx)) fun x hx => hfound x (.tail _ hx)
    cases hside : o.side? with
    | none =>
      have hpartner : p.partner? i = none := by
        rw [partner?, hi]
        cases o with
        | loopOpen | loopClose => cases hside
        | _ => rfl
      rw [List.filterMap_cons, List.filterMap_cons, hside, hpartner]
      exact hrest
    | some side =>
      obtain ⟨j, hj⟩ := Option.isSome_iff_exists.mp (hfound _ List.mem_cons_self side hside)
      have hscan : p.scanAt (i, side) = .ok (i, j) := by
        rw [Op.eq_of_side? hside] at hi
        rw [scanAt, ← partner?_eq_scan hi, hj]
      rw [List.filterMap_cons, List.filterMap_cons, hside, hj]
      simp only [Option.map_some, List.mapM_cons, hscan, hrest]
      rfl

/-- Where brackets match, scans find what the table holds. -/
theorem scanned_of_check (h : p.check = .ok ()) :
    scanned p = .ok (p.ops.filterMap fun x => (p.partner? x.1).map (x.1, ·)) := by
  obtain ⟨b, hb⟩ := check_eq_ok_iff.mp h
  have hops : ∀ x ∈ p.ops, p.op? x.1 = some x.2 := fun x hx => mem_ops.mp hx
  refine mapM_scanAt hops fun x hx side hside => ?_
  have hi := hops x hx
  rw [Op.eq_of_side? hside] at hi
  exact hb.isSome_partner? (Nat.zero_le _) (lt_size_of_op? hi) hi

/-- Where they do not, the first scan that fails is the one from the bracket that the check names. -/
theorem scanned_of_check_error (h : p.check = .error u) : scanned p = .error u := by
  obtain ⟨ho, ⟨b, hb⟩, hscan⟩ := unpartnered_of_check h
  have hside : u.side.op.side? = some u.side := by cases u.side <;> rfl
  have hbefore : ((p.opsBefore u.position).filterMap fun x => x.2.side?.map (x.1, ·)).mapM p.scanAt =
      .ok ((p.opsBefore u.position).filterMap fun x => (p.partner? x.1).map (x.1, ·)) := by
    have hops : ∀ x ∈ p.opsBefore u.position, p.op? x.1 = some x.2 := fun x hx => mem_ops.mp (List.mem_filter.mp hx).1
    refine mapM_scanAt hops fun x hx side hside => ?_
    have hi := hops x hx
    rw [Op.eq_of_side? hside] at hi
    exact hb.isSome_partner? (Nat.zero_le _) (lt_of_mem_opsBefore hx) hi
  have hfails : p.scanAt (u.position, u.side) = .error u := by rw [scanAt, hscan]
  rw [scanned, brackets, ← opsBefore_append_opsFrom p u.position, opsFrom_of_op? ho, List.filterMap_append,
    List.filterMap_cons, hside, List.mapM_append, hbefore]
  simp only [Option.map_some, List.mapM_cons, hfails]
  rfl

/-- The table lists the brackets with their partners. -/
theorem pairs_eq (hsize : m.partners.size = p.size)
    (hpartners : ∀ i, i < p.size → m.partners[i]? = some (p.partner? i)) :
    m.pairs = p.ops.filterMap fun x => (p.partner? x.1).map (x.1, ·) := by
  have hentries : m.partners.toList.zipIdx.map (fun x => x.1.map (x.2, ·)) =
      p.chars.toList.zipIdx.map fun x => (Op.ofChar? x.1).bind fun _ => (p.partner? x.2).map (x.2, ·) := by
    refine List.ext_getElem? fun i => ?_
    simp only [List.getElem?_map, List.getElem?_zipIdx, Nat.zero_add, Array.getElem?_toList, Option.map_map]
    rcases Nat.lt_or_ge i p.size with hlt | hge
    · rw [hpartners i hlt]
      obtain ⟨c, hc, -⟩ := rest_of_lt hlt
      rw [hc]
      -- where no operator stands, the table has no entry
      cases ho : Op.ofChar? c with
      | some o => simp [ho]
      | none =>
        have hnone : p.op? i = none := by rw [op?, hc]; exact ho
        simp [partner?_of_comment hnone, ho]
    · rw [Array.getElem?_eq_none (by omega), Array.getElem?_eq_none hge]
      rfl
  have hpairs : m.pairs = (m.partners.toList.zipIdx.map fun x => x.1.map (x.2, ·)).filterMap id := by
    rw [List.filterMap_map]
    rfl
  rw [hpairs, hentries, List.filterMap_map, ops, List.filterMap_filterMap]
  refine congrArg (List.filterMap · _) (funext fun x => ?_)
  obtain ⟨c, i⟩ := x
  show ((Op.ofChar? c).bind fun _ => (p.partner? i).map (i, ·)) = ((Op.ofChar? c).map (i, ·)).bind _
  cases Op.ofChar? c <;> rfl

/-- **One reading finds what scans from all brackets find**, and fails at the bracket where the first scan fails. -/
theorem pairs_ofProgram (p : Program) : (ofProgram p).map pairs = scanned p := by
  cases h : p.check with
  | ok _ =>
    obtain ⟨m, hm, hsize, hpartners⟩ := ofProgram_of_check h
    rw [hm, scanned_of_check h, ← pairs_eq hsize hpartners]
    rfl
  | error u =>
    rw [ofProgram_eq_error_iff.mpr h, scanned_of_check_error h]
    rfl

end Scans

section Nesting

/-- What a table of partners says of the text it is made for. -/
structure Nested (p : Program) (m : Matching) : Prop where
  /-- It has entries just for the brackets. -/
  defined : ∀ i, (m.get? i).isSome ↔ p.chars[i]? = some '[' ∨ p.chars[i]? = some ']'
  /-- Partners are partners of each other. -/
  symmetric : ∀ i j, m.get? i = some j → m.get? j = some i
  /-- The partner of an opening bracket is a closing one behind it, and the text strictly between them is balanced. -/
  encloses : ∀ i, p.chars[i]? = some '[' →
    ∃ q, m.get? i = some q ∧ i < q ∧ p.chars[q]? = some ']' ∧ Balanced ((p.rest (i + 1)).take (q - (i + 1)))
  /-- The partner of a closing bracket is an opening one before it. -/
  closes : ∀ q, p.chars[q]? = some ']' → ∃ i, m.get? q = some i ∧ i < q ∧ p.chars[i]? = some '['
  /-- Of two loops neither overlaps the other: they are apart, or one lies strictly inside the other. -/
  apart : ∀ i q i' q', m.get? i = some q → i < q → m.get? i' = some q' → i' < q' → i ≠ i' →
    q < i' ∨ q' < i ∨ (i < i' ∧ q' < q) ∨ (i' < i ∧ q < q')

theorem get?_eq_partner? (h : ofProgram p = .ok m) (i : Nat) : m.get? i = p.partner? i := by
  obtain ⟨m', hm', hsize, hpartners⟩ := ofProgram_of_check (check_of_ofProgram h)
  cases h.symm.trans hm'
  rw [get?]
  rcases Nat.lt_or_ge i p.size with hlt | hge
  · rw [hpartners i hlt]
    rfl
  · rw [Array.getElem?_eq_none (by omega)]
    cases hp : p.partner? i with
    | none => rfl
    | some q => exact absurd (Assembler.lt_size_of_partner? hp) (by omega)

theorem encloses_of_get? (h : ofProgram p = .ok m) {i q : Nat} (hi : m.get? i = some q) :
    p.Encloses i q ∨ p.Encloses q i :=
  encloses_of_partner? (check_of_ofProgram h) (get?_eq_partner? h i ▸ hi)

theorem op?_of_char {i : Nat} {o : Op} (h : p.chars[i]? = some o.symbol) : p.op? i = some o := by
  rw [op?, h, Option.bind_some, Op.ofChar?_symbol]

theorem nested_of_ofProgram (h : ofProgram p = .ok m) : Nested p m where
  defined i := by
    have hcheck := check_of_ofProgram h
    rw [get?_eq_partner? h]
    constructor
    · intro hsome
      obtain ⟨q, hq⟩ := Option.isSome_iff_exists.mp hsome
      rcases encloses_of_partner? hcheck hq with he | he
      · exact .inl (char_of_open he.opens)
      · exact .inr (char_of_close he.closes)
    · rintro (hc | hc)
      · obtain ⟨q, hq⟩ := exists_close hcheck (op?_of_char (o := .loopOpen) hc)
        rw [hq.partner?_open]
        rfl
      · obtain ⟨q, hq⟩ := exists_open hcheck (op?_of_char (o := .loopClose) hc)
        rw [hq.partner?_close]
        rfl
  symmetric i j hi := by
    rw [get?_eq_partner? h]
    rcases encloses_of_get? h hi with he | he
    · exact he.partner?_close
    · exact he.partner?_open
  encloses i hc := by
    obtain ⟨q, hq⟩ := exists_close (check_of_ofProgram h) (op?_of_char (o := .loopOpen) hc)
    exact ⟨q, by rw [get?_eq_partner? h, hq.partner?_open], hq.lt, char_of_close hq.closes, hq.balanced⟩
  closes q hc := by
    obtain ⟨i, hi⟩ := exists_open (check_of_ofProgram h) (op?_of_char (o := .loopClose) hc)
    exact ⟨i, by rw [get?_eq_partner? h, hi.partner?_close], hi.lt, char_of_open hi.opens⟩
  apart i q i' q' hi hlt hi' hlt' hne := by
    have opens : ∀ {x y : Nat}, m.get? x = some y → x < y → p.Encloses x y := by
      intro x y hx hxy
      rcases encloses_of_get? h hx with he | he
      · exact he
      · exact absurd he.lt (by omega)
    have he := opens hi hlt
    have he' := opens hi' hlt'
    rcases Nat.lt_or_gt_of_ne hne with hbefore | hbehind
    · rcases he.nested_or_after he' hbefore with hafter | hinside
      · exact .inl hafter
      · exact .inr (.inr (.inl ⟨hbefore, hinside⟩))
    · rcases he'.nested_or_after he hbehind with hafter | hinside
      · exact .inr (.inl hafter)
      · exact .inr (.inr (.inr ⟨hbehind, hinside⟩))

/-- **The table of partners is the structure of loops.**  A table is made just for the texts that the grammar accepts.  It
holds what independent scans from all brackets find, and where there is none the error is that of the first scan that fails.
Every table is nested. -/
theorem ofProgram_nests (p : Program) :
    ((∃ m, ofProgram p = .ok m) ↔ Balanced p.chars.toList) ∧ (ofProgram p).map pairs = scanned p ∧
      ∀ m, ofProgram p = .ok m → Nested p m := by
  refine ⟨?_, pairs_ofProgram p, fun m h => nested_of_ofProgram h⟩
  rw [← check_eq_ok_iff_balanced]
  constructor
  · rintro ⟨m, h⟩
    exact check_of_ofProgram h
  · intro h
    obtain ⟨m, hm, -⟩ := ofProgram_of_check h
    exact ⟨m, hm⟩

/-- Two loops in a loop, with a comment between them. -/
theorem ofProgram_nests_siblings :
    ∃ m, ofProgram ⟨#['[', '[', ']', '#', '[', ']', ']']⟩ = .ok m ∧
      m.pairs = [(0, 6), (1, 2), (2, 1), (4, 5), (5, 4), (6, 0)] ∧
      Nested ⟨#['[', '[', ']', '#', '[', ']', ']']⟩ m := by
  have hm : ofProgram ⟨#['[', '[', ']', '#', '[', ']', ']']⟩ =
      .ok ⟨#[some 6, some 2, some 1, none, some 5, some 4, some 0]⟩ := rfl
  exact ⟨_, hm, rfl, (ofProgram_nests _).2.2 _ hm⟩

end Nesting
end Matching
end TapeLang
