import TapeLang.Bracket

/-!
# TapeLang.Proofs.Block — programs as trees

A program whose brackets match is a tree of commands and loops.

* `Balanced cs`: the grammar of texts whose brackets match; comments may stand anywhere.
* `Block.parse cs`: the tree of a text, comments dropped.  The text is read from its end, so the blocks that wait for an
  opening bracket are all complete when it comes.
* `Spans p i b j`: the text of `p` from position `i` up to `j` is a text of the block `b`.
* Four ways to say that brackets match: the grammar (`spans_of_balanced`, `balanced_of_spans`), the tree
  (`parse_eq_some_iff`), the positions (`Spans`), and the check that programs pass before they run (`check_eq_ok_iff`).
-/

namespace TapeLang

/-! ## Trees -/

/-- The operators that are not brackets. -/
inductive Command where
  | right
  | left
  | increment
  | decrement
  | output
  | input
deriving DecidableEq

namespace Command

/-- A command among the operators. -/
def op : Command → Op
  | right => .right
  | left => .left
  | increment => .increment
  | decrement => .decrement
  | output => .output
  | input => .input

/-- The command that an operator is; a bracket is none. -/
def ofOp? : Op → Option Command
  | .right => some right
  | .left => some left
  | .increment => some increment
  | .decrement => some decrement
  | .output => some output
  | .input => some input
  | .loopOpen => none
  | .loopClose => none

theorem ofOp?_eq_some {o : Op} {c : Command} (h : ofOp? o = some c) : o = c.op := by
  cases o <;> cases h <;> rfl

end Command

/-- Commands and loops, one after the other. -/
inductive Block where
  | done
  | run (command : Command) (rest : Block)
  | loop (body rest : Block)
deriving DecidableEq

namespace Block

/-- One block after another. -/
def append : Block → Block → Block
  | done, c => c
  | run o b, c => run o (b.append c)
  | loop body b, c => loop body (b.append c)

theorem append_done (b : Block) : b.append done = b := by
  induction b with
  | done => rfl
  | run o b ih => rw [append, ih]
  | loop body b _ ih => rw [append, ih]

/-- Puts a character in front of a text that may close loops it does not open.  The blocks stand between the brackets
that close these loops, first one first. -/
def extend : Option Op → List Block → Option (List Block)
  | none, bs => some bs
  | some .loopClose, bs => some (done :: bs)
  | some .loopOpen, body :: rest :: bs => some (loop body rest :: bs)
  | some o, b :: bs => (Command.ofOp? o).map fun c => run c b :: bs
  | some _, [] => none

/-- The blocks of a text that may close loops it does not open. -/
def parseFrom : List Char → Option (List Block)
  | [] => some [done]
  | c :: cs => (parseFrom cs).bind (extend (Op.ofChar? c))

/-- The block of a text that closes the loops it opens, and no others. -/
def parse (cs : List Char) : Option Block :=
  match parseFrom cs with
  | some [b] => some b
  | _ => none

theorem parse_eq_some {cs : List Char} {b : Block} : parse cs = some b ↔ parseFrom cs = some [b] := by
  unfold parse
  split
  next c h => rw [h]; simp
  next h =>
    constructor
    · intro h'; cases h'
    · intro h'; exact absurd h' (h b)

theorem extend_ne_nil {o : Option Op} {bs : List Block} (hbs : bs ≠ []) : extend o bs ≠ some [] := by
  unfold extend
  split
  · simpa using hbs
  · simp
  · simp
  · simp
  · simp

theorem parseFrom_ne_nil (cs : List Char) : parseFrom cs ≠ some [] := by
  induction cs with
  | nil => simp [parseFrom]
  | cons c cs ih =>
    intro h
    rw [parseFrom, Option.bind_eq_some_iff] at h
    obtain ⟨bs, hbs, hext⟩ := h
    exact extend_ne_nil (fun hnil => ih (hnil ▸ hbs)) hext

theorem extend_command (c : Command) (b : Block) (bs : List Block) :
    extend (some c.op) (b :: bs) = some (run c b :: bs) := by
  cases c <;> rfl

end Block

/-! ## The grammar -/

/-- The texts whose brackets match. -/
inductive Balanced : List Char → Prop
  | nil : Balanced []
  | other {c : Char} {cs : List Char} : c ≠ '[' → c ≠ ']' → Balanced cs → Balanced (c :: cs)
  | loop {cs ds : List Char} : Balanced cs → Balanced ds → Balanced ('[' :: (cs ++ ']' :: ds))

theorem Op.ofChar?_eq_some_iff {c : Char} {o : Op} : ofChar? c = some o ↔ c = o.symbol := by
  constructor
  · intro h
    unfold ofChar? at h
    split at h <;> cases h <;> rfl
  · rintro rfl
    exact ofChar?_symbol o

theorem Op.ofChar?_eq_loopOpen {c : Char} : ofChar? c = some loopOpen ↔ c = '[' := ofChar?_eq_some_iff

theorem Op.ofChar?_eq_loopClose {c : Char} : ofChar? c = some loopClose ↔ c = ']' := ofChar?_eq_some_iff

/-! ## Positions -/

namespace Program

/-- The text from a position on. -/
def rest (p : Program) (i : Nat) : List Char := p.chars.toList.drop i

/-- The operators from a position on. -/
def opsFrom (p : Program) (i : Nat) : List (Nat × Op) :=
  ((p.rest i).zipIdx i).filterMap fun (c, i) => (Op.ofChar? c).map (i, ·)

variable {p : Program} {i : Nat}

theorem opsFrom_zero : p.opsFrom 0 = p.ops := rfl

theorem rest_of_lt (h : i < p.size) : ∃ c, p.chars[i]? = some c ∧ p.rest i = c :: p.rest (i + 1) := by
  have h' : i < p.chars.toList.length := by simpa [size] using h
  exact ⟨p.chars[i], Array.getElem?_eq_getElem h, by rw [rest, List.drop_eq_getElem_cons h']; rfl⟩

theorem rest_of_le (h : p.size ≤ i) : p.rest i = [] := List.drop_eq_nil_of_le (by simpa [size] using h)

theorem lt_size_of_op? {o : Op} (h : p.op? i = some o) : i < p.size := by
  rcases Nat.lt_or_ge i p.size with hlt | hge
  · exact hlt
  · rw [op?, Array.getElem?_eq_none hge] at h
    cases h

theorem rest_of_op? {o : Op} (h : p.op? i = some o) : ∃ c, Op.ofChar? c = some o ∧ p.rest i = c :: p.rest (i + 1) := by
  obtain ⟨c, hc, hr⟩ := rest_of_lt (lt_size_of_op? h)
  rw [op?, hc] at h
  exact ⟨c, h, hr⟩

theorem opsFrom_of_op? {o : Op} (h : p.op? i = some o) : p.opsFrom i = (i, o) :: p.opsFrom (i + 1) := by
  obtain ⟨c, hc, hr⟩ := rest_of_op? h
  simp [opsFrom, hr, hc]

theorem opsFrom_of_comment (hi : i < p.size) (h : p.op? i = none) : p.opsFrom i = p.opsFrom (i + 1) := by
  obtain ⟨c, hc, hr⟩ := rest_of_lt hi
  rw [op?, hc] at h
  simp [opsFrom, hr, show Op.ofChar? c = none from h]

theorem opsFrom_of_le (h : p.size ≤ i) : p.opsFrom i = [] := by simp [opsFrom, rest_of_le h]

/-- What stands at a position: nothing, a comment, a command, or one of the brackets. -/
theorem op?_cases (p : Program) (i : Nat) :
    p.size ≤ i ∨ (i < p.size ∧ p.op? i = none) ∨ (∃ c : Command, p.op? i = some c.op) ∨
      p.op? i = some .loopOpen ∨ p.op? i = some .loopClose := by
  rcases Nat.lt_or_ge i p.size with hlt | hge
  · cases h : p.op? i with
    | none => exact .inr (.inl ⟨hlt, rfl⟩)
    | some o =>
      cases hc : Command.ofOp? o with
      | some c => exact .inr (.inr (.inl ⟨c, by rw [Command.ofOp?_eq_some hc]⟩))
      | none =>
        cases o with
        | loopOpen => exact .inr (.inr (.inr (.inl rfl)))
        | loopClose => exact .inr (.inr (.inr (.inr rfl)))
        | _ => cases hc
  · exact .inl hge

/-- The text from a position up to another is a text of a block. -/
inductive Spans (p : Program) : Nat → Block → Nat → Prop
  | done (i : Nat) : Spans p i .done i
  | comment {i j : Nat} {b : Block} : i < p.size → p.op? i = none → Spans p (i + 1) b j → Spans p i b j
  | run {i j : Nat} {c : Command} {b : Block} : p.op? i = some c.op → Spans p (i + 1) b j → Spans p i (.run c b) j
  | loop {i q j : Nat} {body b : Block} : p.op? i = some .loopOpen → Spans p (i + 1) body q →
      p.op? q = some .loopClose → Spans p (q + 1) b j → Spans p i (.loop body b) j

theorem Spans.le {b : Block} {j : Nat} (h : Spans p i b j) : i ≤ j := by
  induction h with
  | done => exact Nat.le_refl _
  | comment _ _ _ ih => omega
  | run _ _ ih => omega
  | loop _ _ _ _ ih1 ih2 => omega

/-- Only comments stand between two positions. -/
inductive Skips (p : Program) : Nat → Nat → Prop
  | refl (i : Nat) : Skips p i i
  | comment {i j : Nat} : i < p.size → p.op? i = none → Skips p (i + 1) j → Skips p i j

theorem Spans.skips_of_done {j : Nat} (h : Spans p i .done j) : Skips p i j := by
  generalize hb : Block.done = b at h
  induction h with
  | done i => exact .refl i
  | comment h1 h2 _ ih => exact .comment h1 h2 (ih hb)
  | run => cases hb
  | loop => cases hb

theorem Spans.skips_of_run {j : Nat} {c : Command} {b : Block} (h : Spans p i (.run c b) j) :
    ∃ x, Skips p i x ∧ p.op? x = some c.op ∧ Spans p (x + 1) b j := by
  generalize hb : Block.run c b = b' at h
  induction h with
  | done => cases hb
  | comment h1 h2 _ ih =>
    obtain ⟨x, hx, hop, hrest⟩ := ih hb
    exact ⟨x, .comment h1 h2 hx, hop, hrest⟩
  | @run i j c' b' h1 h2 =>
    cases hb
    exact ⟨i, .refl i, h1, h2⟩
  | loop => cases hb

theorem Spans.skips_of_loop {j : Nat} {body b : Block} (h : Spans p i (.loop body b) j) :
    ∃ x q, Skips p i x ∧ p.op? x = some .loopOpen ∧ Spans p (x + 1) body q ∧ p.op? q = some .loopClose ∧
      Spans p (q + 1) b j := by
  generalize hb : Block.loop body b = b' at h
  induction h with
  | done => cases hb
  | comment h1 h2 _ ih =>
    obtain ⟨x, q, hx, hrest⟩ := ih hb
    exact ⟨x, q, .comment h1 h2 hx, hrest⟩
  | run => cases hb
  | @loop i q j body' b' h1 h2 h3 h4 =>
    cases hb
    exact ⟨i, q, .refl i, h1, h2, h3, h4⟩

end Program

/-! ## The grammar gives positions -/

section Grammar

open Program

variable {p : Program}

theorem op?_of_append {pre post : List Char} {c : Char} (h : p.chars.toList = pre ++ c :: post) :
    p.op? pre.length = Op.ofChar? c ∧ pre.length < p.size := by
  have hlen := congrArg List.length h
  rw [List.length_append, Array.length_toList] at hlen
  refine ⟨?_, by rw [Program.size, hlen]; simp⟩
  rw [op?, ← Array.getElem?_toList, h, List.getElem?_append_right (Nat.le_refl _)]
  simp

/-- A balanced part of a text is a text of a block. -/
theorem spans_of_balanced {cs : List Char} (h : Balanced cs) (pre post : List Char)
    (hp : p.chars.toList = pre ++ (cs ++ post)) : ∃ b, p.Spans pre.length b (pre.length + cs.length) := by
  induction h generalizing pre post with
  | nil => exact ⟨.done, .done _⟩
  | @other c cs h1 h2 _ ih =>
    obtain ⟨hop, hlt⟩ := op?_of_append hp
    obtain ⟨b, hb⟩ := ih (pre ++ [c]) post (by rw [hp]; simp)
    rw [List.length_append, List.length_singleton, Nat.add_assoc, Nat.add_comm 1] at hb
    rcases op?_cases p pre.length with hge | ⟨-, hnone⟩ | ⟨d, hd⟩ | hd | hd
    · omega
    · exact ⟨b, .comment hlt hnone hb⟩
    · exact ⟨.run d b, .run hd hb⟩
    · rw [hop] at hd; exact absurd (Op.ofChar?_eq_loopOpen.mp hd) h1
    · rw [hop] at hd; exact absurd (Op.ofChar?_eq_loopClose.mp hd) h2
  | @loop cs ds _ _ ih1 ih2 =>
    obtain ⟨hop, -⟩ := op?_of_append hp
    obtain ⟨body, hbody⟩ := ih1 (pre ++ ['[']) (']' :: (ds ++ post)) (by rw [hp]; simp)
    have hsplit : p.chars.toList = (pre ++ '[' :: cs) ++ ']' :: (ds ++ post) := by rw [hp]; simp
    obtain ⟨hcl, -⟩ := op?_of_append hsplit
    obtain ⟨b, hb⟩ := ih2 (pre ++ '[' :: cs ++ [']']) post (by rw [hp]; simp)
    have h1 : (pre ++ ['[']).length = pre.length + 1 := by simp
    have h2 : (pre ++ '[' :: cs).length = pre.length + 1 + cs.length := by simp; omega
    have h3 : (pre ++ '[' :: cs ++ [']']).length = pre.length + 1 + cs.length + 1 := by simp; omega
    have h4 : pre.length + 1 + cs.length + 1 + ds.length = pre.length + ('[' :: (cs ++ ']' :: ds)).length := by
      simp; omega
    rw [h1] at hbody
    rw [h2] at hcl
    rw [h3, h4] at hb
    exact ⟨.loop body b, .loop hop hbody hcl hb⟩

theorem balanced_cons {i : Nat} {c : Char} {cs : List Char} (hc : p.rest i = c :: p.rest (i + 1))
    (ho : Op.ofChar? c ≠ some .loopOpen) (hcl : Op.ofChar? c ≠ some .loopClose) (hcs : Balanced cs) {j : Nat}
    (hrest : p.rest (i + 1) = cs ++ p.rest j) : ∃ ds, Balanced ds ∧ p.rest i = ds ++ p.rest j := by
  have h1 : c ≠ '[' := fun h => ho (Op.ofChar?_eq_loopOpen.mpr h)
  have h2 : c ≠ ']' := fun h => hcl (Op.ofChar?_eq_loopClose.mpr h)
  exact ⟨c :: cs, .other h1 h2 hcs, by rw [hc, hrest, List.cons_append]⟩

/-- A text of a block is balanced. -/
theorem balanced_of_spans {i j : Nat} {b : Block} (h : p.Spans i b j) :
    ∃ cs, Balanced cs ∧ p.rest i = cs ++ p.rest j := by
  induction h with
  | done i => exact ⟨[], .nil, rfl⟩
  | @comment i j b hlt hnone _ ih =>
    obtain ⟨cs, hcs, hrest⟩ := ih
    obtain ⟨c, hc, hcons⟩ := rest_of_lt hlt
    rw [op?, hc, Option.bind_some] at hnone
    exact balanced_cons hcons (by simp [hnone]) (by simp [hnone]) hcs hrest
  | @run i j d b hop _ ih =>
    obtain ⟨cs, hcs, hrest⟩ := ih
    obtain ⟨c, hc, hcons⟩ := rest_of_op? hop
    refine balanced_cons hcons ?_ ?_ hcs hrest
    · rw [hc]; cases d <;> simp [Command.op]
    · rw [hc]; cases d <;> simp [Command.op]
  | @loop i q j body b hop _ hcl _ ih1 ih2 =>
    obtain ⟨cs, hcs, hbody⟩ := ih1
    obtain ⟨ds, hds, hrest⟩ := ih2
    obtain ⟨c, hc, hcons⟩ := rest_of_op? hop
    obtain ⟨d, hd, hcons'⟩ := rest_of_op? hcl
    rw [Op.ofChar?_eq_loopOpen] at hc
    rw [Op.ofChar?_eq_loopClose] at hd
    subst hc hd
    refine ⟨_, .loop hcs hds, ?_⟩
    rw [hcons, hbody, hcons', hrest]
    simp

end Grammar

/-! ## Trees, positions and the check -/

section Parse

open Program Block

variable {p : Program}

theorem parseFrom_rest {i : Nat} {o : Op} (h : p.op? i = some o) :
    parseFrom (p.rest i) = (parseFrom (p.rest (i + 1))).bind (extend (some o)) := by
  obtain ⟨c, hc, hr⟩ := rest_of_op? h
  rw [hr, parseFrom, hc]

theorem parseFrom_comment {i : Nat} (hi : i < p.size) (h : p.op? i = none) :
    parseFrom (p.rest i) = parseFrom (p.rest (i + 1)) := by
  obtain ⟨c, hc, hr⟩ := rest_of_lt hi
  rw [op?, hc] at h
  rw [hr, parseFrom, show Op.ofChar? c = none from h]
  cases parseFrom (p.rest (i + 1)) <;> rfl

theorem parseFrom_end {i : Nat} (h : p.size ≤ i) : parseFrom (p.rest i) = some [done] := by
  rw [rest_of_le h, parseFrom]

/-- A text of a block, in front of any text that has blocks. -/
theorem parseFrom_of_spans {i j : Nat} {b : Block} (h : p.Spans i b j) {c : Block} {bs : List Block}
    (hj : parseFrom (p.rest j) = some (c :: bs)) : parseFrom (p.rest i) = some (b.append c :: bs) := by
  induction h generalizing c bs with
  | done => exact hj
  | comment h1 h2 _ ih => rw [parseFrom_comment h1 h2, ih hj]
  | run h1 _ ih => rw [parseFrom_rest h1, ih hj, Option.bind_some, extend_command]; rfl
  | loop h1 _ h3 _ ih1 ih2 =>
    have hq := parseFrom_rest h3
    rw [ih2 hj, Option.bind_some, extend] at hq
    rw [parseFrom_rest h1, ih1 hq, Option.bind_some, extend, append_done]
    rfl

/-- The blocks of the text from a position on: the first one ends with the text or before a closing bracket, and the
others are those of the text behind that bracket. -/
theorem spans_of_parseFrom {n i : Nat} (hn : p.size - i ≤ n) (hi : i ≤ p.size) {b : Block} {bs : List Block}
    (h : parseFrom (p.rest i) = some (b :: bs)) :
    ∃ j, p.Spans i b j ∧ ((bs = [] ∧ j = p.size) ∨
      (p.op? j = some .loopClose ∧ parseFrom (p.rest (j + 1)) = some bs)) := by
  induction n generalizing i b bs with
  | zero =>
    rw [parseFrom_end (by omega)] at h
    cases h
    exact ⟨i, .done i, .inl ⟨rfl, by omega⟩⟩
  | succ n ih =>
    rcases op?_cases p i with hge | ⟨hlt, hnone⟩ | ⟨c, hc⟩ | hop | hcl
    · rw [parseFrom_end hge] at h
      cases h
      exact ⟨i, .done i, .inl ⟨rfl, by omega⟩⟩
    · rw [parseFrom_comment hlt hnone] at h
      obtain ⟨j, hj, hrest⟩ := ih (by omega) (by omega) h
      exact ⟨j, .comment hlt hnone hj, hrest⟩
    · have hlt := lt_size_of_op? hc
      rw [parseFrom_rest hc, Option.bind_eq_some_iff] at h
      obtain ⟨bs', hbs', hext⟩ := h
      cases bs' with
      | nil => cases c <;> cases hext
      | cons b' bs' =>
        rw [extend_command] at hext
        cases hext
        obtain ⟨j, hj, hrest⟩ := ih (by omega) (by omega) hbs'
        exact ⟨j, .run hc hj, hrest⟩
    · have hlt := lt_size_of_op? hop
      rw [parseFrom_rest hop, Option.bind_eq_some_iff] at h
      obtain ⟨bs', hbs', hext⟩ := h
      match bs', hext with
      | body :: rest :: bs', hext =>
        cases hext
        -- the body ends before the bracket that closes it, since a block follows
        obtain ⟨q, hq, ⟨hnil, -⟩ | ⟨hcl, hbs⟩⟩ := ih (by omega) (by omega) hbs'
        · cases hnil
        · have hlt' := lt_size_of_op? hcl
          have hle := hq.le
          obtain ⟨j, hj, hrest⟩ := ih (by omega) (by omega) hbs
          exact ⟨j, .loop hop hq hcl hj, hrest⟩
    · have hlt := lt_size_of_op? hcl
      rw [parseFrom_rest hcl, Option.bind_eq_some_iff] at h
      obtain ⟨bs', hbs', hext⟩ := h
      cases hext
      exact ⟨i, .done i, .inr ⟨hcl, hbs'⟩⟩

/-- The tree of a program is the block that its whole text is a text of. -/
theorem parse_eq_some_iff {b : Block} : parse p.chars.toList = some b ↔ p.Spans 0 b p.size := by
  rw [parse_eq_some]
  constructor
  · intro h
    obtain ⟨j, hj, ⟨-, rfl⟩ | ⟨hcl, hbs⟩⟩ := spans_of_parseFrom (Nat.le_refl _) (Nat.zero_le _) (p := p) h
    · exact hj
    · exact absurd hbs (parseFrom_ne_nil _)
  · intro h
    have := parseFrom_of_spans h (parseFrom_end (Nat.le_refl _))
    rwa [append_done] at this

/-- The text from a position on has `n` blocks: it closes all the loops it opens, and `n - 1` others. -/
def HasBlocks (p : Program) (i n : Nat) : Prop := ∃ bs, parseFrom (p.rest i) = some bs ∧ bs.length = n

theorem hasBlocks_end {i n : Nat} (h : p.size ≤ i) : HasBlocks p i n ↔ n = 1 := by
  simp [HasBlocks, parseFrom_end h, eq_comm]

theorem hasBlocks_comment {i n : Nat} (hi : i < p.size) (h : p.op? i = none) :
    HasBlocks p i n ↔ HasBlocks p (i + 1) n := by
  rw [HasBlocks, parseFrom_comment hi h, HasBlocks]

theorem not_hasBlocks_zero (i : Nat) : ¬ HasBlocks p i 0 := by
  rintro ⟨bs, hbs, hlen⟩
  rw [List.length_eq_zero_iff.mp hlen] at hbs
  exact parseFrom_ne_nil _ hbs

/-- A character in front maps the blocks behind it. -/
theorem hasBlocks_op {i n : Nat} {o : Op} (h : p.op? i = some o) :
    HasBlocks p i n ↔
      ∃ bs, parseFrom (p.rest (i + 1)) = some bs ∧ ∃ bs', extend (some o) bs = some bs' ∧ bs'.length = n := by
  rw [HasBlocks, parseFrom_rest h]
  constructor
  · rintro ⟨bs', h1, hlen⟩
    obtain ⟨bs, hbs, hext⟩ := Option.bind_eq_some_iff.mp h1
    exact ⟨bs, hbs, bs', hext, hlen⟩
  · rintro ⟨bs, hbs, bs', hext, hlen⟩
    exact ⟨bs', by rw [hbs, Option.bind_some, hext], hlen⟩

theorem hasBlocks_command {i n : Nat} {c : Command} (h : p.op? i = some c.op) :
    HasBlocks p i n ↔ HasBlocks p (i + 1) n := by
  rw [hasBlocks_op h]
  refine exists_congr fun bs => and_congr_right fun hbs => ?_
  cases bs with
  | nil => exact absurd hbs (parseFrom_ne_nil _)
  | cons b bs => simp [extend_command]

theorem hasBlocks_open {i n : Nat} (h : p.op? i = some .loopOpen) :
    HasBlocks p i (n + 1) ↔ HasBlocks p (i + 1) (n + 2) := by
  rw [hasBlocks_op h]
  refine exists_congr fun bs => and_congr_right fun _ => ?_
  match bs with
  | [] => simp [extend]
  | [b] => simp [extend, Command.ofOp?]
  | body :: b :: bs => simp [extend]

theorem hasBlocks_close {i n : Nat} (h : p.op? i = some .loopClose) :
    HasBlocks p i (n + 1) ↔ HasBlocks p (i + 1) n := by
  rw [hasBlocks_op h]
  refine exists_congr fun bs => and_congr_right fun _ => ?_
  simp [extend]

theorem checkFrom_command (c : Command) (stack : List Nat) (i : Nat) (ops : List (Nat × Op)) :
    checkFrom stack ((i, c.op) :: ops) = checkFrom stack ops := by
  cases c <;> cases stack <;> rfl

theorem checkFrom_end (stack : List Nat) : checkFrom stack [] = .ok () ↔ stack = [] := by
  rw [checkFrom.eq_def]
  cases stack with
  | nil => simp
  | cons j stack => simp [List.getLast?_cons]

/-- With some loops open the check passes if and only if the text to come closes just these. -/
theorem checkFrom_eq_ok_iff {n i : Nat} (hn : p.size - i ≤ n) (stack : List Nat) :
    checkFrom stack (p.opsFrom i) = .ok () ↔ HasBlocks p i (stack.length + 1) := by
  induction n generalizing i stack with
  | zero =>
    have hge : p.size ≤ i := by omega
    rw [opsFrom_of_le hge, hasBlocks_end hge, checkFrom_end, ← List.length_eq_zero_iff]
    omega
  | succ n ih =>
    rcases op?_cases p i with hge | ⟨hlt, hnone⟩ | ⟨c, hc⟩ | hop | hcl
    · rw [opsFrom_of_le hge, hasBlocks_end hge, checkFrom_end, ← List.length_eq_zero_iff]
      omega
    · rw [opsFrom_of_comment hlt hnone, hasBlocks_comment hlt hnone]
      exact ih (by omega) stack
    · have hlt := lt_size_of_op? hc
      rw [opsFrom_of_op? hc, hasBlocks_command hc, checkFrom_command]
      exact ih (by omega) stack
    · have hlt := lt_size_of_op? hop
      rw [opsFrom_of_op? hop, hasBlocks_open hop, checkFrom]
      exact ih (by omega) (i :: stack)
    · have hlt := lt_size_of_op? hcl
      rw [opsFrom_of_op? hcl, hasBlocks_close hcl]
      cases stack with
      | nil =>
        rw [checkFrom]
        constructor
        · intro h; cases h
        · intro h; exact absurd h (not_hasBlocks_zero _)
      | cons j stack =>
        rw [checkFrom]
        exact ih (by omega) stack

/-- A program passes the check if and only if its whole text is a text of a block. -/
theorem check_eq_ok_iff : p.check = .ok () ↔ ∃ b, p.Spans 0 b p.size := by
  rw [check, ← opsFrom_zero, checkFrom_eq_ok_iff (Nat.le_refl _)]
  constructor
  · rintro ⟨bs, hbs, hlen⟩
    obtain ⟨b, rfl⟩ := List.length_eq_one_iff.mp hlen
    exact ⟨b, parse_eq_some_iff.mp (parse_eq_some.mpr hbs)⟩
  · rintro ⟨b, hb⟩
    exact ⟨[b], parse_eq_some.mp (parse_eq_some_iff.mpr hb), rfl⟩

/-- A program passes the check if and only if the grammar accepts its text. -/
theorem check_eq_ok_iff_balanced : p.check = .ok () ↔ Balanced p.chars.toList := by
  rw [check_eq_ok_iff]
  constructor
  · rintro ⟨b, hb⟩
    obtain ⟨cs, hcs, heq⟩ := balanced_of_spans hb
    rw [rest_of_le (Nat.le_refl _), List.append_nil, rest, List.drop_zero] at heq
    rw [heq]
    exact hcs
  · intro h
    obtain ⟨b, hb⟩ := spans_of_balanced (p := p) h [] [] (by simp)
    exact ⟨b, by simpa [size] using hb⟩

/-- A text that the grammar accepts has a tree and passes the check. -/
theorem spans_ofString {source : String} (h : Balanced source.toList) :
    ∃ b, (ofString source).Spans 0 b (ofString source).size := by
  obtain ⟨b, hb⟩ := spans_of_balanced (p := ofString source) h [] [] (by simp [ofString])
  rw [List.length_nil, Nat.zero_add] at hb
  exact ⟨b, hb⟩

end Parse
end TapeLang
