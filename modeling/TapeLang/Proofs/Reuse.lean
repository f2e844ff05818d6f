import TapeLang.Proofs.Nesting

/-!
# TapeLang.Proofs.Reuse — an assembler that is used again

Compiling looks at nothing that an assembler holds but the size of its tape.  It gives up the old code and the old labels as
soon as the brackets are known to match.  From then on it could still fail, where a bracket has no marker or a label no place,
and would leave a part of the new code behind.  This never happens: the labels are one for each bracket and one for the end,
and all are marked when they are linked.

* `Assembler.Call`, `Assembler.performAll`: what can be done with an assembler, one thing after another.
* `Program.labels`: the labels that a program leaves, each with its place.
* `Assembler.compile_of_check`: a program whose brackets match is compiled, and leaves its labels and nothing else.
* **`Assembler.compiles_as_new`**: an assembler compiles as a new one does, whatever was done with it before, and one that
  fails has not changed.
-/

namespace TapeLang

/-! ## Labels in source order -/

/-- The labels of a program: one for each bracket in source order, then the one for the end, all at their places. -/
def Program.labels (p : Program) : Labels :=
  ⟨(p.brackets.map (fun x => some (p.place x.1)) ++ [some p.exit]).toArray⟩

namespace Assembler

section Labels

open Program

variable {p : Program} {m : Matching}

/-- The bracket that comes after `k` others has `k` for its label. -/
theorem rank_of_pairs {xs : List (Option Nat)} {n k i q : Nat}
    (h : ((xs.zipIdx n).filterMap fun x => x.1.map (x.2, ·))[k]? = some (i, q)) :
    ∃ j, i = n + j ∧ xs[j]? = some (some q) ∧ rank xs j = k := by
  induction xs generalizing n k with
  | nil => simp at h
  | cons x xs ih =>
    have hshift {k : Nat} (h : ((xs.zipIdx (n + 1)).filterMap fun x => x.1.map (x.2, ·))[k]? = some (i, q)) :
        ∃ j, i = n + (j + 1) ∧ xs[j]? = some (some q) ∧ rank xs j = k := by
      obtain ⟨j, hj, hx, hr⟩ := ih h
      exact ⟨j, by omega, hx, hr⟩
    have hrank (j : Nat) : rank (x :: xs) (j + 1) = rank xs j + if x.isSome then 1 else 0 := by
      rw [rank, List.take_succ_cons, List.countP_cons, rank]
    cases x with
    | none =>
      obtain ⟨j, hj, hx, hr⟩ := hshift (k := k) (by simpa using h)
      exact ⟨j + 1, hj, hx, by rw [hrank, hr]; rfl⟩
    | some q' =>
      cases k with
      | zero =>
        simp only [List.zipIdx_cons, List.filterMap_cons, Option.map_some, List.getElem?_cons_zero, Option.some.injEq,
          Prod.mk.injEq] at h
        obtain ⟨rfl, rfl⟩ := h
        exact ⟨0, rfl, rfl, rfl⟩
      | succ k =>
        obtain ⟨j, hj, hx, hr⟩ := hshift (k := k) (by simpa using h)
        exact ⟨j + 1, hj, hx, by rw [hrank, hr]; rfl⟩

/-- The table lists the brackets in source order. -/
theorem map_fst_pairs (h : Matching.ofProgram p = .ok m) : m.pairs.map Prod.fst = p.brackets.map Prod.fst := by
  have hscan {xs : List (Nat × Side)} {ys : List (Nat × Nat)} (hs : xs.mapM p.scanAt = .ok ys) :
      ys.map Prod.fst = xs.map Prod.fst := by
    induction xs generalizing ys with
    | nil =>
      cases hs
      rfl
    | cons x xs ih =>
      rw [List.mapM_cons, scanAt] at hs
      cases hx : p.scan x.1 x.2 with
      | none =>
        rw [hx] at hs
        cases hs
      | some j =>
        rw [hx] at hs
        cases hrest : xs.mapM p.scanAt with
        | error u =>
          rw [hrest] at hs
          cases hs
        | ok zs =>
          rw [hrest] at hs
          cases hs
          rw [List.map_cons, List.map_cons, ih hrest]
  have hpairs := Matching.pairs_ofProgram p
  rw [h] at hpairs
  exact hscan hpairs.symm

/-- When all is written, the labels are those of the program. -/
theorem Assembled.labels_eq {cells : Nat} {b : Assembler} (hm : Matching.ofProgram p = .ok m)
    (h : Assembled p (rank m.partners.toList) m.count cells b) : b.labels = p.labels := by
  have hmarks : b.labels.marks.toList = m.pairs.map (fun x => some (p.place x.1)) ++ [some p.exit] := by
    apply List.ext_getElem?
    intro k
    rw [Array.getElem?_toList]
    rcases Nat.lt_trichotomy k m.count with hlt | rfl | hgt
    · have hk : k < m.pairs.length := hlt
      obtain ⟨⟨i, q⟩, hget⟩ : ∃ x, m.pairs[k]? = some x := ⟨_, List.getElem?_eq_getElem hk⟩
      obtain ⟨j, rfl, hj, hrank⟩ := rank_of_pairs hget
      rw [Nat.zero_add] at hget
      have hpartner : p.partner? j = some q := by
        rw [← Matching.get?_eq_partner? hm, Matching.get?, ← Array.getElem?_toList, hj]
        rfl
      rw [← hrank, h.marked hpartner, hrank, List.getElem?_append_left (by simpa using hk), List.getElem?_map, hget]
      rfl
    · rw [h.marked_exit, List.getElem?_append_right (by simp [Matching.count])]
      simp [Matching.count]
    · rw [Array.getElem?_eq_none (by rw [h.size]; omega), List.getElem?_eq_none]
      simp only [List.length_append, List.length_map, List.length_singleton]
      exact hgt
  have hfirst : m.pairs.map (fun x => some (p.place x.1)) = p.brackets.map fun x => some (p.place x.1) := by
    have hmap := congrArg (List.map fun i => some (p.place i)) (map_fst_pairs hm)
    rw [List.map_map, List.map_map] at hmap
    exact hmap
  rw [hfirst] at hmarks
  cases hb : b.labels with
  | mk marks =>
    rw [hb] at hmarks
    rw [Program.labels, ← hmarks]

/-- **Compiling a program whose brackets match** takes its code out and leaves its labels. -/
theorem compile_of_check (hcheck : p.check = .ok ()) (a : Assembler) :
    a.compile p = (.ok (p.code a.tapeSize), ⟨a.tapeSize, .empty, p.labels⟩) := by
  obtain ⟨m, b, hm, hb, hcompile⟩ := exists_assembled hcheck a
  rw [hcompile, ← hb.labels_eq hm, ← hb.tapeSize]

end Labels

/-! ## Assemblers at work -/

section Calls

/-- What can be done with an assembler. -/
inductive Call where
  /-- Writes an instruction. -/
  | emit (instr : Instr)
  /-- Writes a branch to a label, defined or not. -/
  | branch (opcode : Opcode) (label : Nat)
  /-- Places a label. -/
  | mark (label : Nat)
  /-- Compiles a program. -/
  | compile (p : Program)

/-- The assembler after one call; none if a label is to be placed that is not defined. -/
def perform (a : Assembler) : Call → Option Assembler
  | .emit i => some (a.emit i)
  | .branch opcode label => some (a.emit (.branch opcode label))
  | .mark label => a.mark? label
  | .compile p => some (a.compile p).2

/-- The assembler after some calls. -/
def performAll (a : Assembler) (calls : List Call) : Option Assembler := calls.foldlM perform a

variable {a b : Assembler} {p : Program}

theorem tapeSize_compile (a : Assembler) (p : Program) : (a.compile p).2.tapeSize = a.tapeSize := by
  cases hcheck : p.check with
  | ok _ => rw [compile_of_check hcheck]
  | error u => rw [compile_eq_error (Matching.ofProgram_eq_error_iff.mpr hcheck)]

/-- No call changes the size of the tape. -/
theorem tapeSize_perform {call : Call} (h : a.perform call = some b) : b.tapeSize = a.tapeSize := by
  cases call with
  | emit i =>
    cases h
    rfl
  | branch opcode label =>
    cases h
    rfl
  | mark label =>
    obtain ⟨ls, -, rfl⟩ := Option.map_eq_some_iff.mp h
    rfl
  | compile p =>
    cases h
    exact tapeSize_compile a p

theorem tapeSize_performAll {calls : List Call} (h : a.performAll calls = some b) : b.tapeSize = a.tapeSize := by
  induction calls generalizing a with
  | nil =>
    cases h
    rfl
  | cons call calls ih =>
    rw [performAll, List.foldlM_cons] at h
    obtain ⟨a', ha', hrest⟩ := Option.bind_eq_some_iff.mp h
    exact (ih hrest).trans (tapeSize_perform ha')

/-- **An assembler compiles as a new one, and fails without a trace.**  After any calls, whatever they wrote, placed or
compiled, and whether or not they failed, a program is compiled to what a new assembler for the same tape makes of it.
Programs whose brackets match are compiled: then nothing is pending, and the labels are those of the program.  For all others
the code that is pending and the labels are what they were. -/
theorem compiles_as_new (tapeSize : Nat) (calls : List Call) (a : Assembler)
    (h : (new tapeSize).performAll calls = some a) (p : Program) :
    (a.compile p).1 = ((new tapeSize).compile p).1 ∧
      ((∃ code, (a.compile p).1 = .ok code) ↔ Balanced p.chars.toList) ∧
      (∀ code, (a.compile p).1 = .ok code → (a.compile p).2.pending = .empty ∧ (a.compile p).2.labels = p.labels) ∧
      ∀ e, (a.compile p).1 = .error e → (a.compile p).2.pending = a.pending ∧ (a.compile p).2.labels = a.labels := by
  have hsize : a.tapeSize = tapeSize := tapeSize_performAll h
  rw [← check_eq_ok_iff_balanced]
  cases hcheck : p.check with
  | ok _ =>
    rw [compile_of_check hcheck a, compile_of_check hcheck (new tapeSize), hsize]
    refine ⟨rfl, ⟨fun _ => rfl, fun _ => ⟨_, rfl⟩⟩, fun _ _ => ⟨rfl, rfl⟩, fun e he => ?_⟩
    cases he
  | error u =>
    have hfails := Matching.ofProgram_eq_error_iff.mpr hcheck
    rw [compile_eq_error hfails a, compile_eq_error hfails (new tapeSize)]
    refine ⟨rfl, ⟨?_, ?_⟩, ?_, fun _ _ => ⟨rfl, rfl⟩⟩
    · rintro ⟨code, hcode⟩
      cases hcode
    · intro hok
      cases hok
    · intro code hcode
      cases hcode

/-- An assembler with code left over, a label that was moved and a failure behind it fails once more, and compiles. -/
theorem compiles_as_new_again :
    ∃ a, (new 4).performAll [.branch .jump 9, .compile ⟨#['[', ']']⟩, .mark 1, .emit (.plain .ret), .compile ⟨#[']']⟩] =
        some a ∧
      a.pending = ⟨#[.plain .ret]⟩ ∧ a.labels = ⟨#[some 1, some 0, some 6]⟩ ∧
      (a.compile ⟨#['-', '[']⟩).1 = .error (.malformed ⟨1, .opening⟩) ∧
      (a.compile ⟨#['-', '[']⟩).2.pending = a.pending ∧ (a.compile ⟨#['-', '[']⟩).2.labels = a.labels ∧
      (a.compile ⟨#['[', '-', ']']⟩).1 = ((new 4).compile ⟨#['[', '-', ']']⟩).1 ∧
      (a.compile ⟨#['[', '-', ']']⟩).2.pending = .empty ∧
      (a.compile ⟨#['[', '-', ']']⟩).2.labels = ⟨#[some 1, some 10, some 10]⟩ := by
  have hcalls : (new 4).performAll
      [.branch .jump 9, .compile ⟨#['[', ']']⟩, .mark 1, .emit (.plain .ret), .compile ⟨#[']']⟩] =
      some ⟨4, ⟨#[.plain .ret]⟩, ⟨#[some 1, some 0, some 6]⟩⟩ := rfl
  obtain ⟨-, -, -, hfails⟩ := compiles_as_new 4 _ _ hcalls ⟨#['-', '[']⟩
  obtain ⟨hsame, -, hdone, -⟩ := compiles_as_new 4 _ _ hcalls ⟨#['[', '-', ']']⟩
  exact ⟨_, hcalls, rfl, rfl, rfl, (hfails _ rfl).1, (hfails _ rfl).2, hsame, (hdone _ rfl).1, (hdone _ rfl).2⟩

end Calls
end Assembler
end TapeLang
