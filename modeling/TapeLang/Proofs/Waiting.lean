import TapeLang.Proofs.Scans
import TapeLang.Shell.Editor

/-!
# TapeLang.Proofs.Waiting — when more text can help

While a text is typed, only the depth of its loops is counted.  The engines read it with a stack of positions.  Both follow
from what is open behind the text.

* `Program.openAfter`: the loops that are open behind some operators, unless a closing bracket is too many.  The check goes
  on from there (`checkFrom_append`), so the text so far matters only by the loops that it leaves open.
* `Shell.balancedFrom_eq`: the counter sees whether something is open, and gives up at a closing bracket too many.
* **`Shell.waits_iff_completable`**: the editor waits just for the texts that are refused and can still be completed.
-/

namespace TapeLang
namespace Program

/-! ## Open loops -/

section Reading

/-- The loops that are open behind some operators, innermost first.  A closing bracket too many is an error. -/
def openAfter : List Nat → List (Nat × Op) → Except Unmatched (List Nat)
  | stack, [] => .ok stack
  | stack, (i, .loopOpen) :: rest => openAfter (i :: stack) rest
  | [], (i, .loopClose) :: _ => .error ⟨i, .closing⟩
  | _ :: stack, (_, .loopClose) :: rest => openAfter stack rest
  | stack, _ :: rest => openAfter stack rest

/-- The operators of a text that starts at a position. -/
def opsAt (i : Nat) (cs : List Char) : List (Nat × Op) :=
  (cs.zipIdx i).filterMap fun x => (Op.ofChar? x.1).map (x.2, ·)

/-- The check goes on with the loops that are open. -/
theorem checkFrom_append (stack : List Nat) (xs ys : List (Nat × Op)) :
    checkFrom stack (xs ++ ys) = openAfter stack xs >>= fun stack' => checkFrom stack' ys := by
  fun_induction openAfter stack xs with
  | case1 stack => rfl
  | case2 stack i rest ih => exact ih
  | case3 i rest => rfl
  | case4 j stack i rest ih => exact ih
  | case5 stack x rest hopen hnil hcons ih =>
    rw [List.cons_append, ← ih, checkFrom]
    · exact hopen
    · exact hnil
    · exact hcons

theorem side_of_openAfter {stack : List Nat} {xs : List (Nat × Op)} {u : Unmatched}
    (h : openAfter stack xs = .error u) : u.side = .closing := by
  fun_induction openAfter stack xs with
  | case1 stack => cases h
  | case2 stack i rest ih => exact ih h
  | case3 i rest =>
    cases h
    rfl
  | case4 j stack i rest ih => exact ih h
  | case5 stack x rest hopen hnil hcons ih => exact ih h

theorem openAfter_command (c : Command) (stack : List Nat) (i : Nat) (xs : List (Nat × Op)) :
    openAfter stack ((i, c.op) :: xs) = openAfter stack xs := by
  cases c <;> cases stack <;> rfl

/-- As many closing brackets as loops are open close them all. -/
theorem checkFrom_closers (stack : List Nat) (i : Nat) :
    checkFrom stack (opsAt i (List.replicate stack.length ']')) = .ok () := by
  induction stack generalizing i with
  | nil => rfl
  | cons j stack ih => exact ih (i + 1)

end Reading

section Texts

variable {s : String} {stack : List Nat} {j : Nat} {u : Unmatched}

/-- The loops that are open behind a text. -/
def openBehind (s : String) : Except Unmatched (List Nat) := openAfter [] (opsAt 0 s.toList)

theorem check_append (s t : String) :
    (ofString (s ++ t)).check = openBehind s >>= fun stack => checkFrom stack (opsAt s.toList.length t.toList) := by
  have hops : (ofString (s ++ t)).ops = opsAt 0 (s ++ t).toList := rfl
  have hsplit : opsAt 0 (s ++ t).toList = opsAt 0 s.toList ++ opsAt s.toList.length t.toList := by
    simp [opsAt, List.zipIdx_append]
  rw [check, hops, hsplit, checkFrom_append, openBehind]

theorem check_ofString (s : String) : (ofString s).check = openBehind s >>= fun stack => checkFrom stack [] := by
  have h := check_append s ""
  rwa [String.append_empty] at h

/-- A closing bracket too many is the fault, whatever follows. -/
theorem check_of_surplus (h : openBehind s = .error u) (t : String) : (ofString (s ++ t)).check = .error u := by
  rw [check_append, h]
  rfl

/-- Where loops are open, the outermost one is the fault, -/
theorem check_of_open (h : openBehind s = .ok (j :: stack)) : ∃ i, (ofString s).check = .error ⟨i, .opening⟩ := by
  have hlast : checkFrom (j :: stack) [] = .error ⟨(stack.getLast?).getD j, .opening⟩ := by
    rw [checkFrom, List.getLast?_cons]
  rw [check_ofString, h]
  exact ⟨_, hlast⟩

/-- and closing brackets repair it. -/
theorem exists_completion (h : openBehind s = .ok stack) : ∃ t : String, (ofString (s ++ t)).check = .ok () := by
  refine ⟨String.ofList (List.replicate stack.length ']'), ?_⟩
  rw [check_append, h, String.toList_ofList]
  exact checkFrom_closers stack _

/-- Where no loop is open, there is no fault. -/
theorem check_of_closed (h : openBehind s = .ok []) : (ofString s).check = .ok () := by
  rw [check_ofString, h]
  rfl

end Texts
end Program

/-! ## The counter -/

namespace Shell

open Program

/-- Whether nothing is open, or nothing can be repaired. -/
def isSettled : Except Unmatched (List Nat) → Bool
  | .ok stack => stack.isEmpty
  | .error _ => true

/-- The counter is the height of the stack. -/
theorem balancedFrom_eq (cs : List Char) (stack : List Nat) (i : Nat) :
    balancedFrom stack.length cs = isSettled (openAfter stack (opsAt i cs)) := by
  induction cs generalizing stack i with
  | nil => cases stack <;> rfl
  | cons c cs ih =>
    by_cases hopen : c = '['
    · subst hopen
      exact ih (i :: stack) (i + 1)
    by_cases hclose : c = ']'
    · subst hclose
      cases stack with
      | nil => rfl
      | cons j stack => exact ih stack (i + 1)
    -- any other character is passed over by both
    have hother : balancedFrom stack.length (c :: cs) = balancedFrom stack.length cs := by
      rw [balancedFrom]
      · intro h; exact hopen h
      · intro _ h; exact absurd h hclose
      · intro _ _ h; exact absurd h hclose
    rw [hother, ih stack (i + 1)]
    cases ho : Op.ofChar? c with
    | none => simp [opsAt, ho]
    | some o =>
      cases hc : Command.ofOp? o with
      | some d => simp [opsAt, ho, Command.ofOp?_eq_some hc, openAfter_command]
      | none =>
        cases o with
        | loopOpen => exact absurd (Op.ofChar?_eq_loopOpen.mp ho) hopen
        | loopClose => exact absurd (Op.ofChar?_eq_loopClose.mp ho) hclose
        | _ => cases hc

theorem isBalanced_eq (s : String) : isBalanced s.toList = isSettled (openBehind s) := balancedFrom_eq s.toList [] 0

/-- What can be said of a text: it passes the check, or it leaves loops open that can be closed, or a closing bracket too
many stands in it for good. -/
theorem text_cases (s : String) :
    (isBalanced s.toList = true ∧ (ofString s).check = .ok ()) ∨
    (isBalanced s.toList = false ∧ (∃ i, (ofString s).check = .error ⟨i, .opening⟩) ∧
      ∃ t : String, (ofString (s ++ t)).check = .ok ()) ∨
    (isBalanced s.toList = true ∧ (∃ i, (ofString s).check = .error ⟨i, .closing⟩) ∧
      ∀ t : String, (ofString (s ++ t)).check ≠ .ok ()) := by
  rw [isBalanced_eq]
  cases h : openBehind s with
  | ok stack =>
    cases stack with
    | nil => exact .inl ⟨rfl, check_of_closed h⟩
    | cons j stack => exact .inr (.inl ⟨rfl, check_of_open h, exists_completion h⟩)
  | error u =>
    have hcheck := check_of_surplus h ""
    rw [String.append_empty] at hcheck
    have hside : u = ⟨u.position, .closing⟩ := by rw [← side_of_openAfter h]
    refine .inr (.inr ⟨rfl, ⟨u.position, hside ▸ hcheck⟩, fun t ht => ?_⟩)
    rw [check_of_surplus h t] at ht
    cases ht

/-- **The editor waits exactly when more text can help.**  It waits for a text just when the check refuses the text and
accepts some continuation of it, and this is so just when the check names an opening bracket.  A text that it takes as it is
passes the check, or no continuation of it does.  The check is that of both engines: a table of partners is made just for
the texts that pass it, and is refused for the same bracket. -/
theorem waits_iff_completable (s : String) :
    (isBalanced s.toList = false ↔
      (∃ u, (ofString s).check = .error u) ∧ ∃ t : String, (ofString (s ++ t)).check = .ok ()) ∧
    (isBalanced s.toList = false ↔ ∃ i, (ofString s).check = .error ⟨i, .opening⟩) ∧
    (isBalanced s.toList = true ↔
      (ofString s).check = .ok () ∨ ∀ t : String, (ofString (s ++ t)).check ≠ .ok ()) ∧
    ∀ p : Program, (Matching.ofProgram p).map (fun _ => ()) = p.check := by
  rcases text_cases s with ⟨hb, hcheck⟩ | ⟨hb, ⟨i, hcheck⟩, hmore⟩ | ⟨hb, ⟨i, hcheck⟩, hnever⟩
  · simp [hb, hcheck, map_ofProgram]
  · simp [hb, hcheck, hmore, map_ofProgram]
  · simp [hb, hcheck, hnever, map_ofProgram]

/-- An open loop behind a closed one, and the same text behind a closing bracket too many. -/
theorem waits_iff_completable_stray :
    isBalanced (String.ofList ['[', '-', ']', '[', '#', '[']).toList = false ∧
      (∃ i, (ofString (String.ofList ['[', '-', ']', '[', '#', '['])).check = .error ⟨i, .opening⟩) ∧
      (∃ t : String, (ofString (String.ofList ['[', '-', ']', '[', '#', '['] ++ t)).check = .ok ()) ∧
      isBalanced (String.ofList [']', '[']).toList = true ∧
      ∀ t : String, (ofString (String.ofList [']', '['] ++ t)).check ≠ .ok () := by
  have hopen : isBalanced (String.ofList ['[', '-', ']', '[', '#', '[']).toList = false := rfl
  have hstray : isBalanced (String.ofList [']', '[']).toList = true := rfl
  obtain ⟨hmore, hnamed, -⟩ := waits_iff_completable (String.ofList ['[', '-', ']', '[', '#', '['])
  obtain ⟨-, -, hsettled, -⟩ := waits_iff_completable (String.ofList [']', '['])
  have hrefused : (ofString (String.ofList [']', '['])).check ≠ .ok () := by
    intro h
    cases h
  exact ⟨hopen, hnamed.mp hopen, (hmore.mp hopen).2, hstray, (hsettled.mp hstray).resolve_left hrefused⟩

end Shell
end TapeLang
