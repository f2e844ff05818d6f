import TapeLang.Proofs.Record

/-!
# TapeLang.Proofs.Ensures — what runs keep

A small logic for machines on consoles.  A console may answer anything, so what a step can come to is told by its action
alone, and what was asked so far is kept in a log.

* `Action.Ensures P Q a log`: when `a` is carried out behind `log`, whatever the answers are, then `P` holds of the state
  and the log if the machine goes on, and `Q` of the result, the state and the log if the run is over.
* `Keeps step P Q`: every step from a state with `P` ensures `P` and `Q`.
* **`Keeps.steps`, `Keeps.ends`**: then `P` holds all along a run, and `Q` at its end.

Runs on plain consoles are covered too, since each of them can be recorded (`Steps.recorded`, `Ends.recorded`).
-/

namespace TapeLang

open Recorded (eraseFinish)

variable {σ κ : Type} {P : σ → List Entry → Prop} {Q : Except Error Outcome → σ → List Entry → Prop}

/-! ## One turn -/

section OneTurn

/-- Whatever a console answers: `P` where the machine goes on, and `Q` where the run is over. -/
def Action.Ensures (P : σ → List Entry → Prop) (Q : Except Error Outcome → σ → List Entry → Prop) :
    Action σ → List Entry → Prop
  | move next, log => P next log
  | write b here next, log =>
    P next (log ++ [.write b (.ok ())]) ∧ ∀ w, Q (.error (.io w)) here (log ++ [.write b (.error w)])
  | flush here rest, log =>
    rest.Ensures P Q (log ++ [.flush (.ok ())]) ∧ ∀ w, Q (.error (.io w)) here (log ++ [.flush (.error w)])
  | read here next, log =>
    (∀ e, (next e).Ensures P Q (log ++ [.read (.ok e)])) ∧ ∀ w, Q (.error (.io w)) here (log ++ [.read (.error w)])
  | stop here result, log => Q result here log

/-- What a turn on a recorded console has come to. -/
def Turn.Meets (P : σ → List Entry → Prop) (Q : Except Error Outcome → σ → List Entry → Prop) :
    Turn σ (Recorded κ) → Prop
  | .going s r => P s r.log
  | .over result s r => Q result s r.log

theorem Action.Ensures.perform [Console κ] {a : Action σ} {r : Recorded κ} (h : a.Ensures P Q r.log) :
    (a.perform r).Meets P Q := by
  induction a generalizing r with
  | move s => exact h
  | stop s result => exact h
  | write b s s' =>
    obtain ⟨htaken, hrefused⟩ := h
    simp only [Action.perform, Console.write]
    rcases Console.write b r.console with ⟨w | _, k⟩
    · exact hrefused w
    · exact htaken
  | flush s a ih =>
    obtain ⟨hrest, hrefused⟩ := h
    simp only [Action.perform, Console.flush]
    rcases Console.flush r.console with ⟨w | _, k⟩
    · exact hrefused w
    · exact ih hrest
  | read s next ih =>
    obtain ⟨hnext, hrefused⟩ := h
    simp only [Action.perform, Console.read]
    rcases Console.read r.console with ⟨w | e, k⟩
    · exact hrefused w
    · exact ih e (hnext e)

end OneTurn

/-! ## Whole runs -/

section Runs

/-- Every step from a state with `P` ensures `P` and `Q`. -/
def Keeps (step : σ → Action σ) (P : σ → List Entry → Prop) (Q : Except Error Outcome → σ → List Entry → Prop) : Prop :=
  ∀ s log, P s log → (step s).Ensures P Q log

variable [Console κ] {step : σ → Action σ} {s t : σ} {n : Nat}

theorem Keeps.steps (hkeeps : Keeps step P Q) {r r' : Recorded κ} (h : Steps step n s r t r') (hs : P s r.log) :
    P t r'.log := by
  induction h with
  | refl s r => exact hs
  | @turn n s t u r r₁ r₂ hturn _ ih =>
    have hmeets := (hkeeps s r.log hs).perform
    rw [hturn] at hmeets
    exact ih hmeets

theorem Keeps.ends (hkeeps : Keeps step P Q) {r : Recorded κ} {f : Finish σ (Recorded κ)} (h : Ends step s r f)
    (hs : P s r.log) : Q f.result f.state f.console.log := by
  obtain ⟨fuel, h⟩ := h
  induction fuel generalizing s r with
  | zero => exact absurd h (by simp [drive_zero])
  | succ fuel ih =>
    have hmeets := (hkeeps s r.log hs).perform
    rcases hturn : (step s).perform r with ⟨t, r₁⟩ | ⟨result, t, r₁⟩
    · rw [hturn] at hmeets
      rw [drive_of_going hturn] at h
      exact ih hmeets h
    · rw [hturn] at hmeets
      rw [drive_of_over hturn] at h
      cases h
      exact hmeets

theorem Steps.recorded {r : Recorded κ} {k : κ} (h : Steps step n s r.console t k) :
    ∃ r', Steps step n s r t r' ∧ r'.console = k := by
  generalize hk : r.console = k₀ at h
  induction h generalizing r with
  | refl s k => exact ⟨r, .refl s r, hk⟩
  | @turn n s t u k₀ k₁ k₂ hturn _ ih =>
    subst hk
    rw [Recorded.perform_record] at hturn
    rcases hr : (step s).perform r with ⟨t', r₁⟩ | ⟨result, t', r₁⟩
    · rw [hr] at hturn
      cases hturn
      obtain ⟨r', hsteps, hr'⟩ := ih rfl
      exact ⟨r', .turn hr hsteps, hr'⟩
    · rw [hr] at hturn
      cases hturn

theorem Ends.recorded {r : Recorded κ} {f : Finish σ κ} (h : Ends step s r.console f) :
    ∃ f', Ends step s r f' ∧ eraseFinish f' = f := by
  obtain ⟨fuel, h⟩ := h
  rw [Recorded.drive_record] at h
  obtain ⟨f', hf', heq⟩ := Option.map_eq_some_iff.mp h
  exact ⟨f', ⟨fuel, hf'⟩, heq⟩

end Runs
end TapeLang
