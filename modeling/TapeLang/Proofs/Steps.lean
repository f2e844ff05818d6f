import TapeLang.Cruise

/-!
# TapeLang.Proofs.Steps — runs step by step

A run of a machine on a console is a sequence of turns that go on, and one more that ends it.

* `Steps step n s k t k'`: `n` turns lead from state `s` on console `k` to state `t` on console `k'`.
* `Ends step s k f`: the run from `s` on `k` comes to an end, and `f` is that end.  A run has at most one end
  (`Ends.unique`), and it has the same end as any run it leads into (`Steps.ends_iff`).  Fuel counts turns
  (`steps_of_drive_eq_none`, `steps_of_drive_eq_some`).
* `Simulation`: every turn of one machine is a number of turns of another on the same console, and a measure goes down
  where that number is zero.  Then one run ends if and only if the other does, with related ends
  (`Simulation.ends`, `Simulation.ends_back`).
-/

namespace TapeLang

variable {σ τ κ : Type} [Console κ]

/-! ## Turns -/

section Turns

theorem Action.proceed_eq (a : Action σ) (k : κ) (next : σ → κ → Option (Finish σ κ)) :
    a.proceed k next = match a.perform k with
      | .going s k => next s k
      | .over r s k => some ⟨r, s, k⟩ := by
  cases a <;> rfl

variable {step : σ → Action σ} {s t u : σ} {k k₁ k₂ : κ}

theorem drive_of_going (h : (step s).perform k = .going t k₁) (fuel : Nat) :
    drive step (fuel + 1) s k = drive step fuel t k₁ := by
  rw [drive, Action.proceed_eq, h]

theorem drive_of_over {r : Except Error Outcome} (h : (step s).perform k = .over r t k₁) (fuel : Nat) :
    drive step (fuel + 1) s k = some ⟨r, t, k₁⟩ := by
  rw [drive, Action.proceed_eq, h]

theorem drive_congr (h : (step s).perform k = (step t).perform k) (fuel : Nat) :
    drive step fuel s k = drive step fuel t k := by
  cases fuel with
  | zero => rfl
  | succ fuel => rw [drive, drive, Action.proceed_eq, Action.proceed_eq, h]

theorem drive_zero : drive step 0 s k = none := rfl

end Turns

/-! ## Several turns -/

/-- A number of turns leads from a state on a console to a state on what has become of the console. -/
inductive Steps (step : σ → Action σ) : Nat → σ → κ → σ → κ → Prop
  | refl (s : σ) (k : κ) : Steps step 0 s k s k
  | turn {n : Nat} {s t u : σ} {k k₁ k₂ : κ} : (step s).perform k = .going t k₁ → Steps step n t k₁ u k₂ →
      Steps step (n + 1) s k u k₂

/-- The run from a state on a console comes to an end, and `f` is that end. -/
def Ends (step : σ → Action σ) (s : σ) (k : κ) (f : Finish σ κ) : Prop := ∃ fuel, drive step fuel s k = some f

namespace Steps

variable {step : σ → Action σ} {s t u : σ} {k k₁ k₂ : κ} {n m : Nat}

theorem single (h : (step s).perform k = .going t k₁) : Steps step 1 s k t k₁ := .turn h (.refl t k₁)

theorem trans (h : Steps step n s k t k₁) (h' : Steps step m t k₁ u k₂) : Steps step (n + m) s k u k₂ := by
  induction h with
  | refl => simpa using h'
  | turn h1 _ ih => rw [Nat.add_right_comm]; exact .turn h1 (ih h')

theorem of_moves (h : Moves step n s t) (k : κ) : Steps step n s k t k := by
  induction h with
  | refl s => exact .refl s k
  | move h1 _ ih => exact .turn (by rw [h1]; rfl) ih

theorem drive_eq (h : Steps step n s k t k₁) (fuel : Nat) : drive step (fuel + n) s k = drive step fuel t k₁ := by
  induction h with
  | refl => rfl
  | turn h1 _ ih => rw [← Nat.add_assoc, drive_of_going h1, ih]

/-- A run that takes `n` turns has not ended before. -/
theorem drive_eq_none (h : Steps step n s k t k₁) {fuel : Nat} (hle : fuel ≤ n) : drive step fuel s k = none := by
  induction h generalizing fuel with
  | refl => rw [Nat.le_zero.mp hle]; rfl
  | turn h1 _ ih =>
    cases fuel with
    | zero => rfl
    | succ fuel => rw [drive_of_going h1, ih (by omega)]

theorem drive_sub (h : Steps step n s k t k₁) {fuel : Nat} {f : Finish σ κ} (hf : drive step fuel s k = some f) :
    n < fuel ∧ drive step (fuel - n) t k₁ = some f := by
  have hlt : n < fuel := by
    rcases Nat.lt_or_ge n fuel with hlt | hle
    · exact hlt
    · rw [h.drive_eq_none hle] at hf
      exact absurd hf (by simp)
  refine ⟨hlt, ?_⟩
  rw [← h.drive_eq, show fuel - n + n = fuel by omega]
  exact hf

theorem ends_iff (h : Steps step n s k t k₁) {f : Finish σ κ} : Ends step s k f ↔ Ends step t k₁ f := by
  constructor
  · rintro ⟨fuel, hf⟩
    exact ⟨_, (h.drive_sub hf).2⟩
  · rintro ⟨fuel, hf⟩
    exact ⟨fuel + n, by rw [h.drive_eq, hf]⟩

end Steps

/-! ## Ends -/

section Ends

variable {step : σ → Action σ} {s t : σ} {k k₁ : κ} {f g : Finish σ κ}

theorem drive_add (fuel n : Nat) (h : drive step fuel s k = some f) : drive step (fuel + n) s k = some f := by
  induction fuel generalizing s k with
  | zero => exact absurd h (by simp [drive_zero])
  | succ fuel ih =>
    rw [Nat.add_right_comm]
    rcases hp : (step s).perform k with ⟨t, k₁⟩ | ⟨r, t, k₁⟩
    · rw [drive_of_going hp] at h ⊢
      exact ih h
    · rw [drive_of_over hp] at h ⊢
      exact h

theorem Ends.unique (hf : Ends step s k f) (hg : Ends step s k g) : f = g := by
  obtain ⟨n, hf⟩ := hf
  obtain ⟨m, hg⟩ := hg
  have h1 := drive_add n m hf
  have h2 := drive_add m n hg
  rw [Nat.add_comm, h2] at h1
  exact (Option.some.inj h1).symm

/-- A run that has not ended with its fuel has taken as many turns. -/
theorem steps_of_drive_eq_none {fuel : Nat} (h : drive step fuel s k = none) : ∃ t k₁, Steps step fuel s k t k₁ := by
  induction fuel generalizing s k with
  | zero => exact ⟨s, k, .refl s k⟩
  | succ fuel ih =>
    rcases hp : (step s).perform k with ⟨t, k₁⟩ | ⟨r, t, k₁⟩
    · rw [drive_of_going hp] at h
      obtain ⟨u, k₂, hsteps⟩ := ih h
      exact ⟨u, k₂, .turn hp hsteps⟩
    · rw [drive_of_over hp] at h
      cases h

/-- A run that has ended took some turns, and then one that was the last. -/
theorem steps_of_drive_eq_some {fuel : Nat} (h : drive step fuel s k = some f) :
    ∃ n t k₁, n < fuel ∧ Steps step n s k t k₁ ∧ (step t).perform k₁ = .over f.result f.state f.console := by
  induction fuel generalizing s k with
  | zero => cases h
  | succ fuel ih =>
    rcases hp : (step s).perform k with ⟨t, k₁⟩ | ⟨r, t, k₁⟩
    · rw [drive_of_going hp] at h
      obtain ⟨n, u, k₂, hlt, hsteps, hover⟩ := ih h
      exact ⟨n + 1, u, k₂, Nat.succ_lt_succ hlt, .turn hp hsteps, hover⟩
    · rw [drive_of_over hp] at h
      cases h
      exact ⟨0, s, k, Nat.succ_pos fuel, .refl s k, hp⟩

theorem Ends.of_over {r : Except Error Outcome} (h : (step s).perform k = .over r t k₁) :
    Ends step s k ⟨r, t, k₁⟩ := ⟨1, drive_of_over h 0⟩

end Ends

/-! ## Simulation -/

/-- Every turn of the first machine is a number of turns of the second on the same console; `μ` goes down where that
number is zero.  `R` relates the states on the way and `Q` the two ends. -/
structure Simulation (κ : Type) [Console κ] (step : σ → Action σ) (step' : τ → Action τ) (R : σ → τ → Prop)
    (μ : σ → Nat) (Q : Finish σ κ → Finish τ κ → Prop) : Prop where
  going : ∀ {s s' : σ} {t : τ} {k k' : κ}, R s t → (step s).perform k = .going s' k' →
    ∃ n t', Steps step' n t k t' k' ∧ R s' t' ∧ (n = 0 → μ s' < μ s)
  ending : ∀ {s s' : σ} {t : τ} {k k' : κ} {r : Except Error Outcome}, R s t → (step s).perform k = .over r s' k' →
    ∃ g, Ends step' t k g ∧ Q ⟨r, s', k'⟩ g

namespace Simulation

variable {step : σ → Action σ} {step' : τ → Action τ} {R : σ → τ → Prop} {μ : σ → Nat}
  {Q : Finish σ κ → Finish τ κ → Prop} {s : σ} {t : τ} {k : κ}

/-- **Forward**: where the first run ends, the second ends too. -/
theorem ends (hsim : Simulation κ step step' R μ Q) (hR : R s t) {f : Finish σ κ} (h : Ends step s k f) :
    ∃ g, Ends step' t k g ∧ Q f g := by
  obtain ⟨fuel, h⟩ := h
  induction fuel generalizing s t k with
  | zero => exact absurd h (by simp [drive_zero])
  | succ fuel ih =>
    rcases hp : (step s).perform k with ⟨s', k'⟩ | ⟨r, s', k'⟩
    · rw [drive_of_going hp] at h
      obtain ⟨n, t', hsteps, hR', -⟩ := hsim.going hR hp
      obtain ⟨g, hg, hQ⟩ := ih hR' h
      exact ⟨g, hsteps.ends_iff.mpr hg, hQ⟩
    · rw [drive_of_over hp] at h
      cases h
      exact hsim.ending hR hp

/-- **Backward**: where the second run ends, the first ends too.  The induction is on the steps of the second run and,
where it stands still, on the measure of the first. -/
theorem ends_back (hsim : Simulation κ step step' R μ Q) (hR : R s t) {g : Finish τ κ} (h : Ends step' t k g) :
    ∃ f, Ends step s k f ∧ Q f g := by
  obtain ⟨fuel, h⟩ := h
  induction fuel using Nat.strongRecOn generalizing s t k with
  | _ fuel ih =>
    induction hμ : μ s using Nat.strongRecOn generalizing s t k with
    | _ m ihμ =>
      subst hμ
      rcases hp : (step s).perform k with ⟨s', k'⟩ | ⟨r, s', k'⟩
      · obtain ⟨n, t', hsteps, hR', hdown⟩ := hsim.going hR hp
        obtain ⟨hlt, h'⟩ := hsteps.drive_sub h
        have hrest : ∃ f, Ends step s' k' f ∧ Q f g := by
          rcases Nat.eq_zero_or_pos n with rfl | hpos
          · exact ihμ _ (hdown rfl) hR' h' rfl
          · exact ih (fuel - n) (by omega) hR' h'
        obtain ⟨f, hf, hQ⟩ := hrest
        exact ⟨f, (Steps.single hp).ends_iff.mpr hf, hQ⟩
      · obtain ⟨g', hg', hQ⟩ := hsim.ending hR hp
        have : g' = g := hg'.unique ⟨fuel, h⟩
        subst this
        exact ⟨_, .of_over hp, hQ⟩

end Simulation
end TapeLang
