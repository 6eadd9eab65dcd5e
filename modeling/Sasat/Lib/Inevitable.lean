import Mathlib.Tactic

/-!
# What a system cannot avoid

A system takes steps as long as it can; which of its steps it takes is not known.

* `Inevitable step P s`: however the system runs from `s`, it reaches a state with `P`.
* **`Inevitable.of_rank`**: the rule of a rank that every step lowers.
* **`Inevitable.of_inv`**: the rule of an invariant that holds until then.
-/

namespace Transition

variable {σ : Type} {step : σ → σ → Prop} {P I : σ → Prop} {s : σ}

/-- However the system runs from a state, it reaches one with `P`. -/
inductive Inevitable (step : σ → σ → Prop) (P : σ → Prop) : σ → Prop
  | now {s : σ} : P s → Inevitable step P s
  | later {s : σ} : (∃ s', step s s') → (∀ s', step s s' → Inevitable step P s') →
      Inevitable step P s

/-- **The rank rule.** An invariant holds until `P` does, and while it holds there is a step and
every step lowers the rank. -/
theorem Inevitable.of_rank (rank : σ → ℕ) (hcan : ∀ s, I s → P s ∨ ∃ s', step s s')
    (hstep : ∀ s s', I s → step s s' → I s' ∧ rank s' < rank s) (hs : I s) :
    Inevitable step P s := by
  induction h : rank s using Nat.strong_induction_on generalizing s with
  | _ k ih =>
    subst h
    rcases hcan s hs with hP | hex
    · exact .now hP
    · refine .later hex fun s' hs' => ?_
      obtain ⟨hI, hlt⟩ := hstep s s' hs hs'
      exact ih _ hlt hI rfl

/-- **The escape rule.** An invariant that every step keeps holds where the system arrives. -/
theorem Inevitable.of_inv (h : Inevitable step P s) (hs : I s)
    (hstep : ∀ s s', I s → step s s' → I s') : ∃ s', I s' ∧ P s' := by
  induction h with
  | now hP => exact ⟨_, hs, hP⟩
  | later hex _ ih =>
    obtain ⟨s', hs'⟩ := hex
    exact ih s' hs' (hstep _ _ hs hs')

end Transition
