import Mathlib.Tactic

/-!
# Machines with outputs

A machine `next` takes a state and an input to a list of outputs and the next state. A program takes
its inputs as the machine does, may fault, and shows what it has put out so far.

* `outputs`, `final`: what a machine puts out for a list of inputs, and where it ends.
* `Refines`: every step of the program is one of the machine; **`Refines.run`**: so is every run.
-/

namespace Mealy

variable {σ τ α β ε : Type}

/-- The outputs for a list of inputs, from the state `s` on. -/
def outputs (next : σ → α → List β × σ) : σ → List α → List β
  | _, [] => []
  | s, a :: as => (next s a).1 ++ outputs next (next s a).2 as

/-- The state after a list of inputs. -/
def final (next : σ → α → List β × σ) (s : σ) (as : List α) : σ :=
  as.foldl (fun s a => (next s a).2) s

/-- Every step of the program leads from related states to related states, and puts out what the
machine does. -/
def Refines (R : σ → τ → Prop) (out : τ → List β) (step : τ → α → Except ε τ)
    (next : σ → α → List β × σ) : Prop :=
  ∀ {s t a t'}, R s t → step t a = .ok t' → R (next s a).2 t' ∧ out t' = out t ++ (next s a).1

/-- **Every run of the program is one of the machine**, with the same outputs. -/
theorem Refines.run {R : σ → τ → Prop} {out : τ → List β} {step : τ → α → Except ε τ}
    {next : σ → α → List β × σ} (h : Refines R out step next) : ∀ (as : List α) {s : σ} {t t' : τ},
      R s t → as.foldlM step t = .ok t' →
        R (final next s as) t' ∧ out t' = out t ++ outputs next s as := by
  intro as
  induction as with
  | nil =>
    intro s t t' hst hrun
    cases hrun
    exact ⟨hst, (List.append_nil _).symm⟩
  | cons a as ih =>
    intro s t t' hst hrun
    rw [List.foldlM_cons] at hrun
    cases ha : step t a with
    | error e =>
      rw [ha] at hrun
      cases hrun
    | ok t₁ =>
      rw [ha] at hrun
      obtain ⟨hst₁, hout₁⟩ := h hst ha
      obtain ⟨hst', hout⟩ := ih hst₁ hrun
      refine ⟨hst', ?_⟩
      rw [hout, hout₁, List.append_assoc]
      rfl

end Mealy
