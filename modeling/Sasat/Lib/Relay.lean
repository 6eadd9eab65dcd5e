import Mathlib.Data.List.Forall2
import Mathlib.Tactic

/-!
# Relays

A relay takes its inputs one after the other and puts out at most one output for each of them. What
it has put out is, in the order of the inputs and without repetition, what it makes of some of them:
`List.SublistForall₂ R outs ins`, with `R y x` for "`y` is made of `x`".

* **`comp`**: one relay behind the other.
* `filter_left`, `filter_right`: the outputs and the inputs that matter.
* **`network`**: two relays with a network between them.
* **`run`**: a step function that puts out at most one output is a relay over all of its runs.
-/

namespace Relay

open List

variable {α β γ δ σ ε : Type}

section

variable {R : β → α → Prop} {S : γ → β → Prop} {T : γ → α → Prop}

/-- **One relay behind the other** is a relay. -/
theorem comp (hT : ∀ z y x, S z y → R y x → T z x) {xs : List α} :
    ∀ {ys : List β} {zs : List γ}, SublistForall₂ S zs ys → SublistForall₂ R ys xs →
      SublistForall₂ T zs xs := by
  intro ys zs h h'
  induction h' generalizing zs with
  | nil =>
    cases h
    exact .nil
  | cons hyx _ ih =>
    cases h with
    | nil => exact .nil
    | cons hzy h => exact .cons (hT _ _ _ hzy hyx) (ih h)
    | cons_right h => exact .cons_right (ih h)
  | cons_right _ ih => exact .cons_right (ih h)

theorem filter_left (p : β → Prop) [DecidablePred p] {ys : List β} {xs : List α}
    (h : SublistForall₂ R ys xs) : SublistForall₂ (fun y x => p y ∧ R y x) (ys.filter p) xs := by
  induction h with
  | nil => exact .nil
  | @cons y x ys xs hyx _ ih =>
    by_cases hy : p y
    · rw [filter_cons_of_pos (by simpa using hy)]
      exact .cons ⟨hy, hyx⟩ ih
    · rw [filter_cons_of_neg (by simpa using hy)]
      exact .cons_right ih
  | cons_right _ ih => exact .cons_right ih

theorem filter_right (p : α → Prop) [DecidablePred p] {ys : List β} {xs : List α}
    (hp : ∀ y x, R y x → p x) (h : SublistForall₂ R ys xs) :
    SublistForall₂ R ys (xs.filter p) := by
  induction h with
  | nil => exact .nil
  | @cons y x ys xs hyx _ ih =>
    rw [filter_cons_of_pos (by simpa using hp y x hyx)]
    exact .cons hyx ih
  | @cons_right x ys xs _ ih =>
    by_cases hx : p x
    · rw [filter_cons_of_pos (by simpa using hx)]
      exact .cons_right ih
    · rw [filter_cons_of_neg (by simpa using hx)]
      exact ih

/-- **Two relays with a network between them.** The second takes those of its inputs that satisfy
`q` from the outputs of the first that satisfy `p`, as `N` allows. -/
theorem network {N : α → γ → Prop} {R' : γ → δ → Prop} {T : β → δ → Prop} {o : β → Prop}
    {q : α → Prop} {p : γ → Prop} [DecidablePred o] [DecidablePred q] [DecidablePred p]
    {zs : List β} {ys : List α} {xs : List γ} {ws : List δ} (hR : SublistForall₂ R zs ys)
    (hR' : SublistForall₂ R' xs ws) (hq : ∀ z y, o z → R z y → q y)
    (hN : SublistForall₂ N (ys.filter q) (xs.filter p))
    (hT : ∀ z y x w, o z → R z y → N y x → p x → R' x w → T z w) :
    SublistForall₂ T (zs.filter o) ws := by
  have hout := filter_right q (fun z y h => hq z y h.1 h.2) (filter_left o hR)
  have hboth := comp (T := fun z x => ∃ y, (o z ∧ R z y) ∧ N y x)
    (fun z y x hzy hyx => ⟨y, hzy, hyx⟩) hout hN
  refine comp (fun z x w hzx hxw => ?_) hboth (filter_left p hR')
  obtain ⟨y, hzy, hyx⟩ := hzx
  exact hT z y x w hzy.1 hzy.2 hyx hxw.1 hxw.2

end

/-- **A step that puts out at most one output is a relay**: `I` is what the steps keep. -/
theorem run {step : σ → α → Except ε σ} (out : σ → List β) {I : σ → Prop} {R : β → α → Prop}
    (hstep : ∀ s x s', I s → step s x = .ok s' →
      I s' ∧ (out s' = out s ∨ ∃ y, out s' = out s ++ [y] ∧ R y x)) :
    ∀ (xs : List α) {s s' : σ}, I s → xs.foldlM step s = .ok s' →
      I s' ∧ ∃ ys, out s' = out s ++ ys ∧ SublistForall₂ R ys xs := by
  intro xs
  induction xs with
  | nil =>
    intro s s' hs hrun
    cases hrun
    exact ⟨hs, [], (append_nil _).symm, .nil⟩
  | cons x xs ih =>
    intro s s' hs hrun
    rw [foldlM_cons] at hrun
    cases hx : step s x with
    | error e =>
      rw [hx] at hrun
      cases hrun
    | ok s₁ =>
      rw [hx] at hrun
      obtain ⟨hs₁, hout⟩ := hstep s x s₁ hs hx
      obtain ⟨hs', ys, hys, hrel⟩ := ih hs₁ hrun
      refine ⟨hs', ?_⟩
      rcases hout with h | ⟨y, h, hyx⟩
      · exact ⟨ys, by rw [hys, h], .cons_right hrel⟩
      · exact ⟨y :: ys, by rw [hys, h, append_assoc]; rfl, .cons hyx hrel⟩

end Relay
