import Mathlib.Tactic

/-!
# Postconditions of calls that can fault

* `Post P E x`: every result of the call `x` satisfies `P`, every error of it satisfies `E`.
* **`Post.bind`**, **`Post.ite`**, `Post.mono`: the rules.
* `Avoids E x`: no error of `x` satisfies `E`; **`avoids_bind`**, **`avoids_ite`**: exactly when.
-/

namespace Outcome

variable {ε α β : Type}

/-- Every result of `x` satisfies `P`, every error satisfies `E`. -/
def Post (P : α → Prop) (E : ε → Prop) : Except ε α → Prop
  | .ok a => P a
  | .error e => E e

variable {P P' : α → Prop} {Q : β → Prop} {E E' : ε → Prop} {x y : Except ε α}

theorem Post.bind {f : α → Except ε β} (hx : Post P E x) (hf : ∀ a, P a → Post Q E (f a)) :
    Post Q E (x >>= f) := by
  cases x with
  | ok a => exact hf a hx
  | error e => exact hx

theorem Post.ite {c : Prop} [Decidable c] (hx : c → Post P E x) (hy : ¬ c → Post P E y) :
    Post P E (if c then x else y) := by
  split_ifs with h
  · exact hx h
  · exact hy h

theorem Post.mono (hx : Post P E x) (hP : ∀ a, P a → P' a) (hE : ∀ e, E e → E' e) :
    Post P' E' x := by
  cases x with
  | ok a => exact hP a hx
  | error e => exact hE e hx

theorem Post.trivial : Post (fun _ => True) (fun _ => True) x := by
  cases x with
  | ok a => exact True.intro
  | error e => exact True.intro

theorem Post.of_ok {a : α} (hx : Post P E x) (h : x = .ok a) : P a := by
  subst h
  exact hx

theorem post_of_ok {a : α} (h : x = .ok a) (ha : P a) : Post P E x := by
  subst h
  exact ha

theorem foldlM_cons_ok {σ : Type} {f : σ → α → Except ε σ} {s s' : σ} {a : α} {as : List α}
    (h : f s a = .ok s') : (a :: as).foldlM f s = as.foldlM f s' := by
  rw [List.foldlM_cons, h]
  rfl

/-- No error of `x` satisfies `E`. -/
def Avoids (E : ε → Prop) (x : Except ε α) : Prop := ∀ e, x = .error e → ¬ E e

theorem avoids_ok (a : α) : Avoids E (.ok a : Except ε α) := by
  rintro e ⟨⟩

theorem avoids_error {e : ε} : Avoids E (.error e : Except ε α) ↔ ¬ E e := by
  constructor
  · intro h
    exact h e rfl
  · rintro h e' ⟨⟩
    exact h

theorem avoids_ite {c : Prop} [Decidable c] :
    Avoids E (if c then x else y) ↔ (c → Avoids E x) ∧ (¬ c → Avoids E y) := by
  split_ifs with h
  · exact ⟨fun hx => ⟨fun _ => hx, fun hn => absurd h hn⟩, fun hxy => hxy.1 h⟩
  · exact ⟨fun hy => ⟨fun hc => absurd hc h, fun _ => hy⟩, fun hxy => hxy.2 h⟩

theorem avoids_bind {f : α → Except ε β} :
    Avoids E (x >>= f) ↔ Avoids E x ∧ ∀ a, x = .ok a → Avoids E (f a) := by
  cases x with
  | ok a =>
    refine ⟨fun h => ⟨avoids_ok a, ?_⟩, fun h => h.2 a rfl⟩
    rintro a' ⟨⟩
    exact h
  | error e =>
    have hE : Avoids E (Except.error e >>= f) ↔ ¬ E e := avoids_error
    rw [hE, avoids_error]
    refine ⟨fun h => ⟨h, ?_⟩, And.left⟩
    rintro a' ⟨⟩

theorem Avoids.bind {f : α → Except ε β} (hx : Avoids E x) (hf : ∀ a, Avoids E (f a)) :
    Avoids E (x >>= f) := avoids_bind.mpr ⟨hx, fun a _ => hf a⟩

theorem avoids_bind_iff {f : α → Except ε β} (hf : ∀ a, Avoids E (f a)) :
    Avoids E (x >>= f) ↔ Avoids E x :=
  avoids_bind.trans ⟨And.left, fun h => ⟨h, fun a _ => hf a⟩⟩

theorem Avoids.ite {c : Prop} [Decidable c] (hx : Avoids E x) (hy : Avoids E y) :
    Avoids E (if c then x else y) := avoids_ite.mpr ⟨fun _ => hx, fun _ => hy⟩

end Outcome
