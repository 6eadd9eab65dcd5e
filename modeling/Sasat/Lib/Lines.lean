import Mathlib.Tactic
import Mathlib.Data.List.TakeWhile

/-!
# Lines

A text is cut behind every terminator `t`; what follows the last one is a line of its own.

* `lines t s`: the lines of `s`, each with its terminator.
* **`lines_append`**, **`lines_of_not_mem`**: the first line; `lines_cases`: the two kinds of text.
* `mem_lines`: no line holds a terminator inside.
* `takeWhile_terminated`, `dropWhile_terminated`, `findIdx_terminated`: searches for the first
  terminator; `takeWhile_self`, `dropWhile_self`, `findIdx_none`: there is none.
-/

namespace Lines

variable {α : Type} [DecidableEq α] {t : α} {s l : List α}

/-- The lines of a text, each with its terminator. -/
def lines (t : α) : List α → List (List α)
  | [] => []
  | c :: s =>
    if c = t then [c] :: lines t s
    else match lines t s with
      | [] => [[c]]
      | l :: ls => (c :: l) :: ls

/-- **A text starts with a terminated line**, or it has no terminator. -/
theorem lines_cases (t : α) (s : List α) :
    t ∉ s ∨ ∃ l s', s = l ++ t :: s' ∧ t ∉ l := by
  by_cases h : t ∈ s
  · exact Or.inr (List.eq_append_cons_of_mem h)
  · exact Or.inl h

theorem lines_append (hl : t ∉ l) (s : List α) :
    lines t (l ++ t :: s) = (l ++ [t]) :: lines t s := by
  induction l with
  | nil => rw [List.nil_append, lines, if_pos rfl, List.nil_append]
  | cons c l ih =>
    rw [List.mem_cons, not_or] at hl
    rw [List.cons_append, lines, if_neg (Ne.symm hl.1), ih hl.2]
    rfl

theorem lines_of_not_mem (hl : t ∉ l) (hne : l ≠ []) : lines t l = [l] := by
  induction l with
  | nil => exact absurd rfl hne
  | cons c l ih =>
    rw [List.mem_cons, not_or] at hl
    rw [lines, if_neg (Ne.symm hl.1)]
    cases l with
    | nil => rfl
    | cons d l => rw [ih hl.2 (List.cons_ne_nil d l)]

theorem mem_lines (h : l ∈ lines t s) : ∃ l', t ∉ l' ∧ ((l = l' ∧ l' ≠ []) ∨ l = l' ++ [t]) := by
  induction hn : s.length using Nat.strong_induction_on generalizing s with
  | _ n ih =>
    subst hn
    rcases lines_cases t s with hs | ⟨l', s', rfl, hl⟩
    · cases s with
      | nil => exact absurd h List.not_mem_nil
      | cons c s =>
        rw [lines_of_not_mem hs (List.cons_ne_nil c s), List.mem_singleton] at h
        exact ⟨c :: s, hs, Or.inl ⟨h, List.cons_ne_nil c s⟩⟩
    · rw [lines_append hl, List.mem_cons] at h
      rcases h with rfl | h
      · exact ⟨l', hl, Or.inr rfl⟩
      · exact ih s'.length (by simp; omega) h rfl

/-! ## The first terminator -/

theorem takeWhile_append (hl : t ∉ l) (s : List α) :
    (l ++ s).takeWhile (· ≠ t) = l ++ s.takeWhile (· ≠ t) :=
  List.takeWhile_append_of_pos fun _ hc => decide_eq_true fun e => hl (e ▸ hc)

theorem takeWhile_terminated (hl : t ∉ l) (s : List α) :
    (l ++ t :: s).takeWhile (· ≠ t) = l := by
  rw [takeWhile_append hl, List.takeWhile_cons_of_neg (by simp), List.append_nil]

theorem takeWhile_self (hl : t ∉ l) : l.takeWhile (· ≠ t) = l :=
  List.takeWhile_eq_self_iff.mpr fun _ hc => decide_eq_true fun e => hl (e ▸ hc)

theorem dropWhile_terminated (hl : t ∉ l) (s : List α) :
    (l ++ t :: s).dropWhile (· ≠ t) = t :: s := by
  have hall : ∀ c ∈ l, decide (c ≠ t) = true := fun _ hc => decide_eq_true fun e => hl (e ▸ hc)
  rw [List.dropWhile_append_of_pos hall, List.dropWhile_cons_of_neg (by simp)]

theorem dropWhile_self (hl : t ∉ l) : l.dropWhile (· ≠ t) = [] :=
  List.dropWhile_eq_nil_iff.mpr fun _ hc => decide_eq_true fun e => hl (e ▸ hc)

theorem findIdx_none (hl : t ∉ l) : l.findIdx? (· == t) = none :=
  List.findIdx?_eq_none_iff.mpr fun _ hc => beq_eq_false_iff_ne.mpr fun e => hl (e ▸ hc)

theorem findIdx_terminated (hl : t ∉ l) (s : List α) :
    (l ++ t :: s).findIdx? (· == t) = some l.length := by
  rw [List.findIdx?_append, findIdx_none hl, List.findIdx?_cons]
  simp

end Lines
