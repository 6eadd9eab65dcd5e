import Mathlib.Tactic

/-!
# The last match

A store that is written again and again holds what the last write of each kind put there.

* `lastMatch p l`: the last element of `l` that satisfies `p`.
* `lastMatch_cons`, `lastMatch_append`: how it composes.
* `lastSome sel s l`: a state that some of the elements overwrite; **`lastSome_cons`**,
  `lastSome_append`: element by element.
-/

namespace LastMatch

variable {α β : Type} {p : α → Bool}

/-- The last element with `p`. -/
def lastMatch (p : α → Bool) (l : List α) : Option α := (l.filter p).getLast?

@[simp] theorem lastMatch_nil : lastMatch p [] = none := rfl

theorem lastMatch_append (l l' : List α) :
    lastMatch p (l ++ l') = (lastMatch p l').or (lastMatch p l) := by
  rw [lastMatch, List.filter_append, List.getLast?_append]
  rfl

theorem lastMatch_cons (a : α) (l : List α) :
    lastMatch p (a :: l) = (lastMatch p l).or (if p a then some a else none) := by
  rw [← List.singleton_append, lastMatch_append]
  congr 1
  rw [lastMatch, List.filter_singleton]
  cases p a <;> rfl

theorem lastMatch_of_forall_not {l : List α} (h : ∀ a ∈ l, p a = false) : lastMatch p l = none := by
  rw [lastMatch, List.filter_eq_nil_iff.mpr (by simpa using h)]
  rfl

theorem mem_of_lastMatch {a : α} {l : List α} (h : lastMatch p l = some a) : a ∈ l ∧ p a = true :=
  List.mem_filter.mp (List.mem_of_getLast? h)

/-! ## A state that is overwritten -/

/-- What a state `s` holds after the elements of `l`, some of which overwrite it. -/
def lastSome (sel : α → Option β) (s : β) (l : List α) : β := (l.filterMap sel).getLast?.getD s

variable {sel : α → Option β}

@[simp] theorem lastSome_nil (s : β) : lastSome sel s [] = s := rfl

/-- **The first element**, and the others after it. -/
theorem lastSome_cons (s : β) (a : α) (l : List α) :
    lastSome sel s (a :: l) = lastSome sel ((sel a).getD s) l := by
  unfold lastSome
  rw [List.filterMap_cons]
  cases sel a with
  | none => rfl
  | some b =>
    rw [List.getLast?_cons]
    rfl

theorem lastSome_append (s : β) (l l' : List α) :
    lastSome sel s (l ++ l') = lastSome sel (lastSome sel s l) l' := by
  induction l generalizing s with
  | nil => rfl
  | cons a l ih => rw [List.cons_append, lastSome_cons, lastSome_cons, ih]

end LastMatch
