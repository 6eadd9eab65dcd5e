import Mathlib.Tactic
import Mathlib.Data.Fintype.Card

/-!
# Chains of links

A node of an intrusive singly linked list carries a link to the next node, so that a store of
links `next : ι → Option ι` and an entry point `p : Option ι` determine a walk.

* `Links next p l`: following `next` from `p` visits exactly the nodes of `l` and then ends.
* `Links.unique`, `Links.nodup`: the visited nodes are determined, and none is visited twice.
* `Links.congr`, `Links.push`: what a write to a link changes.
* **`Links.exists_update`**, **`Links.not_links_update`**: when a redirected chain stays finite.
* `walk`: search along the links with a bound on the steps; `walk_eq_find` on a finite chain.
* **`walk_stuck`**: on a finite node type, a search that needs more than one step a node never ends.
-/

namespace Intrusive

variable {ι : Type*} {next next' : ι → Option ι} {p q : Option ι} {l l' : List ι} {i : ι}

/-- Following `next` from `p` visits the nodes of `l` in order and then meets a null link. -/
def Links (next : ι → Option ι) : Option ι → List ι → Prop
  | p, [] => p = none
  | p, i :: l => p = some i ∧ Links next (next i) l

@[simp] theorem links_nil : Links next p [] ↔ p = none := Iff.rfl

@[simp] theorem links_cons : Links next p (i :: l) ↔ p = some i ∧ Links next (next i) l := Iff.rfl

theorem links_none : Links next none l ↔ l = [] := by
  cases l <;> simp

theorem Links.eq_head? (h : Links next p l) : p = l.head? := by
  cases l with
  | nil => exact h
  | cons i l => exact h.1

/-- **The visited nodes are determined by the store and the entry point.** -/
theorem Links.unique : ∀ {p : Option ι} {l l' : List ι},
    Links next p l → Links next p l' → l = l'
  | _, [], l', h, h' => by
    rw [links_nil.mp h, links_none] at h'
    exact h'.symm
  | _, i :: l, [], h, h' => by
    rw [links_nil.mp h'] at h
    exact absurd h.1 (by simp)
  | _, i :: l, j :: l', h, h' => by
    obtain rfl : i = j := Option.some.inj (h.1.symm.trans h'.1)
    rw [h.2.unique h'.2]

theorem Links.of_append {a b : List ι} : ∀ {p : Option ι}, Links next p (a ++ i :: b) →
    Links next (next i) b := by
  induction a with
  | nil => exact fun h => h.2
  | cons j a ih => exact fun h => ih h.2

/-- **No node is visited twice.** -/
theorem Links.nodup : ∀ {l : List ι} {p : Option ι}, Links next p l → l.Nodup
  | [], _, _ => List.nodup_nil
  | i :: l, _, h => by
    refine List.nodup_cons.mpr ⟨fun hi => ?_, h.2.nodup⟩
    obtain ⟨a, b, rfl⟩ := List.append_of_mem hi
    -- the rest of the chain after the second visit of `i` is the rest after the first
    have hb := congrArg List.length (h.2.unique h.2.of_append)
    simp at hb
    omega

theorem Links.length_le [Fintype ι] (h : Links next p l) : l.length ≤ Fintype.card ι :=
  h.nodup.length_le_card

theorem Links.congr : ∀ {l : List ι} {p : Option ι}, (∀ i ∈ l, next' i = next i) →
    Links next p l → Links next' p l
  | [], _, _, h => h
  | i :: l, _, hn, h => by
    refine ⟨h.1, ?_⟩
    rw [hn i List.mem_cons_self]
    exact h.2.congr fun j hj => hn j (List.mem_cons_of_mem _ hj)

section Write

variable [DecidableEq ι]

theorem Links.update_of_notMem (h : Links next p l) (hi : i ∉ l) (x : Option ι) :
    Links (Function.update next i x) p l :=
  h.congr fun j hj => Function.update_of_ne (fun e => hi (by rwa [← e])) _ _

theorem Links.push (h : Links next p l) (hi : i ∉ l) :
    Links (Function.update next i p) (some i) (i :: l) := by
  refine ⟨rfl, ?_⟩
  rw [Function.update_self]
  exact h.update_of_notMem hi p

theorem Links.splice {m : List ι} (hq : Links next q m) (hi : i ∉ m) :
    ∀ {a : List ι} {p : Option ι}, Links next p (a ++ i :: l) →
      Links (Function.update next i q) p (a ++ i :: m)
  | [], _, h => ⟨h.1, (hq.push hi).2⟩
  | j :: a, _, h => by
    have hj : j ≠ i := by
      rintro rfl
      exact (List.nodup_cons.mp h.nodup).1 (by simp)
    refine ⟨h.1, ?_⟩
    rw [Function.update_of_ne hj]
    exact Links.splice hq hi h.2

theorem Links.exists_update (hq : Links next q l) (hi : i ∉ l) {m : List ι} (hp : Links next p m) :
    ∃ m', Links (Function.update next i q) p m' := by
  by_cases him : i ∈ m
  · obtain ⟨a, b, rfl⟩ := List.append_of_mem him
    exact ⟨_, hq.splice hi hp⟩
  · exact ⟨m, hp.update_of_notMem him q⟩

end Write

theorem Links.mem_of_agree {b : List ι} : ∀ {a l : List ι} {p : Option ι},
    Links next p (a ++ i :: b) → (∀ j ∈ a, next' j = next j) → Links next' p l → i ∈ l
  | [], l, p, h, _, h' => by
    rw [h.1] at h'
    exact List.mem_of_mem_head? h'.eq_head?.symm
  | j :: a, [], p, h, _, h' => absurd (h.1.symm.trans h') (by simp)
  | j :: a, k :: l, p, h, hn, h' => by
    obtain rfl : j = k := Option.some.inj (h.1.symm.trans h'.1)
    have hl := h'.2
    rw [hn j List.mem_cons_self] at hl
    exact List.mem_cons_of_mem _ (Links.mem_of_agree h.2 (fun k hk => hn k (by simp [hk])) hl)

/-- Redirecting a visited node to the start of its own chain makes the chain endless. -/
theorem Links.not_links_update [DecidableEq ι] (h : Links next p l) (hi : i ∈ l) (m : List ι) :
    ¬ Links (Function.update next i p) (some i) m := by
  intro hm
  cases m with
  | nil => exact absurd hm (by simp)
  | cons k m =>
    obtain rfl : i = k := Option.some.inj hm.1
    obtain ⟨a, b, rfl⟩ := List.append_of_mem hi
    have hna : i ∉ a := fun hia => by
      have := List.nodup_append.mp h.nodup
      exact this.2.2 i hia i List.mem_cons_self rfl
    have h2 := hm.2
    rw [Function.update_self] at h2
    refine (List.nodup_cons.mp hm.nodup).1 (h.mem_of_agree (fun j hj => ?_) h2)
    exact Function.update_of_ne (fun hji : j = i => hna (hji ▸ hj)) _ _

/-! ## Searching along the links -/

/-- Follow the links for at most `n` tests: `some (some i)` is the first node that satisfies `P`,
`some none` the end of the chain, `none` that the bound was reached. -/
def walk (next : ι → Option ι) (P : ι → Bool) : ℕ → Option ι → Option (Option ι)
  | 0, _ => none
  | _ + 1, none => some none
  | n + 1, some i => if P i then some (some i) else walk next P n (next i)

/-- The links that a search for `P` follows: it stops at the nodes that it accepts. -/
def stopAt (next : ι → Option ι) (P : ι → Bool) (i : ι) : Option ι := if P i then none else next i

variable {P : ι → Bool} {r : Option ι}

theorem stopAt_of_not (h : ¬ P i = true) : stopAt next P i = next i := if_neg h

theorem stopAt_of_pos (h : P i = true) : stopAt next P i = none := if_pos h

theorem walk_eq_find : ∀ {l : List ι} {p : Option ι} {n : ℕ}, Links next p l → l.length < n →
    walk next P n p = some (l.find? P)
  | _, _, 0, _, hn => absurd hn (Nat.not_lt_zero _)
  | [], _, n + 1, h, _ => by
    rw [links_nil.mp h]
    rfl
  | i :: l, _, n + 1, h, hn => by
    rw [h.1, walk, List.find?_cons]
    cases hP : P i
    · rw [if_neg Bool.false_ne_true]
      exact walk_eq_find h.2 (Nat.lt_of_succ_lt_succ hn)
    · rfl

theorem links_of_walk : ∀ {n : ℕ} {p : Option ι}, walk next P n p = some r →
    ∃ l, Links (stopAt next P) p l
  | 0, _, h => by simp [walk] at h
  | _ + 1, none, _ => ⟨[], rfl⟩
  | n + 1, some i, h => by
    rw [walk] at h
    by_cases hP : P i = true
    · exact ⟨[i], rfl, stopAt_of_pos hP⟩
    · rw [if_neg hP] at h
      obtain ⟨l, hl⟩ := links_of_walk h
      exact ⟨i :: l, rfl, by rwa [stopAt_of_not hP]⟩

theorem walk_isSome_of_links : ∀ {l : List ι} {p : Option ι} {n : ℕ},
    Links (stopAt next P) p l → l.length < n → (walk next P n p).isSome
  | _, _, 0, _, hn => absurd hn (Nat.not_lt_zero _)
  | [], _, n + 1, h, _ => by
    rw [links_nil.mp h]
    rfl
  | i :: l, _, n + 1, h, hn => by
    rw [h.1, walk]
    by_cases hP : P i = true
    · rw [if_pos hP]
      rfl
    · have h2 := h.2
      rw [stopAt_of_not hP] at h2
      rw [if_neg hP]
      exact walk_isSome_of_links h2 (Nat.lt_of_succ_lt_succ hn)

/-- **A search that takes more than one test a node never ends**, whatever the bound. -/
theorem walk_stuck [Fintype ι] (h : walk next P (Fintype.card ι + 1) p = none) (n : ℕ) :
    walk next P n p = none := by
  by_contra hn
  obtain ⟨r, hr⟩ := Option.ne_none_iff_exists'.mp hn
  obtain ⟨l, hl⟩ := links_of_walk hr
  have := walk_isSome_of_links (n := Fintype.card ι + 1) hl (Nat.lt_succ_of_le hl.length_le)
  rw [h] at this
  exact absurd this (by simp)

/-- A search that meets a node linked to itself and does not accept it never ends. -/
theorem walk_self_loop (hi : next i = some i) (hP : P i = false) :
    ∀ n, walk next P n (some i) = none
  | 0 => rfl
  | n + 1 => by
    rw [walk, if_neg (by simp [hP]), hi]
    exact walk_self_loop hi hP n

end Intrusive
