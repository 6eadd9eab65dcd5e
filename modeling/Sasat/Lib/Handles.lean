import Mathlib.Data.List.Perm.Subperm
import Mathlib.Data.List.Nodup
import Mathlib.Data.List.Range

/-!
# Tables of handles

A table of the handles that are in use. A new handle is the lowest number that is free.

* `lowest`: the next handle.
* `Accounted`: every handle in the table is held by somebody or has been lost, and none is there
  twice. One lemma for each thing that can be done with a handle.
-/

namespace Handles

open List

/-- The lowest number that is not in the table. -/
def lowest (t : List ℕ) : ℕ := ((range (t.length + 1)).find? fun n => decide (n ∉ t)).getD 0

section

variable {t held held' lost : List ℕ} {h : ℕ}

/-- **A new handle is free.** -/
theorem lowest_notMem (t : List ℕ) : lowest t ∉ t := by
  have hfree : ∃ n ∈ range (t.length + 1), n ∉ t := by
    by_contra! hall
    have hle := (nodup_range.subperm hall).length_le
    rw [length_range] at hle
    omega
  obtain ⟨n, hn, hnt⟩ := hfree
  have hsome : ((range (t.length + 1)).find? fun n => decide (n ∉ t)).isSome :=
    find?_isSome.mpr ⟨n, hn, decide_eq_true hnt⟩
  obtain ⟨m, hm⟩ := Option.isSome_iff_exists.mp hsome
  have hmt : m ∉ t := by simpa using find?_some hm
  rwa [lowest, hm]

theorem lowest_ne (hm : h ∈ t) : lowest t ≠ h := fun he => lowest_notMem t (he ▸ hm)

/-- The handles in the table `t` are those of `held` and those of `lost`. -/
structure Accounted (held lost t : List ℕ) : Prop where
  nodup : t.Nodup
  perm : t ~ held ++ lost

namespace Accounted

theorem mem_held (ha : Accounted held lost t) (hh : h ∈ held) : h ∈ t :=
  ha.perm.symm.subset (mem_append_left _ hh)

theorem congr (ha : Accounted held lost t) (hp : held ~ held') : Accounted held' lost t :=
  ⟨ha.nodup, ha.perm.trans (hp.append_right lost)⟩

theorem opened (ha : Accounted held lost t) : Accounted (lowest t :: held) lost (lowest t :: t) :=
  ⟨nodup_cons.mpr ⟨lowest_notMem t, ha.nodup⟩, ha.perm.cons _⟩

theorem closed (ha : Accounted (h :: held) lost t) : Accounted held lost (t.erase h) := by
  refine ⟨ha.nodup.erase h, (ha.perm.erase h).trans ?_⟩
  rw [cons_append, erase_cons_head]

theorem forgotten (ha : Accounted (h :: held) lost t) : Accounted held (h :: lost) t :=
  ⟨ha.nodup, ha.perm.trans perm_middle.symm⟩

end Accounted

end

end Handles
