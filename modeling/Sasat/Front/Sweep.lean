import Sasat.Front.Dispatch

/-!
# The sweep of the cache

The patrol empties one bucket at a time, entry by entry from the head, and puts the entries at the
tail of the free list.

* `Swept`: what the sweep writes to.
* **`clearBucket_spec`**: the inner loop moves a whole bucket to the free list.
* **`patrolSide_spec`**: a tick of the patrol keeps the invariant.
-/

namespace Sasat

open Intrusive

section

variable {n : ℕ} {D : Type} {F : Family n D} {s s' s'' : PolSide n D}
  {L : CacheList → List CachePtr} {b : Fin lbPolDivisor}

/-- Only the queues and the cache entries differ. -/
def Swept (s s' : PolSide n D) : Prop := s' = { s with cache := s'.cache, tq := s'.tq }

theorem Swept.refl (s : PolSide n D) : Swept s s := rfl

theorem Swept.trans (h : Swept s s') (h' : Swept s' s'') : Swept s s'' := by
  unfold Swept at *
  rw [h', h]

theorem Swept.ext (h : Swept s s') : Extends s s' := by
  rw [h]
  exact (Extends.refl s).of_heaps rfl rfl rfl rfl rfl

/-- The queues once the bucket `b` is emptied. -/
def emptied (L : CacheList → List CachePtr) (b : Fin lbPolDivisor) : CacheList → List CachePtr :=
  Function.update (Function.update L (.hash b) []) .free (L .free ++ L (.hash b))

theorem freeFirst_spec (hs : SideInv F s L) {e : CachePtr} {l : List CachePtr}
    (hl : L (.hash b) = e :: l) :
    SideInv F (freePolCache e { s with tq := s.tq.remove (.hash b) e })
      (Function.update (Function.update L (.hash b) l) .free (L .free ++ [e])) := by
  obtain ⟨s', hs'⟩ : ∃ s', s' = freePolCache e { s with tq := s.tq.remove (.hash b) e } := ⟨_, rfl⟩
  have hcache : s'.cache e = { s.cache e with lbStat := .init } := by
    rw [hs']
    exact Function.update_self _ _ _
  have hother : ∀ f, f ≠ e → s'.cache f = s.cache f := by
    intro f hf
    rw [hs']
    exact Function.update_of_ne hf _ _
  have htq : s'.tq = (s.tq.remove (.hash b) e).insertTail .free e := by
    rw [hs']
    rfl
  have hext : Extends s s' := by
    rw [hs']
    exact (Extends.refl s).of_heaps rfl rfl rfl rfl rfl
  rw [← hs']
  obtain ⟨-, hm⟩ := hs.rep.moveToTail hl (by simp : CacheList.free ≠ .hash b)
  refine ⟨hs.leave hl htq (by rw [hcache]) (by rw [hcache]) hother, hext.live hs.live,
    fun {c f} hf => ?_⟩
  rcases (hm _ _).mp hf with ⟨-, hc⟩ | ⟨hne, hf⟩
  · exact absurd hc (by simp)
  · refine (hs.cached hf).mono hext (k := (s.cache f).hit) ?_
    exact hother f hne

/-- **The inner loop moves the whole bucket to the tail of the free list.** -/
theorem clearBucket_spec : ∀ (l : List CachePtr) {s : PolSide n D} {L : CacheList → List CachePtr}
    {k : ℕ} (i : ℕ), SideInv F s L → L (.hash b) = l → l.length < k →
      ∃ s', clearBucket b k l.head? i s = .ok (i + l.length, s') ∧ Swept s s' ∧
        SideInv F s' (emptied L b)
  | _, _, _, 0, _, _, _, hk => absurd hk (Nat.not_lt_zero _)
  | [], s, L, k + 1, i, hs, hl, _ => by
    refine ⟨s, rfl, Swept.refl s, ?_⟩
    unfold emptied
    rwa [hl, List.append_nil, ← hl, Function.update_eq_self, Function.update_eq_self]
  | e :: l, s, L, k + 1, i, hs, hl, hk => by
    have hs₁ := freeFirst_spec hs hl
    have hnext : s.tq.next e = l.head? := by
      have := hs.rep.links (.hash b)
      rw [hl] at this
      exact this.2.eq_head?
    obtain ⟨s', hrun, hswept, hs'⟩ := clearBucket_spec l (i + 1) hs₁
      (by rw [Function.update_of_ne (by simp), Function.update_self]) (Nat.lt_of_succ_lt_succ hk)
    have hfirst : Swept s (freePolCache e { s with tq := s.tq.remove (.hash b) e }) := rfl
    refine ⟨s', ?_, hfirst.trans hswept, ?_⟩
    · rw [List.head?_cons, clearBucket, hnext, hrun, List.length_cons, Nat.add_right_comm,
        Nat.add_assoc]
    · have hL : emptied (Function.update (Function.update L (.hash b) l) .free (L .free ++ [e])) b =
          emptied L b := by
        funext h
        unfold emptied
        cases h with
        | free => simp [hl]
        | hash c =>
          by_cases hc : c = b
          · subst hc
            simp
          · simp [hc]
      rwa [hL] at hs'

theorem clearLoop_spec : ∀ (k : ℕ) {s : PolSide n D} {L : CacheList → List CachePtr},
    SideInv F s L → ∃ k' s' L', clearLoop k s = .ok (k', s') ∧ Swept s s' ∧ SideInv F s' L'
  | 0, s, L, hs => ⟨0, s, L, rfl, Swept.refl s, hs⟩
  | k + 1, s, L, hs => by
    set b : Fin lbPolDivisor := ⟨lbPolDivisor - (k + 1), Nat.sub_lt (by decide) k.succ_pos⟩ with hb
    obtain ⟨s', hrun, hswept, hs'⟩ := clearBucket_spec _ 0 hs (b := b) rfl (hs.length_lt _)
    rw [← hs.rep.first_eq] at hrun
    rw [clearLoop, ← hb, hrun]
    simp only [bind, Except.bind]
    split_ifs
    · obtain ⟨k', s'', L', hrun', hswept', hs''⟩ := clearLoop_spec k hs'
      exact ⟨k', s'', L', hrun', hswept.trans hswept', hs''⟩
    · exact ⟨k, s', _, rfl, hswept, hs'⟩

/-- **A tick of the patrol keeps the invariant.** -/
theorem patrolSide_spec (hs : SideInv F s L) :
    ∃ s' L', patrolSide s = .ok s' ∧ SideInv F s' L' ∧ Extends s s' := by
  have hcopy : ∀ {s₁ : PolSide n D} {L'}, SideInv F s₁ L' → ∀ p d,
      SideInv F { s₁ with ptr := p, delCache := d } L' :=
    fun {s₁ L'} h p d => h.congr ((Extends.refl s₁).of_heaps rfl rfl rfl rfl rfl) rfl
      (fun i => ⟨_, rfl⟩) rfl
  unfold patrolSide
  split_ifs
  · obtain ⟨k', s', L', hrun, hswept, hs'⟩ := clearLoop_spec (lbPolDivisor - s.ptr) hs
    unfold clearCache
    rw [hrun]
    simp only [bind, Except.bind]
    split_ifs
    · exact ⟨_, L', rfl, hcopy hs' 0 false, hswept.ext.of_heaps rfl rfl rfl rfl rfl⟩
    · exact ⟨_, L', rfl, hcopy hs' _ _, hswept.ext.of_heaps rfl rfl rfl rfl rfl⟩
  · exact ⟨s, L, rfl, hs, Extends.refl s⟩

end

end Sasat
