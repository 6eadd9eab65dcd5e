import Sasat.Front.Sides

/-!
# The sweep over whole runs

A sweep is spread over the ticks of the patrol. Its cursor lasts from one tick to the next, and
lookups may come in between.

* `clearLog`, `sweepLog`: the buckets that a tick, or a run, goes through; **`patrolSide_log`**:
  they are those that the cursor of the state moves over.
* `Ticked`, **`patrolSide_ticked`**: what one tick does.
* `SweepEnds`, **`sideRun_sweep`**: a sweep goes through every bucket once, in order, and ends.
* **`sweep_complete`**: in every reachable state of the translator.
-/

namespace Sasat

open Intrusive

section

variable {n : ℕ} {D : Type} {F : Family n D} {s s' : PolSide n D} {L L' : CacheList → List CachePtr}
  {e : CachePtr} {bs : List (Fin lbPolDivisor)} {malloc : Option (Fin lbMaxCache → LbPolCache n D)}

/-- The buckets that the outer loop of `clear_v4_cache` goes through, with `k` buckets ahead. -/
def clearLog : ℕ → PolSide n D → M (List (Fin lbPolDivisor))
  | 0, _ => .ok []
  | k + 1, s => do
    let b : Fin lbPolDivisor := ⟨lbPolDivisor - (k + 1), lbPolDivisor_sub_lt k⟩
    let (i, s) ← clearBucket b (lbMaxCache + 2) (s.tq.first (.hash b)) 0 s
    if i = 0 then do
      let bs ← clearLog k s
      .ok (b :: bs)
    else .ok [b]

def SideOp.log (s : PolSide n D) : SideOp n → M (List (Fin lbPolDivisor))
  | .patrol => if s.delCache then clearLog (lbPolDivisor - s.ptr) s else .ok []
  | _ => .ok []

def sweepLog (F : Family n D) : PolSide n D → List (SideOp n) → M (List (Fin lbPolDivisor))
  | _, [] => .ok []
  | s, op :: ops => do
    let bs ← op.log s
    let s ← op.step F s
    let bs' ← sweepLog F s ops
    .ok (bs ++ bs')

theorem sweepLog_cons {op : SideOp n} {ops : List (SideOp n)} {bs' : List (Fin lbPolDivisor)}
    (hlog : op.log s = .ok bs) (hstep : op.step F s = .ok s') (h : sweepLog F s' ops = .ok bs') :
    sweepLog F s (op :: ops) = .ok (bs ++ bs') := by
  rw [sweepLog, hlog, hstep]
  simp only [bind, Except.bind]
  rw [h]

/-! ## One tick -/

/-- The buckets `bs` come next after the first `i`, all but the last of them are empty. -/
structure Passed (L : CacheList → List CachePtr) (i : ℕ) (bs : List (Fin lbPolDivisor))
    (L' : CacheList → List CachePtr) : Prop where
  order : bs.map Fin.val = List.range' i bs.length
  empty : ∀ b ∈ bs.dropLast, L (.hash b) = []
  hash : ∀ b, L' (.hash b) = if b ∈ bs then [] else L (.hash b)
  free : ∀ b ∈ bs, ∀ e ∈ L (.hash b), e ∈ L' .free

theorem emptied_hash (L : CacheList → List CachePtr) (b c : Fin lbPolDivisor) :
    emptied L b (.hash c) = if c = b then [] else L (.hash c) := by
  unfold emptied
  rw [Function.update_of_ne (by simp), Function.update_apply]
  simp

theorem emptied_of_nil {b : Fin lbPolDivisor} (h : L (.hash b) = []) : emptied L b = L := by
  unfold emptied
  rw [h, List.append_nil, ← h, Function.update_eq_self, Function.update_eq_self]

theorem clearBucket_delCache (b : Fin lbPolDivisor) (k : ℕ) : ∀ {s s' : PolSide n D}
    {o : Option CachePtr} {i i' : ℕ}, clearBucket b k o i s = .ok (i', s') →
      s'.delCache = s.delCache := by
  induction k with
  | zero =>
    intro s s' o i i' hrun
    cases hrun
  | succ k ih =>
    intro s s' o i i' hrun
    cases o with
    | none =>
      cases hrun
      rfl
    | some e =>
      rw [clearBucket] at hrun
      exact (ih hrun).trans rfl

/-- **The log of the loop is where its counter goes.** -/
theorem clearLoop_log (k : ℕ) : ∀ {s s' : PolSide n D} {k' : ℕ}, k ≤ lbPolDivisor →
    clearLoop k s = .ok (k', s') → s'.delCache = s.delCache ∧ ∃ bs, clearLog k s = .ok bs ∧
      k' + bs.length = k ∧ bs.map Fin.val = List.range' (lbPolDivisor - k) bs.length := by
  induction k with
  | zero =>
    intro s s' k' _ hrun
    cases hrun
    exact ⟨rfl, [], rfl, rfl, rfl⟩
  | succ k ih =>
    intro s s' k' hk hrun
    rw [clearLoop] at hrun
    obtain ⟨⟨i, s₁⟩, hbucket, hrun⟩ := bind_eq_ok.mp hrun
    have hkeep := clearBucket_delCache _ _ hbucket
    rw [clearLog, hbucket]
    simp only [bind, Except.bind] at hrun ⊢
    by_cases hi : i = 0
    · rw [if_pos hi] at hrun ⊢
      obtain ⟨hdel, bs, hlog, hlen, horder⟩ := ih (by omega) hrun
      rw [hlog]
      refine ⟨hdel.trans hkeep, _ :: bs, rfl, by rw [List.length_cons]; omega, ?_⟩
      rw [List.map_cons, horder, List.length_cons, List.range'_succ]
      congr 2
      omega
    · rw [if_neg hi] at hrun ⊢
      cases hrun
      exact ⟨hkeep, [_], rfl, rfl, rfl⟩

/-- **The log of a tick is where the cursor goes**: up to its new place, or up to the end when the
sweep is over. -/
theorem patrolSide_log (hd : s.delCache = true) (hp : s.ptr ≤ lbPolDivisor)
    (hrun : patrolSide s = .ok s') : ∃ bs, SideOp.patrol.log s = .ok bs ∧
      bs.map Fin.val = List.range' s.ptr bs.length ∧
        ((s'.delCache = false ∧ s'.ptr = 0 ∧ s.ptr + bs.length = lbPolDivisor) ∨
          (s'.delCache = true ∧ s'.ptr = s.ptr + bs.length ∧
            s.ptr + bs.length < lbPolDivisor)) := by
  rw [patrolSide, if_pos hd, clearCache] at hrun
  obtain ⟨⟨p, t⟩, hclear, hrun⟩ := bind_eq_ok.mp hrun
  obtain ⟨⟨k', s₁⟩, hloop, hclear⟩ := bind_eq_ok.mp hclear
  cases hclear
  obtain ⟨hkeep, bs, hlog, hlen, horder⟩ := clearLoop_log _ (Nat.sub_le _ _) hloop
  rw [Nat.sub_sub_self hp] at horder
  refine ⟨bs, (if_pos hd).trans hlog, horder, ?_⟩
  dsimp only at hrun
  by_cases hdone : lbPolDivisor - k' = lbPolDivisor
  · rw [if_pos hdone] at hrun
    cases hrun
    exact Or.inl ⟨rfl, rfl, by omega⟩
  · rw [if_neg hdone] at hrun
    cases hrun
    exact Or.inr ⟨hkeep.trans hd, show lbPolDivisor - k' = _ by omega, by omega⟩

/-- An empty bucket in front of those that are gone through. -/
theorem Passed.cons {i j : ℕ} {b : Fin lbPolDivisor} (hempty : L (.hash b) = [])
    (h : Passed L i bs L') (horder : (b :: bs).map Fin.val = List.range' j (b :: bs).length) :
    Passed L j (b :: bs) L' := by
  refine ⟨horder, fun c hc => ?_, fun c => ?_, fun c hc e he => ?_⟩
  · cases bs with
    | nil => simp at hc
    | cons d ds =>
      rw [List.dropLast_cons_cons] at hc
      rcases List.mem_cons.mp hc with rfl | hc
      · exact hempty
      · exact h.empty c hc
  · rw [h.hash]
    by_cases hc : c = b
    · subst hc
      simp [hempty]
    · simp [hc]
  · rcases List.mem_cons.mp hc with rfl | hc
    · rw [hempty] at he
      exact absurd he List.not_mem_nil
    · exact h.free c hc e he

/-- A bucket that is emptied. -/
theorem Passed.single {j : ℕ} {b : Fin lbPolDivisor}
    (horder : [b].map Fin.val = List.range' j [b].length) : Passed L j [b] (emptied L b) := by
  refine ⟨horder, by simp, fun c => ?_, fun c hc e he => ?_⟩
  · rw [emptied_hash]
    simp
  · obtain rfl := List.mem_singleton.mp hc
    unfold emptied
    rw [Function.update_self]
    exact List.mem_append_right _ he

theorem clearLoop_passed (k : ℕ) : ∀ {s : PolSide n D} {L : CacheList → List CachePtr},
    k ≤ lbPolDivisor → SideInv F s L → ∃ bs k' s' L', clearLog k s = .ok bs ∧
      clearLoop k s = .ok (k', s') ∧ (0 < k → bs ≠ []) ∧ Swept s s' ∧
        SideInv F s' L' ∧ Passed L (lbPolDivisor - k) bs L' := by
  induction k with
  | zero =>
    intro s L _ hs
    exact ⟨[], 0, s, L, rfl, rfl, fun h => absurd h (lt_irrefl 0), Swept.refl s, hs, rfl,
      by simp, by simp, by simp⟩
  | succ k ih =>
    intro s L hk hs
    obtain ⟨b, hb⟩ : ∃ b : Fin lbPolDivisor,
        b = ⟨lbPolDivisor - (k + 1), Nat.sub_lt (by decide) k.succ_pos⟩ := ⟨_, rfl⟩
    obtain ⟨s₁, hrun, hswept, hs₁⟩ := clearBucket_spec _ 0 hs (b := b) rfl (hs.length_lt _)
    rw [← hs.rep.first_eq] at hrun
    have horder : ∀ {bs k' s'}, clearLog (k + 1) s = .ok bs →
        clearLoop (k + 1) s = .ok (k', s') →
          bs.map Fin.val = List.range' (lbPolDivisor - (k + 1)) bs.length := by
      intro bs k' s' hlog hloop
      obtain ⟨-, ds, hds, -, horder⟩ := clearLoop_log (k + 1) hk hloop
      obtain rfl := Except.ok.inj (hlog.symm.trans hds)
      exact horder
    by_cases hempty : L (.hash b) = []
    · -- the outer loop goes on
      rw [emptied_of_nil hempty] at hs₁
      obtain ⟨bs, k', s', L', hlog, hrun', -, hswept', hs', hpass⟩ := ih (by omega) hs₁
      have hloop : clearLoop (k + 1) s = .ok (k', s') := by
        rw [clearLoop, ← hb, hrun]
        simp only [bind, Except.bind]
        rw [if_pos (by simp [hempty]), hrun']
      have hlog' : clearLog (k + 1) s = .ok (b :: bs) := by
        rw [clearLog, ← hb, hrun]
        simp only [bind, Except.bind]
        rw [if_pos (by simp [hempty]), hlog]
      exact ⟨b :: bs, k', s', L', hlog', hloop, fun _ => List.cons_ne_nil _ _,
        hswept.trans hswept', hs', hpass.cons hempty (horder hlog' hloop)⟩
    · have hne : 0 + (L (.hash b)).length ≠ 0 := by
        simpa using hempty
      have hloop : clearLoop (k + 1) s = .ok (k, s₁) := by
        rw [clearLoop, ← hb, hrun]
        simp only [bind, Except.bind]
        rw [if_neg hne]
      have hlog' : clearLog (k + 1) s = .ok [b] := by
        rw [clearLog, ← hb, hrun]
        simp only [bind, Except.bind]
        rw [if_neg hne]
      exact ⟨[b], k, s₁, emptied L b, hlog', hloop, fun _ => List.cons_ne_nil _ _, hswept, hs₁,
        .single (horder hlog' hloop)⟩

/-- What a tick does when a sweep is under way: it goes through the buckets `bs`. -/
structure Ticked (s : PolSide n D) (L : CacheList → List CachePtr) (bs : List (Fin lbPolDivisor))
    (s' : PolSide n D) (L' : CacheList → List CachePtr) : Prop where
  passed : Passed L s.ptr bs L'
  ne_nil : bs ≠ []
  le : s.ptr + bs.length ≤ lbPolDivisor
  done : s.ptr + bs.length = lbPolDivisor → s'.ptr = 0 ∧ s'.delCache = false
  more : s.ptr + bs.length ≠ lbPolDivisor → s'.ptr = s.ptr + bs.length ∧ s'.delCache = true

theorem SideInv.cursor (hs : SideInv F s L) (p : ℕ) (d : Bool) :
    SideInv F { s with ptr := p, delCache := d } L :=
  hs.congr ((Extends.refl s).of_heaps rfl rfl rfl rfl rfl) rfl (fun _ => ⟨_, rfl⟩) rfl

/-- **A tick goes on at the cursor** and stops behind the first bucket that was not empty. -/
theorem patrolSide_ticked (hs : SideInv F s L) (hd : s.delCache = true)
    (hp : s.ptr < lbPolDivisor) : ∃ bs s' L', SideOp.patrol.log s = .ok bs ∧
      patrolSide s = .ok s' ∧ SideInv F s' L' ∧ Ticked s L bs s' L' := by
  obtain ⟨bs, k', s₁, L', hlog, hloop, hne, -, hs₁, hpass⟩ :=
    clearLoop_passed (lbPolDivisor - s.ptr) (Nat.sub_le _ _) hs
  rw [Nat.sub_sub_self hp.le] at hpass
  have hlog' : SideOp.patrol.log s = .ok bs := (if_pos hd).trans hlog
  obtain ⟨s', hrun, hs'⟩ : ∃ s', patrolSide s = .ok s' ∧ SideInv F s' L' := by
    rw [patrolSide, if_pos hd, clearCache, hloop]
    simp only [bind, Except.bind]
    by_cases hdone : lbPolDivisor - k' = lbPolDivisor
    · rw [if_pos hdone]
      exact ⟨_, rfl, hs₁.cursor 0 false⟩
    · rw [if_neg hdone]
      exact ⟨_, rfl, hs₁.cursor _ _⟩
  obtain ⟨ds, hds, -, hcursor⟩ := patrolSide_log hd hp.le hrun
  obtain rfl := Except.ok.inj (hlog'.symm.trans hds)
  refine ⟨bs, s', L', hlog', hrun, hs', hpass, hne (by omega), ?_, fun hdone => ?_,
    fun hmore => ?_⟩
  · omega
  · rcases hcursor with ⟨hdel, hptr, -⟩ | ⟨-, -, hlt⟩
    · exact ⟨hptr, hdel⟩
    · omega
  · rcases hcursor with ⟨-, -, hend⟩ | ⟨hdel, hptr, -⟩
    · exact absurd hend hmore
    · exact ⟨hptr, hdel⟩

theorem patrolSide_hash (hs : SideInv F s L) : ∃ s' L', patrolSide s = .ok s' ∧ SideInv F s' L' ∧
    Extends s s' ∧ (∀ b, ∀ e ∈ L' (.hash b), e ∈ L (.hash b)) := by
  obtain ⟨s', L', hrun, hs', hext⟩ := patrolSide_spec hs
  refine ⟨s', L', hrun, hs', hext, ?_⟩
  unfold patrolSide at hrun
  split_ifs at hrun
  · obtain ⟨bs, k', s₁, L₁, -, hrun₁, -, -, hs₁, hpass⟩ :=
      clearLoop_passed (lbPolDivisor - s.ptr) (Nat.sub_le _ _) hs
    rw [clearCache, hrun₁] at hrun
    simp only [bind, Except.bind] at hrun
    have htq : s'.tq = s₁.tq := by
      split_ifs at hrun <;> cases hrun <;> rfl
    have hrep : Rep s'.tq L₁ := by
      rw [htq]
      exact hs₁.rep
    obtain rfl := hs'.rep.unique hrep
    intro b e he
    rw [hpass.hash] at he
    split_ifs at he
    · exact absurd he List.not_mem_nil
    · exact he
  · cases hrun
    obtain rfl := hs'.rep.unique hs.rep
    exact fun _ _ he => he

/-! ## A whole sweep -/

def SideOp.isPatrol : SideOp n → Bool
  | .patrol => true
  | _ => false

def ticks (ops : List (SideOp n)) : ℕ := ops.countP SideOp.isPatrol

/-- In the run `ops` a tick takes the entry `e` from the bucket `b` to the free list. -/
def Returned (F : Family n D) (s : PolSide n D) (ops : List (SideOp n)) (b : Fin lbPolDivisor)
    (e : CachePtr) : Prop :=
  ∃ p q t t', ops = p ++ .patrol :: q ∧ sideRun F s p = .ok t ∧ patrolSide t = .ok t' ∧
    OnQueue t (.hash b) e ∧ OnQueue t' .free e

/-- The sweep that is under way in `s` ends with a tick after the operations `ops`. -/
structure SweepEnds (F : Family n D) (s : PolSide n D) (ops : List (SideOp n)) (s' : PolSide n D)
    (bs : List (Fin lbPolDivisor)) : Prop where
  run : sideRun F s (ops ++ [.patrol]) = .ok s'
  pending : ∀ p q t, ops = p ++ q → sideRun F s p = .ok t → t.delCache = true
  cleared : s'.delCache = false
  ticks : ticks (ops ++ [.patrol]) ≤ lbPolDivisor - s.ptr
  log : sweepLog F s (ops ++ [.patrol]) = .ok bs
  order : bs.map Fin.val = List.range' s.ptr (lbPolDivisor - s.ptr)
  returned : ∀ (b : Fin lbPolDivisor) e, s.ptr ≤ b → OnQueue s (.hash b) e →
    Returned F s (ops ++ [.patrol]) b e

theorem SweepEnds.cons {op : SideOp n} {ops : List (SideOp n)} {s₁ : PolSide n D}
    {bs₁ : List (Fin lbPolDivisor)} (h : SweepEnds F s₁ ops s' bs₁) (hd : s.delCache = true)
    (hstep : op.step F s = .ok s₁) (hlog : op.log s = .ok bs)
    (horder : bs.map Fin.val = List.range' s.ptr bs.length) (hptr : s₁.ptr = s.ptr + bs.length)
    (hle : s.ptr + bs.length ≤ lbPolDivisor) (hticks : op.isPatrol = true → bs ≠ [])
    (hret : ∀ (b : Fin lbPolDivisor) e, s.ptr ≤ b → OnQueue s (.hash b) e →
      (s₁.ptr ≤ b ∧ OnQueue s₁ (.hash b) e) ∨ (op = .patrol ∧ OnQueue s₁ .free e)) :
    SweepEnds F s (op :: ops) s' (bs ++ bs₁) where
  run := by
    rw [List.cons_append, sideRun_cons _ hstep]
    exact h.run
  pending := by
    intro p q t hpq hrun
    cases p with
    | nil =>
      cases hrun
      exact hd
    | cons op' p =>
      rw [List.cons_append, List.cons.injEq] at hpq
      obtain ⟨rfl, hpq⟩ := hpq
      rw [sideRun_cons _ hstep] at hrun
      exact h.pending p q t hpq hrun
  cleared := h.cleared
  ticks := by
    have ht := h.ticks
    have hlen : op.isPatrol = true → 0 < bs.length := fun hp => List.length_pos_iff.mpr (hticks hp)
    unfold Sasat.ticks at ht ⊢
    rw [List.cons_append, List.countP_cons]
    split_ifs with hp
    · have := hlen hp
      omega
    · omega
  log := by
    rw [List.cons_append]
    exact sweepLog_cons hlog hstep h.log
  order := by
    rw [List.map_append, horder, h.order, hptr, List.range'_append_1]
    congr 1
    omega
  returned := by
    intro b e hb he
    rcases hret b e hb he with ⟨hb₁, he₁⟩ | ⟨rfl, hfree⟩
    · obtain ⟨p, q, t, t', hops, hrun, hrest⟩ := h.returned b e hb₁ he₁
      refine ⟨op :: p, q, t, t', by rw [List.cons_append, hops]; rfl, ?_, hrest⟩
      rwa [sideRun_cons _ hstep]
    · exact ⟨[], ops ++ [.patrol], s, s₁, rfl, rfl, hstep, he, hfree⟩

theorem Ticked.mem (h : Ticked s L bs s' L') (b : Fin lbPolDivisor) (hb : s.ptr ≤ b)
    (hlt : (b : ℕ) < s.ptr + bs.length) : b ∈ bs := by
  have hval : (b : ℕ) ∈ bs.map Fin.val := by
    rw [h.passed.order, List.mem_range'_1]
    exact ⟨hb, hlt⟩
  obtain ⟨c, hc, hcb⟩ := List.mem_map.mp hval
  rwa [← Fin.ext hcb]

theorem Ticked.sweepEnds (h : Ticked s L bs s' L') (hs : SideInv F s L) (hs' : SideInv F s' L')
    (hd : s.delCache = true) (hlog : SideOp.patrol.log s = .ok bs) (hstep : patrolSide s = .ok s')
    (hdone : s.ptr + bs.length = lbPolDivisor) : SweepEnds F s [] s' bs where
  run := sideRun_cons [] hstep
  pending := by
    intro p q t hpq hrun
    obtain ⟨rfl, -⟩ := List.append_eq_nil_iff.mp hpq.symm
    cases hrun
    exact hd
  cleared := (h.done hdone).2
  ticks := by
    have hlen : 0 < bs.length := List.length_pos_iff.mpr h.ne_nil
    change 1 ≤ _
    omega
  log := by
    have := @sweepLog_cons _ _ F _ _ _ _ [] _ hlog hstep rfl
    rwa [List.append_nil] at this
  order := by
    rw [h.passed.order]
    congr 1
    omega
  returned := by
    intro b e hb he
    rw [onQueue_iff hs.rep] at he
    refine ⟨[], [], s, s', rfl, rfl, hstep, (onQueue_iff hs.rep).mpr he, ?_⟩
    rw [onQueue_iff hs'.rep]
    exact h.passed.free b (h.mem b hb (by have := b.isLt; omega)) e he

/-- **A sweep ends**: as many ticks as there are buckets ahead of the cursor are enough. -/
theorem sideRun_sweep (ops : List (SideOp n)) : ∀ {s : PolSide n D} {L : CacheList → List CachePtr},
    SideInv F s L → s.delCache = true → s.ptr < lbPolDivisor → lbPolDivisor - s.ptr ≤ ticks ops →
      ∃ ops₁ ops₂ s' bs, ops = ops₁ ++ .patrol :: ops₂ ∧ SweepEnds F s ops₁ s' bs := by
  induction ops with
  | nil =>
    intro s L _ _ hp ht
    simp only [ticks, List.countP_nil] at ht
    omega
  | cons op ops ih =>
    intro s L hs hd hp ht
    cases op with
    | other =>
      obtain ⟨ops₁, ops₂, s', bs, rfl, hend⟩ := ih hs hd hp
        (by simpa [ticks, SideOp.isPatrol] using ht)
      exact ⟨.other :: ops₁, ops₂, s', _, rfl, hend.cons hd rfl rfl rfl rfl hp.le
        (by simp [SideOp.isPatrol]) fun b e hb he => Or.inl ⟨hb, he⟩⟩
    | getPol o tsc a =>
      obtain ⟨r, s₁, L₁, hget, hs₁, -, hlook⟩ := hs.looked o tsc a
      have hstep : (SideOp.getPol o tsc a).step F s = .ok s₁ := by
        rw [SideOp.step, hget]
        rfl
      obtain ⟨ops₁, ops₂, s', bs, rfl, hend⟩ := ih hs₁ (hlook.delCache hd) (by rwa [hlook.ptr])
        (by rw [hlook.ptr]; simpa [ticks, SideOp.isPatrol] using ht)
      refine ⟨.getPol o tsc a :: ops₁, ops₂, s', _, rfl, hend.cons hd hstep rfl rfl hlook.ptr hp.le
        (by simp [SideOp.isPatrol]) fun b e hb he => Or.inl ⟨by rwa [hlook.ptr], ?_⟩⟩
      rw [onQueue_iff hs₁.rep]
      exact hlook.hash_subset ((onQueue_iff hs.rep).mp he)
    | patrol =>
      obtain ⟨bs₀, s₁, L₁, hlog, hstep, hs₁, htick⟩ := patrolSide_ticked hs hd hp
      have hlen : 0 < bs₀.length := List.length_pos_iff.mpr htick.ne_nil
      have hle := htick.le
      by_cases hdone : s.ptr + bs₀.length = lbPolDivisor
      · -- the sweep ends with this tick
        exact ⟨[], ops, s₁, bs₀, rfl, htick.sweepEnds hs hs₁ hd hlog hstep hdone⟩
      · obtain ⟨hptr, hd₁⟩ := htick.more hdone
        obtain ⟨ops₁, ops₂, s', bs, rfl, hend⟩ := ih hs₁ hd₁ (by omega)
          (by
            simp only [ticks, List.countP_cons, SideOp.isPatrol, if_true] at ht
            unfold ticks
            omega)
        refine ⟨.patrol :: ops₁, ops₂, s', _, rfl, hend.cons hd hstep hlog htick.passed.order hptr
          hle (fun _ => htick.ne_nil) fun b e hb he => ?_⟩
        rw [onQueue_iff hs.rep] at he
        rw [onQueue_iff hs₁.rep, onQueue_iff hs₁.rep, htick.passed.hash]
        by_cases hb' : b ∈ bs₀
        · exact Or.inr ⟨rfl, htick.passed.free b hb' e he⟩
        · rw [if_neg hb']
          exact Or.inl ⟨by by_contra hlt; exact hb' (htick.mem b hb (by omega)), he⟩

/-! ## The cursor -/

/-- The cursor is at a bucket, and it is at the first one unless a sweep is under way. -/
structure CursorOk (s : PolSide n D) : Prop where
  lt : s.ptr < lbPolDivisor
  clear : s.delCache = false → s.ptr = 0

theorem CursorOk.looked {a : Fin n → Byte} {o : ℕ → MacOutcomes} {r : Option CachePtr}
    (hc : CursorOk s) (h : Looked F o a s L r s' L') : CursorOk s' := by
  refine ⟨h.ptr ▸ hc.lt, fun hd => ?_⟩
  rw [h.ptr]
  apply hc.clear
  by_contra hs
  rw [h.delCache (by simpa using hs)] at hd
  cases hd

theorem CursorOk.patrol (hc : CursorOk s) (hs : SideInv F s L) (h : patrolSide s = .ok s') :
    CursorOk s' := by
  cases hd : s.delCache with
  | false =>
    rw [patrolSide_idle hd] at h
    cases h
    exact hc
  | true =>
    obtain ⟨bs, s₁, L₁, -, hrun, -, htick⟩ := patrolSide_ticked hs hd hc.lt
    rw [hrun] at h
    cases h
    have hle := htick.le
    by_cases hdone : s.ptr + bs.length = lbPolDivisor
    · obtain ⟨hptr, -⟩ := htick.done hdone
      exact ⟨by rw [hptr]; decide, fun _ => hptr⟩
    · obtain ⟨hptr, hd'⟩ := htick.more hdone
      refine ⟨by omega, fun hf => ?_⟩
      rw [hd'] at hf
      cases hf

theorem getSvrTable_cursor {o : MacOutcomes} {addr : Fin n → Byte} {p : Ptr}
    (h : getSvrTable o addr s = .ok (p, s')) : s'.ptr = s.ptr ∧ s'.delCache = s.delCache := by
  obtain ⟨⟨q, s₁⟩, hfind, h⟩ := bind_eq_ok.mp h
  obtain ⟨v, -, h⟩ := bind_eq_ok.mp h
  have h₁ : s₁.ptr = s.ptr ∧ s₁.delCache = s.delCache := by
    obtain ⟨x, -, hfind⟩ := bind_eq_ok.mp hfind
    cases x with
    | none =>
      cases hfind
      exact ⟨rfl, rfl⟩
    | some q =>
      cases hfind
      exact ⟨rfl, rfl⟩
  split_ifs at h <;> cases h <;> exact h₁

theorem getPolicy_cursor {lines : List (PolicyLine n)} : ∀ {s : PolSide n D},
    getPolicy lines s = .ok s' → s'.ptr = s.ptr ∧ s'.delCache = s.delCache := by
  induction lines with
  | nil =>
    intro s h
    cases h
    exact ⟨rfl, rfl⟩
  | cons line lines ih =>
    intro s h
    rw [getPolicy, List.foldlM_cons] at h
    obtain ⟨s₂, hline, h⟩ := bind_eq_ok.mp h
    obtain ⟨⟨p, s₁⟩, hget, hline⟩ := bind_eq_ok.mp hline
    cases hline
    obtain ⟨hptr, hd⟩ := getSvrTable_cursor hget
    obtain ⟨hptr', hd'⟩ := ih h
    exact ⟨hptr'.trans hptr, hd'.trans hd⟩

theorem CursorOk.load {lines : List (PolicyLine n)} {s₁ : PolSide n D} (hc : CursorOk s)
    (h : getPolicy lines (initPolicyTable malloc (initSvrMngTable s₁)) = .ok s')
    (hptr : s₁.ptr = s.ptr) (hd : s₁.delCache = s.delCache) : CursorOk s' := by
  obtain ⟨c, q, heq⟩ := initPolicyTable_eq malloc (initSvrMngTable s₁)
  obtain ⟨hptr', hd'⟩ := getPolicy_cursor h
  rw [heq] at hptr' hd'
  have hp : s'.ptr = s.ptr := hptr'.trans hptr
  have hdel : s'.delCache = s.delCache := hd'.trans hd
  exact ⟨by rw [hp]; exact hc.lt, fun hf => by rw [hp]; exact hc.clear (hdel ▸ hf)⟩

end

/-! ## The translator -/

/-- A tick empties at most one bucket that is not empty, and leaves the others as they are. -/
def TickOk {n : ℕ} {D : Type} (s s' : PolSide n D) : Prop :=
  ∃ L L' : CacheList → List CachePtr, (∀ h, Links s.tq.next (s.tq.first h) (L h)) ∧
    (∀ h, Links s'.tq.next (s'.tq.first h) (L' h)) ∧
      ∃ b, (L' (.hash b) = L (.hash b) ∨
        L' (.hash b) = [] ∧ ∀ e ∈ L (.hash b), e ∈ L' .free) ∧
          ∀ c, c ≠ b → L' (.hash c) = L (.hash c)

theorem SideInv.tickOk {n : ℕ} {D : Type} {F : Family n D} {s s' : PolSide n D}
    {L : CacheList → List CachePtr} (hs : SideInv F s L) (hc : CursorOk s)
    (h : patrolSide s = .ok s') : TickOk s s' := by
  cases hd : s.delCache with
  | false =>
    rw [patrolSide_idle hd] at h
    cases h
    exact ⟨L, L, hs.rep.links, hs.rep.links, ⟨0, by decide⟩, Or.inl rfl, fun _ _ => rfl⟩
  | true =>
    obtain ⟨bs, s₁, L₁, -, hrun, hs₁, htick⟩ := patrolSide_ticked hs hd hc.lt
    rw [hrun] at h
    cases h
    refine ⟨L, L₁, hs.rep.links, hs₁.rep.links, bs.getLast htick.ne_nil, Or.inr ⟨?_, ?_⟩,
      fun c hne => ?_⟩
    · rw [htick.passed.hash, if_pos (List.getLast_mem _)]
    · exact htick.passed.free _ (List.getLast_mem _)
    · rw [htick.passed.hash]
      split_ifs with hmem
      · -- a bucket before the last one was empty
        refine (htick.passed.empty c ?_).symm
        rw [← List.dropLast_append_getLast htick.ne_nil] at hmem
        rcases List.mem_append.mp hmem with hmem | hmem
        · exact hmem
        · exact absurd (List.mem_singleton.mp hmem) hne
      · rfl

/-- The cursors of both families. -/
def FrontCursor (s : FrontState) : Prop := CursorOk s.lb4 ∧ CursorOk s.lb6

theorem FrontCursor.step {s s' : FrontState} (hc : FrontCursor s) (hs : FrontInv s) (op : FrontOp)
    (h : op.step s = .ok s') : FrontCursor s' := by
  obtain ⟨L4, h4⟩ := hs.side4
  obtain ⟨L6, h6⟩ := hs.side6
  cases op with
  | getPol4 o tsc a =>
    obtain ⟨r, lb, L', hget, -, -, hlook⟩ := h4.looked o tsc a
    rw [FrontOp.step, getPolV4, hget] at h
    cases h
    exact ⟨hc.1.looked hlook, hc.2⟩
  | getPol6 o tsc a =>
    obtain ⟨r, lb, L', hget, -, -, hlook⟩ := h6.looked o tsc a
    rw [FrontOp.step, getPolV6, hget] at h
    cases h
    exact ⟨hc.1, hc.2.looked hlook⟩
  | patrol =>
    obtain ⟨x, hx, h⟩ := bind_eq_ok.mp h
    cases h
    obtain ⟨hrun4, hrun6, -⟩ := procPatrol_sides hx
    exact ⟨hc.1.patrol h4 hrun4, hc.2.patrol h6 hrun6⟩
  | reload i m lines4 lines6 =>
    obtain ⟨lb4, hrun4, h⟩ := bind_eq_ok.mp h
    obtain ⟨lb6, hrun6, h⟩ := bind_eq_ok.mp h
    cases h
    exact ⟨hc.1.load hrun4 rfl rfl, hc.2.load hrun6 rfl rfl⟩

theorem frontInit_cursor {pool4 : Fin lbMaxCache → LbPolCache 4 (BitVec 16)}
    {pool6 : Fin lbMaxCache → LbPolCache 16 Unit} {i : Ifdata} {m : Bool}
    {lines4 : List (PolicyLine 4)} {lines6 : List (PolicyLine 16)} {s : FrontState}
    (h : frontInit pool4 pool6 i m lines4 lines6 bootState = .ok s) : FrontCursor s := by
  obtain ⟨lb4, hrun4, h⟩ := bind_eq_ok.mp h
  obtain ⟨lb6, hrun6, h⟩ := bind_eq_ok.mp h
  cases h
  have hboot : FrontCursor bootState :=
    ⟨⟨by decide, fun _ => rfl⟩, ⟨by decide, fun _ => rfl⟩⟩
  exact ⟨hboot.1.load hrun4 rfl rfl, hboot.2.load hrun6 rfl rfl⟩

/-- **What holds of a state holds after a run**, if every operation preserves it. -/
theorem run_preserves {P : FrontState → Prop}
    (hstep : ∀ {s s' : FrontState} (op : FrontOp), FrontInv s → P s → op.step s = .ok s' → P s')
    (ops : List FrontOp) : ∀ {s : FrontState} {files : List (PolicyLine 4) × List (PolicyLine 16)},
      FrontInv s → Loaded files.1 files.2 s → P s →
        ∃ s', s.run ops = .ok s' ∧ FrontInv s' ∧ (∃ f6 : _ × _, Loaded f6.1 f6.2 s') ∧ P s' := by
  induction ops with
  | nil => exact fun {s files} hs hl hp => ⟨s, rfl, hs, ⟨files, hl⟩, hp⟩
  | cons op ops ih =>
    intro s files hs hl hp
    obtain ⟨s₁, h₁, hs₁, hl₁⟩ := op.step_spec hs files hl
    obtain ⟨s', hrun, hs', hl', hp'⟩ := ih hs₁ hl₁ (hstep op hs hp h₁)
    refine ⟨s', ?_, hs', hl', hp'⟩
    rw [FrontState.run, List.foldlM_cons, h₁]
    exact hrun

theorem PacketOp.side4_eq_patrol {op : PacketOp} (h : op.side4 = .patrol) : op = .patrol := by
  cases op <;> first | rfl | cases h

theorem PacketOp.side6_eq_patrol {op : PacketOp} (h : op.side6 = .patrol) : op = .patrol := by
  cases op <;> first | rfl | cases h

theorem split_patrol {n : ℕ} {f : PacketOp → SideOp n}
    (hf : ∀ {op}, f op = .patrol → op = .patrol) {pops : List PacketOp}
    {ops₁ ops₂ : List (SideOp n)} (h : pops.map f = ops₁ ++ .patrol :: ops₂) :
    ∃ pops₁ pops₂, pops = pops₁ ++ .patrol :: pops₂ ∧ pops₁.map f = ops₁ := by
  obtain ⟨pops₁, rest, rfl, rfl, hrest⟩ := List.map_eq_append_iff.mp h
  obtain ⟨op, pops₂, rfl, hop, -⟩ := List.map_eq_cons_iff.mp hrest
  obtain rfl := hf hop
  exact ⟨pops₁, pops₂, rfl, rfl⟩

theorem eq_finRange {bs : List (Fin lbPolDivisor)} {k : ℕ} (hk : k = 0)
    (h : bs.map Fin.val = List.range' k (lbPolDivisor - k)) : bs = List.finRange lbPolDivisor := by
  subst hk
  apply List.map_injective_iff.mpr Fin.val_injective
  rw [h, Nat.sub_zero, List.map_coe_finRange_eq_range, List.range_eq_range']

theorem sweep_follows {n : ℕ} {D : Type} {F : Family n D} {L : CacheList → List CachePtr}
    (side : FrontState → PolSide n D) {f : PacketOp → SideOp n} (hf : f .patrol = .patrol)
    (hf' : ∀ {op}, f op = .patrol → op = .patrol) {s : FrontState}
    {files : List (PolicyLine 4) × List (PolicyLine 16)} (hs : FrontInv s)
    (hl : Loaded files.1 files.2 s) (hside : SideInv F (side s) L)
    (hd : (side s).delCache = true) (hptr : (side s).ptr = 0)
    (hrun : ∀ {pops : List PacketOp} {s'}, s.run (pops.map PacketOp.op) = .ok s' →
      sideRun F (side s) (pops.map f) = .ok (side s'))
    (pops : List PacketOp) (hticks : lbPolDivisor ≤ ticks (pops.map f)) :
    ∃ pops₁ pops₂ s₂, pops = pops₁ ++ .patrol :: pops₂ ∧
      s.run ((pops₁ ++ [.patrol]).map PacketOp.op) = .ok s₂ ∧
      SweepEnds F (side s) (pops₁.map f) (side s₂) (List.finRange lbPolDivisor) := by
  obtain ⟨ops₁, ops₂, lb, bs, hops, hend⟩ := sideRun_sweep (pops.map f) hside hd
    (by rw [hptr]; decide) (by rw [hptr]; exact hticks)
  obtain ⟨pops₁, pops₂, rfl, rfl⟩ := split_patrol hf' hops
  obtain ⟨s₂, hrun₂, -⟩ := run_spec ((pops₁ ++ [PacketOp.patrol]).map PacketOp.op) hs hl
  have hlb := hrun hrun₂
  rw [List.map_append, List.map_singleton, hf] at hlb
  obtain rfl := Except.ok.inj (hend.run.symm.trans hlb)
  rw [eq_finRange hptr hend.order] at hend
  exact ⟨pops₁, pops₂, s₂, rfl, hrun₂, hend⟩

/-- **The sweep is complete and ends**: in every reachable state, for either family, a lookup that
starts a sweep is followed, after at most as many ticks as there are buckets, by a tick that ends
it; by then every bucket has been emptied once, in index order, whatever is looked up meanwhile. -/
theorem sweep_complete (pool4 : Fin lbMaxCache → LbPolCache 4 (BitVec 16))
    (pool6 : Fin lbMaxCache → LbPolCache 16 Unit) (i : Ifdata) (m : Bool)
    (lines4 : List (PolicyLine 4)) (lines6 : List (PolicyLine 16)) (ops : List FrontOp) :
    ∃ s₀ s, frontInit pool4 pool6 i m lines4 lines6 bootState = .ok s₀ ∧ s₀.run ops = .ok s ∧
      (s.lb4.delCache = false → s.lb4.ptr = 0) ∧ (s.lb6.delCache = false → s.lb6.ptr = 0) ∧
      (∃ tv s', procPatrol s = .ok (tv, s') ∧
        patrolSide s.lb4 = .ok s'.lb4 ∧ patrolSide s.lb6 = .ok s'.lb6 ∧
        (s.lb4.delCache = false → s'.lb4 = s.lb4) ∧ (s.lb6.delCache = false → s'.lb6 = s.lb6) ∧
        TickOk s.lb4 s'.lb4 ∧ TickOk s.lb6 s'.lb6) ∧
      (∀ o tsc a r s₁, getPolV4 o tsc a s = .ok (r, s₁) → s.lb4.delCache = false →
        s₁.lb4.delCache = true → s₁.lb4.ptr = 0 ∧ s₁.lb6 = s.lb6 ∧ ∀ pops : List PacketOp,
          lbPolDivisor ≤ ticks (pops.map PacketOp.side4) →
            ∃ pops₁ pops₂ s₂, pops = pops₁ ++ .patrol :: pops₂ ∧
              s₁.run ((pops₁ ++ [.patrol]).map PacketOp.op) = .ok s₂ ∧
              SweepEnds (family4 s.ifIngress.vip4) s₁.lb4 (pops₁.map PacketOp.side4) s₂.lb4
                (List.finRange lbPolDivisor)) ∧
      ∀ o tsc a r s₁, getPolV6 o tsc a s = .ok (r, s₁) → s.lb6.delCache = false →
        s₁.lb6.delCache = true → s₁.lb6.ptr = 0 ∧ s₁.lb4 = s.lb4 ∧ ∀ pops : List PacketOp,
          lbPolDivisor ≤ ticks (pops.map PacketOp.side6) →
            ∃ pops₁ pops₂ s₂, pops = pops₁ ++ .patrol :: pops₂ ∧
              s₁.run ((pops₁ ++ [.patrol]).map PacketOp.op) = .ok s₂ ∧
              SweepEnds family6 s₁.lb6 (pops₁.map PacketOp.side6) s₂.lb6
                (List.finRange lbPolDivisor) := by
  obtain ⟨s₀, hinit, hs₀, hl₀⟩ := frontInit_spec pool4 pool6 i m lines4 lines6 bootState
  obtain ⟨s, hrun, hs, ⟨files, hl⟩, hc⟩ := run_preserves (P := FrontCursor)
    (fun op hs hc h => hc.step hs op h) ops hs₀
    (show Loaded (lines4, lines6).1 (lines4, lines6).2 s₀ from hl₀) (frontInit_cursor hinit)
  obtain ⟨L4, h4⟩ := hs.side4
  obtain ⟨L6, h6⟩ := hs.side6
  refine ⟨s₀, s, hinit, hrun, hc.1.clear, hc.2.clear, ?_, ?_, ?_⟩
  · obtain ⟨tv, s', hp, -⟩ := procPatrol_spec hs
    obtain ⟨hp4, hp6, -⟩ := procPatrol_sides hp
    refine ⟨tv, s', hp, hp4, hp6, fun hd => ?_, fun hd => ?_, h4.tickOk hc.1 hp4,
      h6.tickOk hc.2 hp6⟩
    · rw [patrolSide_idle hd, Except.ok.injEq] at hp4
      exact hp4.symm
    · rw [patrolSide_idle hd, Except.ok.injEq] at hp6
      exact hp6.symm
  · intro o tsc a r s₁ hget hclear hset
    obtain ⟨r', lb, L', hget', hlb, -, hlook⟩ := h4.looked o tsc a
    rw [getPolV4, hget'] at hget
    cases hget
    have hptr : lb.ptr = 0 := hlook.ptr.trans (hc.1.clear hclear)
    obtain ⟨s₁, hstep, hs₁, hl₁⟩ := (FrontOp.getPol4 o tsc a).step_spec hs files hl
    rw [FrontOp.step, getPolV4, hget'] at hstep
    cases hstep
    exact ⟨hptr, rfl, sweep_follows FrontState.lb4 rfl PacketOp.side4_eq_patrol hs₁ hl₁ hlb hset
      hptr fun hrun => (run_sides _ hrun).1⟩
  · intro o tsc a r s₁ hget hclear hset
    obtain ⟨r', lb, L', hget', hlb, -, hlook⟩ := h6.looked o tsc a
    rw [getPolV6, hget'] at hget
    cases hget
    have hptr : lb.ptr = 0 := hlook.ptr.trans (hc.2.clear hclear)
    obtain ⟨s₁, hstep, hs₁, hl₁⟩ := (FrontOp.getPol6 o tsc a).step_spec hs files hl
    rw [FrontOp.step, getPolV6, hget'] at hstep
    cases hstep
    exact ⟨hptr, rfl, sweep_follows FrontState.lb6 rfl PacketOp.side6_eq_patrol hs₁ hl₁ hlb hset
      hptr fun hrun => (run_sides _ hrun).2.1⟩

end Sasat
