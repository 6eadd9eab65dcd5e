import Sasat.Front.Effect
import Sasat.Front.Front

/-!
# The two address families side by side

Between two loads the packet thread looks addresses up and ticks. Each of the two families then goes
through a run of its own.

* `bootState`: the static memory when the translator starts.
* `OnQueue`: an entry is on the free list or in a bucket, as the links say.
* `PacketOp`, `SideOp`: the operations of the packet thread, and what they are to one family.
* **`run_sides`**: a run of the packet thread is a run of either family.
-/

namespace Sasat

open Intrusive

/-- The static memory of the translator when it starts. -/
def bootState : FrontState where
  lb4 := emptySide 4 (BitVec 16) 0
  lb6 := emptySide 16 Unit ()
  ifIngress := ⟨0, 0, false, false, 0, 0, 0, 0, 0⟩
  vipMode := false
  vip4 := 0
  vip6 := 0
  io := ⟨fun _ => 0, []⟩

section

variable {n : ℕ} {D : Type} {F : Family n D} {s s' : PolSide n D} {L L' : CacheList → List CachePtr}
  {a : Fin n → Byte} {o : ℕ → MacOutcomes} {e : CachePtr} {r : Option CachePtr} {h : CacheList}

/-- The entry `e` is on the queue `h`. -/
def OnQueue (s : PolSide n D) (h : CacheList) (e : CachePtr) : Prop :=
  ∃ l, Links s.tq.next (s.tq.first h) l ∧ e ∈ l

theorem onQueue_iff (hs : Rep s.tq L) : OnQueue s h e ↔ e ∈ L h := by
  constructor
  · rintro ⟨l, hl, he⟩
    rwa [(hs.links h).unique hl]
  · intro he
    exact ⟨L h, hs.links h, he⟩

/-! ## What a lookup leaves alone -/

namespace Looked

theorem ptr (h : Looked F o a s L r s' L') : s'.ptr = s.ptr := by
  cases h with
  | hit => rfl
  | none => rfl
  | unresolved => rfl
  | fill _ h =>
    obtain ⟨c, q, d, rfl⟩ := h.heaps
    rfl

theorem serverNum (h : Looked F o a s L r s' L') : s'.serverNum = s.serverNum := by
  cases h with
  | hit => rfl
  | none => rfl
  | unresolved => rfl
  | fill _ h =>
    obtain ⟨c, q, d, rfl⟩ := h.heaps
    rfl

theorem delCache (h : Looked F o a s L r s' L') (hd : s.delCache = true) : s'.delCache = true := by
  cases h with
  | hit => exact hd
  | none => exact hd
  | unresolved => exact hd
  | fill _ h =>
    rcases h.queue with ⟨-, -, -, hd'⟩ | ⟨l, -, hd', -⟩
    · exact hd'
    · exact hd'.trans hd

/-- **A lookup takes no entry out of a bucket.** -/
theorem hash_subset (h : Looked F o a s L r s' L') {b : Fin lbPolDivisor} (he : e ∈ L (.hash b)) :
    e ∈ L' (.hash b) := by
  cases h with
  | hit => exact he
  | none => exact he
  | unresolved => exact he
  | fill _ h =>
    rcases h.queue with ⟨-, -, rfl, -⟩ | ⟨l, -, -, rfl⟩
    · exact he
    · by_cases hb : b = F.hash a
      · subst hb
        rw [Function.update_self]
        exact List.mem_cons_of_mem _ he
      · rwa [Function.update_of_ne (by simpa using hb), Function.update_of_ne (by simp)]

theorem cache (hs : PoolInv F s L) (h : Looked F o a s L r s' L') {b : Fin lbPolDivisor}
    (he : e ∈ L (.hash b)) : ∃ k, s'.cache e = { s.cache e with hit := k } := by
  cases h with
  | @hit e' he' _ =>
    by_cases hee : e = e'
    · subst hee
      refine ⟨(s.cache e).hit + 1, ?_⟩
      rw [countHit_cache, PolSide.modCache_self]
    · refine ⟨(s.cache e).hit, ?_⟩
      rw [countHit_cache, PolSide.modCache_of_ne hee]
  | none => exact ⟨_, rfl⟩
  | unresolved => exact ⟨_, rfl⟩
  | @fill _ _ _ _ e' _ _ _ _ h =>
    refine ⟨_, h.other e fun hee => ?_⟩
    subst hee
    rcases h.queue with ⟨-, rfl, -, -⟩ | ⟨l, hl, -, -⟩
    · exact hs.fix _ he
    · have hfree : e ∈ L .free := hl ▸ List.mem_cons_self
      exact absurd (hs.rep.disj hfree he) (by simp)

end Looked

/-! ## Runs -/

/-- What an operation of the packet thread is to one family. -/
inductive SideOp (n : ℕ)
  /-- A lookup of the other family. -/
  | other
  | getPol (o : ℕ → MacOutcomes) (tsc : BitVec 64) (saddr : Fin n → Byte)
  | patrol

def SideOp.step (F : Family n D) (s : PolSide n D) : SideOp n → M (PolSide n D)
  | .other => .ok s
  | .getPol o tsc a => do
    let (_, s) ← Sasat.getPol F o tsc a s
    .ok s
  | .patrol => patrolSide s

/-- A sequence of operations on one family. -/
def sideRun (F : Family n D) (s : PolSide n D) (ops : List (SideOp n)) : M (PolSide n D) :=
  ops.foldlM (SideOp.step F) s

theorem sideRun_cons {op : SideOp n} (ops : List (SideOp n)) (h : op.step F s = .ok s') :
    sideRun F s (op :: ops) = sideRun F s' ops := by
  rw [sideRun, List.foldlM_cons, h]
  rfl

end

/-- What the packet thread does with the tables. -/
inductive PacketOp
  | getPol4 (o : ℕ → MacOutcomes) (tsc : BitVec 64) (saddr : InAddr)
  | getPol6 (o : ℕ → MacOutcomes) (tsc : BitVec 64) (saddr : In6Addr)
  | patrol

namespace PacketOp

def op : PacketOp → FrontOp
  | .getPol4 o tsc a => .getPol4 o tsc a
  | .getPol6 o tsc a => .getPol6 o tsc a
  | .patrol => .patrol

def side4 : PacketOp → SideOp 4
  | .getPol4 o tsc a => .getPol o tsc a
  | .getPol6 _ _ _ => .other
  | .patrol => .patrol

def side6 : PacketOp → SideOp 16
  | .getPol4 _ _ _ => .other
  | .getPol6 o tsc a => .getPol o tsc a
  | .patrol => .patrol

end PacketOp

variable {s s' : FrontState}

theorem patrolSide_idle {n : ℕ} {D : Type} {s : PolSide n D} (h : s.delCache = false) :
    patrolSide s = .ok s := by
  rw [patrolSide, h]
  rfl

theorem patrolSide_eq {n : ℕ} {D : Type} {F : Family n D} {s s' : PolSide n D}
    {L : CacheList → List CachePtr} (hs : SideInv F s L) (h : patrolSide s = .ok s') :
    ∃ c q p d, s' = { s with cache := c, tq := q, ptr := p, delCache := d } := by
  unfold patrolSide at h
  split_ifs at h
  · obtain ⟨k, s₁, L₁, hrun, hswept, -⟩ := clearLoop_spec (lbPolDivisor - s.ptr) hs
    unfold clearCache at h
    rw [hrun] at h
    simp only [bind, Except.bind] at h
    rw [hswept] at h
    split_ifs at h <;> cases h <;> exact ⟨_, _, _, _, rfl⟩
  · cases h
    exact ⟨_, _, _, _, rfl⟩

section

variable {n : ℕ} {D : Type}

/-- Entries that differ in their status only. -/
def SameEntries (s s' : PolSide n D) : Prop := ∀ e, ∃ t, s'.cache e = { s.cache e with lbStat := t }

theorem SameEntries.refl (s : PolSide n D) : SameEntries s s := fun _ => ⟨_, rfl⟩

theorem SameEntries.trans {s s' s'' : PolSide n D} (h : SameEntries s s')
    (h' : SameEntries s' s'') :
    SameEntries s s'' := by
  intro e
  obtain ⟨t, ht⟩ := h e
  obtain ⟨t', ht'⟩ := h' e
  refine ⟨t', ?_⟩
  rw [ht', ht]

theorem freePolCache_entries (e : CachePtr) (s : PolSide n D) :
    SameEntries s (freePolCache e s) := by
  intro e'
  by_cases he : e' = e
  · subst he
    exact ⟨.init, Function.update_self _ _ _⟩
  · exact ⟨(s.cache e').lbStat, Function.update_of_ne he _ _⟩

theorem clearBucket_entries {b : Fin lbPolDivisor} {k : ℕ} : ∀ {e : Option CachePtr} {i j : ℕ}
    {s s' : PolSide n D}, clearBucket b k e i s = .ok (j, s') → SameEntries s s' := by
  induction k with
  | zero =>
    intro e i j s s' h
    cases h
  | succ k ih =>
    intro e i j s s' h
    cases e with
    | none =>
      cases h
      exact .refl s
    | some e => exact (freePolCache_entries e { s with tq := s.tq.remove (.hash b) e }).trans (ih h)

theorem clearLoop_entries {k : ℕ} : ∀ {j : ℕ} {s s' : PolSide n D},
    clearLoop k s = .ok (j, s') → SameEntries s s' := by
  induction k with
  | zero =>
    intro j s s' h
    cases h
    exact .refl s
  | succ k ih =>
    intro j s s' h
    obtain ⟨⟨i, s₁⟩, hbucket, h⟩ := bind_eq_ok.mp h
    have h₁ := clearBucket_entries hbucket
    dsimp only at h
    split_ifs at h
    · exact h₁.trans (ih h)
    · cases h
      exact h₁

/-- **A tick changes nothing but the status of an entry.** -/
theorem patrolSide_entries {s s' : PolSide n D} (h : patrolSide s = .ok s') : SameEntries s s' := by
  unfold patrolSide at h
  split_ifs at h
  · obtain ⟨⟨p, s₁⟩, hclear, h⟩ := bind_eq_ok.mp h
    obtain ⟨⟨k, s₂⟩, hloop, hclear⟩ := bind_eq_ok.mp hclear
    cases hclear
    have h₂ := clearLoop_entries hloop
    dsimp only at h
    split_ifs at h <;> cases h <;> exact h₂
  · cases h
    exact .refl s

end

theorem procPatrol_sides {tv : ℕ} (h : procPatrol s = .ok (tv, s')) :
    patrolSide s.lb4 = .ok s'.lb4 ∧ patrolSide s.lb6 = .ok s'.lb6 ∧ s'.ifIngress = s.ifIngress := by
  unfold procPatrol at h
  split_ifs at h with hd
  · obtain ⟨lb4, h4, h⟩ := bind_eq_ok.mp h
    obtain ⟨lb6, h6, h⟩ := bind_eq_ok.mp h
    cases h
    exact ⟨h4, h6, rfl⟩
  · cases h
    rw [Bool.or_eq_true, not_or, Bool.not_eq_true, Bool.not_eq_true] at hd
    exact ⟨patrolSide_idle hd.1, patrolSide_idle hd.2, rfl⟩

theorem PacketOp.step_sides {op : PacketOp} (h : op.op.step s = .ok s') :
    op.side4.step (family4 s.ifIngress.vip4) s.lb4 = .ok s'.lb4 ∧
      op.side6.step family6 s.lb6 = .ok s'.lb6 ∧ s'.ifIngress = s.ifIngress := by
  cases op with
  | getPol4 o tsc a =>
    obtain ⟨x, hx, h⟩ := bind_eq_ok.mp h
    obtain ⟨y, hy, hx⟩ := bind_eq_ok.mp hx
    cases hx
    cases h
    refine ⟨?_, rfl, rfl⟩
    rw [side4, SideOp.step, hy]
    rfl
  | getPol6 o tsc a =>
    obtain ⟨x, hx, h⟩ := bind_eq_ok.mp h
    obtain ⟨y, hy, hx⟩ := bind_eq_ok.mp hx
    cases hx
    cases h
    refine ⟨rfl, ?_, rfl⟩
    rw [side6, SideOp.step, hy]
    rfl
  | patrol =>
    obtain ⟨x, hx, h⟩ := bind_eq_ok.mp h
    cases h
    exact procPatrol_sides hx

/-- **A run of the packet thread is a run of either family.** -/
theorem run_sides (ops : List PacketOp) : ∀ {s s' : FrontState},
    s.run (ops.map PacketOp.op) = .ok s' →
      sideRun (family4 s.ifIngress.vip4) s.lb4 (ops.map PacketOp.side4) = .ok s'.lb4 ∧
        sideRun family6 s.lb6 (ops.map PacketOp.side6) = .ok s'.lb6 ∧
          s'.ifIngress = s.ifIngress := by
  induction ops with
  | nil =>
    intro s s' h
    cases h
    exact ⟨rfl, rfl, rfl⟩
  | cons op ops ih =>
    intro s s' h
    rw [List.map_cons, FrontState.run, List.foldlM_cons] at h
    obtain ⟨s₁, h₁, h⟩ := bind_eq_ok.mp h
    obtain ⟨h4, h6, hi⟩ := PacketOp.step_sides h₁
    obtain ⟨ih4, ih6, ihi⟩ := ih h
    rw [hi] at ih4
    refine ⟨?_, ?_, ihi.trans hi⟩
    · rw [List.map_cons, sideRun_cons _ h4]
      exact ih4
    · rw [List.map_cons, sideRun_cons _ h6]
      exact ih6

end Sasat
