import Sasat.Front.Dispatch

/-!
# What a lookup does to the tables

* `policyLookup_none`, `policyLookup_some`: the result of the search, as an equation.
* `Fill`: a lookup that fills an entry; `Looked`: the four ways in which a lookup can go.
* **`SideInv.looked`**: a lookup returns in one of these ways and keeps the invariant.
-/

namespace Intrusive

variable {H ι : Type} {q : TailqHeap H ι} {L L' : H → List ι}

theorem Rep.unique (h : Rep q L) (h' : Rep q L') : L = L' := by
  funext k
  exact (h.links k).unique (h'.links k)

end Intrusive

namespace Sasat

open Intrusive

section

variable {n : ℕ} {D : Type} {F : Family n D} {s s' : PolSide n D} {L L' : CacheList → List CachePtr}
  {a : Fin n → Byte} {o : ℕ → MacOutcomes} {tsc : BitVec 64} {p q : Ptr} {f : LbPol n}
  {v w : ServerTbl n} {e : CachePtr} {r : Option CachePtr}

theorem poke_poke {α : Type} (heap : Ptr → Option α) (p : Ptr) (f g : α → α) :
    poke (poke heap p f) p g = poke heap p (g ∘ f) := by
  unfold poke
  rw [Function.update_idem, Function.update_self, Option.map_map]

theorem trySvr_hit (o : ℕ → MacOutcomes) : ∀ (k : ℕ) (v : ServerTbl n),
    (trySvr o k v).2.hit = v.hit
  | 0, _ => rfl
  | k + 1, v => by
    rw [trySvr]
    split_ifs
    · rfl
    · rw [trySvr_hit o k, (resolveTargetMac_spec (o k) v).2.1]

/-! ## The search -/

theorem policyLookup_none {ps : List Ptr} (hps : ∀ p ∈ ps, ∃ f, s.pols p = some f)
    (h : ps.find? (matchPol s a) = none) : policyLookup o a s ps = .ok (none, s) := by
  induction ps with
  | nil => rfl
  | cons p ps ih =>
    obtain ⟨f, hf⟩ := hps p List.mem_cons_self
    rw [List.find?_cons, matchPol_eq hf] at h
    split at h
    · cases h
    · rename_i hm
      rw [policyLookup, deref_eq hf]
      simp only [bind, Except.bind]
      rw [if_neg (of_decide_eq_false hm)]
      exact ih (fun q hq => hps q (List.mem_cons_of_mem _ hq)) h

theorem policyLookup_some {ps : List Ptr} (hps : ∀ p ∈ ps, ∃ f, s.pols p = some f)
    (h : ps.find? (matchPol s a) = some p) (hf : s.pols p = some f)
    (hv : s.svrs f.svr = some v) : policyLookup o a s ps =
      .ok (if (trySvr o 4 v).1 then some p else none,
        s.modSvr f.svr fun _ => (trySvr o 4 v).2) := by
  induction ps with
  | nil => cases h
  | cons p' ps ih =>
    obtain ⟨f', hf'⟩ := hps p' List.mem_cons_self
    rw [List.find?_cons, matchPol_eq hf'] at h
    rw [policyLookup, deref_eq hf']
    simp only [bind, Except.bind]
    split at h
    · rename_i hm
      obtain rfl := Option.some.inj h
      obtain rfl := Option.some.inj (hf'.symm.trans hf)
      rw [if_pos (of_decide_eq_true hm), deref_eq hv]
    · rename_i hm
      rw [if_neg (of_decide_eq_false hm)]
      exact ih (fun q hq => hps q (List.mem_cons_of_mem _ hq)) h

/-! ## Filling an entry -/

theorem fillEntry_heaps (F : Family n D) (tsc : BitVec 64) (a : Fin n → Byte) (p : Ptr)
    (f : LbPol n) (w : ServerTbl n) (e : CachePtr) (s : PolSide n D) :
    ∃ c q, (fillEntry F tsc a p f w e s).2 = { countHit p f.svr s with cache := c, tq := q } := by
  unfold fillEntry
  dsimp only
  split_ifs <;> exact ⟨_, _, rfl⟩

theorem fillEntry_cache (F : Family n D) (tsc : BitVec 64) (a : Fin n → Byte) (p : Ptr)
    (f : LbPol n) (w : ServerTbl n) (e : CachePtr) (s : PolSide n D) :
    ∃ t, (fillEntry F tsc a p f w e s).2.cache e =
      if w.status = .drop then
        { fillCache p f w a (s.cache e) with timestamp := t, op := none }
      else
        { fillCache p f w a (s.cache e) with
          timestamp := t, chksumDelta := F.delta w.svrIp, op := some e } := by
  have hstat : ∀ c : LbPolCache n D, (fillCache p f w a c).lbStat = w.status := fun _ => rfl
  unfold fillEntry
  dsimp only
  split_ifs <;> simp_all [hashEntry, PolSide.modCache, fillCache]

/-- A lookup for `a` fills the entry `e` with the policy `p` and its server `w`. -/
structure Fill (F : Family n D) (o : ℕ → MacOutcomes) (a : Fin n → Byte) (s : PolSide n D)
    (L : CacheList → List CachePtr) (p : Ptr) (f : LbPol n) (v w : ServerTbl n) (e : CachePtr)
    (r : Option CachePtr) (s' : PolSide n D) (L' : CacheList → List CachePtr) : Prop where
  first : firstMatch s a = some p
  pol : s.pols p = some f
  svr : s.svrs f.svr = some v
  resolved : trySvr o 4 v = (true, w)
  heaps : ∃ c q d, s' = { countHit p f.svr ((s.modSvr f.svr fun _ => w).modPol p fun f =>
    { f with useCount := f.useCount + 1 }) with cache := c, tq := q, delCache := d }
  other : ∀ e', e' ≠ e → s'.cache e' = s.cache e'
  entry : ∃ t k, s'.cache e =
    if w.status = .drop then
      { fillCache p f w a (s.cache e) with hit := k, timestamp := t, op := none }
    else
      { fillCache p f w a (s.cache e) with
        hit := k, timestamp := t, chksumDelta := F.delta w.svrIp, op := some e }
  result : r = if w.status = .drop then none else some e
  queue : (L .free = [] ∧ e = .fix ∧ L' = L ∧ s'.delCache = true) ∨
    ∃ l, L .free = e :: l ∧ s'.delCache = s.delCache ∧
      L' = Function.update (Function.update L .free l) (.hash (F.hash a))
        (e :: L (.hash (F.hash a)))

theorem Fill.pols {s' : PolSide n D} (h : Fill F o a s L p f v w e r s' L') :
    s'.pols = poke s.pols p
      fun f => { f with useCount := f.useCount + 1, hitCount := f.hitCount + 1 } := by
  obtain ⟨c, q, d, rfl⟩ := h.heaps
  exact poke_poke s.pols p _ _

theorem Fill.svrAfter {s' : PolSide n D} (h : Fill F o a s L p f v w e r s' L') :
    s'.svrs f.svr = some { w with hit := w.hit + 1 } := by
  obtain ⟨c, q, d, rfl⟩ := h.heaps
  exact poke_self (poke_self h.svr)

theorem Fill.data {s' : PolSide n D} (h : Fill F o a s L p f v w e r s' L') :
    (s'.cache e).lbSrcIp = a ∧ (s'.cache e).polHit = p ∧ (s'.cache e).lbDstIp = w.svrIp ∧
      (s'.cache e).lbDstMac = w.dstMac := by
  obtain ⟨t, k, hentry⟩ := h.entry
  rw [hentry]
  split_ifs <;> exact ⟨rfl, rfl, rfl, rfl⟩

/-- The ways in which a lookup for `a` can go: the queues `L'` that it leaves. -/
inductive Looked (F : Family n D) (o : ℕ → MacOutcomes) (a : Fin n → Byte) (s : PolSide n D)
    (L : CacheList → List CachePtr) :
    Option CachePtr → PolSide n D → (CacheList → List CachePtr) → Prop
  /-- An entry of the bucket answers. -/
  | hit {e : CachePtr} (he : e ∈ L (.hash (F.hash a))) (ha : (s.cache e).lbSrcIp = a) :
      Looked F o a s L (s.cache e).op
        (countHit (s.cache e).polHit (s.cache e).svrHit
          (s.modCache e fun c => { c with hit := c.hit + 1 })) L
  /-- No policy matches. -/
  | none (hmiss : ∀ f ∈ L (.hash (F.hash a)), (s.cache f).lbSrcIp ≠ a)
      (hfirst : firstMatch s a = .none) : Looked F o a s L .none s L
  /-- The server of the policy stays unresolved. -/
  | unresolved {p : Ptr} {f : LbPol n} {v : ServerTbl n}
      (hmiss : ∀ f ∈ L (.hash (F.hash a)), (s.cache f).lbSrcIp ≠ a)
      (hfirst : firstMatch s a = some p) (hpol : s.pols p = some f)
      (hsvr : s.svrs f.svr = some v) (htry : (trySvr o 4 v).1 = false) :
      Looked F o a s L .none (s.modSvr f.svr fun _ => (trySvr o 4 v).2) L
  /-- An entry is filled. -/
  | fill {p : Ptr} {f : LbPol n} {v w : ServerTbl n} {e : CachePtr} {r : Option CachePtr}
      {s' : PolSide n D} {L' : CacheList → List CachePtr}
      (hmiss : ∀ f ∈ L (.hash (F.hash a)), (s.cache f).lbSrcIp ≠ a)
      (h : Fill F o a s L p f v w e r s' L') : Looked F o a s L r s' L'

theorem fillEntry_result (F : Family n D) (tsc : BitVec 64) (a : Fin n → Byte) (p : Ptr)
    (f : LbPol n) (w : ServerTbl n) (e : CachePtr) (s : PolSide n D) :
    (fillEntry F tsc a p f w e s).1 = if w.status = .drop then none else some e := by
  have h := (fillEntry_spec F tsc a p f w e s).result
  split_ifs at h ⊢
  · exact h.1
  · exact h.1

theorem fillEntry_fill {s₂ : PolSide n D} {L' : CacheList → List CachePtr} {e : CachePtr}
    (hfirst : firstMatch s a = some p) (hpol : s.pols p = some f) (hsvr : s.svrs f.svr = some v)
    (htry : trySvr o 4 v = (true, w))
    (hheaps : ∃ c q d, s₂ = { (s.modSvr f.svr fun _ => w).modPol p fun f =>
      { f with useCount := f.useCount + 1 } with cache := c, tq := q, delCache := d })
    (hother : ∀ e', e' ≠ e → s₂.cache e' = s.cache e')
    (hentry : ∃ k, s₂.cache e = { s.cache e with hit := k })
    (hqueue : (L .free = [] ∧ e = .fix ∧ L' = L ∧ s₂.delCache = true) ∨
      ∃ l, L .free = e :: l ∧ s₂.delCache = s.delCache ∧
        L' = Function.update (Function.update L .free l) (.hash (F.hash a))
          (e :: L (.hash (F.hash a)))) :
    Fill F o a s L p f v w e (fillEntry F tsc a p f w e s₂).1 (fillEntry F tsc a p f w e s₂).2
      L' := by
  have hfill := fillEntry_spec F tsc a p f w e s₂
  obtain ⟨c, q, heq⟩ := fillEntry_heaps F tsc a p f w e s₂
  refine ⟨hfirst, hpol, hsvr, htry, ?_, ?_, ?_, fillEntry_result F tsc a p f w e s₂, ?_⟩
  · obtain ⟨c₂, q₂, d, rfl⟩ := hheaps
    exact ⟨c, q, d, heq⟩
  · intro e' he'
    rw [hfill.other e' he', hother e' he']
  · obtain ⟨k, hk⟩ := hentry
    obtain ⟨t, ht⟩ := fillEntry_cache F tsc a p f w e s₂
    refine ⟨t, k + 1, ?_⟩
    rw [ht, hk]
    rfl
  · have hdel : (fillEntry F tsc a p f w e s₂).2.delCache = s₂.delCache := by
      rw [heq]
      rfl
    rwa [hdel]

theorem getPolSlow_fill (hs : SideInv F s L) (hfirst : firstMatch s a = some p)
    (hpol : s.pols p = some f) (hsvr : s.svrs f.svr = some v) (htry : trySvr o 4 v = (true, w)) :
    ∃ e r s' L', getPolSlow F o tsc a s = .ok (r, s') ∧ Rep s'.tq L' ∧
      Fill F o a s L p f v w e r s' L' := by
  obtain ⟨s₁, hs₁⟩ : ∃ s₁, s₁ = (s.modSvr f.svr fun _ => w).modPol p
    fun f => { f with useCount := f.useCount + 1 } := ⟨_, rfl⟩
  have hcache : s₁.cache = s.cache := by rw [hs₁]; rfl
  have htq : s₁.tq = s.tq := by rw [hs₁]; rfl
  have hdel : s₁.delCache = s.delCache := by rw [hs₁]; rfl
  have hnil (hl : L .free = []) :
      getFreePolCache s₁ = (.fix, { s₁ with delCache := true }) := by
    rw [getFreePolCache, htq, hs.rep.first_eq .free, hl]
    rfl
  have hcons {e : CachePtr} {l : List CachePtr} (hl : L .free = e :: l) : getFreePolCache s₁ =
      (e, { s₁.modCache e fun c => { c with hit := 0 } with tq := s₁.tq.remove .free e }) := by
    rw [getFreePolCache, htq, hs.rep.first_eq .free, hl]
    rfl
  have hslow : getPolSlow F o tsc a s =
      .ok (fillEntry F tsc a p f w (getFreePolCache s₁).1 (getFreePolCache s₁).2) := by
    unfold getPolSlow
    rw [policyLookup_some (fun q hq => (hs.live.pol q hq).2.imp fun _ h => h.1) hfirst hpol hsvr,
      htry]
    simp only [bind, Except.bind, if_true]
    rw [deref_eq (show (s.modSvr f.svr fun _ => w).pols p = some f from hpol)]
    dsimp only
    rw [deref_eq (show (s.modSvr f.svr fun _ => w).svrs f.svr = some w from poke_self hsvr)]
    subst hs₁
    rfl
  rw [hslow]
  cases hl : L .free with
  | nil =>
    rw [hnil hl]
    dsimp only
    obtain ⟨s₂, hs₂⟩ : ∃ s₂, s₂ = ({ s₁ with delCache := true } : PolSide n D) := ⟨_, rfl⟩
    have hcache₂ : s₂.cache = s.cache := by rw [hs₂, ← hcache]
    have htq₂ : s₂.tq = s.tq := by rw [hs₂, ← htq]
    rw [← hs₂]
    refine ⟨.fix, (fillEntry F tsc a p f w .fix s₂).1, (fillEntry F tsc a p f w .fix s₂).2, L, rfl,
      ?_, fillEntry_fill hfirst hpol hsvr htry ?_ ?_ ?_ ?_⟩
    · rw [(fillEntry_spec F tsc a p f w .fix s₂).tq, if_neg (by rw [hcache₂]; exact hs.typeFix),
        htq₂]
      exact hs.rep
    · rw [hs₂, hs₁]
      exact ⟨_, _, true, rfl⟩
    · exact fun e' _ => congrFun hcache₂ e'
    · exact ⟨_, congrFun hcache₂ .fix⟩
    · exact Or.inl ⟨hl, rfl, rfl, by rw [hs₂]⟩
  | cons e l =>
    rw [hcons hl]
    dsimp only
    obtain ⟨s₂, hs₂⟩ : ∃ s₂, s₂ = ({ s₁.modCache e fun c => { c with hit := 0 } with
      tq := s₁.tq.remove .free e } : PolSide n D) := ⟨_, rfl⟩
    rw [← hs₂]
    obtain ⟨i, rfl⟩ := hs.exists_init (h := .free) (hl ▸ List.mem_cons_self)
    have hcache₂ : s₂.cache (.init i) = { s.cache (.init i) with hit := 0 } := by
      rw [hs₂, ← hcache]
      exact Function.update_self _ _ _
    have htq₂ : s₂.tq = s.tq.remove .free (.init i) := by
      rw [hs₂, ← htq]
    refine ⟨.init i, (fillEntry F tsc a p f w (.init i) s₂).1,
      (fillEntry F tsc a p f w (.init i) s₂).2, Function.update (Function.update L .free l)
        (.hash (F.hash a)) (.init i :: L (.hash (F.hash a))), rfl, ?_,
      fillEntry_fill hfirst hpol hsvr htry ?_ ?_ ?_ ?_⟩
    · rw [(fillEntry_spec F tsc a p f w (.init i) s₂).tq,
        if_pos (by rw [hcache₂]; exact hs.type i), htq₂]
      exact (hs.rep.moveToHead hl (by simp)).1
    · rw [hs₂, hs₁]
      exact ⟨_, _, s.delCache, rfl⟩
    · intro e' he'
      rw [← hcache, hs₂]
      exact Function.update_of_ne he' _ _
    · exact ⟨0, hcache₂⟩
    · refine Or.inr ⟨l, hl, ?_, rfl⟩
      rw [← hdel, hs₂]
      rfl

/-- **A lookup goes in one of the four ways and keeps the invariant.** -/
theorem SideInv.looked (hs : SideInv F s L) (o : ℕ → MacOutcomes) (tsc : BitVec 64)
    (a : Fin n → Byte) : ∃ r s' L', getPol F o tsc a s = .ok (r, s') ∧ SideInv F s' L' ∧
      Extends s s' ∧ Looked F o a s L r s' L' := by
  obtain ⟨r, s', L₁, hget, hs', hext, -⟩ := hs.getPol_spec o tsc a
  suffices h : ∃ r s' L', getPol F o tsc a s = .ok (r, s') ∧ Rep s'.tq L' ∧
      Looked F o a s L r s' L' by
    obtain ⟨r₂, s₂, L₂, hget₂, hrep, hlook⟩ := h
    rw [hget, Except.ok.injEq, Prod.mk.injEq] at hget₂
    obtain ⟨rfl, rfl⟩ := hget₂
    obtain rfl := hs'.rep.unique hrep
    exact ⟨r, s', L₁, hget, hs', hext, hlook⟩
  have hps : ∀ p ∈ s.polHead, ∃ f, s.pols p = some f := by
    intro p hp
    obtain ⟨-, f, hf, -⟩ := hs.live.pol p hp
    exact ⟨f, hf⟩
  unfold getPol
  rw [SideInv.walk_eq hs.toPoolInv]
  cases hfind : (L (.hash (F.hash a))).find? fun e => (s.cache e).lbSrcIp == a with
  | some e =>
    have he := List.mem_of_find?_eq_some hfind
    have hea : (s.cache e).lbSrcIp = a := by simpa using List.find?_some hfind
    obtain ⟨f, v, hc⟩ := hs.cached he
    have he₁ : (s.modCache e fun c => { c with hit := c.hit + 1 }).cache e =
        { s.cache e with hit := (s.cache e).hit + 1 } := PolSide.modCache_self
    simp only [he₁, bind, Except.bind]
    rw [deref_eq (show (s.modCache e _).pols _ = some f from hc.pol)]
    dsimp only
    rw [hc.svrHit, deref_eq (show (s.modCache e _).svrs _ = some v from hc.svr), ← hc.svrHit]
    exact ⟨_, _, L, rfl, hs.rep, .hit he hea⟩
  | none =>
    have hmiss : ∀ f ∈ L (.hash (F.hash a)), (s.cache f).lbSrcIp ≠ a := by
      intro f hf hfa
      have := List.find?_eq_none.mp hfind f hf
      simp [hfa] at this
    dsimp only
    cases hfm : firstMatch s a with
    | none =>
      refine ⟨none, s, L, ?_, hs.rep, .none hmiss hfm⟩
      unfold getPolSlow
      rw [policyLookup_none hps hfm]
      rfl
    | some p =>
      obtain ⟨f, v, hf, hv⟩ := hs.live.pointers p (List.mem_of_find?_eq_some hfm)
      rcases htry : trySvr o 4 v with ⟨_ | _, w⟩
      · refine ⟨none, s.modSvr f.svr fun _ => (trySvr o 4 v).2, L, ?_, hs.rep,
          .unresolved hmiss hfm hf hv (by rw [htry])⟩
        unfold getPolSlow
        rw [policyLookup_some hps hfm hf hv, htry]
        rfl
      · obtain ⟨e, r, s', L', hslow, hrep, hfill⟩ := getPolSlow_fill hs hfm hf hv htry
        exact ⟨r, s', L', hslow, hrep, .fill hmiss hfill⟩

theorem Looked.fill_of {s' : PolSide n D} (h : Looked F o a s L r s' L')
    (hmiss : ∀ e ∈ L (.hash (F.hash a)), (s.cache e).lbSrcIp ≠ a) (hfirst : firstMatch s a = some p)
    (hpol : s.pols p = some f) (hsvr : s.svrs f.svr = some v) (htry : trySvr o 4 v = (true, w)) :
    ∃ e, Fill F o a s L p f v w e r s' L' := by
  cases h with
  | hit he ha => exact absurd ha (hmiss _ he)
  | none _ hnone =>
    rw [hfirst] at hnone
    cases hnone
  | unresolved _ hfirst' hpol' hsvr' hfail =>
    obtain rfl := Option.some.inj (hfirst.symm.trans hfirst')
    obtain rfl := Option.some.inj (hpol.symm.trans hpol')
    obtain rfl := Option.some.inj (hsvr.symm.trans hsvr')
    rw [htry] at hfail
    cases hfail
  | @fill _ _ _ _ e _ _ _ _ h =>
    obtain rfl := Option.some.inj (hfirst.symm.trans h.first)
    obtain rfl := Option.some.inj (hpol.symm.trans h.pol)
    obtain rfl := Option.some.inj (hsvr.symm.trans h.svr)
    obtain rfl := congrArg Prod.snd (htry.symm.trans h.resolved)
    exact ⟨e, h⟩

end

end Sasat
