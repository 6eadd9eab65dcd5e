import Sasat.Front.Fresh
import Sasat.Front.SweepRuns

/-!
# The use counters

`use_count` is documented as the number of cache entries that refer to a policy. It is counted up
whenever a policy is selected, also for the `fix` entry, and never down.

* `refs`: the number of entries in the buckets that refer to a policy.
* `HasRoom`: a lookup needs no entry, or there is a free one.
* **`use_count_refs`**: the counters are right as long as every lookup has room.
* **`use_count_exhausted`**: they are wrong once the pool is used up.
-/

namespace Sasat

open Intrusive

section

variable {n : ℕ} {D : Type} {F : Family n D} {s s' : PolSide n D} {L L' : CacheList → List CachePtr}
  {a : Fin n → Byte} {o : ℕ → MacOutcomes} {p : Ptr} {e : CachePtr} {r : Option CachePtr}

instance : Finite CachePtr := Finite.of_injective CachePtr.num CachePtr.num_injective

/-- The number of entries in the buckets whose `pol_hit` points to `p`. -/
noncomputable def refs (s : PolSide n D) (p : Ptr) : ℕ :=
  {e | (∃ b, OnQueue s (.hash b) e) ∧ (s.cache e).polHit = p}.ncard

/-- `use_count` tells the number of entries that refer to a policy. -/
def UseOk (s : PolSide n D) : Prop :=
  ∀ p ∈ s.polHead, ∃ f, s.pols p = some f ∧ f.useCount = BitVec.ofNat 32 (refs s p)

/-- A lookup for `a` finds its entry or a free one, or it selects no policy. -/
def HasRoom (F : Family n D) (o : ℕ → MacOutcomes) (a : Fin n → Byte) (s : PolSide n D) : Prop :=
  s.tq.first .free ≠ none ∨ (∃ e, OnQueue s (.hash (F.hash a)) e ∧ (s.cache e).lbSrcIp = a) ∨
    firstMatch s a = none ∨ ∃ p f v, firstMatch s a = some p ∧ s.pols p = some f ∧
      s.svrs f.svr = some v ∧ (trySvr o 4 v).1 = false

/-- The entries of the buckets `L` that refer to `p`. -/
def refSet (s : PolSide n D) (L : CacheList → List CachePtr) (p : Ptr) : Set CachePtr :=
  {e | (∃ b, e ∈ L (.hash b)) ∧ (s.cache e).polHit = p}

theorem refs_eq (hs : Rep s.tq L) (p : Ptr) : refs s p = (refSet s L p).ncard := by
  unfold refs refSet
  simp only [onQueue_iff hs]

theorem Fill.free {f : LbPol n} {v w : ServerTbl n} (hs : SideInv F s L)
    (hmiss : ∀ e ∈ L (.hash (F.hash a)), (s.cache e).lbSrcIp ≠ a)
    (h : Fill F o a s L p f v w e r s' L') (hroom : HasRoom F o a s) :
    ∃ l, L .free = e :: l ∧ s'.delCache = s.delCache ∧ L' = Function.update
      (Function.update L .free l) (.hash (F.hash a)) (e :: L (.hash (F.hash a))) := by
  rcases h.queue with ⟨hnil, -⟩ | hfree
  · exfalso
    rcases hroom with hfirst | ⟨e', he', hsrc⟩ | hnone | ⟨p', f', v', hfirst, hpol, hsvr, htry⟩
    · rw [hs.rep.first_eq, hnil] at hfirst
      exact hfirst rfl
    · rw [onQueue_iff hs.rep] at he'
      exact hmiss e' he' hsrc
    · rw [h.first] at hnone
      cases hnone
    · rw [h.first, Option.some.injEq] at hfirst
      subst hfirst
      rw [h.pol, Option.some.injEq] at hpol
      subst hpol
      rw [h.svr, Option.some.injEq] at hsvr
      subst hsvr
      rw [h.resolved] at htry
      cases htry
  · exact hfree

/-- The counters of the policies are right for the buckets `L`. -/
def UseInv (s : PolSide n D) (L : CacheList → List CachePtr) : Prop :=
  ∀ p ∈ s.polHead, ∃ f, s.pols p = some f ∧ f.useCount = BitVec.ofNat 32 (refSet s L p).ncard

theorem UseInv.ok (h : UseInv s L) (hs : Rep s.tq L) : UseOk s := by
  intro p hp
  rw [refs_eq hs]
  exact h p hp

theorem SideInv.notMem_hash {l : List CachePtr} (hs : SideInv F s L) (hl : L .free = e :: l)
    (b : Fin lbPolDivisor) : e ∉ L (.hash b) := by
  intro he
  have hfree : e ∈ L .free := hl ▸ List.mem_cons_self
  exact absurd (hs.rep.disj hfree he) (by simp)

theorem UseInv.same (hu : UseInv s L) (hhead : s'.polHead = s.polHead)
    (hkeep : ∀ {e b}, e ∈ L (.hash b) → (s'.cache e).polHit = (s.cache e).polHit)
    (huse : ∀ p, (s'.pols p).map LbPol.useCount = (s.pols p).map LbPol.useCount) : UseInv s' L := by
  intro p hp
  rw [hhead] at hp
  obtain ⟨f, hf, hcount⟩ := hu p hp
  have hmap := huse p
  rw [hf, Option.map_some, Option.map_eq_some_iff] at hmap
  obtain ⟨f', hf', hff⟩ := hmap
  refine ⟨f', hf', ?_⟩
  rw [hff, hcount]
  congr 2
  ext e
  exact and_congr_right fun ⟨b, he⟩ => by rw [hkeep he]

theorem Fill.refSet_eq {f : LbPol n} {v w : ServerTbl n} {l : List CachePtr} (hs : SideInv F s L)
    (h : Fill F o a s L p f v w e r s' L') (hl : L .free = e :: l)
    (hL' : L' = Function.update (Function.update L .free l) (.hash (F.hash a))
      (e :: L (.hash (F.hash a))))
    (hkeep : ∀ {e b}, e ∈ L (.hash b) → (s'.cache e).polHit = (s.cache e).polHit) (q : Ptr) :
    refSet s' L' q = if q = p then insert e (refSet s L q) else refSet s L q := by
  subst hL'
  obtain ⟨-, hm⟩ := hs.rep.moveToHead hl (by simp : CacheList.hash (F.hash a) ≠ .free)
  have hset : ∀ e', e' ∈ refSet s' (Function.update (Function.update L .free l)
      (.hash (F.hash a)) (e :: L (.hash (F.hash a)))) q ↔
        (e' = e ∧ q = p) ∨ e' ∈ refSet s L q := by
    intro e'
    constructor
    · rintro ⟨⟨b, he'⟩, hq⟩
      rcases (hm _ _).mp he' with ⟨rfl, -⟩ | ⟨-, he'⟩
      · exact Or.inl ⟨rfl, hq.symm.trans h.data.2.1⟩
      · exact Or.inr ⟨⟨b, he'⟩, (hkeep he').symm.trans hq⟩
    · rintro (⟨rfl, rfl⟩ | ⟨⟨b, he'⟩, hq⟩)
      · exact ⟨⟨F.hash a, (hm _ _).mpr (Or.inl ⟨rfl, rfl⟩)⟩, h.data.2.1⟩
      · refine ⟨⟨b, (hm _ _).mpr (Or.inr ⟨?_, he'⟩)⟩, (hkeep he').trans hq⟩
        rintro rfl
        exact hs.notMem_hash hl b he'
  ext e'
  rw [hset]
  split_ifs with hq
  · rw [Set.mem_insert_iff, and_iff_left hq]
  · simp [hq]

/-- **A lookup that has room keeps the counters right**, and asks for no sweep. -/
theorem UseInv.looked (hu : UseInv s L) (hs : SideInv F s L) (hext : Extends s s')
    (h : Looked F o a s L r s' L') (hroom : HasRoom F o a s) :
    UseInv s' L' ∧ s'.delCache = s.delCache := by
  have hkeep : ∀ {e b}, e ∈ L (.hash b) → (s'.cache e).polHit = (s.cache e).polHit := by
    intro e b he
    obtain ⟨k, hk⟩ := h.cache hs.toPoolInv he
    rw [hk]
  cases h with
  | @hit e =>
    refine ⟨hu.same hext.polHead hkeep fun q => ?_, rfl⟩
    exact @map_poke _ s.pols _ (fun f => { f with hitCount := f.hitCount + 1 }) _ LbPol.useCount
      (fun _ => rfl) q
  | none => exact ⟨hu.same hext.polHead hkeep fun _ => rfl, rfl⟩
  | unresolved => exact ⟨hu.same hext.polHead hkeep fun _ => rfl, rfl⟩
  | @fill p f v w e _ _ _ hmiss h =>
    obtain ⟨l, hl, hd, hL'⟩ := h.free hs hmiss hroom
    refine ⟨fun q hq => ?_, hd⟩
    have hset := h.refSet_eq hs hl hL' hkeep q
    rw [hext.polHead] at hq
    obtain ⟨f', hf', hcount⟩ := hu q hq
    by_cases hqp : q = p
    · -- the filled entry is the one that has come in
      subst hqp
      rw [h.pol, Option.some.injEq] at hf'
      subst hf'
      refine ⟨_, by rw [h.pols, poke_self h.pol], ?_⟩
      rw [hset, if_pos rfl, Set.ncard_insert_of_notMem fun he =>
        hs.notMem_hash hl _ he.1.choose_spec, BitVec.ofNat_add, ← hcount]
      rfl
    · refine ⟨f', by rw [h.pols, poke_of_ne hqp, hf'], ?_⟩
      rw [hcount, hset, if_neg hqp]

/-- **A lookup without room makes a counter wrong.** -/
theorem UseInv.broken (hu : UseInv s L) (hs : SideInv F s L) (hs' : SideInv F s' L')
    (hext : Extends s s') (h : Looked F o a s L r s' L') (hroom : ¬ HasRoom F o a s) :
    ¬ UseOk s' := by
  intro hok
  cases h with
  | hit he ha => exact hroom (Or.inr (Or.inl ⟨_, (onQueue_iff hs.rep).mpr he, ha⟩))
  | none _ hfirst => exact hroom (Or.inr (Or.inr (Or.inl hfirst)))
  | unresolved _ hfirst hpol hsvr htry =>
    exact hroom (Or.inr (Or.inr (Or.inr ⟨_, _, _, hfirst, hpol, hsvr, htry⟩)))
  | @fill p f v w e _ _ _ hmiss h =>
    rcases h.queue with ⟨-, rfl, rfl, -⟩ | ⟨l, hl, -⟩
    · -- the `fix` entry is filled, and no entry enters a bucket
      have hset : refSet s' L' p = refSet s L' p := by
        ext e
        refine and_congr_right fun ⟨b, he⟩ => ?_
        rw [h.other e fun hfix => hs.fix _ (hfix ▸ he)]
      have hp : p ∈ s.polHead := List.mem_of_find?_eq_some h.first
      obtain ⟨f₁, hf₁, hcount⟩ := hu p hp
      rw [h.pol, Option.some.injEq] at hf₁
      subst hf₁
      obtain ⟨f₂, hf₂, hcount₂⟩ := hok p (by rw [hext.polHead]; exact hp)
      rw [h.pols, poke_self h.pol, Option.some.injEq] at hf₂
      subst hf₂
      rw [refs_eq hs'.rep, hset, ← hcount] at hcount₂
      exact absurd (BitVec.add_right_eq_self.mp hcount₂) (by decide)
    · refine hroom (Or.inl ?_)
      rw [hs.rep.first_eq, hl]
      exact Option.some_ne_none _

theorem UseInv.of_fresh (hf : Fresh s) (hl : Live s) (hempty : ∀ b, L (.hash b) = []) :
    UseInv s L := by
  intro p hp
  obtain ⟨-, f, hfp, -⟩ := hl.pol p hp
  refine ⟨f, hfp, ?_⟩
  have hset : refSet s L p = ∅ := by
    ext e
    simp [refSet, hempty]
  rw [(hf.pol p hp f hfp).1, hset, Set.ncard_empty]
  rfl

end

/-! ## The translator -/

/-- The lookup, if the operation is one, has room. -/
def FrontOp.HasRoom (s : FrontState) : FrontOp → Prop
  | .getPol4 o _ a => Sasat.HasRoom (family4 s.ifIngress.vip4) o a s.lb4
  | .getPol6 o _ a => Sasat.HasRoom family6 o a s.lb6
  | _ => True

/-- Every operation of a run satisfies `C` in the state in which it is done. -/
def FrontState.AllSteps (C : FrontState → FrontOp → Prop) : FrontState → List FrontOp → Prop
  | _, [] => True
  | s, op :: ops => C s op ∧ ∀ s', op.step s = .ok s' → s'.AllSteps C ops

/-- The counters of both families are right, and no sweep is asked for. -/
structure FrontUse (s : FrontState) : Prop where
  side4 : ∃ L, SideInv (family4 s.ifIngress.vip4) s.lb4 L ∧ UseInv s.lb4 L
  side6 : ∃ L, SideInv family6 s.lb6 L ∧ UseInv s.lb6 L
  del4 : s.lb4.delCache = false
  del6 : s.lb6.delCache = false

theorem load_use {n : ℕ} {D : Type} (F : Family n D)
    (malloc : Option (Fin lbMaxCache → LbPolCache n D)) (lines : List (PolicyLine n))
    (s : PolSide n D) :
    ∃ s' L, getPolicy lines (initPolicyTable malloc (initSvrMngTable s)) = .ok s' ∧
      SideInv F s' L ∧ UseInv s' L ∧ s'.delCache = s.delCache := by
  obtain ⟨s', L, hrun, hs, hfresh, hempty, -⟩ := load_spec F malloc lines s
  obtain ⟨c, q, heq⟩ := initPolicyTable_eq malloc (initSvrMngTable s)
  obtain ⟨-, hd⟩ := getPolicy_cursor hrun
  rw [heq] at hd
  exact ⟨s', L, hrun, hs, .of_fresh hfresh hs.live hempty, hd⟩

theorem FrontUse.step {s s' : FrontState} (hs : FrontUse s) (op : FrontOp) (hroom : op.HasRoom s)
    (h : op.step s = .ok s') : FrontUse s' := by
  obtain ⟨L4, h4, hu4⟩ := hs.side4
  obtain ⟨L6, h6, hu6⟩ := hs.side6
  cases op with
  | getPol4 o tsc a =>
    obtain ⟨r, lb, L', hget, hlb, hext, hlook⟩ := h4.looked o tsc a
    rw [FrontOp.step, getPolV4, hget] at h
    cases h
    obtain ⟨hu, hd⟩ := hu4.looked h4 hext hlook hroom
    exact ⟨⟨L', hlb, hu⟩, hs.side6, hd.trans hs.del4, hs.del6⟩
  | getPol6 o tsc a =>
    obtain ⟨r, lb, L', hget, hlb, hext, hlook⟩ := h6.looked o tsc a
    rw [FrontOp.step, getPolV6, hget] at h
    cases h
    obtain ⟨hu, hd⟩ := hu6.looked h6 hext hlook hroom
    exact ⟨hs.side4, ⟨L', hlb, hu⟩, hs.del4, hd.trans hs.del6⟩
  | patrol =>
    obtain ⟨⟨tv, s₁⟩, hrun, h⟩ := bind_eq_ok.mp h
    cases h
    rw [procPatrol, hs.del4, hs.del6] at hrun
    cases hrun
    exact hs
  | reload i m lines4 lines6 =>
    obtain ⟨lb4, L4', hrun4, hs4, hload4, hd4⟩ := load_use (family4 i.vip4) none lines4
      (destroySvrTbl (destroyPolicyTable s.lb4))
    obtain ⟨lb6, L6', hrun6, hs6, hload6, hd6⟩ := load_use family6 none lines6
      (destroySvrTbl (destroyPolicyTable s.lb6))
    rw [FrontOp.step, reloadSide, reloadSide, hrun4, hrun6] at h
    cases h
    exact ⟨⟨L4', hs4, hload4⟩, ⟨L6', hs6, hload6⟩, hd4.trans hs.del4, hd6.trans hs.del6⟩

/-- **An operation that has no room leaves a wrong counter.** -/
theorem FrontUse.broken {s s' : FrontState} (hs : FrontUse s) (op : FrontOp)
    (hroom : ¬ op.HasRoom s) (h : op.step s = .ok s') : ¬ (UseOk s'.lb4 ∧ UseOk s'.lb6) := by
  obtain ⟨L4, h4, hu4⟩ := hs.side4
  obtain ⟨L6, h6, hu6⟩ := hs.side6
  cases op with
  | getPol4 o tsc a =>
    obtain ⟨r, lb, L', hget, hlb, hext, hlook⟩ := h4.looked o tsc a
    rw [FrontOp.step, getPolV4, hget] at h
    cases h
    exact fun hok => hu4.broken h4 hlb hext hlook hroom hok.1
  | getPol6 o tsc a =>
    obtain ⟨r, lb, L', hget, hlb, hext, hlook⟩ := h6.looked o tsc a
    rw [FrontOp.step, getPolV6, hget] at h
    cases h
    exact fun hok => hu6.broken h6 hlb hext hlook hroom hok.2
  | patrol => exact absurd trivial hroom
  | reload => exact absurd trivial hroom

theorem FrontUse.ok {s : FrontState} (hs : FrontUse s) : UseOk s.lb4 ∧ UseOk s.lb6 := by
  obtain ⟨L4, h4, hu4⟩ := hs.side4
  obtain ⟨L6, h6, hu6⟩ := hs.side6
  exact ⟨hu4.ok h4.rep, hu6.ok h6.rep⟩

theorem FrontUse.run_iff (ops : List FrontOp) : ∀ {s : FrontState}
    {files : List (PolicyLine 4) × List (PolicyLine 16)}, FrontInv s → Loaded files.1 files.2 s →
      FrontUse s → (s.AllSteps (fun s op => op.HasRoom s) ops ↔
        ∀ ops₁ ops₂, ops = ops₁ ++ ops₂ →
          ∃ s', s.run ops₁ = .ok s' ∧ UseOk s'.lb4 ∧ UseOk s'.lb6) := by
  induction ops with
  | nil =>
    intro s files _ _ hu
    refine ⟨fun _ ops₁ ops₂ h => ?_, fun _ => trivial⟩
    obtain ⟨rfl, rfl⟩ := List.append_eq_nil_iff.mp h.symm
    exact ⟨s, rfl, hu.ok⟩
  | cons op ops ih =>
    intro s files hs hl hu
    obtain ⟨s₁, hstep, hs₁, hl₁⟩ := op.step_spec hs files hl
    have hcons : ∀ ops, s.run (op :: ops) = s₁.run ops := by
      intro ops
      rw [FrontState.run, List.foldlM_cons, hstep]
      rfl
    constructor
    · rintro ⟨hroom, hrest⟩ ops₁ ops₂ h
      cases ops₁ with
      | nil => exact ⟨s, rfl, hu.ok⟩
      | cons op' ops₁ =>
        rw [List.cons_append, List.cons.injEq] at h
        obtain ⟨rfl, h⟩ := h
        rw [hcons]
        exact (ih hs₁ hl₁ (hu.step op hroom hstep)).mp (hrest s₁ hstep) ops₁ ops₂ h
    · intro h
      have hroom : op.HasRoom s := by
        by_contra hroom
        obtain ⟨s', hrun, hok⟩ := h [op] ops rfl
        rw [hcons] at hrun
        cases hrun
        exact hu.broken op hroom hstep hok
      refine ⟨hroom, fun s' hs' => ?_⟩
      obtain rfl := Except.ok.inj (hstep.symm.trans hs')
      refine (ih hs₁ hl₁ (hu.step op hroom hstep)).mpr fun ops₁ ops₂ hops => ?_
      obtain ⟨s', hrun, hok⟩ := h (op :: ops₁) ops₂ (by rw [hops]; rfl)
      rw [hcons] at hrun
      exact ⟨s', hrun, hok⟩

theorem frontInit_use (pool4 : Fin lbMaxCache → LbPolCache 4 (BitVec 16))
    (pool6 : Fin lbMaxCache → LbPolCache 16 Unit) (i : Ifdata) (m : Bool)
    (lines4 : List (PolicyLine 4)) (lines6 : List (PolicyLine 16)) :
    ∃ s₀, frontInit pool4 pool6 i m lines4 lines6 bootState = .ok s₀ ∧ FrontInv s₀ ∧
      Loaded lines4 lines6 s₀ ∧ FrontUse s₀ := by
  obtain ⟨s₀, hinit, hs₀, hl₀⟩ := frontInit_spec pool4 pool6 i m lines4 lines6 bootState
  obtain ⟨lb4, L4, hrun4, hs4, hload4, hd4⟩ :=
    load_use (family4 i.vip4) (some pool4) lines4 bootState.lb4
  obtain ⟨lb6, L6, hrun6, hs6, hload6, hd6⟩ := load_use family6 (some pool6) lines6 bootState.lb6
  have hinit' := hinit
  rw [frontInit, hrun4, hrun6] at hinit'
  cases hinit'
  exact ⟨_, hinit, hs₀, hl₀, ⟨L4, hs4, hload4⟩, ⟨L6, hs6, hload6⟩, hd4, hd6⟩

/-- **The use counters are right in every state of a run exactly when every lookup of the run has
room.** -/
theorem use_count_refs (pool4 : Fin lbMaxCache → LbPolCache 4 (BitVec 16))
    (pool6 : Fin lbMaxCache → LbPolCache 16 Unit) (i : Ifdata) (m : Bool)
    (lines4 : List (PolicyLine 4)) (lines6 : List (PolicyLine 16)) :
    ∃ s₀, frontInit pool4 pool6 i m lines4 lines6 bootState = .ok s₀ ∧
      ∀ ops : List FrontOp, s₀.AllSteps (fun s op => op.HasRoom s) ops ↔
        ∀ ops₁ ops₂, ops = ops₁ ++ ops₂ →
          ∃ s, s₀.run ops₁ = .ok s ∧ UseOk s.lb4 ∧ UseOk s.lb6 := by
  obtain ⟨s₀, hinit, hs₀, hl₀, hu₀⟩ := frontInit_use pool4 pool6 i m lines4 lines6
  replace hl₀ : Loaded (lines4, lines6).1 (lines4, lines6).2 s₀ := hl₀
  exact ⟨s₀, hinit, fun ops => hu₀.run_iff ops hs₀ hl₀⟩

/-! ## The pool is used up -/

section

variable {n : ℕ} {D : Type} {F : Family n D} {s : PolSide n D} {L : CacheList → List CachePtr}
  {p : Ptr} {o : ℕ → MacOutcomes}

theorem refs_le (hs : SideInv F s L) (p : Ptr) : refs s p ≤ lbMaxCache := by
  rw [refs_eq hs.rep]
  have hsub : refSet s L p ⊆ Set.range CachePtr.init := by
    rintro e ⟨⟨b, he⟩, -⟩
    obtain ⟨i, rfl⟩ := hs.exists_init he
    exact ⟨i, rfl⟩
  calc (refSet s L p).ncard ≤ (Set.range CachePtr.init).ncard :=
        Set.ncard_le_ncard hsub (Set.toFinite _)
    _ ≤ Nat.card (Fin lbMaxCache) := by
        rw [← Set.image_univ, ← Set.ncard_univ]
        exact Set.ncard_image_le (Set.toFinite _)
    _ = lbMaxCache := Nat.card_fin _

theorem lookups_use (addrs : List (Fin n → Byte)) : ∀ {s : PolSide n D}
    {L : CacheList → List CachePtr} {f : LbPol n} {v : ServerTbl n}, SideInv F s L →
      (∀ a, firstMatch s a = some p) → s.pols p = some f → s.svrs f.svr = some v →
        v.status ≠ .init → addrs.Nodup → (∀ b, ∀ e ∈ L (.hash b), (s.cache e).lbSrcIp ∉ addrs) →
          ∃ s' L' f', sideRun F s (addrs.map (.getPol o 0)) = .ok s' ∧ SideInv F s' L' ∧
            s'.polHead = s.polHead ∧ s'.pols p = some f' ∧
              f'.useCount = f.useCount + BitVec.ofNat 32 addrs.length := by
  induction addrs with
  | nil =>
    intro s L f v hs _ hf _ _ _ _
    exact ⟨s, L, f, rfl, hs, rfl, hf, (BitVec.add_zero _).symm⟩
  | cons a addrs ih =>
    intro s L f v hs hfirst hf hv hst hnd hnew
    obtain ⟨ha, hnd⟩ := List.nodup_cons.mp hnd
    obtain ⟨r, s₁, L₁, hget, hs₁, hext, hlook⟩ := hs.looked o 0 a
    have hstep : (SideOp.getPol o 0 a).step F s = .ok s₁ := by
      rw [SideOp.step, hget]
      rfl
    have hmiss : ∀ e ∈ L (.hash (F.hash a)), (s.cache e).lbSrcIp ≠ a :=
      fun e he hsrc => hnew _ e he (hsrc ▸ List.mem_cons_self)
    obtain ⟨e, hfill⟩ := hlook.fill_of hmiss (hfirst a) hf hv
      ((trySvr_spec o 4 v).2.1 hst (by decide))
    have hf₁ : s₁.pols p =
        some { f with useCount := f.useCount + 1, hitCount := f.hitCount + 1 } := by
      rw [hfill.pols, poke_self hf]
    -- the entries in the buckets are old ones and the one for `a`
    have hnew₁ : ∀ b, ∀ e' ∈ L₁ (.hash b), (s₁.cache e').lbSrcIp ∉ addrs := by
      intro b e' he'
      by_cases hold : ∃ b, e' ∈ L (.hash b)
      · obtain ⟨b', hb'⟩ := hold
        obtain ⟨k, hk⟩ := hlook.cache hs.toPoolInv hb'
        rw [hk]
        exact fun hmem => hnew b' e' hb' (List.mem_cons_of_mem _ hmem)
      · have hee : e' = e := by
          rcases hfill.queue with ⟨-, -, rfl, -⟩ | ⟨l, hl, -, rfl⟩
          · exact absurd ⟨b, he'⟩ hold
          · obtain ⟨-, hm⟩ := hs.rep.moveToHead hl (by simp : CacheList.hash (F.hash a) ≠ .free)
            rcases (hm _ _).mp he' with ⟨rfl, -⟩ | ⟨-, he'⟩
            · rfl
            · exact absurd ⟨b, he'⟩ hold
        rw [hee, hfill.data.1]
        exact ha
    obtain ⟨s', L', f', hrun, hs', hhead, hf', huse⟩ := ih hs₁
      (fun a' => (hext.firstMatch a').trans (hfirst a')) hf₁ hfill.svrAfter hst hnd hnew₁
    refine ⟨s', L', f', ?_, hs', hhead.trans hext.polHead, hf', ?_⟩
    · rw [List.map_cons, sideRun_cons _ hstep, hrun]
    · rw [huse, List.length_cons, Nat.add_comm, BitVec.ofNat_add, ← BitVec.add_assoc]
      rfl

end

/-- The address 0.0.x.y with the number `k`. -/
def addrOf (k : ℕ) : InAddr := ![0, 0, BitVec.ofNat 8 (k / 256), BitVec.ofNat 8 k]

theorem addrOf_injOn {j k : ℕ} (hj : j < 65536) (hk : k < 65536) (h : addrOf j = addrOf k) :
    j = k := by
  have h2 := congrArg BitVec.toNat (congrFun h 2)
  have h3 := congrArg BitVec.toNat (congrFun h 3)
  simp only [addrOf, Matrix.cons_val, BitVec.toNat_ofNat] at h2 h3
  omega

/-- With the policy `0.0.0.0, 0.0.0.0, 10.0.0.2` and 1025 source addresses, one more than there are
entries in the pool, the counter of the policy is not the number of entries that refer to it. -/
theorem use_count_exhausted : ∃ s₀ s p f,
    frontInit (fun _ => ⟨0, 0, 0, 0, .init, 0, 0, 0, 0, none, 0⟩)
      (fun _ => ⟨0, 0, 0, 0, .init, (), 0, 0, 0, none, 0⟩)
      ⟨0, 0, true, true, 0, 0, ![10, 0, 0, 1], 0, 0⟩ false
      [⟨0, 0, ![10, 0, 0, 2], fun _ => ⟨true, ![2, 0, 0, 0, 0, 2]⟩⟩] [] bootState = .ok s₀ ∧
    s₀.run ((List.range 1025).map fun k => .getPol4 (fun _ _ => ⟨true, 0⟩) 0 (addrOf k)) = .ok s ∧
    p ∈ s.lb4.polHead ∧ s.lb4.pols p = some f ∧ f.useCount ≠ BitVec.ofNat 32 (refs s.lb4 p) := by
  set pool : Fin lbMaxCache → LbPolCache 4 (BitVec 16) :=
    fun _ => ⟨0, 0, 0, 0, .init, 0, 0, 0, 0, none, 0⟩
  set pool6 : Fin lbMaxCache → LbPolCache 16 Unit :=
    fun _ => ⟨0, 0, 0, 0, .init, (), 0, 0, 0, none, 0⟩
  set i : Ifdata := ⟨0, 0, true, true, 0, 0, ![10, 0, 0, 1], 0, 0⟩
  set line : PolicyLine 4 := ⟨0, 0, ![10, 0, 0, 2], fun _ => ⟨true, ![2, 0, 0, 0, 0, 2]⟩⟩
  obtain ⟨s₀, hinit, hs₀, hl₀, -⟩ := frontInit_use pool pool6 i false [line] []
  obtain ⟨s, hrun, -⟩ := run_spec ((List.range 1025).map fun k =>
    FrontOp.getPol4 (fun _ _ => ⟨true, 0⟩) 0 (addrOf k)) hs₀
    (show Loaded ([line], []).1 ([line], []).2 s₀ from hl₀)
  obtain ⟨lb4, L, hrun4, hs4, -, hempty, -⟩ := load_spec (family4 i.vip4) (some pool) [line]
    bootState.lb4
  obtain ⟨lb6, -, hrun6, -⟩ := load_spec family6 (some pool6) [] bootState.lb6
  obtain ⟨c, q, heq⟩ := initPolicyTable_eq (some pool) (initSvrMngTable bootState.lb4)
  obtain ⟨p, f, hhead, hf, huse, hv, hmatch⟩ :=
    getPolicy_single line (by rw [heq]) (by rw [heq]; rfl) hrun4
  have hinit' := hinit
  rw [frontInit, hrun4, hrun6] at hinit'
  cases hinit'
  have hops : ((List.range 1025).map fun k => FrontOp.getPol4 (fun _ _ => ⟨true, 0⟩) 0 (addrOf k)) =
      ((List.range 1025).map fun k => PacketOp.getPol4 (fun _ _ => ⟨true, 0⟩) 0 (addrOf k)).map
        PacketOp.op := by
    rw [List.map_map]
    rfl
  have hside : ((List.range 1025).map fun k => PacketOp.getPol4 (fun _ _ => ⟨true, 0⟩) 0
      (addrOf k)).map PacketOp.side4 =
        ((List.range 1025).map addrOf).map (.getPol (fun _ _ => ⟨true, 0⟩) 0) := by
    rw [List.map_map, List.map_map]
    rfl
  have hrun' := hrun
  rw [hops] at hrun'
  obtain ⟨hrunside, -⟩ := run_sides _ hrun'
  rw [hside] at hrunside
  have hfirst : ∀ a, firstMatch lb4 a = some p := by
    intro a
    apply hmatch
    funext k
    simp [maskIp, line]
  have hnd : ((List.range 1025).map addrOf).Nodup := by
    refine List.Nodup.map_on (fun j hj k hk h => ?_) List.nodup_range
    exact addrOf_injOn (by have := List.mem_range.mp hj; omega)
      (by have := List.mem_range.mp hk; omega) h
  have hnew : ∀ b, ∀ e ∈ L (.hash b), (lb4.cache e).lbSrcIp ∉ (List.range 1025).map addrOf := by
    intro b e he
    rw [hempty] at he
    exact absurd he List.not_mem_nil
  obtain ⟨s', L', f', hrunside', hs', hhead', hf', huse'⟩ := lookups_use (o := fun _ _ => ⟨true, 0⟩)
    _ hs4 hfirst hf hv (by decide) hnd hnew
  obtain rfl := Except.ok.inj (hrunside'.symm.trans hrunside)
  refine ⟨_, s, p, f', hinit, hrun, ?_, hf', ?_⟩
  · rw [hhead', hhead]
    exact List.mem_singleton_self p
  · have hle : refs s.lb4 p ≤ 1024 := refs_le hs' p
    intro heq'
    rw [huse', huse, List.length_map, List.length_range] at heq'
    have hnat := congrArg BitVec.toNat heq'
    rw [BitVec.toNat_ofNat, Nat.mod_eq_of_lt (by omega)] at hnat
    have : (0 + BitVec.ofNat 32 1025 : BitVec 32).toNat = 1025 := by decide
    omega

end Sasat
