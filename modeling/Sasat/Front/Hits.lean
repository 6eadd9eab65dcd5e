import Sasat.Front.Fresh

/-!
# The hit counters

* `polHits`, `svrHits`: the counters; `selected`: the policy that a lookup selects.
* `Counted`, **`Looked.counted`**: a lookup counts the policy it selects, and its server.
* `selections`, **`sideRun_counts`**: a run counts the policies that its lookups select.
* **`hits_conserved`**: from a load on, in every reachable state of the translator.
-/

namespace Sasat

open Intrusive

section

variable {n : ℕ} {D : Type} {F : Family n D} {s s' s'' : PolSide n D}
  {L L' : CacheList → List CachePtr} {a : Fin n → Byte} {o : ℕ → MacOutcomes} {p q : Ptr}
  {r : Option CachePtr} {sel : Option Ptr}

/-- `hit_count` of the policy at `p`. -/
def polHits (s : PolSide n D) (p : Ptr) : BitVec 32 := (s.pols p).elim 0 LbPol.hitCount

/-- `srv_stat.hit` of the server at `q`. -/
def svrHits (s : PolSide n D) (q : Ptr) : BitVec 32 := (s.svrs q).elim 0 ServerTbl.hit

/-- The server of the policy at `p`. -/
def svrOf (s : PolSide n D) (p : Ptr) : Option Ptr := (s.pols p).map LbPol.svr

/-- The policy at `p` is configured to drop. -/
def drops (s : PolSide n D) (p : Ptr) : Bool :=
  ((s.pols p).bind fun f => s.svrs f.svr).any fun v => v.status = .drop

/-- The policy at `p` names the address `addr`. -/
def names (s : PolSide n D) (addr : Fin n → Byte) (p : Ptr) : Bool :=
  ((s.pols p).bind fun f => s.svrs f.svr).any fun v => v.svrIp = addr

/-- The policy that a lookup for `a` with the result `r` has selected: the first match, if the
packet is dispatched or the policy is configured to drop. -/
def selected (s : PolSide n D) (a : Fin n → Byte) (r : Option CachePtr) : Option Ptr :=
  (firstMatch s a).filter fun p => r.isSome || drops s p

/-! ## One lookup -/

/-- The policy `sel` and its server are counted up by one. -/
structure Counted (s s' : PolSide n D) (sel : Option Ptr) : Prop where
  pol : ∀ p, polHits s' p = polHits s p + if sel = some p then 1 else 0
  svr : ∀ q, svrHits s' q = svrHits s q + if sel.bind (svrOf s) = some q then 1 else 0

theorem Counted.none (hp : ∀ p, polHits s' p = polHits s p) (hq : ∀ q, svrHits s' q = svrHits s q) :
    Counted s s' none := by
  constructor
  · simpa using hp
  · simpa using hq

theorem elim_poke {α : Type} {heap : Ptr → Option α} {f : α → α} {g : α → BitVec 32}
    {d : BitVec 32} {x : α} (h : heap p = some x) (hg : g (f x) = g x + d) (q : Ptr) :
    (poke heap p f q).elim 0 g = (heap q).elim 0 g + if p = q then d else 0 := by
  by_cases hq : p = q
  · subst hq
    rw [poke_self h, h, if_pos rfl]
    exact hg
  · rw [poke_of_ne (Ne.symm hq), if_neg hq]
    exact (BitVec.add_zero _).symm

theorem counted_countHit {f : LbPol n} {v : ServerTbl n} (hp : s.pols p = some f)
    (hv : s.svrs f.svr = some v) : Counted s (countHit p f.svr s) (some p) := by
  constructor
  · intro q
    refine (elim_poke (d := 1) hp rfl q).trans ?_
    simp only [Option.some.injEq]
    rfl
  · intro q
    refine (elim_poke (d := 1) hv rfl q).trans ?_
    simp only [Option.bind_some, svrOf, hp, Option.map_some, Option.some.injEq]
    rfl

theorem Counted.congr (h : Counted s s' sel) (hp : ∀ p, polHits s'' p = polHits s' p)
    (hq : ∀ q, svrHits s'' q = svrHits s' q) : Counted s s'' sel := by
  constructor
  · intro p
    rw [hp, h.pol]
  · intro q
    rw [hq, h.svr]

theorem svrHits_poke {w v : ServerTbl n} (hv : s.svrs q = some v) (hw : w.hit = v.hit) (q' : Ptr) :
    svrHits (s.modSvr q fun _ => w) q' = svrHits s q' := by
  refine (elim_poke (d := 0) hv (hw.trans (BitVec.add_zero _).symm) q').trans ?_
  rw [ite_self]
  exact BitVec.add_zero _

theorem Fill.selected {f : LbPol n} {v w : ServerTbl n} (h : Fill F o a s L p f v w e r s' L') :
    selected s a r = some p := by
  obtain ⟨-, hres, hinit⟩ := trySvr_spec o 4 v
  rw [h.resolved] at hres hinit
  rw [Sasat.selected, h.first, Option.filter_some, if_pos]
  rw [h.result]
  split_ifs with hd
  · -- a server that is configured to drop has been so before the lookup
    have hv : v.status = .drop := by
      by_cases hi : v.status = .init
      · have hok := hinit hi rfl
        rw [hd] at hok
        cases hok
      · obtain rfl : w = v := congrArg Prod.snd (hres hi (by decide))
        exact hd
    simp [drops, h.pol, h.svr, hv]
  · simp

theorem Fill.counted {f : LbPol n} {v w : ServerTbl n} (h : Fill F o a s L p f v w e r s' L') :
    Counted s s' (some p) := by
  have hhit := trySvr_hit o 4 v
  rw [h.resolved] at hhit
  obtain ⟨c, t, d, rfl⟩ := h.heaps
  have hcount := counted_countHit (s := (s.modSvr f.svr fun _ => w).modPol p
    fun f => { f with useCount := f.useCount + 1 }) (poke_self h.pol) (poke_self h.svr)
  constructor
  · intro q
    refine (hcount.pol q).trans ?_
    congr 1
    refine (elim_poke (d := 0) h.pol (BitVec.add_zero _).symm q).trans ?_
    rw [ite_self]
    exact BitVec.add_zero _
  · intro q
    refine (hcount.svr q).trans ?_
    congr 1
    · exact svrHits_poke h.svr hhit q
    · have hsvr : svrOf ((s.modSvr f.svr fun _ => w).modPol p
          fun f => { f with useCount := f.useCount + 1 }) p = svrOf s p :=
        @map_poke _ s.pols p (fun f => { f with useCount := f.useCount + 1 }) _ LbPol.svr
          (fun _ => rfl) p
      simp only [Option.bind_some, hsvr]

/-- **A lookup counts the policy that it selects**, and its server, on each of its ways. -/
theorem Looked.counted (hs : SideInv F s L) (h : Looked F o a s L r s' L') :
    Counted s s' (selected s a r) := by
  cases h with
  | @hit e he ha =>
    obtain ⟨f, v, hc⟩ := hs.cached he
    have hsel : selected s a (s.cache e).op = some (s.cache e).polHit := by
      rw [selected, ← ha, hc.first, Option.filter_some, if_pos]
      rcases hc.op with ⟨hv, -⟩ | ⟨-, hop, -⟩
      · simp [drops, hc.pol, hc.svr, hv]
      · simp [hop]
    rw [hsel, hc.svrHit]
    exact (counted_countHit hc.pol hc.svr).congr (fun _ => rfl) fun _ => rfl
  | none _ hfirst =>
    rw [selected, hfirst]
    exact Counted.none (fun _ => rfl) fun _ => rfl
  | @unresolved p f v _ hfirst hpol hsvr htry =>
    obtain ⟨-, hres, -⟩ := trySvr_spec o 4 v
    have hinit : v.status = .init := by
      by_contra hv
      rw [hres hv (by decide)] at htry
      cases htry
    have hsel : selected s a .none = .none := by
      rw [selected, hfirst, Option.filter_some, if_neg]
      simp [drops, hpol, hsvr, hinit]
    rw [hsel]
    exact Counted.none (fun _ => rfl) (svrHits_poke hsvr (trySvr_hit o 4 v))
  | fill _ h =>
    rw [h.selected]
    exact h.counted

/-! ## Runs -/

/-- The policy that an operation selects. -/
def SideOp.selects (F : Family n D) (s : PolSide n D) : SideOp n → Option Ptr
  | .getPol o tsc a =>
    match Sasat.getPol F o tsc a s with
    | .ok (r, _) => selected s a r
    | .error _ => none
  | _ => none

/-- The policies that the lookups of a run select, in order. -/
def selections (F : Family n D) : PolSide n D → List (SideOp n) → List Ptr
  | _, [] => []
  | s, op :: ops => (op.selects F s).toList ++
    match op.step F s with
    | .ok s' => selections F s' ops
    | .error _ => []

/-- What an operation keeps, and what it counts. -/
structure StepCounts (s s' : PolSide n D) (sel : Option Ptr) : Prop where
  ext : Extends s s'
  num : s'.serverNum = s.serverNum
  counted : Counted s s' sel
  mem : ∀ p ∈ sel, p ∈ s.polHead

theorem SideOp.step_counts (hs : SideInv F s L) (op : SideOp n) : ∃ s' L', op.step F s = .ok s' ∧
    SideInv F s' L' ∧ StepCounts s s' (op.selects F s) := by
  cases op with
  | other =>
    exact ⟨s, L, rfl, hs, .refl s, rfl, .none (fun _ => rfl) fun _ => rfl, by simp [selects]⟩
  | getPol o tsc a =>
    obtain ⟨r, s', L', hget, hs', hext, hlook⟩ := hs.looked o tsc a
    refine ⟨s', L', by rw [step, hget]; rfl, hs', hext, hlook.serverNum, ?_, ?_⟩
    · rw [selects, hget]
      exact hlook.counted hs
    · rw [selects, hget]
      intro p hp
      exact List.mem_of_find?_eq_some (Option.mem_filter_iff.mp hp).1
  | patrol =>
    obtain ⟨s', L', hrun, hs', hext⟩ := patrolSide_spec hs
    refine ⟨s', L', hrun, hs', hext, ?_, ?_, by simp [selects]⟩
    · obtain ⟨c, q, p, d, rfl⟩ := patrolSide_eq hs hrun
      rfl
    · obtain ⟨c, q, p, d, rfl⟩ := patrolSide_eq hs hrun
      exact Counted.none (fun _ => rfl) fun _ => rfl

theorem Extends.svrOf (h : Extends s s') (p : Ptr) : svrOf s' p = svrOf s p := by
  have hrule := congrArg (Option.map fun r => r.2.2) (h.rule p)
  rw [Option.map_map, Option.map_map] at hrule
  exact hrule

/-- What a run keeps, and what it counts. -/
structure RunCounts (s s' : PolSide n D) (sel : List Ptr) : Prop where
  ext : Extends s s'
  num : s'.serverNum = s.serverNum
  pol : ∀ p, polHits s' p = polHits s p + BitVec.ofNat 32 (sel.count p)
  svr : ∀ q, svrHits s' q =
    svrHits s q + BitVec.ofNat 32 (sel.countP fun p => svrOf s p = some q)
  mem : ∀ p ∈ sel, p ∈ s.polHead

theorem RunCounts.cons {x : Option Ptr} {sel : List Ptr} (h : StepCounts s s' x)
    (h' : RunCounts s' s'' sel) : RunCounts s s'' (x.toList ++ sel) where
  ext := h.ext.trans h'.ext
  num := h'.num.trans h.num
  pol p := by
    rw [h'.pol, h.counted.pol, List.count_append, BitVec.ofNat_add, BitVec.add_assoc]
    congr 2
    cases x with
    | none => rfl
    | some y => by_cases hy : y = p <;> simp [hy]
  svr q := by
    rw [h'.svr, h.counted.svr, List.countP_append, BitVec.ofNat_add, BitVec.add_assoc]
    congr 2
    · cases x with
      | none => rfl
      | some y => by_cases hy : Sasat.svrOf s y = some q <;> simp [hy]
    · simp only [h.ext.svrOf]
  mem p hp := by
    rcases List.mem_append.mp hp with hp | hp
    · exact h.mem p (Option.mem_toList.mp hp)
    · rw [← h.ext.polHead]
      exact h'.mem p hp

/-- **A run counts the policies that its lookups select.** -/
theorem sideRun_counts (ops : List (SideOp n)) :
    ∀ {s : PolSide n D} {L : CacheList → List CachePtr}, SideInv F s L →
      ∃ s' L', sideRun F s ops = .ok s' ∧ SideInv F s' L' ∧
        RunCounts s s' (selections F s ops) := by
  induction ops with
  | nil =>
    intro s L hs
    exact ⟨s, L, rfl, hs, .refl s, rfl, fun _ => (BitVec.add_zero _).symm,
      fun _ => (BitVec.add_zero _).symm, by simp [selections]⟩
  | cons op ops ih =>
    intro s L hs
    obtain ⟨s₁, L₁, hstep, hs₁, hcount⟩ := op.step_counts hs
    obtain ⟨s', L', hrun, hs', hcounts⟩ := ih hs₁
    refine ⟨s', L', by rw [sideRun_cons _ hstep, hrun], hs', ?_⟩
    rw [selections, hstep]
    exact hcounts.cons hcount

/-! ## From a load on -/

theorem sum_ite_eq_count (x : Ptr) (ps : List Ptr) :
    (ps.map fun p => if x = p then 1 else 0).sum = ps.count x := by
  induction ps with
  | nil => rfl
  | cons p ps ih =>
    rw [List.map_cons, List.sum_cons, ih, List.count_cons, Nat.add_comm]
    by_cases hx : x = p
    · simp [hx]
    · simp [hx, Ne.symm hx]

theorem sum_count {ps : List Ptr} (hps : ps.Nodup) (sel : List Ptr) :
    (ps.map fun p => sel.count p).sum = sel.countP fun p => p ∈ ps := by
  induction sel with
  | nil => simp
  | cons x sel ih =>
    simp only [List.count_cons, List.countP_cons, beq_iff_eq]
    rw [List.sum_map_add, ih, sum_ite_eq_count]
    by_cases hx : x ∈ ps
    · simp [hx, List.count_eq_one_of_mem hps hx]
    · simp [hx, List.count_eq_zero_of_not_mem hx]

theorem sum_ofNat (g : Ptr → ℕ) (ps : List Ptr) :
    (ps.map fun p => BitVec.ofNat 32 (g p)).sum = BitVec.ofNat 32 (ps.map g).sum := by
  induction ps with
  | nil => rfl
  | cons p ps ih =>
    rw [List.map_cons, List.sum_cons, ih, List.map_cons, List.sum_cons, BitVec.ofNat_add]

/-- The counters are conserved, when the lookups since the load have selected `sel`. -/
structure HitsOk (s : PolSide n D) (sel : List Ptr) : Prop extends SvrTblOk s where
  pol : ∀ p ∈ s.polHead, ∃ f, s.pols p = some f ∧ f.hitCount = BitVec.ofNat 32 (sel.count p)
  svr : ∀ q ∈ s.svrHead, ∃ v, s.svrs q = some v ∧
    v.hit = ((s.polHead.filter (names s v.svrIp)).map (polHits s)).sum

theorem SvrTblOk.extends (hs : SvrTblOk s) (hl : Live s) (h : Extends s s')
    (hn : s'.serverNum = s.serverNum) : SvrTblOk s' := by
  have hip : ∀ q ∈ s.svrHead, (s'.svrs q).map ServerTbl.svrIp = (s.svrs q).map ServerTbl.svrIp := by
    intro q hq
    obtain ⟨-, v, hv⟩ := hl.svr q hq
    obtain ⟨v', hv', hip, -⟩ := h.svr q v hv
    rw [hv, hv', Option.map_some, Option.map_some, hip]
  refine ⟨?_, ?_, ?_⟩
  · rw [h.svrHead]
    exact hs.nodup
  · rw [h.svrHead]
    intro q hq q' hq' heq
    rw [hip q hq, hip q' hq'] at heq
    exact hs.addr q hq q' hq' heq
  · rw [hn, h.svrHead, hs.num]

theorem names_iff (hs : SvrTblOk s) (hl : Live s) {v : ServerTbl n} (hq : q ∈ s.svrHead)
    (hv : s.svrs q = some v) (hp : p ∈ s.polHead) :
    names s v.svrIp p = true ↔ svrOf s p = some q := by
  obtain ⟨-, f, hf, hmem⟩ := hl.pol p hp
  obtain ⟨-, w, hw⟩ := hl.svr _ hmem
  simp only [names, svrOf, hf, hw, Option.bind_some, Option.any_some, decide_eq_true_eq,
    Option.map_some, Option.some.injEq]
  constructor
  · intro hip
    exact hs.addr _ hmem _ hq (by rw [hw, hv, Option.map_some, Option.map_some, hip])
  · rintro rfl
    rw [hw] at hv
    cases hv
    rfl

/-- **From fresh tables on, the counters are conserved.** -/
theorem Fresh.hitsOk {sel : List Ptr} (hf : Fresh s) (hl : Live s) (hc : RunCounts s s' sel) :
    HitsOk s' sel := by
  have htbl := hf.toSvrTblOk.extends hl hc.ext hc.num
  have hl' := hc.ext.live hl
  have hpol : ∀ p ∈ s'.polHead, polHits s' p = BitVec.ofNat 32 (sel.count p) := by
    intro p hp
    rw [hc.ext.polHead] at hp
    obtain ⟨-, f, hfp, -⟩ := hl.pol p hp
    have hzero : polHits s p = 0 := by
      rw [polHits, hfp]
      exact (hf.pol p hp f hfp).2
    rw [hc.pol, hzero]
    exact BitVec.zero_add _
  refine ⟨htbl, fun p hp => ?_, fun q hq => ?_⟩
  · obtain ⟨-, f, hfp, -⟩ := hl'.pol p hp
    refine ⟨f, hfp, ?_⟩
    have := hpol p hp
    rwa [polHits, hfp] at this
  · obtain ⟨-, v, hv⟩ := hl'.svr q hq
    refine ⟨v, hv, ?_⟩
    have hzero : svrHits s q = 0 := by
      rw [hc.ext.svrHead] at hq
      obtain ⟨-, u, hu⟩ := hl.svr q hq
      rw [svrHits, hu]
      exact hf.svr q hq u hu
    have hhit : v.hit = BitVec.ofNat 32 (sel.countP fun p => svrOf s p = some q) := by
      have := hc.svr q
      rw [hzero, svrHits, hv] at this
      exact this.trans (BitVec.zero_add _)
    have hnd : (s'.polHead.filter (names s' v.svrIp)).Nodup := by
      rw [hc.ext.polHead]
      exact hf.polNodup.filter _
    rw [List.map_congr_left fun p hp => hpol p (List.mem_filter.mp hp).1, sum_ofNat,
      sum_count hnd, hhit]
    congr 1
    refine List.countP_congr fun p hp => ?_
    have hp' : p ∈ s'.polHead := by
      rw [hc.ext.polHead]
      exact hc.mem p hp
    rw [decide_eq_true_eq, decide_eq_true_eq, List.mem_filter, names_iff htbl hl' hq hv hp',
      hc.ext.svrOf]
    simp [hp']

end

/-- From the tables `s` on, the counters of both families are conserved, whatever is looked up. -/
def HitsConserved (s : FrontState) : Prop :=
  ∀ pops : List PacketOp, ∃ s', s.run (pops.map PacketOp.op) = .ok s' ∧
    HitsOk s'.lb4 (selections (family4 s.ifIngress.vip4) s.lb4 (pops.map PacketOp.side4)) ∧
    HitsOk s'.lb6 (selections family6 s.lb6 (pops.map PacketOp.side6))

theorem hitsConserved_of_fresh {s : FrontState} {files : List (PolicyLine 4) × List (PolicyLine 16)}
    (hs : FrontInv s) (hl : Loaded files.1 files.2 s) (h4 : Fresh s.lb4) (h6 : Fresh s.lb6) :
    HitsConserved s := by
  intro pops
  obtain ⟨L4, hs4⟩ := hs.side4
  obtain ⟨L6, hs6⟩ := hs.side6
  obtain ⟨s', hrun, -⟩ := run_spec (pops.map PacketOp.op) hs hl
  obtain ⟨hrun4, hrun6, -⟩ := run_sides pops hrun
  obtain ⟨lb4, -, hside4, -, hc4⟩ := sideRun_counts (pops.map PacketOp.side4) hs4
  obtain ⟨lb6, -, hside6, -, hc6⟩ := sideRun_counts (pops.map PacketOp.side6) hs6
  obtain rfl := Except.ok.inj (hside4.symm.trans hrun4)
  obtain rfl := Except.ok.inj (hside6.symm.trans hrun6)
  exact ⟨s', hrun, h4.hitsOk hs4.live hc4, h6.hitsOk hs6.live hc6⟩

/-- **The hit counters are conserved** from the first load on, and from every reload on. -/
theorem hits_conserved (pool4 : Fin lbMaxCache → LbPolCache 4 (BitVec 16))
    (pool6 : Fin lbMaxCache → LbPolCache 16 Unit) (i : Ifdata) (m : Bool)
    (lines4 : List (PolicyLine 4)) (lines6 : List (PolicyLine 16)) (mem : FrontState) :
    ∃ s₀, frontInit pool4 pool6 i m lines4 lines6 mem = .ok s₀ ∧ HitsConserved s₀ ∧
      ∀ (ops : List FrontOp) (i' : Ifdata) (m' : Bool) (lines4' : List (PolicyLine 4))
        (lines6' : List (PolicyLine 16)),
        ∃ s₁, s₀.run (ops ++ [.reload i' m' lines4' lines6']) = .ok s₁ ∧ HitsConserved s₁ := by
  obtain ⟨s₀, hinit, hs₀, hl₀⟩ := frontInit_spec pool4 pool6 i m lines4 lines6 mem
  refine ⟨s₀, hinit, ?_, fun ops i' m' lines4' lines6' => ?_⟩
  · obtain ⟨lb4, L4, hrun4, -, hf4, -⟩ := load_spec (family4 i.vip4) (some pool4) lines4 mem.lb4
    obtain ⟨lb6, L6, hrun6, -, hf6, -⟩ := load_spec family6 (some pool6) lines6 mem.lb6
    have hinit' := hinit
    rw [frontInit, hrun4, hrun6] at hinit'
    cases hinit'
    exact hitsConserved_of_fresh hs₀
      (show Loaded (lines4, lines6).1 (lines4, lines6).2 _ from hl₀) hf4 hf6
  · obtain ⟨s, hrun, hs, hl⟩ := run_spec ops hs₀
      (show Loaded (lines4, lines6).1 (lines4, lines6).2 s₀ from hl₀)
    obtain ⟨s₁, hstep, hs₁, hl₁⟩ := (FrontOp.reload i' m' lines4' lines6').step_spec hs _ hl
    refine ⟨s₁, ?_, ?_⟩
    · rw [FrontState.run, List.foldlM_append]
      change (s₀.run ops >>= _) = _
      rw [hrun]
      simp only [List.foldlM_cons, List.foldlM_nil, bind, Except.bind]
      rw [hstep]
      rfl
    · obtain ⟨lb4, L4, hrun4, -, hf4, -⟩ := load_spec (family4 i'.vip4) none lines4'
        (destroySvrTbl (destroyPolicyTable s.lb4))
      obtain ⟨lb6, L6, hrun6, -, hf6, -⟩ := load_spec family6 none lines6'
        (destroySvrTbl (destroyPolicyTable s.lb6))
      rw [FrontOp.step, reloadSide, reloadSide, hrun4, hrun6] at hstep
      cases hstep
      exact hitsConserved_of_fresh hs₁ hl₁ hf4 hf6

end Sasat
