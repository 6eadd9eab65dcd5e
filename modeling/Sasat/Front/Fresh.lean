import Sasat.Front.Sides

/-!
# Freshly loaded tables

* `Fresh`: nothing has been counted, and every server address has one entry in the server table.
* `loadLine_fresh`, **`getPolicy_fresh`**: every line of a policy file keeps this, so a load ends in
  it.
* **`load_spec`**: a load ends in a fresh state that satisfies the invariant, with an empty cache.
-/

namespace Sasat

open Intrusive

section

variable {n : ℕ} {D : Type} {F : Family n D} {s s' s₁ : PolSide n D}
  {L : CacheList → List CachePtr} {p q : Ptr} {o : MacOutcomes} {addr : Fin n → Byte}
  {malloc : Option (Fin lbMaxCache → LbPolCache n D)} {lines : List (PolicyLine n)}

structure SvrTblOk (s : PolSide n D) : Prop where
  nodup : s.svrHead.Nodup
  addr : ∀ q ∈ s.svrHead, ∀ q' ∈ s.svrHead,
    (s.svrs q).map ServerTbl.svrIp = (s.svrs q').map ServerTbl.svrIp → q = q'
  num : s.serverNum = s.svrHead.length

/-- The tables right after a load. -/
structure Fresh (s : PolSide n D) : Prop extends SvrTblOk s where
  polNodup : s.polHead.Nodup
  pol : ∀ p ∈ s.polHead, ∀ f, s.pols p = some f → f.useCount = 0 ∧ f.hitCount = 0
  svr : ∀ q ∈ s.svrHead, ∀ v, s.svrs q = some v → v.hit = 0

theorem findSvr_none {svrs : Ptr → Option (ServerTbl n)} {ps : List Ptr}
    (h : findSvr svrs addr ps = .ok none) : ∀ q ∈ ps, ∀ v, svrs q = some v → v.svrIp ≠ addr := by
  induction ps with
  | nil => simp
  | cons p ps ih =>
    obtain ⟨v, hv, h⟩ := bind_eq_ok.mp h
    intro q hq w hw
    split_ifs at h with hip
    · cases h
    · rcases List.mem_cons.mp hq with rfl | hq
      · rw [deref_eq hw, Except.ok.injEq] at hv
        rwa [hv]
      · exact ih h q hq w hw

theorem findSvrTbl_fresh (hl : Live s) (hs : Fresh s) (h : findSvrTbl addr s = .ok (p, s')) :
    Fresh s' := by
  obtain ⟨x, hfind, h⟩ := bind_eq_ok.mp h
  cases x with
  | some p' =>
    cases h
    exact hs
  | none =>
    cases h
    have hne : ∀ q ∈ s.svrHead, q ≠ s.brk := fun q hq => (hl.svr q hq).1.ne
    have hold : ∀ q ∈ s.svrHead, ∀ v : ServerTbl n,
        Function.update s.svrs s.brk (some v) q = s.svrs q :=
      fun q hq v => Function.update_of_ne (hne q hq) _ _
    have hnew : ∀ q ∈ s.svrHead, (s.svrs q).map ServerTbl.svrIp ≠ some addr := by
      intro q hq heq
      obtain ⟨v, hv, hip⟩ := Option.map_eq_some_iff.mp heq
      exact findSvr_none hfind q hq v hv hip
    refine ⟨⟨?_, ?_, ?_⟩, hs.polNodup, hs.pol, ?_⟩
    · exact List.nodup_cons.mpr ⟨fun hm => hne _ hm rfl, hs.nodup⟩
    · intro q hq q' hq' heq
      dsimp only at heq
      rcases List.mem_cons.mp hq with rfl | hq <;> rcases List.mem_cons.mp hq' with rfl | hq'
      · rfl
      · rw [Function.update_self, hold q' hq'] at heq
        exact absurd heq.symm (hnew q' hq')
      · rw [Function.update_self, hold q hq] at heq
        exact absurd heq (hnew q hq)
      · rw [hold q hq, hold q' hq'] at heq
        exact hs.addr q hq q' hq' heq
    · rw [List.length_cons, hs.num]
    · intro q hq v hv
      dsimp only at hv
      rcases List.mem_cons.mp hq with rfl | hq
      · rw [Function.update_self] at hv
        cases hv
        rfl
      · rw [hold q hq] at hv
        exact hs.svr q hq v hv

theorem getSvrTable_fresh (hl : Live s) (hs : Fresh s) (h : getSvrTable o addr s = .ok (p, s')) :
    Fresh s' := by
  obtain ⟨⟨q, s₁⟩, hfind, h⟩ := bind_eq_ok.mp h
  have hs₁ := findSvrTbl_fresh hl hs hfind
  obtain ⟨v, -, h⟩ := bind_eq_ok.mp h
  split_ifs at h
  · cases h
    -- a resolution changes neither the address nor the count
    have hip : ∀ r, ((s₁.modSvr p (resolveTargetMac o)).svrs r).map ServerTbl.svrIp =
        (s₁.svrs r).map ServerTbl.svrIp :=
      fun r => map_poke _ (fun w => (resolveTargetMac_spec o w).1) r
    have hhit : ∀ r, ((s₁.modSvr p (resolveTargetMac o)).svrs r).map ServerTbl.hit =
        (s₁.svrs r).map ServerTbl.hit :=
      fun r => map_poke _ (fun w => (resolveTargetMac_spec o w).2.1) r
    refine ⟨⟨hs₁.nodup, fun r hr r' hr' heq => ?_, hs₁.num⟩, hs₁.polNodup, hs₁.pol,
      fun r hr w hw => ?_⟩
    · rw [hip, hip] at heq
      exact hs₁.addr r hr r' hr' heq
    · have := hhit r
      rw [hw, Option.map_some, eq_comm, Option.map_eq_some_iff] at this
      obtain ⟨u, hu, huw⟩ := this
      exact huw.symm.trans (hs₁.svr r hr u hu)
  · cases h
    exact hs₁

/-- **A line keeps the tables fresh.** -/
theorem loadLine_fresh {line : PolicyLine n} (hl : Live s) (hs : Fresh s)
    (h : loadLine s line = .ok s') : Fresh s' := by
  obtain ⟨⟨p, s₁⟩, hget, h⟩ := bind_eq_ok.mp h
  cases h
  have hs₁ := getSvrTable_fresh hl hs hget
  obtain ⟨p', s₁', hget', hgot⟩ := getSvrTable_spec hl line.outcomes line.svr
  rw [hget', Except.ok.injEq, Prod.mk.injEq] at hget
  obtain ⟨rfl, rfl⟩ := hget
  have hne : ∀ q ∈ s₁'.polHead, q ≠ s₁'.brk := fun q hq => (hgot.live.pol q hq).1.ne
  refine ⟨⟨hs₁.nodup, hs₁.addr, hs₁.num⟩, ?_, fun q hq f hf => ?_, hs₁.svr⟩
  · refine List.nodup_append.mpr ⟨hs₁.polNodup, List.nodup_singleton _, fun q hq q' hq' heq => ?_⟩
    exact hne q hq (heq.trans (List.mem_singleton.mp hq'))
  · change Function.update s₁'.pols s₁'.brk _ q = some f at hf
    rcases List.mem_append.mp hq with hq | hq
    · rw [Function.update_of_ne (hne q hq)] at hf
      exact hs₁.pol q hq f hf
    · rw [List.mem_singleton.mp hq, Function.update_self] at hf
      cases hf
      exact ⟨rfl, rfl⟩

theorem getPolicy_fresh : ∀ {s : PolSide n D}, Live s → Fresh s → getPolicy lines s = .ok s' →
    Fresh s' := by
  induction lines with
  | nil =>
    intro s _ hs h
    cases h
    exact hs
  | cons line lines ih =>
    intro s hl hs h
    rw [getPolicy, List.foldlM_cons] at h
    obtain ⟨s₁, hline, h⟩ := bind_eq_ok.mp h
    obtain ⟨s₁', hline', hl₁, -⟩ := loadLine_spec hl line
    rw [hline', Except.ok.injEq] at hline
    subst hline
    exact ih hl₁ (loadLine_fresh hl hs hline') h

/-- **A load** ends in fresh tables with an empty cache; the entries are those of the pool. -/
theorem load_spec (F : Family n D) (malloc : Option (Fin lbMaxCache → LbPolCache n D))
    (lines : List (PolicyLine n)) (s : PolSide n D) :
    ∃ s' L, getPolicy lines (initPolicyTable malloc (initSvrMngTable s)) = .ok s' ∧
      SideInv F s' L ∧ Fresh s' ∧ (∀ b, L (.hash b) = []) ∧
        s'.cache = (initPolicyTable malloc (initSvrMngTable s)).cache := by
  obtain ⟨s', L, hrun, hs, -⟩ := initLoad_spec F malloc lines s
  obtain ⟨L₀, hpool, hempty⟩ := poolInv_initPolicyTable F malloc (initSvrMngTable s)
  obtain ⟨c, q, heq⟩ := initPolicyTable_eq malloc (initSvrMngTable s)
  have hlive : Live (initPolicyTable malloc (initSvrMngTable s)) := by
    rw [heq]
    exact ⟨fun p hp => absurd hp List.not_mem_nil, fun p hp => absurd hp List.not_mem_nil⟩
  have hfresh : Fresh (initPolicyTable malloc (initSvrMngTable s)) := by
    rw [heq]
    exact ⟨⟨List.nodup_nil, fun _ hq => absurd hq List.not_mem_nil, rfl⟩, List.nodup_nil,
      fun _ hq => absurd hq List.not_mem_nil, fun _ hq => absurd hq List.not_mem_nil⟩
  obtain ⟨s'', hrun', -, -, hcache, htq⟩ := getPolicy_spec lines hlive
  obtain rfl : s' = s'' := Except.ok.inj (hrun.symm.trans hrun')
  have hrep : Rep s'.tq L₀ := by
    rw [htq]
    exact hpool.rep
  obtain rfl := hs.rep.unique hrep
  exact ⟨s', L, hrun, hs, getPolicy_fresh hlive hfresh hrun, hempty, hcache⟩

/-- The server that `find_svr_tbl` creates, once `get_svr_table` has tried to resolve it. -/
def newSvr (o : MacOutcomes) (addr : Fin n → Byte) : ServerTbl n :=
  if addr = 0 then ⟨.drop, addr, 0, 0⟩ else resolveTargetMac o ⟨.init, addr, 0, 0⟩

/-- **A policy file of one line**: every address that it matches has the new policy and server. -/
theorem getPolicy_single (line : PolicyLine n) (hp : s.polHead = []) (hq : s.svrHead = [])
    (h : getPolicy [line] s = .ok s') : ∃ p f, s'.polHead = [p] ∧ s'.pols p = some f ∧
      f.useCount = 0 ∧ s'.svrs f.svr = some (newSvr line.outcomes line.svr) ∧
        ∀ a, maskIp a line.netmask = maskIp line.saddr line.netmask →
          firstMatch s' a = some p := by
  have hget : ∃ s₁, getSvrTable line.outcomes line.svr s = .ok (s.brk, s₁) ∧
      s₁.svrs s.brk = some (newSvr line.outcomes line.svr) ∧ s₁.polHead = s.polHead ∧
        s₁.brk = s.brk + 1 := by
    unfold getSvrTable findSvrTbl newSvr
    rw [hq]
    simp only [findSvr, bind, Except.bind]
    rw [deref_eq (Function.update_self _ _ _)]
    dsimp only
    by_cases hz : line.svr = 0
    · rw [if_pos hz, if_pos hz, if_neg (by decide)]
      exact ⟨_, rfl, Function.update_self _ _ _, rfl, rfl⟩
    · rw [if_neg hz, if_neg hz, if_pos rfl]
      exact ⟨_, rfl, poke_self (Function.update_self _ _ _), rfl, rfl⟩
  obtain ⟨s₁, hget, hsvr, hhead, hbrk⟩ := hget
  have hload : getPolicy [line] s =
      .ok (createPolicyTable s.brk line.saddr line.netmask s₁) := by
    simp only [getPolicy, List.foldlM_cons, List.foldlM_nil, loadLine, hget, bind, Except.bind,
      pure, Except.pure]
  rw [hload] at h
  cases h
  have hpolHead : (createPolicyTable s.brk line.saddr line.netmask s₁).polHead = [s₁.brk] := by
    change s₁.polHead ++ [s₁.brk] = _
    rw [hhead, hp]
    rfl
  have hpols : (createPolicyTable s.brk line.saddr line.netmask s₁).pols s₁.brk =
      some ⟨maskIp line.saddr line.netmask, line.netmask, s.brk, 0, 0⟩ := Function.update_self _ _ _
  refine ⟨s₁.brk, _, hpolHead, hpols, rfl, hsvr, fun a ha => ?_⟩
  rw [firstMatch, hpolHead, List.find?_cons, matchPol_eq hpols, decide_eq_true ha]

end

end Sasat
