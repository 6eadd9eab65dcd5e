import Sasat.Front.Dispatch

/-!
# Loading the policy file

* `rules`: the policies in list order, each with the address of its server.
* `getSvrTable_spec`, **`loadLine_spec`**: a line appends its rule and leaves the others.
* **`getPolicy_spec`**: after a load the rules are the lines of the file.
* **`initLoad_spec`**: initialising the tables and loading a file establishes the invariant.
-/

namespace Sasat

open Intrusive

section

variable {n : ℕ} {D : Type} {F : Family n D} {s s' : PolSide n D}
  {L : CacheList → List CachePtr}

abbrev Rule (n : ℕ) : Type := (Fin n → Byte) × (Fin n → Byte) × (Fin n → Byte)

/-- The rule at pointer `p`. -/
def ruleAt (s : PolSide n D) (p : Ptr) : Option (Rule n) :=
  (s.pols p).bind fun f => (s.svrs f.svr).map fun v => (f.addr, f.mask, v.svrIp)

def rules (s : PolSide n D) : List (Option (Rule n)) := s.polHead.map (ruleAt s)

def PolicyLine.rule (line : PolicyLine n) : Rule n :=
  (maskIp line.saddr line.netmask, line.netmask, line.svr)

theorem ruleAt_eq {p : Ptr} {f : LbPol n} {v : ServerTbl n} (hf : s.pols p = some f)
    (hv : s.svrs f.svr = some v) : ruleAt s p = some (f.addr, f.mask, v.svrIp) := by
  rw [ruleAt, hf, Option.bind_some, hv, Option.map_some]

theorem Extends.rules (h : Extends s s') (hs : Live s) : rules s' = rules s := by
  unfold Sasat.rules
  rw [h.polHead]
  refine List.map_congr_left fun p hp => ?_
  obtain ⟨f, v, hf, hv⟩ := hs.pointers p hp
  obtain ⟨f', hf', haddr, hmask, hsvr⟩ := h.pol hf
  obtain ⟨v', hv', hip, -⟩ := h.svr _ _ hv
  rw [ruleAt_eq hf hv, ruleAt_eq hf' (hsvr ▸ hv'), haddr, hmask, hip]

theorem findSvr_spec {svrs : Ptr → Option (ServerTbl n)} (addr : Fin n → Byte) :
    ∀ {ps : List Ptr}, (∀ p ∈ ps, ∃ v, svrs p = some v) →
      (∃ p v, findSvr svrs addr ps = .ok (some p) ∧ p ∈ ps ∧ svrs p = some v ∧ v.svrIp = addr) ∨
        findSvr svrs addr ps = .ok none
  | [], _ => Or.inr rfl
  | p :: ps, h => by
    obtain ⟨v, hv⟩ := h p List.mem_cons_self
    rw [findSvr, deref_eq hv]
    simp only [bind, Except.bind]
    split_ifs with hip
    · exact Or.inl ⟨p, v, rfl, List.mem_cons_self, hv, hip⟩
    · rcases findSvr_spec addr fun q hq => h q (List.mem_cons_of_mem _ hq) with
        ⟨q, w, h1, h2, h3⟩ | h1
      · exact Or.inl ⟨q, w, h1, List.mem_cons_of_mem _ h2, h3⟩
      · exact Or.inr h1

/-- What `find_svr_tbl` and `get_svr_table` do: server `p` has the address, the others stay. -/
structure GotSvr (addr : Fin n → Byte) (s : PolSide n D) (p : Ptr) (s' : PolSide n D) : Prop where
  live : Live s'
  mem : p ∈ s'.svrHead
  svr : ∃ v, s'.svrs p = some v ∧ v.svrIp = addr
  polHead : s'.polHead = s.polHead
  pols : s'.pols = s.pols
  cache : s'.cache = s.cache
  tq : s'.tq = s.tq
  other : ∀ q ∈ s.svrHead, (s'.svrs q).map ServerTbl.svrIp = (s.svrs q).map ServerTbl.svrIp

theorem findSvrTbl_spec (hs : Live s) (addr : Fin n → Byte) :
    ∃ p s', findSvrTbl addr s = .ok (p, s') ∧ GotSvr addr s p s' := by
  unfold findSvrTbl
  rcases findSvr_spec addr fun q hq => (hs.svr q hq).2 with ⟨p, v, h1, h2, h3, h4⟩ | h1
  · rw [h1]
    exact ⟨p, s, rfl, hs, h2, ⟨v, h3, h4⟩, rfl, rfl, rfl, rfl, fun _ _ => rfl⟩
  · rw [h1]
    have hne : ∀ q ∈ s.svrHead, q ≠ s.brk := fun q hq => (hs.svr q hq).1.ne
    refine ⟨s.brk, _, rfl, ⟨fun p hp => ?_, fun q hq => ?_⟩, List.mem_cons_self,
      ⟨_, Function.update_self _ _ _, rfl⟩, rfl, rfl, rfl, rfl, fun q hq => ?_⟩
    · obtain ⟨hlt, f, hf, hsvr⟩ := hs.pol p hp
      exact ⟨hlt.trans (Nat.lt_succ_self _), f, hf, List.mem_cons_of_mem _ hsvr⟩
    · rcases List.mem_cons.mp hq with rfl | hq
      · exact ⟨Nat.lt_succ_self _, _, Function.update_self _ _ _⟩
      · obtain ⟨hlt, v, hv⟩ := hs.svr q hq
        exact ⟨hlt.trans (Nat.lt_succ_self _), v, (Function.update_of_ne (hne q hq) _ _).trans hv⟩
    · exact congrArg (Option.map _) (Function.update_of_ne (hne q hq) _ _)

theorem getSvrTable_spec (hs : Live s) (o : MacOutcomes) (addr : Fin n → Byte) :
    ∃ p s', getSvrTable o addr s = .ok (p, s') ∧ GotSvr addr s p s' := by
  obtain ⟨p, s₁, hfind, h⟩ := findSvrTbl_spec hs addr
  obtain ⟨v, hv, hip⟩ := h.svr
  unfold getSvrTable
  rw [hfind]
  simp only [bind, Except.bind]
  rw [deref_eq hv]
  dsimp only
  split_ifs with hinit
  · have hres := resolveTargetMac_spec o v
    have hext : Extends s₁ (s₁.modSvr p (resolveTargetMac o)) := by
      refine (Extends.refl s₁).modSvr p fun w hw => ?_
      obtain rfl := Option.some.inj (hw.symm.trans hv)
      exact ⟨hres.1, fun hne => absurd hinit hne⟩
    refine ⟨p, _, rfl, hext.live h.live, h.mem, ⟨_, poke_self hv, hres.1.trans hip⟩, h.polHead,
      h.pols, h.cache, h.tq, fun q hq => ?_⟩
    rw [← h.other q hq]
    exact map_poke ServerTbl.svrIp (fun w => (resolveTargetMac_spec o w).1) q
  · exact ⟨p, s₁, rfl, h⟩

/-- **A line appends its rule** and leaves the cache alone. -/
theorem loadLine_spec (hs : Live s) (line : PolicyLine n) : ∃ s', loadLine s line = .ok s' ∧
    Live s' ∧ rules s' = rules s ++ [some line.rule] ∧ s'.cache = s.cache ∧ s'.tq = s.tq := by
  obtain ⟨p, s₁, hget, h⟩ := getSvrTable_spec hs line.outcomes line.svr
  unfold loadLine
  rw [hget]
  have hne : ∀ q ∈ s.polHead, q ≠ s₁.brk := by
    intro q hq
    rw [← h.polHead] at hq
    exact (h.live.pol q hq).1.ne
  have hold : ∀ q ∈ s.polHead, (createPolicyTable p line.saddr line.netmask s₁).pols q = s.pols q :=
    fun q hq => (Function.update_of_ne (hne q hq) _ _).trans (congrFun h.pols q)
  refine ⟨_, rfl, ⟨fun q hq => ?_, fun q hq => ?_⟩, ?_, h.cache, h.tq⟩
  · rcases List.mem_append.mp hq with hq | hq
    · obtain ⟨hlt, f, hf, hsvr⟩ := h.live.pol q hq
      rw [h.polHead] at hq
      exact ⟨hlt.trans (Nat.lt_succ_self _), f, by rw [hold q hq, ← h.pols, hf], hsvr⟩
    · obtain rfl := List.mem_singleton.mp hq
      exact ⟨Nat.lt_succ_self _, _, Function.update_self _ _ _, h.mem⟩
  · obtain ⟨hlt, v, hv⟩ := h.live.svr q hq
    exact ⟨hlt.trans (Nat.lt_succ_self _), v, hv⟩
  · have hhead : (createPolicyTable p line.saddr line.netmask s₁).polHead =
        s.polHead ++ [s₁.brk] := by
      rw [← h.polHead]
      rfl
    unfold rules
    rw [hhead, List.map_append]
    congr 1
    · refine List.map_congr_left fun q hq => ?_
      obtain ⟨f, v, hf, hv⟩ := hs.pointers q hq
      obtain ⟨-, f', hf', hsvr⟩ := hs.pol q hq
      obtain rfl := Option.some.inj (hf'.symm.trans hf)
      have hother := h.other f'.svr hsvr
      rw [hv, Option.map_some, Option.map_eq_some_iff] at hother
      obtain ⟨w, hw, hip⟩ := hother
      rw [ruleAt_eq hf hv, ruleAt_eq ((hold q hq).trans hf) hw, hip]
    · obtain ⟨v, hv, hip⟩ := h.svr
      rw [List.map_singleton]
      refine congrArg (fun r => [r]) ((ruleAt_eq (Function.update_self _ _ _) hv).trans ?_)
      rw [hip]
      rfl

/-- **After a load the rules are those of the lines.** -/
theorem getPolicy_spec (lines : List (PolicyLine n)) : ∀ {s : PolSide n D}, Live s →
    ∃ s', getPolicy lines s = .ok s' ∧ Live s' ∧
      rules s' = rules s ++ lines.map (fun l => some l.rule) ∧ s'.cache = s.cache ∧
        s'.tq = s.tq := by
  induction lines with
  | nil => exact fun {s} hs => ⟨s, rfl, hs, (List.append_nil _).symm, rfl, rfl⟩
  | cons line lines ih =>
    intro s hs
    obtain ⟨s₁, hload, hlive, hrules, hcache, htq⟩ := loadLine_spec hs line
    obtain ⟨s', hrun, hlive', hrules', hcache', htq'⟩ := ih hlive
    refine ⟨s', ?_, hlive', ?_, hcache'.trans hcache, htq'.trans htq⟩
    · rw [getPolicy, List.foldlM_cons, hload]
      exact hrun
    · rw [hrules', hrules, List.append_assoc]
      rfl

theorem init_empty (malloc : Option (Fin lbMaxCache → LbPolCache n D)) (s : PolSide n D) :
    (initPolicyTable malloc (initSvrMngTable s)).polHead = [] ∧
      (initPolicyTable malloc (initSvrMngTable s)).svrHead = [] := by
  obtain ⟨c, q, heq⟩ := initPolicyTable_eq malloc (initSvrMngTable s)
  rw [heq]
  exact ⟨rfl, rfl⟩

theorem Live.of_empty (h : s.polHead = [] ∧ s.svrHead = []) : Live s := by
  constructor
  · rw [h.1]
    exact fun p hp => absurd hp List.not_mem_nil
  · rw [h.2]
    exact fun p hp => absurd hp List.not_mem_nil

/-- **Initialising the tables and loading a file**: the invariant holds, with an empty cache. -/
theorem initLoad_spec (F : Family n D) (malloc : Option (Fin lbMaxCache → LbPolCache n D))
    (lines : List (PolicyLine n)) (s : PolSide n D) :
    ∃ s' L, getPolicy lines (initPolicyTable malloc (initSvrMngTable s)) = .ok s' ∧
      SideInv F s' L ∧ rules s' = lines.map fun l => some l.rule := by
  obtain ⟨L, hpool, hempty⟩ := poolInv_initPolicyTable F malloc (initSvrMngTable s)
  have hinit := init_empty malloc s
  generalize initPolicyTable malloc (initSvrMngTable s) = s₁ at hpool hinit
  have hhead := hinit.1
  have hlive := Live.of_empty hinit
  obtain ⟨s', hrun, hlive', hrules, hcache, htq⟩ := getPolicy_spec lines hlive
  refine ⟨s', L, hrun, ⟨hpool.congr htq (fun i => ?_) (by rw [hcache]), hlive',
    fun {b e} he => ?_⟩, ?_⟩
  · rw [hcache]
    exact ⟨rfl, rfl, rfl⟩
  · rw [hempty] at he
    exact absurd he List.not_mem_nil
  · rw [hrules, rules, hhead]
    rfl

end

end Sasat
