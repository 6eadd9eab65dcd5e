import Sasat.Front.Fresh
import Sasat.Front.SweepRuns

/-!
# Pointers into the tables

A cache entry points to a policy and to a server, a policy points to a server, and a reload frees
and rebuilds them all.

* `PointersOk`: every pointer of an entry in a bucket leads into the current tables, and the entry
  holds the data of the server that it leads to.
* **`run_pointers`**: this is so in every reachable state.
* **`drop_delta_stale`**: the checksum delta of an entry that drops its packets is left over.
-/

namespace Sasat

open Intrusive

section

variable {n : ℕ} {D : Type} {F : Family n D} {s s' : PolSide n D} {L L' : CacheList → List CachePtr}
  {a : Fin n → Byte} {o : ℕ → MacOutcomes} {e : CachePtr} {r : Option CachePtr}

/-- The pointers between the tables, and what the entries in the buckets have copied. -/
structure PointersOk (F : Family n D) (s : PolSide n D) : Prop where
  pol : ∀ p ∈ s.polHead, ∃ f v, s.pols p = some f ∧ f.svr ∈ s.svrHead ∧ s.svrs f.svr = some v
  entry : ∀ b e, OnQueue s (.hash b) e → ∃ f v, (s.cache e).polHit ∈ s.polHead ∧
    s.pols (s.cache e).polHit = some f ∧ (s.cache e).svrHit = f.svr ∧ s.svrs f.svr = some v ∧
      (s.cache e).lbDstIp = v.svrIp ∧ (s.cache e).lbDstMac = v.dstMac ∧
        (v.status ≠ .drop → (s.cache e).chksumDelta = F.delta v.svrIp)

/-- The entries in the buckets `L` are addressed to the servers of their policies. -/
def Addressed (s : PolSide n D) (L : CacheList → List CachePtr) : Prop :=
  ∀ b, ∀ e ∈ L (.hash b), ∀ f v, s.pols (s.cache e).polHit = some f → s.svrs f.svr = some v →
    (s.cache e).lbDstIp = v.svrIp ∧ (s.cache e).lbDstMac = v.dstMac

theorem SideInv.pointersOk (hs : SideInv F s L) (ha : Addressed s L) : PointersOk F s := by
  constructor
  · intro p hp
    obtain ⟨-, f, hf, hmem⟩ := hs.live.pol p hp
    obtain ⟨-, v, hv⟩ := hs.live.svr _ hmem
    exact ⟨f, v, hf, hmem, hv⟩
  · intro b e he
    rw [onQueue_iff hs.rep] at he
    obtain ⟨f, v, hc⟩ := hs.cached he
    obtain ⟨hip, hmac⟩ := ha b e he f v hc.pol hc.svr
    refine ⟨f, v, List.mem_of_find?_eq_some hc.first, hc.pol, hc.svrHit, hc.svr, hip, hmac,
      fun hd => ?_⟩
    rcases hc.op with ⟨hdrop, -⟩ | ⟨-, -, -, -, hdelta⟩
    · exact absurd hdrop hd
    · exact hdelta

theorem Addressed.mono (ha : Addressed s L) (hs : SideInv F s L) (h : Extends s s')
    {b : Fin lbPolDivisor} (he : e ∈ L (.hash b)) (hpol : (s'.cache e).polHit = (s.cache e).polHit)
    (hip : (s'.cache e).lbDstIp = (s.cache e).lbDstIp)
    (hmac : (s'.cache e).lbDstMac = (s.cache e).lbDstMac) {f' : LbPol n} {v' : ServerTbl n}
    (hf' : s'.pols (s'.cache e).polHit = some f') (hv' : s'.svrs f'.svr = some v') :
    (s'.cache e).lbDstIp = v'.svrIp ∧ (s'.cache e).lbDstMac = v'.dstMac := by
  obtain ⟨f, v, hc⟩ := hs.cached he
  obtain ⟨f₁, hf₁, -, -, hsvr⟩ := h.pol hc.pol
  rw [hpol, hf₁] at hf'
  obtain rfl := Option.some.inj hf'
  obtain ⟨v₁, hv₁, hvip, hres⟩ := h.svr _ _ hc.svr
  rw [hsvr, hv₁] at hv'
  obtain rfl := Option.some.inj hv'
  obtain ⟨h1, h2⟩ := ha b e he f v hc.pol hc.svr
  rw [hip, hmac, hvip, (hres hc.stat.2).2]
  exact ⟨h1, h2⟩

theorem Addressed.looked (ha : Addressed s L) (hs : SideInv F s L) (hext : Extends s s')
    (h : Looked F o a s L r s' L') : Addressed s' L' := by
  intro b e he f' v' hf' hv'
  by_cases hold : ∃ b, e ∈ L (.hash b)
  · obtain ⟨b, hold⟩ := hold
    obtain ⟨k, hk⟩ := h.cache hs.toPoolInv hold
    exact ha.mono hs hext hold (by rw [hk]) (by rw [hk]) (by rw [hk]) hf' hv'
  · -- the entry has been filled by this lookup
    cases h with
    | hit => exact absurd ⟨b, he⟩ hold
    | none => exact absurd ⟨b, he⟩ hold
    | unresolved => exact absurd ⟨b, he⟩ hold
    | @fill p f v w e₁ _ _ _ _ h =>
      rcases h.queue with ⟨-, -, rfl, -⟩ | ⟨l, hl, -, rfl⟩
      · exact absurd ⟨b, he⟩ hold
      · obtain ⟨-, hm⟩ := hs.rep.moveToHead hl (by simp : CacheList.hash (F.hash a) ≠ .free)
        rcases (hm _ _).mp he with ⟨rfl, -⟩ | ⟨-, he⟩
        · obtain ⟨-, hpol, hip, hmac⟩ := h.data
          rw [hpol, h.pols, poke_self h.pol] at hf'
          cases hf'
          rw [h.svrAfter] at hv'
          cases hv'
          exact ⟨hip, hmac⟩
        · exact absurd ⟨b, he⟩ hold

theorem Addressed.patrol (ha : Addressed s L) (hs : SideInv F s L) :
    ∃ s' L', patrolSide s = .ok s' ∧ SideInv F s' L' ∧ Addressed s' L' := by
  obtain ⟨s', L', hrun, hs', hext, hsub⟩ := patrolSide_hash hs
  refine ⟨s', L', hrun, hs', fun b e he f v hf hv => ?_⟩
  obtain ⟨t, ht⟩ := patrolSide_entries hrun e
  exact ha.mono hs hext (hsub b e he) (by rw [ht]) (by rw [ht]) (by rw [ht]) hf hv

theorem Addressed.of_empty (h : ∀ b, L (.hash b) = []) : Addressed s L := by
  intro b e he
  rw [h] at he
  exact absurd he List.not_mem_nil

end

/-! ## The translator -/

/-- The entries of both families are addressed to the servers of their policies. -/
structure FrontAddressed (s : FrontState) : Prop where
  side4 : ∃ L, SideInv (family4 s.ifIngress.vip4) s.lb4 L ∧ Addressed s.lb4 L
  side6 : ∃ L, SideInv family6 s.lb6 L ∧ Addressed s.lb6 L
  vip4 : s.vip4 = s.ifIngress.vip4

theorem FrontAddressed.step {s s' : FrontState} (hs : FrontAddressed s) (op : FrontOp)
    (h : op.step s = .ok s') : FrontAddressed s' := by
  obtain ⟨L4, h4, ha4⟩ := hs.side4
  obtain ⟨L6, h6, ha6⟩ := hs.side6
  cases op with
  | getPol4 o tsc a =>
    obtain ⟨r, lb, L', hget, hlb, hext, hlook⟩ := h4.looked o tsc a
    rw [FrontOp.step, getPolV4, hget] at h
    cases h
    exact ⟨⟨L', hlb, ha4.looked h4 hext hlook⟩, hs.side6, hs.vip4⟩
  | getPol6 o tsc a =>
    obtain ⟨r, lb, L', hget, hlb, hext, hlook⟩ := h6.looked o tsc a
    rw [FrontOp.step, getPolV6, hget] at h
    cases h
    exact ⟨hs.side4, ⟨L', hlb, ha6.looked h6 hext hlook⟩, hs.vip4⟩
  | patrol =>
    obtain ⟨⟨tv, s₁⟩, hrun, h⟩ := bind_eq_ok.mp h
    cases h
    obtain ⟨hrun4, hrun6, hi⟩ := procPatrol_sides hrun
    obtain ⟨lb4, L4', hp4, hs4, hb4⟩ := ha4.patrol h4
    obtain ⟨lb6, L6', hp6, hs6, hb6⟩ := ha6.patrol h6
    obtain rfl := Except.ok.inj (hp4.symm.trans hrun4)
    obtain rfl := Except.ok.inj (hp6.symm.trans hrun6)
    refine ⟨⟨L4', hi ▸ hs4, hb4⟩, ⟨L6', hs6, hb6⟩, ?_⟩
    rw [hi, ← hs.vip4]
    unfold procPatrol at hrun
    split_ifs at hrun
    · obtain ⟨lb4', -, hrun⟩ := bind_eq_ok.mp hrun
      obtain ⟨lb6', -, hrun⟩ := bind_eq_ok.mp hrun
      cases hrun
      rfl
    · cases hrun
      rfl
  | reload i m lines4 lines6 =>
    obtain ⟨lb4, L4', hrun4, hs4, -, hempty4, -⟩ := load_spec (family4 i.vip4) none lines4
      (destroySvrTbl (destroyPolicyTable s.lb4))
    obtain ⟨lb6, L6', hrun6, hs6, -, hempty6, -⟩ := load_spec family6 none lines6
      (destroySvrTbl (destroyPolicyTable s.lb6))
    rw [FrontOp.step, reloadSide, reloadSide, hrun4, hrun6] at h
    cases h
    exact ⟨⟨L4', hs4, .of_empty hempty4⟩, ⟨L6', hs6, .of_empty hempty6⟩, rfl⟩

/-- **In every reachable state the pointers between the tables are good**, and the entries in the
buckets hold the data of the current servers; the checksum delta is that of the current server and
virtual address unless the entry drops its packets. -/
theorem run_pointers (pool4 : Fin lbMaxCache → LbPolCache 4 (BitVec 16))
    (pool6 : Fin lbMaxCache → LbPolCache 16 Unit) (i : Ifdata) (m : Bool)
    (lines4 : List (PolicyLine 4)) (lines6 : List (PolicyLine 16)) (mem : FrontState)
    (ops : List FrontOp) :
    ∃ s₀ s, frontInit pool4 pool6 i m lines4 lines6 mem = .ok s₀ ∧ s₀.run ops = .ok s ∧
      s.vip4 = s.ifIngress.vip4 ∧ PointersOk (family4 s.vip4) s.lb4 ∧ PointersOk family6 s.lb6 := by
  obtain ⟨s₀, hinit, hs₀, hl₀⟩ := frontInit_spec pool4 pool6 i m lines4 lines6 mem
  have h₀ : FrontAddressed s₀ := by
    obtain ⟨lb4, L4, hrun4, hs4, -, hempty4, -⟩ :=
      load_spec (family4 i.vip4) (some pool4) lines4 mem.lb4
    obtain ⟨lb6, L6, hrun6, hs6, -, hempty6, -⟩ := load_spec family6 (some pool6) lines6 mem.lb6
    have hinit' := hinit
    rw [frontInit, hrun4, hrun6] at hinit'
    cases hinit'
    exact ⟨⟨L4, hs4, .of_empty hempty4⟩, ⟨L6, hs6, .of_empty hempty6⟩, rfl⟩
  obtain ⟨s, hrun, -, -, hs⟩ := run_preserves (fun op _ ha h => FrontAddressed.step ha op h) ops hs₀
    (show Loaded (lines4, lines6).1 (lines4, lines6).2 s₀ from hl₀) h₀
  obtain ⟨L4, h4, ha4⟩ := hs.side4
  obtain ⟨L6, h6, ha6⟩ := hs.side6
  refine ⟨s₀, s, hinit, hrun, hs.vip4, ?_, h6.pointersOk ha6⟩
  rw [hs.vip4]
  exact h4.pointersOk ha4

/-! ## Entries that drop -/

section

variable {n : ℕ} {D : Type} {F : Family n D} {s : PolSide n D} {L : CacheList → List CachePtr}
  {a : Fin n → Byte} {o : ℕ → MacOutcomes} {tsc : BitVec 64} {p : Ptr} {f : LbPol n}
  {v : ServerTbl n}

/-- An entry that is filled for a policy that drops keeps its checksum delta. -/
theorem getPol_drop (hs : SideInv F s L) (hempty : ∀ b, L (.hash b) = [])
    (hfirst : firstMatch s a = some p) (hf : s.pols p = some f) (hv : s.svrs f.svr = some v)
    (hd : v.status = .drop) : ∃ r s' i, getPol F o tsc a s = .ok (r, s') ∧
      OnQueue s' (.hash (F.hash a)) (.init i) ∧
      (s'.cache (.init i)).chksumDelta = (s.cache (.init i)).chksumDelta ∧
      (s'.cache (.init i)).lbDstIp = v.svrIp := by
  obtain ⟨r, s', L', hget, hs', -, hlook⟩ := hs.looked o tsc a
  have htry : trySvr o 4 v = (true, v) := (trySvr_spec o 4 v).2.1 (by rw [hd]; decide) (by decide)
  have hmiss : ∀ e ∈ L (.hash (F.hash a)), (s.cache e).lbSrcIp ≠ a := by
    intro e he
    rw [hempty] at he
    exact absurd he List.not_mem_nil
  obtain ⟨e, h⟩ := hlook.fill_of hmiss hfirst hf hv htry
  obtain ⟨k, hfree⟩ := hs.pool ⟨0, by decide⟩
  have hk : k = .free := by
    cases k with
    | free => rfl
    | hash b =>
      rw [hempty] at hfree
      exact absurd hfree List.not_mem_nil
  rcases h.queue with ⟨hnil, -⟩ | ⟨l, hl, -, hL'⟩
  · rw [hk, hnil] at hfree
    exact absurd hfree List.not_mem_nil
  · obtain ⟨i, rfl⟩ := hs.exists_init (h := .free) (hl ▸ List.mem_cons_self)
    refine ⟨r, s', i, hget, ?_, ?_, h.data.2.2.1⟩
    · rw [onQueue_iff hs'.rep, hL', Function.update_self]
      exact List.mem_cons_self
    · obtain ⟨t, k, hentry⟩ := h.entry
      rw [hentry, if_pos hd]
      rfl

theorem foldl_freeEntry_delta (e : CachePtr) : ∀ (is : List (Fin lbMaxCache)) (s : PolSide n D),
    ((is.foldl freeEntry s).cache e).chksumDelta = (s.cache e).chksumDelta
  | [], _ => rfl
  | i :: is, s => by
    rw [List.foldl_cons, foldl_freeEntry_delta e is]
    by_cases he : e = .init i
    · subst he
      rw [freeEntry_cache_self]
    · rw [freeEntry_cache_of_ne he]

theorem initPolicyTable_delta (pool : Fin lbMaxCache → LbPolCache n D) (s : PolSide n D)
    (i : Fin lbMaxCache) :
    ((initPolicyTable (some pool) s).cache (.init i)).chksumDelta = (pool i).chksumDelta := by
  unfold initPolicyTable
  dsimp only
  rw [PolSide.modCache_of_ne (by simp), foldl_freeEntry_delta]
  rfl

end

/-- An interface with the virtual address 10.0.0.1. -/
def vipIfdata : Ifdata := ⟨0, 0, true, true, 0, 0, ![10, 0, 0, 1], 0, 0⟩

/-- With the policy `0.0.0.0, 0.0.0.0, 0.0.0.0`, the first packet fills an entry whose checksum
delta is not that of its destination and the virtual address. -/
theorem drop_delta_stale : ∃ s₀ s b e,
    frontInit (fun _ => ⟨0, 0, 0, 0, .init, 0, 0, 0, 0, none, 0⟩)
      (fun _ => ⟨0, 0, 0, 0, .init, (), 0, 0, 0, none, 0⟩) vipIfdata false
      [⟨0, 0, 0, fun _ => ⟨false, 0⟩⟩] [] bootState = .ok s₀ ∧
    s₀.run [.getPol4 (fun _ _ => ⟨false, 0⟩) 0 0] = .ok s ∧ OnQueue s.lb4 (.hash b) e ∧
    (s.lb4.cache e).chksumDelta ≠ (family4 s.vip4).delta (s.lb4.cache e).lbDstIp := by
  set pool : Fin lbMaxCache → LbPolCache 4 (BitVec 16) :=
    fun _ => ⟨0, 0, 0, 0, .init, 0, 0, 0, 0, none, 0⟩
  set pool6 : Fin lbMaxCache → LbPolCache 16 Unit :=
    fun _ => ⟨0, 0, 0, 0, .init, (), 0, 0, 0, none, 0⟩
  obtain ⟨lb4, L, hrun4, hs, -, hempty, hcache⟩ := load_spec (family4 vipIfdata.vip4) (some pool)
    [⟨0, 0, 0, fun _ => ⟨false, 0⟩⟩] bootState.lb4
  obtain ⟨lb6, -, hrun6, -⟩ := load_spec family6 (some pool6) [] bootState.lb6
  have hdelta : ∀ i, (lb4.cache (.init i)).chksumDelta = 0 := by
    intro i
    rw [hcache, initPolicyTable_delta]
  obtain ⟨c, q, heq⟩ := initPolicyTable_eq (some pool) (initSvrMngTable bootState.lb4)
  obtain ⟨p, f, -, hf, -, hv, hmatch⟩ := getPolicy_single _ (by rw [heq]) (by rw [heq]; rfl) hrun4
  obtain ⟨r, lb, i, hget, hqueue, hkeep, hip⟩ := @getPol_drop _ _ _ _ _ 0
    (fun _ _ => ⟨false, 0⟩) 0 _ _ _ hs hempty (hmatch 0 rfl) hf hv rfl
  refine ⟨{ bootState.withConfig vipIfdata false with lb4 := lb4, lb6 := lb6 },
    { bootState.withConfig vipIfdata false with lb4 := lb, lb6 := lb6 }, _, .init i, ?_, ?_, hqueue,
    ?_⟩
  · rw [frontInit, hrun4, hrun6]
    rfl
  · rw [FrontState.run, List.foldlM_cons, FrontOp.step, getPolV4]
    dsimp only [FrontState.withConfig]
    rw [hget]
    rfl
  · dsimp only
    rw [hkeep, hdelta, hip]
    decide

end Sasat
