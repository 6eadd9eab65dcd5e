import Sasat.Front.Sweep
import Sasat.Front.Load

/-!
# Runs of the front translator

* `FrontOp`, `FrontState.run`: lookups, ticks of the patrol and reloads in any order.
* `FrontInv`: the invariant of both address families; **`run_spec`**: every run keeps it.
* **`run_poolOk`**: in every reachable state the cache entries are where they belong.
* **`run_transparent`**: in every reachable state a lookup answers as the first matching policy.
-/

namespace Sasat

open Intrusive

/-- An operation on the dispatch tables. -/
inductive FrontOp
  | getPol4 (o : ℕ → MacOutcomes) (tsc : BitVec 64) (saddr : InAddr)
  | getPol6 (o : ℕ → MacOutcomes) (tsc : BitVec 64) (saddr : In6Addr)
  | patrol
  /-- `update_policy` with a new configuration and policy file. -/
  | reload (ifIngress : Ifdata) (vipMode : Bool) (lines4 : List (PolicyLine 4))
      (lines6 : List (PolicyLine 16))

/-- The new packet thread copies the virtual addresses. -/
def FrontState.withConfig (s : FrontState) (ifIngress : Ifdata) (vipMode : Bool) : FrontState :=
  { s with
    ifIngress := ifIngress
    vipMode := vipMode
    vip4 := ifIngress.vip4
    vip6 := ifIngress.vip6 }

def FrontOp.step (s : FrontState) : FrontOp → M FrontState
  | .getPol4 o tsc a => do
    let (_, s) ← getPolV4 o tsc a s
    .ok s
  | .getPol6 o tsc a => do
    let (_, s) ← getPolV6 o tsc a s
    .ok s
  | .patrol => do
    let (_, s) ← procPatrol s
    .ok s
  | .reload i m lines4 lines6 => do
    let lb4 ← reloadSide lines4 s.lb4
    let lb6 ← reloadSide lines6 s.lb6
    .ok { s.withConfig i m with lb4 := lb4, lb6 := lb6 }

def FrontState.run (s : FrontState) (ops : List FrontOp) : M FrontState := ops.foldlM FrontOp.step s

/-- The start of the translator on the memory `s`: `init_svr_mng_table`, `init_policy_table(0)` and
`get_policy`. -/
def frontInit (pool4 : Fin lbMaxCache → LbPolCache 4 (BitVec 16))
    (pool6 : Fin lbMaxCache → LbPolCache 16 Unit) (i : Ifdata) (m : Bool)
    (lines4 : List (PolicyLine 4)) (lines6 : List (PolicyLine 16)) (s : FrontState) :
    M FrontState := do
  let lb4 ← getPolicy lines4 (initPolicyTable (some pool4) (initSvrMngTable s.lb4))
  let lb6 ← getPolicy lines6 (initPolicyTable (some pool6) (initSvrMngTable s.lb6))
  .ok { s.withConfig i m with lb4 := lb4, lb6 := lb6 }

/-- The invariant of both address families. -/
structure FrontInv (s : FrontState) : Prop where
  side4 : ∃ L, SideInv (family4 s.ifIngress.vip4) s.lb4 L
  side6 : ∃ L, SideInv family6 s.lb6 L

variable {s : FrontState}

theorem getPolV4_spec (hs : FrontInv s) (o : ℕ → MacOutcomes) (tsc : BitVec 64) (a : InAddr) :
    ∃ r lb, getPolV4 o tsc a s = .ok (r, { s with lb4 := lb }) ∧ FrontInv { s with lb4 := lb } ∧
      Extends s.lb4 lb ∧ Answer (family4 s.ifIngress.vip4) s.lb4 a r lb := by
  obtain ⟨L, hL⟩ := hs.side4
  obtain ⟨r, lb, L', hget, hlb, hext, hans⟩ := hL.getPol_spec o tsc a
  refine ⟨r, lb, ?_, ⟨⟨L', hlb⟩, hs.side6⟩, hext, hans⟩
  rw [getPolV4, hget]
  rfl

theorem getPolV6_spec (hs : FrontInv s) (o : ℕ → MacOutcomes) (tsc : BitVec 64) (a : In6Addr) :
    ∃ r lb, getPolV6 o tsc a s = .ok (r, { s with lb6 := lb }) ∧ FrontInv { s with lb6 := lb } ∧
      Extends s.lb6 lb ∧ Answer family6 s.lb6 a r lb := by
  obtain ⟨L, hL⟩ := hs.side6
  obtain ⟨r, lb, L', hget, hlb, hext, hans⟩ := hL.getPol_spec o tsc a
  refine ⟨r, lb, ?_, ⟨hs.side4, ⟨L', hlb⟩⟩, hext, hans⟩
  rw [getPolV6, hget]
  rfl

theorem procPatrol_spec (hs : FrontInv s) : ∃ tv s', procPatrol s = .ok (tv, s') ∧ FrontInv s' ∧
    s'.ifIngress = s.ifIngress ∧ Extends s.lb4 s'.lb4 ∧ Extends s.lb6 s'.lb6 := by
  obtain ⟨L4, h4⟩ := hs.side4
  obtain ⟨L6, h6⟩ := hs.side6
  obtain ⟨lb4, L4', hrun4, hs4, hext4⟩ := patrolSide_spec h4
  obtain ⟨lb6, L6', hrun6, hs6, hext6⟩ := patrolSide_spec h6
  unfold procPatrol
  split_ifs
  · rw [hrun4, hrun6]
    exact ⟨_, _, rfl, ⟨⟨L4', hs4⟩, ⟨L6', hs6⟩⟩, rfl, hext4, hext6⟩
  · exact ⟨_, s, rfl, hs, rfl, Extends.refl _, Extends.refl _⟩

/-- The rules of both families are the lines of two policy files. -/
structure Loaded (lines4 : List (PolicyLine 4)) (lines6 : List (PolicyLine 16)) (s : FrontState) :
    Prop where
  rules4 : rules s.lb4 = lines4.map fun l => some l.rule
  rules6 : rules s.lb6 = lines6.map fun l => some l.rule

theorem frontInit_spec (pool4 : Fin lbMaxCache → LbPolCache 4 (BitVec 16))
    (pool6 : Fin lbMaxCache → LbPolCache 16 Unit) (i : Ifdata) (m : Bool)
    (lines4 : List (PolicyLine 4)) (lines6 : List (PolicyLine 16)) (mem : FrontState) :
    ∃ s, frontInit pool4 pool6 i m lines4 lines6 mem = .ok s ∧ FrontInv s ∧
      Loaded lines4 lines6 s := by
  obtain ⟨lb4, L4, hrun4, h4, hr4⟩ := initLoad_spec (family4 i.vip4) (some pool4) lines4 mem.lb4
  obtain ⟨lb6, L6, hrun6, h6, hr6⟩ := initLoad_spec family6 (some pool6) lines6 mem.lb6
  unfold frontInit
  rw [hrun4, hrun6]
  exact ⟨_, rfl, ⟨⟨L4, h4⟩, ⟨L6, h6⟩⟩, ⟨hr4, hr6⟩⟩

/-- The policy files that are loaded after an operation. -/
def FrontOp.files (op : FrontOp) (old : List (PolicyLine 4) × List (PolicyLine 16)) :
    List (PolicyLine 4) × List (PolicyLine 16) :=
  match op with
  | .reload _ _ lines4 lines6 => (lines4, lines6)
  | _ => old

/-- **Every operation returns and keeps the invariant.** -/
theorem FrontOp.step_spec (hs : FrontInv s) (files : List (PolicyLine 4) × List (PolicyLine 16))
    (hl : Loaded files.1 files.2 s) (op : FrontOp) : ∃ s', op.step s = .ok s' ∧ FrontInv s' ∧
      Loaded (op.files files).1 (op.files files).2 s' := by
  obtain ⟨L4, h4⟩ := hs.side4
  obtain ⟨L6, h6⟩ := hs.side6
  cases op with
  | getPol4 o tsc a =>
    obtain ⟨r, lb, hget, hinv, hext, -⟩ := getPolV4_spec hs o tsc a
    refine ⟨_, by rw [step, hget]; rfl, hinv, ⟨?_, hl.rules6⟩⟩
    exact (hext.rules h4.live).trans hl.rules4
  | getPol6 o tsc a =>
    obtain ⟨r, lb, hget, hinv, hext, -⟩ := getPolV6_spec hs o tsc a
    refine ⟨_, by rw [step, hget]; rfl, hinv, ⟨hl.rules4, ?_⟩⟩
    exact (hext.rules h6.live).trans hl.rules6
  | patrol =>
    obtain ⟨tv, s', hrun, hinv, -, hext4, hext6⟩ := procPatrol_spec hs
    refine ⟨s', by rw [step, hrun]; rfl, hinv, ⟨?_, ?_⟩⟩
    · exact (hext4.rules h4.live).trans hl.rules4
    · exact (hext6.rules h6.live).trans hl.rules6
  | reload i m lines4 lines6 =>
    obtain ⟨lb4, L4', hrun4, h4', hr4⟩ := initLoad_spec (family4 i.vip4) none lines4
      (destroySvrTbl (destroyPolicyTable s.lb4))
    obtain ⟨lb6, L6', hrun6, h6', hr6⟩ := initLoad_spec family6 none lines6
      (destroySvrTbl (destroyPolicyTable s.lb6))
    rw [step, reloadSide, reloadSide, hrun4, hrun6]
    exact ⟨_, rfl, ⟨⟨L4', h4'⟩, ⟨L6', h6'⟩⟩, ⟨hr4, hr6⟩⟩

/-- **Every run returns and keeps the invariant**, and the rules are those of the last load. -/
theorem run_spec (ops : List FrontOp) : ∀ {s : FrontState}
    {files : List (PolicyLine 4) × List (PolicyLine 16)}, FrontInv s → Loaded files.1 files.2 s →
      ∃ s', s.run ops = .ok s' ∧ FrontInv s' ∧
        Loaded (ops.foldl (fun f op => op.files f) files).1
          (ops.foldl (fun f op => op.files f) files).2 s' := by
  induction ops with
  | nil => exact fun {s files} hs hl => ⟨s, rfl, hs, hl⟩
  | cons op ops ih =>
    intro s files hs hl
    obtain ⟨s₁, hstep, hs₁, hl₁⟩ := op.step_spec hs _ hl
    obtain ⟨s', hrun, hs', hl'⟩ := ih hs₁ hl₁
    refine ⟨s', ?_, hs', hl'⟩
    rw [FrontState.run, List.foldlM_cons, hstep]
    exact hrun

/-! ## The queues -/

/-- The cache pool of one family, with the contents `L` of the free list and the buckets. -/
structure PoolOk {n : ℕ} {D : Type} (F : Family n D) (s : PolSide n D)
    (L : CacheList → List CachePtr) : Prop where
  links : ∀ h, Links s.tq.next (s.tq.first h) (L h)
  once : ∀ i, ∃ h, (L h).count (.init i) = 1 ∧ ∀ h', .init i ∈ L h' → h' = h
  hash : ∀ {b e}, e ∈ L (.hash b) → F.hash (s.cache e).lbSrcIp = b
  inj : ∀ {b b' e e'}, e ∈ L (.hash b) → e' ∈ L (.hash b') →
    (s.cache e).lbSrcIp = (s.cache e').lbSrcIp → e = e'
  fix : ∀ h, .fix ∉ L h
  stat : ∀ i, (s.cache (.init i)).lbStat ≠ .init ↔ ∃ b, .init i ∈ L (.hash b)

theorem PoolInv.ok {n : ℕ} {D : Type} {F : Family n D} {s : PolSide n D}
    {L : CacheList → List CachePtr} (hs : PoolInv F s L) : PoolOk F s L where
  links := hs.rep.links
  once i := by
    obtain ⟨h, hi⟩ := hs.pool i
    exact ⟨h, List.count_eq_one_of_mem (hs.rep.nodup h) hi, fun h' hi' => hs.rep.disj hi' hi⟩
  hash := hs.hash
  inj := hs.inj
  fix := hs.fix
  stat := hs.stat

/-- **In every reachable state the cache entries are where they belong.** -/
theorem run_poolOk (pool4 : Fin lbMaxCache → LbPolCache 4 (BitVec 16))
    (pool6 : Fin lbMaxCache → LbPolCache 16 Unit) (i : Ifdata) (m : Bool)
    (lines4 : List (PolicyLine 4)) (lines6 : List (PolicyLine 16)) (mem : FrontState)
    (ops : List FrontOp) :
    ∃ s₀ s, frontInit pool4 pool6 i m lines4 lines6 mem = .ok s₀ ∧ s₀.run ops = .ok s ∧
      (∃ L, PoolOk (family4 s.ifIngress.vip4) s.lb4 L) ∧ ∃ L, PoolOk family6 s.lb6 L := by
  obtain ⟨s₀, hinit, hs₀, hl₀⟩ := frontInit_spec pool4 pool6 i m lines4 lines6 mem
  obtain ⟨s, hrun, hs, -⟩ := run_spec ops hs₀
    (show Loaded (lines4, lines6).1 (lines4, lines6).2 s₀ from hl₀)
  obtain ⟨L4, h4⟩ := hs.side4
  obtain ⟨L6, h6⟩ := hs.side6
  exact ⟨s₀, s, hinit, hrun, ⟨L4, h4.toPoolInv.ok⟩, ⟨L6, h6.toPoolInv.ok⟩⟩

/-! ## The answers -/

/-- The first rule of a policy file that matches the address `a`. -/
def firstRule {n : ℕ} (lines : List (PolicyLine n)) (a : Fin n → Byte) : Option (Rule n) :=
  (lines.map PolicyLine.rule).find? fun r => maskIp a r.2.1 = r.1

theorem firstMatch_rule {n : ℕ} {D : Type} {s : PolSide n D} (hs : Live s)
    {lines : List (PolicyLine n)} (hl : rules s = lines.map fun l => some l.rule)
    (a : Fin n → Byte) : (firstMatch s a).bind (ruleAt s) = firstRule lines a := by
  have key : ∀ (ps : List Ptr) (lines : List (PolicyLine n)),
      (∀ p ∈ ps, ∃ f v, s.pols p = some f ∧ s.svrs f.svr = some v) →
      ps.map (ruleAt s) = lines.map (fun l => some l.rule) →
      (ps.find? (matchPol s a)).bind (ruleAt s) = firstRule lines a := by
    intro ps
    induction ps with
    | nil =>
      intro lines _ h
      obtain rfl := List.map_eq_nil_iff.mp h.symm
      rfl
    | cons p ps ih =>
      intro lines hps h
      cases lines with
      | nil => exact absurd h (by simp)
      | cons line lines =>
        rw [List.map_cons, List.map_cons, List.cons.injEq] at h
        obtain ⟨f, v, hf, hv⟩ := hps p List.mem_cons_self
        have hrule := h.1
        rw [ruleAt_eq hf hv] at hrule
        have ih := ih lines (fun q hq => hps q (List.mem_cons_of_mem _ hq)) h.2
        unfold firstRule at ih ⊢
        rw [List.find?_cons, List.map_cons, List.find?_cons, ← Option.some.inj hrule,
          matchPol_eq hf]
        by_cases hm : maskIp a f.mask = f.addr
        · rw [decide_eq_true hm]
          exact ruleAt_eq hf hv
        · rw [decide_eq_false hm]
          exact ih
  exact key s.polHead lines hs.pointers hl

/-- **In every reachable state a lookup returns and answers as the first matching policy**, which
is the first matching line of the policy file that was loaded last. -/
theorem run_transparent (pool4 : Fin lbMaxCache → LbPolCache 4 (BitVec 16))
    (pool6 : Fin lbMaxCache → LbPolCache 16 Unit) (i : Ifdata) (m : Bool)
    (files : List (PolicyLine 4) × List (PolicyLine 16)) (mem : FrontState) (ops : List FrontOp) :
    ∃ s₀ s, frontInit pool4 pool6 i m files.1 files.2 mem = .ok s₀ ∧ s₀.run ops = .ok s ∧
      (∀ o tsc a, ∃ r s', getPolV4 o tsc a s = .ok (r, s') ∧
        Answer (family4 s.ifIngress.vip4) s.lb4 a r s'.lb4 ∧
          (firstMatch s.lb4 a).bind (ruleAt s.lb4) =
            firstRule (ops.foldl (fun f op => op.files f) files).1 a) ∧
      ∀ o tsc a, ∃ r s', getPolV6 o tsc a s = .ok (r, s') ∧
        Answer family6 s.lb6 a r s'.lb6 ∧
          (firstMatch s.lb6 a).bind (ruleAt s.lb6) =
            firstRule (ops.foldl (fun f op => op.files f) files).2 a := by
  obtain ⟨s₀, hinit, hs₀, hl₀⟩ := frontInit_spec pool4 pool6 i m files.1 files.2 mem
  obtain ⟨s, hrun, hs, hl⟩ := run_spec ops hs₀ hl₀
  obtain ⟨L4, h4⟩ := hs.side4
  obtain ⟨L6, h6⟩ := hs.side6
  refine ⟨s₀, s, hinit, hrun, fun o tsc a => ?_, fun o tsc a => ?_⟩
  · obtain ⟨r, lb, hget, -, -, hans⟩ := getPolV4_spec hs o tsc a
    exact ⟨r, _, hget, hans, firstMatch_rule h4.live hl.rules4 a⟩
  · obtain ⟨r, lb, hget, -, -, hans⟩ := getPolV6_spec hs o tsc a
    exact ⟨r, _, hget, hans, firstMatch_rule h6.live hl.rules6 a⟩

end Sasat
