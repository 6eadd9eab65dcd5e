import Sasat.Front.SvrTbl

/-!
# `pol_tbl.c`

* `PolicyLine`: the three addresses of a line of the policy file, with the outcomes of the MAC
  resolution that loading it runs.
* `createPolicyTable`, `loadLine`, `getPolicy`: what the lines of one family do.
* `destroyPolicyTable`, `initPolicyTable`.
-/

namespace Sasat

open Intrusive

/-- A line of the policy file. -/
structure PolicyLine (n : ℕ) where
  saddr : Fin n → Byte
  netmask : Fin n → Byte
  svr : Fin n → Byte
  outcomes : MacOutcomes

section

variable {n : ℕ} {D : Type}

/-- `create_policy_table`. -/
def createPolicyTable (svrTbl : Ptr) (saddr netmask : Fin n → Byte) (s : PolSide n D) :
    PolSide n D :=
  { s with
    pols := Function.update s.pols s.brk (some ⟨maskIp saddr netmask, netmask, svrTbl, 0, 0⟩)
    polHead := s.polHead ++ [s.brk]
    brk := s.brk + 1 }

/-- The end of `parse_policy_line`. -/
def loadLine (s : PolSide n D) (line : PolicyLine n) : M (PolSide n D) := do
  let (svrTbl, s) ← getSvrTable line.outcomes line.svr s
  .ok (createPolicyTable svrTbl line.saddr line.netmask s)

/-- `get_policy`, the lines of one family. -/
def getPolicy (lines : List (PolicyLine n)) (s : PolSide n D) : M (PolSide n D) :=
  lines.foldlM loadLine s

/-- `destroy_policy_table`. -/
def destroyPolicyTable (s : PolSide n D) : PolSide n D :=
  { s with pols := fun p => if p ∈ s.polHead then none else s.pols p, polHead := [] }

/-- `TAILQ_INIT` of every queue of cache entries. -/
def initQueues (q : TailqHeap CacheList CachePtr) : TailqHeap CacheList CachePtr :=
  ((List.finRange lbPolDivisor).foldl (fun q b => q.init (.hash b)) q).init .free

def freeEntry (s : PolSide n D) (i : Fin lbMaxCache) : PolSide n D :=
  { s.modCache (.init i) fun c => { c with lbCacheType := 0, lbStat := .init } with
    tq := s.tq.insertTail .free (.init i) }

/-- The cache entries with a pool that `malloc` returned, or with the old one. -/
def poolMem (malloc : Option (Fin lbMaxCache → LbPolCache n D))
    (cache : CachePtr → LbPolCache n D) : CachePtr → LbPolCache n D
  | .init i => malloc.elim (cache (.init i)) fun pool => pool i
  | .fix => cache .fix

/-- `init_policy_table`. With `reset` there is no `malloc`. -/
def initPolicyTable (malloc : Option (Fin lbMaxCache → LbPolCache n D)) (s : PolSide n D) :
    PolSide n D :=
  let s := { s with polHead := [], tq := initQueues s.tq, cache := poolMem malloc s.cache }
  let s := (List.finRange lbMaxCache).foldl freeEntry s
  s.modCache .fix fun c => { c with lbCacheType := 1 }

theorem foldl_freeEntry_eq : ∀ (is : List (Fin lbMaxCache)) (s : PolSide n D),
    ∃ c q, is.foldl freeEntry s = { s with cache := c, tq := q }
  | [], s => ⟨s.cache, s.tq, rfl⟩
  | i :: is, s => by
    obtain ⟨c, q, h⟩ := foldl_freeEntry_eq is (freeEntry s i)
    exact ⟨c, q, h⟩

theorem initPolicyTable_eq (malloc : Option (Fin lbMaxCache → LbPolCache n D)) (s : PolSide n D) :
    ∃ c q, initPolicyTable malloc s = { s with polHead := [], cache := c, tq := q } := by
  obtain ⟨c, q, h⟩ := foldl_freeEntry_eq (List.finRange lbMaxCache)
    { s with polHead := [], tq := initQueues s.tq, cache := poolMem malloc s.cache }
  unfold initPolicyTable
  dsimp only
  rw [h]
  exact ⟨_, q, rfl⟩

/-- What a reload does to one family: `update_policy` with the policy file `lines`. -/
def reloadSide (lines : List (PolicyLine n)) (s : PolSide n D) : M (PolSide n D) :=
  getPolicy lines (initPolicyTable none (initSvrMngTable (destroySvrTbl (destroyPolicyTable s))))

end

end Sasat
