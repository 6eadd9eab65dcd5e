import Sasat.Front.PolTbl
import Sasat.Lib.Links

/-!
# `pol_lookup.c`

The source address of a packet is looked up in the cache and, failing that, in the policy list. An
entry of the pool is filled and hashed; when the pool is used up the `fix` entry is filled instead
and the patrol starts to sweep the cache.

* `policyLookup`, `getFreePolCache`, `freePolCache`, `getPolSlow`, `getPol`: over a `Family`.
* `clearBucket`, `clearCache`: the sweep.
* `getPolV4`, `getPolV6`, `procPatrol`: on the global state.
-/

namespace Sasat

open Intrusive

section

variable {n : ℕ} {D : Type}

/-- The retry loop of `policy_lookup4`: the last attempt is not looked at. -/
def trySvr (o : ℕ → MacOutcomes) : ℕ → ServerTbl n → Bool × ServerTbl n
  | 0, svr => (false, svr)
  | k + 1, svr =>
    if svr.status ≠ .init then (true, svr) else trySvr o k (resolveTargetMac (o k) svr)

/-- `policy_lookup4` and `policy_lookup6`. -/
def policyLookup (o : ℕ → MacOutcomes) (saddr : Fin n → Byte) (s : PolSide n D) :
    List Ptr → M (Option Ptr × PolSide n D)
  | [] => .ok (none, s)
  | p :: ps => do
    let pol ← deref s.pols p
    if maskIp saddr pol.mask = pol.addr then
      let svr ← deref s.svrs pol.svr
      let (found, svr) := trySvr o 4 svr
      .ok (if found then some p else none, s.modSvr pol.svr fun _ => svr)
    else policyLookup o saddr s ps

/-- `get_free_pol_cache4` and `get_free_pol_cache6`. -/
def getFreePolCache (s : PolSide n D) : CachePtr × PolSide n D :=
  match s.tq.first .free with
  | none => (.fix, { s with delCache := true })
  | some e => (e, { s.modCache e fun c => { c with hit := 0 } with tq := s.tq.remove .free e })

/-- `free_pol_cache4` and `free_pol_cache6`. -/
def freePolCache (e : CachePtr) (s : PolSide n D) : PolSide n D :=
  { s.modCache e fun c => { c with lbStat := .init } with tq := s.tq.insertTail .free e }

/-- `(*entry->pol_hit)++` and `(*entry->svr_hit)++`. -/
def countHit (pol svr : Ptr) (s : PolSide n D) : PolSide n D :=
  (s.modPol pol fun f => { f with hitCount := f.hitCount + 1 }).modSvr svr
    fun v => { v with hit := v.hit + 1 }

@[simp] theorem countHit_cache (p q : Ptr) (s : PolSide n D) :
    (countHit p q s).cache = s.cache := rfl

/-- The lines of `get_pol_slow_v4` that fill the entry with policy `p` and its server. -/
def fillCache (p : Ptr) (pol : LbPol n) (svr : ServerTbl n) (saddr : Fin n → Byte)
    (c : LbPolCache n D) : LbPolCache n D :=
  { c with
    lbSrcIp := saddr
    lbDstIp := svr.svrIp
    lbDstMac := svr.dstMac
    lbStat := svr.status
    polHit := p
    svrHit := pol.svr
    hit := c.hit + 1 }

/-- The time stamp and the `TAILQ_INSERT_HEAD` of an entry of the pool. -/
def hashEntry (F : Family n D) (tsc : BitVec 64) (saddr : Fin n → Byte) (e : CachePtr)
    (s : PolSide n D) : PolSide n D :=
  { s.modCache e fun c => { c with timestamp := tsc } with
    tq := s.tq.insertHead (.hash (F.hash saddr)) e }

/-- `get_pol_slow_v4` once it has its entry `e`. -/
def fillEntry (F : Family n D) (tsc : BitVec 64) (saddr : Fin n → Byte) (p : Ptr) (pol : LbPol n)
    (svr : ServerTbl n) (e : CachePtr) (s : PolSide n D) : Option CachePtr × PolSide n D :=
  let s := s.modCache e (fillCache p pol svr saddr)
  let s := countHit p pol.svr s
  let s := if (s.cache e).lbCacheType = 0 then hashEntry F tsc saddr e s else s
  if (s.cache e).lbStat = .drop then
    (none, s.modCache e fun c => { c with op := none })
  else
    (some e, s.modCache e fun c => { c with chksumDelta := F.delta c.lbDstIp, op := some e })

/-- `get_pol_slow_v4` and `get_pol_slow_v6`. -/
def getPolSlow (F : Family n D) (o : ℕ → MacOutcomes) (tsc : BitVec 64) (saddr : Fin n → Byte)
    (s : PolSide n D) : M (Option CachePtr × PolSide n D) := do
  let (f, s) ← policyLookup o saddr s s.polHead
  match f with
  | none => .ok (none, s)
  | some p =>
    let pol ← deref s.pols p
    let svr ← deref s.svrs pol.svr
    let s := s.modPol p fun f => { f with useCount := f.useCount + 1 }
    let (e, s) := getFreePolCache s
    .ok (fillEntry F tsc saddr p pol svr e s)

/-- `get_pol_v4` and `get_pol_v6`. A walk of more tests than there are entries never ends. -/
def getPol (F : Family n D) (o : ℕ → MacOutcomes) (tsc : BitVec 64) (saddr : Fin n → Byte)
    (s : PolSide n D) : M (Option CachePtr × PolSide n D) :=
  match walk s.tq.next (fun e => (s.cache e).lbSrcIp == saddr) (lbMaxCache + 2)
      (s.tq.first (.hash (F.hash saddr))) with
  | none => .error .endless
  | some none => getPolSlow F o tsc saddr s
  | some (some e) => do
    let s := s.modCache e fun c => { c with hit := c.hit + 1 }
    let _ ← deref s.pols (s.cache e).polHit
    let _ ← deref s.svrs (s.cache e).svrHit
    .ok ((s.cache e).op, countHit (s.cache e).polHit (s.cache e).svrHit s)

/-- The inner loop of `clear_v4_cache` from `entry` on, after `i` entries. -/
def clearBucket (b : Fin lbPolDivisor) : ℕ → Option CachePtr → ℕ → PolSide n D →
    M (ℕ × PolSide n D)
  | 0, _, _, _ => .error .endless
  | _ + 1, none, i, s => .ok (i, s)
  | k + 1, some e, i, s =>
    let entryNext := s.tq.next e
    clearBucket b k entryNext (i + 1)
      (freePolCache e { s with tq := s.tq.remove (.hash b) e })

theorem lbPolDivisor_sub_lt (k : ℕ) : lbPolDivisor - (k + 1) < lbPolDivisor :=
  Nat.sub_lt (by decide) k.succ_pos

/-- The outer loop of `clear_v4_cache`, with `k` buckets ahead; the number that is left. -/
def clearLoop : ℕ → PolSide n D → M (ℕ × PolSide n D)
  | 0, s => .ok (0, s)
  | k + 1, s => do
    let b : Fin lbPolDivisor := ⟨lbPolDivisor - (k + 1), lbPolDivisor_sub_lt k⟩
    let (i, s) ← clearBucket b (lbMaxCache + 2) (s.tq.first (.hash b)) 0 s
    if i = 0 then clearLoop k s else .ok (k, s)

/-- `clear_v4_cache` and `clear_v6_cache`. -/
def clearCache (ptr : ℕ) (s : PolSide n D) : M (ℕ × PolSide n D) := do
  let (k, s) ← clearLoop (lbPolDivisor - ptr) s
  .ok (lbPolDivisor - k, s)

/-- What `proc_patrol` does for one family. -/
def patrolSide (s : PolSide n D) : M (PolSide n D) :=
  if s.delCache then do
    let (ptr, s) ← clearCache s.ptr s
    if ptr = lbPolDivisor then .ok { s with ptr := 0, delCache := false }
    else .ok { s with ptr := ptr }
  else .ok s

end

/-! ## The global state -/

/-- `get_pol_v4`. -/
def getPolV4 (o : ℕ → MacOutcomes) (tsc : BitVec 64) (saddr : InAddr) (s : FrontState) :
    M (Option CachePtr × FrontState) := do
  let (e, lb) ← getPol (family4 s.ifIngress.vip4) o tsc saddr s.lb4
  .ok (e, { s with lb4 := lb })

/-- `get_pol_v6`. -/
def getPolV6 (o : ℕ → MacOutcomes) (tsc : BitVec 64) (saddr : In6Addr) (s : FrontState) :
    M (Option CachePtr × FrontState) := do
  let (e, lb) ← getPol family6 o tsc saddr s.lb6
  .ok (e, { s with lb6 := lb })

/-- `proc_patrol`, and the timeout that it sets. -/
def procPatrol (s : FrontState) : M (ℕ × FrontState) :=
  if s.lb4.delCache || s.lb6.delCache then do
    let lb4 ← patrolSide s.lb4
    let lb6 ← patrolSide s.lb6
    .ok (if lb4.delCache || lb6.delCache then 1 else 5,
      { s with lb4 := lb4, lb6 := lb6, io := s.io.stat .clrPolicyCache })
  else .ok (5, s)

end Sasat
