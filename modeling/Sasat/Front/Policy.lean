import Sasat.Common.Checksum
import Sasat.Lib.Tailq

/-!
# `policy.h` and `server.h` of the front translator

The data of the dispatcher. The IPv4 and the IPv6 half have the same shape, `PolSide`, and the same
code up to the few operations in `Family`. Policies and servers live in heaps; the policy list and
the server list hold pointers into them. The cache entries are linked as tail queues.

* `ServerTbl`, `LbPol`, `LbPolCache`, `PolSide`: a server, a policy, a cache entry, one half.
* `Family`, `family4`, `family6`: what the halves do differently.
* `FrontState`: the global variables of the translator.
-/

namespace Sasat

open Intrusive

def lbPolDivisor : ℕ := 4096

def lbPolMask : ℕ := lbPolDivisor - 1

def lbMaxCache : ℕ := 1024

inductive SvrStatus
  | init | ok | drop
  deriving DecidableEq

abbrev Ptr : Type := ℕ

/-- `server_tbl_t`. -/
structure ServerTbl (n : ℕ) where
  status : SvrStatus
  svrIp : Fin n → Byte
  dstMac : Mac
  /-- `srv_stat.hit`. -/
  hit : BitVec 32

/-- `lb_pol_v4_t` and `lb_pol_v6_t`. -/
structure LbPol (n : ℕ) where
  addr : Fin n → Byte
  mask : Fin n → Byte
  svr : Ptr
  useCount : BitVec 32
  hitCount : BitVec 32

/-- A pointer to a cache entry: into the pool, or to `fix4` or `fix6`. -/
inductive CachePtr
  | init (i : Fin lbMaxCache)
  | fix
  deriving DecidableEq

/-- The queues of cache entries: `lb_pol_free4` and `lb_pol_hash_v4`. -/
inductive CacheList
  | free
  | hash (b : Fin lbPolDivisor)
  deriving DecidableEq

/-- `lb_pol_cache_v4_t` and `lb_pol_cache_v6_t`. -/
structure LbPolCache (n : ℕ) (D : Type) where
  lbSrcIp : Fin n → Byte
  lbDstIp : Fin n → Byte
  lbDstMac : Mac
  lbCacheType : Byte
  lbStat : SvrStatus
  chksumDelta : D
  hit : BitVec 32
  polHit : Ptr
  svrHit : Ptr
  op : Option CachePtr
  timestamp : BitVec 64

/-- The policies, servers and cache entries of one address family. -/
structure PolSide (n : ℕ) (D : Type) where
  /-- `lb_pol_head4`. -/
  polHead : List Ptr
  pols : Ptr → Option (LbPol n)
  /-- `svr_mng_tbl.head4`. -/
  svrHead : List Ptr
  svrs : Ptr → Option (ServerTbl n)
  /-- The share of the family in `svr_mng_tbl.server_num`. -/
  serverNum : ℕ
  /-- The next address that `calloc` returns. -/
  brk : Ptr
  cache : CachePtr → LbPolCache n D
  tq : TailqHeap CacheList CachePtr
  /-- The flag `DEL_CACHE4` of `patrol_flag`. -/
  delCache : Bool
  /-- The static `ptr4` of `proc_patrol`. -/
  ptr : ℕ

/-- What the code of the two address families does differently. -/
structure Family (n : ℕ) (D : Type) where
  hash : (Fin n → Byte) → Fin lbPolDivisor
  delta : (Fin n → Byte) → D

/-- IPv4, with the checksum delta against `if_ingress->vip4`. -/
def family4 (vip4 : InAddr) : Family 4 (BitVec 16) where
  hash a := ⟨ipHashCode4 a lbPolMask, and_mask_lt _ (by decide)⟩
  delta := calcChksumDelta vip4

/-- IPv6, whose entries have no checksum delta. -/
def family6 : Family 16 Unit where
  hash a := ⟨ipHashCode6 a lbPolMask, and_mask_lt _ (by decide)⟩
  delta _ := ()

/-- `mask_ipv6`, and the `&` of the IPv4 code. -/
def maskIp {n : ℕ} (ip mask : Fin n → Byte) : Fin n → Byte := fun i => ip i &&& mask i

def deref {α : Type} (heap : Ptr → Option α) (p : Ptr) : M α :=
  match heap p with
  | some a => .ok a
  | none => .error .dangling

def poke {α : Type} (heap : Ptr → Option α) (p : Ptr) (f : α → α) : Ptr → Option α :=
  Function.update heap p ((heap p).map f)

section Heap

variable {α : Type} {heap : Ptr → Option α} {p q : Ptr} {a : α} {f : α → α}

theorem deref_eq (h : heap p = some a) : deref heap p = .ok a := by
  rw [deref, h]

theorem poke_self (h : heap p = some a) : poke heap p f p = some (f a) := by
  rw [poke, Function.update_self, h]
  rfl

theorem poke_of_ne (h : q ≠ p) : poke heap p f q = heap q := Function.update_of_ne h _ _

theorem map_poke {β : Type} (g : α → β) (h : ∀ a, g (f a) = g a) (q : Ptr) :
    (poke heap p f q).map g = (heap q).map g := by
  by_cases hq : q = p
  · subst hq
    cases hp : heap q with
    | none => rw [poke, Function.update_self, hp]; rfl
    | some a => rw [poke_self hp]; exact congrArg some (h a)
  · rw [poke_of_ne hq]

end Heap

namespace PolSide

variable {n : ℕ} {D : Type} (s : PolSide n D)

def modPol (p : Ptr) (f : LbPol n → LbPol n) : PolSide n D := { s with pols := poke s.pols p f }

def modSvr (p : Ptr) (f : ServerTbl n → ServerTbl n) : PolSide n D :=
  { s with svrs := poke s.svrs p f }

def modCache (e : CachePtr) (f : LbPolCache n D → LbPolCache n D) : PolSide n D :=
  { s with cache := Function.update s.cache e (f (s.cache e)) }

variable {s} {e e' : CachePtr} {f : LbPolCache n D → LbPolCache n D}

@[simp] theorem modCache_tq : (s.modCache e f).tq = s.tq := rfl

theorem modCache_self : (s.modCache e f).cache e = f (s.cache e) := Function.update_self _ _ _

theorem modCache_of_ne (h : e' ≠ e) : (s.modCache e f).cache e' = s.cache e' :=
  Function.update_of_ne h _ _

end PolSide

inductive FrontStat
  | rxPacketMc | rxPacketV4 | rxPacketV6 | rxDropShort | rxDropNoip | rxDrop
  | rxDropAddrV4 | rxDropAddrV6 | rxDropPolicy | txPacketV4 | txPacketV6
  | txArpReply | txNa | clrPolicyCache
  deriving DecidableEq

/-- The global variables of the front translator. Its two interfaces are the same. -/
structure FrontState where
  lb4 : PolSide 4 (BitVec 16)
  lb6 : PolSide 16 Unit
  ifIngress : Ifdata
  vipMode : Bool
  /-- The copy of `if_ingress->vip4` that the packet thread makes when it starts. -/
  vip4 : InAddr
  vip6 : In6Addr
  io : Io FrontStat

end Sasat
