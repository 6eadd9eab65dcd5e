import Sasat.Common.Basic
import Sasat.Lib.Links

/-!
# `client_tbl.c`

The backend counts the packets of every client in four tables of the same shape: a pool of
`cliCache` entries, a free list and `cliDivisor` hash buckets, all linked through the entries.

* `Ci`, `CiTable`, `ClientInfo`: an entry, a table, `client_info`.
* `getFreeCi`, `creCi`, `getCi`: the functions of one table; an exhausted pool is recycled.
* `getCiUp4`, `getCiDwn4`, `getCiUp6`, `getCiDwn6` and the functions that they call,
  `initClientTable`: the four tables.
* `getCi_hit`, `getCi_insert`, **`getCi_recycle`**: the three things that a call can do.
* `CiCall`, `runCi`: sequences of calls.
-/

namespace Sasat

open Intrusive

def cliDivisor : ℕ := 1024

def cliMask : ℕ := cliDivisor - 1

def cliCache : ℕ := 256

abbrev CiPtr : Type := Fin cliCache

abbrev CiBucket : Type := Fin cliDivisor

/-- `ci_v4_t` and `ci_v6_t`. -/
structure Ci (A : Type) where
  /-- The `SLIST_ENTRY`. -/
  next : Option CiPtr
  hit : BitVec 32
  cliIp : A
  timestamp : BitVec 64

/-- One table of `client_info`: `cf_*`, `ch_*` and the pool at `*_init*`. -/
structure CiTable (A : Type) where
  cf : Option CiPtr
  ch : CiBucket → Option CiPtr
  init : CiPtr → Ci A

namespace CiTable

variable {A : Type} [Zero A]

/-- The links of the pool entries. -/
def next (t : CiTable A) (e : CiPtr) : Option CiPtr := (t.init e).next

def modify (t : CiTable A) (e : CiPtr) (f : Ci A → Ci A) : CiTable A :=
  { t with init := Function.update t.init e (f (t.init e)) }

/-- `clr_ci`: the pool is zeroed. -/
def clrCi (t : CiTable A) : CiTable A := { t with init := fun _ => ⟨none, 0, 0, 0⟩ }

/-- `SLIST_INSERT_HEAD` on the free list. -/
def insertFree (t : CiTable A) (e : CiPtr) : CiTable A :=
  { t.modify e fun c => { c with next := t.cf } with cf := some e }

/-- `SLIST_INIT` of the free list and the loop that puts every pool entry on it. -/
def fillFree (t : CiTable A) : CiTable A :=
  (List.finRange cliCache).foldl insertFree { t with cf := none }

/-- A table as `init_client_table` sets it up. -/
def initial : CiTable A :=
  fillFree ⟨none, fun _ => none, fun _ => ⟨none, 0, 0, 0⟩⟩

/-- `get_free_ci4` and `get_free_ci6`. -/
def getFreeCi (t : CiTable A) : Option CiPtr × CiTable A :=
  match t.cf with
  | none => (none, t)
  | some e => (some e, { t with cf := t.next e })

/-- The end of `cre_ci_*`: the entry takes the address and enters bucket `b`. -/
def enter (t : CiTable A) (saddr : A) (b : CiBucket) (e : CiPtr) : CiTable A :=
  { t.modify e fun c => { c with cliIp := saddr, next := t.ch b } with
    ch := Function.update t.ch b (some e) }

/-- `cre_ci_up4`, `cre_ci_dwn4`, `cre_ci_up6`, `cre_ci_dwn6`. -/
def creCi (t : CiTable A) (saddr : A) (b : CiBucket) : M (CiPtr × CiTable A) :=
  match getFreeCi t with
  | (some e, t) => .ok (e, t.enter saddr b e)
  | (none, t) =>
    match getFreeCi t.clrCi.fillFree with
    | (some e, t) => .ok (e, t.enter saddr b e)
    | (none, _) => .error .dangling

/-- `entry->hit++` and the time stamp. -/
def hit (t : CiTable A) (tsc : BitVec 64) (e : CiPtr) : CiTable A :=
  t.modify e fun c => { c with hit := c.hit + 1, timestamp := tsc }

variable [DecidableEq A]

/-- The bucket walk of `get_ci_*`: the first entry with the address. -/
def search (t : CiTable A) (hash : A → CiBucket) (saddr : A) (n : ℕ) : Option (Option CiPtr) :=
  walk t.next (fun e => (t.init e).cliIp == saddr) n (t.ch (hash saddr))

/-- `get_ci_up4`, `get_ci_dwn4`, `get_ci_up6`, `get_ci_dwn6`. A walk of more than one test for each
pool entry never ends (`walk_stuck`). -/
def getCi (hash : A → CiBucket) (tsc : BitVec 64) (saddr : A) (t : CiTable A) : M (CiTable A) :=
  match t.search hash saddr (cliCache + 1) with
  | none => .error .endless
  | some (some e) => .ok (t.hit tsc e)
  | some none => do
    let (e, t) ← t.creCi saddr (hash saddr)
    .ok (t.hit tsc e)

/-! ## What a call does -/

variable {t t' : CiTable A} {hash : A → CiBucket} {tsc : BitVec 64} {a : A}

section Fields

omit [DecidableEq A] [Zero A]

variable {e i : CiPtr} {f : Ci A → Ci A}

@[simp] theorem modify_init_self : (t.modify e f).init e = f (t.init e) :=
  Function.update_self _ _ _

theorem modify_init_of_ne (h : i ≠ e) : (t.modify e f).init i = t.init i :=
  Function.update_of_ne h _ _

theorem modify_keeps {B : Type} (g : Ci A → B) (h : g (f (t.init e)) = g (t.init e)) (i : CiPtr) :
    g ((t.modify e f).init i) = g (t.init i) := by
  by_cases hi : i = e
  · subst hi
    rw [modify_init_self, h]
  · rw [modify_init_of_ne hi]

theorem next_modify : (t.modify e f).next = Function.update t.next e (f (t.init e)).next := by
  funext i
  by_cases hi : i = e
  · subst hi
    rw [Function.update_self]
    exact congrArg Ci.next modify_init_self
  · rw [Function.update_of_ne hi]
    exact congrArg Ci.next (modify_init_of_ne hi)

@[simp] theorem next_hit : (t.hit tsc e).next = t.next := by
  unfold hit
  rw [next_modify]
  exact Function.update_eq_self _ _

theorem next_enter (b : CiBucket) : (t.enter a b e).next = Function.update t.next e (t.ch b) :=
  next_modify (t := t) (f := fun c => { c with cliIp := a, next := t.ch b })

theorem enter_init_self (b : CiBucket) :
    (t.enter a b e).init e = { t.init e with cliIp := a, next := t.ch b } :=
  modify_init_self (t := t) (f := fun c => { c with cliIp := a, next := t.ch b })

theorem enter_init_of_ne (b : CiBucket) (h : i ≠ e) : (t.enter a b e).init i = t.init i :=
  modify_init_of_ne (t := t) (f := fun c => { c with cliIp := a, next := t.ch b }) h

theorem next_insertFree : (t.insertFree e).next = Function.update t.next e t.cf :=
  next_modify (t := t) (f := fun c => { c with next := t.cf })

@[simp] theorem hit_cliIp : ((t.hit tsc e).init i).cliIp = (t.init i).cliIp :=
  modify_keeps Ci.cliIp rfl i

end Fields

theorem getCi_hit {e : CiPtr} (h : t.search hash a (cliCache + 1) = some (some e)) :
    getCi hash tsc a t = .ok (t.hit tsc e) := by
  unfold getCi
  rw [h]

theorem getCi_insert {e : CiPtr} (h : t.search hash a (cliCache + 1) = some none)
    (hf : t.cf = some e) : getCi hash tsc a t =
      .ok ((({ t with cf := t.next e } : CiTable A).enter a (hash a) e).hit tsc e) := by
  unfold getCi creCi getFreeCi
  rw [h, hf]
  rfl

omit [Zero A] [DecidableEq A] in
theorem foldl_insertFree : ∀ (l : List CiPtr) (t : CiTable A) (m : List CiPtr),
    Links t.next t.cf m → l.Nodup → (∀ e ∈ l, e ∉ m) →
      Links (l.foldl insertFree t).next (l.foldl insertFree t).cf (l.reverse ++ m) ∧
        (l.foldl insertFree t).ch = t.ch ∧
          ∀ e, ((l.foldl insertFree t).init e).hit = (t.init e).hit
  | [], t, m, h, _, _ => ⟨h, rfl, fun _ => rfl⟩
  | e :: l, t, m, h, hnd, hm => by
    obtain ⟨hel, hnd⟩ := List.nodup_cons.mp hnd
    have hpush : Links (t.insertFree e).next (t.insertFree e).cf (e :: m) := by
      rw [next_insertFree]
      exact h.push (hm e List.mem_cons_self)
    obtain ⟨h1, h2, h3⟩ := foldl_insertFree l (t.insertFree e) (e :: m) hpush hnd fun i hi => by
      rw [List.mem_cons, not_or]
      exact ⟨fun hie => hel (hie ▸ hi), hm i (List.mem_cons_of_mem _ hi)⟩
    refine ⟨?_, h2, fun i => (h3 i).trans ?_⟩
    · rwa [List.foldl_cons, List.reverse_cons, List.append_assoc]
    · exact modify_keeps (t := t) (f := fun c => { c with next := t.cf }) Ci.hit rfl i

/-- The entry that a full free list hands out first: the last one that was put on it. -/
def lastCi : CiPtr := Fin.last 255

/-- The rest of a full free list. -/
def restCi : List CiPtr := ((List.finRange 255).map Fin.castSucc).reverse

theorem reverse_finRange : (List.finRange cliCache).reverse = lastCi :: restCi := by
  change (List.finRange (255 + 1)).reverse = _
  rw [List.finRange_succ_last, List.reverse_append]
  rfl

omit [DecidableEq A] [Zero A] in
/-- **The refilled free list holds every entry, the last one first**; the buckets stay. -/
theorem fillFree_spec (t : CiTable A) : Links t.fillFree.next t.fillFree.cf (lastCi :: restCi) ∧
    t.fillFree.ch = t.ch ∧ ∀ e, (t.fillFree.init e).hit = (t.init e).hit := by
  have h := foldl_insertFree (List.finRange cliCache) ({ t with cf := none } : CiTable A) [] rfl
    (List.nodup_finRange _) (by simp)
  rwa [List.append_nil, reverse_finRange] at h

-- from here on the refilled table is known by its specification
attribute [irreducible] fillFree

theorem mem_restCi {e : CiPtr} (h : e ≠ lastCi) : e ∈ restCi := by
  have he : e ∈ lastCi :: restCi := by
    rw [← reverse_finRange]
    simp
  exact (List.mem_cons.mp he).resolve_left h

/-- **No entry is found and the free list is empty: the pool is recycled.** The refilled table `u`
keeps the heads of the buckets; the last entry of the pool enters the bucket in front of what its
head still points to. -/
theorem getCi_recycle (h : t.search hash a (cliCache + 1) = some none) (hf : t.cf = none) :
    ∃ u : CiTable A, Links u.next u.cf (lastCi :: restCi) ∧ u.ch = t.ch ∧ ∀ tsc,
      getCi hash tsc a t =
        .ok ((({ u with cf := u.next lastCi } : CiTable A).enter a (hash a) lastCi).hit tsc
          lastCi) := by
  obtain ⟨hfill, hch, -⟩ := fillFree_spec t.clrCi
  refine ⟨t.clrCi.fillFree, hfill, hch, fun tsc => ?_⟩
  unfold getCi creCi
  rw [h]
  simp only [getFreeCi, hf, hfill.1]
  rfl

end CiTable

/-! ## The four tables -/

/-- `ip_hash_code4(addr, CLI_MASK)`. -/
def cliHash4 (a : InAddr) : CiBucket := ⟨ipHashCode4 a cliMask, and_mask_lt _ (by decide)⟩

/-- `ip_hash_code6(addr, CLI_MASK)`. -/
def cliHash6 (a : In6Addr) : CiBucket := ⟨ipHashCode6 a cliMask, and_mask_lt _ (by decide)⟩

/-- `client_info_t`, with the fields of each table together. -/
structure ClientInfo where
  up4 : CiTable InAddr
  dwn4 : CiTable InAddr
  up6 : CiTable In6Addr
  dwn6 : CiTable In6Addr
  starttime : BitVec 64
  tsc : BitVec 64

/-- `init_client_table`. -/
def initClientTable (starttime tsc : BitVec 64) : ClientInfo :=
  ⟨.initial, .initial, .initial, .initial, starttime, tsc⟩

/-- `get_free_ci4`. -/
def getFreeCi4 (t : CiTable InAddr) : Option CiPtr × CiTable InAddr := t.getFreeCi

/-- `get_free_ci6`. -/
def getFreeCi6 (t : CiTable In6Addr) : Option CiPtr × CiTable In6Addr := t.getFreeCi

/-- `cre_ci_up4`. -/
def creCiUp4 (saddr : InAddr) (b : CiBucket) (ci : ClientInfo) : M (CiPtr × CiTable InAddr) :=
  ci.up4.creCi saddr b

/-- `cre_ci_dwn4`. -/
def creCiDwn4 (saddr : InAddr) (b : CiBucket) (ci : ClientInfo) : M (CiPtr × CiTable InAddr) :=
  ci.dwn4.creCi saddr b

/-- `cre_ci_up6`. -/
def creCiUp6 (saddr : In6Addr) (b : CiBucket) (ci : ClientInfo) : M (CiPtr × CiTable In6Addr) :=
  ci.up6.creCi saddr b

/-- `cre_ci_dwn6`. -/
def creCiDwn6 (saddr : In6Addr) (b : CiBucket) (ci : ClientInfo) : M (CiPtr × CiTable In6Addr) :=
  ci.dwn6.creCi saddr b

/-- `get_ci_up4`. -/
def getCiUp4 (tsc : BitVec 64) (saddr : InAddr) (ci : ClientInfo) : M ClientInfo := do
  let t ← ci.up4.getCi cliHash4 tsc saddr
  .ok { ci with up4 := t }

/-- `get_ci_dwn4`. -/
def getCiDwn4 (tsc : BitVec 64) (saddr : InAddr) (ci : ClientInfo) : M ClientInfo := do
  let t ← ci.dwn4.getCi cliHash4 tsc saddr
  .ok { ci with dwn4 := t }

/-- `get_ci_up6`. -/
def getCiUp6 (tsc : BitVec 64) (saddr : In6Addr) (ci : ClientInfo) : M ClientInfo := do
  let t ← ci.up6.getCi cliHash6 tsc saddr
  .ok { ci with up6 := t }

/-- `get_ci_dwn6`. -/
def getCiDwn6 (tsc : BitVec 64) (saddr : In6Addr) (ci : ClientInfo) : M ClientInfo := do
  let t ← ci.dwn6.getCi cliHash6 tsc saddr
  .ok { ci with dwn6 := t }

/-- A call of one of the four functions at a time. -/
inductive CiCall
  | up4 (tsc : BitVec 64) (saddr : InAddr)
  | dwn4 (tsc : BitVec 64) (saddr : InAddr)
  | up6 (tsc : BitVec 64) (saddr : In6Addr)
  | dwn6 (tsc : BitVec 64) (saddr : In6Addr)

def CiCall.step (ci : ClientInfo) : CiCall → M ClientInfo
  | .up4 tsc a => getCiUp4 tsc a ci
  | .dwn4 tsc a => getCiDwn4 tsc a ci
  | .up6 tsc a => getCiUp6 tsc a ci
  | .dwn6 tsc a => getCiDwn6 tsc a ci

def runCi (ci : ClientInfo) (calls : List CiCall) : M ClientInfo := calls.foldlM CiCall.step ci

/-! ## The tables as a family -/

/-- The tables of `client_info`. -/
inductive CiKind
  | up4 | dwn4 | up6 | dwn6
  deriving DecidableEq

namespace CiKind

def width : CiKind → ℕ
  | up4 | dwn4 => 4
  | up6 | dwn6 => 16

abbrev Addr (k : CiKind) : Type := Fin k.width → Byte

def hash : (k : CiKind) → k.Addr → CiBucket
  | up4 | dwn4 => cliHash4
  | up6 | dwn6 => cliHash6

end CiKind

def CiCall.kind : CiCall → CiKind
  | .up4 _ _ => .up4
  | .dwn4 _ _ => .dwn4
  | .up6 _ _ => .up6
  | .dwn6 _ _ => .dwn6

def CiCall.tsc : CiCall → BitVec 64
  | .up4 t _ | .dwn4 t _ | .up6 t _ | .dwn6 t _ => t

def CiCall.addr : (c : CiCall) → c.kind.Addr
  | .up4 _ a | .dwn4 _ a => a
  | .up6 _ a | .dwn6 _ a => a

namespace ClientInfo

def table (ci : ClientInfo) : (k : CiKind) → CiTable k.Addr
  | .up4 => ci.up4
  | .dwn4 => ci.dwn4
  | .up6 => ci.up6
  | .dwn6 => ci.dwn6

def setTable (ci : ClientInfo) : (k : CiKind) → CiTable k.Addr → ClientInfo
  | .up4, t => { ci with up4 := t }
  | .dwn4, t => { ci with dwn4 := t }
  | .up6, t => { ci with up6 := t }
  | .dwn6, t => { ci with dwn6 := t }

/-- `cre_ci_*` of a table. -/
def creCi (ci : ClientInfo) : (k : CiKind) → k.Addr → CiBucket → M (CiPtr × CiTable k.Addr)
  | .up4, a, b => creCiUp4 a b ci
  | .dwn4, a, b => creCiDwn4 a b ci
  | .up6, a, b => creCiUp6 a b ci
  | .dwn6, a, b => creCiDwn6 a b ci

variable {ci : ClientInfo} {k j : CiKind}

@[simp] theorem table_setTable_self (t : CiTable k.Addr) : (ci.setTable k t).table k = t := by
  cases k <;> rfl

theorem table_setTable_of_ne (h : j ≠ k) (t : CiTable k.Addr) :
    (ci.setTable k t).table j = ci.table j := by
  cases k <;> cases j <;> first | rfl | exact absurd rfl h

theorem table_initClientTable (starttime tsc : BitVec 64) :
    (initClientTable starttime tsc).table k = .initial := by
  cases k <;> rfl

end ClientInfo

/-- **A call works on one table.** -/
theorem CiCall.step_eq (c : CiCall) (ci : ClientInfo) : c.step ci =
    (ci.table c.kind).getCi c.kind.hash c.tsc c.addr >>= fun t => .ok (ci.setTable c.kind t) := by
  cases c <;> rfl

/-- `get_free_ci4` or `get_free_ci6`. -/
def CiKind.getFree : (k : CiKind) → CiTable k.Addr → Option CiPtr × CiTable k.Addr
  | .up4 | .dwn4 => getFreeCi4
  | .up6 | .dwn6 => getFreeCi6

section

variable {ci : ClientInfo} {k : CiKind} {a : k.Addr} {b : CiBucket} {e : CiPtr}
  {t t' : CiTable k.Addr}

theorem CiKind.getFree_eq (t : CiTable k.Addr) : k.getFree t = t.getFreeCi := by
  cases k <;> rfl

theorem ClientInfo.creCi_eq : ci.creCi k a b = (ci.table k).creCi a b := by
  cases k <;> rfl

/-- **A new entry comes from the free list.** -/
theorem ClientInfo.creCi_free (h : k.getFree (ci.table k) = (some e, t)) :
    ci.creCi k a b = .ok (e, t.enter a b e) := by
  rw [CiKind.getFree_eq] at h
  rw [creCi_eq, CiTable.creCi, h]

/-- **When the free list is empty**, the pool is cleared and put on it; the buckets stay. -/
theorem ClientInfo.creCi_refill (h : k.getFree (ci.table k) = (none, t))
    (hfill : k.getFree t.clrCi.fillFree = (some e, t')) :
    ci.creCi k a b = .ok (e, t'.enter a b e) := by
  rw [CiKind.getFree_eq] at h hfill
  rw [creCi_eq, CiTable.creCi, h]
  dsimp only
  rw [hfill]

end

/-- A call that finds no entry creates one and counts it up. -/
theorem CiCall.step_miss {c : CiCall} {ci : ClientInfo}
    (h : (ci.table c.kind).search c.kind.hash c.addr (cliCache + 1) = some none) :
    c.step ci = ci.creCi c.kind c.addr (c.kind.hash c.addr) >>= fun p =>
      .ok (ci.setTable c.kind (p.2.hit c.tsc p.1)) := by
  have hget : (ci.table c.kind).getCi c.kind.hash c.tsc c.addr =
      (ci.table c.kind).creCi c.addr (c.kind.hash c.addr) >>= fun p => .ok (p.2.hit c.tsc p.1) := by
    unfold CiTable.getCi
    rw [h]
  rw [step_eq, hget, ClientInfo.creCi_eq, bind_assoc]
  rfl

theorem CiCall.step_ok {c : CiCall} {ci : ClientInfo} {t : CiTable c.kind.Addr}
    (h : (ci.table c.kind).getCi c.kind.hash c.tsc c.addr = .ok t) :
    c.step ci = .ok (ci.setTable c.kind t) := by
  rw [step_eq, h]
  rfl

end Sasat
