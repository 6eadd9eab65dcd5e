import Sasat.Front.Policy

/-!
# `svr_tbl.c`

Servers are found by their address and created when there is none. The routing socket is not part
of the model: an attempt to resolve a MAC address has an outcome, and every outcome is possible.

* `resolveTargetMac`: the three attempts for one server.
* `findSvrTbl`, `getSvrTable`, `destroySvrTbl`, `initSvrMngTable`.
* **`resolveTargetMac_spec`**: the address stays, and so does an unresolved server or its success.
-/

namespace Sasat

section

variable {n : ℕ}

/-- The loop of `resolve_target_mac`. A zero MAC address is answered by a ping and another try. -/
def resolveLoop : List MacOutcome → ServerTbl n → ServerTbl n
  | [], svr => svr
  | o :: os, svr =>
    let svr := { svr with dstMac := o.mac }
    if o.ok = false then resolveLoop os svr
    else if o.mac = 0 then resolveLoop os svr
    else { svr with status := .ok }

/-- `resolve_target_mac`. -/
def resolveTargetMac (o : MacOutcomes) (svr : ServerTbl n) : ServerTbl n :=
  resolveLoop (List.ofFn o) svr

theorem resolveLoop_spec : ∀ (os : List MacOutcome) (svr : ServerTbl n),
    (resolveLoop os svr).svrIp = svr.svrIp ∧ (resolveLoop os svr).hit = svr.hit ∧
      ((resolveLoop os svr).status = svr.status ∨ (resolveLoop os svr).status = .ok)
  | [], _ => ⟨rfl, rfl, Or.inl rfl⟩
  | o :: os, svr => by
    rw [resolveLoop]
    split_ifs
    · exact resolveLoop_spec os _
    · exact resolveLoop_spec os _
    · exact ⟨rfl, rfl, Or.inr rfl⟩

/-- **An attempt touches the MAC address and the status only.** -/
theorem resolveTargetMac_spec (o : MacOutcomes) (svr : ServerTbl n) :
    (resolveTargetMac o svr).svrIp = svr.svrIp ∧ (resolveTargetMac o svr).hit = svr.hit ∧
      ((resolveTargetMac o svr).status = svr.status ∨ (resolveTargetMac o svr).status = .ok) :=
  resolveLoop_spec _ _

variable {D : Type}

/-- The search of `find_svr_tbl`. -/
def findSvr (svrs : Ptr → Option (ServerTbl n)) (addr : Fin n → Byte) :
    List Ptr → M (Option Ptr)
  | [] => .ok none
  | p :: ps => do
    let svr ← deref svrs p
    if svr.svrIp = addr then .ok (some p) else findSvr svrs addr ps

/-- `find_svr_tbl`. The zero address stands for packets to drop. -/
def findSvrTbl (addr : Fin n → Byte) (s : PolSide n D) : M (Ptr × PolSide n D) := do
  match ← findSvr s.svrs addr s.svrHead with
  | some p => .ok (p, s)
  | none =>
    let svr : ServerTbl n := ⟨if addr = 0 then .drop else .init, addr, 0, 0⟩
    .ok (s.brk, { s with
      svrs := Function.update s.svrs s.brk (some svr)
      svrHead := s.brk :: s.svrHead
      serverNum := s.serverNum + 1
      brk := s.brk + 1 })

/-- `get_svr_table`. -/
def getSvrTable (o : MacOutcomes) (addr : Fin n → Byte) (s : PolSide n D) :
    M (Ptr × PolSide n D) := do
  let (p, s) ← findSvrTbl addr s
  let svr ← deref s.svrs p
  if svr.status = .init then .ok (p, s.modSvr p (resolveTargetMac o)) else .ok (p, s)

/-- `destroy_svr_tbl`. -/
def destroySvrTbl (s : PolSide n D) : PolSide n D :=
  { s with svrs := fun p => if p ∈ s.svrHead then none else s.svrs p, svrHead := [] }

/-- `init_svr_mng_table`. -/
def initSvrMngTable (s : PolSide n D) : PolSide n D := { s with svrHead := [], serverNum := 0 }

end

end Sasat
