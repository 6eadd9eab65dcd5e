import Sasat.Front.Front
import Sasat.Lib.Inevitable

/-!
# The two threads of the front translator

The main thread brings up a packet thread, serves commands, and for every reload stops the packet
thread, builds the tables anew and brings up the next one. The packet thread is cancelled: the
cancellation stays pending until it comes to a cancellation point, and then its cleanup handler
runs.

A `pthread_t` has `w` bits. `main` keeps the one of its thread in an `int`.

* `NetPc`, `ThreadStep`: the packet thread, `front_ingress1` and `front_cleanup`.
* `MainPc`, `MainStep`: the main thread, `main`, `create_net_thread` and `update_policy`.
* `Run`: any interleaving from the start of the program, with the outcomes of `create_net_thread`.
-/

namespace Sasat

/-- `MAX_RECV`. -/
def frontMaxRecv : ℕ := 128

/-! ## The packet thread -/

/-- Where a packet thread is. The cleanup handler is installed from `report` on. -/
inductive NetPc
  | initSocketIf
  | failed
  | setSockfd (fd : ℕ)
  | copyVip
  | cleanupPush
  | report
  | select
  | recv (i : ℕ)
  | handle (i : ℕ)
  | patrol
  | frontCleanup
  | cancelEnd
  | dead
  deriving DecidableEq

/-- A packet thread, with its pending cancellation. -/
structure NetThread where
  pc : NetPc
  cancelled : Bool
  deriving DecidableEq

/-- The memory that the threads share: the variable `wait` of `create_net_thread`, the flag
`nt_info.th[0].cancel_end`, and the global variables. -/
structure Shared where
  wait : ℤ
  cancelEnd : Bool
  data : FrontState

/-- What the handling of a frame has done when it is cancelled. It waits while it resolves a MAC
address and when it writes a frame; at a write the entry has been looked up. -/
inductive Interrupted (s : FrontState) : FrontState → Prop
  | write (io : Io FrontStat) : Interrupted s { s with io := io }
  | resolve4 {p : Ptr} {v : ServerTbl 4} (mac : Mac) (io : Io FrontStat) :
      s.lb4.svrs p = some v → v.status = .init →
      Interrupted s { s with lb4 := s.lb4.modSvr p fun v => { v with dstMac := mac }, io := io }
  | resolve6 {p : Ptr} {v : ServerTbl 16} (mac : Mac) (io : Io FrontStat) :
      s.lb6.svrs p = some v → v.status = .init →
      Interrupted s { s with lb6 := s.lb6.modSvr p fun v => { v with dstMac := mac }, io := io }
  | write4 {r : Option CachePtr} {s' : FrontState} (o : ℕ → MacOutcomes) (tsc : BitVec 64)
      (a : InAddr) (io : Io FrontStat) : getPolV4 o tsc a s = .ok (r, s') →
      Interrupted s { s' with io := io }
  | write6 {r : Option CachePtr} {s' : FrontState} (o : ℕ → MacOutcomes) (tsc : BitVec 64)
      (a : In6Addr) (io : Io FrontStat) : getPolV6 o tsc a s = .ok (r, s') →
      Interrupted s { s' with io := io }

/-- A step of a packet thread. A pending cancellation acts at `init_socket_if`, `select`, `recv` and
in the handling of a frame; before the handler is installed it just ends the thread. -/
inductive ThreadStep : NetThread → Shared → NetThread → Shared → Prop
  | initSocketIf (c : Bool) (s : Shared) (fd : ℕ) :
      ThreadStep ⟨.initSocketIf, c⟩ s ⟨.setSockfd fd, c⟩ s
  | initError (c : Bool) (s : Shared) : ThreadStep ⟨.initSocketIf, c⟩ s ⟨.failed, c⟩ s
  | initCancel (s : Shared) : ThreadStep ⟨.initSocketIf, true⟩ s ⟨.dead, true⟩ s
  | failed (c : Bool) (s : Shared) : ThreadStep ⟨.failed, c⟩ s ⟨.dead, c⟩ { s with wait := -1 }
  | setSockfd (c : Bool) (s : Shared) (fd : ℕ) :
      ThreadStep ⟨.setSockfd fd, c⟩ s ⟨.copyVip, c⟩
        { s with data.ifIngress.sockfd := fd }
  | copyVip (c : Bool) (s : Shared) :
      ThreadStep ⟨.copyVip, c⟩ s ⟨.cleanupPush, c⟩
        { s with data.vip4 := s.data.ifIngress.vip4, data.vip6 := s.data.ifIngress.vip6 }
  | cleanupPush (c : Bool) (s : Shared) : ThreadStep ⟨.cleanupPush, c⟩ s ⟨.report, c⟩ s
  | report (c : Bool) (s : Shared) : ThreadStep ⟨.report, c⟩ s ⟨.select, c⟩ { s with wait := 1 }
  | selectReady (s : Shared) : ThreadStep ⟨.select, false⟩ s ⟨.recv 0, false⟩ s
  | selectTimeout (s : Shared) : ThreadStep ⟨.select, false⟩ s ⟨.patrol, false⟩ s
  | selectCancel (s : Shared) : ThreadStep ⟨.select, true⟩ s ⟨.frontCleanup, true⟩ s
  | recv (s : Shared) (i : ℕ) : i < frontMaxRecv →
      ThreadStep ⟨.recv i, false⟩ s ⟨.handle i, false⟩ s
  | recvNone (s : Shared) (i : ℕ) : i < frontMaxRecv →
      ThreadStep ⟨.recv i, false⟩ s ⟨.patrol, false⟩ s
  | recvCancel (s : Shared) (i : ℕ) : i < frontMaxRecv →
      ThreadStep ⟨.recv i, true⟩ s ⟨.frontCleanup, true⟩ s
  | recvMax (c : Bool) (s : Shared) (i : ℕ) : ¬ i < frontMaxRecv →
      ThreadStep ⟨.recv i, c⟩ s ⟨.patrol, c⟩ s
  | handle (c : Bool) (s : Shared) (i lim : ℕ) (o : ℕ → MacOutcomes) (tsc : BitVec 64)
      (b b' : Buf) (len : ℕ) (d : FrontState) :
      frontIngress1 lim o tsc b len s.data = .ok (b', d) →
      ThreadStep ⟨.handle i, c⟩ s ⟨.recv (i + 1), c⟩ { s with data := d }
  | handleCancel (s : Shared) (i : ℕ) (d : FrontState) : Interrupted s.data d →
      ThreadStep ⟨.handle i, true⟩ s ⟨.frontCleanup, true⟩ { s with data := d }
  | patrol (c : Bool) (s : Shared) (tv : ℕ) (d : FrontState) : procPatrol s.data = .ok (tv, d) →
      ThreadStep ⟨.patrol, c⟩ s ⟨.select, c⟩ { s with data := d }
  | frontCleanup (c : Bool) (s : Shared) :
      ThreadStep ⟨.frontCleanup, c⟩ s ⟨.cancelEnd, c⟩ { s with data.ifIngress.sockfd := 0 }
  | cancelEnd (c : Bool) (s : Shared) :
      ThreadStep ⟨.cancelEnd, c⟩ s ⟨.dead, c⟩ { s with cancelEnd := true }

/-! ## The main thread -/

/-- The two functions that build the tables and call `create_net_thread`. -/
inductive Caller
  | main | updatePolicy
  deriving DecidableEq

inductive MainPc (w : ℕ)
  | initSvrMngTable (c : Caller)
  | initPolicyTable (c : Caller)
  | getInterfaceInfo (c : Caller)
  | getPolicy (c : Caller)
  | pthreadCreate (c : Caller)
  | waitInit (c : Caller) (tid : BitVec w)
  | storeTid (c : Caller) (tid : BitVec w)
  | commandProc
  | clearCancelEnd
  | pthreadCancel
  | waitStop
  | destroyPolicyTable
  | destroySvrTbl
  | exit

/-- The threads and their memory; `nt_info.th[0].tid` is kept in `tid`. -/
structure Sys (w : ℕ) extends Shared where
  main : MainPc w
  net : BitVec w → NetThread
  tid : BitVec w

section

variable {w : ℕ}

/-- The value of a `pthread_t` once it has been assigned to an `int`. -/
def intOfTid (tid : BitVec w) : BitVec w := (tid.setWidth 32).signExtend w

/-- Where the caller goes when `create_net_thread` returns 0. -/
def Caller.onError : Caller → MainPc w
  | .main => .exit
  | .updatePolicy => .commandProc

/-- `init_policy_table(0)` in `main`, `init_policy_table(1)` in `update_policy`. -/
def Caller.malloc {α : Type} (c : Caller) (pool : α) : Option α :=
  match c with
  | .main => some pool
  | .updatePolicy => none

/-- `pthread_cancel`. -/
def pthreadCancel (net : BitVec w → NetThread) (tid : BitVec w) : BitVec w → NetThread :=
  if (net tid).pc = .dead then net
  else Function.update net tid { net tid with cancelled := true }

def FrontState.mapSides (s : FrontState) (f : PolSide 4 (BitVec 16) → PolSide 4 (BitVec 16))
    (g : PolSide 16 Unit → PolSide 16 Unit) : FrontState :=
  { s with lb4 := f s.lb4, lb6 := g s.lb6 }

/-- The outcome of a call of `create_net_thread`: the identifier of the thread, or 0. -/
abbrev Created (w : ℕ) : Type := Caller × Option (BitVec w)

/-- A step of the main thread. It is labelled when `create_net_thread` returns. The loops that
sleep take no step; `main` ends the process when it returns. -/
inductive MainStep (σ : Sys w) : Option (Created w) → Sys w → Prop
  | initSvrMngTable (c : Caller) : σ.main = .initSvrMngTable c →
      MainStep σ none { σ with
        main := .initPolicyTable c
        data := σ.data.mapSides Sasat.initSvrMngTable Sasat.initSvrMngTable }
  | initPolicyTable (c : Caller) (pool4 : Fin lbMaxCache → LbPolCache 4 (BitVec 16))
      (pool6 : Fin lbMaxCache → LbPolCache 16 Unit) : σ.main = .initPolicyTable c →
      MainStep σ none { σ with
        main := .getInterfaceInfo c
        data := σ.data.mapSides (Sasat.initPolicyTable (c.malloc pool4))
          (Sasat.initPolicyTable (c.malloc pool6)) }
  | getInterfaceInfo (c : Caller) (i : Ifdata) (m : Bool) : σ.main = .getInterfaceInfo c →
      MainStep σ none { σ with
        main := .getPolicy c
        data.ifIngress := { i with sockfd := σ.data.ifIngress.sockfd }
        data.vipMode := m }
  | getPolicy (c : Caller) (lines4 : List (PolicyLine 4)) (lines6 : List (PolicyLine 16))
      (lb4 : PolSide 4 (BitVec 16)) (lb6 : PolSide 16 Unit) : σ.main = .getPolicy c →
      Sasat.getPolicy lines4 σ.data.lb4 = .ok lb4 → Sasat.getPolicy lines6 σ.data.lb6 = .ok lb6 →
      MainStep σ none { σ with main := .pthreadCreate c, data.lb4 := lb4, data.lb6 := lb6 }
  | createError (c : Caller) : σ.main = .pthreadCreate c →
      MainStep σ (some (c, none)) { σ with main := c.onError }
  | create (c : Caller) (tid : BitVec w) : σ.main = .pthreadCreate c → tid ≠ 0 →
      (σ.net tid).pc = .dead →
      MainStep σ none { σ with
        main := .waitInit c tid
        wait := 0
        net := Function.update σ.net tid ⟨.initSocketIf, false⟩ }
  | initError (c : Caller) (tid : BitVec w) : σ.main = .waitInit c tid → σ.wait = -1 →
      MainStep σ (some (c, none)) { σ with main := c.onError }
  | initDone (c : Caller) (tid : BitVec w) : σ.main = .waitInit c tid → σ.wait ≠ 0 →
      σ.wait ≠ -1 → MainStep σ (some (c, some tid)) { σ with main := .storeTid c tid }
  | storeTid (tid : BitVec w) : σ.main = .storeTid .updatePolicy tid →
      MainStep σ none { σ with main := .commandProc, tid := tid }
  | storeInt (tid : BitVec w) : σ.main = .storeTid .main tid → intOfTid tid ≠ 0 →
      MainStep σ none { σ with main := .commandProc, tid := intOfTid tid }
  | storeZero (tid : BitVec w) : σ.main = .storeTid .main tid → intOfTid tid = 0 →
      MainStep σ none { σ with main := .exit }
  | exit : σ.main = .exit → MainStep σ none { σ with net := fun _ => ⟨.dead, false⟩ }
  | updatePolicy : σ.main = .commandProc → MainStep σ none { σ with main := .clearCancelEnd }
  | clearCancelEnd : σ.main = .clearCancelEnd →
      MainStep σ none { σ with main := .pthreadCancel, cancelEnd := false }
  | pthreadCancel : σ.main = .pthreadCancel →
      MainStep σ none { σ with main := .waitStop, net := Sasat.pthreadCancel σ.net σ.tid }
  | stopped : σ.main = .waitStop → σ.cancelEnd = true →
      MainStep σ none { σ with main := .destroyPolicyTable }
  | destroyPolicyTable : σ.main = .destroyPolicyTable →
      MainStep σ none { σ with
        main := .destroySvrTbl
        data := σ.data.mapSides Sasat.destroyPolicyTable Sasat.destroyPolicyTable }
  | destroySvrTbl : σ.main = .destroySvrTbl →
      MainStep σ none { σ with
        main := .initSvrMngTable .updatePolicy
        data := σ.data.mapSides Sasat.destroySvrTbl Sasat.destroySvrTbl }

/-- A step of the packet thread `tid`. -/
inductive NetStep (tid : BitVec w) (σ : Sys w) : Sys w → Prop
  | step (θ : NetThread) (s : Shared) : ThreadStep (σ.net tid) σ.toShared θ s →
      NetStep tid σ { σ with toShared := s, net := Function.update σ.net tid θ }

/-- The start of the program, on any memory. -/
def boot (mem : Shared) (tid : BitVec w) : Sys w where
  toShared := mem
  main := .initSvrMngTable .main
  net _ := ⟨.dead, false⟩
  tid := tid

/-- An interleaving of the two threads, with the outcomes of `create_net_thread`, latest first. -/
inductive Run : List (Created w) → Sys w → Prop
  | boot (mem : Shared) (tid : BitVec w) : Run [] (boot mem tid)
  | main {outs : List (Created w)} {σ σ' : Sys w} {l : Option (Created w)} :
      Run outs σ → MainStep σ l σ' → Run (l.toList ++ outs) σ'
  | net {outs : List (Created w)} {σ σ' : Sys w} (tid : BitVec w) :
      Run outs σ → NetStep tid σ σ' → Run outs σ'

end

end Sasat
